import DataShapes.Proofs.Schema.Chains

/-! # Reading schemas

A call is told by its name and by what its argument begins with, and a chain of calls ends where no point follows. So
schemas with the same text have the same chain and are the same, marks for what is put off included. -/

namespace DataShapes

/-! ### Rows -/

namespace Call

/-- Rows with commas are told up to a close that begins neither with a comma nor as a part. -/
theorem row_inj {α : Type} {part : α → List Char} {valid : α → Prop} {follows : List Char → Prop} {c : Char}
    (close : List Char) (hc : ',' ≠ c) (hseparator : ∀ r, follows (',' :: [' '] ++ r))
    (hclose : ∀ r, follows (c :: close ++ r)) (hfirst : ∀ x, valid x → ∀ r r', part x ++ r ≠ c :: r') {xs ys : List α}
    (hxs : ∀ x ∈ xs, valid x ∧ Told part valid follows x) (hys : ∀ y ∈ ys, valid y)
    {r r' : List Char} (h : row part xs ++ (c :: close ++ r) = row part ys ++ (c :: close ++ r')) :
    xs = ys ∧ r = r' := by
  have hfollows : ∀ (zs : List α) (rest : List Char),
      follows ((zs.flatMap fun z => ',' :: [' '] ++ part z) ++ (c :: close ++ rest)) := by
    intro zs rest
    cases zs with
    | nil => exact hclose rest
    | cons z zs =>
      simp only [List.flatMap_cons, List.append_assoc]
      exact hseparator _
  cases xs with
  | nil =>
    cases ys with
    | nil => exact ⟨rfl, List.append_cancel_left (List.append_cancel_left h)⟩
    | cons y ys =>
      simp only [row, List.nil_append, List.append_assoc] at h
      exact absurd h.symm (hfirst y (hys y List.mem_cons_self) _ _)
  | cons x xs =>
    obtain ⟨⟨hvalid, hx⟩, hxs⟩ := List.forall_mem_cons.mp hxs
    cases ys with
    | nil =>
      simp only [row, List.nil_append, List.append_assoc] at h
      exact absurd h (hfirst x hvalid _ _)
    | cons y ys =>
      obtain ⟨hy, hothers⟩ := List.forall_mem_cons.mp hys
      simp only [row, List.append_assoc] at h
      obtain ⟨rfl, hrows⟩ := hx y _ _ hy (hfollows xs r) (hfollows ys r') h
      obtain ⟨rfl, hr⟩ := rows_inj [' '] close hc hseparator hclose (fun x hx => (hxs x hx).2) hothers hrows
      exact ⟨rfl, hr⟩

end Call

/-! ### What is told of a call -/

/-- What comes after a schema neither goes on with its identifier nor calls anything on the schema. -/
def Ended (rest : List Char) : Prop := ∀ c ∈ rest.head?, Quoted.isIdentifierRest c = false ∧ c ≠ '.'

/-- The text of the schema is told from that of any other. -/
def Placed.Readable (placed : Placed) : Prop := Told (fun placed => placed.text.toList) Placed.Named Ended placed

theorem ended_cons {c : Char} {rest : List Char} (h : Quoted.isIdentifierRest c = false ∧ c ≠ '.') :
    Ended (c :: rest) := by
  rintro _ ⟨⟩
  exact h

theorem Placed.text_append_ne {placed : Placed} (h : placed.Named) {c : Char}
    (hc : Quoted.isIdentifierStart c = false) (r r' : List Char) : placed.text.toList ++ r ≠ c :: r' := by
  obtain ⟨first, rest, hroot, hstart, -⟩ := Quoted.exists_of_isIdentifier (isIdentifier_root h)
  rw [toList_text, hroot]
  intro heq
  obtain ⟨rfl, -⟩ := List.cons.inj heq
  rw [hc] at hstart
  cases hstart

namespace Call

theorem propertyText_append_ne (p : String × Placed) {c : Char} (hquote : c ≠ '\x27')
    (hc : Quoted.isIdentifierStart c = false) (r r' : List Char) : propertyText p ++ r ≠ c :: r' := by
  unfold propertyText Quoted.propertyKey
  intro heq
  split at heq
  · next hname =>
    obtain ⟨first, rest, hchars, hstart, -⟩ := Quoted.exists_of_isIdentifier hname
    rw [hchars] at heq
    obtain ⟨rfl, -⟩ := List.cons.inj heq
    rw [hc] at hstart
    cases hstart
  · rw [Quoted.toList_literal] at heq
    exact hquote (List.cons.inj heq).1.symm

/-- A property is told when its value is. -/
theorem told_property {p : String × Placed} (h : p.2.Readable) :
    Told propertyText (fun p => p.2.Named) Ended p := by
  rintro ⟨key, placed⟩ r r' hnamed hr hr' heq
  simp only [propertyText, List.append_assoc, List.cons_append] at heq
  obtain ⟨rfl, hrest⟩ := Quoted.propertyKey_append_inj heq
  obtain ⟨rfl, hr⟩ := h placed r r' hnamed hr hr' (List.cons.inj hrest).2
  exact ⟨rfl, hr⟩

/-- The names of the calls that have parts or values. -/
def compoundNames : List String := ["enum", "object", "union", "record", "lazy"]

theorem isIdentifier_name (c : Call) : Quoted.isIdentifier c.name = true := by
  have hcompound : ∀ name ∈ compoundNames, Quoted.isIdentifier name = true := by decide
  cases c with
  | word w => cases w <;> decide
  | _ => exact hcompound _ (by simp [name, compoundNames])

/-- The name of a call ends at the parenthesis. -/
theorem name_argument_of_text {c c' : Call} {r r' : List Char} (h : c.text ++ r = c'.text ++ r') :
    c.name = c'.name ∧ c.argument ++ ')' :: r = c'.argument ++ ')' :: r' := by
  have hparenthesis : ∀ rest : List Char, ∀ d ∈ ('(' :: rest).head?, Quoted.isIdentifierRest d = false := by
    rintro rest d ⟨⟩
    rfl
  simp only [text, List.cons_append, List.append_assoc, List.nil_append] at h
  obtain ⟨hname, hrest⟩ := Quoted.identifier_append_inj c.isIdentifier_name c'.isIdentifier_name (hparenthesis _)
    (hparenthesis _) (List.cons.inj h).2
  exact ⟨hname, (List.cons.inj hrest).2⟩

/-- Calls with the same name. -/
inductive SameKind : Call → Call → Prop where
  | word (w : Word) : SameKind (.word w) (.word w)
  | enumeration (values values' : List String) : SameKind (.enumeration values) (.enumeration values')
  | object (properties properties' : List (String × Placed)) : SameKind (.object properties) (.object properties')
  | objectLines (properties properties' : List (String × Placed)) : SameKind (.object properties) (.lines properties')
  | linesObject (properties properties' : List (String × Placed)) : SameKind (.lines properties) (.object properties')
  | lines (properties properties' : List (String × Placed)) : SameKind (.lines properties) (.lines properties')
  | union (arms arms' : List Placed) : SameKind (.union arms) (.union arms')
  | record (item item' : Placed) : SameKind (.record item) (.record item')
  | deferred (inner inner' : Placed) : SameKind (.deferred inner) (.deferred inner')

theorem word_name_ne (w : Word) {name : String} (h : name ∈ compoundNames) : w.name ≠ name := by
  rintro rfl
  revert h
  cases w <;> decide

theorem sameKind_of_name {c c' : Call} (h : c.name = c'.name) : SameKind c c' := by
  cases c with
  | word w =>
    cases c' with
    | word w' =>
      obtain rfl := Word.name_inj h
      exact .word w
    | _ => exact absurd h (word_name_ne w (by simp [name, compoundNames]))
  | _ =>
    cases c' with
    | word w => exact absurd h.symm (word_name_ne w (by simp [name, compoundNames]))
    | _ => first | constructor | simp [name] at h

/-! ### Arguments -/

theorem enumeration_argument_inj {values values' : List String} {r r' : List Char}
    (h : (enumeration values).argument ++ r = (enumeration values').argument ++ r') : values = values' ∧ r = r' := by
  have hliteral (value : String) :
      Told (fun v => (Quoted.literal v).toList) (fun _ => True) (fun _ => True) value :=
    fun _ _ _ _ _ _ h => Quoted.literal_append_inj h
  have hfirst : ∀ value, True → ∀ r r', (Quoted.literal value).toList ++ r ≠ ']' :: r' := by
    intro value _ r r'
    simp [Quoted.toList_literal]
  simp only [argument, List.cons_append, List.append_assoc] at h
  exact row_inj [] (by decide) (fun _ => trivial) (fun _ => trivial) hfirst (fun value _ => ⟨trivial, hliteral value⟩)
    (fun _ _ => trivial) (List.cons.inj h).2

theorem union_argument_inj {arms arms' : List Placed} (harms : ∀ arm ∈ arms, arm.Named ∧ arm.Readable)
    (harms' : ∀ arm ∈ arms', arm.Named) {r r' : List Char}
    (h : (union arms).argument ++ r = (union arms').argument ++ r') : arms = arms' ∧ r = r' := by
  simp only [argument, List.cons_append, List.append_assoc] at h
  exact row_inj [] (by decide) (fun _ => ended_cons (by decide)) (fun _ => ended_cons (by decide))
    (fun _ hplaced => Placed.text_append_ne hplaced (by decide)) harms harms' (List.cons.inj h).2

theorem object_argument_inj {properties properties' : List (String × Placed)}
    (hproperties : ∀ p ∈ properties, p.2.Named ∧ p.2.Readable) (hproperties' : ∀ p ∈ properties', p.2.Named)
    {r r' : List Char} (h : (object properties).argument ++ r = (object properties').argument ++ r') :
    properties = properties' ∧ r = r' := by
  cases properties with
  | nil =>
    cases properties' with
    | nil => exact ⟨rfl, List.append_cancel_left h⟩
    | cons p' properties' => simp [argument] at h
  | cons p properties =>
    cases properties' with
    | nil => simp [argument] at h
    | cons p' properties' =>
      simp only [argument, List.cons_append, List.append_assoc] at h
      exact row_inj ['}'] (by decide) (fun _ => ended_cons (by decide)) (fun _ => ended_cons (by decide))
        (fun p _ => propertyText_append_ne p (by decide) (by decide))
        (fun p hp => ⟨(hproperties p hp).1, told_property (hproperties p hp).2⟩) hproperties'
        (List.cons.inj (List.cons.inj h).2).2

theorem lines_argument_inj {properties properties' : List (String × Placed)}
    (hproperties : ∀ p ∈ properties, p.2.Named ∧ p.2.Readable) (hproperties' : ∀ p ∈ properties', p.2.Named)
    {r r' : List Char} (h : (lines properties).argument ++ r = (lines properties').argument ++ r') :
    properties = properties' ∧ r = r' := by
  have hline : ∀ p ∈ properties,
      Told (fun p => propertyText p ++ [',', '\n']) (fun p => p.2.Named) (fun _ => True) p := by
    intro p hp other rest rest' hother _ _ heq
    simp only [List.append_assoc] at heq
    obtain ⟨rfl, hrest⟩ := told_property (hproperties p hp).2 other _ _ hother (ended_cons (by decide))
      (ended_cons (by decide)) heq
    exact ⟨rfl, (List.cons.inj (List.cons.inj hrest).2).2⟩
  simp only [argument, List.cons_append, List.append_assoc] at h
  exact rows_inj [' '] [] (by decide) (fun _ => trivial) (fun _ => trivial) hline hproperties'
    (List.cons.inj (List.cons.inj h).2).2

/-- After the brace comes a new line only if there is a line for each property. -/
theorem object_argument_ne_lines (properties properties' : List (String × Placed)) (r r' : List Char) :
    (object properties).argument ++ r ≠ (lines properties').argument ++ r' := by
  cases properties <;> simp [argument]

/-- A call is told when its parts are. -/
theorem told_of_parts {c : Call} (hparts : ∀ part ∈ c.parts, part.Named ∧ part.Readable) :
    Told text Call.Named (fun _ => True) c := by
  intro other r r' hnamed _ _ h
  obtain ⟨hname, hargument⟩ := name_argument_of_text h
  cases sameKind_of_name hname with
  | word w => exact ⟨rfl, List.append_cancel_left h⟩
  | enumeration values values' =>
    obtain ⟨rfl, hrest⟩ := enumeration_argument_inj hargument
    exact ⟨rfl, (List.cons.inj hrest).2⟩
  | object properties properties' =>
    obtain ⟨rfl, hrest⟩ := object_argument_inj (List.forall_mem_map.mp hparts) (List.forall_mem_map.mp hnamed) hargument
    exact ⟨rfl, (List.cons.inj hrest).2⟩
  | objectLines properties properties' => exact absurd hargument (object_argument_ne_lines _ _ _ _)
  | linesObject properties properties' => exact absurd hargument.symm (object_argument_ne_lines _ _ _ _)
  | lines properties properties' =>
    obtain ⟨rfl, hrest⟩ := lines_argument_inj (List.forall_mem_map.mp hparts) (List.forall_mem_map.mp hnamed) hargument
    exact ⟨rfl, (List.cons.inj hrest).2⟩
  | union arms arms' =>
    obtain ⟨rfl, hrest⟩ := union_argument_inj hparts hnamed hargument
    exact ⟨rfl, (List.cons.inj hrest).2⟩
  | record item item' =>
    obtain ⟨rfl, hrest⟩ := (hparts item List.mem_cons_self).2 item' _ _ (hnamed item' List.mem_cons_self)
      (ended_cons (by decide)) (ended_cons (by decide)) hargument
    exact ⟨rfl, (List.cons.inj hrest).2⟩
  | deferred inner inner' =>
    have hinner : inner.text.toList ++ ')' :: r = inner'.text.toList ++ ')' :: r' := by
      simpa [argument] using hargument
    obtain ⟨rfl, hrest⟩ := (hparts inner List.mem_cons_self).2 inner' _ _ (hnamed inner' List.mem_cons_self)
      (ended_cons (by decide)) (ended_cons (by decide)) hinner
    exact ⟨rfl, (List.cons.inj hrest).2⟩

/-- A chain of calls is told up to where no point follows. -/
theorem chain_inj {cs cs' : List Call} (hcs : ∀ c ∈ cs, Told text Call.Named (fun _ => True) c)
    (hcs' : ∀ c ∈ cs', c.Named) {r r' : List Char} (hr : ∀ d ∈ r.head?, d ≠ '.') (hr' : ∀ d ∈ r'.head?, d ≠ '.')
    (h : cs.flatMap text ++ r = cs'.flatMap text ++ r') : cs = cs' ∧ r = r' := by
  induction cs generalizing cs' with
  | nil =>
    cases cs' with
    | nil => exact ⟨rfl, h⟩
    | cons c cs' =>
      rw [List.flatMap_nil, List.nil_append, List.flatMap_cons] at h
      exact absurd rfl (hr '.' (by rw [h]; rfl))
  | cons c cs ih =>
    obtain ⟨hc, hcs⟩ := List.forall_mem_cons.mp hcs
    cases cs' with
    | nil =>
      rw [List.flatMap_nil, List.nil_append, List.flatMap_cons] at h
      exact absurd rfl (hr' _ (by rw [← h]; rfl))
    | cons c' cs' =>
      obtain ⟨hc', hothers⟩ := List.forall_mem_cons.mp hcs'
      rw [List.flatMap_cons, List.flatMap_cons, List.append_assoc, List.append_assoc] at h
      obtain ⟨rfl, hrest⟩ := hc c' _ _ hc' trivial trivial h
      obtain ⟨rfl, hr⟩ := ih hcs hothers hrest
      exact ⟨rfl, hr⟩

end Call

/-! ### What is told of a schema -/

namespace Placed

/-- A text that begins with the root and goes on with calls is told when the parts of the calls are. -/
theorem eq_of_chain {placed placed' : Placed} {cs cs' : List Call} (hroot : placed.Named) (hroot' : placed'.Named)
    (hparts : ∀ part ∈ cs.flatMap Call.parts, part.Named ∧ part.Readable)
    (hparts' : ∀ part ∈ cs'.flatMap Call.parts, part.Named)
    {r r' : List Char} (hr : Ended r) (hr' : Ended r')
    (h : placed.root.toList ++ cs.flatMap Call.text ++ r = placed'.root.toList ++ cs'.flatMap Call.text ++ r') :
    placed.root = placed'.root ∧ cs = cs' ∧ r = r' := by
  have hends : ∀ (cs : List Call) {rest : List Char}, Ended rest →
      ∀ d ∈ (cs.flatMap Call.text ++ rest).head?, Quoted.isIdentifierRest d = false := by
    intro cs rest hrest d hd
    cases cs with
    | nil => exact (hrest d hd).1
    | cons c cs =>
      obtain rfl : '.' = d := Option.some.inj hd
      decide
  rw [List.append_assoc, List.append_assoc] at h
  obtain ⟨hroots, hcalls⟩ := Quoted.identifier_append_inj (isIdentifier_root hroot) (isIdentifier_root hroot')
    (hends cs hr) (hends cs' hr') h
  have htold : ∀ c ∈ cs, Told Call.text Call.Named (fun _ => True) c :=
    fun c hc => Call.told_of_parts fun part hpart => hparts part (List.mem_flatMap.mpr ⟨c, hc, hpart⟩)
  obtain ⟨rfl, hrest⟩ := Call.chain_inj htold
    (fun c hc part hpart => hparts' part (List.mem_flatMap.mpr ⟨c, hc, hpart⟩))
    (fun d hd => (hr d hd).2) (fun d hd => (hr' d hd).2) hcalls
  exact ⟨hroots, rfl, hrest⟩

theorem readable {placed : Placed} (h : placed.Named) : placed.Readable := by
  induction placed using inductionOnCalls with
  | step placed ih =>
    intro other r r' hother hr hr' heq
    have hparts := named_parts h
    simp only [toList_text] at heq
    obtain ⟨hroot, hcalls, hrest⟩ := eq_of_chain h hother
      (by rw [flatMap_parts_calls]; exact fun part hpart => ⟨hparts part hpart, ih part hpart (hparts part hpart)⟩)
      (by rw [flatMap_parts_calls]; exact named_parts hother) hr hr' heq
    rw [← foldl_calls placed, ← foldl_calls other, hroot, hcalls]
    exact ⟨rfl, hrest⟩

theorem eq_of_bodyText {placed placed' : Placed} (h : placed.Named) (h' : placed'.Named)
    (htext : placed.bodyText = placed'.bodyText) : placed = placed' := by
  have hchars := congrArg String.toList htext
  rw [toList_bodyText, toList_bodyText] at hchars
  have hparts := named_parts h
  have hend : Ended [] := by simp [Ended]
  obtain ⟨hroot, hcalls, -⟩ := eq_of_chain h h'
    (by rw [flatMap_parts_bodyCalls]; exact fun part hpart => ⟨hparts part hpart, readable (hparts part hpart)⟩)
    (by rw [flatMap_parts_bodyCalls]; exact named_parts h') hend hend
    (by rw [List.append_nil, List.append_nil, hchars])
  rw [← foldl_bodyCalls placed, ← foldl_bodyCalls placed', hroot, hcalls]

end Placed

/-- The text that a schema has in a scope tells the schema, if it refers to identifiers only. -/
theorem Scope.bodyText_place_inj (scope : Scope) {schema schema' : Schema}
    (h : ∀ name ∈ schema.references, Quoted.isIdentifier name = true)
    (h' : ∀ name ∈ schema'.references, Quoted.isIdentifier name = true) :
    (scope.place schema).bodyText = (scope.place schema').bodyText ↔ schema = schema' := by
  have hnamed {schema : Schema} (h : ∀ name ∈ schema.references, Quoted.isIdentifier name = true) :
      (scope.place schema).Named := by
    rwa [Placed.Named, erase_place]
  constructor
  · intro htext
    rw [← erase_place schema, Placed.eq_of_bodyText (hnamed h) (hnamed h') htext, erase_place]
  · rintro rfl
    rfl

/-- A quote in a label is not read as its end: one label with a quote, a comma and a quote in it is not two. -/
theorem Scope.bodyText_label_ne_labels :
    (Scope.place ⟨["Role"], "User"⟩ (.object [("role", .nullish (.ref "Role")),
        ("it's", .union [.enumeration ["a', 'b"], .ref "User"])] true)).bodyText ≠
      (Scope.place ⟨["Role"], "User"⟩ (.object [("role", .nullish (.ref "Role")),
        ("it's", .union [.enumeration ["a", "b"], .ref "User"])] true)).bodyText := by
  intro htext
  have hsame := (Scope.bodyText_place_inj ⟨["Role"], "User"⟩ (by decide) (by decide)).mp htext
  simp at hsame

end DataShapes
