import Mathlib.Logic.Relation
import DataShapes.Proofs.Schema.Document
import DataShapes.Proofs.Schema.Evaluation
import DataShapes.Proofs.Schema.References

/-! # Calls of an evaluation

To evaluate a schema on a value, parts of the schema are evaluated on the value or on parts of it, and a
reference opens the schema of its name on the same value. Where no name leads back to itself before the
evaluation has gone into the value, every row of such calls ends: the value gets smaller, or a name is opened
that was not open, or the schema gets smaller. Then the trail never matters, and nothing is endless. -/

namespace DataShapes

/-! ### References outside of containers -/

/-- The schema refers to the name outside of all objects, arrays and records in it. -/
inductive Schema.Exposes : Schema → String → Prop
  | ref {name : String} : Exposes (.ref name) name
  | union {arms : List Schema} {arm : Schema} {name : String} :
    arm ∈ arms → Exposes arm name → Exposes (.union arms) name
  | optional {inner : Schema} {name : String} : Exposes inner name → Exposes (.optional inner) name
  | nullable {inner : Schema} {name : String} : Exposes inner name → Exposes (.nullable inner) name
  | nullish {inner : Schema} {name : String} : Exposes inner name → Exposes (.nullish inner) name

namespace Document

/-- To open the first name is to open the second on the same value. -/
def Opens (d : Document) (name other : String) : Prop := ∃ x, d.find? name = some x ∧ x.schema.Exposes other

/-- No name opens itself again on the same value. -/
def Guarded (d : Document) : Prop := ∀ name, ¬ Relation.TransGen d.Opens name name

/-- The second schema may be evaluated on the second value in order to evaluate the first on the first. -/
inductive Calls (d : Document) : Schema × Json → Schema × Json → Prop
  | ref {name : String} {x : Declaration} {value : Json} :
    d.find? name = some x → Calls d (.ref name, value) (x.schema, value)
  | property {properties : List (String × Schema)} {strict : Bool} {entries : List (String × Json)}
      {p : String × Schema} {part : Json} :
    p ∈ properties → Json.entry? entries p.1 = some part →
    Calls d (.object properties strict, .object entries) (p.2, part)
  | arm {arms : List Schema} {arm : Schema} {value : Json} : arm ∈ arms → Calls d (.union arms, value) (arm, value)
  | item {item : Schema} {items : List Json} {part : Json} :
    part ∈ items → Calls d (.array item, .array items) (item, part)
  | entry {item : Schema} {entries : List (String × Json)} {e : String × Json} :
    e ∈ entries → Calls d (.record item, .object entries) (item, e.2)
  | optional {inner : Schema} {value : Json} : Calls d (.optional inner, value) (inner, value)
  | nullable {inner : Schema} {value : Json} : value ≠ .null → Calls d (.nullable inner, value) (inner, value)
  | nullish {inner : Schema} {value : Json} : value ≠ .null → Calls d (.nullish inner, value) (inner, value)

/-- No row of calls from this one goes on for ever. -/
def Ends (d : Document) (call : Schema × Json) : Prop := Acc (fun next call => d.Calls call next) call

/-- An evaluation of the schema on the value may look up the name. -/
def LooksUp (d : Document) (schema : Schema) (value : Json) (name : String) : Prop :=
  ∃ part, Relation.ReflTransGen d.Calls (schema, value) (.ref name, part)

/-! ### Trails -/

end Document

/-- The trail of the calls of a schema: a reference adds its name, and what goes into the value starts anew. -/
def Schema.trailOfCalls (trail : List String) : Schema → List String
  | .ref name => name :: trail
  | .object .. | .array .. | .record .. => []
  | _ => trail

namespace Document

/-- No name that the schema may open on the same value is on the trail. -/
def Clear (d : Document) (trail : List String) (schema : Schema) : Prop :=
  ∀ name, schema.Exposes name → ∀ opened ∈ trail, ¬ Relation.ReflTransGen d.Opens name opened

variable {d : Document} {trail : List String}

theorem clear_nil {schema : Schema} : d.Clear [] schema := fun _ _ _ ho => absurd ho List.not_mem_nil

/-- A part of a schema exposes no more than the schema does. -/
theorem Clear.of_exposes {schema part : Schema} (h : d.Clear trail schema)
    (hp : ∀ name, part.Exposes name → schema.Exposes name) : d.Clear trail part :=
  fun name hn => h name (hp name hn)

theorem Clear.notMem {name : String} (h : d.Clear trail (.ref name)) : name ∉ trail :=
  fun hn => h name .ref name hn .refl

/-- What a name opens does not open the name again, nor what was on the trail before. -/
theorem Clear.opened (hd : d.Guarded) {name : String} (h : d.Clear trail (.ref name)) {x : Declaration}
    (hx : d.find? name = some x) : d.Clear (name :: trail) x.schema := by
  intro other hother opened hopened hreach
  have hstep : d.Opens name other := ⟨x, hx, hother⟩
  rcases List.mem_cons.mp hopened with rfl | hopened
  · exact hd opened (Relation.TransGen.head' hstep hreach)
  · exact h name .ref opened hopened (.head hstep hreach)

theorem Clear.arm {arms : List Schema} (h : d.Clear trail (.union arms)) {arm : Schema} (ha : arm ∈ arms) :
    d.Clear trail arm :=
  h.of_exposes fun _ => .union ha

theorem Clear.optional {inner : Schema} (h : d.Clear trail (.optional inner)) : d.Clear trail inner :=
  h.of_exposes fun _ => .optional

theorem Clear.nullable {inner : Schema} (h : d.Clear trail (.nullable inner)) : d.Clear trail inner :=
  h.of_exposes fun _ => .nullable

theorem Clear.nullish {inner : Schema} (h : d.Clear trail (.nullish inner)) : d.Clear trail inner :=
  h.of_exposes fun _ => .nullish

/-- Calls leave the trail clear. -/
theorem Clear.call (hd : d.Guarded) {schema next : Schema} {value rest : Json} (h : d.Clear trail schema)
    (hcall : d.Calls (schema, value) (next, rest)) : d.Clear (schema.trailOfCalls trail) next := by
  cases hcall with
  | ref hx => exact h.opened hd hx
  | property _ _ | item _ | entry _ => exact clear_nil
  | arm ha => exact h.arm ha
  | optional => exact h.optional
  | nullable _ => exact h.nullable
  | nullish _ => exact h.nullish

/-- Of the names that the schema may open on the same value, the same are on both trails. -/
def SameOpen (d : Document) (trail longer : List String) (schema : Schema) : Prop :=
  ∀ name, schema.Exposes name → ∀ opened, Relation.ReflTransGen d.Opens name opened →
    (opened ∈ longer ↔ opened ∈ trail)

theorem SameOpen.refl (trail : List String) (schema : Schema) : d.SameOpen trail trail schema :=
  fun _ _ _ _ => Iff.rfl

theorem Clear.sameOpen {longer : List String} {schema : Schema} (h : d.Clear trail schema)
    (hlonger : d.Clear longer schema) : d.SameOpen trail longer schema := fun name hn opened hreach =>
  ⟨fun ho => absurd hreach (hlonger name hn opened ho), fun ho => absurd hreach (h name hn opened ho)⟩

theorem SameOpen.call {longer : List String} {schema next : Schema} {value rest : Json}
    (h : d.SameOpen trail longer schema) (hcall : d.Calls (schema, value) (next, rest)) :
    d.SameOpen (schema.trailOfCalls trail) (schema.trailOfCalls longer) next := by
  cases hcall with
  | @ref name x _ hx =>
    intro other hother opened hreach
    have hopened := h name .ref opened (.head ⟨x, hx, hother⟩ hreach)
    simp only [Schema.trailOfCalls, List.mem_cons, hopened]
  | property _ _ | item _ | entry _ => exact SameOpen.refl [] _
  | arm ha => exact fun name hn => h name (.union ha hn)
  | optional => exact fun name hn => h name (.optional hn)
  | nullable _ => exact fun name hn => h name (.nullable hn)
  | nullish _ => exact fun name hn => h name (.nullish hn)

/-! ### The end of calls -/

/-- How far an evaluation is from its end: the value comes first, then the names that are not open, then the
schema. -/
noncomputable def distance (d : Document) (trail : List String) (schema : Schema) (value : Json) : Nat × Nat × Nat :=
  (sizeOf value, d.unopened trail, sizeOf schema)

/-- A call is nearer to the end. -/
theorem Calls.distance_lt {schema next : Schema} {value rest : Json} (hcall : d.Calls (schema, value) (next, rest))
    (hfresh : ∀ name, schema = .ref name → name ∉ trail) :
    Prod.Lex (· < ·) (Prod.Lex (· < ·) (· < ·)) (d.distance (schema.trailOfCalls trail) next rest)
      (d.distance trail schema value) := by
  -- A reference spends a name that is not open; what goes into the value starts with an empty trail.
  cases hcall with
  | @ref name x _ hx =>
    have hopen : trail.contains name = false := by simpa using hfresh name rfl
    exact .right _ (.left _ _ (unopened_cons_lt (mem_names_of_find? hx) hopen))
  | property hp he =>
    have hlt := Json.sizeOf_entry?_lt he
    refine .left _ _ ?_
    rw [Json.object.sizeOf_spec]
    omega
  | arm ha =>
    have hlt := List.sizeOf_lt_of_mem ha
    refine .right _ (.right _ ?_)
    rw [Schema.union.sizeOf_spec]
    omega
  | item hpart =>
    have hlt := List.sizeOf_lt_of_mem hpart
    refine .left _ _ ?_
    rw [Json.array.sizeOf_spec]
    omega
  | @entry _ _ e he =>
    have hlt := List.sizeOf_lt_of_mem he
    have hpair : sizeOf e = 1 + sizeOf e.1 + sizeOf e.2 := rfl
    refine .left _ _ ?_
    rw [Json.object.sizeOf_spec]
    omega
  | optional | nullable _ | nullish _ => exact .right _ (.right _ (by simp))

theorem Guarded.ends_of_clear (hd : d.Guarded) {trail : List String} {schema : Schema} {value : Json}
    (h : d.Clear trail schema) : d.Ends (schema, value) := by
  refine ⟨_, fun (next, rest) hnext => ?_⟩
  have hfresh : ∀ name, schema = .ref name → name ∉ trail := by
    rintro name rfl
    exact h.notMem
  exact hd.ends_of_clear (h.call hd hnext)
termination_by d.distance trail schema value
decreasing_by exact hnext.distance_lt hfresh

/-- In such a document every evaluation ends. -/
theorem Guarded.ends (hd : d.Guarded) (schema : Schema) (value : Json) : d.Ends (schema, value) :=
  hd.ends_of_clear clear_nil

/-- Induction over the calls of an evaluation. -/
theorem Guarded.callInduction (hd : d.Guarded) {motive : Schema → Json → Prop}
    (step : ∀ schema value, (∀ next rest, d.Calls (schema, value) (next, rest) → motive next rest) →
      motive schema value)
    (schema : Schema) (value : Json) : motive schema value := by
  have hmotive : ∀ call : Schema × Json, d.Ends call → motive call.1 call.2 := by
    intro call hends
    induction hends with
    | intro call _ ih => exact step call.1 call.2 fun next rest hcall => ih (next, rest) hcall
  exact hmotive (schema, value) (hd.ends schema value)

/-! ### What a part may spoil -/

theorem exists_of_evalItems_error {item : Schema} {items : List Json} {obstacle : Obstacle}
    (h : d.evalItems item items = .error obstacle) : ∃ x ∈ items, d.eval [] item x = .error obstacle := by
  induction items with
  | nil => simp [evalItems] at h
  | cons value others ih =>
    rw [evalItems] at h
    split at h
    · next hv =>
      cases h
      exact ⟨value, List.mem_cons_self, hv⟩
    · split at h
      · next hr =>
        cases h
        obtain ⟨x, hx, hfail⟩ := ih hr
        exact ⟨x, List.mem_cons_of_mem _ hx, hfail⟩
      · cases h

theorem exists_of_evalEntries_error {item : Schema} {entries : List (String × Json)} {obstacle : Obstacle}
    (h : d.evalEntries item entries = .error obstacle) : ∃ e ∈ entries, d.eval [] item e.2 = .error obstacle := by
  induction entries with
  | nil => simp [evalEntries] at h
  | cons e others ih =>
    rw [evalEntries] at h
    split at h
    · next hv =>
      cases h
      exact ⟨e, List.mem_cons_self, hv⟩
    · split at h
      · next hr =>
        cases h
        obtain ⟨x, hx, hfail⟩ := ih hr
        exact ⟨x, List.mem_cons_of_mem _ hx, hfail⟩
      · cases h

theorem exists_of_evalProperties_endless {properties : List (String × Schema)} {entries seen : List (String × Json)}
    {name : String} (h : d.evalProperties properties entries seen = .error (.endless name)) :
    ∃ p ∈ properties, ∃ part, Json.entry? entries p.1 = some part ∧ d.eval [] p.2 part = .error (.endless name) := by
  induction properties generalizing seen with
  | nil => simp [evalProperties] at h
  | cons p others ih =>
    rw [evalProperties] at h
    split at h
    · split at h
      · obtain ⟨q, hq, hfail⟩ := ih h
        exact ⟨q, List.mem_cons_of_mem _ hq, hfail⟩
      · cases h
    · next part he =>
      split at h
      · next hv =>
        cases h
        exact ⟨p, List.mem_cons_self, part, he, hv⟩
      · obtain ⟨q, hq, hfail⟩ := ih h
        exact ⟨q, List.mem_cons_of_mem _ hq, hfail⟩

theorem exists_of_evalArms_endless {arms : List Schema} {value : Json} {reasons : List Rejection} {name : String}
    (h : d.evalArms trail arms value reasons = .error (.endless name)) :
    ∃ arm ∈ arms, d.eval trail arm value = .error (.endless name) := by
  induction arms generalizing reasons with
  | nil => simp [evalArms] at h
  | cons arm others ih =>
    rw [evalArms] at h
    split at h
    · obtain ⟨other, ho, hfail⟩ := ih h
      exact ⟨other, List.mem_cons_of_mem _ ho, hfail⟩
    · exact ⟨arm, List.mem_cons_self, h⟩

/-- A name that is on the trail would be opened without end. -/
theorem eval_ref_of_mem {name : String} (h : name ∈ trail) (value : Json) :
    d.eval trail (.ref name) value = .error (.endless name) := by
  rw [eval, dif_pos (by simpa using h)]

/-- A name that is not on the trail is opened. -/
theorem eval_ref_of_notMem {name : String} (h : name ∉ trail) (value : Json) : d.eval trail (.ref name) value =
    match d.find? name with
    | none => .error (.rejected (.undefined name))
    | some x => d.eval (name :: trail) x.schema value := by
  rw [eval, dif_neg (by simpa using h)]
  split <;> simp [*]

theorem eval_nullable_null (inner : Schema) : d.eval trail (.nullable inner) .null = .ok .null := by
  rw [eval, if_pos rfl]

theorem eval_nullable_of_ne {inner : Schema} {value : Json} (h : value ≠ .null) :
    d.eval trail (.nullable inner) value = d.eval trail inner value := by
  cases value <;> simp_all [eval]

theorem eval_nullish_null (inner : Schema) : d.eval trail (.nullish inner) .null = .ok .null := by
  rw [eval, if_pos rfl]

theorem eval_nullish_of_ne {inner : Schema} {value : Json} (h : value ≠ .null) :
    d.eval trail (.nullish inner) value = d.eval trail inner value := by
  cases value <;> simp_all [eval]

/-- Nothing is opened without end where every row of calls ends. -/
theorem Guarded.eval_ne_endless (hd : d.Guarded) {trail : List String} {schema : Schema} (h : d.Clear trail schema)
    (value : Json) (name : String) : d.eval trail schema value ≠ .error (.endless name) := by
  induction schema, value using hd.callInduction generalizing trail with
  | step schema value ih =>
    intro hfail
    cases schema with
    | leaf l =>
      rw [eval] at hfail
      split at hfail <;> cases hfail
    | ref other =>
      rw [eval_ref_of_notMem h.notMem] at hfail
      split at hfail
      · cases hfail
      · next x hx => exact ih _ _ (.ref hx) (h.opened hd hx) hfail
    | enumeration values =>
      cases value with
      | string s =>
        rw [eval] at hfail
        split at hfail <;> cases hfail
      | _ => simp [eval] at hfail
    | object properties strict =>
      cases value with
      | object entries =>
        rw [eval] at hfail
        split at hfail
        · cases hfail
        · split at hfail
          · cases hfail
          · next hp =>
            cases hfail
            obtain ⟨p, hp, part, he, hfail⟩ := exists_of_evalProperties_endless hp
            exact ih _ _ (.property hp he) clear_nil hfail
      | _ => simp [eval] at hfail
    | union arms =>
      rw [eval] at hfail
      obtain ⟨arm, ha, hfail⟩ := exists_of_evalArms_endless hfail
      exact ih _ _ (.arm ha) (h.arm ha) hfail
    | array item =>
      cases value with
      | array items =>
        rw [eval] at hfail
        split at hfail
        · cases hfail
        · next hi =>
          cases hfail
          obtain ⟨x, hx, hfail⟩ := exists_of_evalItems_error hi
          exact ih _ _ (.item hx) clear_nil hfail
      | _ => simp [eval] at hfail
    | record item =>
      cases value with
      | object entries =>
        rw [eval] at hfail
        split at hfail
        · cases hfail
        · next hi =>
          cases hfail
          obtain ⟨e, he, hfail⟩ := exists_of_evalEntries_error hi
          exact ih _ _ (.entry he) clear_nil hfail
      | _ => simp [eval] at hfail
    | optional inner =>
      rw [eval_optional] at hfail
      exact ih _ _ .optional h.optional hfail
    | nullable inner =>
      by_cases hn : value = .null
      · rw [hn, eval_nullable_null] at hfail
        cases hfail
      · rw [eval_nullable_of_ne hn] at hfail
        exact ih _ _ (.nullable hn) h.nullable hfail
    | nullish inner =>
      by_cases hn : value = .null
      · rw [hn, eval_nullish_null] at hfail
        cases hfail
      · rw [eval_nullish_of_ne hn] at hfail
        exact ih _ _ (.nullish hn) h.nullish hfail

/-! ### Evaluations that agree -/

section
variable {other : Document} {longer : List String}

theorem evalItems_congr {item : Schema} {items : List Json}
    (h : ∀ x ∈ items, other.eval [] item x = d.eval [] item x) :
    other.evalItems item items = d.evalItems item items := by
  induction items with
  | nil => rw [evalItems, evalItems]
  | cons x items ih =>
    obtain ⟨hx, hitems⟩ := List.forall_mem_cons.mp h
    rw [evalItems, evalItems, hx, ih hitems]

theorem evalEntries_congr {item : Schema} {entries : List (String × Json)}
    (h : ∀ e ∈ entries, other.eval [] item e.2 = d.eval [] item e.2) :
    other.evalEntries item entries = d.evalEntries item entries := by
  induction entries with
  | nil => rw [evalEntries, evalEntries]
  | cons e entries ih =>
    obtain ⟨he, hentries⟩ := List.forall_mem_cons.mp h
    rw [evalEntries, evalEntries, he, ih hentries]

theorem evalProperties_congr {properties : List (String × Schema)} {entries seen : List (String × Json)}
    (h : ∀ p ∈ properties, ∀ part, Json.entry? entries p.1 = some part → other.eval [] p.2 part = d.eval [] p.2 part) :
    other.evalProperties properties entries seen = d.evalProperties properties entries seen := by
  induction properties generalizing seen with
  | nil => rw [evalProperties, evalProperties]
  | cons p properties ih =>
    obtain ⟨hp, hproperties⟩ := List.forall_mem_cons.mp h
    rw [evalProperties, evalProperties]
    split
    · rw [ih hproperties]
    · next part he =>
      rw [hp part he]
      split
      · rfl
      · exact ih hproperties

theorem evalArms_congr {arms : List Schema} {value : Json} {reasons : List Rejection}
    (h : ∀ arm ∈ arms, other.eval longer arm value = d.eval trail arm value) :
    other.evalArms longer arms value reasons = d.evalArms trail arms value reasons := by
  induction arms generalizing reasons with
  | nil => rw [evalArms, evalArms]
  | cons arm arms ih =>
    obtain ⟨ha, harms⟩ := List.forall_mem_cons.mp h
    rw [evalArms, evalArms, ha]
    split
    · exact ih harms
    · rfl

theorem LooksUp.of_call {schema next : Schema} {value rest : Json} (hcall : d.Calls (schema, value) (next, rest))
    {name : String} (h : d.LooksUp next rest name) : d.LooksUp schema value name := by
  obtain ⟨part, hreach⟩ := h
  exact ⟨part, .head hcall hreach⟩

/-- An evaluation depends on nothing but the declarations of the names that it may look up. -/
theorem eval_congr {trail longer : List String} {schema : Schema} {value : Json}
    (hagree : ∀ name, d.LooksUp schema value name → other.find? name = d.find? name)
    (h : d.SameOpen trail longer schema) : other.eval longer schema value = d.eval trail schema value := by
  have hparts : ∀ {next : Schema} {rest : Json}, d.Calls (schema, value) (next, rest) →
      (∀ name, schema = .ref name → name ∉ trail) →
      other.eval (schema.trailOfCalls longer) next rest = d.eval (schema.trailOfCalls trail) next rest :=
    fun hcall hfresh => eval_congr (fun name hname => hagree name (hname.of_call hcall)) (h.call hcall)
  cases schema with
  | leaf l => rw [eval, eval]
  | ref name =>
    have hopen : name ∈ longer ↔ name ∈ trail := h name .ref name .refl
    by_cases hn : name ∈ trail
    · rw [eval_ref_of_mem hn, eval_ref_of_mem (hopen.mpr hn)]
    · rw [eval_ref_of_notMem hn, eval_ref_of_notMem (mt hopen.mp hn), hagree name ⟨value, .refl⟩]
      cases hx : d.find? name with
      | none => rfl
      | some x => exact hparts (.ref hx) (by rintro _ ⟨⟩; exact hn)
  | enumeration values => cases value <;> simp only [eval]
  | object properties strict =>
    cases value with
    | object entries => rw [eval, eval, evalProperties_congr fun p hp part he => hparts (.property hp he) (by simp)]
    | _ => simp only [eval]
  | union arms =>
    have harms : ∀ arm ∈ arms, other.eval longer arm value = d.eval trail arm value :=
      fun arm ha => hparts (.arm ha) (by simp)
    rw [eval, eval, evalArms_congr harms]
  | array item =>
    cases value with
    | array items => rw [eval, eval, evalItems_congr fun x hx => hparts (.item hx) (by simp)]
    | _ => simp only [eval]
  | record item =>
    cases value with
    | object entries => rw [eval, eval, evalEntries_congr fun e he => hparts (.entry he) (by simp)]
    | _ => simp only [eval]
  | optional inner =>
    rw [eval_optional, eval_optional]
    exact hparts .optional (by simp)
  | nullable inner =>
    by_cases hn : value = .null
    · rw [hn, eval_nullable_null, eval_nullable_null]
    · rw [eval_nullable_of_ne hn, eval_nullable_of_ne hn]
      exact hparts (.nullable hn) (by simp)
  | nullish inner =>
    by_cases hn : value = .null
    · rw [hn, eval_nullish_null, eval_nullish_null]
    · rw [eval_nullish_of_ne hn, eval_nullish_of_ne hn]
      exact hparts (.nullish hn) (by simp)
termination_by d.distance trail schema value
decreasing_by exact hcall.distance_lt hfresh

end

/-! ### Names that are looked up -/

/-- The declaration of the first name refers to the second. -/
def Refers (d : Document) (name other : String) : Prop := ∃ x, d.find? name = some x ∧ other ∈ x.schema.references

/-- What a call refers to its caller refers to, but for a caller that is a name, which is opened. -/
theorem Calls.mem_references {call next : Schema × Json} (hcall : d.Calls call next) {name : String}
    (h : name ∈ next.1.references) :
    name ∈ call.1.references ∨ ∃ opened, call.1 = .ref opened ∧ d.Refers opened name := by
  cases hcall with
  | ref hx => exact Or.inr ⟨_, rfl, _, hx, h⟩
  | property hp _ =>
    exact Or.inl (by simpa [Schema.references] using Schema.mem_referencesOfProperties.mpr ⟨_, hp, h⟩)
  | arm ha => exact Or.inl (by simpa [Schema.references] using Schema.mem_referencesOfArms.mpr ⟨_, ha, h⟩)
  | item _ | entry _ | optional | nullable _ | nullish _ => exact Or.inl (by simpa [Schema.references] using h)

/-- Whatever is looked up from a name on can be reached from it by references. -/
theorem LooksUp.reaches {name other : String} {value : Json} (h : d.LooksUp (.ref name) value other) :
    Relation.ReflTransGen d.Refers name other := by
  obtain ⟨part, hcalls⟩ := h
  have hreached : ∀ {call : Schema × Json}, Relation.ReflTransGen d.Calls (.ref name, value) call →
      ∀ n ∈ call.1.references, Relation.ReflTransGen d.Refers name n := by
    intro call hcalls
    induction hcalls with
    | refl => simp [Schema.references, Relation.ReflTransGen.refl]
    | @tail call next _ hcall ih =>
      intro n hn
      rcases hcall.mem_references hn with hn | ⟨opened, hopened, hrefers⟩
      · exact ih n hn
      · exact (ih opened (by simp [hopened, Schema.references])).tail hrefers
  exact hreached hcalls other (by simp [Schema.references])

/-- A name means the same in all documents that agree on what can be reached from it. -/
theorem parse_congr {other : Document} {name : String}
    (h : ∀ looked, Relation.ReflTransGen d.Refers name looked → other.find? looked = d.find? looked) (value : Json) :
    other.parse name value = d.parse name value :=
  eval_congr (fun looked hl => h looked hl.reaches) (.refl [] _)

/-- Where nothing is unresolved, references lead from declared names to declared names. -/
theorem mem_names_of_reaches (hd : d.unresolved = []) {name other : String} (hname : name ∈ d.names)
    (h : Relation.ReflTransGen d.Refers name other) : other ∈ d.names := by
  induction h with
  | refl => exact hname
  | tail _ hstep _ =>
    obtain ⟨x, hx, hmem⟩ := hstep
    exact unresolved_eq_nil_iff.mp hd x (List.mem_of_find?_eq_some hx) _ hmem

/-- In a document in which nothing is unresolved, only declared names are looked up from a declared name on. -/
theorem LooksUp.declared (hd : d.unresolved = []) {name : String} (hname : name ∈ d.names) {value : Json}
    {other : String} (h : d.LooksUp (.ref name) value other) : other ∈ d.names :=
  mem_names_of_reaches hd hname h.reaches

end Document

end DataShapes
