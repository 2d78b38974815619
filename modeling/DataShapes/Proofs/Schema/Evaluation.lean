import DataShapes.Schema.Evaluation

/-! # What evaluation makes of values

For each kind of schema it is said when evaluation gives a value, and which. From this comes a relation
between schemas, values and what is made of them, by which facts about accepted values are shown by
induction, whatever the trail and the order of arms. -/

namespace DataShapes

namespace Document
variable {d : Document}

/-- What a schema makes of a value at the start of a trail; the value itself, if it is not accepted. -/
def made (d : Document) (schema : Schema) (value : Json) : Json :=
  match d.eval [] schema value with
  | .ok result => result
  | .error _ => value

theorem made_of_eval {schema : Schema} {value result : Json} (h : d.eval [] schema value = .ok result) :
    d.made schema value = result := by
  rw [made, h]

/-! ### Items and entries -/

/-- An array is accepted when all items are. -/
theorem evalItems_eq_ok_iff {item : Schema} {items results : List Json} : d.evalItems item items = .ok results ↔
    (∀ x ∈ items, d.eval [] item x = .ok (d.made item x)) ∧ results = items.map (d.made item) := by
  induction items generalizing results with
  | nil => simp [evalItems, eq_comm]
  | cons value others ih =>
    rw [evalItems, List.forall_mem_cons, List.map_cons]
    cases hv : d.eval [] item value with
    | error obstacle => simp
    | ok result =>
      rw [made_of_eval hv]
      cases hr : d.evalItems item others with
      | error obstacle =>
        constructor
        · intro h
          cases h
        · rintro ⟨⟨-, hothers⟩, -⟩
          rw [ih.mpr ⟨hothers, rfl⟩] at hr
          cases hr
      | ok rest =>
        obtain ⟨hothers, rfl⟩ := ih.mp hr
        constructor
        · intro h
          cases h
          exact ⟨⟨rfl, hothers⟩, rfl⟩
        · rintro ⟨-, rfl⟩
          rfl

/-- A record is accepted when all values in it are. -/
theorem evalEntries_eq_ok_iff {item : Schema} {entries results : List (String × Json)} :
    d.evalEntries item entries = .ok results ↔ (∀ e ∈ entries, d.eval [] item e.2 = .ok (d.made item e.2)) ∧
      results = entries.map fun e => (e.1, d.made item e.2) := by
  induction entries generalizing results with
  | nil => simp [evalEntries, eq_comm]
  | cons e others ih =>
    obtain ⟨key, value⟩ := e
    rw [evalEntries, List.forall_mem_cons, List.map_cons]
    cases hv : d.eval [] item value with
    | error obstacle => simp
    | ok result =>
      rw [made_of_eval hv]
      cases hr : d.evalEntries item others with
      | error obstacle =>
        constructor
        · intro h
          cases h
        · rintro ⟨⟨-, hothers⟩, -⟩
          rw [ih.mpr ⟨hothers, rfl⟩] at hr
          cases hr
      | ok rest =>
        obtain ⟨hothers, rfl⟩ := ih.mp hr
        constructor
        · intro h
          cases h
          exact ⟨⟨rfl, hothers⟩, rfl⟩
        · rintro ⟨-, rfl⟩
          rfl

/-! ### Properties -/

/-- The entries that properties gather from those of an object, each changed by `change` and set into the
entries `seen`. -/
def gather (change : Schema → Json → Json) (entries : List (String × Json)) :
    List (String × Schema) → List (String × Json) → List (String × Json)
  | [], seen => seen
  | (key, schema) :: others, seen =>
    match Json.entry? entries key with
    | none => gather change entries others seen
    | some value => gather change entries others (Json.setEntry key (change schema value) seen)

/-- The entries of an object are of these properties: what has to be there is there, and what is there is
accepted. -/
structure Fits (accepted : Schema → Json → Prop) (properties : List (String × Schema))
    (entries : List (String × Json)) : Prop where
  absent : ∀ p ∈ properties, Json.entry? entries p.1 = none → p.2.acceptsAbsent = true
  present : ∀ p ∈ properties, ∀ value, Json.entry? entries p.1 = some value → accepted p.2 value

theorem fits_cons {accepted : Schema → Json → Prop} {key : String} {schema : Schema}
    {others : List (String × Schema)} {entries : List (String × Json)} :
    Fits accepted ((key, schema) :: others) entries ↔
      (match Json.entry? entries key with
        | none => schema.acceptsAbsent = true
        | some value => accepted schema value) ∧ Fits accepted others entries := by
  constructor
  · rintro ⟨habsent, hpresent⟩
    refine ⟨?_, ⟨fun p hp => habsent p (List.mem_cons_of_mem _ hp), fun p hp => hpresent p (List.mem_cons_of_mem _ hp)⟩⟩
    cases he : Json.entry? entries key with
    | none => exact habsent (key, schema) List.mem_cons_self he
    | some value => exact hpresent (key, schema) List.mem_cons_self value he
  · rintro ⟨hfirst, habsent, hpresent⟩
    refine ⟨fun p hp he => ?_, fun p hp value he => ?_⟩
    · rcases List.mem_cons.mp hp with rfl | hp
      · rw [he] at hfirst
        exact hfirst
      · exact habsent p hp he
    · rcases List.mem_cons.mp hp with rfl | hp
      · rw [he] at hfirst
        exact hfirst
      · exact hpresent p hp value he

/-- The properties of an object are accepted when its entries fit them. -/
theorem evalProperties_eq_ok_iff {properties : List (String × Schema)} {entries seen results : List (String × Json)} :
    d.evalProperties properties entries seen = .ok results ↔
      Fits (fun schema value => d.eval [] schema value = .ok (d.made schema value)) properties entries ∧
        results = gather d.made entries properties seen := by
  induction properties generalizing seen with
  | nil =>
    rw [evalProperties, gather]
    constructor
    · intro h
      cases h
      exact ⟨⟨fun _ hp => absurd hp List.not_mem_nil, fun _ hp => absurd hp List.not_mem_nil⟩, rfl⟩
    · rintro ⟨-, rfl⟩
      rfl
  | cons p others ih =>
    obtain ⟨key, schema⟩ := p
    rw [evalProperties, fits_cons, gather]
    split
    · next he =>
      rw [he]
      by_cases ha : schema.acceptsAbsent = true
      · rw [if_pos ha, ih]
        simp only [ha, true_and]
      · rw [if_neg ha]
        simp only [ha, false_and, reduceCtorEq]
    · next value he =>
      rw [he]
      cases hv : d.eval [] schema value with
      | error obstacle => simp [hv]
      | ok result =>
        have hmade := made_of_eval hv
        simp only [hv, hmade, true_and, ih]

/-! ### Schemas -/

section
variable {trail : List String} {value result : Json}

theorem eval_leaf_eq_ok_iff {leaf : Leaf} :
    d.eval trail (.leaf leaf) value = .ok result ↔ leaf.admits value = true ∧ result = value := by
  rw [eval]
  cases leaf.admits value <;> simp [eq_comm]

theorem eval_ref_eq_ok_iff {name : String} : d.eval trail (.ref name) value = .ok result ↔
    name ∉ trail ∧ ∃ x, d.find? name = some x ∧ d.eval (name :: trail) x.schema value = .ok result := by
  rw [eval]
  split
  · next ht =>
    have ht : name ∈ trail := by simpa using ht
    simp [ht]
  · next ht =>
    have ht : name ∉ trail := by simpa using ht
    split
    · next hx => simp [hx]
    · next x hx => simp [hx, ht]

theorem eval_enumeration_eq_ok_iff {values : List String} : d.eval trail (.enumeration values) value = .ok result ↔
    ∃ s, value = .string s ∧ s ∈ values ∧ result = .string s := by
  cases value with
  | string s =>
    simp only [Json.string.injEq, exists_eq_left']
    rw [eval]
    by_cases hs : s ∈ values <;> simp [hs, eq_comm]
  | _ => simp [eval]

/-- A strict object has no other entries. -/
theorem eval_object_eq_ok_iff {properties : List (String × Schema)} {strict : Bool} :
    d.eval trail (.object properties strict) value = .ok result ↔ ∃ entries, value = .object entries ∧
      (strict = true → ∀ e ∈ entries, e.1 ∈ properties.map (·.1)) ∧
      Fits (fun schema value => d.eval [] schema value = .ok (d.made schema value)) properties entries ∧
      result = .object (gather d.made entries properties []) := by
  cases value with
  | object entries =>
    have hnone : (entries.find? fun e => strict && !properties.any (·.1 == e.1)) = none ↔
        (strict = true → ∀ e ∈ entries, e.1 ∈ properties.map (·.1)) := by
      rw [List.find?_eq_none]
      cases strict <;> simp
    simp only [Json.object.injEq, exists_eq_left']
    rw [eval]
    split
    · next key other hf =>
      constructor
      · intro h
        cases h
      · rintro ⟨hstrict, -⟩
        rw [hnone.mpr hstrict] at hf
        cases hf
    · next hf =>
      have hstrict := hnone.mp hf
      cases hp : d.evalProperties properties entries [] with
      | ok results =>
        obtain ⟨hfits, rfl⟩ := evalProperties_eq_ok_iff.mp hp
        constructor
        · intro h
          cases h
          exact ⟨hstrict, hfits, rfl⟩
        · rintro ⟨-, -, rfl⟩
          rfl
      | error obstacle =>
        constructor
        · intro h
          cases h
        · rintro ⟨-, hfits, -⟩
          rw [evalProperties_eq_ok_iff.mpr ⟨hfits, rfl⟩] at hp
          cases hp
  | _ => simp [eval]

/-- What a union accepts some arm accepts. -/
theorem exists_of_evalArms {arms : List Schema} {reasons : List Rejection}
    (h : d.evalArms trail arms value reasons = .ok result) : ∃ arm ∈ arms, d.eval trail arm value = .ok result := by
  induction arms generalizing reasons with
  | nil => simp [evalArms] at h
  | cons arm others ih =>
    rw [evalArms] at h
    split at h
    · obtain ⟨other, ho, h⟩ := ih h
      exact ⟨other, List.mem_cons_of_mem _ ho, h⟩
    · exact ⟨arm, List.mem_cons_self, h⟩

theorem exists_of_eval_union {arms : List Schema} (h : d.eval trail (.union arms) value = .ok result) :
    ∃ arm ∈ arms, d.eval trail arm value = .ok result := by
  rw [eval] at h
  exact exists_of_evalArms h

theorem eval_array_eq_ok_iff {item : Schema} : d.eval trail (.array item) value = .ok result ↔
    ∃ items, value = .array items ∧ (∀ x ∈ items, d.eval [] item x = .ok (d.made item x)) ∧
      result = .array (items.map (d.made item)) := by
  cases value with
  | array items =>
    simp only [Json.array.injEq, exists_eq_left']
    rw [eval]
    cases hi : d.evalItems item items with
    | ok results =>
      obtain ⟨hitems, rfl⟩ := evalItems_eq_ok_iff.mp hi
      constructor
      · intro h
        cases h
        exact ⟨hitems, rfl⟩
      · rintro ⟨-, rfl⟩
        rfl
    | error obstacle =>
      constructor
      · intro h
        cases h
      · rintro ⟨hitems, -⟩
        rw [evalItems_eq_ok_iff.mpr ⟨hitems, rfl⟩] at hi
        cases hi
  | _ => simp [eval]

theorem eval_record_eq_ok_iff {item : Schema} : d.eval trail (.record item) value = .ok result ↔
    ∃ entries, value = .object entries ∧ (∀ e ∈ entries, d.eval [] item e.2 = .ok (d.made item e.2)) ∧
      result = .object (entries.map fun e => (e.1, d.made item e.2)) := by
  cases value with
  | object entries =>
    simp only [Json.object.injEq, exists_eq_left']
    rw [eval]
    cases he : d.evalEntries item entries with
    | ok results =>
      obtain ⟨hentries, rfl⟩ := evalEntries_eq_ok_iff.mp he
      constructor
      · intro h
        cases h
        exact ⟨hentries, rfl⟩
      · rintro ⟨-, rfl⟩
        rfl
    | error obstacle =>
      constructor
      · intro h
        cases h
      · rintro ⟨hentries, -⟩
        rw [evalEntries_eq_ok_iff.mpr ⟨hentries, rfl⟩] at he
        cases he
  | _ => simp [eval]

theorem eval_optional {inner : Schema} : d.eval trail (.optional inner) value = d.eval trail inner value := by
  rw [eval]

/-- `null` is accepted as it is, and anything else as without the mark. -/
theorem eval_nullable_eq_ok_iff {inner : Schema} : d.eval trail (.nullable inner) value = .ok result ↔
    value = .null ∧ result = .null ∨ value ≠ .null ∧ d.eval trail inner value = .ok result := by
  cases value <;> simp [eval, eq_comm]

theorem eval_nullish_eq_ok_iff {inner : Schema} : d.eval trail (.nullish inner) value = .ok result ↔
    value = .null ∧ result = .null ∨ value ≠ .null ∧ d.eval trail inner value = .ok result := by
  cases value <;> simp [eval, eq_comm]

end

end Document

end DataShapes
