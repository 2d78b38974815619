import DataShapes.Proofs.Json.Entries
import DataShapes.Proofs.Schema.Calls

/-! # What is accepted

Whether a schema accepts a value, part by part. In a document in which every evaluation ends the trail and the
order of arms do not matter: a name accepts what its declaration does, and a union what some arm does. -/

namespace DataShapes

namespace Document

/-- The evaluation of the schema gives a value. -/
def Accepts (d : Document) (schema : Schema) (value : Json) : Prop := ∃ result, d.eval [] schema value = .ok result

variable {d : Document} {value : Json}

theorem accepts_iff_made {schema : Schema} :
    d.Accepts schema value ↔ d.eval [] schema value = .ok (d.made schema value) := by
  constructor
  · rintro ⟨result, h⟩
    rw [made_of_eval h]
    exact h
  · exact fun h => ⟨_, h⟩

/-! ### Any document -/

theorem accepts_leaf {leaf : Leaf} : d.Accepts (.leaf leaf) value ↔ leaf.admits value = true := by
  simp [Accepts, eval_leaf_eq_ok_iff]

theorem accepts_array {item : Schema} :
    d.Accepts (.array item) value ↔ ∃ items, value = .array items ∧ ∀ x ∈ items, d.Accepts item x := by
  have hitem : ∀ x, d.Accepts item x ↔ d.eval [] item x = .ok (d.made item x) := fun x => accepts_iff_made
  simp only [hitem]
  constructor
  · rintro ⟨result, h⟩
    obtain ⟨items, hvalue, hitems, -⟩ := eval_array_eq_ok_iff.mp h
    exact ⟨items, hvalue, hitems⟩
  · rintro ⟨items, hvalue, hitems⟩
    exact ⟨_, eval_array_eq_ok_iff.mpr ⟨items, hvalue, hitems, rfl⟩⟩

theorem accepts_record {item : Schema} : d.Accepts (.record item) value ↔
    ∃ entries, value = .object entries ∧ ∀ e ∈ entries, d.Accepts item e.2 := by
  have hitem : ∀ x, d.Accepts item x ↔ d.eval [] item x = .ok (d.made item x) := fun x => accepts_iff_made
  simp only [hitem]
  constructor
  · rintro ⟨result, h⟩
    obtain ⟨entries, hvalue, hentries, -⟩ := eval_record_eq_ok_iff.mp h
    exact ⟨entries, hvalue, hentries⟩
  · rintro ⟨entries, hvalue, hentries⟩
    exact ⟨_, eval_record_eq_ok_iff.mpr ⟨entries, hvalue, hentries, rfl⟩⟩

theorem accepts_enumeration {values : List String} :
    d.Accepts (.enumeration values) value ↔ ∃ s ∈ values, value = .string s := by
  constructor
  · rintro ⟨result, h⟩
    obtain ⟨s, rfl, hs, -⟩ := eval_enumeration_eq_ok_iff.mp h
    exact ⟨s, hs, rfl⟩
  · rintro ⟨s, hs, rfl⟩
    exact ⟨_, eval_enumeration_eq_ok_iff.mpr ⟨s, rfl, hs, rfl⟩⟩

theorem accepts_optional {inner : Schema} : d.Accepts inner.optional value ↔ d.Accepts inner value := by
  simp only [Accepts, eval_optional]

theorem accepts_nullable {inner : Schema} :
    d.Accepts inner.nullable value ↔ (value ≠ .null → d.Accepts inner value) := by
  by_cases hn : value = .null
  · subst hn
    exact iff_of_true ⟨_, eval_nullable_null inner⟩ fun h => absurd rfl h
  · simp only [Accepts, eval_nullable_of_ne hn, hn, ne_eq, not_false_eq_true, true_imp_iff]

theorem accepts_nullish {inner : Schema} :
    d.Accepts inner.nullish value ↔ (value ≠ .null → d.Accepts inner value) := by
  simp only [Accepts, eval_nullish_eq_ok_iff]
  by_cases hn : value = .null <;> simp [hn]

/-- An object has its properties, and a strict one no other entries. -/
theorem accepts_object {properties : List (String × Schema)} {strict : Bool} :
    d.Accepts (.object properties strict) value ↔ ∃ entries, value = .object entries ∧
      (strict = true → ∀ e ∈ entries, e.1 ∈ properties.map (·.1)) ∧ Fits d.Accepts properties entries := by
  have hfits : ∀ entries, Fits d.Accepts properties entries ↔
      Fits (fun schema value => d.eval [] schema value = .ok (d.made schema value)) properties entries := by
    intro entries
    have hsame : d.Accepts = fun schema value => d.eval [] schema value = .ok (d.made schema value) :=
      funext₂ fun _ _ => propext accepts_iff_made
    rw [hsame]
  constructor
  · rintro ⟨result, h⟩
    obtain ⟨entries, hvalue, hstrict, hentries, -⟩ := eval_object_eq_ok_iff.mp h
    exact ⟨entries, hvalue, hstrict, (hfits entries).mpr hentries⟩
  · rintro ⟨entries, hvalue, hstrict, hentries⟩
    exact ⟨_, eval_object_eq_ok_iff.mpr ⟨entries, hvalue, hstrict, (hfits entries).mp hentries, rfl⟩⟩

theorem accepts_strictObject {properties : List (String × Schema)} : d.Accepts (.strictObject properties) value ↔
    ∃ entries, value = .object entries ∧ (∀ e ∈ entries, e.1 ∈ properties.map (·.1)) ∧
      Fits d.Accepts properties entries := by
  rw [Schema.strictObject, accepts_object]
  simp only [true_imp_iff]

/-- What stands under a key of a strict object is accepted by the property of that key. -/
theorem Accepts.property {properties : List (String × Schema)} {entries : List (String × Json)}
    (h : d.Accepts (.strictObject properties) (.object entries)) {key : String} {part : Json}
    (hpart : Json.entry? entries key = some part) :
    ∃ p ∈ properties, p.1 = key ∧ d.Accepts p.2 part := by
  obtain ⟨_, heq, hstrict, hfits⟩ := accepts_strictObject.mp h
  cases heq
  obtain ⟨p, hp, rfl⟩ := List.mem_map.mp (hstrict _ (Json.mem_of_entry_eq_some hpart))
  exact ⟨p, hp, rfl, hfits.present p hp part hpart⟩

/-- Where every property may be left out, an object is accepted when each of its entries is. -/
theorem accepts_strictObject_of_optional {properties : List (String × Schema)}
    (habsent : ∀ p ∈ properties, p.2.acceptsAbsent = true) (hkeys : (properties.map (·.1)).Nodup) :
    d.Accepts (.strictObject properties) value ↔ ∃ entries, value = .object entries ∧
      ∀ key part, Json.entry? entries key = some part →
        ∃ schema, (key, schema) ∈ properties ∧ d.Accepts schema part := by
  constructor
  · intro h
    obtain ⟨entries, rfl, -⟩ := accepts_strictObject.mp h
    refine ⟨entries, rfl, fun key part hpart => ?_⟩
    obtain ⟨p, hp, rfl, haccepted⟩ := h.property hpart
    exact ⟨p.2, hp, haccepted⟩
  · rintro ⟨entries, rfl, hentries⟩
    refine accepts_strictObject.mpr ⟨entries, rfl, ?_, fun p hp _ => habsent p hp, ?_⟩
    · intro e he
      cases hpart : Json.entry? entries e.1 with
      | none => exact absurd rfl (Json.entry?_eq_none_iff.mp hpart e he)
      | some part =>
        obtain ⟨schema, hmem, -⟩ := hentries e.1 part hpart
        exact List.mem_map_of_mem hmem
    · intro p hp part hpart
      obtain ⟨schema, hmem, haccepted⟩ := hentries p.1 part hpart
      have heq : p = (p.1, schema) := List.inj_on_of_nodup_map hkeys hp hmem rfl
      rw [heq]
      exact haccepted

/-! ### Documents in which evaluation ends -/

theorem exists_evalArms_eq_ok {trail : List String} {arms : List Schema}
    (hends : ∀ arm ∈ arms, ∀ name, d.eval trail arm value ≠ .error (.endless name))
    (h : ∃ arm ∈ arms, ∃ result, d.eval trail arm value = .ok result) (reasons : List Rejection) :
    ∃ result, d.evalArms trail arms value reasons = .ok result := by
  induction arms generalizing reasons with
  | nil => simp at h
  | cons first others ih =>
    obtain ⟨hfirst, hothers⟩ := List.forall_mem_cons.mp hends
    rw [evalArms]
    cases hv : d.eval trail first value with
    | ok result => exact ⟨result, rfl⟩
    | error obstacle =>
      cases obstacle with
      | endless name => exact absurd hv (hfirst name)
      | rejected reason =>
        obtain ⟨arm, ha, result, hresult⟩ := h
        rcases List.mem_cons.mp ha with rfl | ha
        · rw [hv] at hresult
          cases hresult
        · exact ih hothers ⟨arm, ha, result, hresult⟩ _

section
variable (hd : d.Guarded)
include hd

/-- A union accepts what some arm accepts, wherever the arm stands. -/
theorem Guarded.accepts_union {arms : List Schema} :
    d.Accepts (.union arms) value ↔ ∃ arm ∈ arms, d.Accepts arm value := by
  constructor
  · rintro ⟨result, h⟩
    obtain ⟨arm, ha, h⟩ := exists_of_eval_union h
    exact ⟨arm, ha, result, h⟩
  · intro h
    obtain ⟨result, hresult⟩ :=
      exists_evalArms_eq_ok (fun arm _ name => hd.eval_ne_endless clear_nil value name) h []
    refine ⟨result, ?_⟩
    rw [eval]
    exact hresult

/-- A name makes of a value what its declaration does. -/
theorem Guarded.eval_ref_of_find? {name : String} {x : Declaration} (hx : d.find? name = some x) :
    d.eval [] (.ref name) value = d.eval [] x.schema value := by
  rw [eval_ref_of_notMem List.not_mem_nil, hx]
  exact eval_congr (fun _ _ => rfl) (clear_nil.sameOpen (clear_nil.opened hd hx))

theorem Guarded.accepts_ref_of_find? {name : String} {x : Declaration} (hx : d.find? name = some x) :
    d.Accepts (.ref name) value ↔ d.Accepts x.schema value := by
  rw [Accepts, hd.eval_ref_of_find? hx, Accepts]

theorem Guarded.accepts_oneOrMany {item : Schema} : d.Accepts (.oneOrMany item) value ↔
    (∃ items, value = .array items ∧ ∀ x ∈ items, d.Accepts item x) ∨ d.Accepts item value := by
  rw [Schema.oneOrMany, hd.accepts_union]
  simp [accepts_array]

end

end Document

end DataShapes
