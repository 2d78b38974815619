import DataShapes.Proofs.Json.Entries
import DataShapes.Proofs.Schema.Evaluation
import DataShapes.Proofs.Schema.References

/-! # Schemas that leave values as they are

An input is strict throughout and refers to inputs only. Whatever such a schema accepts it returns as it
came: a strict object gathers all entries of the value again, and everything else is built up from what
its parts return. An object that is not strict returns the entries it names. -/

namespace DataShapes

namespace Document
variable {d : Document}

/-! ### The relation -/

/-- The schema accepts the value and makes this result of it. A union may take any arm. -/
inductive Makes (d : Document) : Schema → Json → Json → Prop
  | leaf {l : Leaf} {value : Json} : l.admits value = true → Makes d (.leaf l) value value
  | ref {name : String} {x : Declaration} {value result : Json} :
    d.find? name = some x → Makes d x.schema value result → Makes d (.ref name) value result
  | enumeration {values : List String} {s : String} :
    s ∈ values → Makes d (.enumeration values) (.string s) (.string s)
  | object {properties : List (String × Schema)} {strict : Bool} {entries : List (String × Json)}
      {change : Schema → Json → Json} :
    (strict = true → ∀ e ∈ entries, e.1 ∈ properties.map (·.1)) →
    (∀ p ∈ properties, Json.entry? entries p.1 = none → p.2.acceptsAbsent = true) →
    (∀ p ∈ properties, ∀ value, Json.entry? entries p.1 = some value → Makes d p.2 value (change p.2 value)) →
    Makes d (.object properties strict) (.object entries) (.object (gather change entries properties []))
  | union {arms : List Schema} {arm : Schema} {value result : Json} :
    arm ∈ arms → Makes d arm value result → Makes d (.union arms) value result
  | array {item : Schema} {items : List Json} {change : Json → Json} :
    (∀ x ∈ items, Makes d item x (change x)) → Makes d (.array item) (.array items) (.array (items.map change))
  | record {item : Schema} {entries : List (String × Json)} {change : Json → Json} :
    (∀ e ∈ entries, Makes d item e.2 (change e.2)) →
    Makes d (.record item) (.object entries) (.object (entries.map fun e => (e.1, change e.2)))
  | optional {inner : Schema} {value result : Json} :
    Makes d inner value result → Makes d (.optional inner) value result
  | nullableNull {inner : Schema} : Makes d (.nullable inner) .null .null
  | nullable {inner : Schema} {value result : Json} :
    Makes d inner value result → Makes d (.nullable inner) value result
  | nullishNull {inner : Schema} : Makes d (.nullish inner) .null .null
  | nullish {inner : Schema} {value result : Json} :
    Makes d inner value result → Makes d (.nullish inner) value result

/-- What evaluation makes of a value is made of it. The induction is the one by which evaluation ends: the
value gets smaller, or else a name is opened, or else the schema gets smaller. -/
theorem makes_of_eval {trail : List String} {schema : Schema} {value result : Json}
    (h : d.eval trail schema value = .ok result) : d.Makes schema value result := by
  match schema with
  | .leaf l =>
    obtain ⟨hadmits, rfl⟩ := eval_leaf_eq_ok_iff.mp h
    exact .leaf hadmits
  | .ref name =>
    obtain ⟨hfresh, x, hx, h⟩ := eval_ref_eq_ok_iff.mp h
    exact .ref hx (makes_of_eval h)
  | .enumeration values =>
    obtain ⟨s, rfl, hs, rfl⟩ := eval_enumeration_eq_ok_iff.mp h
    exact .enumeration hs
  | .object properties strict =>
    obtain ⟨entries, hvalue, hstrict, hfits, rfl⟩ := eval_object_eq_ok_iff.mp h
    have hparts : ∀ p ∈ properties, ∀ part, Json.entry? entries p.1 = some part →
        d.Makes p.2 part (d.made p.2 part) :=
      fun p hp part he => makes_of_eval (hfits.present p hp part he)
    rw [hvalue]
    exact .object hstrict hfits.absent hparts
  | .union arms =>
    obtain ⟨arm, ha, h⟩ := exists_of_eval_union h
    exact .union ha (makes_of_eval h)
  | .array item =>
    obtain ⟨items, hvalue, hitems, rfl⟩ := eval_array_eq_ok_iff.mp h
    have hparts : ∀ x ∈ items, d.Makes item x (d.made item x) := fun x hx => makes_of_eval (hitems x hx)
    rw [hvalue]
    exact .array hparts
  | .record item =>
    obtain ⟨entries, hvalue, hentries, rfl⟩ := eval_record_eq_ok_iff.mp h
    have hparts : ∀ e ∈ entries, d.Makes item e.2 (d.made item e.2) := fun e he => makes_of_eval (hentries e he)
    rw [hvalue]
    exact .record hparts
  | .optional inner =>
    rw [eval_optional] at h
    exact .optional (makes_of_eval h)
  | .nullable inner =>
    rcases eval_nullable_eq_ok_iff.mp h with ⟨rfl, rfl⟩ | ⟨-, h⟩
    · exact .nullableNull
    · exact .nullable (makes_of_eval h)
  | .nullish inner =>
    rcases eval_nullish_eq_ok_iff.mp h with ⟨rfl, rfl⟩ | ⟨-, h⟩
    · exact .nullishNull
    · exact .nullish (makes_of_eval h)
termination_by (sizeOf value, d.unopened trail, sizeOf schema)
decreasing_by
  · exact Prod.Lex.right _ (Prod.Lex.left _ _ (unopened_cons_lt (mem_names_of_find? hx) (by simpa using hfresh)))
  · have hlt := Json.sizeOf_entry?_lt he
    exact Prod.Lex.left _ _ (by rw [hvalue, Json.object.sizeOf_spec]; omega)
  · have hlt := List.sizeOf_lt_of_mem ha
    exact Prod.Lex.right _ (Prod.Lex.right _ (by rw [Schema.union.sizeOf_spec]; omega))
  · have hlt := List.sizeOf_lt_of_mem hx
    exact Prod.Lex.left _ _ (by rw [hvalue, Json.array.sizeOf_spec]; omega)
  · have hlt := List.sizeOf_lt_of_mem he
    have hpair : sizeOf e = 1 + sizeOf e.1 + sizeOf e.2 := rfl
    exact Prod.Lex.left _ _ (by rw [hvalue, Json.object.sizeOf_spec]; omega)
  all_goals exact Prod.Lex.right _ (Prod.Lex.right _ (by simp))

/-! ### Gathering unchanged entries -/

section
variable {change : Schema → Json → Json} {entries : List (String × Json)}

theorem sorted_gather (properties : List (String × Schema)) {seen : List (String × Json)} (h : Json.Sorted seen) :
    Json.Sorted (gather change entries properties seen) := by
  induction properties generalizing seen with
  | nil => exact h
  | cons p others ih =>
    rw [gather]
    split
    · exact ih h
    · exact ih (h.setEntry _ _)

/-- When no part is changed, the entries of the properties are gathered, beside those gathered before. -/
theorem mem_gather (hentries : Json.Sorted entries) {properties : List (String × Schema)}
    (hsame : ∀ p ∈ properties, ∀ value, Json.entry? entries p.1 = some value → change p.2 value = value)
    {seen : List (String × Json)} (hsorted : Json.Sorted seen) (hseen : ∀ e ∈ seen, e ∈ entries)
    {e : String × Json} : e ∈ gather change entries properties seen ↔
      e ∈ seen ∨ e ∈ entries ∧ e.1 ∈ properties.map (·.1) := by
  induction properties generalizing seen with
  | nil => simp [gather]
  | cons p others ih =>
    obtain ⟨key, schema⟩ := p
    have hothers := fun q hq => hsame q (List.mem_cons_of_mem _ hq)
    rw [gather, List.map_cons, List.mem_cons]
    split
    · next he =>
      rw [ih hothers hsorted hseen]
      refine or_congr_right (and_congr_right fun hm => ⟨Or.inr, fun h => h.resolve_left ?_⟩)
      exact Json.entry?_eq_none_iff.mp he e hm
    · next value he =>
      have hvalue : (key, value) ∈ entries := Json.mem_of_entry_eq_some he
      -- The entry of the key is the same wherever it comes from.
      have hkey : ∀ other ∈ entries, other.1 = key → other = (key, value) := fun other ho heq =>
        List.inj_on_of_nodup_map hentries.nodup ho hvalue heq
      rw [hsame (key, schema) List.mem_cons_self value he]
      rw [ih hothers (hsorted.setEntry key value) fun other ho => ?_, hsorted.mem_setEntry]
      · constructor
        · rintro ((rfl | ⟨hm, -⟩) | ⟨hm, hk⟩)
          · exact Or.inr ⟨hvalue, Or.inl rfl⟩
          · exact Or.inl hm
          · exact Or.inr ⟨hm, Or.inr hk⟩
        · rintro (hm | ⟨hm, hk | hk⟩)
          · by_cases hk : e.1 = key
            · exact Or.inl (Or.inl (hkey e (hseen e hm) hk))
            · exact Or.inl (Or.inr ⟨hm, hk⟩)
          · exact Or.inl (Or.inl (hkey e hm hk))
          · exact Or.inr ⟨hm, hk⟩
      · rcases Json.mem_of_mem_setEntry ho with rfl | ho
        · exact hvalue
        · exact hseen other ho

theorem gather_eq_filter (hentries : Json.Sorted entries) {properties : List (String × Schema)}
    (hsame : ∀ p ∈ properties, ∀ value, Json.entry? entries p.1 = some value → change p.2 value = value) :
    gather change entries properties [] = entries.filter fun e => (properties.map (·.1)).contains e.1 := by
  have hnil : Json.Sorted [] := List.Pairwise.nil
  refine (sorted_gather properties hnil).ext (hentries.filter _) fun e => ?_
  rw [mem_gather hentries hsame hnil fun _ he => absurd he List.not_mem_nil]
  simp

/-- An object of known entries comes back as it is when each part does. -/
theorem eval_object_eq_self {trail : List String} {properties : List (String × Schema)} {strict : Bool}
    (hsorted : Json.Sorted entries) (hknown : ∀ e ∈ entries, e.1 ∈ properties.map (·.1))
    (hfits : Fits (fun schema part => d.eval [] schema part = .ok part) properties entries) :
    d.eval trail (.object properties strict) (.object entries) = .ok (.object entries) := by
  have hmade : ∀ p ∈ properties, ∀ part, Json.entry? entries p.1 = some part → d.made p.2 part = part :=
    fun p hp part hpart => made_of_eval (hfits.present p hp part hpart)
  have hgather : gather d.made entries properties [] = entries := by
    rw [gather_eq_filter hsorted hmade]
    exact List.filter_eq_self.mpr fun e he => by simpa using hknown e he
  refine eval_object_eq_ok_iff.mpr ⟨entries, rfl, fun _ => hknown, ⟨hfits.absent, fun p hp part hpart => ?_⟩, ?_⟩
  · rw [hmade p hp part hpart]
    exact hfits.present p hp part hpart
  · rw [hgather]

end

/-! ### Unchanged values -/

section
variable {names : String → Prop} (hclosed : ∀ name, names name → ∀ x, d.find? name = some x → x.schema.Within names)
include hclosed

/-- Among names that declare strict schemas within these names, whatever is accepted stays as it is. -/
theorem Makes.eq_self {schema : Schema} {value result : Json} (h : d.Makes schema value result)
    (hschema : schema.Within names) (hvalue : value.IsNormal) : result = value := by
  induction h with
  | leaf | enumeration | nullableNull | nullishNull => rfl
  | ref hx _ ih =>
    rw [Schema.within_ref] at hschema
    exact ih (hclosed _ hschema _ hx) hvalue
  | @object properties strict entries change hstrict _ _ ih =>
    obtain ⟨rfl, hproperties⟩ := Schema.within_object.mp hschema
    cases hvalue with
    | object hsorted hnormal =>
      have hsame : ∀ p ∈ properties, ∀ value, Json.entry? entries p.1 = some value → change p.2 value = value :=
        fun p hp value he => ih p hp value he (hproperties p hp) (hnormal _ (Json.mem_of_entry_eq_some he))
      rw [gather_eq_filter hsorted hsame, List.filter_eq_self.mpr fun e he => ?_]
      simpa using hstrict rfl e he
  | union ha _ ih => exact ih (Schema.within_union.mp hschema _ ha) hvalue
  | @array item items change _ ih =>
    cases hvalue with
    | array hnormal =>
      have hsame : items.map change = items.map id :=
        List.map_congr_left fun x hx => ih x hx (Schema.within_array.mp hschema) (hnormal x hx)
      rw [hsame, List.map_id]
  | @record item entries change _ ih =>
    cases hvalue with
    | object hsorted hnormal =>
      have hsame : (entries.map fun e => (e.1, change e.2)) = entries.map id := List.map_congr_left fun e he =>
        Prod.ext rfl (ih e he (Schema.within_record.mp hschema) (hnormal e he))
      rw [hsame, List.map_id]
  | optional _ ih => exact ih (Schema.within_optional.mp hschema) hvalue
  | nullable _ ih => exact ih (Schema.within_nullable.mp hschema) hvalue
  | nullish _ ih => exact ih (Schema.within_nullish.mp hschema) hvalue

theorem eval_eq_self {trail : List String} {schema : Schema} {value result : Json}
    (h : d.eval trail schema value = .ok result) (hschema : schema.Within names) (hvalue : value.IsNormal) :
    result = value :=
  (makes_of_eval h).eq_self hclosed hschema hvalue

/-- An object that is not strict returns the entries it names, each of which fits it as it is. -/
theorem fits_of_eval_object {trail : List String} {properties : List (String × Schema)} {value result : Json}
    (h : d.eval trail (.object properties false) value = .ok result)
    (hproperties : ∀ p ∈ properties, p.2.Within names) (hvalue : value.IsNormal) :
    ∃ entries kept, value = .object entries ∧
      kept = (entries.filter fun e => (properties.map (·.1)).contains e.1) ∧ result = .object kept ∧
      Json.Sorted kept ∧ Fits (fun schema part => d.eval [] schema part = .ok part) properties kept := by
  obtain ⟨entries, rfl, -, hfits, rfl⟩ := eval_object_eq_ok_iff.mp h
  cases hvalue with
  | object hsorted hnormal =>
    have hsame : ∀ p ∈ properties, ∀ part, Json.entry? entries p.1 = some part → d.made p.2 part = part :=
      fun p hp part he =>
        eval_eq_self hclosed (hfits.present p hp part he) (hproperties p hp) (hnormal _ (Json.mem_of_entry_eq_some he))
    let kept := entries.filter fun e => (properties.map (·.1)).contains e.1
    have hksorted : Json.Sorted kept := hsorted.filter _
    -- For the properties the kept entries are those of the value.
    have hentry : ∀ p ∈ properties, Json.entry? kept p.1 = Json.entry? entries p.1 := fun p hp =>
      Option.ext fun part => by
        rw [hksorted.entry?_eq_some_iff, hsorted.entry?_eq_some_iff, List.mem_filter]
        have hk : (properties.map (·.1)).contains p.1 = true := by
          simpa using ⟨p.2, hp⟩
        simp only [hk, and_true]
    refine ⟨entries, kept, rfl, rfl, ?_, hksorted, fun p hp he => ?_, fun p hp part he => ?_⟩
    · rw [gather_eq_filter hsorted hsame]
    · exact hfits.absent p hp (hentry p hp ▸ he)
    · rw [hentry p hp] at he
      have heval := hfits.present p hp part he
      rwa [hsame p hp part he] at heval

/-- An object of such properties that is not strict returns the entries it names, and returns these again. -/
theorem eval_object_eq_filter {trail : List String} {properties : List (String × Schema)} {value result : Json}
    (h : d.eval trail (.object properties false) value = .ok result)
    (hproperties : ∀ p ∈ properties, p.2.Within names) (hvalue : value.IsNormal) :
    ∃ entries, value = .object entries ∧
      result = .object (entries.filter fun e => (properties.map (·.1)).contains e.1) ∧
      d.eval trail (.object properties false) result = .ok result := by
  obtain ⟨entries, _, rfl, rfl, rfl, hsorted, hfits⟩ := fits_of_eval_object hclosed h hproperties hvalue
  refine ⟨entries, rfl, rfl, eval_object_eq_self hsorted (fun e he => ?_) hfits⟩
  simpa using (List.mem_filter.mp he).2

end

end Document

end DataShapes
