import Mathlib.Data.List.Nodup
import DataShapes.Json.Value

/-! # Sorted entries

The entries of a normal value are sorted by key, and each key has one entry. So a row of sorted entries is
told by its members, and setting an entry changes the member of its key only. -/

namespace DataShapes

namespace Json

/-- The keys increase strictly. -/
def Sorted (entries : List (String × Json)) : Prop := entries.Pairwise (·.1 < ·.1)

/-- All objects in the value are sorted. -/
inductive IsNormal : Json → Prop
  | null : IsNormal .null
  | bool {b : Bool} : IsNormal (.bool b)
  | int {n : Int} : IsNormal (.int n)
  | double {d : Double} : IsNormal (.double d)
  | string {s : String} : IsNormal (.string s)
  | array {items : List Json} : (∀ item ∈ items, IsNormal item) → IsNormal (.array items)
  | object {entries : List (String × Json)} :
    Sorted entries → (∀ e ∈ entries, IsNormal e.2) → IsNormal (.object entries)

section
variable {entries : List (String × Json)} {key : String} {value : Json}

theorem Sorted.nodup (h : Sorted entries) : (entries.map (·.1)).Nodup :=
  List.pairwise_map.mpr (h.imp String.ne_of_lt)

theorem Sorted.filter (h : Sorted entries) (p : String × Json → Bool) : Sorted (entries.filter p) :=
  List.Pairwise.filter p h

/-! ### Members -/

theorem mem_of_entry_eq_some (h : entry? entries key = some value) : (key, value) ∈ entries := by
  obtain ⟨e, he, rfl⟩ := Option.map_eq_some_iff.mp h
  obtain rfl : e.1 = key := by simpa using List.find?_some he
  exact List.mem_reverse.mp (List.mem_of_find?_eq_some he)

theorem entry?_eq_none_iff : entry? entries key = none ↔ ∀ e ∈ entries, e.1 ≠ key := by
  simp [List.find?_eq_none, entry?]

theorem Sorted.entry?_eq_some_iff (h : Sorted entries) :
    entry? entries key = some value ↔ (key, value) ∈ entries := by
  refine ⟨mem_of_entry_eq_some, fun hm => ?_⟩
  cases he : entry? entries key with
  | none => exact absurd rfl (entry?_eq_none_iff.mp he _ hm)
  | some other =>
    have heq : (key, other) = (key, value) := List.inj_on_of_nodup_map h.nodup (mem_of_entry_eq_some he) hm rfl
    exact congrArg some (Prod.mk.inj heq).2

/-- Sorted entries with the same members are the same. -/
theorem Sorted.ext {others : List (String × Json)} (h : Sorted entries) (ho : Sorted others)
    (hm : ∀ e, e ∈ entries ↔ e ∈ others) : entries = others := by
  have hperm : entries.Perm others :=
    (List.perm_ext_iff_of_nodup (List.Nodup.of_map _ h.nodup) (List.Nodup.of_map _ ho.nodup)).mpr hm
  exact hperm.eq_of_pairwise (fun a b _ _ hab hba => absurd hba (String.lt_asymm hab)) h ho

/-! ### Setting an entry -/

theorem mem_of_mem_setEntry {e : String × Json} (h : e ∈ setEntry key value entries) :
    e = (key, value) ∨ e ∈ entries := by
  induction entries with
  | nil => simpa [setEntry] using h
  | cons first rest ih =>
    unfold setEntry at h
    split at h
    · exact List.mem_cons.mp h
    · split at h
      · exact (List.mem_cons.mp h).imp_right (List.mem_cons_of_mem _)
      · rcases List.mem_cons.mp h with rfl | h
        · exact Or.inr List.mem_cons_self
        · exact (ih h).imp_right (List.mem_cons_of_mem _)

theorem Sorted.mem_setEntry (h : Sorted entries) {e : String × Json} :
    e ∈ setEntry key value entries ↔ e = (key, value) ∨ e ∈ entries ∧ e.1 ≠ key := by
  induction entries with
  | nil => simp [setEntry]
  | cons first rest ih =>
    obtain ⟨hfirst, hrest⟩ := List.pairwise_cons.mp h
    unfold setEntry
    split
    · next hlt =>
      -- All keys are greater than the new one.
      have hne : ∀ other ∈ first :: rest, other.1 ≠ key := by
        intro other ho heq
        rcases List.mem_cons.mp ho with rfl | ho
        · exact String.ne_of_lt hlt heq.symm
        · exact String.ne_of_lt (String.lt_trans hlt (hfirst other ho)) heq.symm
      rw [List.mem_cons]
      exact or_congr_right ⟨fun he => ⟨he, hne e he⟩, And.left⟩
    · split
      · next heq =>
        subst heq
        have hne : ∀ other ∈ rest, other.1 ≠ first.1 := fun other ho => (String.ne_of_lt (hfirst other ho)).symm
        rw [List.mem_cons, List.mem_cons]
        constructor
        · exact Or.imp_right fun he => ⟨Or.inr he, hne e he⟩
        · rintro (rfl | ⟨rfl | he, hne⟩)
          · exact Or.inl rfl
          · exact absurd rfl hne
          · exact Or.inr he
      · next heq =>
        rw [List.mem_cons, ih hrest, List.mem_cons]
        constructor
        · rintro (rfl | rfl | ⟨he, hne⟩)
          · exact Or.inr ⟨Or.inl rfl, fun h => heq h.symm⟩
          · exact Or.inl rfl
          · exact Or.inr ⟨Or.inr he, hne⟩
        · rintro (rfl | ⟨rfl | he, hne⟩)
          · exact Or.inr (Or.inl rfl)
          · exact Or.inl rfl
          · exact Or.inr (Or.inr ⟨he, hne⟩)

theorem Sorted.setEntry (h : Sorted entries) (key : String) (value : Json) :
    Sorted (setEntry key value entries) := by
  induction entries with
  | nil => exact List.pairwise_singleton _ _
  | cons first rest ih =>
    obtain ⟨hfirst, hrest⟩ := List.pairwise_cons.mp h
    unfold Json.setEntry
    split
    · next hlt =>
      refine List.pairwise_cons.mpr ⟨fun e he => ?_, h⟩
      rcases List.mem_cons.mp he with rfl | he
      · exact hlt
      · exact String.lt_trans hlt (hfirst e he)
    · next hlt =>
      split
      · next heq =>
        subst heq
        exact List.pairwise_cons.mpr ⟨hfirst, hrest⟩
      · next heq =>
        refine List.pairwise_cons.mpr ⟨fun e he => ?_, ih hrest⟩
        rcases mem_of_mem_setEntry he with rfl | he
        · exact String.not_le.mp fun hle => heq (String.le_antisymm hle (String.not_lt.mp hlt))
        · exact hfirst e he

end

/-! ### Normal values -/

theorem normalItems_eq (items : List Json) : normalItems items = items.map normal := by
  induction items with
  | nil => rfl
  | cons item items ih => rw [normalItems, ih, List.map_cons]

theorem sorted_normalEntries {seen : List (String × Json)} (h : Sorted seen) (entries : List (String × Json)) :
    Sorted (normalEntries seen entries) := by
  induction entries generalizing seen with
  | nil => exact h
  | cons e entries ih => exact ih (h.setEntry e.1 e.2.normal)

theorem mem_of_mem_normalEntries {seen entries : List (String × Json)} {e : String × Json}
    (h : e ∈ normalEntries seen entries) : e ∈ seen ∨ ∃ x ∈ entries, e = (x.1, x.2.normal) := by
  induction entries generalizing seen with
  | nil => exact Or.inl h
  | cons first entries ih =>
    rcases ih h with hseen | ⟨x, hx, rfl⟩
    · rcases mem_of_mem_setEntry hseen with rfl | hseen
      · exact Or.inr ⟨first, List.mem_cons_self, rfl⟩
      · exact Or.inl hseen
    · exact Or.inr ⟨x, List.mem_cons_of_mem _ hx, rfl⟩

theorem isNormal_normal (value : Json) : value.normal.IsNormal := by
  match value with
  | .null => exact .null
  | .bool _ => exact .bool
  | .int _ => exact .int
  | .double _ => exact .double
  | .string _ => exact .string
  | .array items =>
    rw [normal, normalItems_eq]
    refine .array fun item hi => ?_
    obtain ⟨x, hx, rfl⟩ := List.mem_map.mp hi
    exact isNormal_normal x
  | .object entries =>
    rw [normal]
    refine .object (sorted_normalEntries List.Pairwise.nil entries) fun e he => ?_
    rcases mem_of_mem_normalEntries he with he | ⟨x, hx, rfl⟩
    · cases he
    · exact isNormal_normal x.2
termination_by sizeOf value
decreasing_by
  · have := List.sizeOf_lt_of_mem hx
    simp only [Json.array.sizeOf_spec]
    omega
  · have := List.sizeOf_lt_of_mem hx
    have : sizeOf x = 1 + sizeOf x.1 + sizeOf x.2 := rfl
    simp only [Json.object.sizeOf_spec]
    omega

end Json

end DataShapes
