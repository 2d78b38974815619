import Mathlib.Data.List.Nodup
import DataShapes.Text.NameSet

/-! # Members of a set of names

A set of names has the members of the list that it was made of, and is nothing but its members: neither the
order of that list nor how often a name stands in it is seen. -/

namespace DataShapes

namespace NameSet

@[simp] theorem mem_insert {name other : String} {names : List String} :
    other ∈ insert name names ↔ other = name ∨ other ∈ names := by
  induction names with
  | nil => simp [insert]
  | cons first names ih =>
    unfold insert
    split
    · exact List.mem_cons
    · split
      · next h =>
        subst h
        simp
      · rw [List.mem_cons, ih, List.mem_cons, or_left_comm]

@[simp] theorem mem_ofList {name : String} {names : List String} : name ∈ ofList names ↔ name ∈ names := by
  induction names with
  | nil => simp [ofList]
  | cons first names ih =>
    show name ∈ insert first (ofList names) ↔ _
    rw [mem_insert, ih, List.mem_cons]

theorem pairwise_insert {name : String} {names : List String} (h : names.Pairwise (· < ·)) :
    (insert name names).Pairwise (· < ·) := by
  induction names with
  | nil => exact List.pairwise_singleton _ _
  | cons first names ih =>
    obtain ⟨hfirst, hnames⟩ := List.pairwise_cons.mp h
    unfold insert
    split
    · next hlt =>
      refine List.pairwise_cons.mpr ⟨fun other ho => ?_, h⟩
      rcases List.mem_cons.mp ho with rfl | ho
      · exact hlt
      · exact String.lt_trans hlt (hfirst other ho)
    · next hge =>
      split
      · exact h
      · next hne =>
        refine List.pairwise_cons.mpr ⟨fun other ho => ?_, ih hnames⟩
        rcases mem_insert.mp ho with rfl | ho
        · exact Decidable.not_not.mp fun hle => hne (String.le_antisymm (String.not_lt.mp hle) (String.not_lt.mp hge))
        · exact hfirst other ho

theorem pairwise_ofList (names : List String) : (ofList names).Pairwise (· < ·) := by
  induction names with
  | nil => exact List.Pairwise.nil
  | cons name names ih => exact pairwise_insert ih

/-- Lists of the same members make the same set. -/
theorem ofList_congr {names others : List String} (h : ∀ name, name ∈ names ↔ name ∈ others) :
    ofList names = ofList others := by
  have hnodup : ∀ names : List String, (ofList names).Nodup := fun names =>
    (pairwise_ofList names).imp fun hlt => String.ne_of_lt hlt
  have hperm : (ofList names).Perm (ofList others) :=
    (List.perm_ext_iff_of_nodup (hnodup names) (hnodup others)).mpr fun name => by
      rw [mem_ofList, mem_ofList, h]
  exact hperm.eq_of_pairwise (fun _ _ _ _ hab hba => absurd hba (String.lt_asymm hab)) (pairwise_ofList names)
    (pairwise_ofList others)

end NameSet

end DataShapes
