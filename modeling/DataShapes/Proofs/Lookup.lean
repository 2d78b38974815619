import Mathlib.Data.List.Flatten
import Mathlib.Data.List.Nodup
import Mathlib.Data.List.Perm.Subperm

/-! # Look-up by a key

Looking for the first element with some property finds the only one that has it, as a key does that stands
once in a list. What is found among distinct keys does not depend on the order of the list. -/

namespace DataShapes

variable {α : Type} {xs : List α} {x : α}

theorem find?_eq_of_only {p : α → Bool} (hx : x ∈ xs) (hp : p x = true) (h : ∀ y ∈ xs, p y = true → y = x) :
    xs.find? p = some x := by
  cases hfound : xs.find? p with
  | none => exact absurd hp (List.find?_eq_none.mp hfound x hx)
  | some y => rw [h y (List.mem_of_find?_eq_some hfound) (List.find?_some hfound)]

/-- Among distinct keys each finds its own element. -/
theorem find?_eq_of_nodup {key : α → String} (h : (xs.map key).Nodup) (hx : x ∈ xs) :
    xs.find? (key · == key x) = some x := by
  refine find?_eq_of_only hx (beq_self_eq_true (key x)) fun y hy hkey => ?_
  exact List.inj_on_of_nodup_map h hy hx (by simpa using hkey)

/-- So what is found is the member of that key, wherever it stands. -/
theorem find?_eq_some_iff_of_nodup {key : α → String} (h : (xs.map key).Nodup) {k : String} :
    xs.find? (key · == k) = some x ↔ x ∈ xs ∧ key x = k := by
  constructor
  · intro hfind
    exact ⟨List.mem_of_find?_eq_some hfind, by simpa using List.find?_some hfind⟩
  · rintro ⟨hx, rfl⟩
    exact find?_eq_of_nodup h hx

/-- What is found depends on what the elements of the list give. -/
theorem findSome?_congr {β : Type} {f g : α → Option β} (h : ∀ x ∈ xs, f x = g x) :
    xs.findSome? f = xs.findSome? g := by
  induction xs with
  | nil => rfl
  | cons x xs ih =>
    obtain ⟨hx, hxs⟩ := List.forall_mem_cons.mp h
    rw [List.findSome?_cons, List.findSome?_cons, hx, ih hxs]

/-! ### Rows made of the elements of a list -/

variable {β : Type} {ys : List α}

/-- Of distinct keys only the row of one has elements that belong to it. -/
theorem flatMap_eq_of_nodup {key : α → String} (h : (xs.map key).Nodup) (hx : x ∈ xs) {f : α → List β}
    (hf : ∀ y ∈ xs, key y ≠ key x → f y = []) : xs.flatMap f = f x := by
  induction xs with
  | nil => cases hx
  | cons y xs ih =>
    obtain ⟨hy, hxs⟩ := List.nodup_cons.mp h
    rw [List.flatMap_cons]
    rcases List.mem_cons.mp hx with rfl | hx
    · have hrest : xs.flatMap f = [] := List.flatMap_eq_nil_iff.mpr fun z hz =>
        hf z (List.mem_cons_of_mem _ hz) fun heq => hy (heq ▸ List.mem_map_of_mem hz)
      rw [hrest, List.append_nil]
    · have hfirst : f y = [] := hf y List.mem_cons_self fun heq => hy (heq ▸ List.mem_map_of_mem hx)
      rw [hfirst, List.nil_append]
      exact ih hxs hx fun z hz => hf z (List.mem_cons_of_mem _ hz)

/-- More elements with longer rows make more. -/
theorem subperm_flatMap (h : xs.Subperm ys) {f g : α → List β} (hf : ∀ x ∈ xs, (f x).Sublist (g x)) :
    (xs.flatMap f).Subperm (ys.flatMap g) := by
  obtain ⟨zs, hperm, hsublist⟩ := h
  have hrows : (zs.flatMap f).Sublist (zs.flatMap g) :=
    List.Sublist.flatMap_right zs fun z hz => hf z (hperm.mem_iff.mp hz)
  have hlonger : (zs.flatMap g).Sublist (ys.flatMap g) := hsublist.flatMap g
  exact (hperm.flatMap_right f).symm.subperm.trans (hrows.trans hlonger).subperm

end DataShapes
