import DataShapes.Files.Tree

/-! # Changes of a file tree

Writing a file changes the place that its path leads to, and creating directories adds some where nothing was. No
directory is lost by either, so that every path which led somewhere still leads there. -/

namespace DataShapes

/-- The paths above a path: the one without its last segment, and those above that. -/
inductive Path.Above : Path → Path → Prop
  | parent {path above : Path} : path.parent? = some above → Above path above
  | further {path between above : Path} : path.parent? = some between → Above between above → Above path above

namespace Tree
variable {tree before after : Tree} {place other : Place} {path : Path}

/-! ### Look-up -/

theorem find?_origin (h : place.isOrigin = true) : tree.find? place = some .directory := if_pos h

theorem isOrigin_of_find? (h : tree.find? place ≠ some .directory) : place.isOrigin = false := by
  cases ho : place.isOrigin with
  | false => rfl
  | true => exact absurd (find?_origin ho) h

/-- Replacing the entry at a place leaves every entry at its place. -/
theorem fst_replace (place : Place) (entry : Entry) (e : Place × Entry) :
    (if e.1 == place then (place, entry) else e).1 = e.1 := by
  split
  · next heq => exact (beq_iff_eq.mp heq).symm
  · rfl

theorem find?_set_self (h : place.isOrigin = false) (entry : Entry) :
    (tree.set place entry).find? place = some entry := by
  rw [find?, if_neg (by simp [h]), set]
  cases hany : tree.entries.any (·.1 == place) with
  | true =>
    obtain ⟨e, he⟩ := Option.isSome_iff_exists.mp (List.find?_isSome.mpr (List.any_eq_true.mp hany))
    have hplace := List.find?_some he
    simp only [↓reduceIte, List.find?_map, Function.comp_def, fst_replace, he, Option.map_some]
    rw [if_pos hplace]
  | false =>
    have hnone : tree.entries.find? (·.1 == place) = none := by simpa [List.find?_eq_none] using hany
    simp [List.find?_append, hnone]

theorem find?_set_of_ne (h : other ≠ place) (entry : Entry) :
    (tree.set place entry).find? other = tree.find? other := by
  rw [find?, find?, set]
  cases hany : tree.entries.any (·.1 == place) with
  | true =>
    simp only [↓reduceIte, List.find?_map, Function.comp_def, fst_replace, Option.map_map]
    cases he : tree.entries.find? (·.1 == other) with
    | none => rfl
    | some e =>
      have hother : e.1 = other := by simpa using List.find?_some he
      have hne : ¬ (e.1 == place) = true := by simpa [hother] using h
      simp only [Option.map_some, if_neg hne]
  | false =>
    have hne : ¬ (place == other) = true := by simpa using Ne.symm h
    simp [List.find?_append, hne]

theorem lookUp_eq_ok_iff {found : Option Entry} :
    tree.lookUp place = .ok found ↔ place.isTooLong = false ∧ tree.find? place = found := by
  unfold lookUp
  cases place.isTooLong <;> simp

/-! ### Where paths lead -/

/-- No directory is lost. -/
def KeepsDirectories (before after : Tree) : Prop :=
  ∀ place, before.find? place = some .directory → after.find? place = some .directory

theorem KeepsDirectories.locateFrom (h : KeepsDirectories before after) {here : Place} {segments : List String}
    {spot : Spot} (hl : before.locateFrom here segments = .ok spot) : after.locateFrom here segments = .ok spot := by
  induction segments generalizing here with
  | nil => exact hl
  | cons segment rest ih =>
    rw [Tree.locateFrom] at hl ⊢
    by_cases hidle : Path.isIdle segment = true
    · rw [if_pos hidle] at hl ⊢
      exact ih hl
    rw [if_neg hidle] at hl ⊢
    by_cases hup : (segment == "..") = true
    · rw [if_pos hup] at hl ⊢
      exact ih hl
    rw [if_neg hup] at hl ⊢
    by_cases hlast : rest.all (· == "") = true
    · simp only [if_pos hlast] at hl ⊢
      exact hl
    simp only [if_neg hlast] at hl ⊢
    -- The path goes on, so this step led into a directory, which is still there.
    split at hl
    · cases hl
    · cases hl
    · cases hl
    · next hfound =>
      obtain ⟨hshort, hfound⟩ := lookUp_eq_ok_iff.mp hfound
      rw [lookUp_eq_ok_iff.mpr ⟨hshort, h _ hfound⟩]
      exact ih hl

theorem KeepsDirectories.locate (h : KeepsDirectories before after) {spot : Spot}
    (hl : before.locate path = .ok spot) : after.locate path = .ok spot := by
  unfold Tree.locate at hl ⊢
  by_cases hnul : path.holdsNul = true
  · rw [if_pos hnul] at hl
    cases hl
  rw [if_neg hnul] at hl ⊢
  by_cases hempty : path.isEmpty = true
  · rw [if_pos hempty] at hl
    cases hl
  rw [if_neg hempty] at hl ⊢
  by_cases hlong : path.isTooLong = true
  · rw [if_pos hlong] at hl
    cases hl
  rw [if_neg hlong] at hl ⊢
  exact h.locateFrom hl

theorem keepsDirectories_set (h : tree.find? place ≠ some .directory) (entry : Entry) :
    KeepsDirectories tree (tree.set place entry) := by
  intro other hother
  have hne : other ≠ place := by
    rintro rfl
    exact h hother
  rw [find?_set_of_ne hne, hother]

/-! ### Writing -/

/-- A file is written to the place that its path leads to, which is no directory. -/
theorem exists_of_write {contents : Contents} (h : before.write path contents = .ok after) :
    ∃ place, before.locate path = .ok ⟨place, false⟩ ∧ place.isTooLong = false ∧
      before.find? place ≠ some .directory ∧ after = before.set place (.file contents) := by
  unfold write at h
  cases hl : before.locate path with
  | error fault => simp [hl, bind, Except.bind] at h
  | ok spot =>
    obtain ⟨place, asDirectory⟩ := spot
    cases asDirectory with
    | true => simp [hl, bind, Except.bind] at h
    | false =>
      cases hfound : before.lookUp place with
      | error fault => simp [hl, hfound, bind, Except.bind] at h
      | ok found =>
        obtain ⟨hshort, hfind⟩ := lookUp_eq_ok_iff.mp hfound
        simp only [hl, hfound, bind, Except.bind, Bool.false_eq_true, ↓reduceIte] at h
        refine ⟨place, rfl, hshort, ?_⟩
        rw [hfind]
        cases found with
        | none =>
          cases h
          exact ⟨nofun, rfl⟩
        | some entry =>
          cases entry with
          | directory => cases h
          | file old =>
            cases h
            exact ⟨nofun, rfl⟩

/-- What is written is read again. -/
theorem read_of_write {contents : Contents} (h : before.write path contents = .ok after) :
    after.read path = contents.text? := by
  obtain ⟨place, hl, hshort, hfind, rfl⟩ := exists_of_write h
  have hl' := (keepsDirectories_set hfind (.file contents)).locate hl
  have hfound : (before.set place (.file contents)).lookUp place = .ok (some (.file contents)) :=
    lookUp_eq_ok_iff.mpr ⟨hshort, find?_set_self (isOrigin_of_find? hfind) (.file contents)⟩
  simp [read, hl', hfound, bind, Except.bind]

/-! ### Creating directories -/

/-- What is new are directories to which some of these paths lead; all else is as it was. -/
def Grown (paths : Path → Prop) (before after : Tree) : Prop :=
  ∀ place, after.find? place = before.find? place ∨
    before.find? place = none ∧ after.find? place = some .directory ∧
      ∃ path, paths path ∧ ∃ spot, after.locate path = .ok spot ∧ spot.place = place

namespace Grown
variable {paths : Path → Prop}

theorem refl (tree : Tree) : Grown paths tree tree := fun _ => Or.inl rfl

theorem keepsDirectories (h : Grown paths before after) : KeepsDirectories before after := by
  intro place hp
  rcases h place with hsame | ⟨hnone, -⟩
  · rw [hsame, hp]
  · rw [hnone] at hp
    cases hp

theorem trans {between : Tree} (h : Grown paths before between) (h' : Grown paths between after) :
    Grown paths before after := by
  intro place
  rcases h place with hsame | ⟨hnone, hnew, path, hpath, spot, hspot, rfl⟩
  · rw [← hsame]
    exact h' place
  · exact Or.inr ⟨hnone, h'.keepsDirectories _ hnew, path, hpath, spot, h'.keepsDirectories.locate hspot, rfl⟩

theorem mono {more : Path → Prop} (h : Grown paths before after) (hmore : ∀ path, paths path → more path) :
    Grown more before after := by
  intro place
  rcases h place with hsame | ⟨hnone, hnew, path, hpath, hspot⟩
  · exact Or.inl hsame
  · exact Or.inr ⟨hnone, hnew, path, hmore path hpath, hspot⟩

end Grown

theorem grown_createDirectory (h : before.createDirectory path = .ok after) : Grown (· = path) before after := by
  unfold createDirectory at h
  cases hl : before.locate path with
  | error fault => simp [hl, bind, Except.bind] at h
  | ok spot =>
    cases hfound : before.lookUp spot.place with
    | error fault => simp [hl, hfound, bind, Except.bind] at h
    | ok found =>
      cases found with
      | some entry => simp [hl, hfound, bind, Except.bind] at h
      | none =>
        obtain ⟨-, hnone⟩ := lookUp_eq_ok_iff.mp hfound
        obtain rfl : before.set spot.place .directory = after := by
          simpa [hl, hfound, bind, Except.bind, pure, Except.pure] using h
        have hfree : before.find? spot.place ≠ some .directory := by simp [hnone]
        intro place
        by_cases hp : place = spot.place
        · subst hp
          exact Or.inr ⟨hnone, find?_set_self (isOrigin_of_find? hfree) _, path, rfl, spot,
            (keepsDirectories_set hfree _).locate hl, rfl⟩
        · exact Or.inl (find?_set_of_ne hp _)

theorem grown_ensureDirectory (tree : Tree) (path : Path) :
    Grown (· = path) tree (tree.ensureDirectory path).2 := by
  unfold ensureDirectory
  cases h : tree.createDirectory path with
  | ok created => exact grown_createDirectory h
  | error fault => exact .refl tree

/-- Whether it succeeds or not, creating a directory adds that directory and some above it. -/
theorem grown_createDirectories (tree : Tree) (path : Path) :
    Grown (fun created => created = path ∨ path.Above created) tree (tree.createDirectories path).2 := by
  have hself : Grown (fun created => created = path ∨ path.Above created) tree (tree.ensureDirectory path).2 :=
    (grown_ensureDirectory tree path).mono fun _ => Or.inl
  rw [createDirectories]
  split
  · exact .refl tree
  split
  · split
    · exact .refl tree
    · next parent hparent =>
      have hparents : Grown (fun created => created = path ∨ path.Above created) tree
          (tree.createDirectories parent).2 := by
        refine (grown_createDirectories tree parent).mono fun created hcreated => Or.inr ?_
        rcases hcreated with rfl | habove
        · exact .parent hparent
        · exact .further hparent habove
      split
      · next grown hgrown =>
        rw [hgrown] at hparents
        exact hparents.trans ((grown_ensureDirectory grown path).mono fun _ => Or.inl)
      · exact hparents
  · exact hself
termination_by path.segments.length
decreasing_by exact Path.length_parent_lt (by assumption)

end Tree

end DataShapes
