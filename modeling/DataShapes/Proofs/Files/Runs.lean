import DataShapes.Proofs.Files.Tree
import DataShapes.Proofs.Generation.Resolution
import DataShapes.Proofs.Workspace

/-! # What runs do to files

A run writes nothing before the source of its schemas is generated, so a failure before that leaves every file as it
was. The source of an accepted model is always generated; then the run can only fail to write it. If it does not, the
output is the source, and nothing else has changed but that directories above it were created. -/

namespace DataShapes

/-- In the later tree the path leads to a file with this text. Elsewhere it has what the earlier tree has, and
directories above the path that were missing. -/
structure Tree.Replaced (before after : Tree) (output : Path) (text : String) : Prop where
  read : after.read output = .ok text
  elsewhere : ∃ place, after.locate output = .ok ⟨place, false⟩ ∧ ∀ other, other ≠ place →
    after.find? other = before.find? other ∨
      before.find? other = none ∧ after.find? other = some .directory ∧
        ∃ above, output.Above above ∧ ∃ spot, after.locate above = .ok spot ∧ spot.place = other

/-- Writing a file after the directories above it replaces the file. -/
theorem Tree.replaced_of_write {before between after : Tree} {output : Path} {text : String}
    (hgrown : Grown output.Above before between) (hwrite : between.write output (.text text) = .ok after) :
    before.Replaced after output text := by
  refine ⟨read_of_write hwrite, ?_⟩
  obtain ⟨place, hl, -, hfree, rfl⟩ := exists_of_write hwrite
  have hkeeps := keepsDirectories_set hfree (.file (.text text))
  refine ⟨place, hkeeps.locate hl, fun other hother => ?_⟩
  rw [find?_set_of_ne hother]
  rcases hgrown other with hsame | ⟨hnone, hnew, above, habove, spot, hspot, heq⟩
  · exact Or.inl hsame
  · exact Or.inr ⟨hnone, hnew, above, habove, spot, hkeeps.locate hspot, heq⟩

namespace FileAccess

/-! ### Writing the output -/

variable {tree after : Tree}

theorem run_bind_of_run {α β : Type} {first : StateM Tree α} {next : α → StateM Tree β} {value : α}
    (h : first.run tree = (value, after)) : (first >>= next).run tree = (next value).run after := by
  rw [StateT.run_bind, h]
  rfl

/-- Reading leaves the tree as it is. -/
theorem run_read {path : Path} : (Tree.access.read path).run tree = (tree.read path, tree) := rfl

/-- A failure to create what is above a path names the path above it, which the tree refused to create. -/
theorem grown_createAbove {target : Path} {result : Except Failure Unit}
    (h : (Tree.access.createAbove target).run tree = (result, after)) :
    Tree.Grown target.Above tree after ∧ (result = .ok () ∨
      ∃ parent fault, target.parent? = some parent ∧ result = .error (.inaccessible parent.text fault) ∧
        tree.createDirectories parent = (.error fault, after)) := by
  unfold createAbove at h
  cases hparent : target.parent? with
  | none =>
    rw [hparent] at h
    cases h
    exact ⟨.refl tree, Or.inl rfl⟩
  | some parent =>
    have hgrown : Tree.Grown target.Above tree (tree.createDirectories parent).2 := by
      refine (Tree.grown_createDirectories tree parent).mono fun created hcreated => ?_
      rcases hcreated with rfl | habove
      · exact .parent hparent
      · exact .further hparent habove
    rw [hparent] at h
    cases hempty : parent.isEmpty with
    | true =>
      simp only [hempty, ↓reduceIte] at h
      cases h
      exact ⟨.refl tree, Or.inl rfl⟩
    | false =>
      simp only [hempty, Bool.false_eq_true, ↓reduceIte] at h
      cases hcreate : tree.createDirectories parent with
      | mk created grown =>
        have haccess : (Tree.access.createDirectories parent).run tree = (created, grown) := hcreate
        rw [hcreate] at hgrown
        rw [run_bind_of_run haccess] at h
        cases created with
        | error fault =>
          cases h
          exact ⟨hgrown, Or.inr ⟨parent, fault, rfl, rfl, hcreate⟩⟩
        | ok =>
          cases h
          exact ⟨hgrown, Or.inl rfl⟩

/-- The tree refused to create the directory above the output or to write the output, and the failure says which of
them. Directories above the output may have been created. -/
structure Unreachable (tree after : Tree) (output text : String) (failure : Failure) : Prop where
  grown : Tree.Grown (Path.ofString output).Above tree after
  refused : ∃ fault,
    (failure = .inaccessible output fault ∧ after.write (.ofString output) (.text text) = .error fault) ∨
    ∃ parent, (Path.ofString output).parent? = some parent ∧ failure = .inaccessible parent.text fault ∧
      tree.createDirectories parent = (.error fault, after)

/-- The output is replaced, or it cannot be reached. -/
theorem replaced_or_unreachable {output text : String} {result : Except Failure Unit}
    (h : (Tree.access.replace output text).run tree = (result, after)) :
    (result = .ok () ∧ tree.Replaced after (.ofString output) text) ∨
      ∃ failure, result = .error failure ∧ Unreachable tree after output text failure := by
  unfold replace at h
  cases habove : (Tree.access.createAbove (.ofString output)).run tree with
  | mk created grown =>
    obtain ⟨hgrown, hcreated⟩ := grown_createAbove habove
    rw [run_bind_of_run habove] at h
    rcases hcreated with rfl | ⟨parent, fault, hparent, rfl, hcreate⟩
    · cases hwrite : grown.write (.ofString output) (.text text) with
      | error fault =>
        have haccess : (Tree.access.write (.ofString output) text).run grown = (.error fault, grown) := by
          simp only [Tree.access, StateT.run, hwrite]
        simp only [run_bind_of_run haccess] at h
        cases h
        exact Or.inr ⟨_, rfl, hgrown, fault, Or.inl ⟨rfl, hwrite⟩⟩
      | ok written =>
        have haccess : (Tree.access.write (.ofString output) text).run grown = (.ok (), written) := by
          simp only [Tree.access, StateT.run, hwrite]
        simp only [run_bind_of_run haccess] at h
        cases h
        exact Or.inl ⟨rfl, Tree.replaced_of_write hgrown hwrite⟩
    · cases h
      exact Or.inr ⟨_, rfl, hgrown, fault, Or.inr ⟨parent, hparent, rfl, hcreate⟩⟩

/-! ### Whole runs -/

section
variable {config : Config}

/-- What the run generates from the schema file of a tree. -/
def generated (config : Config) (tree : Tree) : Except Failure (DataModel × Source) :=
  (config.generate (tree.read (.ofString config.schema))).value

/-- The model that the run reads from a tree. -/
def loaded (config : Config) (tree : Tree) : Except Failure DataModel :=
  (DataModel.ofFile config.schema (tree.read (.ofString config.schema))).value

/-- What is read is accepted, unless this is left out, and then it generates its source. -/
theorem generated_eq : generated config tree = (loaded config tree).bind fun model =>
    (if config.skipValidation then .ok model else model.checked).bind fun accepted =>
      accepted.generate.map fun source => (accepted, source) := by
  unfold generated loaded
  cases h : (DataModel.ofFile config.schema (tree.read (.ofString config.schema))).value with
  | error failure => rw [Config.generate, Run.value_andThen, h]; rfl
  | ok model => exact Config.value_generate h

/-- A check accepts what it reads. -/
theorem value_check : ((Tree.access.check config.schema).run tree).1.value =
    (loaded config tree).bind fun model => model.checked.map (·.size) := by
  unfold loaded
  show (Config.inspect config.schema (tree.read (.ofString config.schema))).value = _
  rw [Config.inspect, Run.value_andThen]
  rfl

/-- A run that checks generates nothing where the check fails. -/
theorem generated_error_of_check (hskip : config.skipValidation = false) {failure : Failure}
    (hcheck : ((Tree.access.check config.schema).run tree).1.value = .error failure) :
    generated config tree = .error failure := by
  rw [value_check] at hcheck
  rw [generated_eq, hskip]
  cases hl : loaded config tree with
  | error other =>
    rw [hl] at hcheck
    cases hcheck
    rfl
  | ok model =>
    rw [hl] at hcheck
    rcases model.checked_eq with hok | ⟨violation, herror⟩
    · simp [Except.bind, hok, Except.map] at hcheck
    · simp only [Except.bind, herror, Except.map] at hcheck
      cases hcheck
      simp [Except.bind, herror]

/-- A run that generates nothing leaves the tree as it is. -/
theorem compile_of_error {failure : Failure} (h : generated config tree = .error failure) :
    ∃ events, (Tree.access.compile config).run tree = (⟨.error failure, events⟩, tree) := by
  unfold generated at h
  rw [compile, run_bind_of_run run_read]
  simp only [h]
  exact ⟨_, rfl⟩

/-- A run that generates a source goes on to write it. -/
theorem compile_of_ok {model : DataModel} {source : Source} (h : generated config tree = .ok (model, source))
    {result : Except Failure Unit}
    (hreplace : (Tree.access.replace config.output source.text).run tree = (result, after)) :
    ∃ events, (Tree.access.compile config).run tree =
      (⟨result.map fun _ => ⟨model.size, source.declarations⟩, events⟩, after) := by
  unfold generated at h
  rw [compile, run_bind_of_run run_read]
  simp only [h]
  rw [run_bind_of_run hreplace]
  cases result with
  | error failure => exact ⟨_, rfl⟩
  | ok => exact ⟨_, rfl⟩

/-- A run on an accepted model replaces the output, or cannot reach it. -/
theorem compile_of_checked {model : DataModel} {size : ModelSize} (hl : loaded config tree = .ok model)
    (hchecked : model.checked.map (·.size) = .ok size) :
    ∃ source, model.generate = .ok source ∧
      ((∃ summary, ((Tree.access.compile config).run tree).1.value = .ok summary ∧ summary.model = size ∧
          summary.declarations = source.declarations ∧
          tree.Replaced ((Tree.access.compile config).run tree).2 (.ofString config.output) source.text) ∨
        ∃ failure, ((Tree.access.compile config).run tree).1.value = .error failure ∧
          Unreachable tree ((Tree.access.compile config).run tree).2 config.output source.text failure) := by
  obtain ⟨hok, hvalid⟩ : model.checked = .ok model ∧ model.validate = .ok () := by
    unfold DataModel.checked at hchecked ⊢
    cases hv : model.violation? with
    | none => exact ⟨rfl, DataModel.validate_eq_ok_iff.mpr hv⟩
    | some violation =>
      rw [hv] at hchecked
      cases hchecked
  rw [hok] at hchecked
  obtain rfl : model.size = size := Except.ok.inj hchecked
  -- An accepted model leaves nothing unresolved, so that it has a source.
  obtain ⟨source, hgenerate⟩ : ∃ source, model.generate = .ok source :=
    ⟨_, (DataModel.resolved_of_validate hvalid).generate_eq_ok⟩
  have hgenerated : generated config tree = .ok (model, source) := by
    rw [generated_eq, hl, Except.bind]
    cases config.skipValidation <;> simp [Except.bind, hok, hgenerate, Except.map]
  cases hreplace : (Tree.access.replace config.output source.text).run tree with
  | mk result after =>
    obtain ⟨events, hrun⟩ := compile_of_ok hgenerated hreplace
    refine ⟨source, hgenerate, ?_⟩
    rw [hrun]
    rcases replaced_or_unreachable hreplace with ⟨rfl, hreplaced⟩ | ⟨failure, rfl, hunreachable⟩
    · exact Or.inl ⟨_, rfl, rfl, rfl, hreplaced⟩
    · exact Or.inr ⟨failure, rfl, hunreachable⟩

/-- If a check fails, so does a run that checks, and it changes nothing. If the check succeeds, the run tells the same
size and the output is the source of the model, or the output cannot be reached; apart from the output the run creates
directories above it at most. A run that does not check changes nothing either unless it has a source to write. -/
theorem compile_replaces_or_keeps (config : Config) (tree : Tree) :
    (config.skipValidation = false → ∀ failure,
      ((Tree.access.check config.schema).run tree).1.value = .error failure →
      ((Tree.access.compile config).run tree).1.value = .error failure ∧
        ((Tree.access.compile config).run tree).2 = tree) ∧
    (∀ size, ((Tree.access.check config.schema).run tree).1.value = .ok size →
      ∃ model source, loaded config tree = .ok model ∧ model.generate = .ok source ∧
        ((∃ summary, ((Tree.access.compile config).run tree).1.value = .ok summary ∧ summary.model = size ∧
            summary.declarations = source.declarations ∧
            tree.Replaced ((Tree.access.compile config).run tree).2 (.ofString config.output) source.text) ∨
          ∃ failure, ((Tree.access.compile config).run tree).1.value = .error failure ∧
            Unreachable tree ((Tree.access.compile config).run tree).2 config.output source.text failure)) ∧
    (config.skipValidation = true → ∀ failure,
      (loaded config tree = .error failure ∨
        ∃ model, loaded config tree = .ok model ∧ model.generate = .error failure) →
      ((Tree.access.compile config).run tree).1.value = .error failure ∧
        ((Tree.access.compile config).run tree).2 = tree) := by
  have hkept : ∀ failure, generated config tree = .error failure →
      ((Tree.access.compile config).run tree).1.value = .error failure ∧
        ((Tree.access.compile config).run tree).2 = tree := by
    intro failure h
    obtain ⟨events, hrun⟩ := compile_of_error h
    rw [hrun]
    exact ⟨rfl, rfl⟩
  refine ⟨fun hskip failure hcheck => hkept failure (generated_error_of_check hskip hcheck), fun size hcheck => ?_,
    fun hskip failure h => hkept failure ?_⟩
  · rw [value_check] at hcheck
    cases hl : loaded config tree with
    | error other =>
      rw [hl] at hcheck
      cases hcheck
    | ok model =>
      rw [hl] at hcheck
      obtain ⟨source, hgenerate, hruns⟩ := compile_of_checked hl hcheck
      exact ⟨model, source, rfl, hgenerate, hruns⟩
  · rw [generated_eq, hskip]
    rcases h with hl | ⟨model, hl, hgenerate⟩
    · rw [hl]
      rfl
    · simp [hl, Except.bind, hgenerate, Except.map]

end

/-- A text that holds one entity with its key. -/
def keyedText : String :=
  "\x7b\"models\":[\x7b\"name\":\"User\",\"fields\":[\x7b\"name\":\"id\",\"kind\":\"scalar\"," ++
    "\"type\":\"Int\",\"isRequired\":true,\"isId\":true\x7d]\x7d],\"enums\":[]\x7d"

/-- A working directory with this text in a schema file. -/
def keyedTree : Tree := ⟨[(Place.working.down "m", .file (.text keyedText))]⟩

/-- From the schema file `m` to the output `o`, everything checked. -/
def brief : Config := ⟨"m", "o", false⟩

/-- The paths of `brief` are one segment each. -/
theorem ofString_brief : Path.ofString brief.schema = ⟨["m"]⟩ ∧ Path.ofString brief.output = ⟨["o"]⟩ := by
  constructor <;>
  · rw [Path.ofString, brief, String.splitOn, if_neg (by decide), String.splitOnAux, if_neg (by decide),
      if_neg (by decide), String.splitOnAux, if_pos (by decide)]
    decide

/-- Only the empty path is above the output of `brief`, and no directory is created there. -/
theorem find?_of_grown_brief (h : Tree.Grown (Path.ofString brief.output).Above tree after) (place : Place) :
    after.find? place = tree.find? place := by
  rw [ofString_brief.2] at h
  rcases h place with hsame | ⟨-, -, above, habove, spot, hspot, -⟩
  · exact hsame
  · cases habove with
    | parent hparent =>
      cases hparent
      cases hspot
    | further hbetween habove =>
      cases hbetween
      cases habove with
      | parent hparent => cases hparent
      | further hbetween => cases hbetween

/-- A tree that has nothing where `brief` writes can be reached there. -/
theorem not_unreachable_brief {text : String} {failure : Failure} (hnone : tree.find? (Place.working.down "o") = none) :
    ¬ Unreachable tree after brief.output text failure := by
  rintro ⟨hgrown, fault, ⟨-, hwrite⟩ | ⟨parent, hparent, -, hcreate⟩⟩
  · have hfound : after.lookUp (Place.working.down "o") = .ok none :=
      Tree.lookUp_eq_ok_iff.mpr ⟨by decide, by rw [find?_of_grown_brief hgrown, hnone]⟩
    have hlocated : after.locate (.ofString brief.output) = .ok ⟨Place.working.down "o", false⟩ := by
      rw [ofString_brief.2]
      rfl
    simp [Tree.write, hlocated, hfound, bind, Except.bind, pure, Except.pure] at hwrite
  · rw [ofString_brief.2] at hparent
    cases hparent
    rw [Tree.createDirectories, if_pos (by decide)] at hcreate
    cases hcreate

/-- Without the schema file the run fails as the check does and leaves the tree empty. With it the run writes the source
of the model to the output. -/
theorem brief_runs :
    ((Tree.access.compile brief).run Tree.empty).1.value = .error (.inaccessible "m" .notFound) ∧
    ((Tree.access.compile brief).run Tree.empty).2 = Tree.empty ∧
    ((Tree.access.check brief.schema).run keyedTree).1.value = .ok ⟨1, 0⟩ ∧
    ∃ model source summary, loaded brief keyedTree = .ok model ∧ model.generate = .ok source ∧
      ((Tree.access.compile brief).run keyedTree).1.value = .ok summary ∧ summary.model = ⟨1, 0⟩ ∧
      summary.declarations = source.declarations ∧
      keyedTree.Replaced ((Tree.access.compile brief).run keyedTree).2 (.ofString "o") source.text := by
  have hfail : ((Tree.access.check brief.schema).run Tree.empty).1.value = .error (.inaccessible "m" .notFound) := by
    rw [value_check, loaded, ofString_brief.1]
    rfl
  have hloaded : loaded brief keyedTree =
      .ok ⟨[⟨"User", [{ Field.plain "id" (.scalar .int) with isId := true }], none, []⟩], []⟩ := by
    have hread : keyedTree.read (.ofString brief.schema) = .ok keyedText := by
      rw [ofString_brief.1]
      rfl
    rw [loaded, hread]
    exact eq_ok_of_toOption (by decide +kernel)
  have hcheck : ((Tree.access.check brief.schema).run keyedTree).1.value = .ok ⟨1, 0⟩ := by
    rw [value_check, hloaded]
    rfl
  obtain ⟨hkeep, -⟩ := compile_replaces_or_keeps brief Tree.empty
  obtain ⟨-, hreplace, -⟩ := compile_replaces_or_keeps brief keyedTree
  obtain ⟨hvalue, htree⟩ := hkeep rfl _ hfail
  obtain ⟨model, source, hmodel, hgenerate, ⟨summary, hruns⟩ | ⟨failure, -, hunreachable⟩⟩ := hreplace _ hcheck
  · exact ⟨hvalue, htree, hcheck, model, source, summary, hmodel, hgenerate, hruns⟩
  · exact absurd hunreachable (not_unreachable_brief rfl)

end FileAccess

end DataShapes
