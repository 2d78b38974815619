import DataShapes.Workspace

/-! # Results of runs

The result of a run that goes on is the result of what it goes on with. So what a run generates from a
model is what the model generates, once it is accepted or accepted unseen. -/

namespace DataShapes

theorem eq_ok_of_toOption {ε α : Type} {result : Except ε α} {value : α} (h : result.toOption = some value) :
    result = .ok value := by
  cases result with
  | error failure => cases h
  | ok other => exact congrArg _ (Option.some.inj h)

namespace Run

theorem value_andThen {α β : Type} (run : Run α) (next : α → Run β) :
    (run.andThen next).value = run.value.bind fun value => (next value).value := by
  simp only [andThen, Reported.bind]
  cases run.value with
  | error failure => rfl
  | ok value => rfl

theorem value_ofExcept {α : Type} (result : Except Failure α) : (ofExcept result).value = result := rfl

end Run

theorem DataModel.value_reportedSource (model : DataModel) : model.reportedSource.value = model.generate := by
  simp only [reportedSource, Reported.map, generate, document]

/-- What a run generates from the model that it has read. -/
theorem Config.value_generate {config : Config} {content : Except FileFault String} {model : DataModel}
    (h : (DataModel.ofFile config.schema content).value = .ok model) : (config.generate content).value =
      (if config.skipValidation then .ok model else model.checked).bind fun accepted =>
        accepted.generate.map fun source => (accepted, source) := by
  rw [generate, Run.value_andThen, h, Except.bind, Run.value_andThen, Run.value_ofExcept]
  refine congrArg (Except.bind _) (funext fun accepted => ?_)
  rw [Run.value_andThen, DataModel.value_reportedSource]
  cases accepted.generate with
  | error failure => rfl
  | ok source => rfl

/-- Only the model itself is accepted, and if it is not, a rule is broken. -/
theorem DataModel.checked_eq (model : DataModel) :
    model.checked = .ok model ∨ ∃ violation, model.checked = .error (.invalid violation) := by
  simp only [checked]
  cases model.violation? with
  | none => exact Or.inl rfl
  | some violation => exact Or.inr ⟨violation, rfl⟩

end DataShapes
