import DataShapes.Proofs.Inputs.Query

/-! # References of arguments

Arguments of operations refer to other inputs of the same entity; aggregates refer to nothing. -/

namespace DataShapes

/-! ### Aggregates -/

namespace Aggregate

theorem within_of_mem_marks {names : String → Prop} {fields : List Field} :
    ∀ p ∈ marks fields, p.2.Within names := by
  intro p hp
  obtain ⟨field, -, rfl⟩ := List.mem_map.mp hp
  exact .optional .leaf

end Aggregate

namespace Entity

theorem within_of_mem_aggregateInputs {names : String → Prop} {entity : Entity} {d : Declaration}
    (hd : d ∈ entity.aggregateInputs) : d.schema.Within names := by
  obtain ⟨⟨aggregate, properties⟩, ha, rfl⟩ := List.mem_map.mp hd
  refine .object fun p hp => ?_
  simp only [aggregates, List.mem_append, List.mem_cons, List.not_mem_nil, or_false, Prod.mk.injEq] at ha
  rcases ha with ((⟨-, rfl⟩ | ha) | ha) | ⟨-, rfl⟩ | ⟨-, rfl⟩
  · rcases List.mem_append.mp hp with hp | hp
    · exact Aggregate.within_of_mem_marks p hp
    · obtain rfl := List.mem_singleton.mp hp
      exact .optional .leaf
  · split at ha
    · cases List.mem_singleton.mp ha
      exact Aggregate.within_of_mem_marks p hp
    · cases ha
  · split at ha
    · cases List.mem_singleton.mp ha
      exact Aggregate.within_of_mem_marks p hp
    · cases ha
  · exact Aggregate.within_of_mem_marks p hp
  · exact Aggregate.within_of_mem_marks p hp

end Entity

namespace DataModel
variable {model : DataModel} {entity : Entity} (he : entity ∈ model.entities)
include he

/-! ### Arguments -/

theorem within_role {suffix : String} (h : suffix ∈ entity.inputSuffixes (model.targetUsage entity.name)) :
    (entity.role suffix).Within model.Provides :=
  .ref (provides_ofEntity he h)

theorem within_payloadRole {suffix : String} (h : suffix ∈ Entity.payloadSuffixes) :
    (entity.role suffix).Within model.Provides :=
  within_role he (by simp [Entity.inputSuffixes, h])

theorem within_either {checked unchecked : String} (hc : checked ∈ Entity.payloadSuffixes)
    (hu : unchecked ∈ Entity.payloadSuffixes) : (entity.either checked unchecked).Within model.Provides := by
  simp [Entity.either, within_payloadRole he hc, within_payloadRole he hu]

theorem within_found : ∀ p ∈ entity.found, p.2.Within model.Provides := by
  have hlookup : (entity.role "WhereUniqueInput").Within model.Provides :=
    within_role he (by simp [Entity.inputSuffixes, Entity.querySuffixes])
  simp [Entity.found, hlookup]

theorem within_matching : ∀ p ∈ entity.matching, p.2.Within model.Provides := by
  have hcondition : (entity.role "WhereInput").Within model.Provides :=
    within_role he (by simp [Entity.inputSuffixes, Entity.querySuffixes])
  simp [Entity.matching, hcondition]

omit he in
theorem within_page : ∀ p ∈ Entity.page, p.2.Within model.Provides := by simp [Entity.page]

theorem within_window : ∀ p ∈ entity.window, p.2.Within model.Provides := by
  have horder : (entity.role "OrderByWithRelationInput").Within model.Provides :=
    within_role he (by simp [Entity.inputSuffixes, Entity.querySuffixes])
  have hlookup : (entity.role "WhereUniqueInput").Within model.Provides :=
    within_role he (by simp [Entity.inputSuffixes, Entity.querySuffixes])
  intro p hp
  simp only [Entity.window, List.mem_append, List.mem_cons, List.not_mem_nil, or_false] at hp
  rcases hp with (hp | rfl | rfl) | hp
  · exact within_matching he p hp
  · exact .optional (Schema.within_oneOrMany.mpr horder)
  · exact .optional hlookup
  · exact within_page p hp

theorem within_distinctWindow : ∀ p ∈ entity.distinctWindow, p.2.Within model.Provides := by
  have hfields : (entity.role "ScalarFieldEnum").Within model.Provides :=
    within_role he (by simp [Entity.inputSuffixes])
  intro p hp
  rcases List.mem_append.mp hp with hp | hp
  · exact within_window he p hp
  · obtain rfl := List.mem_singleton.mp hp
    exact .optional (Schema.within_oneOrMany.mpr hfields)

theorem within_aggregateChoices : ∀ p ∈ entity.aggregateChoices, p.2.Within model.Provides := by
  have hcount : model.Provides (entity.aggregateName "Count") :=
    provides_ofEntity he (by simp [Entity.inputSuffixes, Entity.argumentSuffixes])
  have hmin : model.Provides (entity.aggregateName "Min") :=
    provides_ofEntity he (by simp [Entity.inputSuffixes, Entity.argumentSuffixes])
  have hmax : model.Provides (entity.aggregateName "Max") :=
    provides_ofEntity he (by simp [Entity.inputSuffixes, Entity.argumentSuffixes])
  intro p hp
  simp only [Entity.aggregateChoices, List.mem_append, List.mem_cons, List.not_mem_nil, or_false] at hp
  rcases hp with (rfl | hp) | rfl | rfl
  · simp [hcount]
  · split at hp
    · next hnumeric =>
      simp only [List.mem_cons, List.not_mem_nil, or_false] at hp
      rcases hp with rfl | rfl
      · exact .optional (.ref (provides_ofEntity he (by
          simp [Entity.inputSuffixes, Entity.argumentSuffixes, hnumeric])))
      · exact .optional (.ref (provides_ofEntity he (by
          simp [Entity.inputSuffixes, Entity.argumentSuffixes, hnumeric])))
    · cases hp
  · exact .optional (.ref hmin)
  · exact .optional (.ref hmax)

theorem within_newRecord : entity.newRecord.Within model.Provides :=
  within_either he (by simp [Entity.payloadSuffixes]) (by simp [Entity.payloadSuffixes])

theorem within_changedRecord : entity.changedRecord.Within model.Provides :=
  within_either he (by simp [Entity.payloadSuffixes]) (by simp [Entity.payloadSuffixes])

/-- What groups are made by, ordered by and conditional on. -/
theorem within_groups : ∀ p ∈ [
      ("orderBy", (Schema.oneOrMany (entity.role "OrderByWithAggregationInput")).optional),
      ("by", .oneOrMany (entity.role "ScalarFieldEnum")),
      ("having", (entity.role "ScalarWhereWithAggregatesInput").optional)], p.2.Within model.Provides := by
  have horder : (entity.role "OrderByWithAggregationInput").Within model.Provides :=
    within_role he (by simp [Entity.inputSuffixes, Entity.querySuffixes])
  have hfields : (entity.role "ScalarFieldEnum").Within model.Provides :=
    within_role he (by simp [Entity.inputSuffixes])
  have hcondition : (entity.role "ScalarWhereWithAggregatesInput").Within model.Provides :=
    within_role he (by simp [Entity.inputSuffixes, Entity.querySuffixes])
  simp [horder, hfields, hcondition]

/-- The arguments of every operation refer to declared inputs only. -/
theorem within_of_mem_operationArguments {d : Declaration} (hd : d ∈ entity.operationArguments) :
    d.schema.Within model.Provides := by
  have hrow : (entity.role "CreateManyInput").Within model.Provides :=
    within_payloadRole he (by simp [Entity.payloadSuffixes])
  have hmutation : (entity.either "UpdateManyMutationInput" "UncheckedUpdateManyInput").Within model.Provides :=
    within_either he (by simp [Entity.payloadSuffixes]) (by simp [Entity.payloadSuffixes])
  obtain ⟨⟨suffix, properties⟩, ho, rfl⟩ := List.mem_map.mp hd
  rw [Schema.within_strictObject]
  simp only [Entity.operations, List.mem_cons, List.not_mem_nil, or_false, Prod.mk.injEq] at ho
  rcases ho with ⟨-, rfl⟩ | ⟨-, rfl⟩ | ⟨-, rfl⟩ | ⟨-, rfl⟩ | ⟨-, rfl⟩ | ⟨-, rfl⟩ | ⟨-, rfl⟩ | ⟨-, rfl⟩ |
    ⟨-, rfl⟩ | ⟨-, rfl⟩ | ⟨-, rfl⟩ | ⟨-, rfl⟩ | ⟨-, rfl⟩ | ⟨-, rfl⟩
  · exact List.forall_mem_append.mpr ⟨within_selection he, within_found he⟩
  · exact List.forall_mem_append.mpr ⟨within_selection he, within_found he⟩
  · exact List.forall_mem_append.mpr ⟨within_selection he, within_distinctWindow he⟩
  · exact List.forall_mem_append.mpr ⟨within_selection he, within_distinctWindow he⟩
  · exact List.forall_mem_append.mpr ⟨within_selection he, within_distinctWindow he⟩
  · exact List.forall_mem_append.mpr ⟨within_selection he, by simp [within_newRecord he]⟩
  · simp [hrow]
  · exact List.forall_mem_append.mpr ⟨List.forall_mem_append.mpr
      ⟨within_selection he, by simp [within_changedRecord he]⟩, within_found he⟩
  · exact List.forall_mem_append.mpr ⟨by simp [hmutation], within_matching he⟩
  · exact List.forall_mem_append.mpr ⟨List.forall_mem_append.mpr ⟨within_selection he, within_found he⟩,
      by simp [within_newRecord he, within_changedRecord he]⟩
  · exact List.forall_mem_append.mpr ⟨within_selection he, within_found he⟩
  · exact within_matching he
  · exact List.forall_mem_append.mpr ⟨within_window he, within_aggregateChoices he⟩
  · exact List.forall_mem_append.mpr ⟨List.forall_mem_append.mpr ⟨List.forall_mem_append.mpr
      ⟨within_matching he, within_groups he⟩, within_page⟩, within_aggregateChoices he⟩

end DataModel

end DataShapes
