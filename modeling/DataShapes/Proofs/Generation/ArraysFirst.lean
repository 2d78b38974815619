import DataShapes.Proofs.Generation.Resolution
import DataShapes.Proofs.Inputs.Arms

/-! # Arrays come first

In every union that a model builds, arms for arrays stand before all arms that objects could be taken by, whatever the
fields hold. -/

namespace DataShapes

open Schema (ArraysFirst Throughout)

/-! ### Nested writes -/

namespace NestedNames
variable {names : NestedNames} {graph : Graph} {field : Field} {edge : Edge} {d : Declaration}

theorem arraysFirst_newRecord : names.newRecord.Throughout ArraysFirst := by simp [newRecord, roleRef]

/-- Rows of new records stand before single ones. -/
theorem arraysFirst_newRecords : names.newRecords.Throughout ArraysFirst := by simp [newRecords, roleRef]

theorem arraysFirst_changedRecord : names.changedRecord.Throughout ArraysFirst := by simp [changedRecord, roleRef]

theorem arraysFirst_several {keys : List String} {name : String} :
    ∀ p ∈ several keys (.ref name), p.2.Throughout ArraysFirst := by
  intro p hp
  obtain ⟨key, -, rfl⟩ := List.mem_map.mp hp
  simp

theorem arraysFirst_bulk {allowed : Bool} : ∀ p ∈ names.bulk allowed, p.2.Throughout ArraysFirst := by
  unfold bulk
  split <;> simp

theorem arraysFirst_of_mem_payload {purpose : Purpose} (hd : d ∈ names.payload graph purpose edge) :
    d.schema.Throughout ArraysFirst := by
  simp only [payload, List.mem_cons, List.not_mem_nil, or_false] at hd
  rcases hd with rfl | rfl <;> exact Payload.arraysFirst_properties

theorem arraysFirst_createMany {before : String} {bulkAllowed : Bool} :
    (names.createMany before bulkAllowed).schema.Throughout ArraysFirst := by
  refine Schema.arraysFirst_object ?_
  simp only [List.forall_mem_append]
  exact ⟨⟨⟨by simp [arraysFirst_newRecords], arraysFirst_several⟩, arraysFirst_bulk⟩, arraysFirst_several⟩

theorem arraysFirst_of_mem_creations (hd : d ∈ names.creations graph field edge) :
    d.schema.Throughout ArraysFirst := by
  simp only [creations, List.mem_append, List.mem_singleton] at hd
  rcases hd with (hd | rfl) | hd
  · exact arraysFirst_of_mem_payload hd
  · simp [connectOrCreate, ofTarget, arraysFirst_newRecord]
  · split at hd
    · simp only [createRows, List.mem_append, List.mem_ite_nil_right, List.mem_cons, List.not_mem_nil, or_false] at hd
      rcases hd with ⟨-, rfl | rfl⟩ | rfl | rfl
      · exact Payload.arraysFirst_bulkProperties
      · simp
      · exact arraysFirst_createMany
      · exact arraysFirst_createMany
    · obtain rfl := List.mem_singleton.mp hd
      simp [createOne, roleRef, ofTarget, arraysFirst_newRecord]

theorem arraysFirst_updateMany {before : String} {bulkAllowed : Bool} :
    (names.updateMany before bulkAllowed).schema.Throughout ArraysFirst := by
  refine Schema.arraysFirst_object ?_
  simp only [List.forall_mem_append]
  exact ⟨⟨⟨⟨⟨⟨⟨by simp [arraysFirst_newRecords], arraysFirst_several⟩, arraysFirst_several⟩, arraysFirst_bulk⟩,
    arraysFirst_several⟩, arraysFirst_several⟩, arraysFirst_several⟩, arraysFirst_several⟩

theorem arraysFirst_updateOne {nullable : Bool} : (names.updateOne nullable).schema.Throughout ArraysFirst := by
  cases nullable <;> simp [updateOne, detach, roleRef, ofTarget, arraysFirst_newRecord]

theorem arraysFirst_of_mem_changeMany (hd : d ∈ names.changeMany edge) : d.schema.Throughout ArraysFirst := by
  simp only [changeMany, List.mem_cons, List.not_mem_nil, or_false] at hd
  rcases hd with rfl | rfl | rfl | rfl
  · simp [ofTarget, arraysFirst_changedRecord, arraysFirst_newRecord]
  · simp [ofTarget, arraysFirst_changedRecord]
  · simp [ofTarget, roleRef]
  · exact Payload.arraysFirst_bulkProperties

theorem arraysFirst_of_mem_changes (hd : d ∈ names.changes graph field edge) : d.schema.Throughout ArraysFirst := by
  rcases List.mem_append.mp hd with hd | hd
  · exact arraysFirst_of_mem_payload hd
  · split at hd
    · simp only [List.mem_append, List.mem_cons, List.not_mem_nil, or_false] at hd
      rcases hd with hd | rfl | rfl
      · exact arraysFirst_of_mem_changeMany hd
      · exact arraysFirst_updateMany
      · exact arraysFirst_updateMany
    · simp only [List.mem_cons, List.not_mem_nil, or_false] at hd
      rcases hd with rfl | rfl | rfl
      · simp [upsertOne, ofTarget, arraysFirst_changedRecord, arraysFirst_newRecord]
      · simp [changeOne, ofTarget, arraysFirst_changedRecord]
      · exact arraysFirst_updateOne

end NestedNames

/-! ### Declarations of a model -/

namespace Entity
variable {entity : Entity} {d : Declaration}

theorem arraysFirst_of_mem_aggregateInputs (hd : d ∈ entity.aggregateInputs) : d.schema.Throughout ArraysFirst := by
  have hmarks : ∀ fields, ∀ p ∈ Aggregate.marks fields, p.2.Throughout ArraysFirst := by
    simp [Aggregate.marks, Aggregate.mark]
  obtain ⟨⟨aggregate, properties⟩, ha, rfl⟩ := List.mem_map.mp hd
  refine Schema.arraysFirst_object ?_
  simp only [aggregates, List.mem_append, List.mem_ite_nil_right, List.mem_cons, List.not_mem_nil, or_false,
    Prod.mk.injEq] at ha
  rcases ha with ((⟨-, rfl⟩ | ⟨-, -, rfl⟩) | ⟨-, -, rfl⟩) | ⟨-, rfl⟩ | ⟨-, rfl⟩
  · exact List.forall_mem_append.mpr ⟨hmarks _, by simp [Aggregate.mark]⟩
  all_goals exact hmarks _

@[simp] theorem arraysFirst_role {suffix : String} : (entity.role suffix).Throughout ArraysFirst := by simp [role]

@[simp] theorem arraysFirst_either {checked unchecked : String} :
    (entity.either checked unchecked).Throughout ArraysFirst := by
  simp [either, role]

theorem arraysFirst_found : ∀ p ∈ entity.found, p.2.Throughout ArraysFirst := by simp [found]

theorem arraysFirst_matching : ∀ p ∈ entity.matching, p.2.Throughout ArraysFirst := by simp [matching]

theorem arraysFirst_page : ∀ p ∈ page, p.2.Throughout ArraysFirst := by simp [page]

theorem arraysFirst_window : ∀ p ∈ entity.window, p.2.Throughout ArraysFirst :=
  List.forall_mem_append.mpr ⟨List.forall_mem_append.mpr ⟨arraysFirst_matching, by simp⟩, arraysFirst_page⟩

theorem arraysFirst_distinctWindow : ∀ p ∈ entity.distinctWindow, p.2.Throughout ArraysFirst :=
  List.forall_mem_append.mpr ⟨arraysFirst_window, by simp⟩

theorem arraysFirst_aggregateChoices : ∀ p ∈ entity.aggregateChoices, p.2.Throughout ArraysFirst := by
  unfold aggregateChoices
  split <;> simp

/-- What every operation takes. -/
theorem arraysFirst_of_mem_operationArguments (hd : d ∈ entity.operationArguments) :
    d.schema.Throughout ArraysFirst := by
  obtain ⟨⟨suffix, properties⟩, ho, rfl⟩ := List.mem_map.mp hd
  refine Schema.arraysFirst_object ?_
  simp only [operations, List.mem_cons, List.not_mem_nil, or_false, Prod.mk.injEq] at ho
  rcases ho with ⟨-, rfl⟩ | ⟨-, rfl⟩ | ⟨-, rfl⟩ | ⟨-, rfl⟩ | ⟨-, rfl⟩ | ⟨-, rfl⟩ | ⟨-, rfl⟩ | ⟨-, rfl⟩ |
    ⟨-, rfl⟩ | ⟨-, rfl⟩ | ⟨-, rfl⟩ | ⟨-, rfl⟩ | ⟨-, rfl⟩ | ⟨-, rfl⟩
  · exact List.forall_mem_append.mpr ⟨arraysFirst_selection, arraysFirst_found⟩
  · exact List.forall_mem_append.mpr ⟨arraysFirst_selection, arraysFirst_found⟩
  · exact List.forall_mem_append.mpr ⟨arraysFirst_selection, arraysFirst_distinctWindow⟩
  · exact List.forall_mem_append.mpr ⟨arraysFirst_selection, arraysFirst_distinctWindow⟩
  · exact List.forall_mem_append.mpr ⟨arraysFirst_selection, arraysFirst_distinctWindow⟩
  · exact List.forall_mem_append.mpr ⟨arraysFirst_selection, by simp [newRecord]⟩
  · simp
  · exact List.forall_mem_append.mpr
      ⟨List.forall_mem_append.mpr ⟨arraysFirst_selection, by simp [changedRecord]⟩, arraysFirst_found⟩
  · exact List.forall_mem_append.mpr ⟨by simp, arraysFirst_matching⟩
  · exact List.forall_mem_append.mpr ⟨List.forall_mem_append.mpr ⟨arraysFirst_selection, arraysFirst_found⟩,
      by simp [newRecord, changedRecord]⟩
  · exact List.forall_mem_append.mpr ⟨arraysFirst_selection, arraysFirst_found⟩
  · exact arraysFirst_matching
  · exact List.forall_mem_append.mpr ⟨arraysFirst_window, arraysFirst_aggregateChoices⟩
  · exact List.forall_mem_append.mpr ⟨List.forall_mem_append.mpr ⟨List.forall_mem_append.mpr
      ⟨arraysFirst_matching, by simp⟩, arraysFirst_page⟩, arraysFirst_aggregateChoices⟩

theorem arraysFirst_of_mem_relationFilters {usage : Usage} (hd : d ∈ entity.relationFilters usage) :
    d.schema.Throughout ArraysFirst := by
  simp only [relationFilters, List.mem_append, List.mem_ite_nil_right, List.mem_singleton] at hd
  rcases hd with (⟨-, rfl⟩ | ⟨-, rfl⟩) | ⟨-, rfl⟩
  all_goals exact arraysFirst_quantified

theorem arraysFirst_recordDeclaration : entity.recordDeclaration.schema.Throughout ArraysFirst := by
  refine Schema.throughout_object.mpr ⟨nofun, arraysFirst_propertiesOf fun field _ schema h => ?_⟩
  obtain ⟨value, hv, rfl⟩ := Option.map_eq_some_iff.mp h
  have hvalue : value.Throughout ArraysFirst := Field.arraysFirst_value? hv
  split <;> simp [hvalue]

end Entity

namespace DataModel
variable {model : DataModel} {d : Declaration}

theorem arraysFirst_of_mem_shared (hd : d ∈ model.sharedInputs) : d.schema.Throughout ArraysFirst := by
  rcases shared_cases hd with hd | ⟨type, -, m, hschema⟩ | ⟨type, -, nullable, hschema⟩
  · simp only [Primitives.declarations, Primitives.ordering, List.mem_append, List.mem_cons, List.not_mem_nil,
      or_false] at hd
    rcases hd with (rfl | rfl | rfl | rfl) | hd
    · simp
    · simp
    · simp
    · simp
    · split at hd
      · simp only [Primitives.json, List.mem_cons, List.not_mem_nil, or_false] at hd
        rcases hd with rfl | rfl <;> simp [Primitives.jsonLeaves, Primitives.jsonContainers]
      · cases hd
  · rw [hschema]
    exact Filter.arraysFirst_ofScalar
  · rw [hschema]
    exact Operation.arraysFirst_ofScalar

theorem arraysFirst_of_mem_enumerationInputs {enumeration : Enumeration}
    (hd : d ∈ model.enumerationInputs enumeration) : d.schema.Throughout ArraysFirst := by
  rcases enumerationInput_cases hd with rfl | ⟨m, hschema⟩ | ⟨nullable, hschema⟩
  · simp [Enumeration.declaration]
  · rw [hschema]
    exact Filter.arraysFirst_ofEnumeration
  · rw [hschema]
    exact Operation.arraysFirst_ofEnumeration

theorem arraysFirst_of_mem_query {graph : Graph} {entity : Entity} (hd : d ∈ model.queryDeclarations graph entity) :
    d.schema.Throughout ArraysFirst := by
  simp only [queryDeclarations, Entity.bulkWhere, Entity.orderBySize, Entity.relationSelection,
    Entity.countSelection, List.mem_append, List.mem_cons, List.not_mem_nil, or_false,
    List.mem_ite_nil_right] at hd
  rcases hd with (((((((((rfl | rfl) | hd) | ⟨-, rfl⟩) | rfl | rfl) | ⟨-, rfl⟩) | hd) | rfl | rfl) | ⟨-, rfl⟩) | rfl) |
    ⟨-, rfl | rfl⟩
  · exact Entity.arraysFirst_whereInput
  · exact Entity.arraysFirst_lookup
  · exact Entity.arraysFirst_of_mem_relationFilters hd
  · exact Entity.arraysFirst_scalarWhere
  · exact Entity.arraysFirst_scalarWhere
  · exact Schema.arraysFirst_object (List.forall_mem_map.mpr fun _ _ => Entity.arraysFirst_byField)
  · exact Schema.arraysFirst_object (by simp [Ordering.direction])
  · obtain ⟨⟨key, aggregate, fields⟩, -, rfl⟩ := List.mem_map.mp hd
    exact Schema.arraysFirst_object (by simp [Ordering.direction])
  · exact Schema.arraysFirst_object (List.forall_mem_append.mpr
      ⟨List.forall_mem_map.mpr fun _ _ => Entity.arraysFirst_byValue, List.forall_mem_map.mpr fun _ _ => by simp⟩)
  · exact Schema.arraysFirst_object (List.forall_mem_append.mpr
      ⟨by simp [Selection.flag], Entity.arraysFirst_relationChoices⟩)
  · exact Schema.arraysFirst_object Entity.arraysFirst_relationChoices
  · exact Schema.arraysFirst_object Entity.arraysFirst_selection
  · exact Schema.arraysFirst_object (by simp [Selection.flag])
  · exact Schema.arraysFirst_object (by simp)

theorem arraysFirst_of_mem_entityInputs {entity : Entity} (hd : d ∈ model.entityInputs entity) :
    d.schema.Throughout ArraysFirst := by
  simp only [entityInputs, List.mem_cons, List.mem_append] at hd
  rcases hd with rfl | (((hd | hd) | hd) | hd) | hd
  · simp [Entity.fieldNamesDeclaration]
  · exact arraysFirst_of_mem_query hd
  · exact Payload.arraysFirst_of_mem_payloads (List.mem_append_left _ hd)
  · exact Payload.arraysFirst_of_mem_payloads (List.mem_append_right _ hd)
  · exact Entity.arraysFirst_of_mem_aggregateInputs hd
  · exact Entity.arraysFirst_of_mem_operationArguments hd

theorem arraysFirst_of_mem_built (hd : d ∈ model.built) : d.schema.Throughout ArraysFirst := by
  rcases mem_built.mp hd with hd | ⟨entity, -, rfl⟩
  · rcases mem_inputs.mp hd with hd | ⟨enumeration, -, hd⟩ | ⟨entity, -, hd⟩ | ⟨owner, -, field, -, hd⟩
    · exact arraysFirst_of_mem_shared hd
    · exact arraysFirst_of_mem_enumerationInputs hd
    · exact arraysFirst_of_mem_entityInputs hd
    · obtain ⟨edge, -, hd | hd⟩ := Graph.mem_nestedWrites.mp hd
      · exact NestedNames.arraysFirst_of_mem_creations hd
      · exact NestedNames.arraysFirst_of_mem_changes hd
  · exact Entity.arraysFirst_recordDeclaration

/-- In no union that stands anywhere in a declaration of a model, accepted or not, does an object, a record or a
reference come before an array or a union of arrays. -/
theorem arrays_before_objects (model : DataModel) : ∀ d ∈ model.built, ∀ arms, d.schema.HasPart (.union arms) →
    arms.Pairwise fun before after => before.ObjectLike → ¬after.Arrays := by
  intro d hd arms hpart
  have hfirst : ArraysFirst (.union arms) := arraysFirst_of_mem_built hd (.union arms) hpart
  exact Schema.arraysFirst_union.mp hfirst

/-- A ferry with its departures. -/
def ferry : Entity :=
  let departures := { Field.plain "departures" (.scalar .dateTime) with isList := true }
  let key := { Field.plain "id" (.scalar .int) with isId := true }
  ⟨"Ferry", [key, departures], none, []⟩

def ferries : DataModel := ⟨[ferry], []⟩

/-- New departures, in either of their forms, come before what to do with the old ones. -/
theorem ferry_arrays_before_objects : ∃ d ∈ ferries.built,
    ∃ arms, d.schema.HasPart (.union (ScalarType.many .dateTime :: arms)) ∧ (∃ arm ∈ arms, arm.ObjectLike) ∧
      (ScalarType.many .dateTime :: arms).Pairwise fun before after => before.ObjectLike → ¬after.Arrays := by
  let update : Schema := .strictObject [
    ("set", (ScalarType.many .dateTime).optional),
    ("push", (Schema.union [ScalarType.many .dateTime, ScalarType.single .dateTime]).optional)]
  let d : Declaration := ⟨Naming.ofEntity ferry.name "UpdateInput",
    .strictObject (Payload.properties (Graph.ofModel ferries) .update .checked ferry none)⟩
  have hd : d ∈ ferries.built := by
    have hferry : ferry ∈ ferries.entities := List.mem_cons_self
    refine mem_built.mpr (Or.inl (mem_inputs_of_entity hferry ?_))
    simp [entityInputs, Entity.updateInputs, d]
  have hpart : d.schema.HasPart (.union [ScalarType.many .dateTime, update]) := by
    have hmem : ("departures", (Schema.union [ScalarType.many .dateTime, update]).optional) ∈
        Payload.properties (Graph.ofModel ferries) .update .checked ferry none :=
      Entity.mem_propertiesOf.mpr ⟨ferry.fields[1], List.mem_of_getElem rfl, rfl, rfl⟩
    exact .head (List.mem_map_of_mem hmem) (.head List.mem_cons_self .refl)
  exact ⟨d, hd, [update], hpart, ⟨update, List.mem_cons_self, .object⟩, arrays_before_objects ferries d hd _ hpart⟩

end DataModel

end DataShapes
