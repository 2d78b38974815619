import DataShapes.Proofs.Generation.Demand
import DataShapes.Proofs.Generation.Order
import DataShapes.Proofs.Inputs.Query

/-! # Nothing is built in vain

What is built on demand is referred to by another declaration: conditions refer to the filters of their fields,
payloads to operations, orderings to orderings of targets, selections to counts, and arguments to aggregates. -/

namespace DataShapes

/-! ### What fields refer to -/

namespace Field
variable {field : Field}

theorem relation?_eq_none_of_value {value : Schema} (h : field.value? = some value) : field.relation? = none := by
  unfold value? single? many? at h
  unfold relation?
  cases hk : field.kind with
  | scalar | enumeration => rfl
  | relation relation => simp [hk] at h

theorem kind_of_scalarType? {type : ScalarType} (h : field.scalarType? = some type) : field.kind = .scalar type := by
  unfold scalarType? at h
  split at h
  · next hk => rw [hk, Option.some.inj h]
  · cases h

theorem kind_of_enumeration? {name : String} (h : field.enumeration? = some name) :
    field.kind = .enumeration name := by
  unfold enumeration? at h
  split at h
  · next hk => rw [hk, Option.some.inj h]
  · cases h

end Field

namespace Condition
variable {field : Field} {name : String}

/-- A field with a filter is compared by it. -/
theorem exists_onField?_of_filterName? (h : filterName? field = some name) :
    ∃ schema, onField? field = some schema ∧ name ∈ schema.references := by
  have hvalue : ∃ value, field.value? = some value := by
    unfold filterName? at h
    unfold Field.value? Field.single? Field.many?
    cases hk : field.kind with
    | scalar | enumeration => cases field.isList <;> exact ⟨_, rfl⟩
    | relation relation => simp [hk] at h
  obtain ⟨value, hv⟩ := hvalue
  simp only [onField?, Field.relation?_eq_none_of_value hv, onValue?, hv, h, Option.map_some, Option.some.injEq,
    exists_eq_left']
  cases field.multiplicity <;> simp

theorem ending_of_filterName? (h : filterName? field = some name) :
    ∃ beginning, name = beginning ++ Naming.filterSuffix field.multiplicity := by
  unfold filterName? at h
  cases hk : field.kind with
  | scalar type =>
    simp only [hk, Naming.scalarFilter?, Option.map_eq_some_iff] at h
    obtain ⟨stem, -, rfl⟩ := h
    exact ⟨stem, rfl⟩
  | enumeration enumeration =>
    simp only [hk, Option.some.injEq] at h
    exact ⟨_, h.symm⟩
  | relation relation => simp [hk] at h

end Condition

/-- The suffix of the filter by which a relation field compares the records that it leads to. -/
def Condition.relationFilter : Multiplicity → String
  | .required => "RelationFilter"
  | .nullable => "NullableRelationFilter"
  | .list => "ListRelationFilter"

theorem Condition.mem_references_onRelation (field : Field) (target : String) :
    Naming.ofEntity target (relationFilter field.multiplicity) ∈ (onRelation field target).references := by
  unfold onRelation relationFilter
  cases field.multiplicity <;> simp

namespace Payload
variable {entity : Entity} {field : Field} {name : String}

theorem ending_of_operationsName? {nullable : Bool} (h : operationsName? field nullable = some name) :
    field.relation? = none ∧ ∃ beginning, name = beginning ++ "FieldUpdateOperationsInputSchema" := by
  unfold operationsName? at h
  unfold Field.relation?
  cases hk : field.kind with
  | scalar type =>
    simp only [hk] at h
    obtain ⟨-, stem, -, rfl⟩ := Naming.scalarOperations?_eq_some_iff.mp h
    exact ⟨rfl, _, rfl⟩
  | enumeration enumeration =>
    simp only [hk, Option.some.injEq] at h
    exact ⟨rfl, _, h.symm⟩
  | relation relation => simp [hk] at h

/-- Single values are updated by their operations if they have some. -/
theorem exists_updated?_of_operationsName? (hlist : field.isList = false)
    (h : operationsName? field (field.multiplicity == .nullable) = some name) :
    ∃ schema, updated? field = some schema ∧ name ∈ schema.references := by
  have hvalues : ∃ single many, field.single? = some single ∧ field.many? = some many := by
    obtain ⟨hr, -⟩ := ending_of_operationsName? h
    unfold Field.relation? at hr
    unfold Field.single? Field.many?
    cases hk : field.kind with
    | scalar | enumeration => exact ⟨_, _, rfl, rfl⟩
    | relation relation => simp [hk] at hr
  obtain ⟨single, many, hs, hm⟩ := hvalues
  have hupdated : updated? field = some (updatedSingle single (some name) (field.multiplicity == .nullable)) := by
    simp [updated?, hs, hm, hlist, h]
  refine ⟨_, hupdated, ?_⟩
  unfold updatedSingle Filter.orNull
  split <;> simp

/-- An unchecked payload that leaves out no relation has all value fields. -/
theorem ofField?_unchecked (graph : Graph) (hr : field.relation? = none) :
    ofField? graph .update .unchecked entity none field = updated? field := by
  simp [ofField?, Field.isRelation, hr, hides, impliedKeys, valueOf?]

end Payload

/-- The name by which a field refers to an input of what it holds. -/
def Field.valueInput? (field : Field) : ValueInput → Option String
  | .filter _ => Condition.filterName? field
  | .operations nullable => Payload.operationsName? field nullable

theorem Field.valueInput?_scalar {field : Field} {type : ScalarType} (ht : field.scalarType? = some type)
    {stem : String} (hs : type.stem? = some stem) {input : ValueInput} (hof : input.IsOf type)
    (hm : field.multiplicity = input.multiplicity) : field.valueInput? input = some (input.name stem) := by
  have hkind : field.kind = .scalar type := kind_of_scalarType? ht
  rcases input with m | nullable
  · obtain rfl : field.multiplicity = m := hm
    simp only [valueInput?, Condition.filterName?, hkind, Naming.scalarFilter?, hs, Option.map_some]
    rfl
  · simp only [valueInput?, Payload.operationsName?, hkind]
    exact Naming.scalarOperations?_eq_some_iff.mpr ⟨hof, stem, hs, rfl⟩

theorem Field.valueInput?_enumeration {field : Field} {enumeration : String}
    (he : field.enumeration? = some enumeration) {input : ValueInput} (hm : field.multiplicity = input.multiplicity) :
    field.valueInput? input = some (input.name ("Enum" ++ enumeration)) := by
  have hkind : field.kind = .enumeration enumeration := kind_of_enumeration? he
  rcases input with m | nullable
  · obtain rfl : field.multiplicity = m := hm
    simp only [valueInput?, Condition.filterName?, hkind]
    rfl
  · simp only [valueInput?, Payload.operationsName?, hkind]
    rfl

/-! ### What declarations refer to -/

theorem Naming.ofEntity_ne_of_endings {entity suffix ending : String}
    (h : ¬ bytesOf (suffix ++ "Schema") <:+ bytesOf ending) (h' : ¬ bytesOf ending <:+ bytesOf (suffix ++ "Schema"))
    (beginning : String) : ofEntity entity suffix ≠ beginning ++ ending := by
  rw [ofEntity, String.append_assoc]
  exact append_ne_append_of_endings h h' entity beginning

namespace DataModel

/-- Another declaration refers to the name. -/
def Mentions (model : DataModel) (name : String) : Prop :=
  ∃ d ∈ model.built, d.name ≠ name ∧ name ∈ d.schema.references

variable {model : DataModel} {field : Field} {name : String}

section
variable {entity : Entity} (he : entity ∈ model.entities)
include he

/-- A declaration of an entity mentions what one of its properties refers to. -/
theorem mentions_of_property {suffix : String} {properties : List (String × Schema)}
    (hd : ⟨Naming.ofEntity entity.name suffix, .strictObject properties⟩ ∈ model.entityDeclarations entity)
    (hne : Naming.ofEntity entity.name suffix ≠ name) {p : String × Schema} (hp : p ∈ properties)
    (hn : name ∈ p.2.references) : model.Mentions name :=
  ⟨_, mem_built_of_mem_entityDeclarations he hd, hne, Schema.mem_references_strictObject.mpr ⟨p, hp, hn⟩⟩

theorem mentions_of_onField? (hf : field ∈ entity.fields) {schema : Schema}
    (hs : Condition.onField? field = some schema) (hne : Naming.ofEntity entity.name "WhereInput" ≠ name)
    (hn : name ∈ schema.references) : model.Mentions name := by
  have hd : entity.whereInput ∈ model.entityDeclarations entity := by
    simp [entityDeclarations, entityInputs, queryDeclarations]
  have hp : (field.name, schema) ∈ Entity.propertiesOf entity.fields Condition.onField? :=
    Entity.mem_propertiesOf.mpr ⟨field, hf, hs, rfl⟩
  exact mentions_of_property he hd hne (List.mem_append_right _ hp) hn

theorem mentions_count (hlists : entity.ownsListRelation = true) {suffix : String}
    (hs : suffix ∈ Entity.countSuffixes) : model.Mentions (Naming.ofEntity entity.name suffix) := by
  simp only [Entity.countSuffixes, List.mem_cons, List.not_mem_nil, or_false] at hs
  rcases hs with rfl | rfl
  · have hd : ⟨Naming.ofEntity entity.name "CountOutputTypeArgs", .strictObject
        [("select", (Schema.ref (Naming.ofEntity entity.name "CountOutputTypeSelect")).optional)]⟩ ∈
          model.entityDeclarations entity := by
      simp [entityDeclarations, entityInputs, queryDeclarations, Entity.countSelection, hlists]
    refine mentions_of_property he hd (fun h => ?_) List.mem_cons_self (by simp)
    exact absurd (Naming.ofEntity_inj h) (by decide)
  · have hd : entity.fieldSelection ∈ model.entityDeclarations entity := by
      simp [entityDeclarations, entityInputs, queryDeclarations]
    have hp : ("_count", Selection.flagOr (Naming.ofEntity entity.name "CountOutputTypeArgs")) ∈
        entity.relationChoices := by
      simp [Entity.relationChoices, hlists]
    refine mentions_of_property he hd (fun h => ?_) (List.mem_append_right _ hp) (by simp [Selection.flagOr])
    exact absurd (Naming.ofEntity_inj h) (by decide)

theorem mentions_orderByAggregate {key aggregate suffix : String} {fields : List Field}
    (ha : (key, aggregate, fields) ∈ entity.orderedAggregates) (hs : suffix = aggregate ++ "OrderByAggregateInput")
    (hne : "OrderByWithAggregationInput" ≠ suffix) : model.Mentions (Naming.ofEntity entity.name suffix) := by
  subst hs
  have hd : entity.orderGroupsBy ∈ model.entityDeclarations entity := by
    simp [entityDeclarations, entityInputs, queryDeclarations]
  have hp : (key, (Schema.ref (entity.orderByAggregateName aggregate)).optional) ∈
      entity.orderedAggregates.map fun p => (p.1, (Schema.ref (entity.orderByAggregateName p.2.1)).optional) :=
    List.mem_map.mpr ⟨_, ha, rfl⟩
  have hn : entity.orderByAggregateName aggregate ∈
      (Schema.ref (entity.orderByAggregateName aggregate)).optional.references := by simp
  exact mentions_of_property he hd (fun h => hne (Naming.ofEntity_inj h)) (List.mem_append_right _ hp) hn

theorem mentions_aggregate {key aggregate suffix : String}
    (ha : (key, (Schema.ref (entity.aggregateName aggregate)).optional) ∈ entity.aggregateChoices)
    (hs : suffix = aggregate ++ "AggregateInput") (hne : "AggregateArgs" ≠ suffix) :
    model.Mentions (Naming.ofEntity entity.name suffix) := by
  subst hs
  have hd : ⟨Naming.ofEntity entity.name "AggregateArgs", .strictObject (entity.window ++ entity.aggregateChoices)⟩ ∈
      model.entityDeclarations entity := by
    simp [entityDeclarations, entityInputs, Entity.operationArguments, Entity.operations]
  have hn : entity.aggregateName aggregate ∈ (Schema.ref (entity.aggregateName aggregate)).optional.references := by
    simp
  exact mentions_of_property he hd (fun h => hne (Naming.ofEntity_inj h)) (List.mem_append_right _ ha) hn

theorem mentions_number (hnumbers : entity.hasNumericFields = true) {suffix : String}
    (hs : suffix ∈ Entity.numberSuffixes) : model.Mentions (Naming.ofEntity entity.name suffix) := by
  simp only [Entity.numberSuffixes, List.mem_cons, List.not_mem_nil, or_false] at hs
  rcases hs with rfl | rfl | rfl | rfl
  · have ha : ("_avg", "Avg", entity.numericFields) ∈ entity.orderedAggregates := by
      simp [Entity.orderedAggregates, hnumbers]
    exact mentions_orderByAggregate he ha (by decide) (by decide)
  · have ha : ("_sum", "Sum", entity.numericFields) ∈ entity.orderedAggregates := by
      simp [Entity.orderedAggregates, hnumbers]
    exact mentions_orderByAggregate he ha (by decide) (by decide)
  · have ha : ("_avg", (Schema.ref (entity.aggregateName "Avg")).optional) ∈ entity.aggregateChoices := by
      simp [Entity.aggregateChoices, hnumbers]
    exact mentions_aggregate he ha (by decide) (by decide)
  · have ha : ("_sum", (Schema.ref (entity.aggregateName "Sum")).optional) ∈ entity.aggregateChoices := by
      simp [Entity.aggregateChoices, hnumbers]
    exact mentions_aggregate he ha (by decide) (by decide)

end

section
variable (hf : field ∈ model.allFields)
include hf

theorem mentions_filter (h : Condition.filterName? field = some name) : model.Mentions name := by
  obtain ⟨entity, he, hf⟩ := mem_allFields.mp hf
  obtain ⟨schema, hs, hn⟩ := Condition.exists_onField?_of_filterName? h
  obtain ⟨beginning, rfl⟩ := Condition.ending_of_filterName? h
  refine mentions_of_onField? he hf hs (Naming.ofEntity_ne_of_endings ?_ ?_ beginning) hn
  · cases field.multiplicity <;> decide
  · cases field.multiplicity <;> decide

theorem mentions_operations (hlist : field.isList = false)
    (h : Payload.operationsName? field (field.multiplicity == .nullable) = some name) : model.Mentions name := by
  obtain ⟨entity, he, hf⟩ := mem_allFields.mp hf
  obtain ⟨schema, hs, hn⟩ := Payload.exists_updated?_of_operationsName? hlist h
  obtain ⟨hr, beginning, rfl⟩ := Payload.ending_of_operationsName? h
  have hd : ⟨Naming.ofEntity entity.name "UncheckedUpdateInput",
      .strictObject (Payload.properties (Graph.ofModel model) .update .unchecked entity none)⟩ ∈
        model.entityDeclarations entity := by
    simp [entityDeclarations, entityInputs, Entity.updateInputs]
  have hp : (field.name, schema) ∈ Payload.properties (Graph.ofModel model) .update .unchecked entity none :=
    Entity.mem_propertiesOf.mpr ⟨field, hf, (Payload.ofField?_unchecked _ hr).trans hs, rfl⟩
  exact mentions_of_property he hd (Naming.ofEntity_ne_of_endings (by decide) (by decide) beginning) hp hn

section
variable {relation : Relation} (hr : field.relation? = some relation)
include hr

theorem mentions_relationFilter :
    model.Mentions (Naming.ofEntity relation.target (Condition.relationFilter field.multiplicity)) := by
  obtain ⟨entity, he, hf⟩ := mem_allFields.mp hf
  have hs : Condition.onField? field = some (Condition.onRelation field relation.target) := by
    simp [Condition.onField?, hr]
  refine mentions_of_onField? he hf hs ?_ (Condition.mem_references_onRelation field relation.target)
  rw [Naming.ofEntity.eq_def relation.target, String.append_assoc]
  refine Naming.ofEntity_ne_of_endings ?_ ?_ relation.target
  · cases field.multiplicity <;> decide
  · cases field.multiplicity <;> decide

theorem mentions_orderBySize (hlist : field.isList = true) :
    model.Mentions (Naming.ofEntity relation.target "OrderByRelationAggregateInput") := by
  obtain ⟨entity, he, hf⟩ := mem_allFields.mp hf
  have hd : entity.orderBy ∈ model.entityDeclarations entity := by
    simp [entityDeclarations, entityInputs, queryDeclarations]
  have hp : (field.name, Ordering.byField field) ∈
      entity.fields.map fun field => (field.name, Ordering.byField field) := List.mem_map.mpr ⟨field, hf, rfl⟩
  refine mentions_of_property he hd ?_ hp (by simp [Ordering.byField, hr, hlist])
  rw [Naming.ofEntity.eq_def relation.target, String.append_assoc]
  exact Naming.ofEntity_ne_of_endings (by decide) (by decide) relation.target

theorem mentions_bulkWhere (hv : model.validate = .ok ()) (hlist : field.isList = true) :
    model.Mentions (Naming.ofEntity relation.target "ScalarWhereInput") := by
  obtain ⟨owner, ho, hf⟩ := mem_allFields.mp hf
  have hf : field ∈ owner.relationFields := List.mem_filter.mpr ⟨hf, by simp [Field.isRelation, hr]⟩
  -- a relation of an accepted model has a far side, so its list is changed by a nested write
  obtain ⟨edge, hedge⟩ := exists_edge_of_validate hv ho hf
  obtain ⟨relation', hr', hname⟩ := Graph.relation?_of_edge? hedge
  obtain rfl : relation = relation' := Option.some.inj (hr.symm.trans hr')
  rw [← hname]
  let names : NestedNames := .ofEdge edge
  let d : Declaration := ⟨names.role "UpdateManyWithWhere" "Input", .strictObject [
    ("where", names.ofTarget "ScalarWhereInput"),
    ("data", .union [names.ofTarget "UpdateManyMutationInput", names.roleRef "UncheckedUpdateMany"])]⟩
  have hd : d ∈ (Graph.ofModel model).writesTo field edge := by
    simp [d, names, Graph.writesTo, NestedNames.changes, hlist, NestedNames.changeMany]
  have hrole : NestedRole.record "UpdateManyWithWhere" "Input" ∈ NestedRole.possible := by decide
  have hne : d.name ≠ Naming.ofEntity edge.target.name "ScalarWhereInput" :=
    NestedRole.name_ne_ofEntity hrole names (by decide) (by decide)
  refine ⟨d, mem_built_of_mem_writesTo (mem_edges.mpr ⟨owner, ho, hf, hedge⟩) hd, hne, ?_⟩
  simp [d, names, NestedNames.ofTarget, NestedNames.ofEdge]

end

end

theorem mentions_json (hf : field ∈ model.allFields) (ht : field.scalarType? = some .json)
    (hn : name ∈ [Naming.jsonValue, Naming.inputJsonValue]) : model.Mentions name := by
  have hused : (model.scalarUsage .json).has field.multiplicity = true := has_scalarUsage.mpr ⟨field, hf, ht, rfl⟩
  have hany : (model.scalarUsage .json).any = true := Usage.any_iff.mpr ⟨_, hused⟩
  have hshared : ∀ d ∈ model.sharedInputs, d ∈ model.built := fun d hd =>
    mem_built.mpr (Or.inl (mem_inputs_of_shared hd))
  simp only [List.mem_cons, List.not_mem_nil, or_false] at hn
  rcases hn with rfl | rfl
  · -- values without `null` have parts that may be `null`
    let d : Declaration := ⟨Naming.inputJsonValue, .union (Primitives.jsonLeaves ++ Primitives.jsonContainers)⟩
    have hd : d ∈ model.sharedInputs := by
      simp [d, sharedInputs, Primitives.declarations, Primitives.json, hany]
    have harm : (Schema.ref Naming.jsonValue).array ∈ Primitives.jsonLeaves ++ Primitives.jsonContainers :=
      List.mem_append_right _ List.mem_cons_self
    exact ⟨d, hshared d hd, by decide, Schema.mem_references_union.mpr ⟨_, harm, by simp⟩⟩
  · have hname : Naming.scalarFilter? .json field.multiplicity =
        some ("Json" ++ Naming.filterSuffix field.multiplicity) := rfl
    have hd : _ ∈ model.sharedInputs :=
      List.mem_append_left _ (List.mem_append_right _ (mem_scalarFilters hused hname))
    refine ⟨_, hshared _ hd, ?_, ?_⟩
    · cases field.multiplicity <;> decide
    · cases field.multiplicity <;>
        simp [Filter.ofScalar, Filter.ofSingle, Filter.ofList, Filter.orNull, ScalarType.single]

theorem mentions_target (hv : model.validate = .ok ()) (hf : field ∈ model.allFields) {relation : Relation}
    (hr : field.relation? = some relation) {suffix : String} (hs : suffix ∈ Entity.targetSuffixes field.multiplicity) :
    model.Mentions (Naming.ofEntity relation.target suffix) := by
  have hfilter := mentions_relationFilter hf hr
  cases hm : field.multiplicity with
  | required | nullable =>
    simp only [hm, Entity.targetSuffixes, List.mem_singleton] at hs
    subst hs
    rwa [hm] at hfilter
  | list =>
    have hlist : field.isList = true := Field.multiplicity_eq_list.mp hm
    simp only [hm, Entity.targetSuffixes, List.mem_cons, List.not_mem_nil, or_false] at hs
    rcases hs with rfl | rfl | rfl
    · rwa [hm] at hfilter
    · exact mentions_bulkWhere hf hr hv hlist
    · exact mentions_orderBySize hf hr hlist

theorem mentions_valueInput (hf : field ∈ model.allFields) {input : ValueInput}
    (hm : field.multiplicity = input.multiplicity) (hn : field.valueInput? input = some name) :
    model.Mentions name := by
  rcases input with m | nullable
  · exact mentions_filter hf hn
  · have hnullable : (field.multiplicity == .nullable) = nullable := by
      rw [hm]
      cases nullable <;> rfl
    have hlist : field.isList = false := by
      rw [← Bool.not_eq_true, ← Field.multiplicity_eq_list, hm]
      cases nullable <;> decide
    rw [← hnullable] at hn
    exact mentions_operations hf hlist hn

/-- What is built on demand is not built in vain. -/
theorem OnDemand.mentions (hv : model.validate = .ok ()) {owner : Owner} {needed : Prop}
    (h : model.OnDemand owner name needed) (hneeded : needed) : model.Mentions name := by
  cases h with
  | scalar input hs =>
    obtain ⟨hof, field, hf, ht, hm⟩ := hneeded
    exact mentions_valueInput hf hm (Field.valueInput?_scalar ht hs hof hm)
  | json hn =>
    obtain ⟨field, hf, ht⟩ := hneeded
    exact mentions_json hf ht hn
  | enumeration enumeration input =>
    obtain ⟨field, hf, he, hm⟩ := hneeded
    exact mentions_valueInput hf hm (Field.valueInput?_enumeration he hm)
  | target entity hs =>
    obtain ⟨field, hf, ⟨relation, hr, rfl⟩, rfl⟩ := hneeded
    exact mentions_target hv hf hr hs
  | count he hs => exact mentions_count he (ownsListRelation_iff.mpr hneeded) hs
  | number he hs => exact mentions_number he (hasNumericFields_iff.mpr hneeded) hs

/-- In an accepted model a declaration on demand is built if something asks for it, and only then; and each that is
built is referred to by another one. -/
theorem built_on_demand (hv : model.validate = .ok ()) {owner : Owner} {needed : Prop}
    (h : model.OnDemand owner name needed) :
    (model.Declares owner name ↔ needed) ∧ (model.Declares owner name → model.Mentions name) := by
  have hiff : model.Declares owner name ↔ needed :=
    h.declares_iff (resolved_of_validate hv) (namedApart_of_validate hv)
  exact ⟨hiff, fun hd => h.mentions hv (hiff.mp hd)⟩

/-- Users of a team are filtered in lists and by their role; nothing asks for JSON values, or for a filter of states. -/
theorem staff_on_demand : staff.validate = .ok () ∧
    staff.Declares (.entity "User") (Naming.ofEntity "User" "ListRelationFilter") ∧
    staff.Mentions (Naming.ofEntity "User" "ListRelationFilter") ∧
    staff.Declares (.enumeration "Role") (Naming.enumerationFilter "Role" .required) ∧
    ¬ staff.Declares (.enumeration "State") (Naming.enumerationFilter "State" .required) ∧
    ¬ staff.Declares .shared Naming.jsonValue := by
  have hvalid : staff.validate = .ok () := by decide
  have hmembers : staff.OnDemand (.entity "User") (Naming.ofEntity "User" "ListRelationFilter") _ :=
    .target "User" (m := .list) List.mem_cons_self
  have hrole : staff.OnDemand (.enumeration "Role") (Naming.enumerationFilter "Role" .required) _ :=
    .enumeration "Role" (.filter .required)
  have hstate : staff.OnDemand (.enumeration "State") (Naming.enumerationFilter "State" .required) _ :=
    .enumeration "State" (.filter .required)
  have hjson : staff.OnDemand .shared Naming.jsonValue _ := .json List.mem_cons_self
  obtain ⟨hdeclared, hmentioned⟩ := built_on_demand hvalid hmembers
  have hlists : staff.Declares (.entity "User") (Naming.ofEntity "User" "ListRelationFilter") :=
    hdeclared.mpr ⟨relating "members" "User" "Members" true, by decide, ⟨_, rfl, rfl⟩, rfl⟩
  refine ⟨hvalid, hlists, hmentioned hlists, (built_on_demand hvalid hrole).1.mpr (by decide), ?_, ?_⟩
  · rw [(built_on_demand hvalid hstate).1]
    decide
  · rw [(built_on_demand hvalid hjson).1]
    decide

end DataModel

end DataShapes
