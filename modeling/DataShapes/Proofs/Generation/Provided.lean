import DataShapes.Proofs.Generation.Names
import DataShapes.Proofs.Model.Accepted

/-! # Names that inputs can rely on

Inputs refer to each other by names only. For each kind of name this file says when an input is declared
under it: the condition under which the input is built, restated for those who refer to it. -/

namespace DataShapes

namespace DataModel
variable {model : DataModel}

theorem provides_of_subset (ds : List Declaration) (h : ∀ d ∈ ds, d ∈ model.inputs) {name : String}
    (hn : name ∈ ds.map (·.name)) : model.Provides name := by
  obtain ⟨d, hd, rfl⟩ := List.mem_map.mp hn
  exact ⟨d, h d hd, rfl⟩

/-! ### Shared inputs, enumerations and conditions -/

theorem mem_inputs_of_shared {d : Declaration} (h : d ∈ model.sharedInputs) : d ∈ model.inputs :=
  mem_inputs.mpr (Or.inl h)

theorem mem_inputs_of_enumeration {enumeration : Enumeration} (he : enumeration ∈ model.enumerations)
    {d : Declaration} (h : d ∈ model.enumerationInputs enumeration) : d ∈ model.inputs :=
  mem_inputs.mpr (Or.inr (Or.inl ⟨enumeration, he, h⟩))

end DataModel

/-- The suffixes of lookups and conditions, the first of the inputs that ask for records of an entity. -/
def Entity.conditionSuffixes (usage : Usage) : List String :=
  ["WhereInput", "WhereUniqueInput"] ++
    ((if usage.list then ["ListRelationFilter"] else []) ++
      (if usage.required then ["RelationFilter"] else []) ++
      (if usage.nullable then ["NullableRelationFilter"] else [])) ++
    (if usage.list then ["ScalarWhereInput"] else [])

theorem Operation.mem_nullabilities_iff {usage : Usage} {nullable : Bool} :
    nullable ∈ nullabilities usage ↔ usage.has (if nullable then .nullable else .required) = true := by
  obtain ⟨required, ofNullable, list⟩ := usage
  cases nullable <;> cases required <;> cases ofNullable <;> simp [nullabilities, Usage.has]

theorem Naming.scalarOperations?_eq_some_iff {type : ScalarType} {nullable : Bool} {name : String} :
    scalarOperations? type nullable = some name ↔
      type ≠ .json ∧ ∃ stem, type.stem? = some stem ∧ operations stem nullable = name := by
  unfold scalarOperations?
  split
  · next hjson => simp [hjson]
  · next hjson => simp [hjson]

namespace DataModel
variable {model : DataModel}

/-- Under these names everything is declared that values and conditions rely on. -/
structure Supplies (model : DataModel) (names : String → Prop) : Prop where
  shared : ∀ d ∈ model.sharedInputs, names d.name
  enumerations : ∀ enumeration ∈ model.enumerations, ∀ d ∈ model.enumerationInputs enumeration, names d.name
  conditions : ∀ entity ∈ model.entities, ∀ suffix ∈ Entity.conditionSuffixes (model.targetUsage entity.name),
    names (Naming.ofEntity entity.name suffix)

/-- Under these names everything is declared that values rely on. -/
structure SuppliesValues (model : DataModel) (names : String → Prop) : Prop where
  inputJsonValue : (model.scalarUsage .json).any = true → names Naming.inputJsonValue
  enumerationMembers : ∀ {enumeration : Enumeration}, enumeration ∈ model.enumerations →
    names (Naming.enumeration enumeration.name)

section
variable {names : String → Prop} (h : model.Supplies names)
include h

theorem Supplies.primitive {name : String} (hn : name ∈ (Primitives.declarations model).map (·.name)) : names name := by
  obtain ⟨d, hd, rfl⟩ := List.mem_map.mp hn
  exact h.shared d (by simp [sharedInputs, hd])

theorem Supplies.sortOrder : names Naming.sortOrder :=
  h.primitive (by simp [Primitives.declarations, Primitives.ordering])

theorem Supplies.queryMode : names Naming.queryMode :=
  h.primitive (by simp [Primitives.declarations, Primitives.ordering])

theorem Supplies.sortOrderInput : names Naming.sortOrderInput :=
  h.primitive (by simp [Primitives.declarations, Primitives.ordering])

theorem Supplies.inputJsonValue (hu : (model.scalarUsage .json).any = true) : names Naming.inputJsonValue :=
  h.primitive (by simp [Primitives.declarations, Primitives.json, hu])

omit h in
/-- A filter exists for each multiplicity with which a type is in use. -/
theorem mem_scalarFilters {type : ScalarType} {m : Multiplicity} {name : String}
    (hu : (model.scalarUsage type).has m = true) (hn : Naming.scalarFilter? type m = some name) :
    ⟨name, Filter.ofScalar type m name⟩ ∈ Filter.scalarDeclarations model := by
  obtain ⟨stem, hs, -⟩ := Option.map_eq_some_iff.mp hn
  have ht : type ∈ model.scalarTypes := (mem_scalarTypes hs).mpr (Usage.any_iff.mpr ⟨m, hu⟩)
  exact List.mem_flatMap.mpr ⟨type, ht, List.mem_filterMap.mpr
    ⟨m, Usage.mem_multiplicities.mpr hu, by rw [hn, Option.map_some]⟩⟩

theorem Supplies.scalarFilter {type : ScalarType} {m : Multiplicity} {name : String}
    (hu : (model.scalarUsage type).has m = true) (hn : Naming.scalarFilter? type m = some name) : names name :=
  h.shared ⟨name, Filter.ofScalar type m name⟩ (by simp [sharedInputs, mem_scalarFilters hu hn])

omit h in
/-- Operations exist for the nullability of each single-valued field. -/
theorem mem_nullabilities {usage : Usage} {m : Multiplicity} (h : usage.has m = true) (hm : m ≠ .list) :
    (m == .nullable) ∈ Operation.nullabilities usage := by
  cases m with
  | required => exact Operation.mem_nullabilities_iff.mpr h
  | nullable => exact Operation.mem_nullabilities_iff.mpr h
  | list => exact absurd rfl hm

omit h in
theorem mem_scalarOperations {type : ScalarType} {m : Multiplicity} {name : String}
    (hu : (model.scalarUsage type).has m = true) (hm : m ≠ .list)
    (hn : Naming.scalarOperations? type (m == .nullable) = some name) :
    ⟨name, Operation.ofScalar type (m == .nullable)⟩ ∈ Operation.scalarDeclarations model := by
  obtain ⟨-, stem, hs, -⟩ := Naming.scalarOperations?_eq_some_iff.mp hn
  have ht : type ∈ model.scalarTypes := (mem_scalarTypes hs).mpr (Usage.any_iff.mpr ⟨m, hu⟩)
  exact List.mem_flatMap.mpr ⟨type, ht, List.mem_filterMap.mpr
    ⟨_, mem_nullabilities hu hm, by rw [hn, Option.map_some]⟩⟩

theorem Supplies.scalarOperations {type : ScalarType} {m : Multiplicity} {name : String}
    (hu : (model.scalarUsage type).has m = true) (hm : m ≠ .list)
    (hn : Naming.scalarOperations? type (m == .nullable) = some name) : names name :=
  h.shared ⟨name, Operation.ofScalar type (m == .nullable)⟩ (by simp [sharedInputs, mem_scalarOperations hu hm hn])

omit h in
theorem mem_enumerationFilters {enumeration : Enumeration} {m : Multiplicity}
    (hu : (model.enumerationUsage enumeration.name).has m = true) :
    ⟨Naming.enumerationFilter enumeration.name m, Filter.ofEnumeration (.ref (Naming.enumeration enumeration.name)) m
      (Naming.enumerationFilter enumeration.name m)⟩ ∈ model.enumerationInputs enumeration :=
  List.mem_cons_of_mem _ (List.mem_append_left _ (List.mem_map.mpr ⟨m, Usage.mem_multiplicities.mpr hu, rfl⟩))

omit h in
theorem mem_enumerationOperations {enumeration : Enumeration} {m : Multiplicity}
    (hu : (model.enumerationUsage enumeration.name).has m = true) (hm : m ≠ .list) :
    ⟨Naming.enumerationOperations enumeration.name (m == .nullable),
      Operation.ofEnumeration enumeration.name (m == .nullable)⟩ ∈ model.enumerationInputs enumeration :=
  List.mem_cons_of_mem _ (List.mem_append_right _ (List.mem_map.mpr ⟨_, mem_nullabilities hu hm, rfl⟩))

section
variable {enumeration : Enumeration} (he : enumeration ∈ model.enumerations)
include he

theorem Supplies.enumerationMembers : names (Naming.enumeration enumeration.name) :=
  h.enumerations enumeration he enumeration.declaration List.mem_cons_self

theorem Supplies.enumerationFilter {m : Multiplicity} (hu : (model.enumerationUsage enumeration.name).has m = true) :
    names (Naming.enumerationFilter enumeration.name m) :=
  h.enumerations enumeration he _ (mem_enumerationFilters hu)

theorem Supplies.enumerationOperations {m : Multiplicity}
    (hu : (model.enumerationUsage enumeration.name).has m = true) (hm : m ≠ .list) :
    names (Naming.enumerationOperations enumeration.name (m == .nullable)) :=
  h.enumerations enumeration he _ (mem_enumerationOperations hu hm)

end

theorem Supplies.values : model.SuppliesValues names := ⟨h.inputJsonValue, h.enumerationMembers⟩

section
variable {entity : Entity} (he : entity ∈ model.entities)
include he

theorem Supplies.whereInput : names (Naming.ofEntity entity.name "WhereInput") :=
  h.conditions entity he _ (by simp [Entity.conditionSuffixes])

theorem Supplies.whereUnique : names (Naming.ofEntity entity.name "WhereUniqueInput") :=
  h.conditions entity he _ (by simp [Entity.conditionSuffixes])

end

end

/-! ### Inputs of an entity -/

theorem mem_inputs_of_entity {entity : Entity} (he : entity ∈ model.entities) {d : Declaration}
    (h : d ∈ model.entityInputs entity) : d ∈ model.inputs :=
  mem_inputs.mpr (Or.inr (Or.inr (Or.inl ⟨entity, he, h⟩)))

theorem provides_ofEntity {entity : Entity} (he : entity ∈ model.entities) {suffix : String}
    (h : suffix ∈ entity.inputSuffixes (model.targetUsage entity.name)) :
    model.Provides (Naming.ofEntity entity.name suffix) := by
  refine provides_of_subset (model.entityInputs entity) (fun d hd => mem_inputs_of_entity he hd) ?_
  rw [map_name_entityInputs]
  exact List.mem_map_of_mem h

theorem mem_inputSuffixes_of_condition {entity : Entity} {usage : Usage} {suffix : String}
    (h : suffix ∈ Entity.conditionSuffixes usage) : suffix ∈ entity.inputSuffixes usage := by
  simp only [Entity.inputSuffixes, Entity.querySuffixes, Entity.conditionSuffixes, List.append_assoc] at h ⊢
  refine List.mem_cons_of_mem _ ?_
  simp only [List.mem_append] at h ⊢
  rcases h with h | h | h | h | h <;> simp only [h, true_or, or_true]

/-- All inputs together suffice for values and conditions. -/
theorem supplies_provides : model.Supplies model.Provides where
  shared _ hd := provides_of_mem (mem_inputs_of_shared hd)
  enumerations _ he _ hd := provides_of_mem (mem_inputs_of_enumeration he hd)
  conditions _ he _ hs := provides_ofEntity he (mem_inputSuffixes_of_condition hs)

/-! ### Inputs of a relation field -/

theorem mem_inputs_of_field {entity : Entity} (he : entity ∈ model.entities) {field : Field}
    (hf : field ∈ entity.relationFields) {d : Declaration}
    (h : d ∈ (Graph.ofModel model).nestedWrites entity field) : d ∈ model.inputs :=
  mem_inputs.mpr (Or.inr (Or.inr (Or.inr ⟨entity, he, field, hf, h⟩)))

theorem provides_nestedRole {entity : Entity} (he : entity ∈ model.entities) {field : Field}
    (hf : field ∈ entity.relationFields) {edge : Edge}
    (hedge : (Graph.ofModel model).edge? entity field = some edge) {role : NestedRole}
    (h : role ∈ NestedRole.all field (!edge.reverse.isList)) :
    model.Provides (role.name (.ofEdge edge)) := by
  refine provides_of_subset ((Graph.ofModel model).nestedWrites entity field)
    (fun d hd => mem_inputs_of_field he hf hd) ?_
  rw [Graph.map_name_nestedWrites hedge]
  exact List.mem_map_of_mem h

end DataModel

end DataShapes
