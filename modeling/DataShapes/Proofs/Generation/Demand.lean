import DataShapes.Proofs.Generation.Apart
import DataShapes.Proofs.Inputs.Shared

/-! # Declarations on demand

Some declarations are built only when a field asks for them: filters and operations of what fields hold, inputs for
the targets of relations, counts of lists, averages and sums, JSON values. Each is built if some field asks for it,
and only then: its name is given by its owner to nothing else. -/

namespace DataShapes

/-! ### Filters and operations -/

/-- What fields of one scalar type or of one enumeration ask for: a filter, or operations on single values. -/
inductive ValueInput where
  | filter (multiplicity : Multiplicity)
  | operations (nullable : Bool)
  deriving DecidableEq, Repr

namespace ValueInput

/-- The multiplicity of the fields that ask for the input. -/
def multiplicity : ValueInput → Multiplicity
  | .filter multiplicity => multiplicity
  | .operations nullable => if nullable then .nullable else .required

/-- The name of the input, after the stem of its type. -/
def name (stem : String) : ValueInput → String
  | .filter multiplicity => stem ++ Naming.filterSuffix multiplicity
  | .operations nullable => Naming.operations stem nullable

/-- Whether a scalar type has the input at all: JSON values have no operations. -/
def IsOf (type : ScalarType) : ValueInput → Prop
  | .filter _ => True
  | .operations _ => type ≠ .json

def all : List ValueInput :=
  [.filter .required, .filter .nullable, .filter .list, .operations false, .operations true]

theorem mem_all (input : ValueInput) : input ∈ all := by
  rcases input with m | nullable
  · cases m <;> decide
  · cases nullable <;> decide

theorem name_inj {stem : String} {a b : ValueInput} (h : a.name stem = b.name stem) : a = b := by
  -- the inputs of one stem differ in the lengths of their names
  have hnodup : (all.map fun input => (input.name stem).toList.length).Nodup := by
    simp [all, name, Naming.filterSuffix, Naming.operations]
  exact List.inj_on_of_nodup_map hnodup (mem_all a) (mem_all b) (by rw [h])

theorem type_eq_of_name_eq : ∀ type ∈ ScalarType.recognized, ∀ other ∈ ScalarType.recognized, ∀ a ∈ all, ∀ b ∈ all,
    type.stem?.map a.name = other.stem?.map b.name → type = other := by
  decide +kernel

theorem name_ne_primitive : ∀ type ∈ ScalarType.recognized, ∀ input ∈ all,
    ∀ d ∈ Primitives.ordering ++ Primitives.json, type.stem?.map input.name ≠ some d.name := by
  decide +kernel

end ValueInput

namespace DataModel
variable {model : DataModel} {name : String}

theorem mem_map_name_scalarFilters : name ∈ (Filter.scalarDeclarations model).map (·.name) ↔
    ∃ type stem m, type.stem? = some stem ∧ (model.scalarUsage type).has m = true ∧
      (ValueInput.filter m).name stem = name := by
  simp only [Filter.scalarDeclarations, List.mem_map, List.mem_flatMap, List.mem_filterMap, Usage.mem_multiplicities,
    Naming.scalarFilter?, Option.map_map, Option.map_eq_some_iff, Function.comp_apply]
  constructor
  · rintro ⟨_, ⟨type, -, m, hu, stem, hs, rfl⟩, rfl⟩
    exact ⟨type, stem, m, hs, hu, rfl⟩
  · rintro ⟨type, stem, m, hs, hu, rfl⟩
    exact ⟨_, ⟨type, (mem_scalarTypes hs).mpr (Usage.any_iff.mpr ⟨m, hu⟩), m, hu, stem, hs, rfl⟩, rfl⟩

theorem mem_map_name_scalarOperations : name ∈ (Operation.scalarDeclarations model).map (·.name) ↔
    ∃ type stem nullable, type.stem? = some stem ∧ type ≠ .json ∧
      (model.scalarUsage type).has (ValueInput.operations nullable).multiplicity = true ∧
        (ValueInput.operations nullable).name stem = name := by
  simp only [Operation.scalarDeclarations, List.mem_map, List.mem_flatMap, List.mem_filterMap,
    Operation.mem_nullabilities_iff, Option.map_eq_some_iff, Naming.scalarOperations?_eq_some_iff]
  constructor
  · rintro ⟨_, ⟨type, -, nullable, hu, _, ⟨hjson, stem, hs, rfl⟩, rfl⟩, rfl⟩
    exact ⟨type, stem, nullable, hs, hjson, hu, rfl⟩
  · rintro ⟨type, stem, nullable, hs, hjson, hu, rfl⟩
    have ht : type ∈ model.scalarTypes := (mem_scalarTypes hs).mpr (Usage.any_iff.mpr ⟨_, hu⟩)
    exact ⟨_, ⟨type, ht, nullable, hu, _, ⟨hjson, stem, hs, rfl⟩, rfl⟩, rfl⟩

/-- Shared inputs are the primitive ones, JSON values among them if some field holds them, and the inputs of scalar
types in use. -/
theorem mem_map_name_sharedInputs : name ∈ model.sharedInputs.map (·.name) ↔
    name ∈ Primitives.ordering.map (·.name) ∨
    ((model.scalarUsage .json).any = true ∧ name ∈ Primitives.json.map (·.name)) ∨
    ∃ type stem input, type.stem? = some stem ∧ ValueInput.IsOf type input ∧
      (model.scalarUsage type).has input.multiplicity = true ∧ input.name stem = name := by
  rw [sharedInputs, List.map_append, List.map_append, List.mem_append, List.mem_append, mem_map_name_scalarFilters,
    mem_map_name_scalarOperations, Primitives.declarations, List.map_append, List.mem_append, map_ite_nil,
    List.mem_ite_nil_right, or_assoc, or_assoc]
  refine or_congr_right (or_congr_right ?_)
  constructor
  · rintro (⟨type, stem, m, hs, hu, rfl⟩ | ⟨type, stem, nullable, hs, hjson, hu, rfl⟩)
    · exact ⟨type, stem, .filter m, hs, trivial, hu, rfl⟩
    · exact ⟨type, stem, .operations nullable, hs, hjson, hu, rfl⟩
  · rintro ⟨type, stem, m | nullable, hs, hof, hu, rfl⟩
    · exact Or.inl ⟨type, stem, m, hs, hu, rfl⟩
    · exact Or.inr ⟨type, stem, nullable, hs, hof, hu, rfl⟩

/-- An owner declares something under a name. The name alone would not tell the owner: the members of an enumeration
`StringFilter` have the name of the filter of texts. -/
def Declares (model : DataModel) (owner : Owner) (name : String) : Prop :=
  ∃ d, (owner, d) ∈ model.owned ∧ d.name = name

theorem declares_shared_iff : model.Declares .shared name ↔ name ∈ model.sharedInputs.map (·.name) := by
  simp [Declares, mem_owned]

theorem declares_enumeration_iff {enumeration : String} : model.Declares (.enumeration enumeration) name ↔
    ∃ e ∈ model.enumerations, e.name = enumeration ∧ name ∈ (model.enumerationInputs e).map (·.name) := by
  simp only [Declares, mem_owned, reduceCtorEq, false_and, exists_false, and_false, or_false, false_or,
    Owner.enumeration.injEq, List.mem_map]
  constructor
  · rintro ⟨d, ⟨e, he, rfl, hd⟩, rfl⟩
    exact ⟨e, he, rfl, d, hd, rfl⟩
  · rintro ⟨e, he, rfl, d, hd, rfl⟩
    exact ⟨d, ⟨e, he, rfl, hd⟩, rfl⟩

/-! ### Shared inputs -/

theorem declares_scalarInput_iff {type : ScalarType} {stem : String} (hs : type.stem? = some stem)
    (input : ValueInput) : model.Declares .shared (input.name stem) ↔
      input.IsOf type ∧ (model.scalarUsage type).has input.multiplicity = true := by
  have hne : ∀ d ∈ Primitives.ordering ++ Primitives.json, d.name ≠ input.name stem := by
    intro d hd hname
    refine ValueInput.name_ne_primitive type (ScalarType.mem_recognized hs) input input.mem_all d hd ?_
    rw [hs, hname, Option.map_some]
  rw [declares_shared_iff, mem_map_name_sharedInputs]
  constructor
  · rintro (hname | ⟨-, hname⟩ | ⟨other, stem', input', hs', hof, hu, hname⟩)
    · obtain ⟨d, hd, hname⟩ := List.mem_map.mp hname
      exact absurd hname (hne d (List.mem_append_left _ hd))
    · obtain ⟨d, hd, hname⟩ := List.mem_map.mp hname
      exact absurd hname (hne d (List.mem_append_right _ hd))
    · obtain rfl : other = type := by
        refine ValueInput.type_eq_of_name_eq other (ScalarType.mem_recognized hs') type (ScalarType.mem_recognized hs)
          input' input'.mem_all input input.mem_all ?_
        rw [hs, hs', Option.map_some, Option.map_some, hname]
      obtain rfl : stem' = stem := Option.some.inj (hs'.symm.trans hs)
      obtain rfl : input' = input := ValueInput.name_inj hname
      exact ⟨hof, hu⟩
  · rintro ⟨hof, hu⟩
    exact Or.inr (Or.inr ⟨type, stem, input, hs, hof, hu, rfl⟩)

theorem declares_json_iff (hn : name ∈ Primitives.json.map (·.name)) :
    model.Declares .shared name ↔ (model.scalarUsage .json).any = true := by
  rw [declares_shared_iff, mem_map_name_sharedInputs]
  constructor
  · rintro (hname | ⟨hu, -⟩ | ⟨type, stem, input, hs, -, -, rfl⟩)
    · have hnone : ∀ name ∈ Primitives.json.map (·.name), name ∉ Primitives.ordering.map (·.name) := by decide
      exact absurd hname (hnone name hn)
    · exact hu
    · obtain ⟨d, hd, hname⟩ := List.mem_map.mp hn
      refine absurd ?_ (ValueInput.name_ne_primitive type (ScalarType.mem_recognized hs) input input.mem_all d
        (List.mem_append_right _ hd))
      rw [hs, hname, Option.map_some]
  · exact fun hu => Or.inr (Or.inl ⟨hu, hn⟩)

/-! ### Inputs of an enumeration -/

theorem mem_map_name_enumerationInputs {enumeration : Enumeration} :
    name ∈ (model.enumerationInputs enumeration).map (·.name) ↔ Naming.enumeration enumeration.name = name ∨
      ∃ input : ValueInput, (model.enumerationUsage enumeration.name).has input.multiplicity = true ∧
        input.name ("Enum" ++ enumeration.name) = name := by
  simp only [enumerationInputs, Filter.enumerationDeclarations, Operation.enumerationDeclarations, List.map_cons,
    List.map_append, List.map_map, List.mem_cons, List.mem_append, List.mem_map, Function.comp_apply,
    Usage.mem_multiplicities, Operation.mem_nullabilities_iff]
  refine or_congr eq_comm ?_
  constructor
  · rintro (⟨m, hu, rfl⟩ | ⟨nullable, hu, rfl⟩)
    · exact ⟨.filter m, hu, rfl⟩
    · exact ⟨.operations nullable, hu, rfl⟩
  · rintro ⟨m | nullable, hu, rfl⟩
    · exact Or.inl ⟨m, hu, rfl⟩
    · exact Or.inr ⟨nullable, hu, rfl⟩

theorem declares_enumerationInput_iff {enumeration : String} (input : ValueInput) :
    model.Declares (.enumeration enumeration) (input.name ("Enum" ++ enumeration)) ↔
      (∃ e ∈ model.enumerations, e.name = enumeration) ∧
        (model.enumerationUsage enumeration).has input.multiplicity = true := by
  have hne : Naming.enumeration enumeration ≠ input.name ("Enum" ++ enumeration) := by
    intro h
    have hlength := congrArg (fun name : String => name.toList.length) h
    rcases input with m | nullable
    · cases m <;> simp [Naming.enumeration, ValueInput.name, Naming.filterSuffix] at hlength
    · cases nullable <;> simp [Naming.enumeration, ValueInput.name, Naming.operations] at hlength
  rw [declares_enumeration_iff]
  constructor
  · rintro ⟨e, he, rfl, hname⟩
    rcases mem_map_name_enumerationInputs.mp hname with hname | ⟨input', hu, hname⟩
    · exact absurd hname hne
    · obtain rfl : input' = input := ValueInput.name_inj hname
      exact ⟨⟨e, he, rfl⟩, hu⟩
  · rintro ⟨⟨e, he, rfl⟩, hu⟩
    exact ⟨e, he, rfl, mem_map_name_enumerationInputs.mpr (Or.inr ⟨input, hu, rfl⟩)⟩

/-! ### Inputs of an entity -/

theorem declares_entity_iff {entity suffix : String} (hs : suffix ∈ Entity.fixedSuffixes)
    (hrows : suffix ≠ "CreateManyInput") : model.Declares (.entity entity) (Naming.ofEntity entity suffix) ↔
      ∃ e ∈ model.entities, e.name = entity ∧ suffix ∈ "" :: e.inputSuffixes (model.targetUsage entity) := by
  simp only [Declares, mem_owned, reduceCtorEq, false_and, exists_false, and_false, false_or, Owner.entity.injEq]
  constructor
  · rintro ⟨d, ⟨e, he, rfl, hd⟩ | ⟨field, edge, hedge, rfl, hd⟩, hname⟩
    · have hmem : d.name ∈ (model.entityDeclarations e).map (·.name) := List.mem_map_of_mem hd
      rw [map_name_entityDeclarations, hname] at hmem
      obtain ⟨suffix', hs', hname⟩ := List.mem_map.mp hmem
      obtain rfl : suffix' = suffix := Naming.ofEntity_inj hname
      exact ⟨e, he, rfl, hs'⟩
    · obtain ⟨role, hrole, hname'⟩ := Graph.exists_role hd
      exact absurd (hname'.symm.trans hname)
        (NestedRole.name_ne_ofEntity (NestedRole.mem_possible hrole) (.ofEdge edge) hs hrows)
  · rintro ⟨e, he, rfl, hs⟩
    have hname : Naming.ofEntity e.name suffix ∈ (model.entityDeclarations e).map (·.name) := by
      rw [map_name_entityDeclarations]
      exact List.mem_map_of_mem hs
    obtain ⟨d, hd, hname⟩ := List.mem_map.mp hname
    exact ⟨d, Or.inl ⟨e, he, rfl, hd⟩, hname⟩

theorem NamedApart.declares_entity_iff (hn : model.NamedApart) {entity : Entity} (he : entity ∈ model.entities)
    {suffix : String} (hs : suffix ∈ Entity.fixedSuffixes) (hrows : suffix ≠ "CreateManyInput") :
    model.Declares (.entity entity.name) (Naming.ofEntity entity.name suffix) ↔
      suffix ∈ "" :: entity.inputSuffixes (model.targetUsage entity.name) := by
  rw [DataModel.declares_entity_iff hs hrows]
  constructor
  · rintro ⟨e, he', hname, hmem⟩
    obtain rfl := hn.entity_eq he' he hname
    exact hmem
  · exact fun hmem => ⟨entity, he, rfl, hmem⟩

end DataModel

/-- The suffixes of what the target of a relation field of some multiplicity is asked for. -/
def Entity.targetSuffixes : Multiplicity → List String
  | .required => ["RelationFilter"]
  | .nullable => ["NullableRelationFilter"]
  | .list => ["ListRelationFilter", "ScalarWhereInput", "OrderByRelationAggregateInput"]

/-- The suffixes of what an entity with lists is asked for. -/
def Entity.countSuffixes : List String := ["CountOutputTypeSelect", "CountOutputTypeArgs"]

/-- The suffixes of what an entity with numbers is asked for. -/
def Entity.numberSuffixes : List String :=
  ["AvgOrderByAggregateInput", "SumOrderByAggregateInput", "AvgAggregateInput", "SumAggregateInput"]

namespace Entity

theorem fixed_of_mem_targetSuffixes {m : Multiplicity} : ∀ suffix ∈ targetSuffixes m,
    suffix ∈ fixedSuffixes ∧ suffix ≠ "CreateManyInput" := by
  cases m <;> decide

theorem fixed_of_mem_countSuffixes : ∀ suffix ∈ countSuffixes,
    suffix ∈ fixedSuffixes ∧ suffix ≠ "CreateManyInput" := by decide

theorem fixed_of_mem_numberSuffixes : ∀ suffix ∈ numberSuffixes,
    suffix ∈ fixedSuffixes ∧ suffix ≠ "CreateManyInput" := by decide

/-- Which of these an entity has is told by what leads to it, by its lists and by its numbers. -/
theorem mem_inputSuffixes_iff (entity : Entity) (usage : Usage) :
    (∀ m, ∀ suffix ∈ targetSuffixes m, suffix ∈ "" :: entity.inputSuffixes usage ↔ usage.has m = true) ∧
    (∀ suffix ∈ countSuffixes, suffix ∈ "" :: entity.inputSuffixes usage ↔ entity.ownsListRelation = true) ∧
    ∀ suffix ∈ numberSuffixes, suffix ∈ "" :: entity.inputSuffixes usage ↔ entity.hasNumericFields = true := by
  obtain ⟨required, nullable, list⟩ := usage
  unfold inputSuffixes querySuffixes argumentSuffixes
  generalize entity.hasNumericFields = numeric, entity.hasRelations = relations,
    entity.ownsListRelation = lists
  refine ⟨fun m => ?_, ?_⟩
  · revert required nullable list numeric relations lists
    cases m <;> decide +kernel
  · revert required nullable list numeric relations lists
    decide +kernel

end Entity

namespace DataModel

/-! ### What is on demand -/

/-- The declarations on demand, by owner and name, each with what asks for it. -/
inductive OnDemand (model : DataModel) : Owner → String → Prop → Prop
  /-- Filters and operations of a scalar type. -/
  | scalar {type : ScalarType} {stem : String} (input : ValueInput) : type.stem? = some stem →
    OnDemand model .shared (input.name stem) (input.IsOf type ∧
      ∃ field ∈ model.allFields, field.scalarType? = some type ∧ field.multiplicity = input.multiplicity)
  /-- JSON values, with `null` and without. -/
  | json {name : String} : name ∈ [Naming.jsonValue, Naming.inputJsonValue] →
    OnDemand model .shared name (∃ field ∈ model.allFields, field.scalarType? = some .json)
  /-- Filters and operations of an enumeration. -/
  | enumeration (name : String) (input : ValueInput) :
    OnDemand model (.enumeration name) (input.name ("Enum" ++ name))
      (∃ field ∈ model.allFields, field.enumeration? = some name ∧ field.multiplicity = input.multiplicity)
  /-- Filters, bulk conditions and orderings of an entity that relations lead to. -/
  | target (name : String) {m : Multiplicity} {suffix : String} : suffix ∈ Entity.targetSuffixes m →
    OnDemand model (.entity name) (Naming.ofEntity name suffix)
      (∃ field ∈ model.allFields, (∃ relation, field.relation? = some relation ∧ relation.target = name) ∧
        field.multiplicity = m)
  /-- Counts of the lists of an entity. -/
  | count {entity : Entity} {suffix : String} : entity ∈ model.entities → suffix ∈ Entity.countSuffixes →
    OnDemand model (.entity entity.name) (Naming.ofEntity entity.name suffix)
      (∃ field ∈ entity.fields, field.relation?.isSome = true ∧ field.isList = true)
  /-- Averages and sums of the numbers of an entity. -/
  | number {entity : Entity} {suffix : String} : entity ∈ model.entities → suffix ∈ Entity.numberSuffixes →
    OnDemand model (.entity entity.name) (Naming.ofEntity entity.name suffix)
      (∃ field ∈ entity.fields, field.isList = false ∧ ∃ type, field.scalarType? = some type ∧ type.isNumeric = true)

theorem ownsListRelation_iff {entity : Entity} : entity.ownsListRelation = true ↔
    ∃ field ∈ entity.fields, field.relation?.isSome = true ∧ field.isList = true := by
  simp only [Entity.ownsListRelation, Entity.relationFields, List.any_filter, List.any_eq_true, Field.isRelation,
    Bool.and_eq_true]

theorem hasNumericFields_iff {entity : Entity} : entity.hasNumericFields = true ↔ ∃ field ∈ entity.fields,
    field.isList = false ∧ ∃ type, field.scalarType? = some type ∧ type.isNumeric = true := by
  simp [Entity.hasNumericFields, Entity.numericFields, Field.isNumeric, Option.any_eq_true]

/-- A declaration on demand is built when something asks for it, and only then. -/
theorem OnDemand.declares_iff {model : DataModel} (hm : model.Resolved) (hn : model.NamedApart) {owner : Owner}
    {name : String} {needed : Prop} (h : model.OnDemand owner name needed) : model.Declares owner name ↔ needed := by
  cases h with
  | scalar input hs => rw [declares_scalarInput_iff hs, has_scalarUsage]
  | json hname =>
    rw [declares_json_iff hname, Usage.any_iff]
    simp only [has_scalarUsage]
    constructor
    · rintro ⟨_, field, hf, ht, -⟩
      exact ⟨field, hf, ht⟩
    · rintro ⟨field, hf, ht⟩
      exact ⟨field.multiplicity, field, hf, ht, rfl⟩
  | enumeration enumeration input =>
    rw [declares_enumerationInput_iff, has_enumerationUsage, and_iff_right_iff_imp]
    rintro ⟨field, hf, he, -⟩
    exact hm.exists_enumeration hf he
  | target entity hs =>
    obtain ⟨hfixed, hrows⟩ := Entity.fixed_of_mem_targetSuffixes _ hs
    rw [declares_entity_iff hfixed hrows, ← has_targetUsage]
    constructor
    · rintro ⟨e, -, -, hmem⟩
      exact ((e.mem_inputSuffixes_iff _).1 _ _ hs).mp hmem
    · intro hu
      obtain ⟨field, hf, ⟨relation, hr, rfl⟩, -⟩ := has_targetUsage.mp hu
      obtain ⟨e, he, hname⟩ := hm.exists_target hf hr
      exact ⟨e, he, hname, ((e.mem_inputSuffixes_iff _).1 _ _ hs).mpr hu⟩
  | count he hs =>
    obtain ⟨hfixed, hrows⟩ := Entity.fixed_of_mem_countSuffixes _ hs
    rw [hn.declares_entity_iff he hfixed hrows, (Entity.mem_inputSuffixes_iff _ _).2.1 _ hs, ownsListRelation_iff]
  | number he hs =>
    obtain ⟨hfixed, hrows⟩ := Entity.fixed_of_mem_numberSuffixes _ hs
    rw [hn.declares_entity_iff he hfixed hrows, (Entity.mem_inputSuffixes_iff _ _).2.2 _ hs, hasNumericFields_iff]

end DataModel

end DataShapes
