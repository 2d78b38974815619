import DataShapes.Proofs.Generation.Provided
import DataShapes.Proofs.Schema.References

/-! # References of values and of shared inputs

The schema of a value refers to the values of an enumeration or to JSON values. A filter refers, besides
values, to itself, and operations refer to values only. In a model whose fields refer to what is declared,
all of these are declared too. -/

namespace DataShapes

namespace DataModel
variable {model : DataModel}

/-! ### Fields of the model -/

section
variable {field : Field} (hf : field ∈ model.allFields)
include hf

theorem has_scalarUsage_of_mem {type : ScalarType} (ht : field.scalarType? = some type) :
    (model.scalarUsage type).has field.multiplicity = true :=
  has_scalarUsage.mpr ⟨field, hf, ht, rfl⟩

theorem has_enumerationUsage_of_mem {name : String} (hn : field.enumeration? = some name) :
    (model.enumerationUsage name).has field.multiplicity = true :=
  has_enumerationUsage.mpr ⟨field, hf, hn, rfl⟩

theorem has_targetUsage_of_mem {relation : Relation} (hr : field.relation? = some relation) :
    (model.targetUsage relation.target).has field.multiplicity = true :=
  has_targetUsage.mpr ⟨field, hf, ⟨relation, hr, rfl⟩, rfl⟩

theorem Resolved.exists_target (hm : model.Resolved) {relation : Relation}
    (hr : field.relation? = some relation) : ∃ target ∈ model.entities, target.name = relation.target := by
  obtain ⟨entity, he, hf⟩ := mem_allFields.mp hf
  exact hm.targets entity he field hf relation hr

theorem Resolved.exists_enumeration (hm : model.Resolved) {name : String}
    (hn : field.enumeration? = some name) : ∃ enumeration ∈ model.enumerations, enumeration.name = name := by
  obtain ⟨entity, he, hf⟩ := mem_allFields.mp hf
  exact hm.enumerations entity he field hf name hn

end

/-! ### Values -/

section
variable {names : String → Prop} (hs : model.SuppliesValues names)
include hs

theorem SuppliesValues.within_single {type : ScalarType} (h : (model.scalarUsage type).any = true) :
    type.single.Within names := by
  cases type with
  | json => exact .ref (hs.inputJsonValue h)
  | _ => simp [ScalarType.single]

theorem SuppliesValues.within_many {type : ScalarType} (h : (model.scalarUsage type).any = true) :
    type.many.Within names := by
  cases type with
  | dateTime => simp [ScalarType.many]
  | _ => exact .array (hs.within_single h)

theorem SuppliesValues.within_enumeration (hm : model.Resolved) {field : Field} (hf : field ∈ model.allFields)
    {name : String} (hn : field.enumeration? = some name) :
    (Schema.ref (Naming.enumeration name)).Within names := by
  obtain ⟨enumeration, he, rfl⟩ := hm.exists_enumeration hf hn
  exact .ref (hs.enumerationMembers he)

section
variable (hm : model.Resolved) {field : Field} (hf : field ∈ model.allFields) {schema : Schema}
include hm hf

theorem SuppliesValues.within_single? (h : field.single? = some schema) : schema.Within names := by
  unfold Field.single? at h
  split at h
  · next type hk =>
    cases h
    have ht : field.scalarType? = some type := by simp [Field.scalarType?, hk]
    exact hs.within_single (Usage.any_iff.mpr ⟨_, has_scalarUsage_of_mem hf ht⟩)
  · next name hk =>
    cases h
    exact hs.within_enumeration hm hf (by simp [Field.enumeration?, hk])
  · cases h

theorem SuppliesValues.within_many? (h : field.many? = some schema) : schema.Within names := by
  unfold Field.many? at h
  split at h
  · next type hk =>
    cases h
    have ht : field.scalarType? = some type := by simp [Field.scalarType?, hk]
    exact hs.within_many (Usage.any_iff.mpr ⟨_, has_scalarUsage_of_mem hf ht⟩)
  · next name hk =>
    cases h
    exact .array (hs.within_enumeration hm hf (by simp [Field.enumeration?, hk]))
  · cases h

/-- What a field of the model holds refers to what is declared. -/
theorem SuppliesValues.within_value? (h : field.value? = some schema) : schema.Within names := by
  unfold Field.value? at h
  split at h
  · exact hs.within_many? hm hf h
  · exact hs.within_single? hm hf h

end

end

/-! ### Primitives -/

/-- Primitives refer to each other. -/
theorem within_primitive {names : String → Prop}
    (hn : ∀ name ∈ (Primitives.declarations model).map (·.name), names name) {d : Declaration}
    (hd : d ∈ Primitives.declarations model) : d.schema.Within names := by
  simp only [Primitives.declarations, List.mem_append] at hd
  rcases hd with hd | hd
  · have hsort : names Naming.sortOrder := hn _ (by simp [Primitives.declarations, Primitives.ordering])
    have hnulls : names Naming.nullsOrder := hn _ (by simp [Primitives.declarations, Primitives.ordering])
    simp only [Primitives.ordering, List.mem_cons, List.not_mem_nil, or_false] at hd
    rcases hd with rfl | rfl | rfl | rfl
    · exact .enumeration
    · exact .enumeration
    · exact .enumeration
    · simp [hsort, hnulls]
  · split at hd
    · next h =>
      have hjson : names Naming.jsonValue := hn _ (by simp [Primitives.declarations, Primitives.json, h])
      simp only [Primitives.json, List.mem_cons, List.not_mem_nil, or_false] at hd
      rcases hd with rfl | rfl
      · simp [Primitives.jsonLeaves, Primitives.jsonContainers, hjson]
      · simp [Primitives.jsonLeaves, Primitives.jsonContainers, hjson]
    · cases hd

end DataModel

/-! ### Filters and operations -/

namespace Filter
variable {names : String → Prop} {schema single many value : Schema}

@[simp] theorem within_orNull {nullable : Bool} : (orNull nullable schema).Within names ↔ schema.Within names := by
  cases nullable <;> simp [orNull]

theorem within_of_mem_each {keys : List String} (h : schema.Within names) :
    ∀ p ∈ each keys schema, p.2.Within names := by
  intro p hp
  obtain ⟨key, -, rfl⟩ := List.mem_map.mp hp
  exact .optional h

theorem within_ofList (hs : single.Within names) (hm : many.Within names) : (ofList single many).Within names := by
  simp [ofList, hs, hm]

/-- The filter of a single value refers to values and to itself; that of a text also to modes of
matching. -/
theorem within_ofSingle {type : ScalarType} {nullable : Bool} {name : String} (hs : type.single.Within names)
    (hm : type.many.Within names) (hmode : names Naming.queryMode) (hn : names name) :
    (ofSingle type nullable name).Within names := by
  rw [ofSingle, Schema.within_strictObject]
  intro p hp
  simp only [List.mem_append] at hp
  rcases hp with ((((hp | hp) | hp) | hp) | hp) | hp
  · obtain rfl := List.mem_singleton.mp hp
    exact within_orNull.mpr hs
  · split at hp
    · simp only [List.mem_cons, List.not_mem_nil, or_false] at hp
      rcases hp with rfl | rfl <;> exact within_orNull.mpr hm
    · cases hp
  · split at hp
    · exact within_of_mem_each hs p hp
    · cases hp
  · split at hp
    · rcases List.mem_append.mp hp with hp | hp
      · exact within_of_mem_each .leaf p hp
      · obtain rfl := List.mem_singleton.mp hp
        exact .optional (.ref hmode)
    · cases hp
  · split at hp
    · next hj =>
      subst hj
      simp only [jsonComparisons, List.mem_append, List.mem_singleton] at hp
      rcases hp with (rfl | hp) | rfl
      · simp
      · exact within_of_mem_each .leaf p hp
      · exact .optional (.nullable hs)
    · cases hp
  · obtain rfl := List.mem_singleton.mp hp
    rw [within_orNull]
    split
    · exact hs
    · simp [hs, hn]

theorem within_ofScalar {type : ScalarType} {m : Multiplicity} {name : String} (hs : type.single.Within names)
    (hm : type.many.Within names) (hmode : names Naming.queryMode) (hn : names name) :
    (ofScalar type m name).Within names := by
  cases m with
  | required | nullable => exact within_ofSingle hs hm hmode hn
  | list => exact within_ofList hs hm

theorem within_ofEnumeration {m : Multiplicity} {name : String} (hv : value.Within names) (hn : names name) :
    (ofEnumeration value m name).Within names := by
  cases m with
  | required | nullable => simp [ofEnumeration, hv, hn]
  | list => exact within_ofList hv (.array hv)

end Filter

namespace Operation
variable {names : String → Prop}

theorem within_ofScalar {type : ScalarType} {nullable : Bool} (hs : type.single.Within names) :
    (ofScalar type nullable).Within names := by
  rw [ofScalar, Schema.within_strictObject]
  intro p hp
  rcases List.mem_append.mp hp with hp | hp
  · obtain rfl := List.mem_singleton.mp hp
    exact Filter.within_orNull.mpr hs
  · split at hp
    · exact Filter.within_of_mem_each hs p hp
    · cases hp

theorem within_ofEnumeration {name : String} {nullable : Bool} (h : names (Naming.enumeration name)) :
    (ofEnumeration name nullable).Within names := by
  simp [ofEnumeration, setting, h]

end Operation

namespace DataModel
variable {model : DataModel} {d : Declaration}

theorem any_of_mem_scalarTypes {type : ScalarType} (h : type ∈ model.scalarTypes) :
    (model.scalarUsage type).any = true :=
  (List.mem_filter.mp h).2

section
variable {names : String → Prop} (hs : model.Supplies names)
include hs

/-- Inputs shared by all models refer to such inputs only. -/
theorem Supplies.within_of_mem_shared (hd : d ∈ model.sharedInputs) : d.schema.Within names := by
  have hn : names d.name := hs.shared d hd
  rcases shared_cases hd with hd | ⟨type, ht, m, hschema⟩ | ⟨type, ht, nullable, hschema⟩
  · exact within_primitive (fun _ => hs.primitive) hd
  · have hu := any_of_mem_scalarTypes ht
    rw [hschema]
    exact Filter.within_ofScalar (hs.values.within_single hu) (hs.values.within_many hu) hs.queryMode hn
  · rw [hschema]
    exact Operation.within_ofScalar (hs.values.within_single (any_of_mem_scalarTypes ht))

/-- Inputs of a declared enumeration refer to inputs of the same and to shared ones. -/
theorem Supplies.within_of_mem_enumerationInputs {enumeration : Enumeration} (he : enumeration ∈ model.enumerations)
    (hd : d ∈ model.enumerationInputs enumeration) : d.schema.Within names := by
  have hn : names d.name := hs.enumerations enumeration he d hd
  have hv : names (Naming.enumeration enumeration.name) := hs.enumerationMembers he
  rcases enumerationInput_cases hd with rfl | ⟨m, hschema⟩ | ⟨nullable, hschema⟩
  · exact .enumeration
  · rw [hschema]
    exact Filter.within_ofEnumeration (.ref hv) hn
  · rw [hschema]
    exact Operation.within_ofEnumeration hv

end

end DataModel

end DataShapes
