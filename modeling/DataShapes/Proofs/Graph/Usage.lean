import DataShapes.Graph.Usage
import DataShapes.Proofs.Text.NameSet

/-! # What is in use

A multiplicity is in use among some fields when one of them has it. So whatever a field of the model
refers to is in use with the multiplicity of that field. More fields use more, and only which fields there
are is seen, not in which entities or in what order they stand. -/

namespace DataShapes

namespace Usage

theorem has_ofFields {fields : List Field} {m : Multiplicity} :
    (ofFields fields).has m = true ↔ ∃ field ∈ fields, field.multiplicity = m := by
  cases m <;> simp [ofFields, has]

theorem any_iff {usage : Usage} : usage.any = true ↔ ∃ m, usage.has m = true := by
  constructor
  · intro h
    simp only [any, Bool.or_eq_true] at h
    rcases h with (h | h) | h
    · exact ⟨.required, h⟩
    · exact ⟨.nullable, h⟩
    · exact ⟨.list, h⟩
  · rintro ⟨m, h⟩
    cases m <;> simp only [has] at h <;> simp [any, h]

theorem mem_multiplicities {usage : Usage} {m : Multiplicity} :
    m ∈ usage.multiplicities ↔ usage.has m = true := by
  cases m <;> simp [multiplicities]

theorem eq_of_has {usage other : Usage} (h : ∀ m, usage.has m = other.has m) : usage = other := by
  obtain ⟨required, nullable, list⟩ := usage
  obtain ⟨required', nullable', list'⟩ := other
  have hr : required = required' := h .required
  have hn : nullable = nullable' := h .nullable
  have hl : list = list' := h .list
  rw [hr, hn, hl]

theorem multiplicities_sublist {usage other : Usage} (h : ∀ m, usage.has m = true → other.has m = true) :
    usage.multiplicities.Sublist other.multiplicities :=
  List.monotone_filter_right _ h

theorem has_mono {fields others : List Field} (h : ∀ field ∈ fields, field ∈ others) (p : Field → Bool)
    (m : Multiplicity) (hu : (ofFields (fields.filter p)).has m = true) :
    (ofFields (others.filter p)).has m = true := by
  obtain ⟨field, hf, hm⟩ := has_ofFields.mp hu
  obtain ⟨hmem, hp⟩ := List.mem_filter.mp hf
  exact has_ofFields.mpr ⟨field, List.mem_filter.mpr ⟨h field hmem, hp⟩, hm⟩

theorem ofFields_congr {fields others : List Field} (h : ∀ field, field ∈ fields ↔ field ∈ others)
    (p : Field → Bool) : ofFields (fields.filter p) = ofFields (others.filter p) := by
  refine eq_of_has fun m => Bool.eq_iff_iff.mpr ?_
  constructor
  · exact has_mono (fun field => (h field).mp) p m
  · exact has_mono (fun field => (h field).mpr) p m

end Usage

namespace Field

theorem multiplicity_eq_list {field : Field} : field.multiplicity = .list ↔ field.isList = true := by
  unfold multiplicity
  split
  · simp [*]
  · split <;> simp [*]

theorem multiplicity_eq_nullable {field : Field} :
    field.multiplicity = .nullable ↔ field.isList = false ∧ field.isRequired = false := by
  unfold multiplicity
  split
  · simp [*]
  · split <;> simp [*]

end Field

theorem ScalarType.mem_recognized {type : ScalarType} {stem : String} (hs : type.stem? = some stem) :
    type ∈ recognized := by
  cases type with
  | unrecognized tag => cases hs
  | _ => decide

namespace DataModel
variable {model : DataModel}

theorem mem_allFields {field : Field} :
    field ∈ model.allFields ↔ ∃ entity ∈ model.entities, field ∈ entity.fields := by
  simp [allFields]

theorem has_scalarUsage {type : ScalarType} {m : Multiplicity} :
    (model.scalarUsage type).has m = true ↔
      ∃ field ∈ model.allFields, field.scalarType? = some type ∧ field.multiplicity = m := by
  simp [scalarUsage, Usage.has_ofFields, and_assoc]

theorem has_enumerationUsage {name : String} {m : Multiplicity} :
    (model.enumerationUsage name).has m = true ↔
      ∃ field ∈ model.allFields, field.enumeration? = some name ∧ field.multiplicity = m := by
  simp [enumerationUsage, Usage.has_ofFields, and_assoc]

theorem has_targetUsage {name : String} {m : Multiplicity} :
    (model.targetUsage name).has m = true ↔
      ∃ field ∈ model.allFields, (∃ relation, field.relation? = some relation ∧ relation.target = name) ∧
        field.multiplicity = m := by
  simp [targetUsage, Usage.has_ofFields, Option.any_eq_true, and_assoc]

/-- The recognized types that have a stem of their own are those in use. -/
theorem mem_scalarTypes {type : ScalarType} {stem : String} (hs : type.stem? = some stem) :
    type ∈ model.scalarTypes ↔ (model.scalarUsage type).any = true := by
  simp [scalarTypes, ScalarType.mem_recognized hs]

/-! ### Fields of another model -/

section
variable {other : DataModel} (h : ∀ field ∈ model.allFields, field ∈ other.allFields)
include h

theorem scalarUsage_mono (type : ScalarType) (m : Multiplicity) :
    (model.scalarUsage type).has m = true → (other.scalarUsage type).has m = true :=
  Usage.has_mono h _ m

theorem enumerationUsage_mono (name : String) (m : Multiplicity) :
    (model.enumerationUsage name).has m = true → (other.enumerationUsage name).has m = true :=
  Usage.has_mono h _ m

theorem targetUsage_mono (name : String) (m : Multiplicity) :
    (model.targetUsage name).has m = true → (other.targetUsage name).has m = true :=
  Usage.has_mono h _ m

theorem any_scalarUsage_mono (type : ScalarType) (hu : (model.scalarUsage type).any = true) :
    (other.scalarUsage type).any = true := by
  obtain ⟨m, hm⟩ := Usage.any_iff.mp hu
  exact Usage.any_iff.mpr ⟨m, scalarUsage_mono h type m hm⟩

theorem scalarTypes_sublist : model.scalarTypes.Sublist other.scalarTypes :=
  List.monotone_filter_right _ (any_scalarUsage_mono h)

end

section
variable {other : DataModel} (h : ∀ field, field ∈ model.allFields ↔ field ∈ other.allFields)
include h

/-- Names that fields give are a set, in which the same fields give the same names. -/
theorem ofList_filterMap_congr (name? : Field → Option String) :
    NameSet.ofList (model.allFields.filterMap name?) = NameSet.ofList (other.allFields.filterMap name?) :=
  NameSet.ofList_congr fun name => by simp only [List.mem_filterMap, h]

theorem targets_congr (m : Multiplicity) : model.targets m = other.targets m :=
  NameSet.ofList_congr fun name => by simp only [List.mem_filterMap, List.mem_filter, h]

theorem scalarUsage_congr : model.scalarUsage = other.scalarUsage :=
  funext fun _ => Usage.ofFields_congr h _

theorem enumerationUsage_congr : model.enumerationUsage = other.enumerationUsage :=
  funext fun _ => Usage.ofFields_congr h _

/-- The report depends on which fields there are. -/
theorem facts_congr : Facts.ofModel model = Facts.ofModel other := by
  have henumerations : model.enumerationsUsed = other.enumerationsUsed := ofList_filterMap_congr h _
  have htags : model.unrecognizedTags = other.unrecognizedTags := ofList_filterMap_congr h _
  have htypes : model.scalarTypes = other.scalarTypes := by
    rw [scalarTypes, scalarTypes, scalarUsage_congr h]
  rw [Facts.ofModel, Facts.ofModel, targets_congr h, targets_congr h, targets_congr h, henumerations, htags, htypes,
    scalarUsage_congr h, enumerationUsage_congr h]

end

end DataModel

end DataShapes
