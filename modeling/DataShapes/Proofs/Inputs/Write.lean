import DataShapes.Proofs.Graph.Reverse
import DataShapes.Proofs.Inputs.Query

/-! # References of payloads

A payload refers to values and operations for value fields and to nested writes for relation fields; the
nested writes of a field refer to each other, to conditions and lookups of the target, and, where records
are written whole, to the nested writes of the fields of the target. -/

namespace DataShapes

/-! ### Roles -/

namespace NestedRole
variable {field : Field} {bulkAllowed : Bool}

/-- The role that a payload gives to a relation field is among those that are built for the field. -/
theorem mem_all_of_nestedRole? {purpose : Purpose} {form : Form} {before after : String}
    (h : Payload.nestedRole? purpose form field.multiplicity = some (before, after)) :
    .record before after ∈ all field bulkAllowed := by
  unfold Field.multiplicity at h
  unfold all creations changes Field.multiplicity
  cases hlist : field.isList with
  | true =>
    rw [hlist] at h
    cases purpose <;> cases form <;> cases h <;> simp
  | false =>
    rw [hlist] at h
    cases hrequired : field.isRequired <;> rw [hrequired] at h <;>
      cases purpose <;> cases form <;> cases h <;> simp

end NestedRole

/-! ### Value fields -/

theorem Payload.within_updatedSingle {names : String → Prop} {value : Schema} {operations : Option String}
    {nullable : Bool} (hv : value.Within names) (ho : ∀ name, operations = some name → names name) :
    (updatedSingle value operations nullable).Within names := by
  refine Filter.within_orNull.mpr ?_
  cases operations with
  | none => exact hv
  | some name => simp [hv, ho name rfl]

/-- A payload has no property for the field that it leaves out. -/
theorem Payload.notMem_properties {graph : Graph} {purpose : Purpose} {form : Form} {entity : Entity} {omitted : Field}
    {schema : Schema} : (omitted.name, schema) ∉ properties graph purpose form entity (some omitted) := by
  intro h
  obtain ⟨field, -, hs, hn⟩ := Entity.mem_propertiesOf.mp h
  have hn : omitted.name = field.name := hn.symm
  simp [ofField?, hn] at hs

namespace DataModel
variable {model : DataModel} {names : String → Prop}

section
variable (hs : model.Supplies names) (hm : model.Resolved) {field : Field} (hf : field ∈ model.allFields)
  {schema : Schema}
include hs hm hf

theorem Supplies.within_created? (h : Payload.created? field = some schema) : schema.Within names := by
  obtain ⟨value, hv, rfl⟩ := Option.map_eq_some_iff.mp h
  have hvalue : value.Within names := hs.values.within_value? hm hf hv
  cases field.multiplicity with
  | list | nullable => simp [hvalue]
  | required => cases field.isOmittable <;> simp [hvalue]

theorem Supplies.operationsName? (hlist : field.isList = false) {name : String}
    (h : Payload.operationsName? field (field.multiplicity == .nullable) = some name) : names name := by
  have hmul : field.multiplicity ≠ .list := fun hl => by
    rw [Field.multiplicity_eq_list.mp hl] at hlist
    cases hlist
  unfold Payload.operationsName? at h
  split at h
  · next type hk =>
    have ht : field.scalarType? = some type := by simp [Field.scalarType?, hk]
    exact hs.scalarOperations (has_scalarUsage_of_mem hf ht) hmul h
  · next other hk =>
    cases h
    have hn : field.enumeration? = some other := by simp [Field.enumeration?, hk]
    obtain ⟨enumeration, he, rfl⟩ := hm.exists_enumeration hf hn
    exact hs.enumerationOperations he (has_enumerationUsage_of_mem hf hn) hmul
  · cases h

theorem Supplies.within_updated? (h : Payload.updated? field = some schema) : schema.Within names := by
  simp only [Payload.updated?, Option.bind_eq_bind, Option.bind_eq_some_iff, Option.pure_def,
    Option.some.injEq] at h
  obtain ⟨single, hone, many, hmany, rfl⟩ := h
  have hsingle : single.Within names := hs.values.within_single? hm hf hone
  have hmany : many.Within names := hs.values.within_many? hm hf hmany
  cases hlist : field.isList with
  | true => simp [Payload.updatedList, hsingle, hmany]
  | false =>
    rw [if_neg (by simp)]
    exact Payload.within_updatedSingle hsingle fun name hn => hs.operationsName? hm hf hlist hn

theorem Supplies.within_valueOf? {purpose : Purpose} (h : Payload.valueOf? purpose field = some schema) :
    schema.Within names := by
  cases purpose with
  | create => exact hs.within_created? hm hf h
  | update => exact hs.within_updated? hm hf h

end

/-! ### Payloads -/

/-- Under these names the nested writes are declared through which payloads write relations. -/
def SuppliesNested (model : DataModel) (names : String → Prop) : Prop :=
  ∀ entity ∈ model.entities, ∀ field ∈ entity.relationFields, ∀ edge : Edge,
    (Graph.ofModel model).edge? entity field = some edge → ∀ purpose form before after,
      Payload.nestedRole? purpose form field.multiplicity = some (before, after) →
        names ((NestedNames.ofEdge edge).role before after)

theorem suppliesNested_provides : model.SuppliesNested model.Provides := by
  intro entity he field hf edge hedge purpose form before after hrole
  exact provides_nestedRole he hf hedge (NestedRole.mem_all_of_nestedRole? hrole)

section
variable (hs : model.Supplies names) (hn : model.SuppliesNested names) {entity : Entity} (he : entity ∈ model.entities)
include he

include hn in
theorem SuppliesNested.within_nested? {purpose : Purpose} {form : Form} {field : Field}
    (hf : field ∈ entity.relationFields) {edge : Edge} (hedge : (Graph.ofModel model).edge? entity field = some edge)
    {schema : Schema} (h : Payload.nested? purpose form field edge = some schema) : schema.Within names := by
  obtain ⟨⟨before, after⟩, hrole, rfl⟩ := Option.map_eq_some_iff.mp h
  have hname : names (Naming.without edge.target.name before edge.reverse.name after) :=
    hn entity he field hf edge hedge purpose form before after hrole
  cases Payload.mustState purpose field.multiplicity <;> simp [hname]

include hs hn

theorem Supplies.within_ofField? (hm : model.Resolved) {purpose : Purpose} {form : Form} {omitted : Option Field}
    {field : Field} (hf : field ∈ entity.fields) {schema : Schema}
    (h : Payload.ofField? (Graph.ofModel model) purpose form entity omitted field = some schema) :
    schema.Within names := by
  unfold Payload.ofField? at h
  split at h
  · cases h
  · split at h
    · next hrelation =>
      obtain ⟨edge, hedge, h⟩ := Option.bind_eq_some_iff.mp h
      exact hn.within_nested? he (List.mem_filter.mpr ⟨hf, hrelation⟩) hedge h
    · split at h
      · cases h
      · exact hs.within_valueOf? hm (mem_allFields_of_mem he hf) h

/-- A payload of an entity of the model refers to values and nested writes, whichever relation it leaves out. -/
theorem Supplies.within_properties (hm : model.Resolved) (purpose : Purpose) (form : Form) (omitted : Option Field) :
    (Schema.strictObject (Payload.properties (Graph.ofModel model) purpose form entity omitted)).Within names :=
  .object (Entity.within_propertiesOf fun _ hf _ h => hs.within_ofField? hn he hm hf h)

omit hn in
theorem Supplies.within_bulkProperties (hm : model.Resolved) (purpose : Purpose) (form : Form)
    (omitted : Option Field) :
    (Schema.strictObject (Payload.bulkProperties purpose form entity omitted)).Within names := by
  refine .object (Entity.within_propertiesOf fun field hf _ h => ?_)
  have hf : field ∈ entity.fields := Entity.mem_of_mem_valueFields (List.mem_filter.mp hf).1
  exact hs.within_valueOf? hm (mem_allFields_of_mem he hf) h

/-- The payloads of an entity refer to values and nested writes. -/
theorem Supplies.within_of_mem_payloads (hm : model.Resolved) {d : Declaration}
    (hd : d ∈ entity.createInputs (Graph.ofModel model) ++ entity.updateInputs (Graph.ofModel model)) :
    d.schema.Within names := by
  obtain ⟨purpose, form, hschema | hschema⟩ := Entity.payload_cases hd
  · rw [hschema]
    exact hs.within_properties hn he hm purpose form none
  · rw [hschema]
    exact hs.within_bulkProperties he hm purpose form none

end

end DataModel

end DataShapes
