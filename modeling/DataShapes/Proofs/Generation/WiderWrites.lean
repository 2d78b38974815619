import DataShapes.Proofs.Generation.Columns
import DataShapes.Shapes.Write.Nested

/-! # Writing records with further columns

A new record may leave out the further fields, and an update may leave out any field. So payloads get wider where
relations lead on to the same reverse fields, and with them the nested writes that go through these relations. -/

namespace DataShapes

/-! ### Payloads -/

/-- A value itself has to be there. -/
theorem Field.acceptsAbsent_value? {field : Field} {value : Schema} (h : field.value? = some value) :
    value.acceptsAbsent = false := by
  unfold Field.value? Field.single? Field.many? at h
  cases hk : field.kind with
  | scalar type => cases hl : field.isList <;> simp only [hk, hl] at h <;> cases h <;> cases type <;> rfl
  | enumeration name => cases hl : field.isList <;> simp only [hk, hl] at h <;> cases h <;> rfl
  | relation relation => cases hl : field.isList <;> simp only [hk, hl] at h <;> cases h

namespace Payload

/-- A new record states the fields that are not omittable. -/
theorem acceptsAbsent_created?_iff {field : Field} {schema : Schema} (hs : created? field = some schema) :
    schema.acceptsAbsent = true ↔ field.isOmittable = true := by
  obtain ⟨value, hv, rfl⟩ := Option.map_eq_some_iff.mp hs
  cases hm : field.multiplicity with
  | list => simp [Schema.acceptsAbsent, Field.isOmittable, Field.multiplicity_eq_list.mp hm]
  | nullable => simp [Schema.acceptsAbsent, Field.isOmittable, Field.multiplicity_eq_nullable.mp hm]
  | required =>
    cases ho : field.isOmittable with
    | true => simp [Schema.acceptsAbsent]
    | false => simp [Field.acceptsAbsent_value? hv]

theorem acceptsAbsent_updated? {field : Field} {schema : Schema} (hs : updated? field = some schema) :
    schema.acceptsAbsent = true := by
  simp only [updated?, Option.bind_eq_bind, Option.bind_eq_some_iff, Option.pure_def, Option.some.injEq] at hs
  obtain ⟨single, -, many, -, rfl⟩ := hs
  split
  · rfl
  · unfold updatedSingle Filter.orNull
    split <;> rfl

theorem acceptsAbsent_valueOf? {purpose : Purpose} {field : Field} (ho : field.isOmittable = true) {schema : Schema}
    (hs : valueOf? purpose field = some schema) : schema.acceptsAbsent = true := by
  cases purpose with
  | create => exact (acceptsAbsent_created?_iff hs).mpr ho
  | update => exact acceptsAbsent_updated? hs

end Payload

/-- The relations of an entity and of a wider one lead to the same reverse fields of an entity and of a wider one. -/
def Graph.WidensAt (graph other : Graph) (entity wider : Entity) : Prop :=
  ∀ field ∈ entity.relationFields, ∃ edge edge', graph.edge? entity field = some edge ∧
    other.edge? wider field = some edge' ∧ edge.target.Widens edge'.target ∧ edge'.reverse = edge.reverse

section
variable {entity wider : Entity} (h : entity.Widens wider)
include h

theorem Payload.hides_eq (form : Form) (omitted : Option Field) :
    hides wider form omitted = hides entity form omitted := by
  funext field
  cases form with
  | checked => exact h.isStorageKey field.name
  | unchecked => rfl

/-- In bulk no relations are written, so only value fields count. -/
theorem Payload.bulkProperties_adds (purpose : Purpose) (form : Form) (omitted : Option Field) :
    Schema.Adds (fun key => ¬ entity.Knows key) (bulkProperties purpose form entity omitted)
      (bulkProperties purpose form wider omitted) := by
  simp only [bulkProperties, hides_eq h]
  exact (h.valueFields.filter _ _ fun _ _ => rfl).propertiesOf (fun _ _ => rfl)
    fun _ hadmits _ => acceptsAbsent_valueOf? hadmits.omittable

theorem Payload.bulkProperties_widens (purpose : Purpose) (form : Form) (omitted : Option Field) :
    (Schema.strictObject (bulkProperties purpose form entity omitted)).Widens
      (.strictObject (bulkProperties purpose form wider omitted)) :=
  Entity.widens_object (bulkProperties_adds h purpose form omitted)
    (Entity.knows_of_mem_propertiesOf fun _ hf => List.mem_of_mem_filter (List.mem_of_mem_filter hf))

variable {graph other : Graph} (hg : graph.WidensAt other entity wider)
include hg

theorem Payload.ofField?_eq (purpose : Purpose) (form : Form) (omitted : Option Field) {field : Field}
    (hf : field ∈ entity.fields) :
    ofField? other purpose form wider omitted field = ofField? graph purpose form entity omitted field := by
  have hnested : field.isRelation = true → (other.edge? wider field).bind (nested? purpose form field) =
      (graph.edge? entity field).bind (nested? purpose form field) := by
    intro hr
    obtain ⟨edge, edge', hedge, hedge', htarget, hreverse⟩ := hg field (List.mem_filter.mpr ⟨hf, hr⟩)
    rw [hedge, hedge', Option.bind_some, Option.bind_some, nested?, nested?, htarget.name, hreverse]
  unfold ofField?
  rw [hides_eq h]
  split
  · rfl
  · split
    · next hr => exact hnested hr
    · rfl

theorem Payload.properties_widens (purpose : Purpose) (form : Form) (omitted : Option Field) :
    (Schema.strictObject (properties graph purpose form entity omitted)).Widens
      (.strictObject (properties other purpose form wider omitted)) := by
  refine Entity.widens_object (h.addsFields.propertiesOf (fun _ => ofField?_eq h hg purpose form omitted) ?_)
    (Entity.knows_of_mem_propertiesOf fun _ hf => hf)
  intro field hadmits schema hs
  unfold ofField? at hs
  rw [hadmits.value] at hs
  split at hs
  · cases hs
  · split at hs
    · next hr => cases hr
    · split at hs
      · cases hs
      · exact acceptsAbsent_valueOf? hadmits.omittable hs

theorem Entity.Widens.createInputs : Declaration.Covered (entity.createInputs graph) (wider.createInputs other) := by
  simp only [Entity.createInputs, h.name]
  exact .cons ⟨rfl, Payload.properties_widens h hg _ _ _⟩ (.cons ⟨rfl, Payload.properties_widens h hg _ _ _⟩
    (.cons ⟨rfl, Payload.bulkProperties_widens h _ _ _⟩ (.refl [])))

theorem Entity.Widens.updateInputs : Declaration.Covered (entity.updateInputs graph) (wider.updateInputs other) := by
  simp only [Entity.updateInputs, h.name]
  exact .cons ⟨rfl, Payload.properties_widens h hg _ _ _⟩ (.cons ⟨rfl, Payload.properties_widens h hg _ _ _⟩
    (.cons ⟨rfl, Payload.bulkProperties_widens h _ _ _⟩
      (.cons ⟨rfl, Payload.bulkProperties_widens h _ _ _⟩ (.refl []))))

/-- The lists that can be counted stay the same. -/
theorem Entity.Widens.countSelection : wider.countSelection other = entity.countSelection graph := by
  have hcountable : wider.countableFields other = entity.countableFields graph := by
    rw [countableFields, countableFields, h.relationFields]
    refine List.filter_congr fun field hf => ?_
    obtain ⟨edge, edge', hedge, hedge', -⟩ := hg field hf
    rw [hedge, hedge', Option.isSome_some, Option.isSome_some]
  have howns : wider.ownsListRelation = entity.ownsListRelation := by
    rw [ownsListRelation, ownsListRelation, h.relationFields]
  simp only [Entity.countSelection, hcountable, howns, h.name]

end

/-! ### Nested writes -/

namespace NestedNames
variable {graph other : Graph} {edge edge' : Edge} (htarget : edge.target.Widens edge'.target)
  (hreverse : edge'.reverse = edge.reverse)
include htarget hreverse

theorem createRows_covered (names : NestedNames) :
    Declaration.Covered (names.createRows edge) (names.createRows edge') := by
  simp only [createRows, hreverse]
  exact .cons ⟨rfl, Payload.bulkProperties_widens htarget _ _ _⟩ (.refl _)

theorem changeMany_covered (names : NestedNames) :
    Declaration.Covered (names.changeMany edge) (names.changeMany edge') := by
  simp only [changeMany, hreverse]
  exact .cons (.refl _) (.cons (.refl _) (.cons (.refl _)
    (.cons ⟨rfl, Payload.bulkProperties_widens htarget _ _ _⟩ (.refl _))))

variable (hg : graph.WidensAt other edge.target edge'.target)
include hg

theorem payload_covered (names : NestedNames) (purpose : Purpose) :
    Declaration.Covered (names.payload graph purpose edge) (names.payload other purpose edge') := by
  simp only [payload, hreverse]
  exact .cons ⟨rfl, Payload.properties_widens htarget hg _ _ _⟩
    (.cons ⟨rfl, Payload.properties_widens htarget hg _ _ _⟩ (.refl _))

theorem creations_covered (names : NestedNames) (field : Field) :
    Declaration.Covered (names.creations graph field edge) (names.creations other field edge') := by
  simp only [creations, hreverse]
  refine ((names.payload_covered htarget hreverse hg .create).append (.refl _)).append ?_
  split
  · exact .append (.ite id (names.createRows_covered htarget hreverse)) (.refl _)
  · exact .refl _

theorem changes_covered (names : NestedNames) (field : Field) :
    Declaration.Covered (names.changes graph field edge) (names.changes other field edge') := by
  simp only [changes, hreverse]
  refine (names.payload_covered htarget hreverse hg .update).append ?_
  split
  · exact .append (names.changeMany_covered htarget hreverse) (.refl _)
  · exact .refl _

end NestedNames

theorem Graph.nestedWrites_covered {graph other : Graph} {entity wider : Entity} {field : Field} {edge edge' : Edge}
    (hedge : graph.edge? entity field = some edge) (hedge' : other.edge? wider field = some edge')
    (htarget : edge.target.Widens edge'.target) (hreverse : edge'.reverse = edge.reverse)
    (hg : graph.WidensAt other edge.target edge'.target) :
    Declaration.Covered (graph.nestedWrites entity field) (other.nestedWrites wider field) := by
  have hnames : NestedNames.ofEdge edge' = NestedNames.ofEdge edge := by
    rw [NestedNames.ofEdge, NestedNames.ofEdge, htarget.name, hreverse]
  simp only [nestedWrites, hedge, hedge', hnames]
  exact (NestedNames.creations_covered htarget hreverse hg _ _).append
    (NestedNames.changes_covered htarget hreverse hg _ _)

end DataShapes
