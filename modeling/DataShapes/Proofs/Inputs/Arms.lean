import DataShapes.Proofs.Inputs.Write
import DataShapes.Proofs.Schema.Parts

/-! # Arms of unions

The first arm of a union that accepts decides, and an arm for objects might take an array for one. So arms for arrays
come first, also where an arm is what a field holds: a list may itself be a union of arrays. Here this is shown of
conditions, lookups, orderings, selections and payloads. -/

namespace DataShapes

/-! ### The order of arms -/

namespace Schema

/-- Objects and records, and references, which may lead to either. -/
inductive ObjectLike : Schema → Prop
  | object {properties : List (String × Schema)} {strict : Bool} : ObjectLike (.object properties strict)
  | record {item : Schema} : ObjectLike (.record item)
  | ref {name : String} : ObjectLike (.ref name)

@[simp] theorem not_objectLike_leaf {l : Leaf} : ¬ObjectLike (.leaf l) := nofun

@[simp] theorem not_objectLike_array {item : Schema} : ¬ObjectLike (.array item) := nofun

/-- Arrays, and unions of arrays. -/
inductive Arrays : Schema → Prop
  | array {item : Schema} : Arrays (.array item)
  | union {arms : List Schema} : (∀ arm ∈ arms, Arrays arm) → Arrays (.union arms)

@[simp] theorem arrays_union {arms : List Schema} : Arrays (.union arms) ↔ ∀ arm ∈ arms, Arrays arm :=
  ⟨fun | .union h => h, .union⟩

@[simp] theorem not_arrays_leaf {l : Leaf} : ¬Arrays (.leaf l) := nofun

@[simp] theorem not_arrays_ref {name : String} : ¬Arrays (.ref name) := nofun

@[simp] theorem not_arrays_strictObject {properties : List (String × Schema)} : ¬Arrays (.strictObject properties) :=
  nofun

@[simp] theorem not_arrays_record {item : Schema} : ¬Arrays (.record item) := nofun

/-- If the schema is a union, no arm for objects stands before an arm for arrays. -/
def ArraysFirst (schema : Schema) : Prop :=
  ∀ arms, schema = .union arms → arms.Pairwise fun before after => before.ObjectLike → ¬after.Arrays

@[simp] theorem arraysFirst_union {arms : List Schema} :
    ArraysFirst (.union arms) ↔ arms.Pairwise fun before after => before.ObjectLike → ¬after.Arrays := by
  simp [ArraysFirst]

@[simp] theorem arraysFirst_of_ne {schema : Schema} (h : ∀ arms, schema ≠ .union arms) : ArraysFirst schema :=
  fun arms heq => absurd heq (h arms)

@[simp] theorem arraysFirst_strictObject {properties : List (String × Schema)} :
    ArraysFirst (.strictObject properties) := nofun

theorem arraysFirst_object {properties : List (String × Schema)}
    (h : ∀ p ∈ properties, p.2.Throughout ArraysFirst) : (strictObject properties).Throughout ArraysFirst :=
  throughout_strictObject.mpr ⟨arraysFirst_strictObject, h⟩

@[simp] theorem arraysFirst_oneOrMany {item : Schema} :
    (oneOrMany item).Throughout ArraysFirst ↔ item.Throughout ArraysFirst := by
  simp [oneOrMany]

end Schema

open Schema (ArraysFirst Throughout)

/-! ### Values -/

namespace ScalarType
variable (type : ScalarType)

theorem arraysFirst_single : type.single.Throughout ArraysFirst := by cases type <;> simp [single]

theorem not_arrays_single : ¬type.single.Arrays := by cases type <;> simp [single]

theorem arraysFirst_many : type.many.Throughout ArraysFirst := by cases type <;> simp [many, single]

end ScalarType

namespace Field
variable {field : Field} {value : Schema}

theorem arraysFirst_single? (h : field.single? = some value) : value.Throughout ArraysFirst ∧ ¬value.Arrays := by
  unfold single? at h
  split at h <;> cases h
  · exact ⟨ScalarType.arraysFirst_single _, ScalarType.not_arrays_single _⟩
  · simp

theorem arraysFirst_many? (h : field.many? = some value) : value.Throughout ArraysFirst := by
  unfold many? at h
  split at h <;> cases h
  · exact ScalarType.arraysFirst_many _
  · simp

theorem arraysFirst_value? (h : field.value? = some value) : value.Throughout ArraysFirst := by
  unfold value? at h
  split at h
  · exact arraysFirst_many? h
  · exact (arraysFirst_single? h).1

theorem not_arrays_value? (hlist : field.isList = false) (h : field.value? = some value) : ¬value.Arrays := by
  rw [value?, hlist] at h
  exact (arraysFirst_single? h).2

end Field

theorem Entity.arraysFirst_propertiesOf {fields : List Field} {schema? : Field → Option Schema}
    (h : ∀ field ∈ fields, ∀ schema, schema? field = some schema → schema.Throughout ArraysFirst) :
    ∀ p ∈ propertiesOf fields schema?, p.2.Throughout ArraysFirst := by
  intro p hp
  obtain ⟨field, hf, hs, -⟩ := mem_propertiesOf.mp hp
  exact h field hf p.2 hs

/-! ### Filters and operations -/

namespace Filter

@[simp] theorem arraysFirst_orNull {nullable : Bool} {schema : Schema} :
    (orNull nullable schema).Throughout ArraysFirst ↔ schema.Throughout ArraysFirst := by
  cases nullable <;> simp [orNull]

theorem arraysFirst_each {keys : List String} {schema : Schema} (h : schema.Throughout ArraysFirst) :
    ∀ p ∈ each keys schema, p.2.Throughout ArraysFirst := by
  intro p hp
  obtain ⟨key, -, rfl⟩ := List.mem_map.mp hp
  simp [h]

theorem arraysFirst_ofList {single many : Schema} (hsingle : single.Throughout ArraysFirst)
    (hmany : many.Throughout ArraysFirst) : (ofList single many).Throughout ArraysFirst := by
  simp [ofList, hsingle, hmany]

/-- A negation takes a value or a filter, and no list. -/
theorem arraysFirst_ofSingle {type : ScalarType} {nullable : Bool} {name : String} :
    (ofSingle type nullable name).Throughout ArraysFirst := by
  have hsingle : type.single.Throughout ArraysFirst := type.arraysFirst_single
  refine Schema.arraysFirst_object fun p hp => ?_
  simp only [List.mem_append, List.mem_ite_nil_right, List.mem_cons, List.not_mem_nil, or_false] at hp
  rcases hp with ((((rfl | ⟨-, rfl | rfl⟩) | ⟨-, hp⟩) | ⟨-, hp⟩) | ⟨-, hp⟩) | rfl
  · simp [hsingle]
  · simp [type.arraysFirst_many]
  · simp [type.arraysFirst_many]
  · exact arraysFirst_each hsingle p hp
  · revert p
    simp [textComparisons, each]
  · revert p
    simp [jsonComparisons, each, ScalarType.single]
  · split <;> simp [hsingle]

theorem arraysFirst_ofScalar {type : ScalarType} {m : Multiplicity} {name : String} :
    (ofScalar type m name).Throughout ArraysFirst := by
  cases m with
  | required | nullable => exact arraysFirst_ofSingle
  | list => exact arraysFirst_ofList type.arraysFirst_single type.arraysFirst_many

theorem arraysFirst_ofEnumeration {other name : String} {m : Multiplicity} :
    (ofEnumeration (.ref other) m name).Throughout ArraysFirst := by
  cases m <;> simp [ofEnumeration, ofList]

end Filter

namespace Operation

theorem arraysFirst_ofScalar {type : ScalarType} {nullable : Bool} :
    (ofScalar type nullable).Throughout ArraysFirst := by
  refine Schema.arraysFirst_object fun p hp => ?_
  simp only [setting, List.mem_append, List.mem_ite_nil_right, List.mem_singleton] at hp
  rcases hp with rfl | ⟨-, hp⟩
  · simp [type.arraysFirst_single]
  · exact Filter.arraysFirst_each type.arraysFirst_single p hp

theorem arraysFirst_ofEnumeration {name : String} {nullable : Bool} :
    (ofEnumeration name nullable).Throughout ArraysFirst := by
  simp [ofEnumeration, setting]

end Operation

/-! ### Queries -/

namespace Condition
variable {field : Field} {schema : Schema}

/-- A filter stands before the value, but not before a list of values. -/
theorem arraysFirst_onValue? (h : onValue? field = some schema) : schema.Throughout ArraysFirst := by
  obtain ⟨value, hv, rfl⟩ := Option.map_eq_some_iff.mp h
  have hvalue : value.Throughout ArraysFirst := Field.arraysFirst_value? hv
  have harrays : field.multiplicity ≠ .list → ¬value.Arrays := fun hm =>
    Field.not_arrays_value? (by simpa [Field.multiplicity_eq_list] using hm) hv
  cases filterName? field with
  | none => simp
  | some name =>
    cases hm : field.multiplicity with
    | required | nullable => simp [hvalue, harrays (by simp [hm])]
    | list => simp

theorem arraysFirst_onField? (h : onField? field = some schema) : schema.Throughout ArraysFirst := by
  unfold onField? at h
  split at h
  · cases h
    unfold onRelation
    split <;> simp
  · exact arraysFirst_onValue? h

theorem arraysFirst_connectives {self : String} : ∀ p ∈ connectives self, p.2.Throughout ArraysFirst := by
  simp [connectives]

end Condition

namespace Entity
variable {entity : Entity}

theorem arraysFirst_whereInput : entity.whereInput.schema.Throughout ArraysFirst := by
  refine Schema.arraysFirst_object (List.forall_mem_append.mpr ⟨?_, ?_⟩)
  · exact Condition.arraysFirst_connectives
  · exact arraysFirst_propertiesOf fun field _ _ h => Condition.arraysFirst_onField? h

theorem arraysFirst_scalarWhere {suffix : String} : (entity.scalarWhere suffix).schema.Throughout ArraysFirst := by
  refine Schema.arraysFirst_object (List.forall_mem_append.mpr ⟨?_, ?_⟩)
  · exact Condition.arraysFirst_connectives
  · exact arraysFirst_propertiesOf fun field _ _ h => Condition.arraysFirst_onValue? h

theorem arraysFirst_quantified {keys : List String} {nullable : Bool} :
    (entity.quantified keys nullable).Throughout ArraysFirst := by
  simp [quantified]

theorem arraysFirst_valueOf {name : String} : (entity.valueOf name).Throughout ArraysFirst := by
  unfold valueOf
  cases hv : (entity.field? name).bind (·.value?) with
  | none => simp
  | some value =>
    obtain ⟨field, -, hv⟩ := Option.bind_eq_some_iff.mp hv
    exact Field.arraysFirst_value? hv

theorem arraysFirst_lookupBy {c : UniqueConstraint} : (entity.lookupBy c).Throughout ArraysFirst := by
  have hvalue : (entity.constraintValue c).Throughout ArraysFirst := by
    unfold constraintValue
    split
    · simp [arraysFirst_valueOf]
    · cases c.fields.head? with
      | none => simp
      | some name => exact arraysFirst_valueOf
  simp [lookupBy, hvalue]

/-- All arms of a lookup are objects. -/
theorem arraysFirst_lookup : entity.lookup.Throughout ArraysFirst := by
  unfold lookup
  split
  · simp
  · exact arraysFirst_lookupBy
  · refine Schema.throughout_union.mpr ⟨?_, List.forall_mem_map.mpr fun _ _ => arraysFirst_lookupBy⟩
    refine Schema.arraysFirst_union.mpr (List.pairwise_map.mpr (List.pairwise_of_forall fun _ _ _ => ?_))
    exact Schema.not_arrays_strictObject

theorem arraysFirst_byValue {field : Field} : (Ordering.byValue field).Throughout ArraysFirst := by
  unfold Ordering.byValue Ordering.direction
  split <;> simp

theorem arraysFirst_byField {field : Field} : (Ordering.byField field).Throughout ArraysFirst := by
  unfold Ordering.byField
  split
  · exact arraysFirst_byValue
  · simp

theorem arraysFirst_relationChoices : ∀ p ∈ entity.relationChoices, p.2.Throughout ArraysFirst := by
  have hflag : ∀ name, (Selection.flagOr name).Throughout ArraysFirst := fun name => by
    simp [Selection.flagOr, Selection.flag]
  refine List.forall_mem_append.mpr ⟨arraysFirst_propertiesOf fun field _ schema h => ?_, ?_⟩
  · obtain ⟨relation, -, rfl⟩ := Option.map_eq_some_iff.mp h
    exact hflag _
  · split <;> simp [hflag]

theorem arraysFirst_selection : ∀ p ∈ entity.selection, p.2.Throughout ArraysFirst := by
  unfold selection
  split <;> simp

end Entity

/-! ### Payloads -/

namespace Payload
variable {field : Field} {schema : Schema}

/-- A list stands before the object that sets it. -/
theorem arraysFirst_created? (h : created? field = some schema) : schema.Throughout ArraysFirst := by
  obtain ⟨value, hv, rfl⟩ := Option.map_eq_some_iff.mp h
  have hvalue : value.Throughout ArraysFirst := Field.arraysFirst_value? hv
  cases field.multiplicity with
  | list | nullable => simp [hvalue]
  | required => cases field.isOmittable <;> simp [hvalue]

/-- A list stands before what sets it or appends to it, and before what is appended to it. -/
theorem arraysFirst_updated? (h : updated? field = some schema) : schema.Throughout ArraysFirst := by
  simp only [updated?, Option.bind_eq_bind, Option.bind_eq_some_iff, Option.pure_def, Option.some.injEq] at h
  obtain ⟨single, hone, many, hmany, rfl⟩ := h
  obtain ⟨hsingle, harrays⟩ := Field.arraysFirst_single? hone
  have hmany : many.Throughout ArraysFirst := Field.arraysFirst_many? hmany
  cases hlist : field.isList with
  | true => simp [updatedList, hsingle, harrays, hmany]
  | false =>
    rw [if_neg (by simp)]
    refine Filter.arraysFirst_orNull.mpr ?_
    cases operationsName? field (field.multiplicity == .nullable) <;> simp [hsingle]

theorem arraysFirst_valueOf? {purpose : Purpose} (h : valueOf? purpose field = some schema) :
    schema.Throughout ArraysFirst := by
  cases purpose with
  | create => exact arraysFirst_created? h
  | update => exact arraysFirst_updated? h

theorem arraysFirst_ofField? {graph : Graph} {purpose : Purpose} {form : Form} {entity : Entity}
    {omitted : Option Field} (h : ofField? graph purpose form entity omitted field = some schema) :
    schema.Throughout ArraysFirst := by
  unfold ofField? at h
  split at h
  · cases h
  · split at h
    · obtain ⟨edge, -, h⟩ := Option.bind_eq_some_iff.mp h
      obtain ⟨⟨before, after⟩, -, rfl⟩ := Option.map_eq_some_iff.mp h
      cases mustState purpose field.multiplicity <;> simp
    · split at h
      · cases h
      · exact arraysFirst_valueOf? h

theorem arraysFirst_properties {graph : Graph} {purpose : Purpose} {form : Form} {entity : Entity}
    {omitted : Option Field} :
    (Schema.strictObject (properties graph purpose form entity omitted)).Throughout ArraysFirst :=
  Schema.arraysFirst_object (Entity.arraysFirst_propertiesOf fun _ _ _ h => arraysFirst_ofField? h)

theorem arraysFirst_bulkProperties {purpose : Purpose} {form : Form} {entity : Entity} {omitted : Option Field} :
    (Schema.strictObject (bulkProperties purpose form entity omitted)).Throughout ArraysFirst :=
  Schema.arraysFirst_object (Entity.arraysFirst_propertiesOf fun _ _ _ h => arraysFirst_valueOf? h)

theorem arraysFirst_of_mem_payloads {entity : Entity} {graph : Graph} {d : Declaration}
    (hd : d ∈ entity.createInputs graph ++ entity.updateInputs graph) : d.schema.Throughout ArraysFirst := by
  obtain ⟨purpose, form, hschema | hschema⟩ := Entity.payload_cases hd
  · rw [hschema]
    exact arraysFirst_properties
  · rw [hschema]
    exact arraysFirst_bulkProperties

end Payload

end DataShapes
