import DataShapes.Proofs.Acceptance.Conditions
import DataShapes.Proofs.Acceptance.Payloads

/-! # Where `null` is taken

A value field takes `null` when it is nullable, and a value of an unrecognized type may be anything. Nothing else lets
`null` in: not a filter or an operation that a schema refers to, not the members of an enumeration, and not JSON values,
of which `null` is one only inside others. -/

namespace DataShapes

/-! ### Values -/

namespace Field

/-- The type of the field is not known, so its values may be anything. -/
def IsUnrecognized (field : Field) : Prop := ∃ tag, field.scalarType? = some (.unrecognized tag)

/-- The field may be `null`: it is nullable, or one value of an unrecognized type. -/
def HoldsNull (field : Field) : Prop :=
  field.multiplicity = .nullable ∨ field.isList = false ∧ field.IsUnrecognized

end Field

namespace DataModel
variable {model : DataModel}

section
variable {name : String}

theorem not_accepts_null_strictObject {properties : List (String × Schema)} :
    ¬ model.document.Accepts (.strictObject properties) .null := by
  rw [Document.accepts_strictObject]
  rintro ⟨entries, h, -⟩
  cases h

/-- A name that declares objects does not take `null`. -/
theorem DropsNothing.not_accepts_null_ref (hd : model.DropsNothing) {properties : List (String × Schema)}
    (hn : ⟨name, .strictObject properties⟩ ∈ model.inputs) : ¬ model.document.Accepts (.ref name) .null := by
  rw [(guarded_document model).accepts_ref_of_find? (hd.find?_input hn)]
  exact not_accepts_null_strictObject

end

section
variable (hd : model.DropsNothing) (hm : model.Resolved) {field : Field} (hf : field ∈ model.allFields)
include hd hf

/-- JSON values are not `null`, and nothing else is but where the type is unrecognized. -/
theorem DropsNothing.accepts_null_single {type : ScalarType} (ht : field.scalarType? = some type) :
    model.document.Accepts type.single .null ↔ ∃ tag, type = .unrecognized tag := by
  have hguarded : model.document.Guarded := guarded_document model
  cases type with
  | json =>
    have hu : (model.scalarUsage .json).any = true := Usage.any_iff.mpr ⟨_, has_scalarUsage_of_mem hf ht⟩
    have hinput : ⟨Naming.inputJsonValue, .union (Primitives.jsonLeaves ++ Primitives.jsonContainers)⟩ ∈ model.inputs :=
      mem_inputs_of_shared (by simp [sharedInputs, Primitives.declarations, Primitives.json, hu])
    rw [ScalarType.single, hguarded.accepts_ref_of_find? (hd.find?_input hinput), hguarded.accepts_union]
    simp [Primitives.jsonLeaves, Primitives.jsonContainers, Document.accepts_leaf, Document.accepts_array,
      Document.accepts_record, Leaf.admits]
  | _ => simp [ScalarType.single, Document.accepts_leaf, hguarded.accepts_union, Leaf.admits]

omit hd hf in
theorem not_accepts_null_many {type : ScalarType} : ¬ model.document.Accepts type.many .null := by
  have hguarded : model.document.Guarded := guarded_document model
  cases type <;> simp [ScalarType.many, Document.accepts_array, hguarded.accepts_union]

include hm

theorem DropsNothing.not_accepts_null_enumeration {name : String} (hn : field.enumeration? = some name) :
    ¬ model.document.Accepts (.ref (Naming.enumeration name)) .null := by
  obtain ⟨enumeration, he, rfl⟩ := hm.exists_enumeration hf hn
  have hinput : enumeration.declaration ∈ model.inputs := mem_inputs_of_enumeration he List.mem_cons_self
  have hfind : model.document.find? (Naming.enumeration enumeration.name) = some enumeration.declaration :=
    hd.find?_input hinput
  rw [(guarded_document model).accepts_ref_of_find? hfind, Enumeration.declaration, Document.accepts_enumeration]
  rintro ⟨s, -, h⟩
  cases h

theorem DropsNothing.accepts_null_single? {schema : Schema} (hs : field.single? = some schema) :
    model.document.Accepts schema .null ↔ field.IsUnrecognized := by
  unfold Field.single? at hs
  split at hs
  · next type hk =>
    cases hs
    have ht : field.scalarType? = some type := by simp [Field.scalarType?, hk]
    rw [hd.accepts_null_single hf ht, Field.IsUnrecognized, ht]
    simp only [Option.some.injEq]
  · next name hk =>
    cases hs
    refine iff_of_false (hd.not_accepts_null_enumeration hm hf (by simp [Field.enumeration?, hk])) ?_
    simp [Field.IsUnrecognized, Field.scalarType?, hk]
  · cases hs

omit hd hf hm in
theorem not_accepts_null_many? {schema : Schema} (hs : field.many? = some schema) :
    ¬ model.document.Accepts schema .null := by
  unfold Field.many? at hs
  split at hs
  · cases hs
    exact not_accepts_null_many
  · cases hs
    simp [Document.accepts_array]
  · cases hs

theorem DropsNothing.accepts_null_value? {schema : Schema} (hs : field.value? = some schema) :
    model.document.Accepts schema .null ↔ field.isList = false ∧ field.IsUnrecognized := by
  unfold Field.value? at hs
  split at hs
  · next hl => exact iff_of_false (not_accepts_null_many? hs) fun h => by simp [hl] at h
  · next hl =>
    rw [Bool.not_eq_true] at hl
    rw [hd.accepts_null_single? hm hf hs]
    simp [hl]

/-! ### Filters and operations -/

theorem DropsNothing.not_accepts_null_filter {name : String} (hn : Condition.filterName? field = some name) :
    ¬ model.document.Accepts (.ref name) .null := by
  unfold Condition.filterName? at hn
  split at hn
  · next type hk =>
    have ht : field.scalarType? = some type := by simp [Field.scalarType?, hk]
    have hinput : ⟨name, Filter.ofScalar type field.multiplicity name⟩ ∈ model.inputs :=
      mem_inputs_of_shared (by simp [sharedInputs, mem_scalarFilters (has_scalarUsage_of_mem hf ht) hn])
    cases hmul : field.multiplicity <;> rw [hmul] at hinput <;> exact hd.not_accepts_null_ref hinput
  · next enumeration hk =>
    cases hn
    have henum : field.enumeration? = some enumeration := by simp [Field.enumeration?, hk]
    obtain ⟨enumeration, he, rfl⟩ := hm.exists_enumeration hf henum
    have hinput := mem_inputs_of_enumeration he (mem_enumerationFilters (has_enumerationUsage_of_mem hf henum))
    cases hmul : field.multiplicity <;> rw [hmul] at hinput <;> exact hd.not_accepts_null_ref hinput
  · cases hn

theorem DropsNothing.not_accepts_null_operations (hl : field.isList = false) {name : String}
    (hn : Payload.operationsName? field (field.multiplicity == .nullable) = some name) :
    ¬ model.document.Accepts (.ref name) .null := by
  have hmul : field.multiplicity ≠ .list := by simp [Field.multiplicity_eq_list, hl]
  unfold Payload.operationsName? at hn
  split at hn
  · next type hk =>
    have ht : field.scalarType? = some type := by simp [Field.scalarType?, hk]
    have hinput : ⟨name, Operation.ofScalar type (field.multiplicity == .nullable)⟩ ∈ model.inputs :=
      mem_inputs_of_shared (by simp [sharedInputs, mem_scalarOperations (has_scalarUsage_of_mem hf ht) hmul hn])
    exact hd.not_accepts_null_ref hinput
  · next enumeration hk =>
    cases hn
    have henum : field.enumeration? = some enumeration := by simp [Field.enumeration?, hk]
    obtain ⟨enumeration, he, rfl⟩ := hm.exists_enumeration hf henum
    exact hd.not_accepts_null_ref (mem_inputs_of_enumeration he
      (mem_enumerationOperations (has_enumerationUsage_of_mem hf henum) hmul))
  · cases hn

omit hd hf hm in
/-- Every known type has a filter. -/
theorem filterName?_eq_none_iff {value : Schema} (hv : field.value? = some value) :
    Condition.filterName? field = none ↔ field.IsUnrecognized := by
  unfold Condition.filterName? Field.IsUnrecognized Field.scalarType?
  cases hk : field.kind with
  | scalar type => cases type <;> simp [Naming.scalarFilter?, ScalarType.stem?]
  | enumeration name => simp
  | relation relation => simp [Field.value?, Field.single?, Field.many?, hk] at hv

/-! ### Properties of a field -/

theorem DropsNothing.accepts_null_readValue? {schema : Schema} (hs : Entity.readValue? field = some schema) :
    model.document.Accepts schema .null ↔ field.HoldsNull := by
  obtain ⟨value, hv, rfl⟩ := Option.map_eq_some_iff.mp hs
  rw [Field.HoldsNull]
  split
  · next hnull => simp [hnull, Document.accepts_nullish]
  · next hnull =>
    rw [hd.accepts_null_value? hm hf hv]
    simp [hnull]

theorem DropsNothing.accepts_null_created? {schema : Schema} (hs : Payload.created? field = some schema) :
    model.document.Accepts schema .null ↔ field.HoldsNull := by
  have hguarded : model.document.Guarded := guarded_document model
  obtain ⟨value, hv, rfl⟩ := Option.map_eq_some_iff.mp hs
  have hvalue := hd.accepts_null_value? hm hf hv
  rw [Field.HoldsNull]
  cases hmul : field.multiplicity with
  | list =>
    have hl := Field.multiplicity_eq_list.mp hmul
    simp [Document.accepts_optional, hguarded.accepts_union, hvalue, hl, not_accepts_null_strictObject]
  | nullable => simp [Document.accepts_optional, Document.accepts_nullable]
  | required => cases field.isOmittable <;> simp [Document.accepts_optional, hvalue]

theorem DropsNothing.accepts_null_updated? {schema : Schema} (hs : Payload.updated? field = some schema) :
    model.document.Accepts schema .null ↔ field.HoldsNull := by
  have hguarded : model.document.Guarded := guarded_document model
  simp only [Payload.updated?, Option.bind_eq_bind, Option.bind_eq_some_iff, Option.pure_def, Option.some.injEq] at hs
  obtain ⟨single, hsingle, many, hmany, rfl⟩ := hs
  rw [Field.HoldsNull]
  cases hl : field.isList with
  | true =>
    have hmul := Field.multiplicity_eq_list.mpr hl
    simp [Payload.updatedList, Document.accepts_optional, hguarded.accepts_union, not_accepts_null_many? hmany,
      not_accepts_null_strictObject, hmul]
  | false =>
    have hvalue := hd.accepts_null_single? hm hf hsingle
    simp only [Bool.false_eq_true, ↓reduceIte, Payload.updatedSingle, Document.accepts_orNull, beq_iff_eq, and_true]
    cases hop : Payload.operationsName? field (field.multiplicity == .nullable) with
    | none => simp [hvalue, or_iff_not_imp_left]
    | some name =>
      have hname := hd.not_accepts_null_operations hm hf hl hop
      have harms : model.document.Accepts (.union [single, .ref name]) .null ↔ field.IsUnrecognized := by
        simp [hguarded.accepts_union, hvalue, hname]
      simp [harms, or_iff_not_imp_left]

theorem DropsNothing.accepts_null_valueOf? {purpose : Purpose} {schema : Schema}
    (hs : Payload.valueOf? purpose field = some schema) : model.document.Accepts schema .null ↔ field.HoldsNull := by
  cases purpose with
  | create => exact hd.accepts_null_created? hm hf hs
  | update => exact hd.accepts_null_updated? hm hf hs

theorem DropsNothing.accepts_null_onValue? {schema : Schema} (hs : Condition.onValue? field = some schema) :
    model.document.Accepts schema .null ↔ field.multiplicity = .nullable ∨ field.IsUnrecognized := by
  have hguarded : model.document.Guarded := guarded_document model
  obtain ⟨value, hv, rfl⟩ := Option.map_eq_some_iff.mp hs
  have hvalue := hd.accepts_null_value? hm hf hv
  cases hfilter : Condition.filterName? field with
  | none =>
    have hu := (filterName?_eq_none_iff hv).mp hfilter
    simp [Document.accepts_optional, Document.accepts_leaf, Leaf.admits, hu]
  | some name =>
    have hu : ¬ field.IsUnrecognized := fun h => by
      rw [(filterName?_eq_none_iff hv).mpr h] at hfilter
      cases hfilter
    have hname := hd.not_accepts_null_filter hm hf hfilter
    cases field.multiplicity with
    | required => simp [Document.accepts_optional, hguarded.accepts_union, hname, hvalue, hu]
    | nullable => simp [Document.accepts_optional, Document.accepts_nullable]
    | list => simp [Document.accepts_optional, hname, hu]

end

end DataModel

/-! ### Objects -/

/-- The property under a key, if the schema is an object that has one; the first of several. -/
def Schema.property? : Schema → String → Option Schema
  | .object properties _, key => properties.lookup key
  | _, _ => none

namespace Document
variable {d : Document} {properties : List (String × Schema)} {strict : Bool} {key : String}

/-- The property under a key takes `null`. -/
def TakesNullAt (d : Document) (schema : Schema) (key : String) : Prop :=
  ∃ property, schema.property? key = some property ∧ d.Accepts property .null

theorem mem_of_lookup {property : Schema} (h : properties.lookup key = some property) :
    (key, property) ∈ properties := by
  obtain ⟨before, after, rfl, -⟩ := List.lookup_eq_some_iff.mp h
  exact List.mem_append_right _ List.mem_cons_self

theorem exists_lookup (h : key ∈ properties.map (·.1)) : ∃ property, properties.lookup key = some property := by
  obtain ⟨p, hp, rfl⟩ := List.mem_map.mp h
  exact Option.isSome_iff_exists.mp (List.lookup_isSome_iff.mpr ⟨p, hp, BEq.rfl⟩)

/-- What all properties under a key do, the first one does. -/
theorem takesNullAt_iff {P : Prop} (hkey : key ∈ properties.map (·.1))
    (h : ∀ schema, (key, schema) ∈ properties → (d.Accepts schema .null ↔ P)) :
    d.TakesNullAt (.object properties strict) key ↔ P := by
  obtain ⟨property, hproperty⟩ := exists_lookup hkey
  rw [← h property (mem_of_lookup hproperty)]
  constructor
  · rintro ⟨other, hother, hnull⟩
    obtain rfl := Option.some.inj (hproperty.symm.trans hother)
    exact hnull
  · exact fun hnull => ⟨property, hproperty, hnull⟩

/-- Only where `null` is taken may an object have it. -/
theorem Accepts.takesNullAt {entries : List (String × Json)}
    (h : d.Accepts (.object properties strict) (.object entries)) (hkey : key ∈ properties.map (·.1))
    (hnull : Json.entry? entries key = some .null) : d.TakesNullAt (.object properties strict) key := by
  obtain ⟨property, hproperty⟩ := exists_lookup hkey
  obtain ⟨_, heq, -, hfits⟩ := accepts_object.mp h
  cases heq
  exact ⟨property, hproperty, hfits.present _ (mem_of_lookup hproperty) .null hnull⟩

end Document

section
variable {entity : Entity} (hn : entity.fieldNames.Nodup) {fields : List Field}
  (hfields : ∀ field ∈ fields, field ∈ entity.fields) {schema? : Field → Option Schema} {field : Field}
  (hf : field ∈ entity.fields)
include hn hfields hf

/-- Among distinct names what stands under the name of a field belongs to the field. -/
theorem Entity.schema?_of_mem_propertiesOf {schema : Schema} (h : (field.name, schema) ∈ propertiesOf fields schema?) :
    schema? field = some schema := by
  obtain ⟨other, hother, hs, hname⟩ := mem_propertiesOf.mp h
  obtain rfl : other = field := List.inj_on_of_nodup_map hn (hfields other hother) hf hname
  exact hs

theorem Document.takesNullAt_propertiesOf {d : Document} {strict : Bool} {P : Prop}
    (hkey : field.name ∈ (Entity.propertiesOf fields schema?).map (·.1))
    (h : ∀ schema, schema? field = some schema → (d.Accepts schema .null ↔ P)) :
    d.TakesNullAt (.object (Entity.propertiesOf fields schema?) strict) field.name ↔ P :=
  takesNullAt_iff hkey fun _ hmem => h _ (Entity.schema?_of_mem_propertiesOf hn hfields hf hmem)

end

/-- Of a value field a payload says nothing but what is written to it. -/
theorem Payload.valueOf?_of_ofField? {graph : Graph} {purpose : Purpose} {form : Form} {entity : Entity}
    {omitted : Option Field} {field : Field} (hf : field ∈ entity.valueFields) {schema : Schema}
    (hs : ofField? graph purpose form entity omitted field = some schema) : valueOf? purpose field = some schema := by
  unfold ofField? at hs
  rw [if_neg (by simp [Entity.isRelation_of_mem_valueFields hf] : ¬ field.isRelation = true)] at hs
  split at hs
  · cases hs
  · split at hs
    · cases hs
    · exact hs

namespace DataModel
variable {model : DataModel}

/-- A condition has connectives, too. They come first and take conditions only. -/
theorem DropsNothing.takesNullAt_condition (hd : model.DropsNothing) {name key : String} {fields : List Field}
    {schema? : Field → Option Schema}
    (hinput : ⟨name, .strictObject (Condition.connectives name ++ Entity.propertiesOf fields schema?)⟩ ∈ model.inputs)
    (hkey : key ∈ (Entity.propertiesOf fields schema?).map (·.1)) {P : Prop}
    (h : ∀ schema, (key, schema) ∈ Entity.propertiesOf fields schema? → (model.document.Accepts schema .null ↔ P)) :
    model.document.TakesNullAt (.strictObject (Condition.connectives name ++ Entity.propertiesOf fields schema?)) key ↔
      P ∧ key ∉ ["AND", "OR", "NOT"] := by
  by_cases hc : key ∈ ["AND", "OR", "NOT"]
  · refine iff_of_false ?_ fun h => h.2 hc
    rintro ⟨property, hproperty, hnull⟩
    have hconnective : key ∈ (Condition.connectives name).map (·.1) := hc
    obtain ⟨first, hfirst⟩ := Document.exists_lookup hconnective
    rw [Schema.strictObject, Schema.property?, List.lookup_append, hfirst, Option.some_or] at hproperty
    cases hproperty
    -- So the connective is asked, which takes conditions: arrays, or objects under the name of this very condition.
    rcases (guarded_document model).accepts_connectives.mp ⟨property, Document.mem_of_lookup hfirst, hnull⟩ with
      ⟨-, items, hitems, -⟩ | ⟨-, hself⟩
    · cases hitems
    · exact hd.not_accepts_null_ref hinput hself
  · have hfield : ∀ schema, (key, schema) ∈ Condition.connectives name ++ Entity.propertiesOf fields schema? →
        (model.document.Accepts schema .null ↔ P) := by
      intro schema hmem
      rcases List.mem_append.mp hmem with hmem | hmem
      · have hconnective : key ∈ (Condition.connectives name).map (·.1) := List.mem_map_of_mem hmem
        exact absurd hconnective hc
      · exact h schema hmem
    have hmem : key ∈ (Condition.connectives name ++ Entity.propertiesOf fields schema?).map (·.1) := by
      rw [List.map_append]
      exact List.mem_append_right _ hkey
    rw [Schema.strictObject, Document.takesNullAt_iff hmem hfield]
    simp [hc]

section
variable (hv : model.validate = .ok ()) (hd : model.DropsNothing) {entity : Entity} (he : entity ∈ model.entities)
  {field : Field} (hf : field ∈ entity.valueFields)
include hv hd he hf

theorem takesNullAt_where {name : String} {fields : List Field} {schema? : Field → Option Schema}
    (hinput : ⟨name, .strictObject (Condition.connectives name ++ Entity.propertiesOf fields schema?)⟩ ∈ model.inputs)
    (hfields : ∀ field ∈ fields, field ∈ entity.fields) (hmem : field ∈ fields)
    (hs : schema? field = Condition.onValue? field) :
    model.document.TakesNullAt (.strictObject (Condition.connectives name ++ Entity.propertiesOf fields schema?))
      field.name ↔ (field.multiplicity = .nullable ∨ field.IsUnrecognized) ∧ field.name ∉ ["AND", "OR", "NOT"] := by
  have hn : entity.fieldNames.Nodup := (namedApart_of_validate hv).fields entity he
  have hsome : (schema? field).isSome = true := by
    rw [hs, Condition.onValue?, Option.isSome_map]
    exact Entity.isSome_value?_of_mem hf
  have hkey : field.name ∈ (Entity.propertiesOf fields schema?).map (·.1) :=
    (Entity.name_mem_keys_iff hn (hfields field hmem) hfields).mpr ⟨hmem, hsome⟩
  refine hd.takesNullAt_condition hinput hkey fun schema hschema => ?_
  have hown := Entity.schema?_of_mem_propertiesOf hn hfields (hfields field hmem) hschema
  exact hd.accepts_null_onValue? (resolved_of_validate hv) (mem_allFields_of_mem he (hfields field hmem)) (hs ▸ hown)

theorem takesNullAt_conditions :
    ∀ d ∈ entity.whereInput :: entity.groupWhere :: entity.bulkWhere (model.targetUsage entity.name),
      (model.document.TakesNullAt d.schema field.name ↔
        (field.multiplicity = .nullable ∨ field.IsUnrecognized) ∧ field.name ∉ ["AND", "OR", "NOT"]) := by
  have hvalues : ∀ field ∈ entity.valueFields, field ∈ entity.fields := fun _ => Entity.mem_of_mem_valueFields
  have hinputs : ∀ d ∈ model.queryDeclarations (Graph.ofModel model) entity, d ∈ model.inputs := fun d hd =>
    mem_inputs_of_entity he (by simp [entityInputs, hd])
  refine List.forall_mem_cons.mpr ⟨?_, List.forall_mem_cons.mpr ⟨?_, fun d hbulk => ?_⟩⟩
  · have hrelation : field.relation? = none := by
      simpa [Field.isRelation] using Entity.isRelation_of_mem_valueFields hf
    exact takesNullAt_where hv hd he hf (hinputs _ (by simp [queryDeclarations, Entity.whereInput])) (fun _ => id)
      (hvalues field hf) (by simp [Condition.onField?, hrelation])
  · exact takesNullAt_where hv hd he hf (hinputs _ (by simp [queryDeclarations, Entity.groupWhere, Entity.scalarWhere]))
      hvalues hf rfl
  · have hinput := hinputs d (by simp [queryDeclarations, hbulk])
    unfold Entity.bulkWhere at hbulk
    split at hbulk
    · obtain rfl := List.mem_singleton.mp hbulk
      exact takesNullAt_where hv hd he hf hinput hvalues hf rfl
    · cases hbulk

/-- A value field is `null` in a record read back and in any payload that has it when it may hold `null`. A condition
asks for `null` also in a list of an unrecognized type, but never under the name of a connective. -/
theorem null_taken_iff :
    (model.document.TakesNullAt entity.recordDeclaration.schema field.name ↔ field.HoldsNull) ∧
    (∀ purpose form omitted, ∀ payload ∈ [Payload.properties (Graph.ofModel model) purpose form entity omitted,
        Payload.bulkProperties purpose form entity omitted], field.name ∈ Payload.keys payload →
      (model.document.TakesNullAt (.strictObject payload) field.name ↔ field.HoldsNull)) ∧
    ∀ d ∈ entity.whereInput :: entity.groupWhere :: entity.bulkWhere (model.targetUsage entity.name),
      (model.document.TakesNullAt d.schema field.name ↔
        (field.multiplicity = .nullable ∨ field.IsUnrecognized) ∧ field.name ∉ ["AND", "OR", "NOT"]) := by
  have hm : model.Resolved := resolved_of_validate hv
  have hn : entity.fieldNames.Nodup := (namedApart_of_validate hv).fields entity he
  have hfield : field ∈ entity.fields := Entity.mem_of_mem_valueFields hf
  have hall : field ∈ model.allFields := mem_allFields_of_mem he hfield
  have hvalues : ∀ field ∈ entity.valueFields, field ∈ entity.fields := fun _ => Entity.mem_of_mem_valueFields
  refine ⟨?_, fun purpose form omitted => List.forall_mem_cons.mpr ⟨fun hkey => ?_, List.forall_mem_singleton.mpr
    fun hkey => ?_⟩, takesNullAt_conditions hv hd he hf⟩
  · refine Document.takesNullAt_propertiesOf hn hvalues hfield ?_ fun _ => hd.accepts_null_readValue? hm hall
    rw [Entity.map_key_readValues]
    exact List.mem_map_of_mem hf
  · exact Document.takesNullAt_propertiesOf hn (fun _ => id) hfield hkey fun _ hs =>
      hd.accepts_null_valueOf? hm hall (Payload.valueOf?_of_ofField? hf hs)
  · exact Document.takesNullAt_propertiesOf hn (fun _ h => hvalues _ (List.mem_of_mem_filter h)) hfield hkey fun _ =>
      hd.accepts_null_valueOf? hm hall

end

/-- A gate, with a field that is named like a connective. -/
def gate : Entity :=
  let key := { Field.plain "id" (.scalar .int) with isId := true }
  let connective := { Field.plain "AND" (.scalar .int) with isRequired := false }
  ⟨"Gate", [key, connective, .plain "plan" (.scalar .json)], none, []⟩

def gates : DataModel := ⟨[gate], []⟩

theorem validate_gates : gates.validate = .ok () := by decide

theorem dropsNothing_gates : gates.DropsNothing := by decide +kernel

/-- A gate must have a plan, wherever its plan is written or asked for. -/
theorem gate_plan_not_null : gates.validate = .ok () ∧ gates.DropsNothing ∧ gate ∈ gates.entities ∧
    gate.fields[2] ∈ gate.valueFields ∧
    ¬ gates.document.TakesNullAt gate.recordDeclaration.schema "plan" ∧
    (∀ purpose form, ¬ gates.document.TakesNullAt
      (.strictObject (Payload.bulkProperties purpose form gate none)) "plan") ∧
    ¬ gates.document.TakesNullAt gate.whereInput.schema "plan" := by
  have hgate : gate ∈ gates.entities := List.mem_cons_self
  have hplan : gate.fields[2] ∈ gate.valueFields := by decide
  have hrequired : gate.fields[2].multiplicity ≠ .nullable := by decide
  have hknown : ¬ gate.fields[2].IsUnrecognized := by
    rintro ⟨tag, htag⟩
    cases htag
  have hholds : ¬ gate.fields[2].HoldsNull := not_or.mpr ⟨hrequired, fun h => hknown h.2⟩
  have hkeys : ∀ purpose form, "plan" ∈ Payload.keys (Payload.bulkProperties purpose form gate none) := by
    intro purpose form
    cases purpose <;> cases form <;> decide
  obtain ⟨hrecord, hpayload, hwhere⟩ := null_taken_iff validate_gates dropsNothing_gates hgate hplan
  refine ⟨validate_gates, dropsNothing_gates, hgate, hplan, fun h => hholds (hrecord.mp h), fun purpose form h => ?_,
    fun h => not_or.mpr ⟨hrequired, hknown⟩ ((hwhere _ List.mem_cons_self).mp h).1⟩
  exact hholds ((hpayload purpose form none _ (List.mem_cons_of_mem _ List.mem_cons_self) (hkeys purpose form)).mp h)

/-- The field named like a connective may be `null`, yet no condition on gates has `null` under its name. -/
theorem connective_not_null : gates.validate = .ok () ∧ gates.DropsNothing ∧ gate ∈ gates.entities ∧
    gate.fields[1] ∈ gate.valueFields ∧ gate.fields[1].name = "AND" ∧ gate.fields[1].multiplicity = .nullable ∧
    ¬ gates.document.TakesNullAt gate.whereInput.schema "AND" ∧
    ∀ result, gates.document.parse "GateWhereInputSchema" (.object [("AND", .null)]) ≠ .ok result := by
  have hgate : gate ∈ gates.entities := List.mem_cons_self
  have hfield : gate.fields[1] ∈ gate.valueFields := by decide
  have hinput : gate.whereInput ∈ gates.inputs := mem_inputs_of_entity hgate (by simp [entityInputs, queryDeclarations])
  have hrefused : ¬ gates.document.TakesNullAt gate.whereInput.schema "AND" := fun h =>
    ((takesNullAt_where validate_gates dropsNothing_gates hgate hfield hinput (fun _ => id) (List.getElem_mem _)
      rfl).mp h).2 (by decide)
  refine ⟨validate_gates, dropsNothing_gates, hgate, hfield, rfl, rfl, hrefused, fun result hparse => hrefused ?_⟩
  have haccepted : gates.document.Accepts (.ref gate.whereInput.name) (.object [("AND", .null)]) := ⟨result, hparse⟩
  rw [(guarded_document gates).accepts_ref_of_find? (dropsNothing_gates.find?_input hinput)] at haccepted
  exact haccepted.takesNullAt (by decide) rfl

end DataModel

end DataShapes
