import DataShapes.Proofs.Acceptance.Null
import DataShapes.Proofs.Generation.Columns
import DataShapes.Proofs.Inputs.Keys
import DataShapes.Proofs.Text.Quoted

/-! # Keys of objects are distinct

An object that a model builds has keys of its own, names of fields, or both. In a model that is accepted no key stands
in it twice, unless a field is named like a key that stands beside it, or a constraint names a field twice; accepted
models may have either, and just there some object repeats a key. -/

namespace DataShapes

open Schema (KeysApart Throughout)

/-! ### Where keys clash -/

namespace Entity

/-- The counts of an entity: of each value field, and of all records. -/
def countInput (entity : Entity) : Declaration :=
  ⟨entity.aggregateName "Count", .strictObject (Aggregate.marks entity.valueFields ++ [("_all", Aggregate.mark)])⟩

/-- Names of the entity give a key twice to an object in the declaration. -/
inductive Clash (entity : Entity) : Declaration → Prop
  /-- Conditions are joined and negated under the name of a field. -/
  | whereInput {field : Field} :
      field ∈ entity.fields → field.name ∈ ["AND", "OR", "NOT"] → Clash entity entity.whereInput
  | scalarWhere {field : Field} {suffix : String} :
      field ∈ entity.valueFields → field.name ∈ ["AND", "OR", "NOT"] → Clash entity (entity.scalarWhere suffix)
  /-- A constraint names a field twice. -/
  | whereUnique {c : UniqueConstraint} :
      c ∈ entity.uniqueConstraints → ¬ c.fields.Nodup → Clash entity entity.whereUnique
  /-- Groups are ordered by an aggregate under the name of a field. -/
  | orderGroupsBy {field : Field} : field ∈ entity.valueFields →
      field.name ∈ entity.orderedAggregates.map (·.1) → Clash entity entity.orderGroupsBy
  /-- Lists are counted under the name of a field. -/
  | fieldSelection {field : Field} : entity.ownsListRelation = true →
      field ∈ entity.fields → field.name = "_count" → Clash entity entity.fieldSelection
  | relationSelection {field : Field} {d : Declaration} : entity.ownsListRelation = true →
      field ∈ entity.relationFields → field.name = "_count" → d ∈ entity.relationSelection → Clash entity d
  /-- All records are counted under the name of a field. -/
  | countInput {field : Field} :
      field ∈ entity.valueFields → field.name = "_all" → Clash entity entity.countInput

end Entity

/-! ### Nested writes -/

namespace NestedNames
variable {names : NestedNames} {graph : Graph} {field : Field} {edge : Edge} {d : Declaration}

theorem keysApart_createMany {before : String} {bulkAllowed : Bool} :
    (names.createMany before bulkAllowed).schema.Throughout KeysApart := by
  cases bulkAllowed <;> simp [createMany, several, bulk, newRecords, roleRef, ofTarget]

theorem keysApart_updateMany {before : String} {bulkAllowed : Bool} :
    (names.updateMany before bulkAllowed).schema.Throughout KeysApart := by
  cases bulkAllowed <;> simp [updateMany, several, bulk, newRecords, roleRef, ofTarget]

theorem keysApart_updateOne {nullable : Bool} : (names.updateOne nullable).schema.Throughout KeysApart := by
  cases nullable <;> simp [updateOne, newRecord, detach, roleRef, ofTarget]

section
variable (hnames : edge.target.fieldNames.Nodup)
include hnames

theorem keysApart_of_mem_payload {purpose : Purpose} (hd : d ∈ names.payload graph purpose edge) :
    d.schema.Throughout KeysApart := by
  simp only [payload, List.mem_cons, List.not_mem_nil, or_false] at hd
  rcases hd with rfl | rfl <;> exact Payload.keysApart_properties hnames

theorem keysApart_of_mem_creations (hd : d ∈ names.creations graph field edge) : d.schema.Throughout KeysApart := by
  simp only [creations, List.mem_append, List.mem_singleton] at hd
  rcases hd with (hd | rfl) | hd
  · exact keysApart_of_mem_payload hnames hd
  · simp [connectOrCreate, newRecord, roleRef, ofTarget]
  · split at hd
    · simp only [createRows, List.mem_append, List.mem_ite_nil_right, List.mem_cons, List.not_mem_nil, or_false] at hd
      rcases hd with ⟨-, rfl | rfl⟩ | rfl | rfl
      · exact Payload.keysApart_bulkProperties hnames
      · simp
      · exact keysApart_createMany
      · exact keysApart_createMany
    · obtain rfl := List.mem_singleton.mp hd
      simp [createOne, newRecord, roleRef, ofTarget]

theorem keysApart_of_mem_changes (hd : d ∈ names.changes graph field edge) : d.schema.Throughout KeysApart := by
  rcases List.mem_append.mp hd with hd | hd
  · exact keysApart_of_mem_payload hnames hd
  · split at hd
    · simp only [changeMany, List.mem_append, List.mem_cons, List.not_mem_nil, or_false] at hd
      rcases hd with (rfl | rfl | rfl | rfl) | rfl | rfl
      · simp [newRecord, changedRecord, roleRef, ofTarget]
      · simp [changedRecord, roleRef, ofTarget]
      · simp [roleRef, ofTarget]
      · exact Payload.keysApart_bulkProperties hnames
      · exact keysApart_updateMany
      · exact keysApart_updateMany
    · simp only [List.mem_cons, List.not_mem_nil, or_false] at hd
      rcases hd with rfl | rfl | rfl
      · simp [upsertOne, newRecord, changedRecord, roleRef, ofTarget]
      · simp [changeOne, changedRecord, roleRef, ofTarget]
      · exact keysApart_updateOne

end

end NestedNames

/-! ### Declarations of a model -/

namespace Entity
variable {entity : Entity} {d : Declaration}

/-- The keys of operations are their own. -/
theorem keysApart_of_mem_operationArguments (hd : d ∈ entity.operationArguments) : d.schema.Throughout KeysApart := by
  obtain ⟨⟨suffix, properties⟩, ho, rfl⟩ := List.mem_map.mp hd
  simp only [operations, List.mem_cons, List.not_mem_nil, or_false, Prod.mk.injEq] at ho
  rcases ho with ⟨-, rfl⟩ | ⟨-, rfl⟩ | ⟨-, rfl⟩ | ⟨-, rfl⟩ | ⟨-, rfl⟩ | ⟨-, rfl⟩ | ⟨-, rfl⟩ | ⟨-, rfl⟩ |
    ⟨-, rfl⟩ | ⟨-, rfl⟩ | ⟨-, rfl⟩ | ⟨-, rfl⟩ | ⟨-, rfl⟩ | ⟨-, rfl⟩
  all_goals
    cases hrelations : entity.hasRelations <;> cases hnumbers : entity.hasNumericFields <;>
      simp [selection, found, distinctWindow, window, matching, page, aggregateChoices, role, either, newRecord,
        changedRecord, hrelations, hnumbers]

theorem keysApart_of_mem_aggregateInputs (hnames : entity.fieldNames.Nodup) (hd : d ∈ entity.aggregateInputs)
    (hclash : ¬ entity.Clash d) : d.schema.Throughout KeysApart := by
  have hvalues := nodup_names_filter hnames (!·.isRelation)
  have hmarks {fields : List Field} (hfields : (fields.map (·.name)).Nodup) :
      (Schema.strictObject (Aggregate.marks fields)).Throughout KeysApart :=
    keysApart_perField hfields fun _ => by simp [Aggregate.mark]
  obtain ⟨⟨aggregate, properties⟩, ha, rfl⟩ := List.mem_map.mp hd
  simp only [aggregates, List.mem_append, List.mem_ite_nil_right, List.mem_cons, List.not_mem_nil, or_false,
    Prod.mk.injEq] at ha
  rcases ha with ((⟨rfl, rfl⟩ | ⟨-, -, rfl⟩) | ⟨-, -, rfl⟩) | ⟨-, rfl⟩ | ⟨-, rfl⟩
  · have hall : ∀ field ∈ entity.valueFields, field.name ∉ ["_all"] := by
      intro field hf hn
      exact hclash (.countInput hf (List.mem_singleton.mp hn))
    refine Schema.throughout_keysApart ?_ (List.forall_mem_append.mpr
      ⟨List.forall_mem_map.mpr fun _ _ => by simp [Aggregate.mark], by simp [Aggregate.mark]⟩)
    rw [List.map_append, Aggregate.marks, List.map_map]
    exact List.nodup_append_comm.mp
      (nodup_append_names (List.nodup_singleton "_all") hvalues (List.Subset.refl _) hall)
  · exact hmarks (nodup_names_filter hnames _)
  · exact hmarks (nodup_names_filter hnames _)
  · exact hmarks (nodup_names_filter hvalues _)
  · exact hmarks (nodup_names_filter hvalues _)

end Entity

theorem Payload.keysApart_of_mem_payloads {entity : Entity} {graph : Graph} {d : Declaration}
    (hnames : entity.fieldNames.Nodup) (hd : d ∈ entity.createInputs graph ++ entity.updateInputs graph) :
    d.schema.Throughout KeysApart := by
  obtain ⟨purpose, form, hschema | hschema⟩ := Entity.payload_cases hd
  · rw [hschema]
    exact keysApart_properties hnames
  · rw [hschema]
    exact keysApart_bulkProperties hnames

namespace DataModel
variable {model : DataModel} {d : Declaration}

theorem keysApart_of_mem_shared (hd : d ∈ model.sharedInputs) : d.schema.Throughout KeysApart := by
  rcases shared_cases hd with hd | ⟨type, -, m, hschema⟩ | ⟨type, -, nullable, hschema⟩
  · simp only [Primitives.declarations, Primitives.ordering, List.mem_append, List.mem_cons, List.not_mem_nil,
      or_false, List.mem_ite_nil_right, Primitives.json] at hd
    rcases hd with (rfl | rfl | rfl | rfl) | ⟨-, rfl | rfl⟩
    all_goals simp [Primitives.jsonLeaves, Primitives.jsonContainers]
  · rw [hschema]
    exact Filter.keysApart_ofScalar
  · rw [hschema]
    exact Operation.keysApart_ofScalar

theorem keysApart_of_mem_enumerationInputs {enumeration : Enumeration}
    (hd : d ∈ model.enumerationInputs enumeration) : d.schema.Throughout KeysApart := by
  rcases enumerationInput_cases hd with rfl | ⟨m, hschema⟩ | ⟨nullable, hschema⟩
  · simp [Enumeration.declaration]
  · rw [hschema]
    exact Filter.keysApart_ofEnumeration
  · rw [hschema]
    exact Operation.keysApart_ofEnumeration

section
variable {entity : Entity} (hnames : entity.fieldNames.Nodup) (hclash : ¬ entity.Clash d)
include hnames hclash

theorem keysApart_of_mem_query {graph : Graph} (hd : d ∈ model.queryDeclarations graph entity) :
    d.schema.Throughout KeysApart := by
  have hvalues := Entity.nodup_names_filter hnames (!·.isRelation)
  simp only [queryDeclarations, Entity.bulkWhere, Entity.orderBySize, List.mem_append, List.mem_cons,
    List.not_mem_nil, or_false, List.mem_ite_nil_right] at hd
  rcases hd with (((((((((rfl | rfl) | hd) | ⟨-, rfl⟩) | rfl | rfl) | ⟨-, rfl⟩) | hd) | rfl | rfl) | hd) | rfl) | hd
  · exact Condition.keysApart_of_names hnames (fun field hf hn => hclash (.whereInput hf hn))
      fun _ _ h => Condition.keysApart_onField? h
  · exact Entity.keysApart_whereUnique fun c hc => by_contra fun hn => hclash (.whereUnique hc hn)
  · exact Entity.keysApart_of_mem_relationFilters hd
  · exact Condition.keysApart_of_names hvalues (fun field hf hn => hclash (.scalarWhere hf hn))
      fun _ _ h => Condition.keysApart_onValue? h
  · exact Condition.keysApart_of_names hvalues (fun field hf hn => hclash (.scalarWhere hf hn))
      fun _ _ h => Condition.keysApart_onValue? h
  · exact Entity.keysApart_perField hnames Entity.keysApart_byField
  · simp [Ordering.direction]
  · exact Entity.keysApart_of_mem_orderByAggregates hnames hd
  · exact Entity.keysApart_orderGroupsBy hnames fun field hf hn => hclash (.orderGroupsBy hf hn)
  · exact Entity.keysApart_fieldSelection hnames fun hlists field hf hn => hclash (.fieldSelection hlists hf hn)
  · have hselection := hd
    simp only [Entity.relationSelection, List.mem_ite_nil_right, List.mem_singleton] at hd
    obtain ⟨-, rfl⟩ := hd
    exact Entity.keysApart_relationChoices hnames fun hlists field hf hn =>
      hclash (.relationSelection hlists hf hn hselection)
  · cases hrelations : entity.hasRelations <;> simp [Entity.singleArguments, Entity.selection, hrelations]
  · exact Entity.keysApart_of_mem_countSelection hnames hd

theorem keysApart_of_mem_entityInputs (hd : d ∈ model.entityInputs entity) : d.schema.Throughout KeysApart := by
  simp only [entityInputs, List.mem_cons, List.mem_append] at hd
  rcases hd with rfl | (((hd | hd) | hd) | hd) | hd
  · simp [Entity.fieldNamesDeclaration]
  · exact keysApart_of_mem_query hnames hclash hd
  · exact Payload.keysApart_of_mem_payloads hnames (List.mem_append_left _ hd)
  · exact Payload.keysApart_of_mem_payloads hnames (List.mem_append_right _ hd)
  · exact Entity.keysApart_of_mem_aggregateInputs hnames hd hclash
  · exact Entity.keysApart_of_mem_operationArguments hd

end

/-- Nothing but a clash puts a key twice into an object. -/
theorem NamedApart.keysApart_of_mem_built (hapart : model.NamedApart) (hd : d ∈ model.built)
    (hclash : ∀ entity ∈ model.entities, ¬ entity.Clash d) : d.schema.Throughout KeysApart := by
  rcases mem_built.mp hd with hd | ⟨entity, he, rfl⟩
  · rcases mem_inputs.mp hd with hd | ⟨enumeration, -, hd⟩ | ⟨entity, he, hd⟩ | ⟨owner, -, field, -, hd⟩
    · exact keysApart_of_mem_shared hd
    · exact keysApart_of_mem_enumerationInputs hd
    · exact keysApart_of_mem_entityInputs (hapart.fields entity he) (hclash entity he) hd
    · obtain ⟨edge, hedge, hd⟩ := Graph.mem_nestedWrites.mp hd
      have htarget : edge.target ∈ model.entities := Graph.target_mem_of_edge? hedge
      rcases hd with hd | hd
      · exact NestedNames.keysApart_of_mem_creations (hapart.fields _ htarget) hd
      · exact NestedNames.keysApart_of_mem_changes (hapart.fields _ htarget) hd
  · exact Entity.keysApart_recordDeclaration (hapart.fields entity he)

end DataModel

/-! ### What a clash repeats -/

namespace Entity
variable {entity : Entity} {d : Declaration}

theorem not_keysApart_of_append {before after : List (String × Schema)} (key : String)
    (hbefore : key ∈ before.map (·.1)) (hafter : key ∈ after.map (·.1)) :
    ¬ (Schema.strictObject (before ++ after)).Throughout KeysApart := by
  intro h
  have hnodup := Schema.keysApart_strictObject.mp (Schema.throughout_strictObject.mp h).1
  rw [List.map_append] at hnodup
  exact (List.nodup_append.mp hnodup).2.2 key hbefore key hafter rfl

theorem name_mem_keys_propertiesOf {fields : List Field} {schema? : Field → Option Schema} {field : Field}
    (hf : field ∈ fields) (h : (schema? field).isSome = true) :
    field.name ∈ (propertiesOf fields schema?).map (·.1) := by
  rw [map_key_propertiesOf]
  exact List.mem_map_of_mem (List.mem_filter.mpr ⟨hf, h⟩)

theorem isSome_onValue? {field : Field} (hf : field ∈ entity.valueFields) :
    (Condition.onValue? field).isSome = true := by
  rw [Condition.onValue?, Option.isSome_map]
  exact isSome_value?_of_mem hf

theorem isSome_onField? {field : Field} (hf : field ∈ entity.fields) : (Condition.onField? field).isSome = true := by
  unfold Condition.onField?
  cases hr : field.relation? with
  | some relation => rfl
  | none => exact isSome_onValue? (List.mem_filter.mpr ⟨hf, by simp [Field.isRelation, hr]⟩)

theorem hasPart_lookup {c : UniqueConstraint} (hc : c ∈ entity.uniqueConstraints) :
    entity.lookup.HasPart (entity.lookupBy c) := by
  unfold lookup
  split
  · next hnone => simp [hnone] at hc
  · next c' hone =>
    obtain rfl : c = c' := by simpa [hone] using hc
    exact .refl
  · exact .head (List.mem_map_of_mem hc) .refl

/-- A lookup by a field twice is a lookup by several fields, so it has a key for each of them. -/
theorem not_keysApart_whereUnique {c : UniqueConstraint} (hc : c ∈ entity.uniqueConstraints) (hn : ¬ c.fields.Nodup) :
    ¬ entity.whereUnique.schema.Throughout KeysApart := by
  have hseveral : c.isCompound = true := by
    unfold UniqueConstraint.isCompound
    rcases hfields : c.fields with - | ⟨name, - | ⟨other, rest⟩⟩
    · simp [hfields] at hn
    · simp [hfields] at hn
    · simp
  have hpart : (entity.lookupBy c).HasPart (.strictObject (c.fields.map fun name => (name, entity.valueOf name))) := by
    refine .head ?_ .refl
    simp [lookupBy, Schema.strictObject, Schema.children, constraintValue, hseveral]
  intro h
  have hnodup := Schema.keysApart_strictObject.mp (h _ ((hasPart_lookup hc).trans hpart))
  rw [List.map_map] at hnodup
  exact hn (by simpa [Function.comp_def] using hnodup)

/-- The key of the counts stands after all others. -/
theorem not_keysApart_choices (before : List (String × Schema)) (hlists : entity.ownsListRelation = true)
    (h : "_count" ∈ before.map (·.1) ∨ "_count" ∈ entity.relationFields.map (·.name)) :
    ¬ (Schema.strictObject (before ++ entity.relationChoices)).Throughout KeysApart := by
  rw [relationChoices, if_pos hlists, ← List.append_assoc]
  refine not_keysApart_of_append "_count" ?_ List.mem_cons_self
  rw [List.map_append]
  rcases h with hbefore | hrelation
  · exact List.mem_append_left _ hbefore
  · obtain ⟨field, hf, hn⟩ := List.mem_map.mp hrelation
    have hsome : (field.relation?.map (Selection.ofRelation field)).isSome = true := by
      rw [Option.isSome_map]
      exact (List.mem_filter.mp hf).2
    rw [← hn]
    exact List.mem_append_right _ (name_mem_keys_propertiesOf (mem_of_mem_relationFields hf) hsome)

theorem not_keysApart_fieldSelection {field : Field} (hlists : entity.ownsListRelation = true)
    (hf : field ∈ entity.fields) (hn : field.name = "_count") :
    ¬ entity.fieldSelection.schema.Throughout KeysApart := by
  refine not_keysApart_choices _ hlists ?_
  cases hrelation : field.isRelation with
  | true => exact Or.inr (List.mem_map.mpr ⟨field, List.mem_filter.mpr ⟨hf, hrelation⟩, hn⟩)
  | false =>
    rw [List.map_map]
    exact Or.inl (List.mem_map.mpr ⟨field, List.mem_filter.mpr ⟨hf, by simp [hrelation]⟩, hn⟩)

theorem Clash.not_keysApart (h : entity.Clash d) : ¬ d.schema.Throughout KeysApart := by
  cases h with
  | whereInput hf hn => exact not_keysApart_of_append _ hn (name_mem_keys_propertiesOf hf (isSome_onField? hf))
  | scalarWhere hf hn => exact not_keysApart_of_append _ hn (name_mem_keys_propertiesOf hf (isSome_onValue? hf))
  | whereUnique hc hn => exact not_keysApart_whereUnique hc hn
  | @orderGroupsBy field hf hn =>
    refine not_keysApart_of_append field.name ?_ ?_
    · rw [List.map_map]
      exact List.mem_map_of_mem hf
    · rwa [List.map_map]
  | fieldSelection hlists hf hn => exact not_keysApart_fieldSelection hlists hf hn
  | relationSelection hlists hf hn hd =>
    simp only [Entity.relationSelection, List.mem_ite_nil_right, List.mem_singleton] at hd
    obtain ⟨-, rfl⟩ := hd
    exact not_keysApart_choices [] hlists (Or.inr (List.mem_map.mpr ⟨_, hf, hn⟩))
  | @countInput field hf hn =>
    refine not_keysApart_of_append "_all" ?_ List.mem_cons_self
    rw [Aggregate.marks, List.map_map]
    exact List.mem_map.mpr ⟨field, hf, hn⟩

/-- No key clashes with fields of other names, each at most once in a constraint. -/
theorem not_clash_of_names (hfields : ∀ field ∈ entity.fields, field.name ∉ reservedKeys)
    (hconstraints : ∀ c ∈ entity.uniqueConstraints, c.fields.Nodup) : ¬ entity.Clash d := by
  have hvalues : ∀ field ∈ entity.valueFields, field.name ∉ reservedKeys :=
    fun field hf => hfields field (mem_of_mem_valueFields hf)
  have hrelations : ∀ field ∈ entity.relationFields, field.name ∉ reservedKeys :=
    fun field hf => hfields field (mem_of_mem_relationFields hf)
  have hconnectives : ["AND", "OR", "NOT"] ⊆ reservedKeys := by decide
  have haggregates : entity.orderedAggregates.map (·.1) ⊆ reservedKeys := by
    unfold orderedAggregates
    cases entity.hasNumericFields <;> simp [reservedKeys]
  intro h
  cases h with
  | whereInput hf hn => exact hfields _ hf (hconnectives hn)
  | scalarWhere hf hn => exact hvalues _ hf (hconnectives hn)
  | whereUnique hc hn => exact hn (hconstraints _ hc)
  | orderGroupsBy hf hn => exact hvalues _ hf (haggregates hn)
  | fieldSelection _ hf hn => exact hfields _ hf (by rw [hn]; decide)
  | relationSelection _ hf hn _ => exact hrelations _ hf (by rw [hn]; decide)
  | countInput hf hn => exact hvalues _ hf (by rw [hn]; decide)

end Entity

/-! ### What distinct keys are good for -/

/-- Different keys are written differently. -/
theorem Quoted.propertyKey_injective : Function.Injective propertyKey := by
  intro s t h
  have hcolon : (propertyKey s).toList ++ [':'] = (propertyKey t).toList ++ [':'] := by rw [h]
  exact (propertyKey_append_inj hcolon).1

/-- Every property of an object with distinct keys is found under its key. -/
theorem Schema.property?_of_mem {properties : List (String × Schema)} {strict : Bool}
    (hnodup : (properties.map (·.1)).Nodup) {p : String × Schema} (hp : p ∈ properties) :
    (object properties strict).property? p.1 = some p.2 := by
  obtain ⟨schema, hs⟩ := Document.exists_lookup (List.mem_map_of_mem hp)
  have hsame : (p.1, schema) = p := List.inj_on_of_nodup_map hnodup (Document.mem_of_lookup hs) hp rfl
  rw [property?, hs, ← hsame]

namespace DataModel
variable {model : DataModel} {d : Declaration}

/-- In a model that is accepted, no object that stands anywhere in a declaration has a key twice, just where the names
of the entities do not clash in the declaration. Then the keys of an object are also written differently, and all its
properties are found. -/
theorem keys_apart_unless_clash (hv : model.validate = .ok ()) (hd : d ∈ model.built) :
    ((∀ properties strict, d.schema.HasPart (.object properties strict) → (properties.map (·.1)).Nodup) ↔
        ∀ entity ∈ model.entities, ¬ entity.Clash d) ∧
      ((∀ entity ∈ model.entities, ¬ entity.Clash d) →
        ∀ properties strict, d.schema.HasPart (.object properties strict) →
          (properties.map fun p => Quoted.propertyKey p.1).Nodup ∧
            ∀ p ∈ properties, (Schema.object properties strict).property? p.1 = some p.2) := by
  have hapart : d.schema.Throughout KeysApart ↔ ∀ entity ∈ model.entities, ¬ entity.Clash d :=
    ⟨fun h entity _ hclash => hclash.not_keysApart h, (namedApart_of_validate hv).keysApart_of_mem_built hd⟩
  refine ⟨Schema.throughout_keysApart_iff.symm.trans hapart, fun hclash properties strict hpart => ?_⟩
  have hnodup := Schema.throughout_keysApart_iff.mp (hapart.mpr hclash) properties strict hpart
  refine ⟨?_, fun p hp => Schema.property?_of_mem hnodup hp⟩
  have hkeys := hnodup.map Quoted.propertyKey_injective
  rwa [List.map_map] at hkeys

/-- A booking is looked up by its code or by several of its fields at once, and no name clashes. -/
theorem booking_keys_apart : bookings.validate = .ok () ∧ booking.whereUnique ∈ bookings.built ∧
    (∀ entity ∈ bookings.entities, ¬ entity.Clash booking.whereUnique) ∧
    booking.whereUnique.schema.HasPart (booking.constraintValue ⟨"visit", ["day", "slot"]⟩) ∧
    ∀ properties strict, booking.whereUnique.schema.HasPart (.object properties strict) →
      (properties.map fun p => Quoted.propertyKey p.1).Nodup ∧
        ∀ p ∈ properties, (Schema.object properties strict).property? p.1 = some p.2 := by
  have hvalid : bookings.validate = .ok () := by decide
  have hbooking : booking ∈ bookings.entities := List.mem_cons_self
  have hd : booking.whereUnique ∈ bookings.built := by
    refine mem_built.mpr (Or.inl (mem_inputs_of_entity hbooking ?_))
    simp [entityInputs, queryDeclarations]
  have hclash : ∀ entity ∈ bookings.entities, ¬ entity.Clash booking.whereUnique := by
    intro entity he
    obtain rfl := List.mem_singleton.mp he
    exact Entity.not_clash_of_names (by decide) (by decide)
  have hvisit : (booking.lookupBy ⟨"visit", ["day", "slot"]⟩).HasPart
      (booking.constraintValue ⟨"visit", ["day", "slot"]⟩) := .head List.mem_cons_self .refl
  have hpart := (Entity.hasPart_lookup (by decide)).trans hvisit
  exact ⟨hvalid, hd, hclash, hpart, (keys_apart_unless_clash hvalid hd).2 hclash⟩

/-- A meter with its readings, which are called like their own count; other fields are called like a connective, like
an aggregate and like the count of all meters, and a constraint names a field twice. -/
def meter : Entity :=
  let key := { Field.plain "id" (.scalar .int) with isId := true }
  let readings := { Field.plain "_count" (.relation ⟨"Reading", "Readings", []⟩) with isList := true }
  ⟨"Meter", [key, .plain "AND" (.scalar .int), .plain "_max" (.scalar .int), .plain "_all" (.scalar .int), readings],
    none, [⟨none, ["AND", "AND"]⟩]⟩

def meters : DataModel :=
  let key := { Field.plain "id" (.scalar .int) with isId := true }
  let meterOf := Field.plain "meter" (.relation ⟨"Meter", "Readings", ["meterId"]⟩)
  ⟨[meter, ⟨"Reading", [key, .plain "meterId" (.scalar .int), meterOf], none, []⟩], []⟩

/-- In an accepted model objects have keys twice: in conditions, in lookups, in orderings of groups, in selections and
in counts. -/
theorem accepted_keys_repeat : meters.validate = .ok () ∧
    ∀ d ∈ [meter.whereInput, meter.groupWhere, meter.whereUnique, meter.orderGroupsBy, meter.fieldSelection,
        meter.countInput] ++ meter.relationSelection,
      d ∈ meters.built ∧ ∃ properties strict, d.schema.HasPart (.object properties strict) ∧
        ¬ (properties.map (·.1)).Nodup := by
  have hvalid : meters.validate = .ok () := by decide
  have hmeter : meter ∈ meters.entities := List.mem_cons_self
  refine ⟨hvalid, fun d hd => ?_⟩
  simp only [List.cons_append, List.nil_append, List.mem_cons] at hd
  obtain ⟨hinput, hclash⟩ : d ∈ meters.entityInputs meter ∧ meter.Clash d := by
    simp only [entityInputs, queryDeclarations, List.mem_cons, List.mem_append]
    rcases hd with rfl | rfl | rfl | rfl | rfl | rfl | hd
    · exact ⟨by simp, @Entity.Clash.whereInput meter meter.fields[1] (by decide) (by decide)⟩
    · exact ⟨by simp, @Entity.Clash.scalarWhere meter meter.fields[1] _ (by decide) (by decide)⟩
    · exact ⟨by simp, @Entity.Clash.whereUnique meter ⟨"AND_AND", ["AND", "AND"]⟩ (by decide) (by decide)⟩
    · exact ⟨by simp, @Entity.Clash.orderGroupsBy meter meter.fields[2] (by decide) (by decide)⟩
    · exact ⟨by simp, @Entity.Clash.fieldSelection meter meter.fields[4] (by decide) (by decide) rfl⟩
    · exact ⟨Or.inr (Or.inl (Or.inr List.mem_cons_self)),
        @Entity.Clash.countInput meter meter.fields[3] (by decide) rfl⟩
    · exact ⟨by simp [hd], @Entity.Clash.relationSelection meter meter.fields[4] d (by decide) (by decide) rfl hd⟩
  refine ⟨mem_built.mpr (Or.inl (mem_inputs_of_entity hmeter hinput)), ?_⟩
  by_contra hnone
  refine hclash.not_keysApart (Schema.throughout_keysApart_iff.mpr fun properties strict hpart => ?_)
  by_contra hrepeat
  exact hnone ⟨properties, strict, hpart, hrepeat⟩

end DataModel

end DataShapes
