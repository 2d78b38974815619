import DataShapes.Proofs.Inputs.Write
import DataShapes.Proofs.Schema.Parts

/-! # Keys of objects

The keys of an object are names of fields, keys of its own, or both. Where fields have different names, and none of
those that stand beside a key of the object is called like it, no key stands twice in values, conditions, lookups,
orderings, selections and payloads, nor in the objects inside them. -/

namespace DataShapes

namespace Schema

/-- If the schema is an object, no key stands in it twice. -/
def KeysApart (schema : Schema) : Prop :=
  ∀ properties strict, schema = .object properties strict → (properties.map (·.1)).Nodup

@[simp] theorem keysApart_object {properties : List (String × Schema)} {strict : Bool} :
    KeysApart (.object properties strict) ↔ (properties.map (·.1)).Nodup := by
  simp [KeysApart]

@[simp] theorem keysApart_strictObject {properties : List (String × Schema)} :
    KeysApart (.strictObject properties) ↔ (properties.map (·.1)).Nodup :=
  keysApart_object

@[simp] theorem keysApart_of_ne {schema : Schema} (h : ∀ properties strict, schema ≠ .object properties strict) :
    KeysApart schema :=
  fun properties strict heq => absurd heq (h properties strict)

@[simp] theorem keysApart_oneOrMany {item : Schema} :
    (oneOrMany item).Throughout KeysApart ↔ item.Throughout KeysApart := by
  simp [oneOrMany]

theorem throughout_keysApart_iff {schema : Schema} : schema.Throughout KeysApart ↔
    ∀ properties strict, schema.HasPart (.object properties strict) → (properties.map (·.1)).Nodup := by
  constructor
  · exact fun h properties strict hpart => keysApart_object.mp (h _ hpart)
  · rintro h _ hpart properties strict rfl
    exact h properties strict hpart

theorem throughout_keysApart {properties : List (String × Schema)} {strict : Bool}
    (hkeys : (properties.map (·.1)).Nodup) (hvalues : ∀ p ∈ properties, p.2.Throughout KeysApart) :
    (object properties strict).Throughout KeysApart :=
  throughout_object.mpr ⟨keysApart_object.mpr hkeys, hvalues⟩

end Schema

open Schema (KeysApart Throughout)

/-! ### Values -/

theorem ScalarType.keysApart_single (type : ScalarType) : type.single.Throughout KeysApart := by
  cases type <;> simp [single]

theorem ScalarType.keysApart_many (type : ScalarType) : type.many.Throughout KeysApart := by
  cases type <;> simp [many, single]

namespace Field
variable {field : Field} {value : Schema}

theorem keysApart_single? (h : field.single? = some value) : value.Throughout KeysApart := by
  unfold single? at h
  split at h <;> cases h
  · exact ScalarType.keysApart_single _
  · simp

theorem keysApart_many? (h : field.many? = some value) : value.Throughout KeysApart := by
  unfold many? at h
  split at h <;> cases h
  · exact ScalarType.keysApart_many _
  · simp

theorem keysApart_value? (h : field.value? = some value) : value.Throughout KeysApart := by
  unfold value? at h
  split at h
  · exact keysApart_many? h
  · exact keysApart_single? h

end Field

/-! ### Filters and operations -/

@[simp] theorem Filter.keysApart_orNull {nullable : Bool} {schema : Schema} :
    (orNull nullable schema).Throughout KeysApart ↔ schema.Throughout KeysApart := by
  cases nullable <;> simp [orNull]

/-- All keys of filters are their own. -/
theorem Filter.keysApart_ofScalar {type : ScalarType} {m : Multiplicity} {name : String} :
    (ofScalar type m name).Throughout KeysApart := by
  have hsingle (nullable : Bool) : (ofSingle type nullable name).Throughout KeysApart := by
    cases type <;> simp [ofSingle, each, textComparisons, jsonComparisons, ScalarType.hasMembership,
      ScalarType.hasOrder, ScalarType.single, ScalarType.many]
  cases m with
  | required => exact hsingle false
  | nullable => exact hsingle true
  | list => simp [ofScalar, ofList, type.keysApart_single, type.keysApart_many]

theorem Filter.keysApart_ofEnumeration {other name : String} {m : Multiplicity} :
    (ofEnumeration (.ref other) m name).Throughout KeysApart := by
  cases m <;> simp [ofEnumeration, ofList]

theorem Operation.keysApart_ofScalar {type : ScalarType} {nullable : Bool} :
    (ofScalar type nullable).Throughout KeysApart := by
  cases type <;> simp [ofScalar, setting, Filter.each, ScalarType.isNumeric, ScalarType.single]

theorem Operation.keysApart_ofEnumeration {name : String} {nullable : Bool} :
    (ofEnumeration name nullable).Throughout KeysApart := by
  simp [ofEnumeration, setting]

/-! ### Objects with a key for each field -/

namespace Entity
variable {entity : Entity}

theorem nodup_names_filter {fields : List Field} (h : (fields.map (·.name)).Nodup) (p : Field → Bool) :
    ((fields.filter p).map (·.name)).Nodup :=
  (List.filter_sublist.map _).nodup h

theorem keysApart_propertiesOf {fields : List Field} {schema? : Field → Option Schema} {strict : Bool}
    (hnames : (fields.map (·.name)).Nodup)
    (h : ∀ field schema, schema? field = some schema → schema.Throughout KeysApart) :
    (Schema.object (propertiesOf fields schema?) strict).Throughout KeysApart := by
  refine Schema.throughout_keysApart ((sublist_keys_propertiesOf _ _).nodup hnames) fun p hp => ?_
  obtain ⟨field, -, hs, -⟩ := mem_propertiesOf.mp hp
  exact h field p.2 hs

theorem keysApart_recordDeclaration (hnames : entity.fieldNames.Nodup) :
    entity.recordDeclaration.schema.Throughout KeysApart := by
  refine keysApart_propertiesOf (nodup_names_filter hnames _) fun field schema h => ?_
  obtain ⟨value, hv, rfl⟩ := Option.map_eq_some_iff.mp h
  have hvalue : value.Throughout KeysApart := Field.keysApart_value? hv
  split <;> simp [hvalue]

/-- An object with a property for each field, like an ordering or a row of marks. -/
theorem keysApart_perField {fields : List Field} {schema : Field → Schema} (hnames : (fields.map (·.name)).Nodup)
    (h : ∀ field, (schema field).Throughout KeysApart) :
    (Schema.strictObject (fields.map fun field => (field.name, schema field))).Throughout KeysApart := by
  refine Schema.throughout_keysApart ?_ (List.forall_mem_map.mpr fun field _ => h field)
  rwa [List.map_map]

/-- Other keys stand apart from the names of fields when no field is named like one of them. -/
theorem nodup_append_names {fields : List Field} {keys names : List String} (hkeys : keys.Nodup)
    (hnames : names.Nodup) (hsub : names ⊆ fields.map (·.name)) (hapart : ∀ field ∈ fields, field.name ∉ keys) :
    (keys ++ names).Nodup := by
  refine List.nodup_append.mpr ⟨hkeys, hnames, fun key hkey name hname heq => ?_⟩
  obtain ⟨field, hf, rfl⟩ := List.mem_map.mp (hsub hname)
  exact hapart field hf (heq ▸ hkey)

end Entity

/-! ### Conditions -/

namespace Condition
variable {name : String} {fields : List Field} {schema? : Field → Option Schema} {field : Field} {schema : Schema}

/-- The properties of a condition: those that join conditions of this name, and those for fields. -/
theorem nodup_keys (hnodup : (fields.map (·.name)).Nodup)
    (hapart : ∀ field ∈ fields, field.name ∉ ["AND", "OR", "NOT"]) :
    ((connectives name ++ Entity.propertiesOf fields schema?).map (·.1)).Nodup := by
  rw [List.map_append]
  have hkeys := Entity.sublist_keys_propertiesOf fields schema?
  have hown : ["AND", "OR", "NOT"].Nodup := by decide
  exact Entity.nodup_append_names hown (hkeys.nodup hnodup) hkeys.subset hapart

theorem keysApart_onValue? (h : onValue? field = some schema) : schema.Throughout KeysApart := by
  obtain ⟨value, hv, rfl⟩ := Option.map_eq_some_iff.mp h
  have hvalue : value.Throughout KeysApart := Field.keysApart_value? hv
  cases filterName? field with
  | none => simp
  | some name => cases field.multiplicity <;> simp [hvalue]

theorem keysApart_onField? (h : onField? field = some schema) : schema.Throughout KeysApart := by
  unfold onField? at h
  split at h
  · cases h
    unfold onRelation
    split <;> simp
  · exact keysApart_onValue? h

/-- A condition keeps its keys apart when no field is named like a connective. -/
theorem keysApart_of_names (hnames : (fields.map (·.name)).Nodup)
    (hapart : ∀ field ∈ fields, field.name ∉ ["AND", "OR", "NOT"])
    (h : ∀ field schema, schema? field = some schema → schema.Throughout KeysApart) :
    (Schema.strictObject (connectives name ++ Entity.propertiesOf fields schema?)).Throughout KeysApart := by
  refine Schema.throughout_keysApart (nodup_keys hnames hapart) (List.forall_mem_append.mpr ⟨?_, fun p hp => ?_⟩)
  · simp [connectives]
  · obtain ⟨field, -, hs, -⟩ := Entity.mem_propertiesOf.mp hp
    exact h field p.2 hs

end Condition

namespace Entity
variable {entity : Entity} {d : Declaration}

theorem keysApart_of_mem_relationFilters {usage : Usage} (hd : d ∈ entity.relationFilters usage) :
    d.schema.Throughout KeysApart := by
  simp only [relationFilters, List.mem_append, List.mem_ite_nil_right, List.mem_singleton] at hd
  rcases hd with (⟨-, rfl⟩ | ⟨-, rfl⟩) | ⟨-, rfl⟩ <;> simp [quantified]

/-! ### Lookups -/

theorem keysApart_valueOf {name : String} : (entity.valueOf name).Throughout KeysApart := by
  unfold valueOf
  cases hv : (entity.field? name).bind (·.value?) with
  | none => simp
  | some value =>
    obtain ⟨field, -, hv⟩ := Option.bind_eq_some_iff.mp hv
    exact Field.keysApart_value? hv

/-- A lookup by several fields has a key for each of them. -/
theorem keysApart_lookupBy {c : UniqueConstraint} (hc : c.fields.Nodup) :
    (entity.lookupBy c).Throughout KeysApart := by
  have hvalue : (entity.constraintValue c).Throughout KeysApart := by
    unfold constraintValue
    split
    · refine Schema.throughout_keysApart ?_ (List.forall_mem_map.mpr fun name _ => keysApart_valueOf)
      rw [List.map_map]
      exact hc.map_on fun name _ other _ heq => heq
    · cases c.fields.head? with
      | none => simp
      | some name => exact keysApart_valueOf
  simp [lookupBy, hvalue]

theorem keysApart_whereUnique (h : ∀ c ∈ entity.uniqueConstraints, c.fields.Nodup) :
    entity.whereUnique.schema.Throughout KeysApart := by
  unfold whereUnique lookup
  split
  · simp
  · next c hc => exact keysApart_lookupBy (h c (hc ▸ List.mem_cons_self))
  · refine Schema.throughout_union.mpr ⟨by simp, List.forall_mem_map.mpr fun c hc => ?_⟩
    exact keysApart_lookupBy (h c hc)

/-! ### Orderings and selections -/

theorem keysApart_byValue (field : Field) : (Ordering.byValue field).Throughout KeysApart := by
  unfold Ordering.byValue Ordering.direction
  split <;> simp

theorem keysApart_byField (field : Field) : (Ordering.byField field).Throughout KeysApart := by
  unfold Ordering.byField
  split
  · exact keysApart_byValue field
  · simp

theorem nodup_orderedAggregates : (entity.orderedAggregates.map (·.1)).Nodup := by
  unfold orderedAggregates
  cases entity.hasNumericFields <;> simp

theorem keysApart_orderGroupsBy (hnames : entity.fieldNames.Nodup)
    (hapart : ∀ field ∈ entity.valueFields, field.name ∉ entity.orderedAggregates.map (·.1)) :
    entity.orderGroupsBy.schema.Throughout KeysApart := by
  refine Schema.throughout_keysApart ?_ (List.forall_mem_append.mpr
    ⟨List.forall_mem_map.mpr fun field _ => keysApart_byValue field, List.forall_mem_map.mpr fun _ _ => by simp⟩)
  rw [List.map_append, List.map_map, List.map_map]
  exact List.nodup_append_comm.mp
    (nodup_append_names nodup_orderedAggregates (nodup_names_filter hnames _) (List.Subset.refl _) hapart)

theorem keysApart_of_mem_orderByAggregates (hnames : entity.fieldNames.Nodup) (hd : d ∈ entity.orderByAggregates) :
    d.schema.Throughout KeysApart := by
  obtain ⟨⟨key, aggregate, fields⟩, ha, rfl⟩ := List.mem_map.mp hd
  refine keysApart_perField ?_ fun _ => by simp [Ordering.direction]
  have hvalues := nodup_names_filter hnames (!·.isRelation)
  have hnumbers := nodup_names_filter hnames (·.isNumeric)
  have hordered := nodup_names_filter hvalues (·.isComparable)
  simp only [orderedAggregates, List.mem_append, List.mem_ite_nil_right, List.mem_cons, List.not_mem_nil, or_false,
    Prod.mk.injEq] at ha
  rcases ha with ((⟨-, -, rfl⟩ | ⟨-, -, -, rfl⟩) | ⟨-, -, rfl⟩ | ⟨-, -, rfl⟩) | ⟨-, -, -, rfl⟩
  · exact hvalues
  · exact hnumbers
  · exact hordered
  · exact hordered
  · exact hnumbers

/-- The keys of the relations to be picked, without that of the counts. -/
theorem keys_relationChoices : entity.relationChoices.map (·.1) =
    entity.relationFields.map (·.name) ++ if entity.ownsListRelation then ["_count"] else [] := by
  have hrelations : (fun field : Field => (field.relation?.map (Selection.ofRelation field)).isSome) =
      (·.isRelation) := by
    funext field
    rw [Option.isSome_map, Field.isRelation]
  rw [relationChoices, List.map_append, map_key_propertiesOf, hrelations, ← relationFields, apply_ite (List.map _)]
  rfl

theorem throughout_relationChoices : ∀ p ∈ entity.relationChoices, p.2.Throughout KeysApart := by
  intro p hp
  have hflag : ∀ name, (Selection.flagOr name).Throughout KeysApart := by simp [Selection.flagOr, Selection.flag]
  rcases List.mem_append.mp hp with hp | hp
  · obtain ⟨field, -, hs, -⟩ := mem_propertiesOf.mp hp
    obtain ⟨relation, -, hs⟩ := Option.map_eq_some_iff.mp hs
    rw [← hs]
    exact hflag _
  · split at hp
    · obtain rfl := List.mem_singleton.mp hp
      exact hflag _
    · cases hp

/-- The lists are counted under a key of their own, unless something else has it. -/
theorem nodup_append_count {names : List String} (hnames : names.Nodup)
    (hcount : entity.ownsListRelation = true → "_count" ∉ names) :
    (names ++ if entity.ownsListRelation then ["_count"] else []).Nodup := by
  cases hlists : entity.ownsListRelation with
  | false => simpa
  | true => exact List.nodup_append_comm.mp (List.nodup_cons.mpr ⟨hcount hlists, hnames⟩)

theorem keysApart_relationChoices (hnames : entity.fieldNames.Nodup)
    (hcount : entity.ownsListRelation = true → ∀ field ∈ entity.relationFields, field.name ≠ "_count") :
    (Schema.strictObject entity.relationChoices).Throughout KeysApart := by
  refine Schema.throughout_keysApart ?_ throughout_relationChoices
  rw [keys_relationChoices]
  refine nodup_append_count (nodup_names_filter hnames _) fun hlists hmem => ?_
  obtain ⟨field, hf, hn⟩ := List.mem_map.mp hmem
  exact hcount hlists field hf hn

theorem keysApart_fieldSelection (hnames : entity.fieldNames.Nodup)
    (hcount : entity.ownsListRelation = true → ∀ field ∈ entity.fields, field.name ≠ "_count") :
    entity.fieldSelection.schema.Throughout KeysApart := by
  have hfields : (entity.valueFields ++ entity.relationFields).Perm entity.fields :=
    List.perm_append_comm.trans (List.filter_append_perm (fun field : Field => field.isRelation) entity.fields)
  refine Schema.throughout_keysApart ?_ (List.forall_mem_append.mpr
    ⟨List.forall_mem_map.mpr fun _ _ => by simp [Selection.flag], throughout_relationChoices⟩)
  have hkeys : (entity.valueFields.map fun field => (field.name, Selection.flag.optional)).map (·.1) =
      entity.valueFields.map (·.name) := List.map_map
  rw [List.map_append, hkeys, keys_relationChoices, ← List.append_assoc, ← List.map_append]
  refine nodup_append_count ((hfields.map _).nodup_iff.mpr hnames) fun hlists hmem => ?_
  obtain ⟨field, hf, hn⟩ := List.mem_map.mp hmem
  exact hcount hlists field (hfields.mem_iff.mp hf) hn

theorem keysApart_of_mem_countSelection {graph : Graph} (hnames : entity.fieldNames.Nodup)
    (hd : d ∈ entity.countSelection graph) : d.schema.Throughout KeysApart := by
  unfold countSelection at hd
  split at hd
  · simp only [List.mem_cons, List.not_mem_nil, or_false] at hd
    rcases hd with rfl | rfl
    · have hcountable := nodup_names_filter (nodup_names_filter hnames (·.isRelation))
        fun field => field.isList && (graph.edge? entity field).isSome
      exact keysApart_perField hcountable fun _ => by simp [Selection.flag]
    · simp
  · cases hd

end Entity

/-! ### Payloads -/

namespace Payload
variable {field : Field} {schema : Schema}

theorem keysApart_valueOf? {purpose : Purpose} (h : valueOf? purpose field = some schema) :
    schema.Throughout KeysApart := by
  cases purpose with
  | create =>
    obtain ⟨value, hv, rfl⟩ := Option.map_eq_some_iff.mp h
    have hvalue : value.Throughout KeysApart := Field.keysApart_value? hv
    cases field.multiplicity with
    | list | nullable => simp [hvalue]
    | required => cases field.isOmittable <;> simp [hvalue]
  | update =>
    simp only [valueOf?, updated?, Option.bind_eq_bind, Option.bind_eq_some_iff, Option.pure_def,
      Option.some.injEq] at h
    obtain ⟨single, hone, many, hmany, rfl⟩ := h
    have hsingle : single.Throughout KeysApart := Field.keysApart_single? hone
    have hmany : many.Throughout KeysApart := Field.keysApart_many? hmany
    split
    · simp [updatedList, hsingle, hmany]
    · unfold updatedSingle
      refine Filter.keysApart_orNull.mpr ?_
      split <;> simp [hsingle]

theorem keysApart_ofField? {graph : Graph} {purpose : Purpose} {form : Form} {entity : Entity}
    {omitted : Option Field} (h : ofField? graph purpose form entity omitted field = some schema) :
    schema.Throughout KeysApart := by
  unfold ofField? at h
  split at h
  · cases h
  · split at h
    · obtain ⟨edge, -, h⟩ := Option.bind_eq_some_iff.mp h
      obtain ⟨⟨before, after⟩, -, rfl⟩ := Option.map_eq_some_iff.mp h
      cases mustState purpose field.multiplicity <;> simp
    · split at h
      · cases h
      · exact keysApart_valueOf? h

section
variable {purpose : Purpose} {form : Form} {entity : Entity} {omitted : Option Field}
  (hnames : entity.fieldNames.Nodup)
include hnames

theorem keysApart_properties {graph : Graph} :
    (Schema.strictObject (properties graph purpose form entity omitted)).Throughout KeysApart :=
  Entity.keysApart_propertiesOf hnames fun _ _ h => keysApart_ofField? h

theorem keysApart_bulkProperties :
    (Schema.strictObject (bulkProperties purpose form entity omitted)).Throughout KeysApart :=
  Entity.keysApart_propertiesOf (Entity.nodup_names_filter (Entity.nodup_names_filter hnames _) _)
    fun _ _ h => keysApart_valueOf? h

end

end Payload

end DataShapes
