import DataShapes.Proofs.Generation.Lossless
import DataShapes.Proofs.Generation.Unaltered
import DataShapes.Proofs.Schema.Acceptance

/-! # Storage keys in payloads

A reference to another record is written in one of two ways: as the relation, or as the value fields that store it. A
checked payload has the relation and hides the fields, an unchecked payload has the fields and no relation to one
record. So every field can be written somewhere, and no payload takes both sides of one reference. -/

namespace DataShapes

/-- A relation field stores its reference in the value field of this name. -/
def Field.StoredIn (field : Field) (name : String) : Prop := ∃ relation ∈ field.relation?, name ∈ relation.storageKeys

instance (field : Field) (name : String) : Decidable (field.StoredIn name) :=
  inferInstanceAs (Decidable (∃ relation ∈ field.relation?, name ∈ relation.storageKeys))

namespace Entity
variable {entity : Entity}

theorem isStorageKey_iff {name : String} :
    entity.isStorageKey name = true ↔ ∃ field ∈ entity.relationFields, field.StoredIn name := by
  simp only [isStorageKey, storageKeys, List.contains_iff_mem, List.mem_flatMap, List.mem_filterMap, Field.StoredIn,
    Option.mem_def]
  constructor
  · rintro ⟨relation, ⟨field, hf, hr⟩, hk⟩
    exact ⟨field, hf, relation, hr, hk⟩
  · rintro ⟨field, hf, relation, hr, hk⟩
    exact ⟨relation, ⟨field, hf, hr⟩, hk⟩

theorem isRelation_of_mem_valueFields {field : Field} (h : field ∈ entity.valueFields) : field.isRelation = false := by
  simpa using (List.mem_filter.mp h).2

theorem isRelation_of_mem_relationFields {field : Field} (h : field ∈ entity.relationFields) :
    field.isRelation = true :=
  (List.mem_filter.mp h).2

section
variable {field : Field} {others : List Field} (hn : entity.fieldNames.Nodup) (hf : field ∈ entity.fields)
  (ho : ∀ other ∈ others, other ∈ entity.fields)
include hn hf ho

/-- Among distinct names a field is one of some fields when its name is one of theirs. -/
theorem name_mem_map_iff : field.name ∈ others.map (·.name) ↔ field ∈ others := by
  refine ⟨fun h => ?_, List.mem_map_of_mem⟩
  obtain ⟨other, hother, hname⟩ := List.mem_map.mp h
  obtain rfl : other = field := List.inj_on_of_nodup_map hn (ho other hother) hf hname
  exact hother

/-- Among distinct names a field has a property when there is a schema for the field itself. -/
theorem name_mem_keys_iff {schema? : Field → Option Schema} :
    field.name ∈ (propertiesOf others schema?).map (·.1) ↔ field ∈ others ∧ (schema? field).isSome = true := by
  rw [map_key_propertiesOf, name_mem_map_iff hn hf fun other h => ho other (List.mem_of_mem_filter h), List.mem_filter]

end

end Entity

namespace Payload
variable {graph : Graph} {purpose : Purpose} {form : Form} {entity : Entity} {omitted : Option Field} {field : Field}

/-- The keys of a payload. -/
def keys (properties : List (String × Schema)) : List String := properties.map (·.1)

/-- The implied keys are where the relation that is left out is stored. -/
theorem mem_impliedKeys {name : String} : name ∈ impliedKeys omitted ↔ ∃ o ∈ omitted, o.StoredIn name := by
  cases omitted with
  | none => simp [impliedKeys]
  | some o => cases hr : o.relation? <;> simp [impliedKeys, Field.StoredIn, hr]

/-- Whatever a payload is for, it says something about every value field that it does not leave out. -/
theorem isSome_valueOf? (h : field.isRelation = false) : (valueOf? purpose field).isSome = true := by
  cases hk : field.kind with
  | relation relation => simp [Field.isRelation, Field.relation?, hk] at h
  | scalar type =>
    cases purpose with
    | create => cases hl : field.isList <;> simp [valueOf?, created?, Field.value?, Field.single?, Field.many?, hk, hl]
    | update => simp [valueOf?, updated?, Field.single?, Field.many?, hk]
  | enumeration name =>
    cases purpose with
    | create => cases hl : field.isList <;> simp [valueOf?, created?, Field.value?, Field.single?, Field.many?, hk, hl]
    | update => simp [valueOf?, updated?, Field.single?, Field.many?, hk]

/-! ### Which fields a payload has -/

section
variable (hn : entity.fieldNames.Nodup)
include hn

/-- Among distinct names a field is in a payload when the payload says something about the field itself. -/
theorem mem_keys_iff (hf : field ∈ entity.fields) : field.name ∈ keys (properties graph purpose form entity omitted) ↔
    (ofField? graph purpose form entity omitted field).isSome = true := by
  rw [keys, properties, Entity.name_mem_keys_iff hn hf fun _ => id]
  exact and_iff_right hf

/-- What is left out is told by its name. -/
theorem any_omitted_iff (ho : ∀ o ∈ omitted, o ∈ entity.fields) (hf : field ∈ entity.fields) :
    omitted.any (·.name == field.name) = true ↔ omitted = some field := by
  rw [Option.any_eq_true_iff_get]
  cases omitted with
  | none => simp
  | some o =>
    have hsame : o.name = field.name ↔ o = field :=
      ⟨fun h => List.inj_on_of_nodup_map hn (ho o rfl) hf h, congrArg _⟩
    simp [hsame]

/-- Of a value field a payload says what it takes for it, unless the field is hidden. -/
theorem ofField?_value (ho : ∀ o ∈ omitted, o ∈ entity.relationFields) (hf : field ∈ entity.valueFields) :
    ofField? graph purpose form entity omitted field =
      if hides entity form omitted field then none else valueOf? purpose field := by
  have hvalue : field.isRelation = false := Entity.isRelation_of_mem_valueFields hf
  have hshown : ¬ omitted.any (·.name == field.name) = true := by
    rw [any_omitted_iff hn (fun o h => Entity.mem_of_mem_relationFields (ho o h)) (Entity.mem_of_mem_valueFields hf)]
    rintro rfl
    rw [Entity.isRelation_of_mem_relationFields (ho field rfl)] at hvalue
    cases hvalue
  rw [ofField?, if_neg hshown, if_neg (by simp [hvalue])]

/-- A value field is in a payload unless it is hidden. -/
theorem mem_keys_value_iff (ho : ∀ o ∈ omitted, o ∈ entity.relationFields) (hf : field ∈ entity.valueFields) :
    field.name ∈ keys (properties graph purpose form entity omitted) ↔ hides entity form omitted field = false := by
  rw [mem_keys_iff hn (Entity.mem_of_mem_valueFields hf), ofField?_value hn ho hf]
  cases hides entity form omitted field with
  | true => simp
  | false => simp [isSome_valueOf? (Entity.isRelation_of_mem_valueFields hf)]

/-- A relation field with a far side is in a payload that is about it and has a role for it. -/
theorem mem_keys_relation_iff (ho : ∀ o ∈ omitted, o ∈ entity.relationFields) (hf : field ∈ entity.relationFields)
    {edge : Edge} (hedge : graph.edge? entity field = some edge) :
    field.name ∈ keys (properties graph purpose form entity omitted) ↔
      omitted ≠ some field ∧ (nestedRole? purpose form field.multiplicity).isSome = true := by
  have hmem : field ∈ entity.fields := Entity.mem_of_mem_relationFields hf
  have hrelation : field.isRelation = true := Entity.isRelation_of_mem_relationFields hf
  have hany := any_omitted_iff hn (fun o h => Entity.mem_of_mem_relationFields (ho o h)) hmem
  rw [mem_keys_iff hn hmem, ofField?, if_pos hrelation, hedge, Option.bind_some, nested?, ne_eq, ← hany]
  by_cases h : omitted.any (·.name == field.name) = true
  · simp [h]
  · simp [h, Option.isSome_map]

end

/-- Bulk payloads have value fields only. -/
theorem notMem_keys_bulk (hn : entity.fieldNames.Nodup) (hf : field ∈ entity.relationFields) :
    field.name ∉ keys (bulkProperties purpose form entity omitted) := by
  have hvalues : ∀ other ∈ entity.valueFields.filter (!hides entity form omitted ·), other ∈ entity.fields :=
    fun _ h => Entity.mem_of_mem_valueFields (List.mem_of_mem_filter h)
  rw [keys, bulkProperties, Entity.name_mem_keys_iff hn (Entity.mem_of_mem_relationFields hf) hvalues]
  rintro ⟨hmem, -⟩
  have hvalue := Entity.isRelation_of_mem_valueFields (List.mem_of_mem_filter hmem)
  rw [Entity.isRelation_of_mem_relationFields hf] at hvalue
  cases hvalue

end Payload

/-- A strict object refuses whatever has a key that is none of its own. -/
theorem Document.eval_ne_ok_of_notMem_keys {d : Document} {trail : List String} {properties : List (String × Schema)}
    {key : String} (hkey : key ∉ Payload.keys properties) {value : Json} (hvalue : value.get? key ≠ none)
    (result : Json) : d.eval trail (.strictObject properties) value ≠ .ok result := by
  intro h
  obtain ⟨entries, rfl, hstrict, -, -⟩ := eval_object_eq_ok_iff.mp h
  obtain ⟨part, hpart⟩ := Option.ne_none_iff_exists'.mp hvalue
  exact hkey (hstrict rfl _ (Json.mem_of_entry_eq_some hpart))

namespace DataModel
variable {model : DataModel}

/-- The field leads back along a relation field of the model into this entity. -/
def LeadsBack (model : DataModel) (entity : Entity) (back : Field) : Prop :=
  ∃ owner ∈ model.entities, ∃ field ∈ owner.relationFields,
    (Graph.ofModel model).edge? owner field = some ⟨entity, back⟩

theorem NamedApart.mem_of_leadsBack (h : model.NamedApart) {entity : Entity} {back : Field}
    (hb : model.LeadsBack entity back) : back ∈ entity.relationFields := by
  obtain ⟨owner, ho, field, hf, hedge⟩ := hb
  exact (h.exists_edge_back ho hf hedge).1

/-- Of a value field that a checked payload hides and a relation to one record, one is none of the payload: the value
field if the payload is checked, else the relation. -/
theorem missing_column_or_relation (hv : model.validate = .ok ()) {entity : Entity} (he : entity ∈ model.entities)
    {omitted : Option Field} (ho : ∀ o ∈ omitted, o ∈ entity.relationFields) {column field : Field}
    (hf : field ∈ entity.relationFields) (hsingle : field.isList = false) {purpose : Purpose}
    (hhidden : column.name ∉ Payload.keys (Payload.properties (Graph.ofModel model) purpose .checked entity omitted))
    (form : Form) : ∀ properties ∈ [Payload.properties (Graph.ofModel model) purpose form entity omitted,
        Payload.bulkProperties purpose form entity omitted],
      column.name ∉ Payload.keys properties ∨ field.name ∉ Payload.keys properties := by
  have hn : entity.fieldNames.Nodup := (namedApart_of_validate hv).fields entity he
  refine List.forall_mem_cons.mpr ⟨?_, List.forall_mem_singleton.mpr (Or.inr (Payload.notMem_keys_bulk hn hf))⟩
  cases form with
  | checked => exact Or.inl hhidden
  | unchecked =>
    obtain ⟨edge, hedge⟩ := exists_edge_of_validate hv he hf
    right
    rw [Payload.mem_keys_relation_iff hn ho hf hedge]
    rintro ⟨-, hrole⟩
    cases hrequired : field.isRequired <;> cases purpose <;>
      simp [Field.multiplicity, hsingle, hrequired, Payload.nestedRole?] at hrole

/-- A value field that stores a relation of its entity is hidden by every checked payload, which has all relations
stored in it other than the one left out; an unchecked payload has it unless it stores the relation left out. So
nothing that states both the field and a relation to one record that is stored in it is accepted by any payload. -/
theorem storage_written_once (hv : model.validate = .ok ()) {entity : Entity} (he : entity ∈ model.entities)
    {omitted : Option Field} (ho : ∀ o ∈ omitted, model.LeadsBack entity o) {column : Field}
    (hc : column ∈ entity.valueFields) (hs : ∃ field ∈ entity.relationFields, field.StoredIn column.name)
    (purpose : Purpose) :
    let shape := fun form => Payload.properties (Graph.ofModel model) purpose form entity omitted
    let bulk := fun form => Payload.bulkProperties purpose form entity omitted
    (column.name ∉ Payload.keys (shape .checked) ∧
      ∀ field ∈ entity.relationFields, field.StoredIn column.name → omitted ≠ some field →
        field.name ∈ Payload.keys (shape .checked)) ∧
    (column.name ∈ Payload.keys (shape .unchecked) ↔ ¬∃ o ∈ omitted, o.StoredIn column.name) ∧
    ∀ field ∈ entity.relationFields, field.StoredIn column.name → field.isList = false →
      ∀ form, ∀ properties ∈ [shape form, bulk form], ∀ value : Json,
        value.get? column.name ≠ none → value.get? field.name ≠ none →
        (∀ d trail result, Document.eval d trail (.strictObject properties) value ≠ .ok result) ∧
        ∀ name, model.document.find? name = some ⟨name, .strictObject properties⟩ →
          ∀ result, model.document.parse name value ≠ .ok result := by
  intro shape bulk
  have hapart : model.NamedApart := namedApart_of_validate hv
  have hn : entity.fieldNames.Nodup := hapart.fields entity he
  have ho : ∀ o ∈ omitted, o ∈ entity.relationFields := fun o h => hapart.mem_of_leadsBack (ho o h)
  have hhidden : column.name ∉ Payload.keys (shape .checked) := by
    rw [Payload.mem_keys_value_iff hn ho hc, Bool.not_eq_false]
    exact Entity.isStorageKey_iff.mpr hs
  refine ⟨⟨hhidden, fun field hf _ hne => ?_⟩, ?_, fun field hf _ hsingle form properties hp value hcolumn hfield => ?_⟩
  · obtain ⟨edge, hedge⟩ := exists_edge_of_validate hv he hf
    refine (Payload.mem_keys_relation_iff hn ho hf hedge).mpr ⟨hne, ?_⟩
    cases purpose <;> cases field.multiplicity <;> rfl
  · rw [Payload.mem_keys_value_iff hn ho hc, ← Payload.mem_impliedKeys]
    simp [Payload.hides]
  · have hrefused : ∀ d trail result, Document.eval d trail (.strictObject properties) value ≠ .ok result := by
      intro d trail
      rcases missing_column_or_relation hv he ho hf hsingle hhidden form properties hp with hmissing | hmissing
      · exact Document.eval_ne_ok_of_notMem_keys hmissing hcolumn
      · exact Document.eval_ne_ok_of_notMem_keys hmissing hfield
    refine ⟨hrefused, fun name hfind result hparse => ?_⟩
    obtain ⟨-, x, hx, h⟩ := Document.eval_ref_eq_ok_iff.mp hparse
    rw [hfind] at hx
    cases hx
    exact hrefused _ _ _ h

/-- The far side of the parent of a user. -/
def parentEdge : Edge := ⟨user, user.fields[3]⟩

theorem edge_parent : (Graph.ofModel users).edge? user user.fields[2] = some parentEdge := by decide

/-- A new user that is written as the parent of another one. -/
def newParent (form : Form) : List (String × Schema) :=
  Payload.properties (Graph.ofModel users) .create form user (some parentEdge.reverse)

/-- The parent of that user is told by the relation or by its key, and not by both. -/
theorem parent_written_once : users.validate = .ok () ∧ users.LeadsBack user parentEdge.reverse ∧
    user.fields[1] ∈ user.valueFields ∧ user.fields[2].StoredIn user.fields[1].name ∧
    "parentId" ∉ Payload.keys (newParent .checked) ∧ "parent" ∈ Payload.keys (newParent .checked) ∧
    "parentId" ∈ Payload.keys (newParent .unchecked) ∧
    ∀ form result, users.document.eval [] (.strictObject (newParent form))
      (.object [("parent", .object []), ("parentId", .int 0)]) ≠ .ok result := by
  have huser : user ∈ users.entities := List.mem_cons_self
  have hparent : user.fields[2] ∈ user.relationFields := by decide
  have hkey : user.fields[1] ∈ user.valueFields := by decide
  have hstored : user.fields[2].StoredIn user.fields[1].name := by decide
  have hback : users.LeadsBack user parentEdge.reverse := ⟨user, huser, user.fields[2], hparent, edge_parent⟩
  have homitted : ∀ o ∈ some parentEdge.reverse, users.LeadsBack user o := by
    rintro o ⟨⟩
    exact hback
  obtain ⟨⟨hhidden, hcovered⟩, hshown, hrefused⟩ :=
    storage_written_once validate_users huser homitted hkey ⟨_, hparent, hstored⟩ .create
  refine ⟨validate_users, hback, hkey, hstored, hhidden, hcovered _ hparent hstored (by decide),
    hshown.mpr (by decide), fun form => ?_⟩
  have hboth := hrefused _ hparent hstored rfl form _ List.mem_cons_self
    (.object [("parent", .object []), ("parentId", .int 0)])
  exact (hboth (by simp [Json.get?, Json.entry?]; decide) (by simp [Json.get?, Json.entry?]; decide)).1 _ _

end DataModel

end DataShapes
