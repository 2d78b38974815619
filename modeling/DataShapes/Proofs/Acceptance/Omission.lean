import DataShapes.Proofs.Acceptance.Payloads
import DataShapes.Proofs.Generation.WiderWrites

/-! # Entries that may be left out

An entry may be left out when the outermost mark of its property says so. An object that is accepted is therefore still
accepted without some of its entries, unless one of these must be stated. A record read back states what is not
nullable, a new record what has no other source, and updates, conditions, orderings and selections what they like. -/

namespace DataShapes

namespace Json

/-- The entries of an object without those under some keys. -/
def without (keys : List String) (entries : List (String × Json)) : List (String × Json) :=
  entries.filter fun e => e.1 ∉ keys

theorem entry?_without {keys : List String} {entries : List (String × Json)} {key : String} :
    entry? (without keys entries) key = if key ∈ keys then none else entry? entries key := by
  rw [Json.entry?, Json.entry?, without, ← List.filter_reverse, List.find?_filter]
  split
  · next hkey =>
    rw [Option.map_eq_none_iff, List.find?_eq_none]
    rintro e - he
    simp only [decide_eq_true_eq, beq_iff_eq] at he
    exact he.1 (he.2 ▸ hkey)
  · next hkey =>
    congr 2
    funext e
    by_cases he : e.1 = key <;> simp [he, hkey]

end Json

namespace Document
variable {d : Document}

/-- An object that the schema accepts may lose any of its entries but those under the required keys. -/
def Requires (d : Document) (schema : Schema) (required : List String) : Prop :=
  ∀ entries, d.Accepts schema (.object entries) → ∀ keys,
    d.Accepts schema (.object (Json.without keys entries)) ↔ ∀ key ∈ keys, key ∉ required

section
variable {properties : List (String × Schema)} {strict : Bool}

/-- Only the properties of the entries left out matter: the others stay as they are. -/
theorem Accepts.without_iff {entries : List (String × Json)}
    (h : d.Accepts (.object properties strict) (.object entries)) (keys : List String) :
    d.Accepts (.object properties strict) (.object (Json.without keys entries)) ↔
      ∀ p ∈ properties, p.1 ∈ keys → p.2.acceptsAbsent = true := by
  obtain ⟨_, heq, hstrict, hfits⟩ := accepts_object.mp h
  cases heq
  constructor
  · intro hwithout p hp hkey
    obtain ⟨_, heq, -, hfewer⟩ := accepts_object.mp hwithout
    cases heq
    exact hfewer.absent p hp (by rw [Json.entry?_without, if_pos hkey])
  · intro habsent
    refine accepts_object.mpr ⟨_, rfl, fun hs e he => hstrict hs e (List.mem_filter.mp he).1, ?_, ?_⟩
    · intro p hp hnone
      rw [Json.entry?_without] at hnone
      split at hnone
      · next hkey => exact habsent p hp hkey
      · exact hfits.absent p hp hnone
    · intro p hp part hpart
      rw [Json.entry?_without] at hpart
      split at hpart
      · cases hpart
      · exact hfits.present p hp part hpart

theorem requires_object {required : List String}
    (h : ∀ key, key ∈ required ↔ ∃ p ∈ properties, p.1 = key ∧ p.2.acceptsAbsent = false) :
    d.Requires (.object properties strict) required := by
  intro entries haccepted keys
  rw [haccepted.without_iff]
  constructor
  · intro habsent key hkey hrequired
    obtain ⟨p, hp, rfl, hmust⟩ := (h key).mp hrequired
    rw [habsent p hp hkey] at hmust
    cases hmust
  · intro hfree p hp hkey
    cases hmust : p.2.acceptsAbsent with
    | true => rfl
    | false => exact absurd ((h p.1).mpr ⟨p, hp, rfl, hmust⟩) (hfree p.1 hkey)

theorem requires_nil (h : ∀ p ∈ properties, p.2.acceptsAbsent = true) : d.Requires (.object properties strict) [] := by
  refine requires_object fun key => iff_of_false List.not_mem_nil ?_
  rintro ⟨p, hp, -, hmust⟩
  rw [h p hp] at hmust
  cases hmust

theorem requires_propertiesOf {fields required : List Field} {schema? : Field → Option Schema}
    (h : ∀ field, field ∈ required ↔
      field ∈ fields ∧ ∃ schema, schema? field = some schema ∧ schema.acceptsAbsent = false) :
    d.Requires (.object (Entity.propertiesOf fields schema?) strict) (required.map (·.name)) := by
  refine requires_object fun key => ?_
  rw [List.mem_map]
  constructor
  · rintro ⟨field, hrequired, rfl⟩
    obtain ⟨hf, schema, hs, hmust⟩ := (h field).mp hrequired
    exact ⟨(field.name, schema), Entity.mem_propertiesOf.mpr ⟨field, hf, hs, rfl⟩, rfl, hmust⟩
  · rintro ⟨p, hp, rfl, hmust⟩
    obtain ⟨field, hf, hs, hname⟩ := Entity.mem_propertiesOf.mp hp
    exact ⟨field, (h field).mpr ⟨hf, p.2, hs, hmust⟩, hname⟩

end

end Document

namespace Entity
variable {entity : Entity} {field : Field}

/-- The fields that a record read back must state. -/
def alwaysRead (entity : Entity) : List Field :=
  entity.valueFields.filter fun field => field.multiplicity ∈ [.required, .list]

/-- The fields that a new record must state in a payload of this form. -/
def stated (entity : Entity) : Form → List Field
  | .checked => (entity.valueFields.filter fun field => !entity.isStorageKey field.name && !field.isOmittable) ++
      entity.relationFields.filter fun field => field.multiplicity = .required
  | .unchecked => entity.valueFields.filter fun field => !field.isOmittable

theorem mem_alwaysRead : field ∈ entity.alwaysRead ↔
    field ∈ entity.valueFields ∧ ∃ schema, readValue? field = some schema ∧ schema.acceptsAbsent = false := by
  rw [alwaysRead, List.mem_filter]
  refine and_congr_right fun hf => ?_
  obtain ⟨value, hvalue⟩ := Option.isSome_iff_exists.mp (isSome_value?_of_mem hf)
  rw [readValue?, hvalue, Option.map_some]
  cases hm : field.multiplicity with
  | required | list => simp [Field.acceptsAbsent_value? hvalue]
  | nullable => simp [Schema.acceptsAbsent]

theorem acceptsAbsent_relationChoices : ∀ p ∈ entity.relationChoices, p.2.acceptsAbsent = true := by
  intro p hp
  rcases List.mem_append.mp hp with hp | hp
  · obtain ⟨field, -, hs, -⟩ := mem_propertiesOf.mp hp
    obtain ⟨relation, -, hschema⟩ := Option.map_eq_some_iff.mp hs
    rw [← hschema]
    rfl
  · split at hp
    · obtain rfl := List.mem_singleton.mp hp
      rfl
    · cases hp

end Entity

namespace Payload
variable {graph : Graph} {form : Form} {entity : Entity} {field : Field}

theorem created_must (hf : field ∈ entity.valueFields) :
    (∃ schema, valueOf? .create field = some schema ∧ schema.acceptsAbsent = false) ↔ field.isOmittable = false := by
  have hsome : (valueOf? .create field).isSome = true := isSome_valueOf? (Entity.isRelation_of_mem_valueFields hf)
  obtain ⟨schema, hs⟩ := Option.isSome_iff_exists.mp hsome
  rw [← Bool.not_eq_true field.isOmittable, ← acceptsAbsent_created?_iff hs, hs]
  simp

theorem mem_stated_relation (hr : field.isRelation = true) :
    field ∈ entity.stated form ↔ field ∈ entity.fields ∧ form = .checked ∧ field.multiplicity = .required := by
  cases form <;> simp [Entity.stated, Entity.valueFields, Entity.relationFields, hr]

theorem mem_stated_value (hr : field.isRelation = false) : field ∈ entity.stated form ↔
    field ∈ entity.fields ∧ hides entity form none field = false ∧ field.isOmittable = false := by
  cases form <;> simp [Entity.stated, Entity.valueFields, Entity.relationFields, hr, hides, impliedKeys]

/-- The fields to be stated are those of which a new record says something that may not be left out. -/
theorem mem_stated (hg : ∀ field ∈ entity.relationFields, ∃ edge, graph.edge? entity field = some edge) :
    field ∈ entity.stated form ↔ field ∈ entity.fields ∧
      ∃ schema, ofField? graph .create form entity none field = some schema ∧ schema.acceptsAbsent = false := by
  cases hr : field.isRelation with
  | true =>
    rw [mem_stated_relation hr]
    refine and_congr_right fun hf => ?_
    obtain ⟨edge, hedge⟩ := hg field (List.mem_filter.mpr ⟨hf, hr⟩)
    rw [ofField?_none, if_pos hr, hedge, Option.bind_some, nested_must_iff]
    simp
  | false =>
    rw [mem_stated_value hr]
    refine and_congr_right fun hf => ?_
    have hvalue : field ∈ entity.valueFields := List.mem_filter.mpr ⟨hf, by simp [hr]⟩
    rw [ofField?_none, if_neg (by simp [hr]), ← created_must hvalue]
    cases hides entity form none field <;> simp

theorem mem_stated_bulk : field ∈ entity.stated .unchecked ↔ field ∈ entity.valueFields ∧
    ∃ schema, valueOf? .create field = some schema ∧ schema.acceptsAbsent = false := by
  rw [Entity.stated, List.mem_filter]
  exact and_congr_right fun hf => by rw [created_must hf, Bool.not_eq_true']

/-- An update may leave out everything. -/
theorem acceptsAbsent_update {omitted : Option Field} :
    ∀ p ∈ properties graph .update form entity omitted, p.2.acceptsAbsent = true := by
  intro p hp
  obtain ⟨field, -, hs, -⟩ := Entity.mem_propertiesOf.mp hp
  unfold ofField? at hs
  split at hs
  · cases hs
  · split at hs
    · obtain ⟨edge, -, hnested⟩ := Option.bind_eq_some_iff.mp hs
      exact acceptsAbsent_nested? (Or.inl rfl) hnested
    · split at hs
      · cases hs
      · exact acceptsAbsent_updated? hs

theorem acceptsAbsent_bulkUpdate {omitted : Option Field} :
    ∀ p ∈ bulkProperties .update form entity omitted, p.2.acceptsAbsent = true := by
  intro p hp
  obtain ⟨field, -, hs, -⟩ := Entity.mem_propertiesOf.mp hp
  exact acceptsAbsent_updated? hs

end Payload

namespace Document
variable {d : Document} {graph : Graph} {entity : Entity}

theorem requires_createInputs
    (hg : ∀ field ∈ entity.relationFields, ∃ edge, graph.edge? entity field = some edge) :
    List.Forall₂ (fun declaration form => d.Requires declaration.schema ((entity.stated form).map (·.name)))
      (entity.createInputs graph) [.checked, .unchecked, .unchecked] := by
  have hbulk : d.Requires (.strictObject (Payload.bulkProperties .create .unchecked entity none))
      ((entity.stated .unchecked).map (·.name)) := by
    rw [Payload.bulkProperties_unchecked_none]
    exact requires_propertiesOf fun _ => Payload.mem_stated_bulk
  exact .cons (requires_propertiesOf fun _ => Payload.mem_stated hg)
    (.cons (requires_propertiesOf fun _ => Payload.mem_stated hg) (.cons hbulk .nil))

theorem requires_updateInputs : ∀ declaration ∈ entity.updateInputs graph, d.Requires declaration.schema [] := by
  simp only [Entity.updateInputs, List.forall_mem_cons]
  exact ⟨requires_nil Payload.acceptsAbsent_update, requires_nil Payload.acceptsAbsent_update,
    requires_nil Payload.acceptsAbsent_bulkUpdate, requires_nil Payload.acceptsAbsent_bulkUpdate,
    fun _ h => absurd h List.not_mem_nil⟩

theorem requires_whereInput : d.Requires entity.whereInput.schema [] :=
  requires_nil (Condition.acceptsAbsent_of_mem fun _ _ => DataModel.acceptsAbsent_onField?)

theorem requires_orderBy : d.Requires entity.orderBy.schema [] := by
  refine requires_nil fun p hp => ?_
  obtain ⟨field, -, rfl⟩ := List.mem_map.mp hp
  exact Entity.acceptsAbsent_byField field

theorem requires_fieldSelection : d.Requires entity.fieldSelection.schema [] := by
  refine requires_nil fun p hp => ?_
  rcases List.mem_append.mp hp with hp | hp
  · obtain ⟨field, -, rfl⟩ := List.mem_map.mp hp
    rfl
  · exact Entity.acceptsAbsent_relationChoices p hp

theorem requires_relationSelection : ∀ declaration ∈ entity.relationSelection, d.Requires declaration.schema [] := by
  intro declaration hd
  unfold Entity.relationSelection at hd
  split at hd
  · obtain rfl := List.mem_singleton.mp hd
    exact requires_nil Entity.acceptsAbsent_relationChoices
  · cases hd

end Document

namespace DataModel
variable {model : DataModel}

/-- Which entries objects about an entity must have. A record read back has its fields that are not nullable. A new
record states the fields without another source; a checked payload hides storage keys, and states required relations
instead. Updates, conditions, orderings and selections may lose any entries. -/
theorem requires_stated (hv : model.validate = .ok ()) {entity : Entity} (he : entity ∈ model.entities) :
    let graph := Graph.ofModel model
    model.document.Requires entity.recordDeclaration.schema (entity.alwaysRead.map (·.name)) ∧
    List.Forall₂
      (fun declaration form => model.document.Requires declaration.schema ((entity.stated form).map (·.name)))
      (entity.createInputs graph) [.checked, .unchecked, .unchecked] ∧
    ∀ declaration ∈ entity.updateInputs graph ++ [entity.whereInput, entity.orderBy, entity.fieldSelection] ++
      entity.relationSelection, model.document.Requires declaration.schema [] := by
  intro graph
  refine ⟨Document.requires_propertiesOf fun _ => Entity.mem_alwaysRead,
    Document.requires_createInputs fun _ => exists_edge_of_validate hv he, fun declaration hd => ?_⟩
  simp only [List.mem_append, List.mem_cons, List.not_mem_nil, or_false] at hd
  rcases hd with (hd | rfl | rfl | rfl) | hd
  · exact Document.requires_updateInputs declaration hd
  · exact Document.requires_whereInput
  · exact Document.requires_orderBy
  · exact Document.requires_fieldSelection
  · exact Document.requires_relationSelection declaration hd

/-- A new row of users must have its key and the key of its parent; an update of such rows may lose either or both. -/
theorem user_rows_stated :
    let accepts := fun purpose entries =>
      users.document.Accepts (.strictObject (Payload.bulkProperties purpose .unchecked user none)) (.object entries)
    let row := [("id", Json.int 1), ("parentId", .int 0)]
    users.validate = .ok () ∧ user ∈ users.entities ∧ accepts .create row ∧
    (∀ keys, accepts .create (Json.without keys row) ↔ "id" ∉ keys ∧ "parentId" ∉ keys) ∧
    ∀ entries, accepts .update entries → ∀ keys, accepts .update (Json.without keys entries) := by
  intro accepts row
  have huser : user ∈ users.entities := List.mem_cons_self
  have hint : ∀ n, users.document.Accepts (.leaf .int) (.int n) := fun n => Document.accepts_leaf.mpr rfl
  have hshape : Payload.bulkProperties .create .unchecked user none =
      [("id", .leaf .int), ("parentId", .leaf .int)] := rfl
  have hrow : accepts .create row := by
    refine Document.accepts_strictObject.mpr ⟨row, rfl, by simp [hshape, row], ?_, ?_⟩
    · simp [hshape, row, Json.entry?]
    · simp [hshape, row, Json.entry?, hint]
  obtain ⟨-, hcreate, hupdate⟩ := requires_stated validate_users huser
  simp only [Entity.createInputs, List.forall₂_cons] at hcreate
  obtain ⟨-, -, hmany, -⟩ := hcreate
  have hstated : (user.stated .unchecked).map (·.name) = ["id", "parentId"] := by decide
  refine ⟨validate_users, huser, hrow, fun keys => (hmany row hrow keys).trans ?_, fun entries hentries keys => ?_⟩
  · rw [hstated]
    constructor
    · exact fun h => ⟨fun hid => h _ hid (by decide), fun hparent => h _ hparent (by decide)⟩
    · rintro ⟨hid, hparent⟩ key hkey hmust
      simp only [List.mem_cons, List.not_mem_nil, or_false] at hmust
      rcases hmust with rfl | rfl
      · exact hid hkey
      · exact hparent hkey
  · have hrows := hupdate (user.updateInputs (Graph.ofModel users))[3] (by simp [Entity.updateInputs])
    exact (hrows entries hentries keys).mpr fun _ _ => List.not_mem_nil

end DataModel

end DataShapes
