import DataShapes.Proofs.Acceptance.StorageKeys

/-! # Payloads side by side

Payloads of one entity differ in what they are for, in their form, in the relation that they leave out and in whether
they have relations at all. Each of these differences is one of properties left out: all other properties are the same
and stand in the same order. -/

namespace DataShapes

namespace Payload
variable {graph : Graph} {purpose : Purpose} {form : Form} {entity : Entity} {relation field : Field}

/-- What a payload no longer has when it leaves out a relation: the relation, and in an unchecked payload the value
fields that store it. -/
def lost (form : Form) (entity : Entity) (relation : Field) : List Field :=
  relation :: match form with
    | .checked => []
    | .unchecked => entity.valueFields.filter fun column => relation.StoredIn column.name

theorem mem_lost : field ∈ lost form entity relation ↔
    field = relation ∨ form = .unchecked ∧ field ∈ entity.valueFields ∧ relation.StoredIn field.name := by
  cases form <;> simp [lost]

/-- Leaving out a relation hides the value fields that are lost with it, and no others. -/
theorem hides_some : hides entity form (some relation) field = true ↔
    hides entity form none field = true ∨ form = .unchecked ∧ relation.StoredIn field.name := by
  cases form with
  | checked => simp [hides]
  | unchecked => simp only [hides, List.contains_iff_mem, mem_impliedKeys]; simp

theorem ofField?_none : ofField? graph purpose form entity none field =
    if field.isRelation then (graph.edge? entity field).bind (nested? purpose form field)
    else if hides entity form none field then none else valueOf? purpose field := rfl

theorem mem_fields_of_mem_lost (hr : relation ∈ entity.relationFields) :
    ∀ other ∈ lost form entity relation, other ∈ entity.fields := by
  intro other ho
  rcases mem_lost.mp ho with rfl | ⟨-, hvalue, -⟩
  · exact Entity.mem_of_mem_relationFields hr
  · exact Entity.mem_of_mem_valueFields hvalue

/-- A payload that leaves out a relation says of each field what the full payload does, unless the field is lost. -/
theorem ofField?_some (hn : entity.fieldNames.Nodup) (hr : relation ∈ entity.relationFields)
    (hf : field ∈ entity.fields) : ofField? graph purpose form entity (some relation) field =
      if field ∈ lost form entity relation then none else ofField? graph purpose form entity none field := by
  have homitted : (some relation).any (·.name == field.name) = true ↔ field = relation := by
    rw [any_omitted_iff hn (by simpa using Entity.mem_of_mem_relationFields hr) hf, Option.some.injEq, eq_comm]
  by_cases heq : field = relation
  · rw [if_pos (mem_lost.mpr (Or.inl heq)), ofField?, if_pos (homitted.mpr heq)]
  · rw [ofField?, if_neg (mt homitted.mp heq), ofField?_none]
    cases hrelation : field.isRelation with
    | true =>
      have hkept : field ∉ lost form entity relation := by
        rw [mem_lost]
        rintro (rfl | ⟨-, hvalue, -⟩)
        · exact heq rfl
        · rw [Entity.isRelation_of_mem_valueFields hvalue] at hrelation
          cases hrelation
      rw [if_neg hkept, if_pos rfl, if_pos rfl]
    | false =>
      have hvalue : field ∈ entity.valueFields := List.mem_filter.mpr ⟨hf, by simp [hrelation]⟩
      have hlost : field ∈ lost form entity relation ↔ form = .unchecked ∧ relation.StoredIn field.name := by
        rw [mem_lost]
        simp [heq, hvalue]
      simp only [Bool.false_eq_true, ↓reduceIte, hides_some, hlost]
      by_cases hhidden : hides entity form none field = true <;>
        by_cases hstored : form = .unchecked ∧ relation.StoredIn field.name <;> simp [hhidden, hstored]

/-- Only a new record must state a relation: a required one, in a checked payload. -/
theorem nested_must_iff {edge : Edge} :
    (∃ schema, nested? purpose form field edge = some schema ∧ schema.acceptsAbsent = false) ↔
      purpose = .create ∧ form = .checked ∧ field.multiplicity = .required := by
  cases purpose <;> cases form <;> cases hm : field.multiplicity <;>
    simp [nested?, nestedRole?, mustState, Schema.acceptsAbsent, hm]

theorem acceptsAbsent_nested? (h : purpose = .update ∨ form = .unchecked) {edge : Edge} {schema : Schema}
    (hs : nested? purpose form field edge = some schema) : schema.acceptsAbsent = true := by
  cases hmust : schema.acceptsAbsent with
  | true => rfl
  | false =>
    obtain ⟨hcreate, hchecked, -⟩ := nested_must_iff.mp ⟨schema, hs, hmust⟩
    rcases h with rfl | rfl
    · cases hcreate
    · cases hchecked

/-- A payload says something about the same fields whatever it is for. -/
theorem isSome_ofField? (omitted : Option Field) : (ofField? graph .create form entity omitted field).isSome =
    (ofField? graph .update form entity omitted field).isSome := by
  unfold ofField?
  split
  · rfl
  · split
    · cases graph.edge? entity field with
      | none => rfl
      | some edge => cases form <;> cases hm : field.multiplicity <;> simp [nested?, nestedRole?, hm]
    · next hrelation =>
      rw [Bool.not_eq_true] at hrelation
      have hcreate : (valueOf? .create field).isSome = true := isSome_valueOf? hrelation
      have hupdate : (valueOf? .update field).isSome = true := isSome_valueOf? hrelation
      split
      · rfl
      · rw [hcreate, hupdate]

/-- An unchecked payload that leaves out no relation hides nothing. -/
@[simp] theorem hides_unchecked_none : hides entity .unchecked none field = false := by
  simp [hides, impliedKeys]

theorem bulkProperties_unchecked_none : bulkProperties purpose .unchecked entity none =
    Entity.propertiesOf entity.valueFields (valueOf? purpose) := by
  simp [bulkProperties]

theorem bulkProperties_eq (omitted : Option Field) : bulkProperties purpose form entity omitted =
    Entity.propertiesOf entity.fields fun field => if field ∈ entity.valueFields then
      if hides entity form omitted field then none else valueOf? purpose field else none := by
  rw [bulkProperties, Entity.propertiesOf, Entity.valueFields, List.filterMap_filter, List.filterMap_filter]
  refine List.filterMap_congr fun field hf => ?_
  cases hrelation : field.isRelation with
  | true => simp [hrelation]
  | false => cases hhidden : hides entity form omitted field <;> simp [hrelation, hf, hhidden]

/-- A payload that leaves out a relation is the full payload without what is lost with the relation. A payload in bulk
is the payload of the same form restricted to value fields. Payloads for new records and for updates have the same
keys. -/
theorem properties_agree (hn : entity.fieldNames.Nodup) (graph : Graph) (form : Form) :
    (∀ purpose, ∀ relation ∈ entity.relationFields, properties graph purpose form entity (some relation) =
      (properties graph purpose form entity none).filter fun p => p.1 ∉ (lost form entity relation).map (·.name)) ∧
    (∀ purpose omitted, (∀ o ∈ omitted, o ∈ entity.relationFields) → bulkProperties purpose form entity omitted =
      (properties graph purpose form entity omitted).filter fun p => p.1 ∈ entity.valueFields.map (·.name)) ∧
    ∀ omitted, keys (properties graph .create form entity omitted) =
      keys (properties graph .update form entity omitted) := by
  refine ⟨fun purpose relation hr => ?_, fun purpose omitted ho => ?_, fun omitted => ?_⟩
  · refine Entity.propertiesOf_eq_filter (fun key => key ∉ (lost form entity relation).map (·.name)) fun field hf => ?_
    have hmem : ∀ other ∈ lost form entity relation, other ∈ entity.fields := mem_fields_of_mem_lost hr
    have hlost := Entity.name_mem_map_iff hn hf hmem
    rw [ofField?_some hn hr hf]
    simp only [decide_eq_true_eq, hlost, ite_not]
  · rw [bulkProperties_eq]
    refine Entity.propertiesOf_eq_filter (fun key => key ∈ entity.valueFields.map (·.name)) fun field hf => ?_
    have hvalues := Entity.name_mem_map_iff hn hf fun other ho => Entity.mem_of_mem_valueFields ho
    simp only [decide_eq_true_eq, hvalues]
    split
    · next hvalue => exact (ofField?_value hn ho hvalue).symm
    · rfl
  · rw [keys, keys, properties, properties, Entity.map_key_propertiesOf, Entity.map_key_propertiesOf]
    simp only [isSome_ofField?]

end Payload

namespace DataModel

/-- A child written from inside its parent has neither the parent nor the key of the parent in unchecked payloads. -/
theorem children_agree : user.fieldNames.Nodup ∧ user.fields[2] ∈ user.relationFields ∧
    let graph := Graph.ofModel users
    let nested := fun purpose => Payload.properties graph purpose .unchecked user (some user.fields[2])
    (∀ purpose, nested purpose =
      (Payload.properties graph purpose .unchecked user none).filter fun p => p.1 ∉ ["parent", "parentId"]) ∧
    (∀ purpose, Payload.bulkProperties purpose .unchecked user (some user.fields[2]) =
      (nested purpose).filter fun p => p.1 ∈ ["id", "parentId"]) ∧
    Payload.keys (nested .create) = ["id", "children"] ∧ Payload.keys (nested .update) = ["id", "children"] := by
  have hn : user.fieldNames.Nodup := by decide
  have hparent : user.fields[2] ∈ user.relationFields := by decide
  have homitted : ∀ o ∈ some user.fields[2], o ∈ user.relationFields := by
    rintro o ⟨⟩
    exact hparent
  obtain ⟨hnested, hbulk, hkeys⟩ := Payload.properties_agree hn (Graph.ofModel users) .unchecked
  have hcreate : Payload.keys (Payload.properties (Graph.ofModel users) .create .unchecked user (some user.fields[2])) =
      ["id", "children"] := by decide
  exact ⟨hn, hparent, fun purpose => hnested purpose _ hparent, fun purpose => hbulk purpose _ homitted, hcreate,
    (hkeys (some user.fields[2])).symm.trans hcreate⟩

end DataModel

end DataShapes
