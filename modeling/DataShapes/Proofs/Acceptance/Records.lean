import DataShapes.Proofs.Acceptance.Payloads
import DataShapes.Proofs.Generation.WiderWrites

/-! # Records written back

Every way to write a field begins with the value itself, so what was read of a field is taken as it is. A payload that
hides no value field therefore takes a whole record as it was read. Values refer to primitives and to members of
enumerations only, and these are declared before anything else: nothing that is dropped later changes what they take. -/

namespace DataShapes

namespace DataModel
variable {model : DataModel} {d : Declaration} {name : String}

/-- What values rely on: primitives and the members of enumerations. -/
def valueInputs (model : DataModel) : List Declaration :=
  Primitives.declarations model ++ model.enumerations.map (·.declaration)

/-- The name is one that values rely on. -/
def ProvidesValue (model : DataModel) (name : String) : Prop := name ∈ model.valueInputs.map (·.name)

theorem providesValue_primitive (hn : name ∈ (Primitives.declarations model).map (·.name)) :
    model.ProvidesValue name := by
  rw [ProvidesValue, valueInputs, List.map_append]
  exact List.mem_append_left _ hn

theorem suppliesValues_providesValue : model.SuppliesValues model.ProvidesValue where
  inputJsonValue h := providesValue_primitive (by simp [Primitives.declarations, Primitives.json, h])
  enumerationMembers he := List.mem_map_of_mem (List.mem_append_right _ (List.mem_map_of_mem he))

theorem within_of_mem_valueInputs (hd : d ∈ model.valueInputs) : d.schema.Within model.ProvidesValue := by
  rcases List.mem_append.mp hd with hd | hd
  · exact within_primitive (fun _ => providesValue_primitive) hd
  · obtain ⟨enumeration, -, rfl⟩ := List.mem_map.mp hd
    exact .enumeration

theorem exists_built_eq_valueInputs_append (model : DataModel) :
    ∃ others, model.built = model.valueInputs ++ others := by
  simp only [built, sections, recordDeclarations, valueInputs, List.flatMap_cons, List.append_assoc]
  exact ⟨_, rfl⟩

/-- What values rely on is found under its name, for it comes first. -/
theorem mem_valueInputs_of_find? (hn : model.ProvidesValue name) (hd : model.document.find? name = some d) :
    d ∈ model.valueInputs := by
  obtain ⟨others, hbuilt⟩ := exists_built_eq_valueInputs_append model
  have hsome : (model.valueInputs.find? (·.name == name)).isSome = true := by
    simpa [List.find?_isSome, ProvidesValue] using hn
  obtain ⟨first, hfirst⟩ := Option.isSome_iff_exists.mp hsome
  rw [find?_document, hbuilt, List.find?_append, hfirst, Option.some_or] at hd
  cases hd
  exact List.mem_of_find?_eq_some hfirst

end DataModel

/-! ### Fields -/

namespace Document
variable {d : Document} {trail : List String} {value result : Json}

theorem eval_union_of_first {arm : Schema} {others : List Schema} (h : d.eval trail arm value = .ok result) :
    d.eval trail (.union (arm :: others)) value = .ok result := by
  rw [eval, evalArms, h]

/-- What takes each value that another schema takes also takes it beside `null`. -/
theorem eval_orNull_of_nullish (nullable : Bool) {inner outer : Schema}
    (houter : d.eval trail inner value = .ok value → d.eval trail outer value = .ok value)
    (h : d.eval trail (if nullable then inner.nullish else inner) value = .ok value) :
    d.eval trail (Filter.orNull nullable outer) value = .ok value := by
  unfold Filter.orNull
  cases nullable with
  | false => exact eval_optional.trans (houter h)
  | true =>
    refine eval_optional.trans (eval_nullable_eq_ok_iff.mpr ?_)
    exact (eval_nullish_eq_ok_iff.mp h).imp_right fun ⟨hne, hvalue⟩ => ⟨hne, houter hvalue⟩

end Document

namespace Payload
variable {purpose : Purpose} {field : Field} {read write : Schema} (hread : Entity.readValue? field = some read)
include hread

section
variable {d : Document} {trail : List String} {value : Json} (hvalue : d.eval trail read value = .ok value)
include hvalue

theorem eval_created?_of_read (hwrite : created? field = some write) : d.eval trail write value = .ok value := by
  obtain ⟨inner, hinner, rfl⟩ := Option.map_eq_some_iff.mp hread
  obtain ⟨_, hsame, rfl⟩ := Option.map_eq_some_iff.mp hwrite
  obtain rfl := Option.some.inj (hinner.symm.trans hsame)
  cases hm : field.multiplicity with
  | list =>
    rw [hm] at hvalue
    exact Document.eval_optional.trans (Document.eval_union_of_first hvalue)
  | nullable =>
    rw [hm] at hvalue
    exact Document.eval_orNull_of_nullish true id hvalue
  | required =>
    rw [hm] at hvalue
    dsimp only
    split
    · exact Document.eval_optional.trans hvalue
    · exact hvalue

theorem eval_updated?_of_read (hwrite : updated? field = some write) : d.eval trail write value = .ok value := by
  obtain ⟨inner, hinner, rfl⟩ := Option.map_eq_some_iff.mp hread
  simp only [updated?, Option.bind_eq_bind, Option.bind_eq_some_iff, Option.pure_def, Option.some.injEq] at hwrite
  obtain ⟨single, hsingle, many, hmany, rfl⟩ := hwrite
  -- Either way the value itself is the first arm.
  unfold Field.value? at hinner
  cases hl : field.isList with
  | true =>
    rw [hl, if_pos rfl, hmany, Option.some.injEq] at hinner
    subst hinner
    rw [if_neg (by simp [Field.multiplicity_eq_nullable, hl])] at hvalue
    rw [if_pos rfl]
    exact Document.eval_optional.trans (Document.eval_union_of_first hvalue)
  | false =>
    rw [hl, if_neg Bool.false_ne_true, hsingle, Option.some.injEq] at hinner
    subst hinner
    rw [if_neg Bool.false_ne_true]
    refine Document.eval_orNull_of_nullish _ (fun h => ?_) (by simpa only [beq_iff_eq] using hvalue)
    cases operationsName? field (field.multiplicity == .nullable) with
    | none => exact h
    | some name => exact Document.eval_union_of_first h

/-- What is read of a field is written as it is. -/
theorem eval_valueOf?_of_read (hwrite : valueOf? purpose field = some write) :
    d.eval trail write value = .ok value := by
  cases purpose with
  | create => exact eval_created?_of_read hread hvalue hwrite
  | update => exact eval_updated?_of_read hread hvalue hwrite

end

/-- What may be missing from a record read may be missing from one that is written. -/
theorem acceptsAbsent_of_read (habsent : read.acceptsAbsent = true) (hwrite : valueOf? purpose field = some write) :
    write.acceptsAbsent = true := by
  obtain ⟨inner, hinner, rfl⟩ := Option.map_eq_some_iff.mp hread
  split at habsent
  · next hnull =>
    obtain ⟨hlist, hrequired⟩ := Field.multiplicity_eq_nullable.mp hnull
    exact acceptsAbsent_valueOf? (by simp [Field.isOmittable, hrequired]) hwrite
  · rw [Field.acceptsAbsent_value? hinner] at habsent
    cases habsent

end Payload

/-! ### Records -/

namespace Payload
variable {graph : Graph} {purpose : Purpose} {entity : Entity} {payload : List (String × Schema)}

/-- The properties write all value fields of a record, and nothing else has to be written. -/
structure WritesRecord (purpose : Purpose) (entity : Entity) (properties : List (String × Schema)) : Prop where
  known : ∀ field ∈ entity.valueFields, field.name ∈ keys properties
  written : ∀ p ∈ properties, (∃ field ∈ entity.valueFields, field.name = p.1 ∧ valueOf? purpose field = some p.2) ∨
    p.1 ∉ entity.valueFields.map (·.name) ∧ p.2.acceptsAbsent = true

theorem writesRecord_properties (hn : entity.fieldNames.Nodup) :
    WritesRecord purpose entity (properties graph purpose .unchecked entity none) where
  known field hf := (mem_keys_value_iff hn (fun _ ho => absurd ho (by simp)) hf).mpr hides_unchecked_none
  written p hp := by
    obtain ⟨field, hf, hs, hname⟩ := Entity.mem_propertiesOf.mp hp
    rw [ofField?_none] at hs
    cases hr : field.isRelation with
    | true =>
      have hother : field ∉ entity.valueFields := fun h => by
        rw [Entity.isRelation_of_mem_valueFields h] at hr
        cases hr
      rw [if_pos hr] at hs
      obtain ⟨edge, -, hnested⟩ := Option.bind_eq_some_iff.mp hs
      refine Or.inr ⟨?_, acceptsAbsent_nested? (Or.inr rfl) hnested⟩
      rwa [← hname, Entity.name_mem_map_iff hn hf fun _ => Entity.mem_of_mem_valueFields]
    | false =>
      rw [if_neg (by simp [hr]), if_neg (by simp)] at hs
      exact Or.inl ⟨field, List.mem_filter.mpr ⟨hf, by simp [hr]⟩, hname, hs⟩

theorem writesRecord_bulkProperties : WritesRecord purpose entity (bulkProperties purpose .unchecked entity none) := by
  rw [bulkProperties_unchecked_none]
  refine ⟨fun field hf => ?_, fun p hp => Or.inl ?_⟩
  · rw [keys, Entity.map_key_propertiesOf]
    have hsome : (valueOf? purpose field).isSome = true := isSome_valueOf? (Entity.isRelation_of_mem_valueFields hf)
    exact List.mem_map_of_mem (List.mem_filter.mpr ⟨hf, hsome⟩)
  · obtain ⟨field, hf, hs, hname⟩ := Entity.mem_propertiesOf.mp hp
    exact ⟨field, hf, hname, hs⟩

/-- A payload that writes all of a record takes a record as it was read. -/
theorem WritesRecord.eval_eq_self (h : WritesRecord purpose entity payload) {d : Document} {trail : List String}
    {entries : List (String × Json)} (hsorted : Json.Sorted entries)
    (hkeys : ∀ e ∈ entries, e.1 ∈ entity.valueFields.map (·.name))
    (hfits : Document.Fits (fun schema part => d.eval [] schema part = .ok part)
      (Entity.propertiesOf entity.valueFields Entity.readValue?) entries) :
    d.eval trail (.strictObject payload) (.object entries) = .ok (.object entries) := by
  -- What is read of a value field.
  have hread : ∀ field ∈ entity.valueFields, ∃ read, Entity.readValue? field = some read ∧
      (field.name, read) ∈ Entity.propertiesOf entity.valueFields Entity.readValue? := by
    intro field hf
    obtain ⟨value, hvalue⟩ := Option.isSome_iff_exists.mp (Entity.isSome_value?_of_mem hf)
    have hs : Entity.readValue? field = some _ := Option.map_eq_some_iff.mpr ⟨value, hvalue, rfl⟩
    exact ⟨_, hs, Entity.mem_propertiesOf.mpr ⟨field, hf, hs, rfl⟩⟩
  refine Document.eval_object_eq_self hsorted (fun e he => ?_) ⟨fun p hp hnone => ?_, fun p hp part hpart => ?_⟩
  · obtain ⟨field, hf, hname⟩ := List.mem_map.mp (hkeys e he)
    exact hname ▸ h.known field hf
  · rcases h.written p hp with ⟨field, hf, hname, hwrite⟩ | ⟨-, habsent⟩
    · obtain ⟨read, hs, hmem⟩ := hread field hf
      rw [← hname] at hnone
      exact acceptsAbsent_of_read hs (hfits.absent _ hmem hnone) hwrite
    · exact habsent
  · rcases h.written p hp with ⟨field, hf, hname, hwrite⟩ | ⟨hother, -⟩
    · obtain ⟨read, hs, hmem⟩ := hread field hf
      rw [← hname] at hpart
      exact eval_valueOf?_of_read hs (hfits.present _ hmem part hpart) hwrite
    · exact absurd (hkeys _ (Json.mem_of_entry_eq_some hpart)) hother

end Payload

namespace DataModel
variable {model : DataModel}

/-- The unchecked payloads of an entity, in bulk or not, each for new records and for updates. -/
theorem writesRecord_unchecked {entity : Entity} (hn : entity.fieldNames.Nodup) (graph : Graph) :
    ∀ suffix ∈ ["CreateManyInput", "UncheckedCreateInput", "UncheckedUpdateInput", "UncheckedUpdateManyInput"],
      ∃ d ∈ entity.createInputs graph ++ entity.updateInputs graph, d.name = Naming.ofEntity entity.name suffix ∧
        ∃ purpose payload, d.schema = .strictObject payload ∧ Payload.WritesRecord purpose entity payload := by
  intro suffix hs
  simp only [List.mem_cons, List.not_mem_nil, or_false] at hs
  rcases hs with rfl | rfl | rfl | rfl
  · exact ⟨_, List.mem_append_left _ (.tail _ (.tail _ (.head _))), rfl, .create, _, rfl,
      Payload.writesRecord_bulkProperties⟩
  · exact ⟨_, List.mem_append_left _ (.tail _ (.head _)), rfl, .create, _, rfl, Payload.writesRecord_properties hn⟩
  · exact ⟨_, List.mem_append_right _ (.tail _ (.head _)), rfl, .update, _, rfl, Payload.writesRecord_properties hn⟩
  · exact ⟨_, List.mem_append_right _ (.tail _ (.tail _ (.tail _ (.head _)))), rfl, .update, _, rfl,
      Payload.writesRecord_bulkProperties⟩

/-- A record read back can be written again: the unchecked payloads of its entity take it and return it as it is. -/
theorem record_written_back (hv : model.validate = .ok ()) {entity : Entity} (he : entity ∈ model.entities)
    {value result : Json} (h : model.document.eval [] entity.recordDeclaration.schema value.normal = .ok result) :
    ∀ suffix ∈ ["CreateManyInput", "UncheckedCreateInput", "UncheckedUpdateInput", "UncheckedUpdateManyInput"],
      ∃ d ∈ entity.createInputs (Graph.ofModel model) ++ entity.updateInputs (Graph.ofModel model),
        d.name = Naming.ofEntity entity.name suffix ∧ model.document.eval [] d.schema result = .ok result := by
  have hclosed : ∀ name, model.ProvidesValue name → ∀ d, model.document.find? name = some d →
      d.schema.Within model.ProvidesValue :=
    fun _ hn _ hd => within_of_mem_valueInputs (mem_valueInputs_of_find? hn hd)
  have hread := suppliesValues_providesValue.within_readValue? (resolved_of_validate hv) he
  obtain ⟨entries, kept, -, hkept, rfl, hsorted, hfits⟩ :=
    Document.fits_of_eval_object hclosed h hread (Json.isNormal_normal value)
  have hkeys : ∀ e ∈ kept, e.1 ∈ entity.valueFields.map (·.name) := fun e he => by
    rw [hkept, List.mem_filter, Entity.map_key_readValues] at he
    simpa using he.2
  intro suffix hs
  obtain ⟨d, hd, hname, purpose, payload, hschema, hwrites⟩ :=
    writesRecord_unchecked ((namedApart_of_validate hv).fields entity he) (Graph.ofModel model) suffix hs
  exact ⟨d, hd, hname, hschema ▸ hwrites.eval_eq_self hsorted hkeys hfits⟩

/-- A user read back is a row of users. -/
theorem user_written_back :
    let row := Json.object [("id", .int 1), ("parentId", .int 0)]
    let inputs := user.createInputs (Graph.ofModel users) ++ user.updateInputs (Graph.ofModel users)
    users.validate = .ok () ∧ user ∈ users.entities ∧
    users.document.eval [] user.recordDeclaration.schema row.normal = .ok row ∧
    ∃ d ∈ inputs, d.name = "UserCreateManyInputSchema" ∧ users.document.eval [] d.schema row = .ok row := by
  intro row inputs
  have huser : user ∈ users.entities := List.mem_cons_self
  have hint : ∀ n, users.document.eval [] (.leaf .int) (.int n) = .ok (.int n) := fun n =>
    Document.eval_leaf_eq_ok_iff.mpr ⟨rfl, rfl⟩
  have hshape : user.recordDeclaration.schema = .object [("id", .leaf .int), ("parentId", .leaf .int)] false := rfl
  have hnormal : row.normal = row := rfl
  have hread : users.document.eval [] user.recordDeclaration.schema row.normal = .ok row := by
    rw [hshape, hnormal]
    refine Document.eval_object_eq_self (List.pairwise_pair.mpr (by decide)) (by simp) ⟨?_, ?_⟩
    · simp [Json.entry?]
    · simp [Json.entry?, hint]
  exact ⟨validate_users, huser, hread, record_written_back validate_users huser hread "CreateManyInput" (by decide)⟩

end DataModel

end DataShapes
