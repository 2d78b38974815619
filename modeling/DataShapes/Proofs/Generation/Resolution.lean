import DataShapes.Proofs.Inputs.Nested
import DataShapes.Proofs.Inputs.Operation
import DataShapes.Proofs.Workspace

/-! # Generation succeeds

In a model whose fields refer to declared entities and enumerations, inputs refer to inputs only and
records to values only. So nothing in the document of the model is left unresolved, and generation does
not fail. Nothing else that validation checks is needed for this. -/

namespace DataShapes

namespace DataModel

section
variable {model : DataModel} {d : Declaration}

/-- Inputs refer to inputs only, and all objects in them are strict. -/
theorem Resolved.within_of_mem_inputs (hm : model.Resolved) (hd : d ∈ model.inputs) :
    d.schema.Within model.Provides := by
  rcases mem_inputs.mp hd with hd | ⟨enumeration, he, hd⟩ | ⟨entity, he, hd⟩ | ⟨owner, ho, field, hf, hd⟩
  · exact supplies_provides.within_of_mem_shared hd
  · exact supplies_provides.within_of_mem_enumerationInputs he hd
  · simp only [entityInputs, List.mem_cons, List.mem_append] at hd
    rcases hd with rfl | (((hd | hd) | hd) | hd) | hd
    · exact .enumeration
    · exact within_of_mem_query he hm hd
    · exact supplies_provides.within_of_mem_payloads suppliesNested_provides he hm (List.mem_append_left _ hd)
    · exact supplies_provides.within_of_mem_payloads suppliesNested_provides he hm (List.mem_append_right _ hd)
    · exact Entity.within_of_mem_aggregateInputs hd
    · exact within_of_mem_operationArguments he hd
  · exact within_of_mem_nestedWrites ho hf hm hd

/-- The properties of a record as it is read back refer to what values rely on. -/
theorem SuppliesValues.within_readValue? {names : String → Prop} (hs : model.SuppliesValues names)
    (hm : model.Resolved) {entity : Entity} (he : entity ∈ model.entities) :
    ∀ p ∈ Entity.propertiesOf entity.valueFields Entity.readValue?, p.2.Within names := by
  refine Entity.within_propertiesOf fun field hf schema hread => ?_
  obtain ⟨value, hv, rfl⟩ := Option.map_eq_some_iff.mp hread
  have hvalue := hs.within_value? hm (mem_allFields_of_mem he (Entity.mem_of_mem_valueFields hf)) hv
  split
  · exact .nullish hvalue
  · exact hvalue

/-- Whatever a built declaration refers to is an input. -/
theorem Resolved.provides_of_mem_references (hm : model.Resolved) (hd : d ∈ model.built) :
    ∀ name ∈ d.schema.references, model.Provides name := by
  intro name hn
  rcases mem_built.mp hd with hd | ⟨entity, he, rfl⟩
  · exact (hm.within_of_mem_inputs hd).names_of_mem name hn
  · have hn : name ∈ Schema.referencesOfProperties
        (Entity.propertiesOf entity.valueFields Entity.readValue?) := by
      simpa [Entity.recordDeclaration, Schema.references] using hn
    obtain ⟨p, hp, hn⟩ := Schema.mem_referencesOfProperties.mp hn
    exact (supplies_provides.values.within_readValue? hm he p hp).names_of_mem name hn

end

end DataModel

/-! ### The document -/

namespace DataModel

section
variable {model : DataModel}

theorem Resolved.unresolved_eq_nil (hm : model.Resolved) : model.document.unresolved = [] := by
  refine Document.unresolved_eq_nil_iff.mpr fun d hd name hn => ?_
  exact (hm.provides_of_mem_references (mem_built_of_mem_document hd) name hn).mem_names

theorem Resolved.generate_eq_ok (hm : model.Resolved) :
    model.generate = .ok ⟨model.document.render, model.document.size⟩ := by
  rw [generate, Document.source, hm.unresolved_eq_nil]

/-- Nothing is left unresolved in the document of such a model, so its source is generated; and no run that
has read it fails for an unresolved reference, whether it checks the model or not. -/
theorem generate_of_resolved (hm : model.Resolved) :
    model.document.unresolved = [] ∧ model.generate = .ok ⟨model.document.render, model.document.size⟩ ∧
      ∀ (config : Config) (content : Except FileFault String),
        (ofFile config.schema content).value = .ok model →
          ∀ referrer missing, (config.generate content).value ≠ .error (.unresolved referrer missing) := by
  refine ⟨hm.unresolved_eq_nil, hm.generate_eq_ok, fun config content hread referrer missing hfail => ?_⟩
  rw [Config.value_generate hread] at hfail
  have haccepted : (if config.skipValidation then .ok model else model.checked) = .ok model ∨
      ∃ violation, (if config.skipValidation then .ok model else model.checked) =
        .error (Failure.invalid violation) := by
    split
    · exact Or.inl rfl
    · exact model.checked_eq
  rcases haccepted with h | ⟨violation, h⟩
  · rw [h, Except.bind, hm.generate_eq_ok] at hfail
    cases hfail
  · rw [h] at hfail
    cases hfail

end

/-- An entity with a relation to itself that has no reverse. -/
def unpaired : DataModel :=
  let manager := Field.plain "manager" (.relation ⟨"User", "", []⟩)
  ⟨[⟨"User", [{ manager with isRequired := false }], none, []⟩], []⟩

/-- A text that holds this model. -/
def unpairedText : String :=
  "\x7b\"models\":[\x7b\"name\":\"User\",\"fields\":[\x7b\"name\":\"manager\",\"kind\":\"object\"," ++
    "\"type\":\"User\"\x7d]\x7d],\"enums\":[]\x7d"

theorem unpaired_generates : unpaired.violation? = some (.unpairedRelation "User" "manager" "User" "") ∧
    unpaired.document.unresolved = [] ∧
      unpaired.generate = .ok ⟨unpaired.document.render, unpaired.document.size⟩ ∧
      ∀ skip referrer missing, (Config.generate ⟨"dmmf.json", "index.ts", skip⟩ (.ok unpairedText)).value ≠
        .error (.unresolved referrer missing) := by
  have hresolved : unpaired.Resolved := by decide
  have hread : (ofFile "dmmf.json" (.ok unpairedText)).value = .ok unpaired :=
    eq_ok_of_toOption (by decide +kernel)
  obtain ⟨hunresolved, hgenerate, hrun⟩ := generate_of_resolved hresolved
  exact ⟨by decide, hunresolved, hgenerate, fun skip => hrun ⟨"dmmf.json", "index.ts", skip⟩ _ hread⟩

end DataModel

end DataShapes
