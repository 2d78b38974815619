import DataShapes.Generation
import DataShapes.Proofs.Schema.Document

/-! # What a model builds

The declarations of a model are its records, as they are read back, and its inputs: all others. An input
is shared by all models, or belongs to an enumeration, to an entity, or to a relation field. The document
of the model declares the names of both. -/

namespace DataShapes

/-! ### Declarations by their kind -/

/-- The nested writes through a field are those to its far side; without one there are none. -/
theorem Graph.mem_nestedWrites {graph : Graph} {owner : Entity} {field : Field} {d : Declaration} :
    d ∈ graph.nestedWrites owner field ↔ ∃ edge, graph.edge? owner field = some edge ∧
      (d ∈ (NestedNames.ofEdge edge).creations graph field edge ∨
        d ∈ (NestedNames.ofEdge edge).changes graph field edge) := by
  unfold nestedWrites
  cases graph.edge? owner field with
  | none => simp
  | some edge => simp

/-- A payload of an entity states its fields, all of them or the value fields only. -/
theorem Entity.payload_cases {entity : Entity} {graph : Graph} {d : Declaration}
    (hd : d ∈ entity.createInputs graph ++ entity.updateInputs graph) : ∃ purpose form,
      d.schema = .strictObject (Payload.properties graph purpose form entity none) ∨
        d.schema = .strictObject (Payload.bulkProperties purpose form entity none) := by
  simp only [createInputs, updateInputs, List.mem_append, List.mem_cons, List.not_mem_nil, or_false] at hd
  rcases hd with (rfl | rfl | rfl) | rfl | rfl | rfl | rfl
  · exact ⟨.create, .checked, Or.inl rfl⟩
  · exact ⟨.create, .unchecked, Or.inl rfl⟩
  · exact ⟨.create, .unchecked, Or.inr rfl⟩
  · exact ⟨.update, .checked, Or.inl rfl⟩
  · exact ⟨.update, .unchecked, Or.inl rfl⟩
  · exact ⟨.update, .checked, Or.inr rfl⟩
  · exact ⟨.update, .unchecked, Or.inr rfl⟩

namespace DataModel

/-! ### Inputs by what they belong to -/

/-- The inputs that are named on nothing of the model. -/
def sharedInputs (model : DataModel) : List Declaration :=
  Primitives.declarations model ++ Filter.scalarDeclarations model ++ Operation.scalarDeclarations model

/-- The inputs that are named on an enumeration. -/
def enumerationInputs (model : DataModel) (enumeration : Enumeration) : List Declaration :=
  enumeration.declaration ::
    (Filter.enumerationDeclarations model enumeration ++ Operation.enumerationDeclarations model enumeration)

/-- The inputs that are named on an entity alone. -/
def entityInputs (model : DataModel) (entity : Entity) : List Declaration :=
  let graph := Graph.ofModel model
  entity.fieldNamesDeclaration :: (model.queryDeclarations graph entity ++ entity.createInputs graph ++
    entity.updateInputs graph ++ entity.aggregateInputs ++ entity.operationArguments)

/-- The declarations that a model builds, other than records as they are read back. -/
def inputs (model : DataModel) : List Declaration :=
  model.sharedInputs ++ model.enumerations.flatMap model.enumerationInputs ++
    model.entities.flatMap model.entityInputs ++
    model.entities.flatMap fun entity => entity.relationFields.flatMap ((Graph.ofModel model).nestedWrites entity)

/-- Some input is declared under a name. -/
def Provides (model : DataModel) (name : String) : Prop := ∃ d ∈ model.inputs, d.name = name

section
variable {model : DataModel} {d : Declaration}

theorem mem_inputs : d ∈ model.inputs ↔ d ∈ model.sharedInputs ∨
    (∃ enumeration ∈ model.enumerations, d ∈ model.enumerationInputs enumeration) ∨
    (∃ entity ∈ model.entities, d ∈ model.entityInputs entity) ∨
    ∃ entity ∈ model.entities, ∃ field ∈ entity.relationFields,
      d ∈ (Graph.ofModel model).nestedWrites entity field := by
  simp only [inputs, List.mem_append, List.mem_flatMap, or_assoc]

theorem mem_built :
    d ∈ model.built ↔ d ∈ model.inputs ∨ ∃ entity ∈ model.entities, d = entity.recordDeclaration := by
  rw [mem_inputs]
  simp only [built, sections, recordDeclarations, querySection, payloadSection, argumentSection,
    Filter.declarations, Operation.declarations, sharedInputs, enumerationInputs, entityInputs,
    List.flatMap_cons, List.flatMap_nil, List.append_nil, List.mem_append, List.mem_flatMap, List.mem_cons,
    List.not_mem_nil, or_false, List.mem_map, eq_comm (a := d), and_or_left, exists_or]
  simp only [or_assoc]
  constructor
  · rintro (h | h | h | h | h | h | h | h | h | h | h | h | h | h) <;> simp only [h, true_or, or_true]
  · rintro (h | h | h | h | h | h | h | h | h | h | h | h | h | h) <;> simp only [h, true_or, or_true]

/-- A shared input is a primitive, or filters or updates the values of a scalar type. -/
theorem shared_cases (hd : d ∈ model.sharedInputs) : d ∈ Primitives.declarations model ∨
    (∃ type ∈ model.scalarTypes, ∃ m, d.schema = Filter.ofScalar type m d.name) ∨
    ∃ type ∈ model.scalarTypes, ∃ nullable, d.schema = Operation.ofScalar type nullable := by
  simp only [sharedInputs, List.mem_append] at hd
  rcases hd with (hd | hd) | hd
  · exact Or.inl hd
  · obtain ⟨type, ht, hd⟩ := List.mem_flatMap.mp hd
    obtain ⟨m, -, hd⟩ := List.mem_filterMap.mp hd
    obtain ⟨name, -, rfl⟩ := Option.map_eq_some_iff.mp hd
    exact Or.inr (Or.inl ⟨type, ht, m, rfl⟩)
  · obtain ⟨type, ht, hd⟩ := List.mem_flatMap.mp hd
    obtain ⟨nullable, -, hd⟩ := List.mem_filterMap.mp hd
    obtain ⟨name, -, rfl⟩ := Option.map_eq_some_iff.mp hd
    exact Or.inr (Or.inr ⟨type, ht, nullable, rfl⟩)

/-- An input of an enumeration lists its members, or filters or updates them. -/
theorem enumerationInput_cases {enumeration : Enumeration} (hd : d ∈ model.enumerationInputs enumeration) :
    d = enumeration.declaration ∨
    (∃ m, d.schema = Filter.ofEnumeration (.ref (Naming.enumeration enumeration.name)) m d.name) ∨
    ∃ nullable, d.schema = Operation.ofEnumeration enumeration.name nullable := by
  simp only [enumerationInputs, List.mem_cons, List.mem_append] at hd
  rcases hd with hd | hd | hd
  · exact Or.inl hd
  · obtain ⟨m, -, rfl⟩ := List.mem_map.mp hd
    exact Or.inr (Or.inl ⟨m, rfl⟩)
  · obtain ⟨nullable, -, rfl⟩ := List.mem_map.mp hd
    exact Or.inr (Or.inr ⟨nullable, rfl⟩)

theorem provides_of_mem (h : d ∈ model.inputs) : model.Provides d.name := ⟨d, h, rfl⟩

/-! ### The document -/

/-- The document finds the first declaration of a name that was built. -/
theorem find?_document (name : String) :
    model.document.find? name = model.built.find? (·.name == name) :=
  Document.find?_ofSections model.sections name

theorem mem_names_document {name : String} :
    name ∈ model.document.names ↔ ∃ d ∈ model.built, d.name = name :=
  Document.mem_names_ofSections

theorem mem_built_of_mem_document (h : d ∈ model.document.declarations) : d ∈ model.built :=
  Document.mem_of_mem_ofSections h

theorem nodup_names_document (model : DataModel) : model.document.names.Nodup :=
  Document.nodup_names_ofSections model.sections

/-- No declaration that the model builds is dropped. -/
def DropsNothing (model : DataModel) : Prop := ∀ name, .duplicateDropped name ∉ model.reportedDocument.events

instance (model : DataModel) : Decidable model.DropsNothing :=
  decidable_of_iff (∀ event ∈ model.reportedDocument.events, (event matches .duplicateDropped _) = false)
    ⟨fun h name hn => Bool.noConfusion (h _ hn), fun h event he => by
      cases event with
      | duplicateDropped name => exact absurd he (h name)
      | _ => rfl⟩

theorem DropsNothing.declarations_document (h : model.DropsNothing) :
    model.document.declarations = model.built := by
  have hpushed : ∀ name, .duplicateDropped name ∉ (Document.ofSections model.sections).events := fun name hn =>
    h name (List.mem_append_left _ (List.mem_cons_of_mem _ hn))
  exact Document.declarations_pushAll hpushed

/-- Then the document finds every declaration that was built. -/
theorem DropsNothing.find?_of_mem_built (h : model.DropsNothing) (hd : d ∈ model.built) :
    model.document.find? d.name = some d :=
  Document.find?_of_mem (nodup_names_document model) (h.declarations_document ▸ hd)

theorem DropsNothing.find?_input (h : model.DropsNothing) (hd : d ∈ model.inputs) :
    model.document.find? d.name = some d :=
  h.find?_of_mem_built (mem_built.mpr (Or.inl hd))

theorem Provides.mem_names {name : String} (h : model.Provides name) : name ∈ model.document.names := by
  obtain ⟨d, hd, hn⟩ := h
  exact mem_names_document.mpr ⟨d, mem_built.mpr (Or.inl hd), hn⟩

end

end DataModel

end DataShapes
