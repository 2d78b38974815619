import DataShapes.Proofs.Generation.Lossless

/-! # Names that clash

Where names of a model make one name of a document, two schemas can be built under it. The cases are listed
here, each as a spelling of names of entities, enumerations and fields that lead back, and with what the
schemas differ in where such a spelling does no harm by itself. Each of them loses a schema. -/

namespace DataShapes

/-- The field that leads back, as the names of nested writes have it. -/
def Edge.spelling (edge : Edge) : String := Naming.pascalCase edge.reverse.name

namespace DataModel

/-- The name of an entity is that of another one and more. -/
structure RunsOn (model : DataModel) (entity : Entity) (more : String) (other : Entity) : Prop where
  mem : entity ∈ model.entities
  mem_other : other ∈ model.entities
  name_eq : other.name = entity.name ++ more

/-- A nested write through a field with this far side, in a role. -/
structure Writes (model : DataModel) (field : Field) (edge : Edge) (role : NestedRole) (d : Declaration) : Prop where
  mem_edges : (field, edge) ∈ model.edges
  mem : d ∈ (Graph.ofModel model).writesTo field edge
  mem_all : role ∈ NestedRole.all field (!edge.reverse.isList)
  name_eq : d.name = role.name (.ofEdge edge)

/-- A name is that of a filter of an enumeration in use, or of operations on it, but for the ending of all names. -/
def NamesInput (model : DataModel) (e : Enumeration) (own : String) : Prop :=
  (∃ m, (model.enumerationUsage e.name).has m = true ∧ Naming.enumerationFilter e.name m = own ++ "Schema") ∨
    ∃ nullable ∈ Operation.nullabilities (model.enumerationUsage e.name),
      Naming.enumerationOperations e.name nullable = own ++ "Schema"

/-- Names of a model give one name to two schemas. -/
inductive Clash (model : DataModel) : Prop
  /-- An entity is named like something that is shared, -/
  | shared {entity : Entity} {d : Declaration} : entity ∈ model.entities → d ∈ model.sharedInputs →
      d.name = Naming.ofEntity entity.name "" → Clash model
  /-- like an enumeration, -/
  | enumeration {entity : Entity} {e : Enumeration} : entity ∈ model.entities → e ∈ model.enumerations →
      entity.name = e.name → Clash model
  /-- or like another one with a suffix that has a declaration. -/
  | suffix {entity other : Entity} {s : String} {d : Declaration} : model.RunsOn entity s other → s ≠ "" →
      (.entity entity.name, d) ∈ model.owned → d.name = Naming.ofEntity entity.name s → Clash model
  /-- An enumeration is named like something that is shared and does not list its members, -/
  | sharedMembers {e : Enumeration} {d : Declaration} : e ∈ model.enumerations → d ∈ model.sharedInputs →
      d.name = Naming.enumeration e.name → d.schema ≠ .enumeration e.values → Clash model
  /-- or like an entity with such a suffix, unless it is that of the value fields, with its members as their names. -/
  | suffixMembers {e : Enumeration} {entity : Entity} {s : String} {d : Declaration} : e ∈ model.enumerations →
      entity ∈ model.entities → e.name = entity.name ++ s → s ≠ "" → (.entity entity.name, d) ∈ model.owned →
      d.name = Naming.ofEntity entity.name s →
      (s = "ScalarFieldEnum" → entity.valueFields.map (·.name) ≠ e.values) → Clash model
  /-- An entity or an enumeration is named like an input of an enumeration. -/
  | input {e : Enumeration} {own : String} : own ∈ model.entities.map (·.name) ++ model.enumerations.map (·.name) →
      e ∈ model.enumerations → model.NamesInput e own → Clash model
  /-- A filter of an enumeration is named like the filter of another one for fields of other multiplicity. -/
  | filters {e other : Enumeration} {more : String} {m : Multiplicity} : e ∈ model.enumerations →
      other ∈ model.enumerations → (more, m) ∈ [("Nullable", .nullable), ("NullableList", .list)] →
      e.name = other.name ++ more → (model.enumerationUsage e.name).required = true →
      (model.enumerationUsage other.name).has m = true → Clash model
  /-- A filter of an enumeration is named like a filter of relations to an entity. -/
  | relationFilter {e : Enumeration} {entity : Entity} {more : String} {m : Multiplicity} : e ∈ model.enumerations →
      entity ∈ model.entities →
      (more, m) ∈ [("Relation", .required), ("NullableRelation", .nullable), ("ListRelation", .list)] →
      "Enum" ++ e.name = entity.name ++ more → (model.enumerationUsage e.name).required = true →
      (model.targetUsage entity.name).has m = true → Clash model
  /-- Operations on an enumeration are named like a nested write and differ from it, as they do from all but payloads
  of one field `set`. -/
  | operations {e : Enumeration} {nullable : Bool} {field : Field} {edge : Edge} {role : NestedRole} {d : Declaration}
      {front : String} : e ∈ model.enumerations →
      nullable ∈ Operation.nullabilities (model.enumerationUsage e.name) → model.Writes field edge role d →
      role.ending = "Input" → edge.spelling = front ++ "FieldUpdateOperations" →
      (if nullable then "NullableEnum" else "Enum") ++ e.name = edge.target.name ++ role.opening ++ front →
      d.schema ≠ Operation.ofEnumeration e.name nullable → Clash model
  /-- An entity is named like another one with the stem of an operation. -/
  | arguments {entity other : Entity} {stem : String} : model.RunsOn entity stem other →
      stem ∈ Entity.operationStems → Clash model
  /-- Relations to an entity are filtered like relations of other multiplicity to another one. -/
  | relationFilters {entity other : Entity} {more : String} {m : Multiplicity} : model.RunsOn entity more other →
      (more, m) ∈ [("Nullable", .nullable), ("List", .list)] → (model.targetUsage entity.name).has m = true →
      (model.targetUsage other.name).required = true → Clash model
  /-- Conditions on an entity are named like those on the value fields of another one. -/
  | scalarWhere {entity other : Entity} : model.RunsOn entity "Scalar" other →
      (model.targetUsage entity.name).list = true →
      Entity.propertiesOf entity.valueFields Condition.onValue? ≠
        Entity.propertiesOf other.fields Condition.onField? → Clash model
  /-- Selections of an entity are named like those of the counts of another one. -/
  | counts {entity other : Entity} : model.RunsOn entity "CountOutputType" other → entity.ownsListRelation = true →
      (other.hasRelations = true ∨ (entity.countableFields (Graph.ofModel model)).map (·.name) ≠
        other.valueFields.map (·.name)) → Clash model
  /-- Checked payloads of an entity are named like unchecked ones of another one. -/
  | unchecked {entity other : Entity} {purpose : Purpose} : model.RunsOn entity "Unchecked" other →
      Payload.properties (Graph.ofModel model) purpose .unchecked entity none ≠
        Payload.properties (Graph.ofModel model) purpose .checked other none → Clash model
  /-- So are those that leave out a field that leads back, -/
  | uncheckedWrites {field field' : Field} {edge edge' : Edge} {purpose : Purpose} : (field, edge) ∈ model.edges →
      (field', edge') ∈ model.edges → model.RunsOn edge.target "Unchecked" edge'.target →
      edge.spelling = edge'.spelling →
      Payload.properties (Graph.ofModel model) purpose .unchecked edge.target (some edge.reverse) ≠
        Payload.properties (Graph.ofModel model) purpose .checked edge'.target (some edge'.reverse) → Clash model
  /-- and lists of them. -/
  | uncheckedLists {field field' : Field} {edge edge' : Edge} : (field, edge) ∈ model.edges →
      (field', edge') ∈ model.edges → model.RunsOn edge.target "Unchecked" edge'.target → field.isList = true →
      field'.isList = true → edge.spelling ∈ [edge'.spelling, edge'.spelling ++ "Nested"] → Clash model
  /-- An entity is named like the target of a nested write with the opening of the write and a beginning of
  the field that leads back; the rest of that field and the ending are a suffix of its own. What is declared under it
  differs from the write: payloads of two entities can be the same. -/
  | write {field : Field} {edge : Edge} {role : NestedRole} {write d : Declaration} {other : Entity}
      {front back : String} : model.Writes field edge role write →
      model.RunsOn edge.target (role.opening ++ front) other → edge.spelling = front ++ back →
      (.entity other.name, d) ∈ model.owned → d.name = Naming.ofEntity other.name (back ++ role.ending) →
      write.schema ≠ d.schema → Clash model
  /-- Two fields lead back from one entity and agree in pascal case. -/
  | fields {field field' : Field} {edge edge' : Edge} : (field, edge) ∈ model.edges → (field', edge') ∈ model.edges →
      edge.target = edge'.target → edge.spelling = edge'.spelling → edge.reverse ≠ edge'.reverse → Clash model
  /-- One of them, both leading back to lists, runs on from the other into an ending. -/
  | endings {field field' : Field} {edge edge' : Edge} : (field, edge) ∈ model.edges → (field', edge') ∈ model.edges →
      edge.target = edge'.target → field.isList = true → field'.isList = true →
      edge.spelling = edge'.spelling ++ "Nested" → Clash model
  /-- Pascal case leaves nothing of one of them, and a value field stores it. -/
  | rows {field value : Field} {edge : Edge} : (field, edge) ∈ model.edges → field.isList = true →
      edge.reverse.isList = false → edge.spelling = "" → value ∈ edge.target.valueFields →
      value.name ∈ Payload.impliedKeys (some edge.reverse) → Clash model

section
variable {model : DataModel}

theorem RunsOn.ofEntity_eq {entity other : Entity} {more : String} (h : model.RunsOn entity more other)
    (suffix : String) : Naming.ofEntity entity.name (more ++ suffix) = Naming.ofEntity other.name suffix := by
  simp only [Naming.ofEntity, h.name_eq, String.append_assoc]

theorem RunsOn.name_ne {entity other : Entity} {more : String} (h : model.RunsOn entity more other)
    (hmore : more ≠ "") : entity.name ≠ other.name := by
  rw [h.name_eq]
  exact fun heq => hmore (String.append_eq_left_iff.mp heq.symm)

theorem Writes.name_eq_ofEntity {field : Field} {edge : Edge} {role : NestedRole} {d : Declaration}
    (h : model.Writes field edge role d) : d.name = Naming.ofEntity edge.target.name (role.suffix edge.spelling) :=
  h.name_eq.trans (NestedRole.name_eq_ofEntity role (.ofEdge edge))

theorem Writes.mem_owned {field : Field} {edge : Edge} {role : NestedRole} {d : Declaration}
    (h : model.Writes field edge role d) : (.entity edge.target.name, d) ∈ model.owned :=
  mem_owned_entity.mpr (Or.inr ⟨field, edge, h.mem_edges, rfl, h.mem⟩)

theorem Writes.mem_possible {field : Field} {edge : Edge} {role : NestedRole} {d : Declaration}
    (h : model.Writes field edge role d) : role ∈ NestedRole.possible := NestedRole.mem_possible h.mem_all

end

/-! ### Declarations by their owners -/

section
variable {model : DataModel}

theorem enumeration_cases {name : String} {d : Declaration} (h : (.enumeration name, d) ∈ model.owned) :
    ∃ e ∈ model.enumerations, name = e.name ∧ (d = e.declaration ∨
      (∃ m, (model.enumerationUsage e.name).has m = true ∧ d.name = Naming.enumerationFilter e.name m) ∨
      ∃ nullable ∈ Operation.nullabilities (model.enumerationUsage e.name),
        d = ⟨Naming.enumerationOperations e.name nullable, Operation.ofEnumeration e.name nullable⟩) := by
  obtain ⟨e, he, hname, hd⟩ := mem_owned_enumeration.mp h
  refine ⟨e, he, hname, ?_⟩
  simp only [enumerationInputs, List.mem_cons, List.mem_append] at hd
  rcases hd with hd | hd | hd
  · exact Or.inl hd
  · obtain ⟨m, hm, rfl⟩ := List.mem_map.mp hd
    exact Or.inr (Or.inl ⟨m, Usage.mem_multiplicities.mp hm, rfl⟩)
  · obtain ⟨nullable, hu, rfl⟩ := List.mem_map.mp hd
    exact Or.inr (Or.inr ⟨nullable, hu, rfl⟩)

theorem entity_cases {name : String} {d : Declaration} (h : (.entity name, d) ∈ model.owned) :
    (∃ e ∈ model.entities, name = e.name ∧ d ∈ model.entityDeclarations e) ∨
      ∃ field edge role, model.Writes field edge role d ∧ name = edge.target.name := by
  refine (mem_owned_entity.mp h).imp_right ?_
  rintro ⟨field, edge, hedge, hname, hd⟩
  obtain ⟨role, hrole, hn⟩ := Graph.exists_role hd
  exact ⟨field, edge, role, ⟨hedge, hd, hrole, hn⟩, hname⟩

theorem exists_entity_of_owned {name : String} {d : Declaration} (h : (.entity name, d) ∈ model.owned) :
    ∃ entity ∈ model.entities, entity.name = name ∧ ∃ s, d.name = Naming.ofEntity entity.name s := by
  rcases entity_cases h with ⟨e, he, rfl, hd⟩ | ⟨field, edge, role, hwrite, rfl⟩
  · obtain ⟨s, -, hn⟩ := exists_fixedSuffix hd
    exact ⟨e, he, rfl, s, hn⟩
  · exact ⟨edge.target, target_mem_of_mem_edges hwrite.mem_edges, rfl, _, hwrite.name_eq_ofEntity⟩

end

end DataModel

/-! ### Rows without a field -/

namespace Payload

/-- New rows stay as they are when a relation is left out that no value field stores. -/
theorem bulkProperties_eq_iff {entity : Entity} {omitted : Option Field} :
    bulkProperties .create .unchecked entity omitted = bulkProperties .create .unchecked entity none ↔
      ∀ field ∈ entity.valueFields, field.name ∉ impliedKeys omitted := by
  have hall : entity.valueFields.filter (!hides entity .unchecked none ·) = entity.valueFields :=
    List.filter_eq_self.mpr fun field _ => rfl
  constructor
  · intro h field hf hkey
    have hcreated : (created? field).isSome = true := by
      rw [created?, Option.isSome_map]
      exact Entity.isSome_value?_of_mem hf
    obtain ⟨schema, hs⟩ := Option.isSome_iff_exists.mp hcreated
    have hmem : (field.name, schema) ∈ bulkProperties .create .unchecked entity none := by
      rw [bulkProperties, hall]
      exact Entity.mem_propertiesOf.mpr ⟨field, hf, hs, rfl⟩
    rw [← h] at hmem
    obtain ⟨other, ho, -, hn⟩ := Entity.mem_propertiesOf.mp hmem
    have hn : other.name = field.name := hn
    have hshown := (List.mem_filter.mp ho).2
    simp [hides, hn, hkey] at hshown
  · intro h
    rw [bulkProperties, bulkProperties, hall, List.filter_eq_self.mpr fun field hf => ?_]
    simpa [hides] using h field hf

end Payload

end DataShapes
