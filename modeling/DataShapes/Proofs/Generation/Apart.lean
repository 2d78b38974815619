import DataShapes.Proofs.Generation.Owners

/-! # Names of one owner

Whatever a model looks like, an owner has its declarations from a list that depends on the owner alone, and
the names in that list are distinct. So declarations that are named on one owner, by no relation field or by
the same one, are told apart by their names. -/

namespace DataShapes

/-! ### The fixed vocabulary -/

def Multiplicity.all : List Multiplicity := [.required, .nullable, .list]

theorem Multiplicity.mem_all (m : Multiplicity) : m ∈ all := by
  cases m <;> decide

namespace DataModel

/-- All declarations that are named on nothing of a model. -/
def vocabulary : List Declaration :=
  Primitives.ordering ++ Primitives.json ++
    (ScalarType.recognized.flatMap fun type => Multiplicity.all.filterMap fun multiplicity =>
      (Naming.scalarFilter? type multiplicity).map fun name => ⟨name, Filter.ofScalar type multiplicity name⟩) ++
    ScalarType.recognized.flatMap fun type => [false, true].filterMap fun nullable =>
      (Naming.scalarOperations? type nullable).map fun name => ⟨name, Operation.ofScalar type nullable⟩

theorem nodup_names_vocabulary : (vocabulary.map (·.name)).Nodup := by decide +kernel

theorem mem_vocabulary_of_mem_shared {model : DataModel} {d : Declaration} (h : d ∈ model.sharedInputs) :
    d ∈ vocabulary := by
  simp only [sharedInputs, vocabulary, Primitives.declarations, Filter.scalarDeclarations,
    Operation.scalarDeclarations, List.mem_append, List.mem_flatMap, List.mem_filterMap] at h ⊢
  rcases h with ((h | h) | ⟨type, ht, multiplicity, -, h⟩) | ⟨type, ht, nullable, -, h⟩
  · exact Or.inl (Or.inl (Or.inl h))
  · split at h
    · exact Or.inl (Or.inl (Or.inr h))
    · cases h
  · exact Or.inl (Or.inr ⟨type, List.mem_of_mem_filter ht, multiplicity, multiplicity.mem_all, h⟩)
  · exact Or.inr ⟨type, List.mem_of_mem_filter ht, nullable, by cases nullable <;> decide, h⟩

end DataModel

/-! ### Enumerations -/

namespace Enumeration

/-- All declarations that are named on an enumeration. -/
def possibleInputs (enumeration : Enumeration) : List Declaration :=
  enumeration.declaration ::
    ((Multiplicity.all.map fun multiplicity =>
        let name := Naming.enumerationFilter enumeration.name multiplicity
        ⟨name, Filter.ofEnumeration (.ref (Naming.enumeration enumeration.name)) multiplicity name⟩) ++
      [false, true].map fun nullable =>
        ⟨Naming.enumerationOperations enumeration.name nullable,
          Operation.ofEnumeration enumeration.name nullable⟩)

theorem nodup_names_possibleInputs (enumeration : Enumeration) :
    (enumeration.possibleInputs.map (·.name)).Nodup := by
  -- They differ already in length.
  refine List.Nodup.of_map (fun name => name.toList.length) ?_
  simp [possibleInputs, declaration, Multiplicity.all, Naming.enumeration, Naming.enumerationFilter,
    Naming.filterSuffix, Naming.enumerationOperations, Naming.operations]

theorem mem_possibleInputs {model : DataModel} {enumeration : Enumeration} {d : Declaration}
    (h : d ∈ model.enumerationInputs enumeration) : d ∈ enumeration.possibleInputs := by
  simp only [DataModel.enumerationInputs, Filter.enumerationDeclarations, Operation.enumerationDeclarations,
    possibleInputs, List.mem_cons, List.mem_append, List.mem_map] at h ⊢
  rcases h with h | ⟨multiplicity, -, h⟩ | ⟨nullable, -, h⟩
  · exact Or.inl h
  · exact Or.inr (Or.inl ⟨multiplicity, multiplicity.mem_all, h⟩)
  · exact Or.inr (Or.inr ⟨nullable, by cases nullable <;> decide, h⟩)

end Enumeration

theorem Naming.enumerationOperations_eq (name : String) (nullable : Bool) : enumerationOperations name nullable =
    (if nullable then "NullableEnum" else "Enum") ++ name ++ "FieldUpdateOperationsInputSchema" := by
  cases nullable <;> simp [enumerationOperations, operations, ← String.append_assoc]

/-! ### Entities -/

theorem Naming.ofEntity_inj {entity s t : String} (h : ofEntity entity s = ofEntity entity t) : s = t :=
  (String.append_right_inj _).mp ((String.append_left_inj _).mp h)

theorem Naming.ofEntity_left_inj {entity other s : String} (h : ofEntity entity s = ofEntity other s) :
    entity = other :=
  (String.append_left_inj _).mp ((String.append_left_inj _).mp h)

namespace Entity

/-- The filter of relation fields of one multiplicity that lead to the entity. -/
def relationFilter (entity : Entity) : Multiplicity → Declaration
  | .required => ⟨Naming.ofEntity entity.name "RelationFilter", entity.quantified ["is", "isNot"] false⟩
  | .nullable => ⟨Naming.ofEntity entity.name "NullableRelationFilter", entity.quantified ["is", "isNot"] true⟩
  | .list => ⟨Naming.ofEntity entity.name "ListRelationFilter", entity.quantified ["every", "some", "none"] false⟩

theorem mem_relationFilters {entity : Entity} {usage : Usage} {m : Multiplicity} (h : usage.has m = true) :
    entity.relationFilter m ∈ entity.relationFilters usage := by
  cases m <;> simp only [Usage.has] at h <;> simp [relationFilters, relationFilter, h]

/-- Without relations there is none to choose. -/
theorem relationChoices_eq_nil {entity : Entity} (h : entity.hasRelations = false) : entity.relationChoices = [] := by
  have hnone : entity.relationFields = [] := by simpa [hasRelations] using h
  have hfields : ∀ field ∈ entity.fields, field.relation? = none := fun field hf => by
    by_contra hrelation
    have hmem : field ∈ entity.relationFields :=
      List.mem_filter.mpr ⟨hf, by simpa [Field.isRelation, Option.isSome_iff_ne_none] using hrelation⟩
    simp [hnone] at hmem
  have hchoices : propertiesOf entity.fields (fun field => field.relation?.map (Selection.ofRelation field)) = [] :=
    List.filterMap_eq_nil_iff.mpr fun field hf => by simp [hfields field hf]
  rw [relationChoices, hchoices, ownsListRelation, hnone]
  rfl

end Entity

namespace DataModel
variable {model : DataModel} {entity : Entity} {d : Declaration}

theorem map_name_entityDeclarations (model : DataModel) (entity : Entity) :
    (model.entityDeclarations entity).map (·.name) =
      ("" :: entity.inputSuffixes (model.targetUsage entity.name)).map (Naming.ofEntity entity.name) := by
  rw [entityDeclarations, List.map_cons, List.map_cons, map_name_entityInputs]
  rfl

theorem nodup_names_entityDeclarations (model : DataModel) (entity : Entity) :
    ((model.entityDeclarations entity).map (·.name)).Nodup := by
  rw [map_name_entityDeclarations]
  exact (Entity.nodup_fixedSuffixes.sublist (entity.inputSuffixes_sublist _)).map fun _ _ => Naming.ofEntity_inj

/-- The name of such a declaration has one of the fixed suffixes. -/
theorem exists_fixedSuffix (h : d ∈ model.entityDeclarations entity) :
    ∃ suffix ∈ Entity.fixedSuffixes, d.name = Naming.ofEntity entity.name suffix := by
  have hname : d.name ∈ (model.entityDeclarations entity).map (·.name) := List.mem_map_of_mem h
  rw [map_name_entityDeclarations] at hname
  obtain ⟨suffix, hs, hname⟩ := List.mem_map.mp hname
  exact ⟨suffix, (entity.inputSuffixes_sublist _).subset hs, hname.symm⟩

theorem mem_inputSuffixes_of_name (hd : d ∈ model.entityDeclarations entity)
    {s : String} (hn : d.name = Naming.ofEntity entity.name s) :
    s ∈ "" :: entity.inputSuffixes (model.targetUsage entity.name) := by
  have hname : d.name ∈ (model.entityDeclarations entity).map (·.name) := List.mem_map_of_mem hd
  rw [map_name_entityDeclarations, hn] at hname
  obtain ⟨t, ht, heq⟩ := List.mem_map.mp hname
  exact Naming.ofEntity_inj heq ▸ ht

theorem eq_of_name_entityDeclarations {a b : Declaration} (ha : a ∈ model.entityDeclarations entity)
    (hb : b ∈ model.entityDeclarations entity) (hn : a.name = b.name) : a = b :=
  List.inj_on_of_nodup_map (nodup_names_entityDeclarations model entity) ha hb hn

theorem query_mem_entityDeclarations (h : d ∈ model.queryDeclarations (Graph.ofModel model) entity) :
    d ∈ model.entityDeclarations entity := by
  simp [entityDeclarations, entityInputs, h]

theorem checkedPayload_mem_entityDeclarations (entity : Entity) (purpose : Purpose) :
    ⟨Naming.ofEntity entity.name (purpose.stem ++ "Input"),
      .strictObject (Payload.properties (Graph.ofModel model) purpose .checked entity none)⟩ ∈
        model.entityDeclarations entity := by
  cases purpose <;> simp [entityDeclarations, entityInputs, Entity.createInputs, Entity.updateInputs, Purpose.stem]

theorem uncheckedPayload_mem_entityDeclarations (entity : Entity) (purpose : Purpose) :
    ⟨Naming.ofEntity entity.name ("Unchecked" ++ (purpose.stem ++ "Input")),
      .strictObject (Payload.properties (Graph.ofModel model) purpose .unchecked entity none)⟩ ∈
        model.entityDeclarations entity := by
  cases purpose <;> simp [entityDeclarations, entityInputs, Entity.createInputs, Entity.updateInputs, Purpose.stem]

theorem arguments_mem_entityDeclarations (h : d ∈ entity.operationArguments) : d ∈ model.entityDeclarations entity := by
  simp [entityDeclarations, entityInputs, h]

theorem relationFilter_mem_entityDeclarations {m : Multiplicity} (h : (model.targetUsage entity.name).has m = true) :
    entity.relationFilter m ∈ model.entityDeclarations entity :=
  query_mem_entityDeclarations (by simp [queryDeclarations, Entity.mem_relationFilters h])

theorem rows_mem_entityDeclarations (model : DataModel) (entity : Entity) :
    ⟨Naming.ofEntity entity.name "CreateManyInput",
      .strictObject (Payload.bulkProperties .create .unchecked entity none)⟩ ∈ model.entityDeclarations entity := by
  simp [entityDeclarations, entityInputs, Entity.createInputs]

theorem fieldNames_mem_entityDeclarations (model : DataModel) (entity : Entity) :
    entity.fieldNamesDeclaration ∈ model.entityDeclarations entity := by
  simp [entityDeclarations, entityInputs]

theorem schema_of_name_eq_rows (h : d ∈ model.entityDeclarations entity)
    (hn : d.name = Naming.ofEntity entity.name "CreateManyInput") :
    d.schema = .strictObject (Payload.bulkProperties .create .unchecked entity none) := by
  rw [eq_of_name_entityDeclarations h (rows_mem_entityDeclarations model entity) hn]

end DataModel

/-! ### Relation fields -/

namespace Graph

/-- All nested writes through any field with this far side, in the order of their roles. -/
def possibleWrites (graph : Graph) (edge : Edge) : List Declaration :=
  let names := NestedNames.ofEdge edge
  let bulkAllowed := !edge.reverse.isList
  names.payload graph .create edge ++ [names.connectOrCreate] ++ names.createRows edge ++
    [names.createMany "CreateNestedMany" bulkAllowed, names.createMany "UncheckedCreateNestedMany" bulkAllowed,
      names.createOne] ++
    names.payload graph .update edge ++ names.changeMany edge ++
    [names.updateMany "UpdateMany" bulkAllowed, names.updateMany "UncheckedUpdateMany" bulkAllowed,
      names.upsertOne, names.changeOne, names.updateOne true, names.updateOne false]

variable {graph : Graph} {field : Field} {edge : Edge} {d : Declaration}

theorem map_name_possibleWrites (graph : Graph) (edge : Edge) :
    (graph.possibleWrites edge).map (·.name) = NestedRole.possible.map (·.name (.ofEdge edge)) := rfl

theorem map_name_writesTo (graph : Graph) (field : Field) (edge : Edge) :
    (graph.writesTo field edge).map (·.name) =
      (NestedRole.all field (!edge.reverse.isList)).map (·.name (.ofEdge edge)) := by
  rw [writesTo, NestedRole.all, List.map_append, List.map_append, NestedNames.map_name_creations,
    NestedNames.map_name_changes]

theorem mem_possibleWrites (h : d ∈ graph.writesTo field edge) : d ∈ graph.possibleWrites edge := by
  unfold writesTo NestedNames.creations NestedNames.changes at h
  unfold possibleWrites
  cases hlist : field.isList <;> cases hmany : edge.reverse.isList <;>
    cases hnullable : field.multiplicity == .nullable <;> simp [hlist, hmany, hnullable] at h ⊢ <;> grind

/-- A nested write has one of the roles that a relation field has. -/
theorem exists_role (h : d ∈ graph.writesTo field edge) :
    ∃ role ∈ NestedRole.all field (!edge.reverse.isList), d.name = role.name (.ofEdge edge) := by
  have hname : d.name ∈ (graph.writesTo field edge).map (·.name) := List.mem_map_of_mem h
  rw [map_name_writesTo] at hname
  obtain ⟨role, hr, hname⟩ := List.mem_map.mp hname
  exact ⟨role, hr, hname.symm⟩

end Graph

namespace NestedRole

theorem name_inj {names : NestedNames} {r s : NestedRole} (hr : r ∈ possible) (hs : s ∈ possible)
    (h : r.name names = s.name names) : r = s := by
  rw [name_eq_ofEntity, name_eq_ofEntity] at h
  rcases eq_of_suffix_eq hr hs (Naming.ofEntity_inj h) with ⟨rfl, -⟩ | ⟨-, -, h⟩ | ⟨-, -, h⟩
  · rfl
  · have hlength := congrArg String.length h
    simp at hlength
  · have hlength := congrArg String.length h
    simp at hlength

/-- No nested write takes a fixed name, but for one. -/
theorem name_ne_ofEntity {role : NestedRole} (hr : role ∈ possible) (names : NestedNames) {suffix : String}
    (hs : suffix ∈ Entity.fixedSuffixes) (hrows : suffix ≠ "CreateManyInput") :
    role.name names ≠ Naming.ofEntity names.target suffix := by
  intro h
  rw [name_eq_ofEntity] at h
  obtain ⟨-, hfixed, -⟩ := eq_of_suffix_eq_fixed hr hs (Naming.ofEntity_inj h)
  exact hrows hfixed

end NestedRole

namespace Graph
variable {graph : Graph} {field other : Field} {edge : Edge}

theorem nodup_names_possibleWrites (graph : Graph) (edge : Edge) :
    ((graph.possibleWrites edge).map (·.name)).Nodup := by
  have hroles : NestedRole.possible.Nodup := by decide
  rw [map_name_possibleWrites]
  exact hroles.map_on fun r hr s hs h => NestedRole.name_inj hr hs h

/-- Through fields with one far side the same is written. -/
theorem eq_of_name_eq {a b : Declaration} (ha : a ∈ graph.writesTo field edge) (hb : b ∈ graph.writesTo other edge)
    (hn : a.name = b.name) : a = b :=
  List.inj_on_of_nodup_map (graph.nodup_names_possibleWrites edge) (mem_possibleWrites ha) (mem_possibleWrites hb) hn

theorem schema_of_name_eq_rows {d : Declaration} (h : d ∈ graph.writesTo field edge)
    (hn : d.name = (NestedNames.ofEdge edge).rows "Input") :
    d.schema = .strictObject (Payload.bulkProperties .create .unchecked edge.target (some edge.reverse)) := by
  have hrow : ⟨(NestedNames.ofEdge edge).rows "Input",
      .strictObject (Payload.bulkProperties .create .unchecked edge.target (some edge.reverse))⟩ ∈
        graph.possibleWrites edge := by
    simp [possibleWrites, NestedNames.createRows]
  rw [List.inj_on_of_nodup_map (graph.nodup_names_possibleWrites edge) (mem_possibleWrites h) hrow hn]

section
variable (graph : Graph) {field : Field} (edge : Edge)

theorem checkedPayload_mem_writesTo (field : Field) (purpose : Purpose) :
    ⟨(NestedNames.ofEdge edge).role purpose.stem "Input",
      .strictObject (Payload.properties graph purpose .checked edge.target (some edge.reverse))⟩ ∈
        graph.writesTo field edge := by
  cases purpose <;> simp [writesTo, NestedNames.creations, NestedNames.changes, NestedNames.payload, Purpose.stem]

theorem uncheckedPayload_mem_writesTo (field : Field) (purpose : Purpose) :
    ⟨(NestedNames.ofEdge edge).role ("Unchecked" ++ purpose.stem) "Input",
      .strictObject (Payload.properties graph purpose .unchecked edge.target (some edge.reverse))⟩ ∈
        graph.writesTo field edge := by
  cases purpose <;> simp [writesTo, NestedNames.creations, NestedNames.changes, NestedNames.payload, Purpose.stem]

theorem bulkUpdate_mem_writesTo (hlist : field.isList = true) :
    ⟨(NestedNames.ofEdge edge).role "UncheckedUpdateMany" "Input",
      .strictObject (Payload.bulkProperties .update .unchecked edge.target (some edge.reverse))⟩ ∈
        graph.writesTo field edge := by
  simp [writesTo, NestedNames.changes, NestedNames.changeMany, hlist]

theorem updateMany_mem_writesTo (hlist : field.isList = true) {before : String}
    (h : before ∈ ["UpdateMany", "UncheckedUpdateMany"]) :
    (NestedNames.ofEdge edge).updateMany before (!edge.reverse.isList) ∈ graph.writesTo field edge := by
  rcases List.mem_pair.mp h with rfl | rfl <;> simp [writesTo, NestedNames.changes, hlist]

end

end Graph

end DataShapes
