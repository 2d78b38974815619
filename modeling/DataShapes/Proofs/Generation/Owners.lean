import DataShapes.Proofs.Generation.Spelling
import DataShapes.Proofs.Graph.Reverse

/-! # Owners of names

A declaration is named on what owns it: on nothing of the model, on an enumeration, or on an entity, be it
its own declaration or a nested write of its records. Two declarations that one owner builds under one name
are the same, up to what is told in pascal case of the fields that lead back. -/

namespace DataShapes

/-- What a declaration is named on. -/
inductive Owner where
  | shared
  | enumeration (name : String)
  | entity (name : String)
  deriving DecidableEq, Repr

/-- All nested writes through a field with this far side. -/
def Graph.writesTo (graph : Graph) (field : Field) (edge : Edge) : List Declaration :=
  (NestedNames.ofEdge edge).creations graph field edge ++ (NestedNames.ofEdge edge).changes graph field edge

namespace DataModel

/-- The relation fields of the model that have a far side, each with it. -/
def edges (model : DataModel) : List (Field × Edge) :=
  model.entities.flatMap fun owner => owner.relationFields.filterMap fun field =>
    ((Graph.ofModel model).edge? owner field).map (field, ·)

/-- The declarations that are named on an entity alone. -/
def entityDeclarations (model : DataModel) (entity : Entity) : List Declaration :=
  entity.recordDeclaration :: model.entityInputs entity

/-- All declarations that the model builds, each with its owner. -/
def owned (model : DataModel) : List (Owner × Declaration) :=
  model.sharedInputs.map (.shared, ·) ++
    model.enumerations.flatMap (fun e => (model.enumerationInputs e).map (.enumeration e.name, ·)) ++
    model.entities.flatMap (fun e => (model.entityDeclarations e).map (.entity e.name, ·)) ++
    model.edges.flatMap fun (field, edge) =>
      ((Graph.ofModel model).writesTo field edge).map (.entity edge.target.name, ·)

section
variable {model : DataModel}

theorem mem_edges {field : Field} {edge : Edge} : (field, edge) ∈ model.edges ↔
    ∃ owner ∈ model.entities, field ∈ owner.relationFields ∧ (Graph.ofModel model).edge? owner field = some edge := by
  simp only [edges, List.mem_flatMap, List.mem_filterMap, Option.map_eq_some_iff, Prod.mk.injEq]
  constructor
  · rintro ⟨owner, ho, field', hf, edge', hedge, rfl, rfl⟩
    exact ⟨owner, ho, hf, hedge⟩
  · rintro ⟨owner, ho, hf, hedge⟩
    exact ⟨owner, ho, field, hf, edge, hedge, rfl, rfl⟩

theorem target_mem_of_mem_edges {field : Field} {edge : Edge} (h : (field, edge) ∈ model.edges) :
    edge.target ∈ model.entities := by
  obtain ⟨owner, -, -, hedge⟩ := mem_edges.mp h
  exact Graph.target_mem_of_edge? hedge

theorem reverse_mem_of_mem_edges {field : Field} {edge : Edge} (h : (field, edge) ∈ model.edges) :
    edge.reverse ∈ edge.target.fields := by
  obtain ⟨owner, -, -, hedge⟩ := mem_edges.mp h
  exact Graph.reverse_mem_of_edge? hedge

theorem exists_paired_iff {declarations : List Declaration} {o o' : Owner} {d : Declaration} :
    (∃ d' ∈ declarations, o' = o ∧ d' = d) ↔ o = o' ∧ d ∈ declarations := by
  constructor
  · rintro ⟨d', hd, rfl, rfl⟩
    exact ⟨rfl, hd⟩
  · rintro ⟨rfl, hd⟩
    exact ⟨d, hd, rfl, rfl⟩

theorem mem_owned {o : Owner} {d : Declaration} : (o, d) ∈ model.owned ↔
    o = .shared ∧ d ∈ model.sharedInputs ∨
    (∃ e ∈ model.enumerations, o = .enumeration e.name ∧ d ∈ model.enumerationInputs e) ∨
    (∃ e ∈ model.entities, o = .entity e.name ∧ d ∈ model.entityDeclarations e) ∨
    ∃ field edge, (field, edge) ∈ model.edges ∧ o = .entity edge.target.name ∧
      d ∈ (Graph.ofModel model).writesTo field edge := by
  simp only [owned, List.mem_append, List.mem_map, List.mem_flatMap, Prod.exists, Prod.mk.injEq, or_assoc,
    exists_paired_iff]

theorem mem_owned_shared {d : Declaration} : (.shared, d) ∈ model.owned ↔ d ∈ model.sharedInputs := by
  simp [mem_owned]

theorem mem_owned_enumeration {name : String} {d : Declaration} : (.enumeration name, d) ∈ model.owned ↔
    ∃ e ∈ model.enumerations, name = e.name ∧ d ∈ model.enumerationInputs e := by
  simp [mem_owned]

theorem mem_owned_entity {name : String} {d : Declaration} : (.entity name, d) ∈ model.owned ↔
    (∃ e ∈ model.entities, name = e.name ∧ d ∈ model.entityDeclarations e) ∨
    ∃ field edge, (field, edge) ∈ model.edges ∧ name = edge.target.name ∧
      d ∈ (Graph.ofModel model).writesTo field edge := by
  simp [mem_owned]

/-- Every declaration that is built has an owner. -/
theorem mem_built_iff_owned {d : Declaration} : d ∈ model.built ↔ ∃ o, (o, d) ∈ model.owned := by
  rw [mem_built, mem_inputs]
  simp only [mem_owned]
  constructor
  · rintro ((hd | ⟨e, he, hd⟩ | ⟨e, he, hd⟩ | ⟨owner, ho, field, hf, hd⟩) | ⟨e, he, rfl⟩)
    · exact ⟨_, Or.inl ⟨rfl, hd⟩⟩
    · exact ⟨_, Or.inr (Or.inl ⟨e, he, rfl, hd⟩)⟩
    · exact ⟨_, Or.inr (Or.inr (Or.inl ⟨e, he, rfl, List.mem_cons_of_mem _ hd⟩))⟩
    · obtain ⟨edge, hedge, hd⟩ := Graph.mem_nestedWrites.mp hd
      exact ⟨_, Or.inr (Or.inr (Or.inr
        ⟨field, edge, mem_edges.mpr ⟨owner, ho, hf, hedge⟩, rfl, List.mem_append.mpr hd⟩))⟩
    · exact ⟨_, Or.inr (Or.inr (Or.inl ⟨e, he, rfl, List.mem_cons_self⟩))⟩
  · rintro ⟨o, ⟨-, hd⟩ | ⟨e, he, -, hd⟩ | ⟨e, he, -, hd⟩ | ⟨field, edge, hedge, -, hd⟩⟩
    · exact Or.inl (Or.inl hd)
    · exact Or.inl (Or.inr (Or.inl ⟨e, he, hd⟩))
    · rcases List.mem_cons.mp hd with rfl | hd
      · exact Or.inr ⟨e, he, rfl⟩
      · exact Or.inl (Or.inr (Or.inr (Or.inl ⟨e, he, hd⟩)))
    · obtain ⟨owner, ho, hf, hedge⟩ := mem_edges.mp hedge
      refine Or.inl (Or.inr (Or.inr (Or.inr ⟨owner, ho, field, hf, ?_⟩)))
      exact Graph.mem_nestedWrites.mpr ⟨edge, hedge, List.mem_append.mp hd⟩

theorem mem_built_of_mem_entityDeclarations {entity : Entity} (he : entity ∈ model.entities) {d : Declaration}
    (hd : d ∈ model.entityDeclarations entity) : d ∈ model.built :=
  mem_built_iff_owned.mpr ⟨_, mem_owned_entity.mpr (Or.inl ⟨entity, he, rfl, hd⟩)⟩

theorem mem_built_of_mem_writesTo {field : Field} {edge : Edge} (h : (field, edge) ∈ model.edges) {d : Declaration}
    (hd : d ∈ (Graph.ofModel model).writesTo field edge) : d ∈ model.built :=
  mem_built_iff_owned.mpr ⟨_, mem_owned_entity.mpr (Or.inr ⟨field, edge, h, rfl, hd⟩)⟩

end

end DataModel

end DataShapes
