import DataShapes.Proofs.Graph.Reverse
import DataShapes.Proofs.Text.NameSet

/-! # Where far sides come from

Pairings are made entity by entity. Where entities have distinct names, those under the name of an entity are
its own; so the far side of a field depends on its entity and on the target of its relation, not on where these
stand in the model nor on what else stands there. -/

namespace DataShapes

namespace Graph

/-- The pairings of the fields of an entity. -/
def ownPairings (graph : Graph) (entity : String) : List Pairing := graph.pairings.filter (·.entity == entity)

theorem reverseOf?_eq_own (graph : Graph) (entity field : String) : graph.reverseOf? entity field =
    ((graph.ownPairings entity).reverse.find? (·.field == field)).map (·.reverse) := by
  rw [reverseOf?, ownPairings, ← List.filter_reverse, List.find?_filter]
  simp only [Bool.decide_and, Bool.decide_eq_true]

/-- The pairings in effect are told by those of each entity. -/
theorem edges_congr {graph other : Graph} (h : ∀ entity, other.ownPairings entity = graph.ownPairings entity) :
    other.edges = graph.edges := by
  have hmem : ∀ p, p ∈ other.pairings ↔ p ∈ graph.pairings := by
    intro p
    have hown : p ∈ other.ownPairings p.entity ↔ p ∈ graph.ownPairings p.entity := by rw [h]
    simpa [ownPairings] using hown
  have hnames : NameSet.ofList (other.pairings.map (·.entity)) = NameSet.ofList (graph.pairings.map (·.entity)) :=
    NameSet.ofList_congr fun name => by simp only [List.mem_map, hmem]
  have hreverse : other.reverseOf? = graph.reverseOf? := by
    funext entity field
    rw [reverseOf?_eq_own, reverseOf?_eq_own, h]
  unfold edges
  rw [hnames, hreverse]
  refine List.flatMap_congr fun entity _ => ?_
  show (NameSet.ofList ((other.ownPairings entity).map (·.field))).filterMap _ = _
  rw [h]
  rfl

end Graph

/-- What the relations of an entity lead to is the same in both models. -/
def Entity.SameTargets (entity : Entity) (model other : DataModel) : Prop :=
  ∀ field ∈ entity.fields, ∀ relation, field.relation? = some relation →
    other.entity? relation.target = model.entity? relation.target

namespace DataModel
variable {model other : DataModel} {entity : Entity} {field : Field}

theorem ownPairings_ofModel (hn : (model.entities.map (·.name)).Nodup) (he : entity ∈ model.entities) :
    (Graph.ofModel model).ownPairings entity.name = entity.relationFields.filterMap (model.pairing? entity) := by
  have hrow : ∀ other : Entity, ∀ p ∈ other.relationFields.filterMap (model.pairing? other), p.entity = other.name := by
    intro other p hp
    obtain ⟨field, -, hpair⟩ := List.mem_filterMap.mp hp
    obtain ⟨_, -, _, -, _, -, rfl⟩ := pairing?_eq_some_iff.mp hpair
    rfl
  show model.pairings.filter (·.entity == entity.name) = _
  rw [pairings, List.filter_flatMap]
  refine (flatMap_eq_of_nodup hn he fun other _ hne => ?_).trans ?_
  · refine List.filter_eq_nil_iff.mpr fun p hp => ?_
    rw [hrow other p hp]
    simpa using hne
  · refine List.filter_eq_self.mpr fun p hp => ?_
    rw [hrow entity p hp]
    exact beq_self_eq_true _

/-- No pairing is made under a name that no entity has. -/
theorem ownPairings_eq_nil {name : String} (h : ∀ entity ∈ model.entities, entity.name ≠ name) :
    (Graph.ofModel model).ownPairings name = [] := by
  refine List.filter_eq_nil_iff.mpr fun p hp heq => ?_
  obtain ⟨entity, he, field, -, hpair⟩ := mem_pairings.mp hp
  obtain ⟨_, -, _, -, _, -, rfl⟩ := pairing?_eq_some_iff.mp hpair
  exact h entity he (by simpa using heq)

section
variable (hn : (model.entities.map (·.name)).Nodup) (hn' : (other.entities.map (·.name)).Nodup)
  (he : entity ∈ model.entities) (he' : entity ∈ other.entities) (hs : entity.SameTargets model other)
include hn hn' he he' hs

theorem ownPairings_congr :
    (Graph.ofModel other).ownPairings entity.name = (Graph.ofModel model).ownPairings entity.name := by
  rw [ownPairings_ofModel hn he, ownPairings_ofModel hn' he']
  refine List.filterMap_congr fun field hf => ?_
  unfold pairing?
  cases hr : field.relation? with
  | none => rfl
  | some relation =>
    have htarget : other.entity? relation.target = model.entity? relation.target :=
      hs field (List.mem_of_mem_filter hf) relation hr
    simp only [Option.bind_eq_bind, Option.bind_some, htarget]

/-- An entity of both models has the same far sides in both. -/
theorem edge?_congr (hf : field ∈ entity.fields) :
    (Graph.ofModel other).edge? entity field = (Graph.ofModel model).edge? entity field := by
  have hreverse : (Graph.ofModel other).reverseOf? entity.name field.name =
      (Graph.ofModel model).reverseOf? entity.name field.name := by
    rw [Graph.reverseOf?_eq_own, Graph.reverseOf?_eq_own, ownPairings_congr hn hn' he he' hs]
  unfold Graph.edge?
  cases hr : field.relation? with
  | none => rfl
  | some relation =>
    have htarget : (Graph.ofModel other).model.entity? relation.target =
        (Graph.ofModel model).model.entity? relation.target := hs field hf relation hr
    simp only [Option.bind_eq_bind, Option.bind_some, htarget, hreverse]

end

end DataModel

end DataShapes
