import DataShapes.Model.DataModel
import DataShapes.Text.NameSet

/-! # Reverse fields

A relationship has a field on either side. The reverse of a relation field is a field of its target that
carries the same relation name and leads back to the owner, and is another field: a relation of an
entity to itself has two. Of several such fields the first that is a list like the field, or no list
like it, is the reverse, and else the first. -/

namespace DataShapes

/-- Whether `other`, a field of `target`, can be the reverse of the field of `owner` with this
relation. -/
def Relation.isReversedBy (relation : Relation) (owner : Entity) (field : Field) (target : Entity)
    (other : Field) : Bool :=
  other.relation?.any (fun back => back.name == relation.name && back.target == owner.name) &&
    !(target.name == owner.name && other.name == field.name)

/-- The fields of `target` that can be the reverse of `owner.field`. -/
def reverseCandidates (owner : Entity) (field : Field) (target : Entity) : List Field :=
  match field.relation? with
  | none => []
  | some relation => target.relationFields.filter (relation.isReversedBy owner field target)

/-- The reverse of `owner.field` among the fields of `target`. -/
def reverse? (owner : Entity) (field : Field) (target : Entity) : Option Field :=
  let candidates := reverseCandidates owner field target
  (candidates.find? (·.isList == field.isList)).or candidates.head?

/-- A field of an entity and the name of its reverse. -/
structure Pairing where
  entity : String
  field : String
  reverse : String
  deriving DecidableEq, Repr

namespace DataModel

/-- The pairing of a relation field whose target is declared and has a reverse. -/
def pairing? (model : DataModel) (entity : Entity) (field : Field) : Option Pairing := do
  let relation ← field.relation?
  let target ← model.entity? relation.target
  let reverse ← reverse? entity field target
  return ⟨entity.name, field.name, reverse.name⟩

def pairings (model : DataModel) : List Pairing :=
  model.entities.flatMap fun entity => entity.relationFields.filterMap (model.pairing? entity)

end DataModel

/-- A data model and the pairings of its fields. -/
structure Graph where
  model : DataModel
  pairings : List Pairing
  deriving DecidableEq, Repr

/-- The far side of a relation field: its target and the reverse field there. -/
structure Edge where
  target : Entity
  reverse : Field
  deriving DecidableEq, Repr

namespace Graph

def ofModel (model : DataModel) : Graph := ⟨model, model.pairings⟩

/-- The name of the reverse of a field; the last pairing counts when names are repeated. -/
def reverseOf? (graph : Graph) (entity field : String) : Option String :=
  (graph.pairings.reverse.find? fun p => p.entity == entity && p.field == field).map (·.reverse)

def edge? (graph : Graph) (owner : Entity) (field : Field) : Option Edge := do
  let relation ← field.relation?
  let target ← graph.model.entity? relation.target
  let reverse ← target.field? (← graph.reverseOf? owner.name field.name)
  return ⟨target, reverse⟩

/-- The pairings in effect, sorted by entity and field. -/
def edges (graph : Graph) : List Pairing :=
  (NameSet.ofList (graph.pairings.map (·.entity))).flatMap fun entity =>
    let own := graph.pairings.filter (·.entity == entity)
    (NameSet.ofList (own.map (·.field))).filterMap fun field =>
      (graph.reverseOf? entity field).map (⟨entity, field, ·⟩)

end Graph

end DataShapes
