import DataShapes.Shapes.Query.Record

/-! # Lookups

A lookup identifies one record by exactly one of its unique constraints. -/

namespace DataShapes

namespace Entity

/-- What the field of a name holds; anything, if it is no value field. -/
def valueOf (entity : Entity) (name : String) : Schema :=
  ((entity.field? name).bind (·.value?)).getD (.leaf .any)

/-- The values that a constraint is looked up by: those of its fields when it has several. -/
def constraintValue (entity : Entity) (c : UniqueConstraint) : Schema :=
  if c.isCompound then .strictObject (c.fields.map fun name => (name, entity.valueOf name))
  else (c.fields.head?.map entity.valueOf).getD (.leaf .any)

def lookupBy (entity : Entity) (c : UniqueConstraint) : Schema :=
  .strictObject [(c.key, entity.constraintValue c)]

/-- A lookup by any one of the constraints. Without constraints nothing can be asked. -/
def lookup (entity : Entity) : Schema :=
  match entity.uniqueConstraints with
  | [] => .strictObject []
  | [c] => entity.lookupBy c
  | constraints => .union (constraints.map entity.lookupBy)

def whereUnique (entity : Entity) : Declaration :=
  ⟨Naming.ofEntity entity.name "WhereUniqueInput", entity.lookup⟩

end Entity

end DataShapes
