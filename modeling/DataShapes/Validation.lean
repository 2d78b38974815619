import DataShapes.Graph.Reverse
import DataShapes.Violation

/-! # Validation

The first violation of a model. Names come first: repeated enumerations, then repeated entities. Then
each entity is looked at by itself: repeated fields, what its fields refer to, what its constraints
refer to. Only a model in which all this holds is searched for relations without a reverse. -/

namespace DataShapes

/-- The first name of a list that stood in it before. -/
def firstRepeated? (seen : List String) : List String → Option String
  | [] => none
  | name :: names =>
    if seen.contains name then some name else firstRepeated? (name :: seen) names

namespace Entity

def fieldNames (entity : Entity) : List String := entity.fields.map (·.name)

/-- What a field refers to that does not exist. -/
def danglingField? (entity : Entity) (model : DataModel) (field : Field) : Option Violation :=
  match field.kind with
  | .scalar _ => none
  | .enumeration name =>
    if (model.enumerations.map (·.name)).contains name then none
    else some (.unknownEnumeration entity.name field.name name)
  | .relation relation =>
    if (model.entities.map (·.name)).contains relation.target then
      (relation.storageKeys.find? (!entity.fieldNames.contains ·)).map
        (.unknownStorageKey entity.name field.name)
    else some (.danglingRelation entity.name field.name relation.target)

/-- The first field of a constraint that does not exist. -/
def danglingConstraint? (entity : Entity) : Option Violation :=
  ((entity.compoundKeys.flatMap (·.fields)).find? (!entity.fieldNames.contains ·)).map
    (.unknownConstraintField entity.name)

/-- The first violation inside an entity of the model. -/
def violation? (entity : Entity) (model : DataModel) : Option Violation :=
  ((firstRepeated? [] entity.fieldNames).map (.duplicateField entity.name)).or <|
    (entity.fields.findSome? (entity.danglingField? model)).or entity.danglingConstraint?

/-- The violation of a relation field whose target is declared but has no reverse. -/
def unpaired? (entity : Entity) (model : DataModel) (field : Field) : Option Violation := do
  let relation ← field.relation?
  let target ← model.entity? relation.target
  match reverse? entity field target with
  | none => some (.unpairedRelation entity.name field.name relation.target relation.name)
  | some _ => none

end Entity

namespace DataModel

/-- The first violation of names and references. -/
def structureViolation? (model : DataModel) : Option Violation :=
  ((firstRepeated? [] (model.enumerations.map (·.name))).map .duplicateEnumeration).or <|
    ((firstRepeated? [] (model.entities.map (·.name))).map .duplicateEntity).or <|
      model.entities.findSome? (·.violation? model)

def pairingViolation? (model : DataModel) : Option Violation :=
  model.entities.findSome? fun entity => entity.relationFields.findSome? (entity.unpaired? model)

def violation? (model : DataModel) : Option Violation :=
  model.structureViolation?.or model.pairingViolation?

def validate (model : DataModel) : Except Violation Unit :=
  match model.violation? with
  | none => .ok ()
  | some violation => .error violation

end DataModel

end DataShapes
