/-! # Violations

What a data model may break, and how each case is told to the user. -/

namespace DataShapes

inductive Violation where
  | duplicateEnumeration (name : String)
  | duplicateEntity (name : String)
  | duplicateField (entity field : String)
  | unknownEnumeration (entity field name : String)
  | danglingRelation (entity field target : String)
  /-- A storage key of the relation `field` is no field of the entity. -/
  | unknownStorageKey (entity field key : String)
  /-- A field of a constraint is no field of the entity. -/
  | unknownConstraintField (entity field : String)
  | unpairedRelation (entity field target relation : String)
  deriving DecidableEq, Repr

namespace Violation

def message : Violation → String
  | .duplicateEnumeration name => "Duplicate enum name: " ++ name
  | .duplicateEntity name => "Duplicate entity name: " ++ name
  | .duplicateField entity field =>
    "Entity '" ++ entity ++ "' declares field '" ++ field ++ "' more than once"
  | .unknownEnumeration entity field name =>
    "Field '" ++ entity ++ "." ++ field ++ "' references unknown enum '" ++ name ++ "'"
  | .danglingRelation entity field target =>
    "Field '" ++ entity ++ "." ++ field ++ "' references unknown entity '" ++ target ++ "'"
  | .unknownStorageKey entity field key =>
    "Entity '" ++ entity ++ "' refers to missing field '" ++ key ++ "' in relation '" ++ field ++ "'"
  | .unknownConstraintField entity field =>
    "Entity '" ++ entity ++ "' refers to missing field '" ++ field ++ "' in a unique constraint"
  | .unpairedRelation entity field target relation =>
    "Relation field '" ++ entity ++ "." ++ field ++ "' has no matching field on '" ++ target ++
      "' for relation '" ++ relation ++ "'"

/-- The last part of the code that identifies the kind of violation. -/
def label : Violation → String
  | .duplicateEnumeration .. => "duplicate_enum"
  | .duplicateEntity .. => "duplicate_entity"
  | .duplicateField .. => "duplicate_field"
  | .unknownEnumeration .. => "unknown_enum"
  | .danglingRelation .. => "dangling_relation"
  | .unknownStorageKey .. | .unknownConstraintField .. => "unknown_field"
  | .unpairedRelation .. => "unpaired_relation"

def help : Violation → Option String
  | .danglingRelation .. => some "Every relation target must be declared in the same data model"
  | .unpairedRelation .. => some "Both sides of a relation must be declared with the same relation name"
  | _ => none

end Violation

end DataShapes
