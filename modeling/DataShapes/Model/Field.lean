import DataShapes.Model.ScalarType

/-! # Fields

A field holds a scalar, a member of an enumeration or a relation to another entity, once, at most once
or in a list. -/

namespace DataShapes

/-- The link of a relation field to another entity. Both sides of one relationship carry its name; the
storage keys are the fields of the own entity that hold the reference, none on the side without it. -/
structure Relation where
  target : String
  name : String
  storageKeys : List String
  deriving DecidableEq, Repr, Inhabited

/-- What a field holds. -/
inductive FieldKind where
  | scalar (type : ScalarType)
  | enumeration (name : String)
  | relation (relation : Relation)
  deriving DecidableEq, Repr, Inhabited

/-- How often a field holds what it holds. -/
inductive Multiplicity where
  | required
  | nullable
  | list
  deriving DecidableEq, Repr, Inhabited

structure Field where
  name : String
  kind : FieldKind
  isRequired : Bool
  isList : Bool
  hasDefault : Bool
  isId : Bool
  isUnique : Bool
  /-- The host sets the field on every write. -/
  isUpdatedAt : Bool
  deriving DecidableEq, Repr, Inhabited

namespace Field

/-- A required field without any mark. -/
def plain (name : String) (kind : FieldKind) : Field :=
  { name, kind, isRequired := true, isList := false, hasDefault := false, isId := false,
    isUnique := false, isUpdatedAt := false }

/-- Sets the storage keys of a relation field; other fields have none. -/
def withStorageKeys (field : Field) (keys : List String) : Field :=
  match field.kind with
  | .relation r => { field with kind := .relation { r with storageKeys := keys } }
  | _ => field

/-- Being a list comes before being required. -/
def multiplicity (field : Field) : Multiplicity :=
  if field.isList then .list else if field.isRequired then .required else .nullable

def relation? (field : Field) : Option Relation :=
  match field.kind with
  | .relation r => some r
  | _ => none

/-- Fields that are no value fields lead to another entity. -/
def isRelation (field : Field) : Bool := field.relation?.isSome

def scalarType? (field : Field) : Option ScalarType :=
  match field.kind with
  | .scalar type => some type
  | _ => none

def enumeration? (field : Field) : Option String :=
  match field.kind with
  | .enumeration name => some name
  | _ => none

/-- Whether a new record may leave the field out. -/
def isOmittable (field : Field) : Bool :=
  field.isList || !field.isRequired || field.hasDefault || field.isUpdatedAt

/-- Fields that hold one number. -/
def isNumeric (field : Field) : Bool :=
  !field.isList && field.scalarType?.any ScalarType.isNumeric

/-- Fields that hold one value of an ordered type; enumerations are ordered. -/
def isComparable (field : Field) : Bool :=
  !field.isList && match field.kind with
    | .scalar type => type.isComparable
    | .enumeration _ => true
    | .relation _ => false

end Field

end DataShapes
