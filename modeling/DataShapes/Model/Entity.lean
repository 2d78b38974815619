import DataShapes.Model.Field

/-! # Entities

An entity has fields and constraints that identify one of its records: an identifier and uniqueness
declarations, each on one field or on several. -/

namespace DataShapes

/-- A constraint over several fields, as declared. -/
structure CompoundKey where
  name : Option String
  fields : List String
  deriving DecidableEq, Repr, Inhabited

/-- The key under which a constraint is looked up: its name, or else its fields joined by `_`. -/
def CompoundKey.lookupKey (key : CompoundKey) : String :=
  key.name.getD ("_".intercalate key.fields)

/-- A way to identify one record. -/
structure UniqueConstraint where
  key : String
  fields : List String
  deriving DecidableEq, Repr, Inhabited

namespace UniqueConstraint

/-- Whether several fields make up the constraint. -/
def isCompound (c : UniqueConstraint) : Bool := 1 < c.fields.length

/-- The constraint of a declaration over several fields. -/
def ofCompound (key : CompoundKey) : UniqueConstraint := ⟨key.lookupKey, key.fields⟩

/-- The constraint of a field that identifies a record on its own. -/
def ofField (field : Field) : UniqueConstraint := ⟨field.name, [field.name]⟩

/-- Adds a constraint unless its key is taken. -/
def addNew (constraints : List UniqueConstraint) (c : UniqueConstraint) : List UniqueConstraint :=
  if constraints.any (·.key == c.key) then constraints else constraints ++ [c]

end UniqueConstraint

structure Entity where
  name : String
  fields : List Field
  primaryKey : Option CompoundKey
  compoundUniques : List CompoundKey
  deriving DecidableEq, Repr, Inhabited

namespace Entity

/-- The first field of a name. -/
def field? (entity : Entity) (name : String) : Option Field :=
  entity.fields.find? (·.name == name)

def valueFields (entity : Entity) : List Field := entity.fields.filter (!·.isRelation)

def relationFields (entity : Entity) : List Field := entity.fields.filter (·.isRelation)

def hasRelations (entity : Entity) : Bool := !entity.relationFields.isEmpty

def ownsListRelation (entity : Entity) : Bool := entity.relationFields.any (·.isList)

/-- The storage keys of all relations of the entity, as often as they are named. -/
def storageKeys (entity : Entity) : List String :=
  (entity.relationFields.filterMap (·.relation?)).flatMap (·.storageKeys)

/-- Whether a field of this name holds the reference of some relation. -/
def isStorageKey (entity : Entity) (name : String) : Bool := entity.storageKeys.contains name

def numericFields (entity : Entity) : List Field := entity.fields.filter (·.isNumeric)

def hasNumericFields (entity : Entity) : Bool := !entity.numericFields.isEmpty

/-- The value fields that hold one value of an ordered type. -/
def comparableFields (entity : Entity) : List Field := entity.valueFields.filter (·.isComparable)

/-- The declared constraints over several fields, the identifier first. -/
def compoundKeys (entity : Entity) : List CompoundKey :=
  entity.primaryKey.toList ++ entity.compoundUniques

/-- Every way to identify one record: the identifier, then fields unique on their own, then several
fields unique together unless their key is taken. -/
def uniqueConstraints (entity : Entity) : List UniqueConstraint :=
  let onField (marked : Field → Bool) := (entity.fields.filter marked).map UniqueConstraint.ofField
  let declared :=
    entity.primaryKey.toList.map UniqueConstraint.ofCompound ++
      onField (·.isId) ++ onField fun f => f.isUnique && !f.isId
  (entity.compoundUniques.map UniqueConstraint.ofCompound).foldl UniqueConstraint.addNew declared

end Entity

end DataShapes
