/-! # Schemas

A schema describes which JSON values are accepted. Schemas refer to each other by the names under which
they are declared. -/

namespace DataShapes

/-- The schemas without parts. -/
inductive Leaf where
  | string
  | int
  | number
  | bigInt
  | boolean
  | date
  /-- A point in time, written as text. -/
  | isoDateTime
  | bytes
  | any
  | null
  /-- No other value than `true`. -/
  | trueOnly
  deriving DecidableEq, Repr, Inhabited

inductive Schema where
  | leaf (leaf : Leaf)
  /-- The schema declared under a name. -/
  | ref (name : String)
  /-- One of some texts. -/
  | enumeration (values : List String)
  /-- An object with these properties; a strict one has no others. -/
  | object (properties : List (String × Schema)) (strict : Bool)
  /-- The first arm that accepts decides. -/
  | union (arms : List Schema)
  | array (item : Schema)
  /-- An object whose values are all of one schema. -/
  | record (item : Schema)
  /-- May be left out. -/
  | optional (inner : Schema)
  /-- May be `null`. -/
  | nullable (inner : Schema)
  /-- May be left out or `null`. -/
  | nullish (inner : Schema)
  deriving Repr, Inhabited

namespace Schema

/-! ## Building schemas -/

def strictObject (properties : List (String × Schema)) : Schema := .object properties true

/-- Several items or one. The array comes first: an object tried before it might take an array for an
object. -/
def oneOrMany (item : Schema) : Schema := .union [.array item, item]

/-! ## References -/

mutual

/-- The names that the schema refers to, in order and as often as it does. -/
def references : Schema → List String
  | .leaf _ => []
  | .ref name => [name]
  | .enumeration _ => []
  | .object properties _ => referencesOfProperties properties
  | .union arms => referencesOfArms arms
  | .array item => references item
  | .record item => references item
  | .optional inner => references inner
  | .nullable inner => references inner
  | .nullish inner => references inner

def referencesOfArms : List Schema → List String
  | [] => []
  | arm :: arms => references arm ++ referencesOfArms arms

def referencesOfProperties : List (String × Schema) → List String
  | [] => []
  | (_, schema) :: properties => references schema ++ referencesOfProperties properties

end

end Schema

end DataShapes
