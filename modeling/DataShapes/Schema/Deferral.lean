import DataShapes.Schema.Basic

/-! # Deferrals

A declaration is evaluated before the ones after it exist, so a reference to itself or to a later one
has to be put off. `Scope.place` puts off the smallest part around such a reference that may be put off:
a reference, a union, an array or a record. Inside a part that is put off nothing is put off again. -/

namespace DataShapes

/-- A schema in which some parts are marked as put off. -/
inductive Placed where
  | leaf (leaf : Leaf)
  | ref (name : String)
  | enumeration (values : List String)
  | object (properties : List (String × Placed)) (strict : Bool)
  | union (arms : List Placed)
  | array (item : Placed)
  | record (item : Placed)
  | optional (inner : Placed)
  | nullable (inner : Placed)
  | nullish (inner : Placed)
  /-- Evaluated when it is first used. -/
  | deferred (inner : Placed)
  deriving Repr, Inhabited

namespace Placed

mutual

/-- A schema of which nothing is put off. -/
def ofSchema : Schema → Placed
  | .leaf l => .leaf l
  | .ref name => .ref name
  | .enumeration values => .enumeration values
  | .object properties strict => .object (ofProperties properties) strict
  | .union arms => .union (ofArms arms)
  | .array item => .array (ofSchema item)
  | .record item => .record (ofSchema item)
  | .optional inner => .optional (ofSchema inner)
  | .nullable inner => .nullable (ofSchema inner)
  | .nullish inner => .nullish (ofSchema inner)

def ofArms : List Schema → List Placed
  | [] => []
  | arm :: arms => ofSchema arm :: ofArms arms

def ofProperties : List (String × Schema) → List (String × Placed)
  | [] => []
  | (key, schema) :: properties => (key, ofSchema schema) :: ofProperties properties

end

mutual

def erase : Placed → Schema
  | .leaf l => .leaf l
  | .ref name => .ref name
  | .enumeration values => .enumeration values
  | .object properties strict => .object (eraseProperties properties) strict
  | .union arms => .union (eraseArms arms)
  | .array item => .array (erase item)
  | .record item => .record (erase item)
  | .optional inner => .optional (erase inner)
  | .nullable inner => .nullable (erase inner)
  | .nullish inner => .nullish (erase inner)
  | .deferred inner => erase inner

def eraseArms : List Placed → List Schema
  | [] => []
  | arm :: arms => erase arm :: eraseArms arms

def eraseProperties : List (String × Placed) → List (String × Schema)
  | [] => []
  | (key, placed) :: properties => (key, erase placed) :: eraseProperties properties

end

end Placed

/-- What exists when a declaration is evaluated: the names declared before it. -/
structure Scope where
  defined : List String
  current : String
  deriving DecidableEq, Repr

namespace Scope

def isForward (scope : Scope) (name : String) : Bool :=
  name == scope.current || !scope.defined.contains name

/-- Whether a schema refers to a name that does not exist yet. -/
def looksAhead (scope : Scope) (schema : Schema) : Bool := schema.references.any scope.isForward

mutual

/-- The schema with its references to what does not exist yet put off. -/
def place (scope : Scope) : Schema → Placed
  | .leaf l => .leaf l
  | .enumeration values => .enumeration values
  | .object properties strict => .object (placeProperties scope properties) strict
  | .optional inner => .optional (place scope inner)
  | .nullable inner => .nullable (place scope inner)
  | .nullish inner => .nullish (place scope inner)
  | .ref name => if scope.isForward name then .deferred (.ref name) else .ref name
  | .union arms =>
    if scope.looksAhead (.union arms) then .deferred (.ofSchema (.union arms))
    else .union (placeArms scope arms)
  | .array item =>
    if scope.looksAhead item then .deferred (.ofSchema (.array item)) else .array (place scope item)
  | .record item =>
    if scope.looksAhead item then .deferred (.ofSchema (.record item)) else .record (place scope item)

def placeArms (scope : Scope) : List Schema → List Placed
  | [] => []
  | arm :: arms => place scope arm :: placeArms scope arms

def placeProperties (scope : Scope) : List (String × Schema) → List (String × Placed)
  | [] => []
  | (key, schema) :: properties => (key, place scope schema) :: placeProperties scope properties

end

end Scope

end DataShapes
