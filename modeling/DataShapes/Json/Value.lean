/-! # JSON values

A JSON value keeps the entries of an object in the order of the text, repeated keys included: a
decoder has to see them. Integers of 64 bits, signed or unsigned, are kept apart from all other
numbers, which are binary floating-point numbers, so `2` and `2.0` differ. `Json.normal` is the value
seen as a map: sorted by key, the last of repeated entries winning. -/

namespace DataShapes

/-- A binary floating-point number of 64 bits. Two of them are equal when their bits are. -/
structure Double where
  bits : UInt64
  deriving DecidableEq, Repr, Inhabited

inductive Json where
  | null
  | bool (b : Bool)
  | int (n : Int)
  | double (d : Double)
  | string (s : String)
  | array (items : List Json)
  | object (entries : List (String × Json))
  deriving Repr, Inhabited

namespace Json

/-- The last entry of `key`. -/
def entry? (entries : List (String × Json)) (key : String) : Option Json :=
  (entries.reverse.find? (·.1 == key)).map (·.2)

/-- The member `key` of an object; the last one when it is repeated. -/
def get? : Json → String → Option Json
  | .object entries, key => entry? entries key
  | _, _ => none

/-- The entries with `key` set to `value`, sorted entries staying sorted by code points. -/
def setEntry (key : String) (value : Json) : List (String × Json) → List (String × Json)
  | [] => [(key, value)]
  | (k, v) :: rest =>
    if key < k then (key, value) :: (k, v) :: rest
    else if key = k then (key, value) :: rest
    else (k, v) :: setEntry key value rest

mutual

/-- The value with every object sorted by key and repeated keys resolved to their last entry. -/
def normal : Json → Json
  | .array items => .array (normalItems items)
  | .object entries => .object (normalEntries [] entries)
  | .null => .null
  | .bool b => .bool b
  | .int n => .int n
  | .double d => .double d
  | .string s => .string s

def normalItems : List Json → List Json
  | [] => []
  | item :: items => normal item :: normalItems items

/-- Sets the entries one after the other into the sorted entries `seen`. -/
def normalEntries (seen : List (String × Json)) : List (String × Json) → List (String × Json)
  | [] => seen
  | (key, value) :: rest => normalEntries (setEntry key (normal value) seen) rest

end

end Json

end DataShapes
