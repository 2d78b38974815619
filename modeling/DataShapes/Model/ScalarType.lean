/-! # Scalar types

The nine types that a field without enumeration or relation may declare. A tag that names none of them
is kept as it is; values of such a field are not checked. -/

namespace DataShapes

inductive ScalarType where
  | string
  | int
  | float
  | bigInt
  | decimal
  | boolean
  | dateTime
  | json
  | bytes
  | unrecognized (tag : String)
  deriving DecidableEq, Repr, Inhabited

namespace ScalarType

def recognized : List ScalarType :=
  [.string, .int, .float, .bigInt, .decimal, .boolean, .dateTime, .json, .bytes]

def tag : ScalarType → String
  | .string => "String"
  | .int => "Int"
  | .float => "Float"
  | .bigInt => "BigInt"
  | .decimal => "Decimal"
  | .boolean => "Boolean"
  | .dateTime => "DateTime"
  | .json => "Json"
  | .bytes => "Bytes"
  | .unrecognized tag => tag

def ofTag (tag : String) : ScalarType :=
  (recognized.find? (·.tag == tag)).getD (.unrecognized tag)

/-- What the names of the schemas shared by all fields of a type begin with. Unrecognized types share
none. -/
def stem? : ScalarType → Option String
  | .boolean => some "Bool"
  | .unrecognized _ => none
  | type => some type.tag

/-- Types that take arithmetic and have an average and a sum. -/
def isNumeric : ScalarType → Bool
  | .int | .float | .bigInt | .decimal => true
  | _ => false

/-- Types that have a least and a greatest value. -/
def isComparable : ScalarType → Bool
  | .json | .unrecognized _ => false
  | _ => true

end ScalarType

end DataShapes
