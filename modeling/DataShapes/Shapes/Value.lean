import DataShapes.Model.Entity
import DataShapes.Schema.Basic
import DataShapes.Shapes.Naming

/-! # Schemas of values

The schema of what a field holds, as a single value or as a list. A point in time is a date or a text,
and a list of such points has one of the two forms throughout. -/

namespace DataShapes

/-- The schema of one value of a scalar type. Unrecognized types admit anything. -/
def ScalarType.single : ScalarType → Schema
  | .string => .leaf .string
  | .int => .leaf .int
  | .float => .leaf .number
  | .bigInt => .leaf .bigInt
  | .decimal => .union [.leaf .number, .leaf .string]
  | .boolean => .leaf .boolean
  | .dateTime => .union [.leaf .date, .leaf .isoDateTime]
  | .json => .ref Naming.inputJsonValue
  | .bytes => .leaf .bytes
  | .unrecognized _ => .leaf .any

/-- The schema of a list of values of a scalar type. -/
def ScalarType.many : ScalarType → Schema
  | .dateTime => .union [.array (.leaf .date), .array (.leaf .isoDateTime)]
  | type => .array type.single

namespace Field

def single? (field : Field) : Option Schema :=
  match field.kind with
  | .scalar type => some type.single
  | .enumeration name => some (.ref (Naming.enumeration name))
  | .relation _ => none

/-- The schema of a list of values of a value field. -/
def many? (field : Field) : Option Schema :=
  match field.kind with
  | .scalar type => some type.many
  | .enumeration name => some (.array (.ref (Naming.enumeration name)))
  | .relation _ => none

def value? (field : Field) : Option Schema := if field.isList then field.many? else field.single?

end Field

end DataShapes
