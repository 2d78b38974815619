import DataShapes.Schema.Deferral
import DataShapes.Text.Quoted

/-! # Schemas as source text

Schemas are written as calls of the validation library `z`. An object that is a whole declaration has a
line for each property, any other object stands on one line. -/

namespace DataShapes

def Leaf.text : Leaf → String
  | .string => "z.string()"
  | .int => "z.number().int()"
  | .number => "z.number()"
  | .bigInt => "z.bigint()"
  | .boolean => "z.boolean()"
  | .date => "z.date()"
  | .isoDateTime => "z.string().datetime()"
  | .bytes => "z.instanceof(Uint8Array)"
  | .any => "z.any()"
  | .null => "z.null()"
  | .trueOnly => "z.literal(true)"

namespace Placed

def strictness (strict : Bool) : String := if strict then ".strict()" else ""

mutual

def text : Placed → String
  | .leaf l => l.text
  | .ref name => name
  | .enumeration values => "z.enum([" ++ ", ".intercalate (values.map Quoted.literal) ++ "])"
  | .object [] strict => "z.object(\x7b\x7d)" ++ strictness strict
  | .object (property :: properties) strict =>
    "z.object(\x7b " ++ ", ".intercalate (propertyTexts (property :: properties)) ++ " \x7d)" ++
      strictness strict
  | .union arms => "z.union([" ++ ", ".intercalate (armTexts arms) ++ "])"
  | .array item => text item ++ ".array()"
  | .record item => "z.record(" ++ text item ++ ")"
  | .optional inner => text inner ++ ".optional()"
  | .nullable inner => text inner ++ ".nullable()"
  | .nullish inner => text inner ++ ".nullish()"
  | .deferred inner => "z.lazy(() => " ++ text inner ++ ")"

def armTexts : List Placed → List String
  | [] => []
  | arm :: arms => text arm :: armTexts arms

def propertyTexts : List (String × Placed) → List String
  | [] => []
  | (key, placed) :: properties =>
    (Quoted.propertyKey key ++ ": " ++ text placed) :: propertyTexts properties

end

def bodyText : Placed → String
  | .object (property :: properties) strict =>
    "z.object(\x7b\n" ++
      String.join ((propertyTexts (property :: properties)).map fun line => "  " ++ line ++ ",\n") ++
      "\x7d)" ++ strictness strict
  | placed => text placed

end Placed

end DataShapes
