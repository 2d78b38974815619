import DataShapes.Graph.Usage
import DataShapes.Schema.Document
import DataShapes.Shapes.Value

/-! # Filters of values

A filter compares a field with values: whether it is equal to one, is among some, precedes one, contains
one. There is a filter for each scalar type and each enumeration, and for each multiplicity in use. -/

namespace DataShapes

/-- Types whose values can be asked to be among some. -/
def ScalarType.hasMembership : ScalarType → Bool
  | .boolean | .json => false
  | _ => true

/-- Types whose values can be asked to precede or follow one. -/
def ScalarType.hasOrder : ScalarType → Bool
  | .string | .int | .float | .bigInt | .decimal | .dateTime => true
  | _ => false

namespace Filter

/-- May be left out, and may be `null` if the field may be. -/
def orNull (nullable : Bool) (schema : Schema) : Schema :=
  if nullable then schema.nullable.optional else schema.optional

/-- Properties that may all be left out and have the same schema. -/
def each (keys : List String) (schema : Schema) : List (String × Schema) :=
  keys.map fun key => (key, schema.optional)

/-- The filter of a list: equal to one, or having members. -/
def ofList (single many : Schema) : Schema :=
  .strictObject [
    ("equals", many.nullable.optional),
    ("has", single.nullable.optional),
    ("hasEvery", many.optional),
    ("hasSome", many.optional),
    ("isEmpty", (Schema.leaf .boolean).optional)]

def textComparisons : List (String × Schema) :=
  each ["contains", "startsWith", "endsWith"] (.leaf .string) ++
    [("mode", (Schema.ref Naming.queryMode).optional)]

/-- What only JSON values can be asked: about a part of them. -/
def jsonComparisons : List (String × Schema) :=
  [("path", (Schema.leaf .string).array.optional)] ++
    each ["string_contains", "string_starts_with", "string_ends_with"] (.leaf .string) ++
    [("array_contains", ScalarType.json.single.nullable.optional)]

/-- The filter of a single value of a scalar type; `name` is its own name, which a negation takes. A
JSON value can only be negated as a value. -/
def ofSingle (type : ScalarType) (nullable : Bool) (name : String) : Schema :=
  .strictObject <|
    [("equals", orNull nullable type.single)] ++
    (if type.hasMembership then
      [("in", orNull nullable type.many), ("notIn", orNull nullable type.many)] else []) ++
    (if type.hasOrder then each ["lt", "lte", "gt", "gte"] type.single else []) ++
    (if type = .string then textComparisons else []) ++
    (if type = .json then jsonComparisons else []) ++
    [("not", orNull nullable
      (if type = .json then type.single else .union [type.single, .ref name]))]

def ofScalar (type : ScalarType) (multiplicity : Multiplicity) (name : String) : Schema :=
  match multiplicity with
  | .required => ofSingle type false name
  | .nullable => ofSingle type true name
  | .list => ofList type.single type.many

/-- The filter of an enumeration whose values have the schema `value`. -/
def ofEnumeration (value : Schema) (multiplicity : Multiplicity) (name : String) : Schema :=
  let single (nullable : Bool) : Schema :=
    .strictObject [
      ("equals", orNull nullable value),
      ("in", orNull nullable value.array),
      ("notIn", orNull nullable value.array),
      ("not", orNull nullable (.union [value, .ref name]))]
  match multiplicity with
  | .required => single false
  | .nullable => single true
  | .list => ofList value value.array

/-- The filters of the scalar types that a model uses. -/
def scalarDeclarations (model : DataModel) : List Declaration :=
  model.scalarTypes.flatMap fun type =>
    (model.scalarUsage type).multiplicities.filterMap fun multiplicity =>
      (Naming.scalarFilter? type multiplicity).map fun name =>
        ⟨name, ofScalar type multiplicity name⟩

/-- The filters of an enumeration, as far as a model uses it. -/
def enumerationDeclarations (model : DataModel) (enumeration : Enumeration) : List Declaration :=
  (model.enumerationUsage enumeration.name).multiplicities.map fun multiplicity =>
    let name := Naming.enumerationFilter enumeration.name multiplicity
    ⟨name, ofEnumeration (.ref (Naming.enumeration enumeration.name)) multiplicity name⟩

def declarations (model : DataModel) : List Declaration :=
  scalarDeclarations model ++ model.enumerations.flatMap (enumerationDeclarations model)

end Filter

end DataShapes
