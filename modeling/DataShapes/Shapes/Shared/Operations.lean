import DataShapes.Shapes.Shared.Filters

/-! # Update operations

A single value is updated by an operation on it: it is set, and a number is also counted up or down or
multiplied. There are operations for each scalar type and each enumeration with a single-valued field. -/

namespace DataShapes

namespace Operation

def setting (nullable : Bool) (value : Schema) : List (String × Schema) :=
  [("set", Filter.orNull nullable value)]

/-- The operations on a value of a scalar type. -/
def ofScalar (type : ScalarType) (nullable : Bool) : Schema :=
  .strictObject <|
    setting nullable type.single ++
      if type.isNumeric then
        Filter.each ["increment", "decrement", "multiply", "divide"] type.single
      else []

/-- The operations on a member of an enumeration. -/
def ofEnumeration (name : String) (nullable : Bool) : Schema :=
  .strictObject (setting nullable (.ref (Naming.enumeration name)))

/-- Whether single values that a usage tells of may be `null`: not, if some field is required, and may,
if some field is nullable. -/
def nullabilities (usage : Usage) : List Bool :=
  (if usage.required then [false] else []) ++ if usage.nullable then [true] else []

/-- The operations on the scalar types that a model uses. -/
def scalarDeclarations (model : DataModel) : List Declaration :=
  model.scalarTypes.flatMap fun type =>
    (nullabilities (model.scalarUsage type)).filterMap fun nullable =>
      (Naming.scalarOperations? type nullable).map fun name => ⟨name, ofScalar type nullable⟩

/-- The operations on an enumeration, as far as a model uses it. -/
def enumerationDeclarations (model : DataModel) (enumeration : Enumeration) : List Declaration :=
  (nullabilities (model.enumerationUsage enumeration.name)).map fun nullable =>
    ⟨Naming.enumerationOperations enumeration.name nullable, ofEnumeration enumeration.name nullable⟩

def declarations (model : DataModel) : List Declaration :=
  scalarDeclarations model ++ model.enumerations.flatMap (enumerationDeclarations model)

end Operation

end DataShapes
