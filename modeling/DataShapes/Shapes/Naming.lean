import DataShapes.Model.Field
import DataShapes.Text.Uppercase

/-! # Names of schemas

Schemas refer to each other by these names only. The name of a schema of an entity is the name of the
entity, a suffix for the role and `Schema`; schemas of a record written from inside another one also
name the field of the record that leads back. -/

namespace DataShapes

namespace Naming

/-- The parts of a text between underscores. -/
def wordsOf : List Char → List (List Char)
  | [] => [[]]
  | c :: cs =>
    if c = '_' then [] :: wordsOf cs
    else
      match wordsOf cs with
      | [] => [[c]]
      | word :: words => (c :: word) :: words

/-- A word with its first letter in upper case. -/
def capitalized : List Char → List Char
  | [] => []
  | c :: cs => Uppercase.ofChar c ++ cs

/-- A name without underscores and with every word capitalized. -/
def pascalCase (name : String) : String :=
  String.ofList ((wordsOf name.toList).flatMap capitalized)

/-! ## Shared schemas -/

def sortOrder : String := "SortOrderSchema"

def queryMode : String := "QueryModeSchema"

def nullsOrder : String := "NullsOrderSchema"

def sortOrderInput : String := "SortOrderInputSchema"

def jsonValue : String := "JsonValueSchema"

def inputJsonValue : String := "InputJsonValueSchema"

def enumeration (name : String) : String := name ++ "Schema"

/-- What the name of a filter ends in, by the multiplicity of the filtered field. -/
def filterSuffix : Multiplicity → String
  | .required => "FilterSchema"
  | .nullable => "NullableFilterSchema"
  | .list => "NullableListFilterSchema"

def scalarFilter? (type : ScalarType) (multiplicity : Multiplicity) : Option String :=
  type.stem?.map (· ++ filterSuffix multiplicity)

def enumerationFilter (name : String) (multiplicity : Multiplicity) : String :=
  "Enum" ++ name ++ filterSuffix multiplicity

def operations (stem : String) (nullable : Bool) : String :=
  (if nullable then "Nullable" else "") ++ stem ++ "FieldUpdateOperationsInputSchema"

/-- The update operations of a scalar type. JSON values have none: they are replaced as a whole. -/
def scalarOperations? (type : ScalarType) (nullable : Bool) : Option String :=
  if type = .json then none else type.stem?.map (operations · nullable)

def enumerationOperations (name : String) (nullable : Bool) : String :=
  operations ("Enum" ++ name) nullable

/-! ## Schemas of an entity -/

def ofEntity (entity suffix : String) : String := entity ++ suffix ++ "Schema"

/-- A schema of records of `target` written from inside the record that the field `reverse` leads to. -/
def without (target before reverse after : String) : String :=
  target ++ before ++ "Without" ++ pascalCase reverse ++ after ++ "Schema"

/-- A schema of many new records of `target` created at once inside such a record. -/
def createManyFor (target reverse suffix : String) : String :=
  target ++ "CreateMany" ++ pascalCase reverse ++ suffix ++ "Schema"

end Naming

end DataShapes
