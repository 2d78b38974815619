import DataShapes.Model.DataModel
import DataShapes.Schema.Document
import DataShapes.Shapes.Value

/-! # Records as read

What an entity declares before anything is asked of it: the members of the enumerations, the names of
the value fields, and the record as it is read back, relations left out. -/

namespace DataShapes

def Enumeration.declaration (enumeration : Enumeration) : Declaration :=
  ⟨Naming.enumeration enumeration.name, .enumeration enumeration.values⟩

namespace Entity

/-- Properties for some fields, made by `schema?`; fields without a schema have none. -/
def propertiesOf (fields : List Field) (schema? : Field → Option Schema) : List (String × Schema) :=
  fields.filterMap fun field => (schema? field).map (field.name, ·)

def fieldNamesDeclaration (entity : Entity) : Declaration :=
  ⟨Naming.ofEntity entity.name "ScalarFieldEnum", .enumeration (entity.valueFields.map (·.name))⟩

/-- What a field of a record read back holds: nothing at all or `null` when it is nullable. -/
def readValue? (field : Field) : Option Schema :=
  field.value?.map fun value => if field.multiplicity = .nullable then value.nullish else value

/-- The record as it is read back; other properties are dropped. -/
def recordDeclaration (entity : Entity) : Declaration :=
  ⟨Naming.ofEntity entity.name "", .object (propertiesOf entity.valueFields readValue?) false⟩

end Entity

namespace DataModel

/-- The declarations of all enumerations and records. -/
def recordDeclarations (model : DataModel) : List Declaration :=
  model.enumerations.map (·.declaration) ++
    model.entities.flatMap fun entity => [entity.fieldNamesDeclaration, entity.recordDeclaration]

end DataModel

end DataShapes
