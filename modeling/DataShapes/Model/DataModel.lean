import DataShapes.Model.Entity

/-! # Data models

A data model is a list of entities and a list of enumerations. Names may be repeated in a model that
has not been checked; a name then means its first declaration. -/

namespace DataShapes

structure Enumeration where
  name : String
  values : List String
  deriving DecidableEq, Repr, Inhabited

structure DataModel where
  entities : List Entity
  enumerations : List Enumeration
  deriving DecidableEq, Repr, Inhabited

namespace DataModel

/-- The first entity of a name. -/
def entity? (model : DataModel) (name : String) : Option Entity :=
  model.entities.find? (·.name == name)

def allFields (model : DataModel) : List Field := model.entities.flatMap (·.fields)

end DataModel

end DataShapes
