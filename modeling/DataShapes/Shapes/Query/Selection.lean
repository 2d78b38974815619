import DataShapes.Graph.Reverse
import DataShapes.Shapes.Query.Record

/-! # Selections

What of a record is read: fields are picked one by one, or related records are included. A relation may
be picked with arguments of its own, and lists may be counted. -/

namespace DataShapes

namespace Selection

def flag : Schema := .leaf .boolean

/-- Picked or not, or picked with arguments. -/
def flagOr (arguments : String) : Schema := (Schema.union [flag, .ref arguments]).optional

/-- A relation picked; a list of records takes more arguments than one record. -/
def ofRelation (field : Field) (relation : Relation) : Schema :=
  flagOr (Naming.ofEntity relation.target (if field.isList then "FindManyArgs" else "Args"))

end Selection

namespace Entity

/-- The relations of the entity to be picked, and the counts of lists if there are lists. -/
def relationChoices (entity : Entity) : List (String × Schema) :=
  propertiesOf entity.fields (fun field => field.relation?.map (Selection.ofRelation field)) ++
    if entity.ownsListRelation then
      [("_count", Selection.flagOr (Naming.ofEntity entity.name "CountOutputTypeArgs"))]
    else []

def fieldSelection (entity : Entity) : Declaration :=
  ⟨Naming.ofEntity entity.name "Select",
    .strictObject
      ((entity.valueFields.map fun field => (field.name, Selection.flag.optional)) ++
        entity.relationChoices)⟩

/-- The relations to be included, if there are any. -/
def relationSelection (entity : Entity) : List Declaration :=
  if entity.hasRelations then
    [⟨Naming.ofEntity entity.name "Include", .strictObject entity.relationChoices⟩]
  else []

def selection (entity : Entity) : List (String × Schema) :=
  [("select", (Schema.ref (Naming.ofEntity entity.name "Select")).optional)] ++
    if entity.hasRelations then
      [("include", (Schema.ref (Naming.ofEntity entity.name "Include")).optional)]
    else []

/-- The arguments of a relation to one record of the entity. -/
def singleArguments (entity : Entity) : Declaration :=
  ⟨Naming.ofEntity entity.name "Args", .strictObject entity.selection⟩

/-- The lists of the entity that can be counted: those with a reverse. -/
def countableFields (entity : Entity) (graph : Graph) : List Field :=
  entity.relationFields.filter fun field => field.isList && (graph.edge? entity field).isSome

/-- Which lists to count, if the entity has any. -/
def countSelection (entity : Entity) (graph : Graph) : List Declaration :=
  if entity.ownsListRelation then
    let name := Naming.ofEntity entity.name "CountOutputTypeSelect"
    [⟨name, .strictObject
        ((entity.countableFields graph).map fun field => (field.name, Selection.flag.optional))⟩,
      ⟨Naming.ofEntity entity.name "CountOutputTypeArgs",
        .strictObject [("select", (Schema.ref name).optional)]⟩]
  else []

end Entity

end DataShapes
