import DataShapes.Shapes.Operation.Aggregates
import DataShapes.Shapes.Query.Selection

/-! # Arguments of operations

What each operation on the records of an entity takes. -/

namespace DataShapes

namespace Entity

def role (entity : Entity) (suffix : String) : Schema := .ref (Naming.ofEntity entity.name suffix)

def either (entity : Entity) (checked unchecked : String) : Schema :=
  .union [entity.role checked, entity.role unchecked]

def page : List (String × Schema) :=
  [("take", (Schema.leaf .number).optional), ("skip", (Schema.leaf .number).optional)]

def found (entity : Entity) : List (String × Schema) := [("where", entity.role "WhereUniqueInput")]

def matching (entity : Entity) : List (String × Schema) :=
  [("where", (entity.role "WhereInput").optional)]

/-- The records that meet a condition, in some order, from a record on. -/
def window (entity : Entity) : List (String × Schema) :=
  entity.matching ++
    [("orderBy", (Schema.oneOrMany (entity.role "OrderByWithRelationInput")).optional),
      ("cursor", (entity.role "WhereUniqueInput").optional)] ++ page

/-- The records of a window, those alike in some fields taken once. -/
def distinctWindow (entity : Entity) : List (String × Schema) :=
  entity.window ++
    [("distinct", (Schema.oneOrMany (entity.role "ScalarFieldEnum")).optional)]

def aggregateChoices (entity : Entity) : List (String × Schema) :=
  let choice (key aggregate : String) := (key, (Schema.ref (entity.aggregateName aggregate)).optional)
  [("_count",
      (Schema.union [.leaf .trueOnly, .ref (entity.aggregateName "Count")]).optional)] ++
    (if entity.hasNumericFields then [choice "_avg" "Avg", choice "_sum" "Sum"] else []) ++
    [choice "_min" "Min", choice "_max" "Max"]

/-- A new record, and the change of a record. -/
def newRecord (entity : Entity) : Schema := entity.either "CreateInput" "UncheckedCreateInput"

def changedRecord (entity : Entity) : Schema := entity.either "UpdateInput" "UncheckedUpdateInput"

/-- The operations with what they take, in the order of declaration. -/
def operations (entity : Entity) : List (String × List (String × Schema)) :=
  let reading := entity.selection
  [("FindUniqueArgs", reading ++ entity.found),
    ("FindUniqueOrThrowArgs", reading ++ entity.found),
    ("FindFirstArgs", reading ++ entity.distinctWindow),
    ("FindFirstOrThrowArgs", reading ++ entity.distinctWindow),
    ("FindManyArgs", reading ++ entity.distinctWindow),
    ("CreateArgs", reading ++ [("data", entity.newRecord)]),
    ("CreateManyArgs",
      [("data", .oneOrMany (entity.role "CreateManyInput")),
        ("skipDuplicates", (Schema.leaf .boolean).optional)]),
    ("UpdateArgs", reading ++ [("data", entity.changedRecord)] ++ entity.found),
    ("UpdateManyArgs",
      [("data", entity.either "UpdateManyMutationInput" "UncheckedUpdateManyInput")] ++
        entity.matching),
    ("UpsertArgs", reading ++ entity.found ++
      [("create", entity.newRecord), ("update", entity.changedRecord)]),
    ("DeleteArgs", reading ++ entity.found),
    ("DeleteManyArgs", entity.matching),
    ("AggregateArgs", entity.window ++ entity.aggregateChoices),
    ("GroupByArgs", entity.matching ++
      [("orderBy", (Schema.oneOrMany (entity.role "OrderByWithAggregationInput")).optional),
        ("by", .oneOrMany (entity.role "ScalarFieldEnum")),
        ("having", (entity.role "ScalarWhereWithAggregatesInput").optional)] ++
      page ++ entity.aggregateChoices)]

def operationArguments (entity : Entity) : List Declaration :=
  entity.operations.map fun (suffix, properties) =>
    ⟨Naming.ofEntity entity.name suffix, .strictObject properties⟩

end Entity

end DataShapes
