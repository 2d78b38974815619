import DataShapes.Shapes.Query.Record

/-! # Aggregates

Which fields are counted, averaged, summed up and compared over many records. Averages and sums exist
for entities with numbers. -/

namespace DataShapes

namespace Aggregate

/-- The value `true`, or nothing. -/
def mark : Schema := (Schema.leaf .trueOnly).optional

def marks (fields : List Field) : List (String × Schema) := fields.map fun field => (field.name, mark)

end Aggregate

namespace Entity

/-- The aggregates of the entity, each with what it can be taken of. -/
def aggregates (entity : Entity) : List (String × List (String × Schema)) :=
  let numeric (name : String) :=
    if entity.hasNumericFields then [(name, Aggregate.marks entity.numericFields)] else []
  [("Count", Aggregate.marks entity.valueFields ++ [("_all", Aggregate.mark)])] ++
    numeric "Avg" ++ numeric "Sum" ++
    [("Min", Aggregate.marks entity.comparableFields),
      ("Max", Aggregate.marks entity.comparableFields)]

def aggregateName (entity : Entity) (aggregate : String) : String :=
  Naming.ofEntity entity.name (aggregate ++ "AggregateInput")

def aggregateInputs (entity : Entity) : List Declaration :=
  entity.aggregates.map fun (aggregate, properties) =>
    ⟨entity.aggregateName aggregate, .strictObject properties⟩

end Entity

end DataShapes
