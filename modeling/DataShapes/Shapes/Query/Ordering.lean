import DataShapes.Graph.Usage
import DataShapes.Shapes.Query.Record

/-! # Orderings

Records are ordered by their value fields, by related records, and by the number of records in a list;
groups of records are ordered by value fields and by aggregates. -/

namespace DataShapes

namespace Ordering

def direction : Schema := (Schema.ref Naming.sortOrder).optional

/-- The order by a value field. A nullable field may say where `null` goes. -/
def byValue (field : Field) : Schema :=
  if field.multiplicity = .nullable then
    (Schema.union [.ref Naming.sortOrder, .ref Naming.sortOrderInput]).optional
  else direction

def byField (field : Field) : Schema :=
  match field.relation? with
  | none => byValue field
  | some relation =>
    let suffix :=
      if field.isList then "OrderByRelationAggregateInput" else "OrderByWithRelationInput"
    (Schema.ref (Naming.ofEntity relation.target suffix)).optional

def perField (fields : List Field) : Schema :=
  .strictObject (fields.map fun field => (field.name, direction))

end Ordering

namespace Entity

def orderBy (entity : Entity) : Declaration :=
  ⟨Naming.ofEntity entity.name "OrderByWithRelationInput",
    .strictObject (entity.fields.map fun field => (field.name, Ordering.byField field))⟩

/-- The order by the size of a list of records, if a list leads to the entity. -/
def orderBySize (entity : Entity) (usage : Usage) : List Declaration :=
  if usage.list then
    [⟨Naming.ofEntity entity.name "OrderByRelationAggregateInput",
      .strictObject [("_count", Ordering.direction)]⟩]
  else []

/-- The aggregates by which groups can be ordered: key, name and fields, in the order of keys. Average
and sum exist if some field is a number. -/
def orderedAggregates (entity : Entity) : List (String × String × List Field) :=
  let numeric (key name : String) :=
    if entity.hasNumericFields then [(key, name, entity.numericFields)] else []
  [("_count", "Count", entity.valueFields)] ++ numeric "_avg" "Avg" ++
    [("_max", "Max", entity.comparableFields), ("_min", "Min", entity.comparableFields)] ++
    numeric "_sum" "Sum"

def orderByAggregateName (entity : Entity) (aggregate : String) : String :=
  Naming.ofEntity entity.name (aggregate ++ "OrderByAggregateInput")

def orderByAggregates (entity : Entity) : List Declaration :=
  entity.orderedAggregates.map fun (_, aggregate, fields) =>
    ⟨entity.orderByAggregateName aggregate, Ordering.perField fields⟩

def orderGroupsBy (entity : Entity) : Declaration :=
  ⟨Naming.ofEntity entity.name "OrderByWithAggregationInput",
    .strictObject
      ((entity.valueFields.map fun field => (field.name, Ordering.byValue field)) ++
        entity.orderedAggregates.map fun (key, aggregate, _) =>
          (key, (Schema.ref (entity.orderByAggregateName aggregate)).optional))⟩

end Entity

end DataShapes
