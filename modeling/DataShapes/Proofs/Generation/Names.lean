import DataShapes.Proofs.Generation.Built
import DataShapes.Proofs.Graph.Usage

/-! # Names of inputs

Which inputs an entity or a relation field has, told by their names: the name of the entity and a suffix,
or, for a record written from inside another, a role. -/

namespace DataShapes

theorem map_ite_nil {α β : Type} (f : α → β) (c : Prop) [Decidable c] (xs : List α) :
    (if c then xs else []).map f = if c then xs.map f else [] := by
  split <;> rfl

/-! ### Entities -/

namespace Entity

/-- The suffixes of the inputs that ask for records of an entity, in the order of declaration. -/
def querySuffixes (entity : Entity) (usage : Usage) : List String :=
  ["WhereInput", "WhereUniqueInput"] ++
    ((if usage.list then ["ListRelationFilter"] else []) ++
      (if usage.required then ["RelationFilter"] else []) ++
      (if usage.nullable then ["NullableRelationFilter"] else [])) ++
    (if usage.list then ["ScalarWhereInput"] else []) ++
    ["ScalarWhereWithAggregatesInput", "OrderByWithRelationInput"] ++
    (if usage.list then ["OrderByRelationAggregateInput"] else []) ++
    (["CountOrderByAggregateInput"] ++
      (if entity.hasNumericFields then ["AvgOrderByAggregateInput"] else []) ++
      ["MaxOrderByAggregateInput", "MinOrderByAggregateInput"] ++
      (if entity.hasNumericFields then ["SumOrderByAggregateInput"] else [])) ++
    ["OrderByWithAggregationInput", "Select"] ++
    (if entity.hasRelations then ["Include"] else []) ++
    ["Args"] ++
    (if entity.ownsListRelation then ["CountOutputTypeSelect", "CountOutputTypeArgs"] else [])

/-- The suffixes of the payloads of an entity. -/
def payloadSuffixes : List String :=
  ["CreateInput", "UncheckedCreateInput", "CreateManyInput", "UpdateInput", "UncheckedUpdateInput",
    "UpdateManyMutationInput", "UncheckedUpdateManyInput"]

/-- The suffixes of the inputs of an entity's operations. -/
def argumentSuffixes (entity : Entity) : List String :=
  (["CountAggregateInput"] ++
      (if entity.hasNumericFields then ["AvgAggregateInput"] else []) ++
      (if entity.hasNumericFields then ["SumAggregateInput"] else []) ++
      ["MinAggregateInput", "MaxAggregateInput"]) ++
    ["FindUniqueArgs", "FindUniqueOrThrowArgs", "FindFirstArgs", "FindFirstOrThrowArgs", "FindManyArgs",
      "CreateArgs", "CreateManyArgs", "UpdateArgs", "UpdateManyArgs", "UpsertArgs", "DeleteArgs",
      "DeleteManyArgs", "AggregateArgs", "GroupByArgs"]

def inputSuffixes (entity : Entity) (usage : Usage) : List String :=
  "ScalarFieldEnum" :: (entity.querySuffixes usage ++ payloadSuffixes ++ entity.argumentSuffixes)

theorem map_name_payloads (entity : Entity) (graph : Graph) :
    (entity.createInputs graph ++ entity.updateInputs graph).map (·.name) =
      payloadSuffixes.map (Naming.ofEntity entity.name) := by
  simp only [createInputs, updateInputs, payloadSuffixes, List.map_cons, List.map_nil, List.cons_append,
    List.nil_append]

theorem map_name_arguments (entity : Entity) :
    (entity.aggregateInputs ++ entity.operationArguments).map (·.name) =
      entity.argumentSuffixes.map (Naming.ofEntity entity.name) := by
  simp only [aggregateInputs, aggregates, operationArguments, operations, argumentSuffixes, aggregateName,
    List.map_append, List.map_cons, List.map_nil, map_ite_nil, String.reduceAppend]

end Entity

namespace DataModel

theorem map_name_queryDeclarations (model : DataModel) (graph : Graph) (entity : Entity) :
    (model.queryDeclarations graph entity).map (·.name) =
      (entity.querySuffixes (model.targetUsage entity.name)).map (Naming.ofEntity entity.name) := by
  simp only [queryDeclarations, Entity.querySuffixes, Entity.whereInput, Entity.whereUnique,
    Entity.relationFilters, Entity.bulkWhere, Entity.groupWhere, Entity.scalarWhere, Entity.orderBy,
    Entity.orderBySize, Entity.orderByAggregates, Entity.orderedAggregates, Entity.orderGroupsBy,
    Entity.fieldSelection, Entity.relationSelection, Entity.singleArguments, Entity.countSelection,
    Entity.orderByAggregateName, List.map_append, List.map_cons, List.map_nil, map_ite_nil,
    String.reduceAppend]

theorem map_name_entityInputs (model : DataModel) (entity : Entity) :
    (model.entityInputs entity).map (·.name) =
      (entity.inputSuffixes (model.targetUsage entity.name)).map (Naming.ofEntity entity.name) := by
  rw [Entity.inputSuffixes, List.map_cons, List.map_append, List.map_append, ← map_name_queryDeclarations,
    ← Entity.map_name_payloads, ← Entity.map_name_arguments]
  simp only [entityInputs, List.map_cons, List.map_append, List.append_assoc]
  rfl

end DataModel

/-! ### Relation fields -/

/-- What a nested write is for: one record or several in some role, or rows of many new records. -/
inductive NestedRole where
  | record (before after : String)
  | rows (suffix : String)
  deriving DecidableEq, Repr

namespace NestedRole

/-- The name of the nested writes of a role. -/
def name (names : NestedNames) : NestedRole → String
  | .record before after => names.role before after
  | .rows suffix => names.rows suffix

/-- The roles of nested writes through a field, in the order of declaration. -/
def creations (field : Field) (bulkAllowed : Bool) : List NestedRole :=
  [.record "Create" "Input", .record "UncheckedCreate" "Input", .record "CreateOrConnect" "Input"] ++
    if field.isList then
      (if bulkAllowed then [.rows "Input", .rows "InputEnvelope"] else []) ++
        [.record "CreateNestedMany" "Input", .record "UncheckedCreateNestedMany" "Input"]
    else [.record "CreateNestedOne" "Input"]

def changes (field : Field) : List NestedRole :=
  [.record "Update" "Input", .record "UncheckedUpdate" "Input"] ++
    if field.isList then
      [.record "UpsertWithWhereUnique" "Input", .record "UpdateWithWhereUnique" "Input",
          .record "UpdateManyWithWhere" "Input", .record "UncheckedUpdateMany" "Input"] ++
        [.record "UpdateMany" "NestedInput", .record "UncheckedUpdateMany" "NestedInput"]
    else
      [.record "Upsert" "Input", .record "UpdateToOneWithWhere" "Input",
        .record (if field.multiplicity == .nullable then "UpdateOne" else "UpdateOneRequired") "NestedInput"]

/-- The roles by which payloads refer to nested writes; the other roles are referred to by nested writes. -/
def entries : List NestedRole :=
  [.record "CreateNestedOne" "Input", .record "CreateNestedMany" "Input",
    .record "UncheckedCreateNestedMany" "Input", .record "UpdateOneRequired" "NestedInput",
    .record "UpdateOne" "NestedInput", .record "UpdateMany" "NestedInput",
    .record "UncheckedUpdateMany" "NestedInput"]

/-- All roles of nested writes through a field. -/
def all (field : Field) (bulkAllowed : Bool) : List NestedRole := creations field bulkAllowed ++ changes field

end NestedRole

namespace NestedNames

theorem map_name_creations (names : NestedNames) (graph : Graph) (field : Field) (edge : Edge) :
    (names.creations graph field edge).map (·.name) =
      (NestedRole.creations field (!edge.reverse.isList)).map (·.name names) := by
  unfold creations NestedRole.creations
  cases field.isList <;> cases edge.reverse.isList <;> rfl

theorem map_name_changes (names : NestedNames) (graph : Graph) (field : Field) (edge : Edge) :
    (names.changes graph field edge).map (·.name) = (NestedRole.changes field).map (·.name names) := by
  unfold changes NestedRole.changes
  cases field.isList <;> cases edge.reverse.isList <;> rfl

end NestedNames

namespace Graph

theorem map_name_nestedWrites {graph : Graph} {owner : Entity} {field : Field} {edge : Edge}
    (h : graph.edge? owner field = some edge) : (graph.nestedWrites owner field).map (·.name) =
      (NestedRole.all field (!edge.reverse.isList)).map (·.name (.ofEdge edge)) := by
  simp only [nestedWrites, h, NestedRole.all, List.map_append, NestedNames.map_name_creations,
    NestedNames.map_name_changes]

end Graph

end DataShapes
