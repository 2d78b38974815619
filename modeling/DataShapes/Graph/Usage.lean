import DataShapes.Graph.Reverse
import DataShapes.Event

/-! # Usage

What the fields of a model use: each scalar type and each enumeration with some multiplicities, and
entities as targets of relations of some multiplicities. Shared schemas exist for what is used. -/

namespace DataShapes

/-- The multiplicities that occur among some fields. -/
structure Usage where
  required : Bool
  nullable : Bool
  list : Bool
  deriving DecidableEq, Repr, Inhabited

namespace Usage

def ofFields (fields : List Field) : Usage :=
  let occurs (m : Multiplicity) : Bool := fields.any (·.multiplicity == m)
  ⟨occurs .required, occurs .nullable, occurs .list⟩

def has (usage : Usage) : Multiplicity → Bool
  | .required => usage.required
  | .nullable => usage.nullable
  | .list => usage.list

def any (usage : Usage) : Bool := usage.required || usage.nullable || usage.list

/-- The multiplicities that occur, in their order. -/
def multiplicities (usage : Usage) : List Multiplicity :=
  [.required, .nullable, .list].filter usage.has

end Usage

namespace DataModel

/-- How the fields of the model use a scalar type. -/
def scalarUsage (model : DataModel) (type : ScalarType) : Usage :=
  .ofFields (model.allFields.filter (·.scalarType? == some type))

/-- How the fields of the model use an enumeration. -/
def enumerationUsage (model : DataModel) (name : String) : Usage :=
  .ofFields (model.allFields.filter (·.enumeration? == some name))

/-- How the fields of the model lead to an entity. -/
def targetUsage (model : DataModel) (entity : String) : Usage :=
  .ofFields (model.allFields.filter fun f => f.relation?.any (·.target == entity))

/-- The recognized scalar types that some field has, in their order. -/
def scalarTypes (model : DataModel) : List ScalarType :=
  ScalarType.recognized.filter fun type => (model.scalarUsage type).any

/-- The tags of unrecognized types that some field has. -/
def unrecognizedTags (model : DataModel) : List String :=
  NameSet.ofList (model.allFields.filterMap fun f =>
    match f.scalarType? with
    | some (.unrecognized tag) => some tag
    | _ => none)

/-- The names of enumerations that some field has, declared or not. -/
def enumerationsUsed (model : DataModel) : List String :=
  NameSet.ofList (model.allFields.filterMap (·.enumeration?))

/-- The entities, declared or not, that some relation of this multiplicity leads to. -/
def targets (model : DataModel) (multiplicity : Multiplicity) : List String :=
  NameSet.ofList ((model.allFields.filter (·.multiplicity == multiplicity)).filterMap fun f =>
    f.relation?.map (·.target))

end DataModel

/-- All that the model uses, as a report. -/
structure Facts where
  listTargets : List String
  requiredTargets : List String
  nullableTargets : List String
  enumerations : List (String × Usage)
  /-- By type, the recognized ones first. -/
  scalarTypes : List (ScalarType × Usage)
  deriving DecidableEq, Repr

namespace Facts

def ofModel (model : DataModel) : Facts where
  listTargets := model.targets .list
  requiredTargets := model.targets .required
  nullableTargets := model.targets .nullable
  enumerations := model.enumerationsUsed.map fun name => (name, model.enumerationUsage name)
  scalarTypes :=
    (model.scalarTypes ++ model.unrecognizedTags.map ScalarType.unrecognized).map fun type =>
      (type, model.scalarUsage type)

/-- What is reported about the analysis of a graph. -/
def event (facts : Facts) (graph : Graph) : Event :=
  .graphAnalyzed facts.listTargets.length facts.enumerations.length facts.scalarTypes.length
    graph.edges.length

end Facts

def Usage.toJson (usage : Usage) : Json :=
  .object [("required", .bool usage.required), ("nullable", .bool usage.nullable),
    ("list", .bool usage.list)]

/-- The report as a JSON object. Types appear by their tags; of two types of one tag the later counts. -/
def Facts.toJson (facts : Facts) : Json :=
  let names (ns : List String) : Json := .array (ns.map .string)
  .object [
    ("list_relation_targets", names facts.listTargets),
    ("required_relation_targets", names facts.requiredTargets),
    ("nullable_relation_targets", names facts.nullableTargets),
    ("enum_usage", .object (facts.enumerations.map fun (name, usage) => (name, usage.toJson))),
    ("scalar_usage", .object (facts.scalarTypes.map fun (type, usage) => (type.tag, usage.toJson)))]

def Graph.edgesToJson (graph : Graph) : Json :=
  .array (graph.edges.map fun p =>
    .object [("entity", .string p.entity), ("field", .string p.field), ("reverse", .string p.reverse)])

end DataShapes
