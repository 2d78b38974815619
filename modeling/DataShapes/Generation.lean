import DataShapes.Failure
import DataShapes.Graph.Usage
import DataShapes.Shapes.Operation.Arguments
import DataShapes.Shapes.Query.Condition
import DataShapes.Shapes.Query.Lookup
import DataShapes.Shapes.Query.Ordering
import DataShapes.Shapes.Query.Selection
import DataShapes.Shapes.Shared.Operations
import DataShapes.Shapes.Shared.Primitives
import DataShapes.Shapes.Write.Nested

/-! # The document of a model

The schemas of a model make five sections. A section lists all declarations that are built for it; the
document drops those whose names are taken. -/

namespace DataShapes

/-- The generated source and the number of its declarations. -/
structure Source where
  text : String
  declarations : Nat
  deriving DecidableEq, Repr

namespace DataModel

/-- The declarations that tell what of an entity is asked for. -/
def queryDeclarations (model : DataModel) (graph : Graph) (entity : Entity) : List Declaration :=
  let usage := model.targetUsage entity.name
  [entity.whereInput, entity.whereUnique] ++
    entity.relationFilters usage ++
    entity.bulkWhere usage ++
    [entity.groupWhere, entity.orderBy] ++
    entity.orderBySize usage ++
    entity.orderByAggregates ++
    [entity.orderGroupsBy, entity.fieldSelection] ++
    entity.relationSelection ++
    [entity.singleArguments] ++
    entity.countSelection graph

/-- The declarations of filters, orderings and selections. -/
def querySection (model : DataModel) (graph : Graph) : List Declaration :=
  Filter.declarations model ++ model.entities.flatMap (model.queryDeclarations graph)

/-- The declarations of payloads, and of the nested writes of all relation fields. -/
def payloadSection (model : DataModel) (graph : Graph) : List Declaration :=
  Operation.declarations model ++
    (model.entities.flatMap fun entity => entity.createInputs graph ++ entity.updateInputs graph) ++
    model.entities.flatMap fun entity => entity.relationFields.flatMap (graph.nestedWrites entity)

def argumentSection (model : DataModel) : List Declaration :=
  model.entities.flatMap fun entity => entity.aggregateInputs ++ entity.operationArguments

/-- All sections of the model, as they are built. -/
def sections (model : DataModel) : List Section :=
  let graph := Graph.ofModel model
  [⟨"Shared primitives", Primitives.declarations model⟩,
    ⟨"Enums and models", model.recordDeclarations⟩,
    ⟨"Filters, ordering and selection", model.querySection graph⟩,
    ⟨"Create and update inputs", model.payloadSection graph⟩,
    ⟨"Operation arguments", model.argumentSection⟩]

/-- All declarations of the model, as they are built. -/
def built (model : DataModel) : List Declaration := model.sections.flatMap (·.declarations)

/-- The document of the model, and what is reported on the way. -/
def reportedDocument (model : DataModel) : Reported Document :=
  let analyzed := (Facts.ofModel model).event (Graph.ofModel model)
  let assembled := Document.ofSections model.sections
  ⟨assembled.value, analyzed :: assembled.events ++ [.documentBuilt assembled.value.size]⟩

def document (model : DataModel) : Document := model.reportedDocument.value

end DataModel

namespace Document

/-- The source of a document; every reference must be declared. -/
def source (d : Document) : Except Failure Source :=
  match d.unresolved with
  | (referrer, missing) :: _ => .error (.unresolved referrer missing)
  | [] => .ok ⟨d.render, d.size⟩

end Document

namespace DataModel

def generate (model : DataModel) : Except Failure Source := model.document.source

end DataModel

end DataShapes
