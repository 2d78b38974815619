import DataShapes.Json.Value

/-! # Events

What a run reports about itself, apart from its result: a level, a message and the values it is about. -/

namespace DataShapes

inductive Level where
  | warning
  | information
  | detail
  deriving DecidableEq, Repr

inductive Event where
  /-- A scalar field has a type that the library does not know. -/
  | unrecognizedScalar (entity field tag : String)
  /-- A field is of a kind that the host itself does not support. -/
  | unsupportedField (entity field tag : String)
  | modelLoaded (entities enumerations : Nat)
  | graphAnalyzed (listTargets enumerations scalarTypes edges : Nat)
  /-- A declaration was left out because its name was taken. -/
  | duplicateDropped (name : String)
  | sectionAssembled (title : String) (declarations : Nat)
  | documentBuilt (declarations : Nat)
  | compiling (schema : String)
  | written (output : String) (entities enumerations declarations : Nat)
  deriving DecidableEq, Repr

namespace Event

def level : Event → Level
  | .unrecognizedScalar .. | .unsupportedField .. | .duplicateDropped .. => .warning
  | .compiling .. | .written .. => .information
  | .modelLoaded .. | .graphAnalyzed .. | .sectionAssembled .. | .documentBuilt .. => .detail

def message : Event → String
  | .unrecognizedScalar .. => "unrecognized scalar type, generated schemas will accept any value"
  | .unsupportedField .. => "unsupported field type, generated schemas will accept any value"
  | .modelLoaded .. => "loaded data model"
  | .graphAnalyzed .. => "analyzed entity graph"
  | .duplicateDropped .. => "dropping duplicate fragment"
  | .sectionAssembled .. => "assembled section"
  | .documentBuilt .. => "built schema document"
  | .compiling .. => "compiling data model"
  | .written .. => "wrote schemas"

/-- The values that the event is about, by name. -/
def details : Event → List (String × Json)
  | .unrecognizedScalar entity field tag | .unsupportedField entity field tag =>
    [("entity", .string entity), ("field", .string field), ("tag", .string tag)]
  | .modelLoaded entities enumerations => [("entities", .int entities), ("enums", .int enumerations)]
  | .graphAnalyzed listTargets enumerations scalarTypes edges =>
    [("list_relation_targets", .int listTargets), ("enums_used", .int enumerations),
      ("scalar_types_used", .int scalarTypes), ("relation_edges", .int edges)]
  | .duplicateDropped name => [("fragment", .string name)]
  | .sectionAssembled title declarations =>
    [("section", .string title), ("fragments", .int declarations)]
  | .documentBuilt declarations => [("fragments", .int declarations)]
  | .compiling schema => [("schema", .string schema)]
  | .written output entities enumerations declarations =>
    [("output", .string output), ("entities", .int entities), ("enums", .int enumerations),
      ("fragments", .int declarations)]

end Event

/-- A result and the events of the run that gave it. -/
structure Reported (α : Type) where
  value : α
  events : List Event
  deriving Repr

namespace Reported

/-- Runs on with a result; the events follow each other. -/
def bind {α β : Type} (first : Reported α) (next : α → Reported β) : Reported β :=
  let second := next first.value
  ⟨second.value, first.events ++ second.events⟩

def map {α β : Type} (f : α → β) (r : Reported α) : Reported β := ⟨f r.value, r.events⟩

def silent {α : Type} (value : α) : Reported α := ⟨value, []⟩

/-- The results of a row and the events of all of them. -/
def sequence {α : Type} (rs : List (Reported α)) : Reported (List α) :=
  ⟨rs.map (·.value), rs.flatMap (·.events)⟩

end Reported

end DataShapes
