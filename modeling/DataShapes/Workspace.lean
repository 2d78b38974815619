import DataShapes.Files.Tree
import DataShapes.Generation
import DataShapes.Model.Decoding
import DataShapes.Validation

/-! # Runs on files

A run reads a data model from a file, checks it, and perhaps writes the source of its schemas to another
file. What a run does to files is given by `FileAccess`: a tree in memory or the files of the system.
Nothing is written unless everything before has succeeded. -/

namespace DataShapes

/-- Where a run reads and writes, and whether it leaves out the check of the model. -/
structure Config where
  schema : String
  output : String
  skipValidation : Bool
  deriving DecidableEq, Repr

/-- What is used where nothing is said. -/
def Config.standard : Config := ⟨"dmmf.json", "generated/zod/index.ts", false⟩

structure FileAccess (m : Type → Type) where
  read : Path → m (Except FileFault String)
  createDirectories : Path → m (Except FileFault Unit)
  write : Path → String → m (Except FileFault Unit)

namespace Tree

def access : FileAccess (StateM Tree) where
  read path := fun tree => (tree.read path, tree)
  createDirectories path := fun tree => tree.createDirectories path
  write path text := fun tree =>
    match tree.write path (.text text) with
    | .ok written => (.ok (), written)
    | .error fault => (.error fault, tree)

end Tree

/-- How much a model holds. -/
structure ModelSize where
  entities : Nat
  enumerations : Nat
  deriving DecidableEq, Repr

def DataModel.size (model : DataModel) : ModelSize :=
  ⟨model.entities.length, model.enumerations.length⟩

/-- How much a run has generated. -/
structure Summary where
  model : ModelSize
  declarations : Nat
  deriving DecidableEq, Repr

/-- The result of a run, or why there is none, and what was reported until then. -/
abbrev Run (α : Type) := Reported (Except Failure α)

namespace Run

/-- Goes on with the result of a run, if there is one. -/
def andThen {α β : Type} (run : Run α) (next : α → Run β) : Run β :=
  Reported.bind run fun result =>
    match result with
    | .ok value => next value
    | .error failure => .silent (.error failure)

def ofExcept {α : Type} (result : Except Failure α) : Run α := .silent result

end Run

namespace DataModel

/-- The model in a text that was read, or not, from a file. -/
def ofFile (path : String) (content : Except FileFault String) : Run DataModel :=
  match content with
  | .error fault => .ofExcept (.error (.inaccessible path fault))
  | .ok text =>
    match parse text path with
    | .error failure => .ofExcept (.error failure)
    | .ok reported => reported.map .ok

def checked (model : DataModel) : Except Failure DataModel :=
  match model.violation? with
  | none => .ok model
  | some violation => .error (.invalid violation)

/-- The source of the schemas, with what is reported while they are built. -/
def reportedSource (model : DataModel) : Run Source := model.reportedDocument.map (·.source)

end DataModel

namespace Config

/-- What a run generates from a text that was read from the schema file. -/
def generate (config : Config) (content : Except FileFault String) : Run (DataModel × Source) :=
  (DataModel.ofFile config.schema content).andThen fun model =>
    (Run.ofExcept (if config.skipValidation then .ok model else model.checked)).andThen fun model =>
      model.reportedSource.andThen fun source => .ofExcept (.ok (model, source))

/-- The size of a model in a text that was read from a file, if it breaks no rule. -/
def inspect (path : String) (content : Except FileFault String) : Run ModelSize :=
  (DataModel.ofFile path content).andThen fun model => .ofExcept (model.checked.map (·.size))

end Config

namespace FileAccess

variable {m : Type → Type} [Monad m] (files : FileAccess m)

def createAbove (target : Path) : m (Except Failure Unit) :=
  match target.parent? with
  | none => pure (.ok ())
  | some parent => do
    if parent.isEmpty then return .ok ()
    match ← files.createDirectories parent with
    | .error fault => return .error (.inaccessible parent.text fault)
    | .ok () => return .ok ()

/-- Writes a file, with the directories above it. -/
def replace (path text : String) : m (Except Failure Unit) := do
  let target := Path.ofString path
  match ← files.createAbove target with
  | .error failure => return .error failure
  | .ok () =>
    match ← files.write target text with
    | .error fault => return .error (.inaccessible path fault)
    | .ok () => return .ok ()

def load (path : String) : m (Run DataModel) := do
  return DataModel.ofFile path (← files.read (.ofString path))

def check (path : String) : m (Run ModelSize) := do
  return Config.inspect path (← files.read (.ofString path))

/-- Reads a model, checks it and writes the source of its schemas. -/
def compile (config : Config) : m (Run Summary) := do
  let generated := config.generate (← files.read (.ofString config.schema))
  let events := .compiling config.schema :: generated.events
  match generated.value with
  | .error failure => return ⟨.error failure, events⟩
  | .ok (model, source) =>
    match ← files.replace config.output source.text with
    | .error failure => return ⟨.error failure, events⟩
    | .ok () =>
      let size := model.size
      let written := .written config.output size.entities size.enumerations source.declarations
      return ⟨.ok ⟨size, source.declarations⟩, events ++ [written]⟩

end FileAccess

end DataShapes
