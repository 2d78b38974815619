import DataShapes.Json.Fault
import DataShapes.Violation

/-! # Failures

Why a run gives no result: a file cannot be reached, its text is no data model, the model breaks a rule,
or a schema refers to one that does not exist. -/

namespace DataShapes

/-- Why a file cannot be reached. -/
inductive FileFault where
  | notFound
  | exists
  | notDirectory
  | isDirectory
  | nameTooLong
  /-- The path holds a NUL, at which the system takes a path to end. -/
  | holdsNul
  | notText
  /-- Any other reason, in the words of the system. -/
  | other (text : String)
  deriving DecidableEq, Repr

def FileFault.text : FileFault → String
  | .notFound => "No such file or directory (os error 2)"
  | .exists => "File exists (os error 17)"
  | .notDirectory => "Not a directory (os error 20)"
  | .isDirectory => "Is a directory (os error 21)"
  | .nameTooLong => "File name too long (os error 36)"
  | .holdsNul => "file name contained an unexpected NUL byte"
  | .notText => "stream did not contain valid UTF-8"
  | .other text => text

/-- Why a text is no data model. -/
inductive Malformation where
  | notJson (cause : Json.Cause) (position : Json.Position)
  /-- The text holds a value, but none of the shape of a data model. -/
  | wrongShape
  deriving DecidableEq, Repr

namespace Malformation

/-- The place of the fault; a wrong shape has none. -/
def position : Malformation → Json.Position
  | .notJson _ position => position
  | .wrongShape => ⟨0, 0⟩

def text : Malformation → String
  | .notJson cause position =>
    cause.text ++ " at line " ++ toString position.line ++ " column " ++ toString position.column
  | .wrongShape => "data did not match any variant of untagged enum DmmfDocument"

end Malformation

inductive Failure where
  | inaccessible (path : String) (fault : FileFault)
  | malformed (path : String) (malformation : Malformation)
  | invalid (violation : Violation)
  /-- The schema `referrer` refers to `missing`, which is not declared. -/
  | unresolved (referrer missing : String)
  deriving DecidableEq, Repr

namespace Failure

def message : Failure → String
  | .inaccessible path fault => "Failed to access '" ++ path ++ "': " ++ fault.text
  | .malformed path malformation =>
    "Malformed data model in '" ++ path ++ "' at line " ++ toString malformation.position.line ++
      ", column " ++ toString malformation.position.column ++ ": " ++ malformation.text
  | .invalid violation => violation.message
  | .unresolved referrer missing =>
    "Failed to generate schemas: " ++ referrer ++ " references " ++ missing ++
      ", which was never emitted"

/-- The code that identifies the kind of failure. -/
def code : Failure → String
  | .inaccessible .. => "zodgen::io::access_failed"
  | .malformed .. => "zodgen::input::malformed"
  | .invalid violation => "zodgen::structure::" ++ violation.label
  | .unresolved .. => "zodgen::codegen::generation_failed"

def help : Failure → Option String
  | .malformed .. =>
    some ("The input must be a DMMF document: \x7b \"datamodel\": \x7b \"models\": [...], " ++
      "\"enums\": [...] \x7d \x7d")
  | .invalid violation => violation.help
  | .inaccessible .. | .unresolved .. => none

end Failure

end DataShapes
