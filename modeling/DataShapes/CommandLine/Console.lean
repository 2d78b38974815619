import DataShapes.Json.Printer
import DataShapes.Workspace

/-! # The console report

What a command prints for the user: a header, a box with counts, and one line for each result. -/

namespace DataShapes

namespace Console

def version : String := "0.1.0"

def header : String := "  ◆ zodgen " ++ version ++ "\n\n"

def times (n : Nat) (text : String) : String := String.join (List.replicate n text)

def width : Nat := 53

def boxTop (title : String) : String :=
  "  ╭─ " ++ title ++ " " ++ times (width - 4 - title.length) "─" ++ "╮\n"

def boxLine (content : String) : String :=
  "  │ " ++ content ++ times (width - content.length) " " ++ "│\n"

def boxBottom : String := "  ╰" ++ times width "─" ++ "╯\n"

/-- A count after its name and a row of dots. -/
def boxCount (name : String) (count : Nat) : String :=
  let value := toString count
  boxLine (" " ++ name ++ " " ++ times (47 - (name.length + value.length)) "·" ++ " " ++ value)

def box (summary : Summary) : String :=
  boxTop "SCHEMAS" ++ boxLine "" ++
    boxCount "entities" summary.model.entities ++
    boxCount "enums" summary.model.enumerations ++
    boxCount "declarations" summary.declarations ++
    boxLine "" ++ boxBottom

/-- What is printed when the schemas are written. -/
def generated (summary : Summary) (output : String) (milliseconds : Nat) : String :=
  box summary ++ "\n  ◉ Wrote " ++ output ++ "\n  ◇ Done in " ++ toString milliseconds ++ "ms\n\n"

/-- What is printed when a model breaks no rule. -/
def approved (size : ModelSize) : String :=
  "  ◉ Looking good.\n\n    " ++ toString size.entities ++ " entities · " ++
    toString size.enumerations ++ " enums\n"

def refused : String := "\n  ◆ Nope.\n\n"

def complaint (failure : Failure) : String :=
  failure.code ++ "\n  " ++ failure.message ++
    (match failure.help with
      | some help => "\n  help: " ++ help
      | none => "") ++ "\n"

def logLine (event : Event) : String :=
  let level := match event.level with
    | .warning => "WARN"
    | .information => "INFO"
    | .detail => "DEBUG"
  level ++ " " ++ event.message ++
    String.join (event.details.map fun (name, value) => " " ++ name ++ "=" ++ value.compact) ++ "\n"

def usage : String :=
  "zodgen - generates Zod schemas from a DMMF data model\n\n" ++
    "Usage: zodgen [-v] generate [-s SCHEMA] [-o OUTPUT] [--skip-validation]\n" ++
    "       zodgen [-v] check [-s SCHEMA]\n"

end Console

end DataShapes
