import DataShapes.CommandLine.Arguments
import DataShapes.CommandLine.Console

/-! # Running commands

A command line is run over given files and a clock. What is printed and the exit code are its result: 0
for success, 1 for a failure and 2 for a command line that is not understood. -/

namespace DataShapes

namespace CommandLine

/-- What a program leaves behind, apart from files. -/
structure Report where
  exitCode : Nat
  output : String
  /-- Goes to the error stream. -/
  complaint : String
  deriving DecidableEq, Repr

/-- The log of a run: all of it, or warnings only. -/
def log (verbose : Bool) (events : List Event) : String :=
  String.join ((events.filter fun e => verbose || e.level == .warning).map Console.logLine)

/-- What a run leaves behind that prints `text` for its result. -/
def report {α : Type} (verbose : Bool) (run : Run α) (text : α → String) : Report :=
  let logged := log verbose run.events
  match run.value with
  | .ok value => ⟨0, Console.header ++ text value, logged⟩
  | .error failure =>
    ⟨1, Console.header ++ Console.refused, logged ++ Console.complaint failure⟩

/-- What is left behind when there is no command to run. -/
def halted : Halt → Report
  | .fault fault => ⟨2, "", "error: " ++ fault.message ++ "\n\n" ++ Console.usage⟩
  | .help => ⟨0, Console.usage, ""⟩
  | .version => ⟨0, "zodgen " ++ Console.version ++ "\n", ""⟩

variable {m : Type → Type} [Monad m]

/-- Runs a command line; `clock` gives milliseconds. -/
def execute (files : FileAccess m) (clock : m Nat) (words : List String) : m Report := do
  match parse words with
  | .error halt => return halted halt
  | .ok ⟨.generate config, verbose⟩ =>
    let start ← clock
    let run ← files.compile config
    let finish ← clock
    return report verbose run fun summary =>
      Console.generated summary config.output (finish - start)
  | .ok ⟨.check schema, verbose⟩ =>
    return report verbose (← files.check schema) Console.approved

/-- What a model uses and how its fields are paired, as JSON. -/
def factsOf (model : DataModel) : Json :=
  .object [("edges", (Graph.ofModel model).edgesToJson), ("facts", (Facts.ofModel model).toJson)]

/-- Prints the facts about the model in the file that the first word names. -/
def printFacts (files : FileAccess m) (words : List String) : m Report := do
  match words with
  | [] => return ⟨2, "", "a schema file is required\n"⟩
  | path :: _ =>
    match (← files.load path).value with
    | .error failure => return ⟨1, "", Console.complaint failure⟩
    | .ok model => return ⟨0, (factsOf model).normal.pretty ++ "\n", ""⟩

end CommandLine

end DataShapes
