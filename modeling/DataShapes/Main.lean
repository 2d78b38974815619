import DataShapes.CommandLine.Execution

/-! # The program

The command line over the files and the clock of the system. -/

namespace DataShapes

/-- Why the system refuses a file. A file where a directory is due and a directory where a file is due
are one kind of error with two codes, 21 being that of a directory. A name that is too long is one of the
kinds of bad argument, with the code 36, which may come negated. -/
def FileFault.ofSystem : IO.Error → FileFault
  | .noFileOrDirectory .. => .notFound
  | .alreadyExists .. => .exists
  | .inappropriateType _ code _ => if code = 21 then .isDirectory else .notDirectory
  | .invalidArgument _ code details =>
    if code = 36 || code = -36 then .nameTooLong else .other details
  | error => .other (toString error)

def attempt {α : Type} (action : IO α) : IO (Except FileFault α) := do
  try
    return .ok (← action)
  catch error =>
    return .error (.ofSystem error)

def systemFiles : FileAccess IO where
  read path := do
    match ← attempt (IO.FS.readBinFile path.text) with
    | .error fault => return .error fault
    | .ok bytes =>
      match String.fromUTF8? bytes with
      | some text => return .ok text
      | none => return .error .notText
  createDirectories path := attempt (IO.FS.createDirAll path.text)
  write path text := attempt (IO.FS.writeFile path.text text)

end DataShapes

/-- Runs the command line and prints what it leaves behind. -/
def main (words : List String) : IO UInt32 := do
  let report ← DataShapes.CommandLine.execute DataShapes.systemFiles IO.monoMsNow words
  IO.print report.output
  IO.eprint report.complaint
  return report.exitCode.toUInt32
