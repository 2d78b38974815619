import DataShapes.Workspace

/-! # Command-line arguments

The words of a command line name a command and its options. An option has a long name after `--`, and
most have a letter after `-`; letters may stand together. A value follows its option as the next word, or
in the same word, after `=` where the name ends. No option may be given twice. -/

namespace DataShapes

namespace CommandLine

inductive Flag where
  | schema
  | output
  | skipValidation
  | verbose
  | help
  | version
  deriving DecidableEq, Repr

namespace Flag

def long : Flag → String
  | .schema => "schema"
  | .output => "output"
  | .skipValidation => "skip-validation"
  | .verbose => "verbose"
  | .help => "help"
  | .version => "version"

def letter? : Flag → Option Char
  | .schema => some 's'
  | .output => some 'o'
  | .skipValidation => none
  | .verbose => some 'v'
  | .help => some 'h'
  | .version => some 'V'

def takesValue : Flag → Bool
  | .schema | .output => true
  | .skipValidation | .verbose | .help | .version => false

end Flag

/-- Why a command line is not understood. -/
inductive UsageFault where
  | noCommand
  | unknownCommand (name : String)
  | unexpected (word : String)
  | noValue (flag : Flag)
  | needlessValue (flag : Flag)
  | repeated (flag : Flag)
  deriving DecidableEq, Repr

def UsageFault.message : UsageFault → String
  | .noCommand => "a command is required: generate or check"
  | .unknownCommand name => "unrecognized command '" ++ name ++ "'"
  | .unexpected word => "unexpected argument '" ++ word ++ "'"
  | .noValue flag => "a value is required for '--" ++ flag.long ++ "'"
  | .needlessValue flag => "'--" ++ flag.long ++ "' takes no value"
  | .repeated flag => "'--" ++ flag.long ++ "' cannot be used multiple times"

/-- Why reading a command line ends without a command to run. -/
inductive Halt where
  | fault (fault : UsageFault)
  | help
  | version
  deriving DecidableEq, Repr

inductive Command where
  | generate (config : Config)
  | check (schema : String)
  deriving DecidableEq, Repr

/-- A command to run, and whether to report all that happens. -/
structure Invocation where
  command : Command
  verbose : Bool
  deriving DecidableEq, Repr

/-! ## Words -/

/-- A word of the command line by its form. -/
inductive Word where
  | plain
  /-- No option stands behind this word. -/
  | endOfOptions
  | long (name : String) (value : Option String)
  | letters (letters : List Char)
  deriving DecidableEq, Repr

def Word.ofString (text : String) : Word :=
  match text.toList with
  | ['-', '-'] => .endOfOptions
  | '-' :: '-' :: rest =>
    let value := (rest.dropWhile (· != '=')).tail?
    .long (String.ofList (rest.takeWhile (· != '='))) (value.map String.ofList)
  | '-' :: c :: rest => .letters (c :: rest)
  | _ => .plain

/-! ## Options -/

/-- The options given so far with their values; an option that takes none has an empty one. -/
abbrev Given := List (Flag × String)

def value? (given : Given) (flag : Flag) : Option String :=
  (given.find? (·.1 == flag)).map (·.2)

def isGiven (given : Given) (flag : Flag) : Bool := (value? given flag).isSome

/-- Adds an option. A value must not be empty. -/
def give (given : Given) (flag : Flag) (value : String) : Except Halt Given :=
  if flag = .help then .error .help
  else if flag = .version then .error .version
  else if isGiven given flag then .error (.fault (.repeated flag))
  else if flag.takesValue && value.isEmpty then .error (.fault (.noValue flag))
  else .ok (given ++ [(flag, value)])

/-- Reads letters of the options `flags` in the word `text`. The last option may still lack its value. -/
def readLetters (flags : List Flag) (text : String) (given : Given) :
    List Char → Except Halt (Given × Option Flag)
  | [] => .ok (given, none)
  | c :: rest =>
    match flags.find? (·.letter? == some c) with
    | none => .error (.fault (.unexpected text))
    | some flag =>
      if flag.takesValue then
        match rest with
        | [] => .ok (given, some flag)
        | '=' :: value => (give given flag (String.ofList value)).map (·, none)
        | value => (give given flag (String.ofList value)).map (·, none)
      else
        match give given flag "" with
        | .error halt => .error halt
        | .ok given => readLetters flags text given rest

/-- Reads the name of one of the options `flags` in the word `text`. -/
def readLong (flags : List Flag) (text : String) (given : Given) (name : String)
    (value : Option String) : Except Halt (Given × Option Flag) :=
  match flags.find? (·.long == name), value with
  | none, _ => .error (.fault (.unexpected text))
  | some flag, some value =>
    if flag.takesValue then (give given flag value).map (·, none)
    else .error (.fault (.needlessValue flag))
  | some flag, none =>
    if flag.takesValue then .ok (given, some flag) else (give given flag "").map (·, none)

/-- Reads options up to the first word that is none; `awaiting` is the option that the next word is the
value of. -/
def readOptions (flags : List Flag) (given : Given) (awaiting : Option Flag) :
    List String → Except Halt (Given × List String)
  | [] =>
    match awaiting with
    | some flag => .error (.fault (.noValue flag))
    | none => .ok (given, [])
  | text :: rest =>
    match awaiting, Word.ofString text with
    | some flag, .plain =>
      match give given flag text with
      | .error halt => .error halt
      | .ok given => readOptions flags given none rest
    | some flag, _ => .error (.fault (.noValue flag))
    | none, .plain => .ok (given, text :: rest)
    | none, .endOfOptions =>
      match rest with
      | [] => .ok (given, [])
      | next :: _ => .error (.fault (.unexpected next))
    | none, .long name value =>
      match readLong flags text given name value with
      | .error halt => .error halt
      | .ok (given, awaiting) => readOptions flags given awaiting rest
    | none, .letters letters =>
      match readLetters flags text given letters with
      | .error halt => .error halt
      | .ok (given, awaiting) => readOptions flags given awaiting rest

/-! ## Command lines -/

/-- Reads options of a command behind which nothing else may stand. -/
def onlyOptions (flags : List Flag) (words : List String) : Except Halt Given :=
  match readOptions flags [] none words with
  | .error halt => .error halt
  | .ok (given, []) => .ok given
  | .ok (_, word :: _) => .error (.fault (.unexpected word))

def parse (words : List String) : Except Halt Invocation := do
  let (before, rest) ← readOptions [.verbose, .help, .version] [] none words
  let verbose (given : Given) : Bool := isGiven before .verbose || isGiven given .verbose
  match rest with
  | [] => .error (.fault .noCommand)
  | "generate" :: words =>
    let given ← onlyOptions [.schema, .output, .skipValidation, .verbose, .help] words
    let config : Config := {
      schema := (value? given .schema).getD Config.standard.schema
      output := (value? given .output).getD Config.standard.output
      skipValidation := isGiven given .skipValidation }
    return ⟨.generate config, verbose given⟩
  | "check" :: words =>
    let given ← onlyOptions [.schema, .verbose, .help] words
    return ⟨.check ((value? given .schema).getD Config.standard.schema), verbose given⟩
  | ["help"] | ["help", "generate"] | ["help", "check"] | ["help", "help"] => .error .help
  | "help" :: name :: _ => .error (.fault (.unknownCommand name))
  | name :: _ => .error (.fault (.unknownCommand name))

end CommandLine

end DataShapes
