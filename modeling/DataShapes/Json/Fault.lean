/-! # Faults of a JSON text

A reader stops with a cause and with what it had left to read, which tells the place of the fault: a
line, counted from 1, and the number of bytes of that line before the place. -/

namespace DataShapes

namespace Json

/-- Why a text is no JSON value. -/
inductive Cause where
  | endOfString
  | endOfValue
  | endOfList
  | endOfObject
  | valueExpected
  | wordExpected
  | colonExpected
  | commaOrBraceExpected
  | commaOrBracketExpected
  | keyExpected
  | trailingComma
  | trailingCharacters
  | invalidNumber
  | numberOutOfRange
  | invalidEscape
  | unfinishedPair
  | loneSurrogate
  | controlCharacter
  | tooDeep
  deriving DecidableEq, Repr

def Cause.text : Cause → String
  | .endOfString => "EOF while parsing a string"
  | .endOfValue => "EOF while parsing a value"
  | .endOfList => "EOF while parsing a list"
  | .endOfObject => "EOF while parsing an object"
  | .valueExpected => "expected value"
  | .wordExpected => "expected ident"
  | .colonExpected => "expected `:`"
  | .commaOrBraceExpected => "expected `,` or `\x7d`"
  | .commaOrBracketExpected => "expected `,` or `]`"
  | .keyExpected => "key must be a string"
  | .trailingComma => "trailing comma"
  | .trailingCharacters => "trailing characters"
  | .invalidNumber => "invalid number"
  | .numberOutOfRange => "number out of range"
  | .invalidEscape => "invalid escape"
  | .unfinishedPair => "unexpected end of hex escape"
  | .loneSurrogate => "lone leading surrogate in hex escape"
  | .controlCharacter => "control character (\\u0000-\\u001F) found while parsing a string"
  | .tooDeep => "recursion limit exceeded"

/-- A place in a text. -/
structure Position where
  line : Nat
  column : Nat
  deriving DecidableEq, Repr

/-- The place after the first `offset` bytes of a text. -/
def Position.after (text : String) (offset : Nat) : Position :=
  let before := text.toUTF8.toList.take offset
  let newline (byte : UInt8) : Bool := byte == 10
  ⟨before.countP newline + 1, (before.reverse.takeWhile (!newline ·)).length⟩

/-- Where reading stopped and why: `rest` is not read yet, and `ahead` bytes of it were looked at. -/
structure Stop where
  cause : Cause
  rest : List Char
  ahead : Nat
  deriving DecidableEq, Repr

def byteCount (chars : List Char) : Nat := chars.foldr (fun c n => c.utf8Size + n) 0

/-- The place of a stop in the text that was read; never beyond its end. -/
def Stop.position (stop : Stop) (text : String) : Position :=
  .after text (text.utf8ByteSize - byteCount stop.rest + stop.ahead)

end Json

end DataShapes
