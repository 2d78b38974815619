/-! # Points in time

The text of a point in time is `YYYY-MM-DDTHH:MM:SS`, perhaps a fraction of the second, and `Z`. Each
part lies in its range; the length of the month is not looked at. The parts are found by their places,
counted in bytes. -/

namespace DataShapes

namespace DateTime

/-! ### Bytes -/

/-- The bytes of a text. -/
def utf8 (text : List Char) : List UInt8 := text.flatMap String.utf8EncodeChar

/-- A text in two, the first part of `n` bytes; `none` for more bytes than there are, and where a
character would be split. -/
def splitAt? : (n : Nat) → (text : List Char) → Option (List Char × List Char)
  | 0, text => some ([], text)
  | _ + 1, [] => none
  | n + 1, c :: text =>
    if c.utf8Size ≤ n + 1 then
      (splitAt? (n + 1 - c.utf8Size) text).map fun (front, rest) => (c :: front, rest)
    else none

/-- The part of a text from one byte up to another. -/
def slice? (text : List Char) (start stop : Nat) : Option (List Char) := do
  let (front, _) ← splitAt? stop text
  let (_, part) ← splitAt? start front
  return part

def isDigit (byte : UInt8) : Bool := '0'.toUInt8 ≤ byte && byte ≤ '9'.toUInt8

def isDigits (text : List Char) : Bool := (utf8 text).all isDigit

/-- The number that digits write. -/
def number? (text : List Char) : Option Nat :=
  if !text.isEmpty && isDigits text then some (Nat.ofDigitChars 10 text 0) else none

/-! ### Parts -/

/-- The characters between the numbers, with their places. -/
def marks : List (Nat × Char) := [(4, '-'), (7, '-'), (10, 'T'), (13, ':'), (16, ':')]

/-- A number in a date and a time: its place and its range. -/
structure Part where
  start : Nat
  stop : Nat
  low : Nat
  high : Nat

def Part.holds (part : Part) (text : List Char) : Bool :=
  (number? text).any fun n => part.low ≤ n && n ≤ part.high

def parts : List Part :=
  [⟨0, 4, 0, 9999⟩, ⟨5, 7, 1, 12⟩, ⟨8, 10, 1, 31⟩, ⟨11, 13, 0, 23⟩, ⟨14, 16, 0, 59⟩, ⟨17, 19, 0, 59⟩]

/-- Whether every mark is at its place; `none` for a place behind the end. -/
def marked? (bytes : List UInt8) : Option Bool :=
  marks.allM fun (place, mark) => bytes[place]?.map (· == mark.toUInt8)

/-- Whether every part is a number in its range; `none` for a part that is not there or that splits a
character. -/
def filled? (text : List Char) : Option Bool :=
  (parts.mapM fun part => (slice? text part.start part.stop).map part.holds).map (·.all id)

/-- Whether a text is a date and a time up to the second. -/
def isSecond? (text : List Char) : Option Bool :=
  let bytes := utf8 text
  if bytes.length == 19 then
    (marked? bytes).bind fun marked => if marked then filled? text else some false
  else some false

/-- Whether the characters are a point and digits, or nothing. -/
def isFraction : List Char → Bool
  | [] => true
  | c :: digits => c == '.' && !digits.isEmpty && isDigits digits

/-- Whether a text is a point in time; `none` if a place was looked at that is not in the text, or that
is inside a character. -/
def scan (s : String) : Option Bool :=
  let body := s.toList.dropLast
  if s.toList.getLast? == some 'Z' && isFraction (body.dropWhile (· != '.')) then
    isSecond? (body.takeWhile (· != '.'))
  else some false

def isIso (s : String) : Bool := scan s == some true

end DateTime

end DataShapes
