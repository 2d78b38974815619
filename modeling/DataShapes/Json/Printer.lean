import DataShapes.Json.Shortest

/-! # Writing JSON

The compact form has no blank; the indented form puts every item and every entry on a line of its own.
In a string only the quote, the backslash and control characters are escaped. A floating-point number is
written with the digits of its shortest decimal: positionally while its point stands at most 16 places
to the right of the first digit and less than 5 zeros to the left of it, always with a fraction, and with
an exponent that has a sign otherwise. -/

namespace DataShapes

namespace Double

/-- Lays out the digits and the exponent of ten of a positive decimal. -/
def layout (digits : List Char) (exponent : Int) : String :=
  let size := digits.length
  let point := size + exponent
  if 0 ≤ exponent ∧ point ≤ 16 then
    String.ofList (digits ++ List.replicate exponent.toNat '0') ++ ".0"
  else if 0 < point ∧ point ≤ 16 then
    String.ofList (digits.take point.toNat) ++ "." ++ String.ofList (digits.drop point.toNat)
  else if -5 < point ∧ point ≤ 0 then
    "0." ++ String.ofList (List.replicate (-point).toNat '0' ++ digits)
  else
    let fraction := if size = 1 then [] else '.' :: digits.drop 1
    let sign := if point ≤ 0 then "" else "+"
    String.ofList (digits.take 1 ++ fraction) ++ "e" ++ sign ++ toString (point - 1)

/-- The text of a finite number; what is no finite number has no text but `null`. -/
def text (d : Double) : String :=
  if infinity ≤ d.magnitude then "null"
  else
    let sign := if d.negative then "-" else ""
    if d.isZero then sign ++ "0.0"
    else
      let decimal := d.shortest
      sign ++ layout (Nat.toDigits 10 decimal.digits) decimal.exponent

end Double

namespace Json

def hexDigit (n : Nat) : Char := Nat.digitChar n

def escapeChar (c : Char) : String :=
  if c = '"' then "\\\""
  else if c = '\\' then "\\\\"
  else if c = '\x08' then "\\b"
  else if c = '\x0c' then "\\f"
  else if c = '\n' then "\\n"
  else if c = '\r' then "\\r"
  else if c = '\t' then "\\t"
  else if c.toNat < 0x20 then
    "\\u00" ++ String.singleton (hexDigit (c.toNat / 16)) ++ String.singleton (hexDigit (c.toNat % 16))
  else String.singleton c

def quoted (s : String) : String :=
  s.toList.foldl (fun text c => text ++ escapeChar c) "\"" ++ "\""

/-- The texts between brackets, with commas between them. -/
def bracketed (opening closing : String) (parts : List String) : String :=
  opening ++ ",".intercalate parts ++ closing

mutual

def compact : Json → String
  | .null => "null"
  | .bool true => "true"
  | .bool false => "false"
  | .int n => toString n
  | .double d => d.text
  | .string s => quoted s
  | .array items => bracketed "[" "]" (compactItems items)
  | .object entries => bracketed "\x7b" "\x7d" (compactEntries entries)

def compactItems : List Json → List String
  | [] => []
  | item :: items => compact item :: compactItems items

def compactEntries : List (String × Json) → List String
  | [] => []
  | (key, value) :: entries => (quoted key ++ ":" ++ compact value) :: compactEntries entries

end

/-- The texts on lines of their own, one level deeper than `depth`, between brackets. -/
def indented (opening closing : String) (depth : Nat) (parts : List String) : String :=
  let newline (depth : Nat) := "\n" ++ String.ofList (List.replicate (2 * depth) ' ')
  if parts.isEmpty then opening ++ closing
  else opening ++ newline (depth + 1) ++ ("," ++ newline (depth + 1)).intercalate parts ++
    newline depth ++ closing

mutual

/-- The indented form, as it stands `depth` levels deep. -/
def prettyAt (depth : Nat) : Json → String
  | .array items => indented "[" "]" depth (prettyItems (depth + 1) items)
  | .object entries => indented "\x7b" "\x7d" depth (prettyEntries (depth + 1) entries)
  | .null => compact .null
  | .bool b => compact (.bool b)
  | .int n => compact (.int n)
  | .double d => compact (.double d)
  | .string s => compact (.string s)

def prettyItems (depth : Nat) : List Json → List String
  | [] => []
  | item :: items => prettyAt depth item :: prettyItems depth items

def prettyEntries (depth : Nat) : List (String × Json) → List String
  | [] => []
  | (key, value) :: entries =>
    (quoted key ++ ": " ++ prettyAt depth value) :: prettyEntries depth entries

end

def pretty (value : Json) : String := value.prettyAt 0

end Json

end DataShapes
