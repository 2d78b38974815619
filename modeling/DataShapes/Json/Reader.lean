import DataShapes.Json.Double
import DataShapes.Json.Fault

/-! # Reading JSON

A reader takes a value off the head of a text and gives the rest, which is shorter, so that reading
several of them ends. Arrays and objects nest at most 127 deep. A whole number of 64 bits is an
integer; any other number is the sum of its digits, as far as 64 bits hold them, scaled by a power of
ten. -/

namespace DataShapes

namespace Json

/-- What a reader took off the head of a text, and the shorter rest. -/
structure Taken (α : Type) (input : List Char) where
  value : α
  rest : List Char
  shorter : rest.length < input.length

/-- What was read at the head of a text, nothing perhaps, and the rest. -/
structure Passed (α : Type) (input : List Char) where
  value : α
  rest : List Char
  notLonger : rest.length ≤ input.length

/-- Takes a value off the head of any text. -/
abbrev Reader (α : Type) := (input : List Char) → Except Stop (Taken α input)

/-- A value taken off the end of a text was also taken off the text. -/
def Taken.within {α : Type} {inner : List Char} (taken : Taken α inner) {outer : List Char}
    (h : inner.length ≤ outer.length) : Taken α outer :=
  ⟨taken.value, taken.rest, Nat.lt_of_lt_of_le taken.shorter h⟩

def stopAt {α : Type} (cause : Cause) (rest : List Char) : Except Stop α :=
  .error ⟨cause, rest, 0⟩

def stopOn {α : Type} (cause : Cause) (rest : List Char) : Except Stop α :=
  .error ⟨cause, rest, 1⟩

/-! ## Blanks and words -/

def isBlank (c : Char) : Bool := c == ' ' || c == '\n' || c == '\t' || c == '\r'

def skipBlanks (input : List Char) : List Char := input.dropWhile isBlank

theorem length_skipBlanks_le (input : List Char) : (skipBlanks input).length ≤ input.length :=
  (List.dropWhile_sublist isBlank).length_le

def letters : (expected input : List Char) → Except Stop (Passed Unit input)
  | [], input => .ok ⟨(), input, Nat.le_refl _⟩
  | _ :: _, [] => stopAt .endOfValue []
  | e :: expected, c :: rest =>
    if c = e then
      match letters expected rest with
      | .ok ⟨_, rest', h⟩ => .ok ⟨(), rest', by simp; omega⟩
      | .error stop => .error stop
    else stopOn .wordExpected (c :: rest)

/-! ## Numbers -/

/-- Whether `n` is a whole number of 64 bits. -/
def fits (n : Nat) : Bool := n < Nat.pow 2 64

def digitValue (c : Char) : Nat := c.toNat - '0'.toNat

/-- Appends digits to `n` as long as 64 bits hold the result; gives the digits that are left. -/
def absorb (n : Nat) : List Char → Nat × List Char
  | [] => (n, [])
  | c :: digits =>
    let longer := 10 * n + digitValue c
    if fits longer then absorb longer digits else (n, c :: digits)

/-- The exponents that the reader tells apart are below this. -/
def exponentLimit : Nat := Nat.pow 2 31

/-- The value of the digits of an exponent, or the digits after the first one that leaves the limit. -/
def exponentValue (n : Nat) : List Char → Except (List Char) Nat
  | [] => .ok n
  | c :: digits =>
    let longer := 10 * n + digitValue c
    if longer < exponentLimit then exponentValue longer digits else .error digits

/-- A signed zero or the number `significand * 10 ^ exponent`. -/
def scaled (negative : Bool) (significand : Nat) (exponent : Int) (rest : List Char) :
    Except Stop Json :=
  match (Double.ofNat? significand).bind (·.scale exponent) with
  | some d => .ok (.double (if negative then d.neg else d))
  | none => stopAt .numberOutOfRange rest

def digits (input : List Char) : List Char := input.takeWhile Char.isDigit

def skipDigits (input : List Char) : List Char := input.dropWhile Char.isDigit

theorem length_skipDigits_le (input : List Char) : (skipDigits input).length ≤ input.length :=
  (List.dropWhile_sublist Char.isDigit).length_le

/-- Passes an exponent, after the mark `e` of a number. An exponent beyond the limit leaves zero when it
is negative or nothing is to be scaled. -/
def exponentPart (negative : Bool) (significand : Nat) (exponent : Int) (input : List Char) :
    Except Stop (Passed Json input) :=
  let signed := input.head?.any fun c => c == '+' || c == '-'
  let below := input.head? == some '-'
  let unsigned := if signed then input.drop 1 else input
  have hu : unsigned.length ≤ input.length := by
    simp only [unsigned]
    split <;> simp
  match unsigned.head? with
  | none => stopAt .endOfValue []
  | some c =>
    if c.isDigit then
      let rest := skipDigits unsigned
      have hr : rest.length ≤ input.length := Nat.le_trans (length_skipDigits_le unsigned) hu
      match exponentValue 0 (digits unsigned) with
      | .ok n =>
        match scaled negative significand (if below then exponent - n else exponent + n) rest with
        | .ok value => .ok ⟨value, rest, hr⟩
        | .error stop => .error stop
      | .error unread =>
        if significand ≠ 0 ∧ below = false then stopAt .numberOutOfRange (unread ++ rest)
        else .ok ⟨.double (.ofMagnitude negative 0), rest, hr⟩
    else stopOn .invalidNumber unsigned

/-- Passes what follows the digits of a number of value `significand * 10 ^ exponent`; `plain` is the
number when nothing of it follows. -/
def afterDigits (negative : Bool) (significand : Nat) (exponent : Int) (plain : Except Stop Json)
    (input : List Char) : Except Stop (Passed Json input) :=
  if input.head?.any fun c => c == 'e' || c == 'E' then
    match exponentPart negative significand exponent (input.drop 1) with
    | .ok ⟨value, rest, h⟩ => .ok ⟨value, rest, by simp at h; omega⟩
    | .error stop => .error stop
  else
    match plain with
    | .ok value => .ok ⟨value, input, Nat.le_refl _⟩
    | .error stop => .error stop

/-- Passes what follows the whole part of a number. Digits of the fraction that 64 bits do not hold are
dropped. -/
def afterWhole (negative : Bool) (significand : Nat) (exponent : Int) (plain : Except Stop Json)
    (input : List Char) : Except Stop (Passed Json input) :=
  match input with
  | '.' :: fraction =>
    if (digits fraction).isEmpty then
      stopOn (if fraction.isEmpty then .endOfValue else .invalidNumber) fraction
    else
      let (longer, dropped) := absorb significand (digits fraction)
      let lower := exponent - ((digits fraction).length - dropped.length)
      let rest := skipDigits fraction
      match afterDigits negative longer lower (scaled negative longer lower rest) rest with
      | .ok ⟨value, rest', h⟩ =>
        .ok ⟨value, rest', by have := length_skipDigits_le fraction; simp only [rest] at h; simp; omega⟩
      | .error stop => .error stop
  | other => afterDigits negative significand exponent plain other

/-- The number of some digits without point and exponent. Zero with a sign is no integer, and neither is
what 64 bits do not hold. -/
def integer (negative : Bool) (n : Nat) : Json :=
  if negative = false then .int n
  else if n = 0 ∨ Nat.pow 2 63 < n then .double ((Double.ofNat? n).getD (.ofMagnitude false 0)).neg
  else .int (-n)

/-- Takes a number, from its first digit on. A zero is a whole part of its own. -/
def number (negative : Bool) : Reader Json := fun input =>
  match input with
  | [] => stopAt .endOfValue []
  | c :: after =>
    if c.isDigit = false then stopOn .invalidNumber (c :: after)
    else if c = '0' ∧ after.head?.any Char.isDigit then stopOn .invalidNumber after
    else
      let (significand, excess) := absorb 0 (c :: digits after)
      let rest := skipDigits after
      let plain :=
        if excess.isEmpty then .ok (integer negative significand)
        else scaled negative significand excess.length rest
      match afterWhole negative significand excess.length plain rest with
      | .ok ⟨value, rest', h⟩ =>
        .ok ⟨value, rest', by have := length_skipDigits_le after; simp only [rest] at h; simp; omega⟩
      | .error stop => .error stop

/-! ## Strings -/

def hexValue? (c : Char) : Option Nat :=
  if c.isDigit then some (c.toNat - '0'.toNat)
  else if 'a' ≤ c ∧ c ≤ 'f' then some (c.toNat - 'a'.toNat + 10)
  else if 'A' ≤ c ∧ c ≤ 'F' then some (c.toNat - 'A'.toNat + 10)
  else none

/-- The number of four digits of base sixteen. -/
def fourDigits? (a b c d : Char) : Option Nat := do
  let a ← hexValue? a
  let b ← hexValue? b
  let c ← hexValue? c
  let d ← hexValue? d
  return 4096 * a + 256 * b + 16 * c + d

/-- Takes the four digits of an escape. They are four bytes whatever they hold. -/
def codeUnit : Reader Nat := fun input =>
  match input with
  | a :: b :: c :: d :: rest =>
    match fourDigits? a b c d with
    | some n => .ok ⟨n, rest, by simp; omega⟩
    | none => .error ⟨.invalidEscape, input, 4⟩
  | _ => if 4 ≤ byteCount input then .error ⟨.invalidEscape, input, 4⟩ else stopAt .endOfString []

def isLeading (unit : Nat) : Bool := 0xD800 ≤ unit && unit < 0xDC00

def isTrailing (unit : Nat) : Bool := 0xDC00 ≤ unit && unit < 0xE000

/-- Takes a character escaped by its units, after the first `\u`. -/
def unicodeEscape : Reader Char := fun input =>
  match codeUnit input with
  | .error stop => .error stop
  | .ok ⟨unit, rest, h⟩ =>
    if isTrailing unit then stopAt .loneSurrogate rest
    else if isLeading unit then
      match rest with
      | [] => stopAt .endOfString []
      | ['\\'] => stopAt .endOfString []
      | '\\' :: 'u' :: rest' =>
        match codeUnit rest' with
        | .error stop => .error stop
        | .ok ⟨second, rest'', h'⟩ =>
          if isTrailing second then
            .ok ⟨.ofNat (0x10000 + 0x400 * (unit - 0xD800) + (second - 0xDC00)), rest'', by
              simp at h; omega⟩
          else stopAt .loneSurrogate rest''
      | '\\' :: rest' => stopOn .unfinishedPair rest'
      | rest' => stopOn .unfinishedPair rest'
    else .ok ⟨.ofNat unit, rest, h⟩

/-- The character that a letter stands for after a backslash. -/
def escaped? (c : Char) : Option Char :=
  if c = '"' then some '"'
  else if c = '\\' then some '\\'
  else if c = '/' then some '/'
  else if c = 'b' then some '\x08'
  else if c = 'f' then some '\x0c'
  else if c = 'n' then some '\n'
  else if c = 'r' then some '\r'
  else if c = 't' then some '\t'
  else none

/-- Takes an escaped character, after the backslash. -/
def escape : Reader Char := fun input =>
  match input with
  | [] => stopAt .endOfString []
  | 'u' :: rest =>
    match unicodeEscape rest with
    | .ok taken => .ok (taken.within (by simp))
    | .error stop => .error stop
  | c :: rest =>
    match escaped? c with
    | some plain => .ok ⟨plain, rest, by simp⟩
    | none => stopOn .invalidEscape (c :: rest)

/-- Takes the rest of a string, after its opening quote; `seen` holds its characters so far, the last
one first. -/
def stringTail (seen : List Char) (input : List Char) : Except Stop (Taken String input) :=
  match input with
  | [] => stopAt .endOfString []
  | '"' :: rest => .ok ⟨String.ofList seen.reverse, rest, by simp⟩
  | '\\' :: rest =>
    match escape rest with
    | .error stop => .error stop
    | .ok ⟨c, rest', h⟩ =>
      match stringTail (c :: seen) rest' with
      | .error stop => .error stop
      | .ok taken => .ok (taken.within (by simp; omega))
  | c :: rest =>
    if c.toNat < 0x20 then stopOn .controlCharacter (c :: rest)
    else
      match stringTail (c :: seen) rest with
      | .error stop => .error stop
      | .ok taken => .ok (taken.within (by simp))
termination_by input.length

/-! ## Lists of items -/

/-- How items in a row are enclosed, and what is said when neither a comma nor the end follows. -/
structure Enclosure where
  closing : Char
  unclosed : Cause
  separatorExpected : Cause

def inBrackets : Enclosure := ⟨']', .endOfList, .commaOrBracketExpected⟩

def inBraces : Enclosure := ⟨'\x7d', .endOfObject, .commaOrBraceExpected⟩

/-- Takes items up to the end of the enclosure, the first one at the head of the text. -/
def items {α : Type} (e : Enclosure) (item : Reader α) (input : List Char) :
    Except Stop (Taken (List α) input) :=
  match item input with
  | .error stop => .error stop
  | .ok ⟨value, rest, h⟩ =>
    match hr : skipBlanks rest with
    | [] => stopOn e.unclosed []
    | c :: rest' =>
      have hl : rest'.length < rest.length := by
        have := length_skipBlanks_le rest
        rw [hr, List.length_cons] at this
        omega
      if c = e.closing then .ok ⟨[value], rest', by omega⟩
      else if c = ',' then
        match hn : skipBlanks rest' with
        | [] => stopOn .endOfValue []
        | next :: rest'' =>
          have hm : (next :: rest'').length ≤ rest'.length := hn ▸ length_skipBlanks_le rest'
          if next = e.closing then stopOn .trailingComma (next :: rest'')
          else
            match items e item (next :: rest'') with
            | .error stop => .error stop
            | .ok ⟨values, rest₃, h₃⟩ => .ok ⟨value :: values, rest₃, by omega⟩
      else stopOn e.separatorExpected (c :: rest')
termination_by input.length
decreasing_by simp at hm ⊢; omega

/-- Takes the inside of an enclosure and its end, after its opening. -/
def enclosed {α : Type} (e : Enclosure) (item : Reader α) : Reader (List α) := fun input =>
  match h : skipBlanks input with
  | [] => stopOn e.unclosed []
  | c :: rest =>
    have hl : (c :: rest).length ≤ input.length := h ▸ length_skipBlanks_le input
    if c = e.closing then .ok ⟨[], rest, by rw [List.length_cons] at hl; omega⟩
    else
      match items e item (c :: rest) with
      | .error stop => .error stop
      | .ok taken => .ok (taken.within hl)

/-- Takes a key, a colon and a value. -/
def entry (value : Reader Json) : Reader (String × Json) := fun input =>
  match input with
  | '"' :: rest =>
    match stringTail [] rest with
    | .error stop => .error stop
    | .ok ⟨key, rest', h⟩ =>
      match hr : skipBlanks rest' with
      | ':' :: rest'' =>
        match value rest'' with
        | .error stop => .error stop
        | .ok ⟨v, rest₃, h₃⟩ =>
          .ok ⟨(key, v), rest₃, by
            have := length_skipBlanks_le rest'
            simp [hr] at this
            simp
            omega⟩
      | [] => stopOn .endOfObject []
      | other => stopOn .colonExpected other
  | other => stopOn .keyExpected other

/-! ## Values -/

def word (first : Char) (others : List Char) (value : Json) (input : List Char) :
    Except Stop (Taken Json (first :: input)) :=
  match letters others input with
  | .ok ⟨_, rest, h⟩ => .ok ⟨value, rest, by rw [List.length_cons]; omega⟩
  | .error stop => .error stop

/-- Takes a value from its first character on; `nested` takes the values inside it, if it may hold any. -/
def valueAt (nested : Option (Reader Json)) : Reader Json := fun input =>
  match input with
  | [] => stopOn .endOfValue []
  | 'n' :: rest => word 'n' ['u', 'l', 'l'] .null rest
  | 't' :: rest => word 't' ['r', 'u', 'e'] (.bool true) rest
  | 'f' :: rest => word 'f' ['a', 'l', 's', 'e'] (.bool false) rest
  | '"' :: rest =>
    match stringTail [] rest with
    | .ok ⟨s, rest', h⟩ => .ok ⟨.string s, rest', by simp; omega⟩
    | .error stop => .error stop
  | '[' :: rest =>
    match nested with
    | none => stopOn .tooDeep input
    | some value =>
      match enclosed inBrackets value rest with
      | .ok ⟨values, rest', h⟩ => .ok ⟨.array values, rest', by simp; omega⟩
      | .error stop => .error stop
  | '\x7b' :: rest =>
    match nested with
    | none => stopOn .tooDeep input
    | some value =>
      match enclosed inBraces (entry value) rest with
      | .ok ⟨entries, rest', h⟩ => .ok ⟨.object entries, rest', by simp; omega⟩
      | .error stop => .error stop
  | '-' :: rest =>
    match number true rest with
    | .ok taken => .ok (taken.within (by simp))
    | .error stop => .error stop
  | c :: rest => if c.isDigit then number false (c :: rest) else stopOn .valueExpected (c :: rest)

def blanksAndValue (nested : Option (Reader Json)) : Reader Json := fun input =>
  match valueAt nested (skipBlanks input) with
  | .ok taken => .ok (taken.within (length_skipBlanks_le input))
  | .error stop => .error stop

/-- Takes a value in which at most `depth` enclosures lie inside each other. -/
def value : (depth : Nat) → Reader Json
  | 0 => blanksAndValue none
  | depth + 1 => blanksAndValue (some (value depth))

/-- Enclosures nest at most this deep. -/
def depthLimit : Nat := 127

/-- The value at the head of a text and the rest of the text. -/
def readHead (text : String) : Except Stop (Json × List Char) :=
  match value depthLimit text.toList with
  | .ok taken => .ok (taken.value, taken.rest)
  | .error stop => .error stop

/-- Only blanks may follow a value. -/
def atEnd (rest : List Char) : Except Stop Unit :=
  match skipBlanks rest with
  | [] => .ok ()
  | more => stopOn .trailingCharacters more

def parse (text : String) : Except Stop Json := do
  let (value, rest) ← readHead text
  atEnd rest
  return value

end Json

end DataShapes
