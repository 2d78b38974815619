import DataShapes.Proofs.Text.Quoted

/-! # Literals denote their texts

The language of the generated source reads a literal up to the first quote that no backslash stands before, undoing
the escapes on its way, and gives up where the line ends. A quoted text is read back from the literal, whatever
follows it, unless the text has a line feed or a carriage return in it: these are not escaped. -/

namespace DataShapes

namespace Quoted

/-! ### Reading literals and keys -/

/-- Line feeds and carriage returns. No literal goes on over them. -/
def endsLine (c : Char) : Bool := c == '\n' || c == '\r'

/-- What a character denotes after a backslash. A line that goes on after its end and characters given by a number,
after a digit, `x` or `u`, are left out: no quoted text has them. -/
def escaped? (c : Char) : Option Char :=
  if c = 'b' then some '\x08'
  else if c = 't' then some '\t'
  else if c = 'n' then some '\n'
  else if c = 'v' then some '\x0b'
  else if c = 'f' then some '\x0c'
  else if c = 'r' then some '\r'
  else if c.isDigit || c == 'x' || c == 'u' || endsLine c then none
  else some c

/-- What a literal denotes, from after its first quote, and what follows its last one. -/
def readBody? : List Char → Option (List Char × List Char)
  | [] => none
  | '\x27' :: rest => some ([], rest)
  | ['\\'] => none
  | '\\' :: c :: rest => do
    let denoted ← escaped? c
    let (value, after) ← readBody? rest
    return (denoted :: value, after)
  | c :: rest =>
    if endsLine c then none else (readBody? rest).map fun (value, after) => (c :: value, after)

/-- The text that a literal denotes, and what follows the literal. -/
def readLiteral? : List Char → Option (String × List Char)
  | '\x27' :: rest => (readBody? rest).map fun (value, after) => (String.ofList value, after)
  | _ => none

/-- The key that a literal or an identifier denotes, and what follows the colon after it. -/
def readKey? (chars : List Char) : Option (String × List Char) := do
  let (key, after) ← match chars with
    | [] => none
    | c :: rest =>
      if isIdentifierStart c then
        some (String.ofList ((c :: rest).takeWhile isIdentifierRest), (c :: rest).dropWhile isIdentifierRest)
      else readLiteral? (c :: rest)
  match after with
  | ':' :: rest => some (key, rest)
  | _ => none

/-- Whether some line ends in the text. -/
def Multiline (s : String) : Prop := ∃ c ∈ s.toList, endsLine c = true

instance (s : String) : Decidable (Multiline s) := inferInstanceAs (Decidable (∃ c ∈ s.toList, endsLine c = true))

/-! ### What was quoted is read -/

theorem readBody?_cons {c : Char} (hquote : c ≠ '\x27') (hbackslash : c ≠ '\\') (rest : List Char) :
    readBody? (c :: rest) =
      if endsLine c then none else (readBody? rest).map fun (value, after) => (c :: value, after) := by
  rw [readBody?.eq_5 c rest (by simp [hquote]) (by simp [hbackslash]) (by simp [hbackslash])]

/-- One character, escaped or not, is read as itself, and the rest after it. -/
theorem readBody?_escapeChar (c : Char) (rest : List Char) :
    readBody? (escapeChar c ++ rest) =
      if endsLine c then none else (readBody? rest).map fun (value, after) => (c :: value, after) := by
  by_cases hbackslash : c = '\\'
  · subst hbackslash
    cases h : readBody? rest <;> simp [escapeChar, readBody?, escaped?, endsLine, h]
  · by_cases hquote : c = '\x27'
    · subst hquote
      cases h : readBody? rest <;> simp [escapeChar, readBody?, escaped?, endsLine, h]
    · have hplain : escapeChar c = [c] := by simp [escapeChar, hbackslash, hquote]
      rw [hplain, List.singleton_append, readBody?_cons hquote hbackslash]

theorem readBody?_escape (chars rest : List Char) :
    readBody? (escape chars ++ '\x27' :: rest) = if chars.any endsLine then none else some (chars, rest) := by
  induction chars with
  | nil => rfl
  | cons c chars ih =>
    rw [escape, List.flatMap_cons, List.append_assoc, ← escape, readBody?_escapeChar, ih, List.any_cons]
    cases endsLine c <;> cases chars.any endsLine <;> rfl

theorem readLiteral?_literal (s : String) (rest : List Char) :
    readLiteral? ((literal s).toList ++ rest) = if Multiline s then none else some (s, rest) := by
  have hread : readLiteral? ((literal s).toList ++ rest) =
      (readBody? (escape s.toList ++ '\x27' :: rest)).map fun (value, after) => (String.ofList value, after) := by
    rw [toList_literal, List.cons_append, List.append_assoc, List.singleton_append, readLiteral?]
  rw [hread, readBody?_escape]
  simp only [List.any_eq_true, ← Multiline.eq_1]
  split
  · rfl
  · rw [Option.map_some, String.ofList_toList]

theorem not_multiline_of_isIdentifier {s : String} (h : isIdentifier s = true) : ¬ Multiline s := by
  obtain ⟨_, _, -, -, hrest⟩ := exists_of_isIdentifier h
  rintro ⟨c, hc, hends⟩
  simp only [endsLine, Bool.or_eq_true, beq_iff_eq] at hends
  have hc := hrest c hc
  rcases hends with rfl | rfl <;> cases hc

theorem propertyKey_cases (s : String) :
    (isIdentifier s = true ∧ propertyKey s = s) ∨ (isIdentifier s = false ∧ propertyKey s = literal s) := by
  cases h : isIdentifier s <;> simp [propertyKey, h]

theorem readKey?_propertyKey (s : String) (rest : List Char) :
    readKey? ((propertyKey s).toList ++ ':' :: rest) = if Multiline s then none else some (s, rest) := by
  rcases propertyKey_cases s with ⟨hidentifier, hkey⟩ | ⟨-, hkey⟩
  · obtain ⟨c, tail, hs, hstart, hrest⟩ := exists_of_isIdentifier hidentifier
    have htake : (s.toList ++ ':' :: rest).takeWhile isIdentifierRest = s.toList := by
      rw [List.takeWhile_append_of_pos hrest, List.takeWhile_cons_of_neg (by decide), List.append_nil]
    have hdrop : (s.toList ++ ':' :: rest).dropWhile isIdentifierRest = ':' :: rest := by
      rw [List.dropWhile_append_of_pos hrest, List.dropWhile_cons_of_neg (by decide)]
    rw [if_neg (not_multiline_of_isIdentifier hidentifier), hkey, hs, List.cons_append, readKey?, if_pos hstart,
      ← List.cons_append, ← hs, htake, hdrop, String.ofList_toList]
    rfl
  · have hread : readKey? ((propertyKey s).toList ++ ':' :: rest) =
        (readLiteral? ((literal s).toList ++ ':' :: rest)).bind fun (key, after) =>
          match after with
          | ':' :: rest => some (key, rest)
          | _ => none := by
      rw [hkey, toList_literal]
      rfl
    rw [hread, readLiteral?_literal]
    split <;> rfl

end Quoted

end DataShapes
