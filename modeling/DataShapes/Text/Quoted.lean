/-! # Quoted text

Texts as literals of the generated source, between single quotes, and as property keys, which need no
quotes when they are identifiers. -/

namespace DataShapes

namespace Quoted

/-- A backslash and a single quote take a backslash before them. -/
def escapeChar (c : Char) : List Char :=
  if c = '\\' then ['\\', '\\'] else if c = '\x27' then ['\\', '\x27'] else [c]

def escape (chars : List Char) : List Char := chars.flatMap escapeChar

def literal (s : String) : String := "'" ++ String.ofList (escape s.toList) ++ "'"

/-- Characters that an identifier may begin with. -/
def isIdentifierStart (c : Char) : Bool := c.isAlpha || c == '_' || c == '$'

/-- Characters that an identifier may go on with. -/
def isIdentifierRest (c : Char) : Bool := c.isAlphanum || c == '_' || c == '$'

/-- Identifiers are of ASCII letters, digits, `_` and `$`, and do not begin with a digit. -/
def isIdentifier (s : String) : Bool :=
  match s.toList with
  | [] => false
  | c :: rest => isIdentifierStart c && rest.all isIdentifierRest

def propertyKey (s : String) : String := if isIdentifier s then s else literal s

end Quoted

end DataShapes
