import DataShapes.Event
import DataShapes.Schema.Text
import DataShapes.Text.NameSet
import DataShapes.Text.Uppercase

/-! # Documents

A document is a row of sections, each with a title and declarations of schemas. A name is declared once:
what is pushed later under the same name is dropped. The text of a document declares the schemas in
order. -/

namespace DataShapes

structure Declaration where
  name : String
  schema : Schema
  deriving Repr, Inhabited

namespace Declaration

/-- The names of the other declarations that the schema refers to, sorted. -/
def dependencies (d : Declaration) : List String :=
  (NameSet.ofList d.schema.references).filter (· != d.name)

/-- The text of the declaration after those of the names `defined`. A type is stated when something in
it is put off. -/
def text (d : Declaration) (defined : List String) : String :=
  let scope : Scope := ⟨defined, d.name⟩
  let annotation := if scope.looksAhead d.schema then ": z.ZodTypeAny" else ""
  "export const " ++ d.name ++ annotation ++ " = " ++ (scope.place d.schema).bodyText ++ ";\n"

/-- The declarations whose names are not taken, and the names of the dropped ones. -/
def splitNew (taken : List String) : List Declaration → List Declaration × List String
  | [] => ([], [])
  | d :: ds =>
    if taken.contains d.name then
      let (kept, dropped) := splitNew taken ds
      (kept, d.name :: dropped)
    else
      let (kept, dropped) := splitNew (d.name :: taken) ds
      (d :: kept, dropped)

/-- The texts of declarations one after the other, each after an empty line. -/
def texts (defined : List String) : List Declaration → List String
  | [] => []
  | d :: ds => ("\n" ++ d.text defined) :: texts (d.name :: defined) ds

end Declaration

/-- A titled row of declarations. -/
structure Section where
  title : String
  declarations : List Declaration
  deriving Repr, Inhabited

structure Document where
  sections : List Section
  deriving Repr, Inhabited

namespace Document

def empty : Document := ⟨[]⟩

def declarations (d : Document) : List Declaration := d.sections.flatMap (·.declarations)

def names (d : Document) : List String := d.declarations.map (·.name)

def find? (d : Document) (name : String) : Option Declaration :=
  d.declarations.find? (·.name == name)

def contains (d : Document) (name : String) : Bool := d.names.contains name

def size (d : Document) : Nat := d.declarations.length

/-- Appends a section with those declarations whose names are not taken. -/
def push (d : Document) (title : String) (declarations : List Declaration) : Reported Document :=
  let (kept, dropped) := Declaration.splitNew d.names declarations
  ⟨⟨d.sections ++ [⟨title, kept⟩]⟩,
    dropped.map .duplicateDropped ++ [.sectionAssembled title kept.length]⟩

def pushAll (d : Document) : List Section → Reported Document
  | [] => .silent d
  | s :: rest => (d.push s.title s.declarations).bind (pushAll · rest)

def ofSections (sections : List Section) : Reported Document := pushAll empty sections

/-- The references to names that are not declared, each with the declaration that refers to it. -/
def unresolved (d : Document) : List (String × String) :=
  d.declarations.flatMap fun declaration =>
    (declaration.dependencies.filter (!d.contains ·)).map (declaration.name, ·)

/-! ## The text of a document -/

def opening : String :=
  "/* eslint-disable */\n// Generated by zodgen. Do not edit by hand.\n" ++
    "import \x7b z \x7d from 'zod';\n"

/-- A line above and below the title of a section. -/
def rule : String := String.ofList (List.replicate 48 '/')

/-- The text of a section after the names `defined`; a section without declarations has none. -/
def sectionText (defined : List String) (s : Section) : String :=
  if s.declarations.isEmpty then ""
  else
    "\n" ++ rule ++ "\n// " ++ Uppercase.ofString s.title ++ "\n" ++ rule ++ "\n" ++
      String.join (Declaration.texts defined s.declarations)

/-- The texts of sections one after the other. -/
def sectionTexts (defined : List String) : List Section → String
  | [] => ""
  | s :: rest =>
    sectionText defined s ++ sectionTexts (s.declarations.map (·.name) ++ defined) rest

def render (d : Document) : String := opening ++ sectionTexts [] d.sections

end Document

end DataShapes
