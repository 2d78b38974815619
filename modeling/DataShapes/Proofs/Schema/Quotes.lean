import DataShapes.Generation
import DataShapes.Proofs.Schema.Chains
import DataShapes.Proofs.Text.Literals
import DataShapes.Validation

/-! # Labels and keys in the text

The text of a document is a row of pieces: code, and between it the labels of enumerations and the keys of objects,
each quoted in its own piece. These are the labels and keys of the schemas, in order, and each is read back where it
stands, unless it goes over the end of a line. -/

namespace DataShapes

/-! ### The labels and keys of a schema -/

/-- A text of the data model that is quoted in the generated source. -/
inductive Quote where
  | label (s : String)
  | key (s : String)
  deriving DecidableEq, Repr

namespace Quote

def value : Quote → String
  | .label s | .key s => s

/-- A key stands before a colon. -/
def chars : Quote → List Char
  | .label s => (Quoted.literal s).toList
  | .key s => (Quoted.propertyKey s).toList ++ [':']

/-- The way in which the beginning of a text is read where a label or a key stands. -/
def read? : Quote → List Char → Option (String × List Char)
  | .label _ => Quoted.readLiteral?
  | .key _ => Quoted.readKey?

theorem read?_chars (q : Quote) (rest : List Char) :
    q.read? (q.chars ++ rest) = if Quoted.Multiline q.value then none else some (q.value, rest) := by
  cases q with
  | label s => exact Quoted.readLiteral?_literal s rest
  | key s =>
    rw [chars, List.append_assoc, List.singleton_append]
    exact Quoted.readKey?_propertyKey s rest

end Quote

namespace Schema

mutual

/-- The labels and keys in a schema, in order. -/
def quotes : Schema → List Quote
  | .leaf _ => []
  | .ref _ => []
  | .enumeration values => values.map .label
  | .object properties _ => quotesOfProperties properties
  | .union arms => quotesOfArms arms
  | .array item => quotes item
  | .record item => quotes item
  | .optional inner => quotes inner
  | .nullable inner => quotes inner
  | .nullish inner => quotes inner

def quotesOfArms : List Schema → List Quote
  | [] => []
  | arm :: arms => quotes arm ++ quotesOfArms arms

def quotesOfProperties : List (String × Schema) → List Quote
  | [] => []
  | (key, schema) :: properties => .key key :: quotes schema ++ quotesOfProperties properties

end

theorem quotesOfArms_eq (arms : List Schema) : quotesOfArms arms = arms.flatMap quotes := by
  induction arms with
  | nil => rfl
  | cons arm arms ih => rw [quotesOfArms, ih, List.flatMap_cons]

theorem quotesOfProperties_eq (properties : List (String × Schema)) :
    quotesOfProperties properties = properties.flatMap fun p => .key p.1 :: p.2.quotes := by
  induction properties with
  | nil => rfl
  | cons p properties ih => rw [quotesOfProperties, ih, List.flatMap_cons]

end Schema

/-! ### The pieces of a text -/

inductive Piece where
  | code (text : String)
  | quote (quote : Quote)
  deriving DecidableEq, Repr

namespace Piece

def chars : Piece → List Char
  | .code text => text.toList
  | .quote q => q.chars

def quote? : Piece → Option Quote
  | .code _ => none
  | .quote q => some q

/-- The text that the pieces make, one after the other. -/
def text (pieces : List Piece) : List Char := pieces.flatMap chars

/-- The labels and keys among the pieces, in order. -/
def quotes (pieces : List Piece) : List Quote := pieces.filterMap quote?

@[simp] theorem text_nil : text [] = [] := rfl

@[simp] theorem text_code_cons (code : String) (pieces : List Piece) :
    text (.code code :: pieces) = code.toList ++ text pieces := rfl

@[simp] theorem text_quote_cons (q : Quote) (pieces : List Piece) :
    text (.quote q :: pieces) = q.chars ++ text pieces := rfl

@[simp] theorem text_append (pieces others : List Piece) : text (pieces ++ others) = text pieces ++ text others :=
  List.flatMap_append

@[simp] theorem quotes_nil : quotes [] = [] := rfl

@[simp] theorem quotes_code_cons (code : String) (pieces : List Piece) :
    quotes (.code code :: pieces) = quotes pieces := rfl

@[simp] theorem quotes_quote_cons (q : Quote) (pieces : List Piece) :
    quotes (.quote q :: pieces) = q :: quotes pieces := rfl

@[simp] theorem quotes_append (pieces others : List Piece) :
    quotes (pieces ++ others) = quotes pieces ++ quotes others :=
  List.filterMap_append

/-- Pieces with commas between them. -/
def row (parts : List (List Piece)) : List Piece := List.intercalate [.code ", "] parts

@[simp] theorem text_row (parts : List (List Piece)) :
    text (row parts) = List.intercalate ", ".toList (parts.map text) := by
  induction parts with
  | nil => rfl
  | cons part parts ih =>
    cases parts with
    | nil => simp [row]
    | cons next parts =>
      rw [row, List.intercalate_cons_cons, ← row, text_append, ih]
      simp [List.intercalate_cons_cons]

@[simp] theorem quotes_row (parts : List (List Piece)) : quotes (row parts) = parts.flatMap quotes := by
  induction parts with
  | nil => rfl
  | cons part parts ih =>
    cases parts with
    | nil => simp [row]
    | cons next parts =>
      rw [row, List.intercalate_cons_cons, ← row, quotes_append, ih]
      simp

/-- Pieces in a line of their own. -/
def lines (parts : List (List Piece)) : List Piece := parts.flatMap fun part => .code "  " :: part ++ [.code ",\n"]

@[simp] theorem text_lines (parts : List (List Piece)) :
    text (lines parts) = parts.flatMap fun part => "  ".toList ++ text part ++ ",\n".toList := by
  induction parts with
  | nil => rfl
  | cons part parts ih =>
    rw [lines, List.flatMap_cons, ← lines, text_append, ih]
    simp

@[simp] theorem quotes_lines (parts : List (List Piece)) : quotes (lines parts) = parts.flatMap quotes := by
  induction parts with
  | nil => rfl
  | cons part parts ih =>
    rw [lines, List.flatMap_cons, ← lines, quotes_append, ih]
    simp

end Piece

namespace Placed
open Piece

mutual

/-- The pieces of the text of a schema. -/
def pieces : Placed → List Piece
  | .leaf l => [.code l.text]
  | .ref name => [.code name]
  | .enumeration values => .code "z.enum([" :: row (values.map fun v => [.quote (.label v)]) ++ [.code "])"]
  | .object [] strict => [.code "z.object(\x7b\x7d)", .code (strictness strict)]
  | .object (property :: properties) strict =>
    .code "z.object(\x7b " :: row (propertyPieces (property :: properties)) ++
      [.code " \x7d)", .code (strictness strict)]
  | .union arms => .code "z.union([" :: row (armPieces arms) ++ [.code "])"]
  | .array item => pieces item ++ [.code ".array()"]
  | .record item => .code "z.record(" :: pieces item ++ [.code ")"]
  | .optional inner => pieces inner ++ [.code ".optional()"]
  | .nullable inner => pieces inner ++ [.code ".nullable()"]
  | .nullish inner => pieces inner ++ [.code ".nullish()"]
  | .deferred inner => .code "z.lazy(() => " :: pieces inner ++ [.code ")"]

def armPieces : List Placed → List (List Piece)
  | [] => []
  | arm :: arms => pieces arm :: armPieces arms

def propertyPieces : List (String × Placed) → List (List Piece)
  | [] => []
  | (key, placed) :: properties => (.quote (.key key) :: .code " " :: pieces placed) :: propertyPieces properties

end

/-- The pieces of the text of a whole declaration. -/
def bodyPieces : Placed → List Piece
  | .object (property :: properties) strict =>
    .code "z.object(\x7b\n" ::
      lines (propertyPieces (property :: properties)) ++ [.code "\x7d)", .code (strictness strict)]
  | placed => pieces placed

theorem armPieces_eq (arms : List Placed) : armPieces arms = arms.map pieces := by
  induction arms with
  | nil => rfl
  | cons arm arms ih => rw [armPieces, ih, List.map_cons]

theorem propertyPieces_eq (properties : List (String × Placed)) :
    propertyPieces properties = properties.map fun p => .quote (.key p.1) :: .code " " :: p.2.pieces := by
  induction properties with
  | nil => rfl
  | cons p properties ih => rw [propertyPieces, ih, List.map_cons]

theorem map_text_armPieces {arms : List Placed} (h : ∀ arm ∈ arms, Piece.text arm.pieces = arm.text.toList) :
    (armPieces arms).map Piece.text = (armTexts arms).map String.toList := by
  rw [armPieces_eq, armTexts_eq, List.map_map, List.map_map]
  exact List.map_congr_left h

theorem map_text_propertyPieces {properties : List (String × Placed)}
    (h : ∀ p ∈ properties, Piece.text p.2.pieces = p.2.text.toList) :
    (propertyPieces properties).map Piece.text = (propertyTexts properties).map String.toList := by
  rw [propertyPieces_eq, propertyTexts_eq, List.map_map, List.map_map]
  refine List.map_congr_left fun p hp => ?_
  simp [Quote.chars, h p hp, String.toList_append]

/-- The pieces of a schema make its text. -/
theorem text_pieces (placed : Placed) : Piece.text placed.pieces = placed.text.toList := by
  induction placed with
  | leaf l => simp [pieces, text]
  | ref name => simp [pieces, text]
  | enumeration values =>
    simp [pieces, text, Quote.chars, String.toList_append, String.toList_intercalate, Function.comp_def]
  | object properties strict ih =>
    cases properties with
    | nil => simp [pieces, text, String.toList_append]
    | cons p properties =>
      simp [pieces, text, map_text_propertyPieces ih, String.toList_append, String.toList_intercalate]
  | union arms ih => simp [pieces, text, map_text_armPieces ih, String.toList_append, String.toList_intercalate]
  | array inner ih | record inner ih | optional inner ih | nullable inner ih | nullish inner ih | deferred inner ih =>
    simp [pieces, text, ih, String.toList_append]

theorem text_bodyPieces (placed : Placed) : Piece.text placed.bodyPieces = placed.bodyText.toList := by
  cases placed with
  | object properties strict =>
    cases properties with
    | nil => exact text_pieces _
    | cons p properties =>
      have hlines : ((propertyPieces (p :: properties)).map Piece.text).flatMap
            (fun line => "  ".toList ++ line ++ ",\n".toList) =
          ((propertyTexts (p :: properties)).map String.toList).flatMap
            (fun line => "  ".toList ++ line ++ ",\n".toList) := by
        rw [map_text_propertyPieces fun q _ => text_pieces q.2]
      rw [List.flatMap_map, List.flatMap_map] at hlines
      simp only [bodyPieces, bodyText, text_code_cons, List.cons_append, text_append, text_lines, hlines,
        String.toList_append, String.toList_join, List.flatMap_map]
      simp
  | _ => exact text_pieces _

theorem flatMap_quotes_propertyPieces {properties : List (String × Placed)}
    (h : ∀ p ∈ properties, Piece.quotes p.2.pieces = p.2.erase.quotes) :
    (propertyPieces properties).flatMap Piece.quotes = Schema.quotesOfProperties (eraseProperties properties) := by
  rw [propertyPieces_eq, Schema.quotesOfProperties_eq, eraseProperties_eq, List.flatMap_map, List.flatMap_map]
  exact List.flatMap_congr fun p hp => by simp [h p hp]

theorem flatMap_quotes_armPieces {arms : List Placed} (h : ∀ arm ∈ arms, Piece.quotes arm.pieces = arm.erase.quotes) :
    (armPieces arms).flatMap Piece.quotes = Schema.quotesOfArms (eraseArms arms) := by
  rw [armPieces_eq, Schema.quotesOfArms_eq, eraseArms_eq, List.flatMap_map, List.flatMap_map]
  exact List.flatMap_congr h

/-- The labels and keys that the pieces quote are those of the schema. -/
theorem quotes_pieces (placed : Placed) : Piece.quotes placed.pieces = placed.erase.quotes := by
  induction placed with
  | leaf l => rfl
  | ref name => rfl
  | enumeration values =>
    simp only [pieces, List.cons_append, Piece.quotes_code_cons, Piece.quotes_append, Piece.quotes_row, Piece.quotes_nil,
      List.append_nil, List.flatMap_map, erase, Schema.quotes]
    exact List.map_eq_flatMap.symm
  | object properties strict ih =>
    cases properties with
    | nil => rfl
    | cons p properties => simp [pieces, erase, Schema.quotes, flatMap_quotes_propertyPieces ih]
  | union arms ih => simp [pieces, erase, Schema.quotes, flatMap_quotes_armPieces ih]
  | array inner ih | record inner ih | optional inner ih | nullable inner ih | nullish inner ih | deferred inner ih =>
    simp [pieces, erase, Schema.quotes, ih]

theorem quotes_bodyPieces (placed : Placed) : Piece.quotes placed.bodyPieces = placed.erase.quotes := by
  cases placed with
  | object properties strict =>
    cases properties with
    | nil => exact quotes_pieces _
    | cons p properties =>
      simp [bodyPieces, erase, Schema.quotes, flatMap_quotes_propertyPieces fun q _ => quotes_pieces q.2]
  | _ => exact quotes_pieces _

end Placed

/-! ### The pieces of a document -/

namespace Declaration

/-- The pieces of the text of the declaration after those of the names `defined`. -/
def pieces (d : Declaration) (defined : List String) : List Piece :=
  let scope : Scope := ⟨defined, d.name⟩
  let annotation := if scope.looksAhead d.schema then ": z.ZodTypeAny" else ""
  .code ("export const " ++ d.name ++ annotation ++ " = ") :: ((scope.place d.schema).bodyPieces ++ [.code ";\n"])

theorem text_pieces (d : Declaration) (defined : List String) :
    Piece.text (d.pieces defined) = (d.text defined).toList := by
  delta text
  simp [pieces, Placed.text_bodyPieces, String.toList_append]

theorem quotes_pieces (d : Declaration) (defined : List String) :
    Piece.quotes (d.pieces defined) = d.schema.quotes := by
  simp [pieces, Placed.quotes_bodyPieces, Scope.erase_place]

/-- The pieces of declarations one after the other, each after an empty line. -/
def rowPieces (defined : List String) : List Declaration → List Piece
  | [] => []
  | d :: ds => .code "\n" :: d.pieces defined ++ rowPieces (d.name :: defined) ds

theorem text_rowPieces (defined : List String) (ds : List Declaration) :
    Piece.text (rowPieces defined ds) = (String.join (texts defined ds)).toList := by
  induction ds generalizing defined with
  | nil => rfl
  | cons d ds ih => simp [rowPieces, texts, ih, text_pieces, String.toList_append, String.toList_join]

theorem quotes_rowPieces (defined : List String) (ds : List Declaration) :
    Piece.quotes (rowPieces defined ds) = ds.flatMap (·.schema.quotes) := by
  induction ds generalizing defined with
  | nil => rfl
  | cons d ds ih => simp [rowPieces, ih, quotes_pieces]

end Declaration

namespace Document

/-- The pieces of the text of a section after the names `defined`. -/
def sectionPieces (defined : List String) (s : Section) : List Piece :=
  if s.declarations.isEmpty then []
  else
    .code ("\n" ++ rule ++ "\n// " ++ Uppercase.ofString s.title ++ "\n" ++ rule ++ "\n") ::
      Declaration.rowPieces defined s.declarations

def sectionsPieces (defined : List String) : List Section → List Piece
  | [] => []
  | s :: rest => sectionPieces defined s ++ sectionsPieces (s.declarations.map (·.name) ++ defined) rest

/-- The pieces of the text of the document. -/
def pieces (d : Document) : List Piece := .code opening :: sectionsPieces [] d.sections

theorem text_sectionPieces (defined : List String) (s : Section) :
    Piece.text (sectionPieces defined s) = (sectionText defined s).toList := by
  unfold sectionPieces sectionText
  split
  · rfl
  · simp [Declaration.text_rowPieces, String.toList_append]

theorem quotes_sectionPieces (defined : List String) (s : Section) :
    Piece.quotes (sectionPieces defined s) = s.declarations.flatMap (·.schema.quotes) := by
  unfold sectionPieces
  split
  · next hempty => simp [List.isEmpty_iff.mp hempty]
  · simp [Declaration.quotes_rowPieces]

theorem text_pieces (d : Document) : Piece.text d.pieces = d.render.toList := by
  have hsections (defined : List String) (sections : List Section) :
      Piece.text (sectionsPieces defined sections) = (sectionTexts defined sections).toList := by
    induction sections generalizing defined with
    | nil => rfl
    | cons s rest ih => simp [sectionsPieces, sectionTexts, ih, text_sectionPieces, String.toList_append]
  simp [pieces, render, hsections, String.toList_append]

theorem quotes_pieces (d : Document) : Piece.quotes d.pieces = d.declarations.flatMap (·.schema.quotes) := by
  have hsections (defined : List String) (sections : List Section) :
      Piece.quotes (sectionsPieces defined sections) =
        (sections.flatMap (·.declarations)).flatMap (·.schema.quotes) := by
    induction sections generalizing defined with
    | nil => rfl
    | cons s rest ih => simp [sectionsPieces, ih, quotes_sectionPieces]
  simp [pieces, declarations, hsections]

open Quoted

/-- Literals and keys are read as the texts they were made of, up to what follows them, and cannot be read only where
such a text goes over the end of a line. The text of a document quotes the labels and keys of its schemas in this way,
in order and with nothing but code between them. -/
theorem quotes_read_unless_multiline (d : Document) :
    (∀ s rest, readLiteral? ((literal s).toList ++ rest) = if Multiline s then none else some (s, rest)) ∧
      (∀ s, (isIdentifier s = true ∧ propertyKey s = s) ∨ (isIdentifier s = false ∧ propertyKey s = literal s)) ∧
      (∀ s rest, readKey? ((propertyKey s).toList ++ ':' :: rest) = if Multiline s then none else some (s, rest)) ∧
      d.render.toList = Piece.text d.pieces ∧
      Piece.quotes d.pieces = d.declarations.flatMap (·.schema.quotes) ∧
      ∀ before q after, d.pieces = before ++ .quote q :: after →
        d.render.toList = Piece.text before ++ q.chars ++ Piece.text after ∧
          q.read? (q.chars ++ Piece.text after) =
            if Multiline q.value then none else some (q.value, Piece.text after) := by
  refine ⟨readLiteral?_literal, propertyKey_cases, readKey?_propertyKey, d.text_pieces.symm, d.quotes_pieces, ?_⟩
  intro before q after hpieces
  refine ⟨?_, q.read?_chars _⟩
  rw [← d.text_pieces, hpieces, Piece.text_append, Piece.text_quote_cons, List.append_assoc]

/-- A label of an accepted model that is not read back: its line feed is written as it is. -/
theorem broken_label_not_read :
    let model : DataModel := ⟨[], [⟨"Break", ["a\nb"]⟩]⟩
    let declaration : Declaration := ⟨"BreakSchema", .enumeration ["a\nb"]⟩
    model.validate = .ok () ∧ declaration ∈ model.document.declarations ∧
      declaration.text [] = "export const BreakSchema = z.enum(['a\nb']);\n" ∧
      readLiteral? (literal "a\nb").toList = none := by
  have hfound : (DataModel.document ⟨[], [⟨"Break", ["a\nb"]⟩]⟩).find? "BreakSchema" =
      some ⟨"BreakSchema", .enumeration ["a\nb"]⟩ := rfl
  exact ⟨by decide, List.mem_of_find?_eq_some hfound, by decide, by decide⟩

end Document

end DataShapes
