import DataShapes.Proofs.Schema.Deferral
import DataShapes.Proofs.Text.Quoted
import DataShapes.Schema.Text

/-! # Texts as chains of calls

The text of a schema is an identifier and a chain of calls on it, each with its name and its argument in parentheses,
and the chain makes the schema again. A whole declaration is such a chain as well, of which only the first call may be
written in another way. -/

namespace DataShapes

namespace Placed

/-- Induction over placed schemas with a hypothesis for each part, also for those in lists. -/
@[elab_as_elim, induction_eliminator]
theorem inductionOnParts {motive : Placed → Prop}
    (leaf : ∀ l, motive (.leaf l))
    (ref : ∀ name, motive (.ref name))
    (enumeration : ∀ values, motive (.enumeration values))
    (object : ∀ properties strict, (∀ p ∈ properties, motive p.2) → motive (.object properties strict))
    (union : ∀ arms, (∀ arm ∈ arms, motive arm) → motive (.union arms))
    (array : ∀ item, motive item → motive (.array item))
    (record : ∀ item, motive item → motive (.record item))
    (optional : ∀ inner, motive inner → motive (.optional inner))
    (nullable : ∀ inner, motive inner → motive (.nullable inner))
    (nullish : ∀ inner, motive inner → motive (.nullish inner))
    (deferred : ∀ inner, motive inner → motive (.deferred inner)) (placed : Placed) : motive placed :=
  @Placed.rec motive (fun properties => ∀ p ∈ properties, motive p.2) (fun arms => ∀ arm ∈ arms, motive arm)
    (fun p => motive p.2) leaf ref enumeration object union array record optional nullable nullish deferred
    (by simp) (fun _ _ head tail => List.forall_mem_cons.mpr ⟨head, tail⟩)
    (by simp) (fun _ _ head tail => List.forall_mem_cons.mpr ⟨head, tail⟩)
    (fun _ _ h => h) placed

/-- Whatever the schema refers to is an identifier. -/
def Named (placed : Placed) : Prop := ∀ name ∈ placed.erase.references, Quoted.isIdentifier name = true

theorem named_ref {name : String} : (ref name).Named ↔ Quoted.isIdentifier name = true := by
  simp [Named, erase, Schema.references]

theorem named_object {properties : List (String × Placed)} {strict : Bool} :
    (object properties strict).Named ↔ ∀ p ∈ properties, p.2.Named := by
  simp only [Named, erase, Schema.references, eraseProperties_eq, Schema.mem_referencesOfProperties, List.mem_map]
  constructor
  · exact fun h p hp name hn => h name ⟨_, ⟨p, hp, rfl⟩, hn⟩
  · rintro h name ⟨_, ⟨p, hp, rfl⟩, hn⟩
    exact h p hp name hn

theorem named_union {arms : List Placed} : (union arms).Named ↔ ∀ arm ∈ arms, arm.Named := by
  simp only [Named, erase, Schema.references, eraseArms_eq, Schema.mem_referencesOfArms, List.mem_map]
  constructor
  · exact fun h arm ha name hn => h name ⟨_, ⟨arm, ha, rfl⟩, hn⟩
  · rintro h name ⟨_, ⟨arm, ha, rfl⟩, hn⟩
    exact h arm ha name hn

end Placed

/-! ### Calls -/

/-- The calls that have no parts. -/
inductive Word where
  | string
  | int
  | number
  | bigInt
  | boolean
  | date
  | datetime
  | bytes
  | any
  | null
  | trueOnly
  | array
  | optional
  | nullable
  | nullish
  | strict
  deriving DecidableEq

namespace Word

def name : Word → String
  | .string => "string"
  | .int => "int"
  | .number => "number"
  | .bigInt => "bigint"
  | .boolean => "boolean"
  | .date => "date"
  | .datetime => "datetime"
  | .bytes => "instanceof"
  | .any => "any"
  | .null => "null"
  | .trueOnly => "literal"
  | .array => "array"
  | .optional => "optional"
  | .nullable => "nullable"
  | .nullish => "nullish"
  | .strict => "strict"

def argument : Word → String
  | .bytes => "Uint8Array"
  | .trueOnly => "true"
  | _ => ""

def all : List Word :=
  [.string, .int, .number, .bigInt, .boolean, .date, .datetime, .bytes, .any, .null, .trueOnly, .array, .optional,
    .nullable, .nullish, .strict]

theorem find?_name (w : Word) : all.find? (·.name == w.name) = some w := by
  cases w <;> decide

theorem name_inj {w w' : Word} (h : w.name = w'.name) : w = w' := by
  have hw := find?_name w
  rw [h, find?_name w'] at hw
  exact (Option.some.inj hw).symm

end Word

/-- A call in the text of a schema. -/
inductive Call where
  | word (word : Word)
  | enumeration (values : List String)
  /-- An object on one line. -/
  | object (properties : List (String × Placed))
  /-- An object with a line for each property. -/
  | lines (properties : List (String × Placed))
  | union (arms : List Placed)
  | record (item : Placed)
  | deferred (inner : Placed)

namespace Call

def name : Call → String
  | .word w => w.name
  | .enumeration _ => "enum"
  | .object _ | .lines _ => "object"
  | .union _ => "union"
  | .record _ => "record"
  | .deferred _ => "lazy"

/-- Parts one after the other, with commas between them. -/
def row {α : Type} (text : α → List Char) : List α → List Char
  | [] => []
  | x :: xs => text x ++ xs.flatMap fun y => ',' :: [' '] ++ text y

def propertyText (p : String × Placed) : List Char :=
  (Quoted.propertyKey p.1).toList ++ ':' :: ' ' :: p.2.text.toList

def argument : Call → List Char
  | .word w => w.argument.toList
  | .enumeration values => '[' :: row (fun v => (Quoted.literal v).toList) values ++ [']']
  | .object [] => ['{', '}']
  | .object properties => '{' :: ' ' :: row propertyText properties ++ [' ', '}']
  | .lines properties =>
    '{' :: '\n' :: (properties.flatMap fun p => ' ' :: [' '] ++ (propertyText p ++ [',', '\n'])) ++ ['}']
  | .union arms => '[' :: row (fun arm => arm.text.toList) arms ++ [']']
  | .record item => item.text.toList
  | .deferred inner => '(' :: ')' :: ' ' :: '=' :: '>' :: ' ' :: inner.text.toList

def text (c : Call) : List Char := '.' :: c.name.toList ++ '(' :: c.argument ++ [')']

/-- The schemas in a call. -/
def parts : Call → List Placed
  | .word _ | .enumeration _ => []
  | .object properties | .lines properties => properties.map (·.2)
  | .union arms => arms
  | .record item => [item]
  | .deferred inner => [inner]

def Named (c : Call) : Prop := ∀ part ∈ c.parts, part.Named

/-- What is called on a schema makes another schema. -/
def apply : Placed → Call → Placed
  | _, .word .string => .leaf .string
  | _, .word .int => .leaf .int
  | _, .word .number => .leaf .number
  | _, .word .bigInt => .leaf .bigInt
  | _, .word .boolean => .leaf .boolean
  | _, .word .date => .leaf .date
  | _, .word .datetime => .leaf .isoDateTime
  | _, .word .bytes => .leaf .bytes
  | _, .word .any => .leaf .any
  | _, .word .null => .leaf .null
  | _, .word .trueOnly => .leaf .trueOnly
  | placed, .word .array => .array placed
  | placed, .word .optional => .optional placed
  | placed, .word .nullable => .nullable placed
  | placed, .word .nullish => .nullish placed
  | .object properties _, .word .strict => .object properties true
  | placed, .word .strict => placed
  | _, .enumeration values => .enumeration values
  | _, .object properties | _, .lines properties => .object properties false
  | _, .union arms => .union arms
  | _, .record item => .record item
  | _, .deferred inner => .deferred inner

/-- The calls of a leaf; two leaves narrow down another one. -/
def ofLeaf : Leaf → List Call
  | .string => [.word .string]
  | .int => [.word .number, .word .int]
  | .number => [.word .number]
  | .bigInt => [.word .bigInt]
  | .boolean => [.word .boolean]
  | .date => [.word .date]
  | .isoDateTime => [.word .string, .word .datetime]
  | .bytes => [.word .bytes]
  | .any => [.word .any]
  | .null => [.word .null]
  | .trueOnly => [.word .trueOnly]

def ofStrict (strict : Bool) : List Call := if strict then [.word .strict] else []

end Call

namespace Placed
open Call

/-- The identifier that the text begins with. -/
def root : Placed → String
  | .ref name => name
  | .array inner | .optional inner | .nullable inner | .nullish inner => root inner
  | _ => "z"

/-- The calls in the text, in order. -/
def calls : Placed → List Call
  | .leaf l => ofLeaf l
  | .ref _ => []
  | .enumeration values => [.enumeration values]
  | .object properties strict => .object properties :: ofStrict strict
  | .union arms => [.union arms]
  | .array item => calls item ++ [.word .array]
  | .record item => [.record item]
  | .optional inner => calls inner ++ [.word .optional]
  | .nullable inner => calls inner ++ [.word .nullable]
  | .nullish inner => calls inner ++ [.word .nullish]
  | .deferred inner => [.deferred inner]

/-- The calls in the text of a whole declaration. -/
def bodyCalls : Placed → List Call
  | .object (property :: properties) strict => .lines (property :: properties) :: ofStrict strict
  | placed => calls placed

/-! ### Texts as chains of calls -/

theorem armTexts_eq (arms : List Placed) : armTexts arms = arms.map text := by
  induction arms with
  | nil => rfl
  | cons arm arms ih => rw [armTexts, ih, List.map_cons]

theorem propertyTexts_eq (properties : List (String × Placed)) :
    propertyTexts properties = properties.map fun p => Quoted.propertyKey p.1 ++ ": " ++ p.2.text := by
  induction properties with
  | nil => rfl
  | cons p properties ih => rw [propertyTexts, ih, List.map_cons]

theorem toList_property (p : String × Placed) :
    (Quoted.propertyKey p.1 ++ ": " ++ p.2.text).toList = propertyText p := by
  simp [propertyText, String.toList_append]

theorem toList_intercalate_map {α : Type} (f : α → String) (xs : List α) :
    (", ".intercalate (xs.map f)).toList = row (fun x => (f x).toList) xs := by
  cases xs with
  | nil => rfl
  | cons x xs =>
    rw [row]
    induction xs generalizing x with
    | nil => simp
    | cons y ys ih =>
      rw [List.map_cons, List.map_cons, String.intercalate_cons_cons, String.toList_append, String.toList_append,
        ← List.map_cons, ih y, List.flatMap_cons, List.append_assoc]
      rfl

theorem toList_strictness (strict : Bool) : (strictness strict).toList = (ofStrict strict).flatMap Call.text := by
  cases strict <;> rfl

theorem toList_text (placed : Placed) : placed.text.toList = placed.root.toList ++ placed.calls.flatMap Call.text := by
  induction placed with
  | leaf l => cases l <;> rfl
  | ref name => simp [text, root, calls]
  | enumeration values =>
    simp only [text, String.toList_append, toList_intercalate_map, root, calls, List.flatMap_cons, Call.text, Call.name,
      Call.argument]
    simp
  | object properties strict =>
    cases properties with
    | nil => simp [text, root, calls, Call.text, Call.name, Call.argument, toList_strictness, String.toList_append]
    | cons p properties =>
      have hrow := toList_intercalate_map (fun p => Quoted.propertyKey p.1 ++ ": " ++ p.2.text) (p :: properties)
      simp only [toList_property] at hrow
      simp only [text, propertyTexts_eq, String.toList_append, hrow, toList_strictness, root, calls, List.flatMap_cons,
        Call.text, Call.name, Call.argument]
      simp
  | union arms =>
    simp only [text, armTexts_eq, String.toList_append, toList_intercalate_map, root, calls, List.flatMap_cons,
      Call.text, Call.name, Call.argument]
    simp
  | record item => simp [text, root, calls, Call.text, Call.name, Call.argument, String.toList_append]
  | deferred inner => simp [text, root, calls, Call.text, Call.name, Call.argument, String.toList_append]
  | array item ih | optional inner ih | nullable inner ih | nullish inner ih =>
    simp [text, root, calls, ih, Call.text, Call.name, Call.argument, Word.name, Word.argument, String.toList_append]

/-- Only an object with properties is written in another way when it is a whole declaration. -/
theorem body_eq (placed : Placed) :
    (∃ p properties strict, placed = .object (p :: properties) strict) ∨
      (placed.bodyText = placed.text ∧ placed.bodyCalls = placed.calls) := by
  cases placed with
  | object properties strict =>
    cases properties with
    | nil => exact Or.inr ⟨rfl, rfl⟩
    | cons p properties => exact Or.inl ⟨p, properties, strict, rfl⟩
  | _ => exact Or.inr ⟨rfl, rfl⟩

theorem toList_bodyText (placed : Placed) :
    placed.bodyText.toList = placed.root.toList ++ placed.bodyCalls.flatMap Call.text := by
  rcases body_eq placed with ⟨p, properties, strict, rfl⟩ | ⟨htext, hcalls⟩
  · have hlines : (String.join ((propertyTexts (p :: properties)).map fun line => "  " ++ line ++ ",\n")).toList =
        (p :: properties).flatMap fun p => ' ' :: [' '] ++ (propertyText p ++ [',', '\n']) := by
      rw [propertyTexts_eq, String.toList_join, List.map_map, List.flatMap_map]
      simp only [Function.comp_apply, String.toList_append, ← toList_property]
      simp
    simp only [bodyText, bodyCalls, String.toList_append, hlines, toList_strictness, root, List.flatMap_cons, Call.text,
      Call.name, Call.argument]
    simp
  · rw [htext, hcalls, toList_text]

/-- The chain of calls makes the schema. -/
theorem foldl_calls (placed : Placed) : placed.calls.foldl Call.apply (.ref placed.root) = placed := by
  induction placed with
  | leaf l => cases l <;> rfl
  | ref | enumeration | union | record | deferred => rfl
  | object properties strict => cases strict <;> rfl
  | array item ih | optional inner ih | nullable inner ih | nullish inner ih =>
    rw [calls, root, List.foldl_append, ih]
    rfl

theorem foldl_bodyCalls (placed : Placed) : placed.bodyCalls.foldl Call.apply (.ref placed.root) = placed := by
  rcases body_eq placed with ⟨p, properties, strict, rfl⟩ | ⟨-, hcalls⟩
  · cases strict <;> rfl
  · rw [hcalls, foldl_calls]

/-! ### Parts of schemas with names -/

theorem isIdentifier_root {placed : Placed} (h : placed.Named) : Quoted.isIdentifier placed.root = true := by
  have hlibrary : Quoted.isIdentifier "z" = true := by decide
  induction placed with
  | ref name => exact named_ref.mp h
  | leaf | enumeration | object | union | record | deferred => exact hlibrary
  | array inner ih | optional inner ih | nullable inner ih | nullish inner ih => exact ih h

/-- The schemas in the calls. -/
def parts : Placed → List Placed
  | .leaf _ | .ref _ | .enumeration _ => []
  | .object properties _ => properties.map (·.2)
  | .union arms => arms
  | .record item => [item]
  | .deferred inner => [inner]
  | .array inner | .optional inner | .nullable inner | .nullish inner => parts inner

theorem flatMap_parts_calls (placed : Placed) : placed.calls.flatMap Call.parts = placed.parts := by
  induction placed with
  | leaf l => cases l <;> rfl
  | ref | enumeration => rfl
  | object properties strict => cases strict <;> simp [calls, ofStrict, Call.parts, parts]
  | union | record | deferred => simp [calls, Call.parts, parts]
  | array inner ih | optional inner ih | nullable inner ih | nullish inner ih =>
    simp [calls, Call.parts, parts, ih]

theorem flatMap_parts_bodyCalls (placed : Placed) : placed.bodyCalls.flatMap Call.parts = placed.parts := by
  rcases body_eq placed with ⟨p, properties, strict, rfl⟩ | ⟨-, hcalls⟩
  · cases strict <;> simp [bodyCalls, ofStrict, Call.parts, parts]
  · rw [hcalls, flatMap_parts_calls]

theorem named_parts {placed : Placed} (h : placed.Named) : ∀ part ∈ placed.parts, part.Named := by
  induction placed with
  | leaf | ref | enumeration => simp [parts]
  | object properties strict => exact List.forall_mem_map.mpr (named_object.mp h)
  | union arms => exact named_union.mp h
  | record inner | deferred inner => exact List.forall_mem_singleton.mpr h
  | array inner ih | optional inner ih | nullable inner ih | nullish inner ih => exact ih h

/-- Induction over placed schemas with a hypothesis for each schema in the calls. -/
theorem inductionOnCalls {motive : Placed → Prop}
    (step : ∀ placed, (∀ part ∈ placed.parts, motive part) → motive placed) (placed : Placed) : motive placed := by
  refine step placed ?_
  induction placed with
  | leaf | ref | enumeration => simp [parts]
  | object properties strict ih => exact List.forall_mem_map.mpr fun p hp => step p.2 (ih p hp)
  | union arms ih => exact fun arm harm => step arm (ih arm harm)
  | record inner ih | deferred inner ih => exact List.forall_mem_singleton.mpr (step inner ih)
  | array inner ih | optional inner ih | nullable inner ih | nullish inner ih => exact ih

end Placed

end DataShapes
