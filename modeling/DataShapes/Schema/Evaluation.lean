import DataShapes.Json.Printer
import DataShapes.Schema.DateTime
import DataShapes.Schema.Document
import DataShapes.Text.Escaped

/-! # Evaluation

A document decides whether a value is accepted by one of its schemas, and what the value becomes: only
an object that is not strict loses something, the properties it does not name. A reference takes
nothing off the value. The trail holds the names opened since the evaluation came to the present part of
the value, and a name that turns up again would be opened without end. -/

namespace DataShapes

/-- Why a value is not accepted. -/
inductive Rejection where
  | undefined (name : String)
  | noMember (value : Json) (values : List String)
  | noArm (reasons : List Rejection)
  | noArray (value : Json)
  | noRecord (value : Json)
  | noObject (value : Json)
  | unrecognizedKey (key : String)
  | missingKey (key : String)
  | notOfLeaf (value : Json) (leaf : Leaf)
  deriving Repr, Inhabited

def Leaf.name : Leaf → String
  | .string => "String"
  | .int => "Int"
  | .number => "Number"
  | .bigInt => "BigInt"
  | .boolean => "Boolean"
  | .date => "Date"
  | .isoDateTime => "IsoDateTime"
  | .bytes => "Bytes"
  | .any => "Any"
  | .null => "Null"
  | .trueOnly => "True"

namespace Rejection

mutual

def message : Rejection → String
  | .undefined name => "undefined schema " ++ name
  | .noMember value values => value.compact ++ " is not one of " ++ Escaped.ofStrings values
  | .noArm reasons => "no union arm matched: " ++ "; ".intercalate (messages reasons)
  | .noArray value => "expected array, got " ++ value.compact
  | .noRecord value => "expected record, got " ++ value.compact
  | .noObject value => "expected object, got " ++ value.compact
  | .unrecognizedKey key => "unrecognized key " ++ key
  | .missingKey key => "missing required key " ++ key
  | .notOfLeaf value leaf => value.compact ++ " rejected by " ++ leaf.name

def messages : List Rejection → List String
  | [] => []
  | reason :: reasons => message reason :: messages reasons

end

end Rejection

/-- Why an evaluation gives no value. -/
inductive Obstacle where
  | rejected (reason : Rejection)
  /-- A name refers to itself without going into the value. -/
  | endless (name : String)
  deriving Repr, Inhabited

/-- Whether a value is of a leaf. No JSON value is a large integer, a date or a row of bytes. -/
def Leaf.admits : Leaf → Json → Bool
  | .string, .string _ => true
  | .int, .int _ => true
  | .int, .double d => d.isWhole
  | .number, .int _ => true
  | .number, .double _ => true
  | .boolean, .bool _ => true
  | .isoDateTime, .string s => DateTime.isIso s
  | .any, _ => true
  | .null, .null => true
  | .trueOnly, .bool b => b
  | _, _ => false

namespace Schema

/-- Whether a property of this schema may be missing. -/
def acceptsAbsent : Schema → Bool
  | .optional _ | .nullish _ => true
  | _ => false

end Schema

namespace Document

/-- The number of declarations whose names are not on the trail. -/
def unopened (d : Document) (trail : List String) : Nat :=
  d.names.countP (!trail.contains ·)

theorem unopened_cons_lt {d : Document} {trail : List String} {name : String}
    (declared : name ∈ d.names) (h : trail.contains name = false) :
    d.unopened (name :: trail) < d.unopened trail := by
  have le : ∀ names : List String, names.countP (!(name :: trail).contains ·) ≤
      names.countP (!trail.contains ·) := fun names =>
    List.countP_mono_left fun n _ hn => by simp_all
  have lt : ∀ names : List String, name ∈ names →
      names.countP (!(name :: trail).contains ·) < names.countP (!trail.contains ·) := by
    intro names hm
    induction names with
    | nil => simp at hm
    | cons n names ih =>
      rw [List.countP_cons, List.countP_cons]
      rcases List.mem_cons.1 hm with rfl | hm
      · have := le names
        simp only [h, List.contains_cons, BEq.rfl, Bool.true_or, Bool.not_true, Bool.not_false,
          Bool.false_eq_true, ↓reduceIte] at this ⊢
        omega
      · have := ih hm
        split <;> split <;> first | omega | simp_all
  exact lt d.names declared

theorem mem_names_of_find? {d : Document} {name : String} {declaration : Declaration}
    (h : d.find? name = some declaration) : name ∈ d.names := by
  have hm := List.mem_of_find?_eq_some h
  have hp := List.find?_some h
  simp only [beq_iff_eq] at hp
  exact hp ▸ List.mem_map_of_mem hm

end Document

theorem Json.sizeOf_entry?_lt {entries : List (String × Json)} {key : String} {value : Json}
    (h : Json.entry? entries key = some value) : sizeOf value < sizeOf entries := by
  obtain ⟨⟨k, v⟩, hf, rfl⟩ := Option.map_eq_some_iff.1 h
  have hm := List.mem_reverse.1 (List.mem_of_find?_eq_some hf)
  have := List.sizeOf_lt_of_mem hm
  simp at this
  simp
  omega

namespace Document

mutual

/-- The value that a schema makes of a value. -/
def eval (d : Document) (trail : List String) (schema : Schema) (value : Json) :
    Except Obstacle Json :=
  match schema with
  | .leaf leaf => if leaf.admits value then .ok value else .error (.rejected (.notOfLeaf value leaf))
  | .ref name =>
    if _fresh : trail.contains name then .error (.endless name)
    else
      match _declared : d.find? name with
      | none => .error (.rejected (.undefined name))
      | some declaration => eval d (name :: trail) declaration.schema value
  | .enumeration values =>
    match value with
    | .string s =>
      if values.contains s then .ok value else .error (.rejected (.noMember value values))
    | _ => .error (.rejected (.noMember value values))
  | .object properties strict =>
    match value with
    | .object entries =>
      match entries.find? fun entry => strict && !properties.any (·.1 == entry.1) with
      | some (key, _) => .error (.rejected (.unrecognizedKey key))
      | none =>
        match evalProperties d properties entries [] with
        | .ok result => .ok (.object result)
        | .error obstacle => .error obstacle
    | _ => .error (.rejected (.noObject value))
  | .union arms => evalArms d trail arms value []
  | .array item =>
    match value with
    | .array items =>
      match evalItems d item items with
      | .ok results => .ok (.array results)
      | .error obstacle => .error obstacle
    | _ => .error (.rejected (.noArray value))
  | .record item =>
    match value with
    | .object entries =>
      match evalEntries d item entries with
      | .ok results => .ok (.object results)
      | .error obstacle => .error obstacle
    | _ => .error (.rejected (.noRecord value))
  | .optional inner => eval d trail inner value
  | .nullable inner => if value matches .null then .ok .null else eval d trail inner value
  | .nullish inner => if value matches .null then .ok .null else eval d trail inner value
termination_by (sizeOf value, d.unopened trail, sizeOf schema)
decreasing_by
  · exact Prod.Lex.right _ (Prod.Lex.left _ _
      (unopened_cons_lt (mem_names_of_find? _declared) (by simpa using _fresh)))
  all_goals decreasing_tactic

/-- The first value that an arm makes of a value; `reasons` are those of the arms before, the last one
first. -/
def evalArms (d : Document) (trail : List String) (arms : List Schema) (value : Json)
    (reasons : List Rejection) : Except Obstacle Json :=
  match arms with
  | [] => .error (.rejected (.noArm reasons.reverse))
  | arm :: others =>
    match eval d trail arm value with
    | .error (.rejected reason) => evalArms d trail others value (reason :: reasons)
    | result => result
termination_by (sizeOf value, d.unopened trail, sizeOf arms)

/-- What a schema makes of the items of an array. -/
def evalItems (d : Document) (item : Schema) (items : List Json) : Except Obstacle (List Json) :=
  match items with
  | [] => .ok []
  | value :: others =>
    match eval d [] item value with
    | .error obstacle => .error obstacle
    | .ok result =>
      match evalItems d item others with
      | .error obstacle => .error obstacle
      | .ok results => .ok (result :: results)
termination_by (sizeOf items, 0, sizeOf item)

/-- What a schema makes of the values of an object. -/
def evalEntries (d : Document) (item : Schema) (entries : List (String × Json)) :
    Except Obstacle (List (String × Json)) :=
  match entries with
  | [] => .ok []
  | (key, value) :: others =>
    match eval d [] item value with
    | .error obstacle => .error obstacle
    | .ok result =>
      match evalEntries d item others with
      | .error obstacle => .error obstacle
      | .ok results => .ok ((key, result) :: results)
termination_by (sizeOf entries, 0, sizeOf item)

/-- What properties make of the entries of an object, set into the sorted entries `seen`. -/
def evalProperties (d : Document) (properties : List (String × Schema))
    (entries : List (String × Json)) (seen : List (String × Json)) :
    Except Obstacle (List (String × Json)) :=
  match properties with
  | [] => .ok seen
  | (key, schema) :: others =>
    match _present : Json.entry? entries key with
    | none =>
      if schema.acceptsAbsent then evalProperties d others entries seen
      else .error (.rejected (.missingKey key))
    | some value =>
      match eval d [] schema value with
      | .error obstacle => .error obstacle
      | .ok result => evalProperties d others entries (Json.setEntry key result seen)
termination_by (sizeOf entries, 0, sizeOf properties)
decreasing_by
  all_goals simp_wf
  all_goals have := @Json.sizeOf_entry?_lt entries key
  all_goals grind

end

/-- The value that the schema of a name makes of a value. -/
def parse (d : Document) (name : String) (value : Json) : Except Obstacle Json :=
  d.eval [] (.ref name) value

end Document

end DataShapes
