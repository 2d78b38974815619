import DataShapes.Event
import DataShapes.Failure
import DataShapes.Json.Reader
import DataShapes.Model.DataModel

/-! # Reading data models

A document is a JSON object with a data model under `datamodel`, or a data model itself. Records are
objects, of which only the known keys count, or arrays of their members in order. A known key may stand
only once; members that may be missing have a default, and an array may end before them. -/

namespace DataShapes

namespace Model

/-- The members of a record, each of them present or missing; `none` for what is no record of these
keys. -/
def members? (keys : List String) : Json → Option (List (Option Json))
  | .object entries => keys.mapM fun key =>
    match entries.filter (·.1 == key) with
    | [] => some none
    | [(_, value)] => some (some value)
    | _ => none
  | .array items =>
    if items.length ≤ keys.length then
      some (items.map some ++ List.replicate (keys.length - items.length) none)
    else none
  | _ => none

/-! ## Members -/

def text? : Json → Option String
  | .string s => some s
  | _ => none

def flag? : Json → Option Bool
  | .bool b => some b
  | _ => none

/-- The elements of a list, all of which must decode. -/
def list? {α : Type} (element? : Json → Option α) : Json → Option (List α)
  | .array items => items.mapM element?
  | _ => none

def nullable? {α : Type} (value? : Json → Option α) : Json → Option (Option α)
  | .null => some none
  | value => (value? value).map some

def defaulted? {α : Type} (missing : α) (value? : Json → Option α) : Option Json → Option α
  | none => some missing
  | some value => value? value

/-! ## Records -/

/-- What kind of field the document declares. -/
inductive KindTag where
  | scalar
  | object
  | enumeration
  | unsupported
  deriving DecidableEq, Repr

def KindTag.ofName? (name : String) : Option KindTag :=
  match name with
  | "scalar" => some .scalar
  | "object" => some .object
  | "enum" => some .enumeration
  | "unsupported" => some .unsupported
  | _ => none

/-- A kind is written by its name, or as an object with its name as the only key and `null` under it. -/
def kindTag? : Json → Option KindTag
  | .string name => KindTag.ofName? name
  | .object [(name, .null)] => KindTag.ofName? name
  | _ => none

/-- A field declaration as the document states it. -/
structure FieldEntry where
  name : String
  kind : KindTag
  type : String
  isList : Bool
  isRequired : Bool
  isUnique : Bool
  isId : Bool
  hasDefaultValue : Bool
  isUpdatedAt : Bool
  relationName : Option String
  relationFromFields : Option (List String)
  deriving Repr

def fieldKeys : List String :=
  ["name", "kind", "type", "isList", "isRequired", "isUnique", "isId", "hasDefaultValue",
    "isUpdatedAt", "relationName", "relationFromFields"]

def fieldEntry? (value : Json) : Option FieldEntry := do
  match ← members? fieldKeys value with
  | [name, kind, type, isList, isRequired, isUnique, isId, hasDefaultValue, isUpdatedAt, relationName,
      relationFromFields] =>
    return {
      name := ← text? (← name)
      kind := ← kindTag? (← kind)
      type := ← text? (← type)
      isList := ← defaulted? false flag? isList
      isRequired := ← defaulted? false flag? isRequired
      isUnique := ← defaulted? false flag? isUnique
      isId := ← defaulted? false flag? isId
      hasDefaultValue := ← defaulted? false flag? hasDefaultValue
      isUpdatedAt := ← defaulted? false flag? isUpdatedAt
      relationName := ← defaulted? none (nullable? text?) relationName
      relationFromFields := ← defaulted? none (nullable? (list? text?)) relationFromFields }
  | _ => none

def compoundKey? (value : Json) : Option CompoundKey := do
  match ← members? ["name", "fields"] value with
  | [name, fields] =>
    return { name := ← defaulted? none (nullable? text?) name, fields := ← list? text? (← fields) }
  | _ => none

/-- An entity declaration as the document states it. -/
structure EntityEntry where
  name : String
  fields : List FieldEntry
  primaryKey : Option CompoundKey
  /-- The older way to state uniqueness over several fields, without names. -/
  uniqueFields : List (List String)
  uniqueIndexes : List CompoundKey
  deriving Repr

def entityEntry? (value : Json) : Option EntityEntry := do
  match ← members? ["name", "fields", "primaryKey", "uniqueFields", "uniqueIndexes"] value with
  | [name, fields, primaryKey, uniqueFields, uniqueIndexes] =>
    return {
      name := ← text? (← name)
      fields := ← list? fieldEntry? (← fields)
      primaryKey := ← defaulted? none (nullable? compoundKey?) primaryKey
      uniqueFields := ← defaulted? [] (list? (list? text?)) uniqueFields
      uniqueIndexes := ← defaulted? [] (list? compoundKey?) uniqueIndexes }
  | _ => none

def enumerationValue? (value : Json) : Option String := do
  match ← members? ["name"] value with
  | [name] => text? (← name)
  | _ => none

def enumeration? (value : Json) : Option Enumeration := do
  match ← members? ["name", "values"] value with
  | [name, values] =>
    return { name := ← text? (← name), values := ← list? enumerationValue? (← values) }
  | _ => none

/-- The declarations of a document. -/
structure Entries where
  entities : List EntityEntry
  enumerations : List Enumeration
  deriving Repr

def entries? (value : Json) : Option Entries := do
  match ← members? ["models", "enums"] value with
  | [entities, enumerations] =>
    return {
      entities := ← list? entityEntry? (← entities)
      enumerations := ← defaulted? [] (list? enumeration?) enumerations }
  | _ => none

/-- The declarations under the one key `datamodel` of an object. -/
def wrappedEntries? : Json → Option Entries
  | .object entries =>
    match entries.filter (·.1 == "datamodel") with
    | [(_, value)] => entries? value
    | _ => none
  | _ => none

/-- The declarations of a document, wrapped ones first. -/
def documentEntries? (value : Json) : Option Entries :=
  (wrappedEntries? value).or (entries? value)

/-! ## Meaning -/

/-- What a field of the entity declares to hold. What is not supported counts as unrecognized. -/
def FieldEntry.fieldKind (entry : FieldEntry) : FieldKind :=
  match entry.kind with
  | .scalar => .scalar (.ofTag entry.type)
  | .unsupported => .scalar (.unrecognized entry.type)
  | .enumeration => .enumeration entry.type
  | .object => .relation
      { target := entry.type, name := entry.relationName.getD ""
        storageKeys := entry.relationFromFields.getD [] }

/-- What is reported about the type of a field. -/
def FieldEntry.notices (entry : FieldEntry) (entity : String) : List Event :=
  match entry.kind, entry.fieldKind with
  | .scalar, .scalar (.unrecognized tag) => [.unrecognizedScalar entity entry.name tag]
  | .unsupported, _ => [.unsupportedField entity entry.name entry.type]
  | _, _ => []

/-- A list field counts as required. -/
def FieldEntry.field (entry : FieldEntry) (entity : String) : Reported Field :=
  ⟨{ name := entry.name
     kind := entry.fieldKind
     isRequired := entry.isRequired || entry.isList
     isList := entry.isList
     hasDefault := entry.hasDefaultValue
     isId := entry.isId
     isUnique := entry.isUnique
     isUpdatedAt := entry.isUpdatedAt },
    entry.notices entity⟩

/-- Named declarations of uniqueness replace the older ones. -/
def EntityEntry.compoundUniques (entry : EntityEntry) : List CompoundKey :=
  if entry.uniqueIndexes.isEmpty then entry.uniqueFields.map (⟨none, ·⟩) else entry.uniqueIndexes

def EntityEntry.entity (entry : EntityEntry) : Reported Entity :=
  (Reported.sequence (entry.fields.map (·.field entry.name))).map fun fields =>
    { name := entry.name, fields, primaryKey := entry.primaryKey
      compoundUniques := entry.compoundUniques }

def Entries.model (entries : Entries) : Reported DataModel :=
  (Reported.sequence (entries.entities.map (·.entity))).map fun entities =>
    { entities, enumerations := entries.enumerations }

end Model

namespace DataModel

/-- The declarations that a text holds. What follows the value matters only if the value has the right
shape. -/
def readEntries (text : String) : Except Malformation Model.Entries :=
  let place (stop : Json.Stop) : Malformation := .notJson stop.cause (stop.position text)
  match Json.readHead text with
  | .error stop => .error (place stop)
  | .ok (value, rest) =>
    match Model.documentEntries? value with
    | none => .error .wrongShape
    | some entries =>
      match Json.atEnd rest with
      | .error stop => .error (place stop)
      | .ok () => .ok entries

/-- The data model that a text holds; `path` says where the text is from. -/
def parse (text path : String) : Except Failure (Reported DataModel) :=
  match readEntries text with
  | .error malformation => .error (.malformed path malformation)
  | .ok entries =>
    .ok (entries.model.bind fun model =>
      ⟨model, [.modelLoaded model.entities.length model.enumerations.length]⟩)

end DataModel

end DataShapes
