import DataShapes.Graph.Reverse
import DataShapes.Shapes.Query.Record
import DataShapes.Shapes.Shared.Operations

/-! # Payloads

What is written to a record: a new one states its fields, an update changes some. A checked payload
writes relations by nested records and leaves out storage keys; an unchecked one writes storage keys and
nests lists only. Inside another record the relation back to it is left out, and an unchecked payload
leaves out its storage keys too, for the outer record implies them. -/

namespace DataShapes

/-- What a payload is for. -/
inductive Purpose where
  | create
  | update
  deriving DecidableEq, Repr

/-- How a payload writes references to other records. -/
inductive Form where
  | checked
  | unchecked
  deriving DecidableEq, Repr

namespace Payload

/-- What a new record states about a value field. -/
def created? (field : Field) : Option Schema :=
  field.value?.map fun value =>
    match field.multiplicity with
    | .list => (Schema.union [value, .strictObject [("set", value)]]).optional
    | .nullable => value.nullable.optional
    | .required => if field.isOmittable then value.optional else value

/-- The name of the operations on a single-valued field. -/
def operationsName? (field : Field) (nullable : Bool) : Option String :=
  match field.kind with
  | .scalar type => Naming.scalarOperations? type nullable
  | .enumeration name => some (Naming.enumerationOperations name nullable)
  | .relation _ => none

/-- A new list, or what to do with the list: set it or append to it. -/
def updatedList (single many : Schema) : Schema :=
  (Schema.union [many, .strictObject [
    ("set", many.optional),
    ("push", (Schema.union [many, single]).optional)]]).optional

/-- A new value, or an operation on the value if there are any. -/
def updatedSingle (value : Schema) (operations : Option String) (nullable : Bool) : Schema :=
  Filter.orNull nullable <|
    match operations with
    | some name => .union [value, .ref name]
    | none => value

def updated? (field : Field) : Option Schema := do
  let single ← field.single?
  let many ← field.many?
  let nullable := field.multiplicity == .nullable
  return if field.isList then updatedList single many
    else updatedSingle single (operationsName? field nullable) nullable

def valueOf? : Purpose → Field → Option Schema
  | .create => created?
  | .update => updated?

/-- The role of the nested records that a relation field writes; an unchecked payload has none for
single records. -/
def nestedRole? : Purpose → Form → Multiplicity → Option (String × String)
  | .create, .checked, .required => some ("CreateNestedOne", "Input")
  | .create, .checked, .nullable => some ("CreateNestedOne", "Input")
  | .create, .checked, .list => some ("CreateNestedMany", "Input")
  | .create, .unchecked, .list => some ("UncheckedCreateNestedMany", "Input")
  | .update, .checked, .required => some ("UpdateOneRequired", "NestedInput")
  | .update, .checked, .nullable => some ("UpdateOne", "NestedInput")
  | .update, .checked, .list => some ("UpdateMany", "NestedInput")
  | .update, .unchecked, .list => some ("UncheckedUpdateMany", "NestedInput")
  | _, .unchecked, .required => none
  | _, .unchecked, .nullable => none

/-- Only a new record must state something: its required relations. -/
def mustState : Purpose → Multiplicity → Bool
  | .create, .required => true
  | _, _ => false

/-- What a payload says about a relation field with this far side. -/
def nested? (purpose : Purpose) (form : Form) (field : Field) (edge : Edge) : Option Schema :=
  (nestedRole? purpose form field.multiplicity).map fun (before, after) =>
    let name := Naming.without edge.target.name before edge.reverse.name after
    if mustState purpose field.multiplicity then .ref name else (Schema.ref name).optional

/-- The storage keys that are implied when a relation is left out. -/
def impliedKeys (omitted : Option Field) : List String :=
  ((omitted.bind (·.relation?)).map (·.storageKeys)).getD []

/-- Whether a payload of an entity leaves out a value field because it stores a reference. -/
def hides (entity : Entity) (form : Form) (omitted : Option Field) (field : Field) : Bool :=
  match form with
  | .checked => entity.isStorageKey field.name
  | .unchecked => (impliedKeys omitted).contains field.name

/-- What a payload says about a field of an entity, if anything. -/
def ofField? (graph : Graph) (purpose : Purpose) (form : Form) (entity : Entity)
    (omitted : Option Field) (field : Field) : Option Schema :=
  if omitted.any (·.name == field.name) then none
  else if field.isRelation then (graph.edge? entity field).bind (nested? purpose form field)
  else if hides entity form omitted field then none
  else valueOf? purpose field

/-- The payload of an entity; the relation `omitted` is left out. -/
def properties (graph : Graph) (purpose : Purpose) (form : Form) (entity : Entity)
    (omitted : Option Field) : List (String × Schema) :=
  Entity.propertiesOf entity.fields (ofField? graph purpose form entity omitted)

/-- The payload of an entity without its relations, for many records at once. -/
def bulkProperties (purpose : Purpose) (form : Form) (entity : Entity) (omitted : Option Field) :
    List (String × Schema) :=
  Entity.propertiesOf (entity.valueFields.filter (!hides entity form omitted ·)) (valueOf? purpose)

end Payload

namespace Entity

def createInputs (entity : Entity) (graph : Graph) : List Declaration :=
  [⟨Naming.ofEntity entity.name "CreateInput",
      .strictObject (Payload.properties graph .create .checked entity none)⟩,
    ⟨Naming.ofEntity entity.name "UncheckedCreateInput",
      .strictObject (Payload.properties graph .create .unchecked entity none)⟩,
    ⟨Naming.ofEntity entity.name "CreateManyInput",
      .strictObject (Payload.bulkProperties .create .unchecked entity none)⟩]

def updateInputs (entity : Entity) (graph : Graph) : List Declaration :=
  [⟨Naming.ofEntity entity.name "UpdateInput",
      .strictObject (Payload.properties graph .update .checked entity none)⟩,
    ⟨Naming.ofEntity entity.name "UncheckedUpdateInput",
      .strictObject (Payload.properties graph .update .unchecked entity none)⟩,
    ⟨Naming.ofEntity entity.name "UpdateManyMutationInput",
      .strictObject (Payload.bulkProperties .update .checked entity none)⟩,
    ⟨Naming.ofEntity entity.name "UncheckedUpdateManyInput",
      .strictObject (Payload.bulkProperties .update .unchecked entity none)⟩]

end Entity

end DataShapes
