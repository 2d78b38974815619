import DataShapes.Shapes.Write.Payload

/-! # Nested writes

A record of the target of a relation can be written from inside the record that has the relation. All
schemas for this are named on the target and on its field that leads back, which is left out of them, so
that nested records do not state again what holds them together. -/

namespace DataShapes

/-- The far side of a relation field: all its nested writes are named on this. -/
structure NestedNames where
  target : String
  reverse : String
  deriving DecidableEq, Repr

namespace NestedNames

def ofEdge (edge : Edge) : NestedNames := ⟨edge.target.name, edge.reverse.name⟩

def role (names : NestedNames) (before : String) (after : String) : String :=
  Naming.without names.target before names.reverse after

/-- A reference to the nested writes of a role. -/
def roleRef (names : NestedNames) (before : String) : Schema := .ref (names.role before "Input")

/-- A reference to a schema of the target itself. -/
def ofTarget (names : NestedNames) (suffix : String) : Schema :=
  .ref (Naming.ofEntity names.target suffix)

/-- The name of the rows of many new records, and of their enclosure. -/
def rows (names : NestedNames) (suffix : String) : String :=
  Naming.createManyFor names.target names.reverse suffix

def newRecord (names : NestedNames) : Schema :=
  .union [names.roleRef "Create", names.roleRef "UncheckedCreate"]

/-- New records or a new one, in either form; lists come first. -/
def newRecords (names : NestedNames) : Schema :=
  .union [(names.roleRef "Create").array, (names.roleRef "UncheckedCreate").array,
    names.roleRef "Create", names.roleRef "UncheckedCreate"]

def changedRecord (names : NestedNames) : Schema :=
  .union [names.roleRef "Update", names.roleRef "UncheckedUpdate"]

/-- Properties that take several of something or one, and may be left out. -/
def several (keys : List String) (item : Schema) : List (String × Schema) :=
  keys.map fun key => (key, (Schema.oneOrMany item).optional)

/-- Many rows at once, if records can be created in bulk. -/
def bulk (names : NestedNames) (allowed : Bool) : List (String × Schema) :=
  if allowed then [("createMany", (Schema.ref (names.rows "InputEnvelope")).optional)] else []

/-! ## Creating -/

def payload (names : NestedNames) (graph : Graph) (purpose : Purpose) (edge : Edge) :
    List Declaration :=
  let stem := match purpose with
    | .create => "Create"
    | .update => "Update"
  [⟨names.role stem "Input",
      .strictObject (Payload.properties graph purpose .checked edge.target (some edge.reverse))⟩,
    ⟨names.role ("Unchecked" ++ stem) "Input",
      .strictObject (Payload.properties graph purpose .unchecked edge.target (some edge.reverse))⟩]

/-- A record that is connected if it exists and created if not. -/
def connectOrCreate (names : NestedNames) : Declaration :=
  ⟨names.role "CreateOrConnect" "Input",
    .strictObject [("where", names.ofTarget "WhereUniqueInput"), ("create", names.newRecord)]⟩

/-- What a new record says about one related record. -/
def createOne (names : NestedNames) : Declaration :=
  ⟨names.role "CreateNestedOne" "Input",
    .strictObject [
      ("create", names.newRecord.optional),
      ("connectOrCreate", (names.roleRef "CreateOrConnect").optional),
      ("connect", (names.ofTarget "WhereUniqueInput").optional)]⟩

/-- The rows of many new records, if records can be created in bulk. -/
def createRows (names : NestedNames) (edge : Edge) : List Declaration :=
  [⟨names.rows "Input",
      .strictObject (Payload.bulkProperties .create .unchecked edge.target (some edge.reverse))⟩,
    ⟨names.rows "InputEnvelope",
      .strictObject [
        ("data", .oneOrMany (.ref (names.rows "Input"))),
        ("skipDuplicates", (Schema.leaf .boolean).optional)]⟩]

/-- What a new record says about a list of related records, in the form of this role. -/
def createMany (names : NestedNames) (before : String) (bulkAllowed : Bool) : Declaration :=
  ⟨names.role before "Input",
    .strictObject <|
      [("create", names.newRecords.optional)] ++
        several ["connectOrCreate"] (names.roleRef "CreateOrConnect") ++
        names.bulk bulkAllowed ++
        several ["connect"] (names.ofTarget "WhereUniqueInput")⟩

/-- All schemas for new records inside a record. Only a reverse that is no list lets them be created in
bulk. -/
def creations (names : NestedNames) (graph : Graph) (field : Field) (edge : Edge) :
    List Declaration :=
  let bulkAllowed := !edge.reverse.isList
  names.payload graph .create edge ++ [names.connectOrCreate] ++
    if field.isList then
      (if bulkAllowed then names.createRows edge else []) ++
        [names.createMany "CreateNestedMany" bulkAllowed,
          names.createMany "UncheckedCreateNestedMany" bulkAllowed]
    else [names.createOne]

/-! ## Updating -/

/-- A related record that is updated if it exists and created if not. -/
def upsertOne (names : NestedNames) : Declaration :=
  ⟨names.role "Upsert" "Input",
    .strictObject [
      ("update", names.changedRecord),
      ("create", names.newRecord),
      ("where", (names.ofTarget "WhereInput").optional)]⟩

/-- A related record that is updated if it meets a condition. -/
def changeOne (names : NestedNames) : Declaration :=
  ⟨names.role "UpdateToOneWithWhere" "Input",
    .strictObject [
      ("where", (names.ofTarget "WhereInput").optional),
      ("data", names.changedRecord)]⟩

/-- How a related record is detached: at all, or if it meets a condition. -/
def detach (names : NestedNames) : Schema :=
  (Schema.union [.leaf .boolean, names.ofTarget "WhereInput"]).optional

/-- What an update says about one related record; it is detached only if it may be missing. -/
def updateOne (names : NestedNames) (nullable : Bool) : Declaration :=
  ⟨names.role (if nullable then "UpdateOne" else "UpdateOneRequired") "NestedInput",
    .strictObject <|
      [("create", names.newRecord.optional),
        ("connectOrCreate", (names.roleRef "CreateOrConnect").optional),
        ("upsert", (names.roleRef "Upsert").optional)] ++
      (if nullable then [("disconnect", names.detach), ("delete", names.detach)] else []) ++
      [("connect", (names.ofTarget "WhereUniqueInput").optional),
        ("update", (Schema.union [names.roleRef "UpdateToOneWithWhere", names.roleRef "Update",
          names.roleRef "UncheckedUpdate"]).optional)]⟩

/-- Members of a list that are updated if they exist and created if not, that are found and updated, and
that are updated in bulk. -/
def changeMany (names : NestedNames) (edge : Edge) : List Declaration :=
  [⟨names.role "UpsertWithWhereUnique" "Input",
      .strictObject [
        ("where", names.ofTarget "WhereUniqueInput"),
        ("update", names.changedRecord),
        ("create", names.newRecord)]⟩,
    ⟨names.role "UpdateWithWhereUnique" "Input",
      .strictObject [
        ("where", names.ofTarget "WhereUniqueInput"),
        ("data", names.changedRecord)]⟩,
    ⟨names.role "UpdateManyWithWhere" "Input",
      .strictObject [
        ("where", names.ofTarget "ScalarWhereInput"),
        ("data", .union [names.ofTarget "UpdateManyMutationInput",
          names.roleRef "UncheckedUpdateMany"])]⟩,
    ⟨names.role "UncheckedUpdateMany" "Input",
      .strictObject (Payload.bulkProperties .update .unchecked edge.target (some edge.reverse))⟩]

/-- What an update says about a list of related records, in the form of this role. -/
def updateMany (names : NestedNames) (before : String) (bulkAllowed : Bool) : Declaration :=
  ⟨names.role before "NestedInput",
    .strictObject <|
      [("create", names.newRecords.optional)] ++
        several ["connectOrCreate"] (names.roleRef "CreateOrConnect") ++
        several ["upsert"] (names.roleRef "UpsertWithWhereUnique") ++
        names.bulk bulkAllowed ++
        several ["set", "disconnect", "delete", "connect"] (names.ofTarget "WhereUniqueInput") ++
        several ["update"] (names.roleRef "UpdateWithWhereUnique") ++
        several ["updateMany"] (names.roleRef "UpdateManyWithWhere") ++
        several ["deleteMany"] (names.ofTarget "ScalarWhereInput")⟩

/-- All schemas for updates of records inside a record. -/
def changes (names : NestedNames) (graph : Graph) (field : Field) (edge : Edge) :
    List Declaration :=
  let bulkAllowed := !edge.reverse.isList
  names.payload graph .update edge ++
    if field.isList then
      names.changeMany edge ++
        [names.updateMany "UpdateMany" bulkAllowed, names.updateMany "UncheckedUpdateMany" bulkAllowed]
    else [names.upsertOne, names.changeOne, names.updateOne (field.multiplicity == .nullable)]

end NestedNames

namespace Graph

/-- All nested writes through a relation field; none without a reverse. -/
def nestedWrites (graph : Graph) (owner : Entity) (field : Field) : List Declaration :=
  match graph.edge? owner field with
  | none => []
  | some edge =>
    let names := NestedNames.ofEdge edge
    names.creations graph field edge ++ names.changes graph field edge

end Graph

end DataShapes
