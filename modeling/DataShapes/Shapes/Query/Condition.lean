import DataShapes.Graph.Usage
import DataShapes.Shapes.Query.Record
import DataShapes.Shapes.Shared.Filters

/-! # Conditions on records

A condition on a record joins conditions on its fields; conditions are joined and negated in turn. A
value field is compared by its filter or with a value, a relation field by a condition on the records it
leads to. -/

namespace DataShapes

namespace Condition

/-- Conditions joined and negated, of the schema named `self`. All of several must hold, or the one
given; of alternatives there is a list. -/
def connectives (self : String) : List (String × Schema) :=
  [("AND", (Schema.oneOrMany (.ref self)).optional),
    ("OR", (Schema.ref self).array.optional),
    ("NOT", (Schema.oneOrMany (.ref self)).optional)]

def filterName? (field : Field) : Option String :=
  match field.kind with
  | .scalar type => Naming.scalarFilter? type field.multiplicity
  | .enumeration name => some (Naming.enumerationFilter name field.multiplicity)
  | .relation _ => none

/-- A condition on a value field. Anything goes for a type without filter. -/
def onValue? (field : Field) : Option Schema :=
  field.value?.map fun value =>
    match filterName? field with
    | none => (Schema.leaf .any).optional
    | some name =>
      match field.multiplicity with
      | .required => (Schema.union [.ref name, value]).optional
      | .nullable => (Schema.union [.ref name, value]).nullable.optional
      | .list => (Schema.ref name).optional

/-- A condition on a relation field: about the members of a list, or about the one record, which may be
missing. -/
def onRelation (field : Field) (target : String) : Schema :=
  let condition := Schema.ref (Naming.ofEntity target "WhereInput")
  match field.multiplicity with
  | .required =>
    (Schema.union [.ref (Naming.ofEntity target "RelationFilter"), condition]).optional
  | .nullable =>
    (Schema.union
      [.leaf .null, .ref (Naming.ofEntity target "NullableRelationFilter"), condition]).optional
  | .list => (Schema.ref (Naming.ofEntity target "ListRelationFilter")).optional

def onField? (field : Field) : Option Schema :=
  match field.relation? with
  | some relation => some (onRelation field relation.target)
  | none => onValue? field

end Condition

namespace Entity

/-- A condition on the records of the entity. -/
def whereInput (entity : Entity) : Declaration :=
  let name := Naming.ofEntity entity.name "WhereInput"
  ⟨name, .strictObject (Condition.connectives name ++ propertiesOf entity.fields Condition.onField?)⟩

/-- A condition that looks at the value fields only. -/
def scalarWhere (entity : Entity) (suffix : String) : Declaration :=
  let name := Naming.ofEntity entity.name suffix
  ⟨name, .strictObject
    (Condition.connectives name ++ propertiesOf entity.valueFields Condition.onValue?)⟩

/-- Properties of which each is a condition on the records of the entity and may be left out. -/
def quantified (entity : Entity) (keys : List String) (nullable : Bool) : Schema :=
  .strictObject (keys.map fun key =>
    (key, Filter.orNull nullable (.ref (Naming.ofEntity entity.name "WhereInput"))))

/-- How relation fields of each multiplicity that lead to the entity are filtered. -/
def relationFilters (entity : Entity) (usage : Usage) : List Declaration :=
  (if usage.list then
    [⟨Naming.ofEntity entity.name "ListRelationFilter",
      entity.quantified ["every", "some", "none"] false⟩] else []) ++
  (if usage.required then
    [⟨Naming.ofEntity entity.name "RelationFilter", entity.quantified ["is", "isNot"] false⟩]
    else []) ++
  (if usage.nullable then
    [⟨Naming.ofEntity entity.name "NullableRelationFilter",
      entity.quantified ["is", "isNot"] true⟩] else [])

/-- The condition that bulk updates inside other records take, if a list leads to the entity. -/
def bulkWhere (entity : Entity) (usage : Usage) : List Declaration :=
  if usage.list then [entity.scalarWhere "ScalarWhereInput"] else []

def groupWhere (entity : Entity) : Declaration :=
  entity.scalarWhere "ScalarWhereWithAggregatesInput"

end Entity

end DataShapes
