import DataShapes.Schema.Basic
import Mathlib.Logic.Relation

/-! # Parts of schemas

What a schema is made of, however deep inside it. A property holds throughout a schema when all parts of it have the
property, the schema itself among them; so it holds of the schema and throughout its direct parts. -/

namespace DataShapes

namespace Schema

/-- The direct parts of a schema. -/
def children : Schema → List Schema
  | .leaf _ => []
  | .ref _ => []
  | .enumeration _ => []
  | .object properties _ => properties.map (·.2)
  | .union arms => arms
  | .array item => [item]
  | .record item => [item]
  | .optional inner => [inner]
  | .nullable inner => [inner]
  | .nullish inner => [inner]

/-- A schema stands somewhere inside a schema, or is that schema. -/
def HasPart : Schema → Schema → Prop := Relation.ReflTransGen fun schema part => part ∈ schema.children

/-- Every part of the schema has the property. -/
def Throughout (P : Schema → Prop) (schema : Schema) : Prop := ∀ part, schema.HasPart part → P part

section
variable {P : Schema → Prop}

theorem throughout_iff {schema : Schema} :
    Throughout P schema ↔ P schema ∧ ∀ child ∈ schema.children, Throughout P child := by
  constructor
  · exact fun h => ⟨h schema .refl, fun child hc part hpart => h part (.head hc hpart)⟩
  · rintro ⟨hself, hchildren⟩ part hpart
    rcases hpart.cases_head with rfl | ⟨child, hc, hpart⟩
    · exact hself
    · exact hchildren child hc part hpart

@[simp] theorem throughout_leaf {l : Leaf} : Throughout P (.leaf l) ↔ P (.leaf l) :=
  throughout_iff.trans (and_iff_left (List.forall_mem_nil _))

@[simp] theorem throughout_ref {name : String} : Throughout P (.ref name) ↔ P (.ref name) :=
  throughout_iff.trans (and_iff_left (List.forall_mem_nil _))

@[simp] theorem throughout_enumeration {values : List String} :
    Throughout P (.enumeration values) ↔ P (.enumeration values) :=
  throughout_iff.trans (and_iff_left (List.forall_mem_nil _))

@[simp] theorem throughout_object {properties : List (String × Schema)} {strict : Bool} :
    Throughout P (.object properties strict) ↔
      P (.object properties strict) ∧ ∀ p ∈ properties, Throughout P p.2 :=
  throughout_iff.trans (and_congr_right' List.forall_mem_map)

@[simp] theorem throughout_strictObject {properties : List (String × Schema)} :
    Throughout P (.strictObject properties) ↔
      P (.strictObject properties) ∧ ∀ p ∈ properties, Throughout P p.2 :=
  throughout_object

@[simp] theorem throughout_union {arms : List Schema} :
    Throughout P (.union arms) ↔ P (.union arms) ∧ ∀ arm ∈ arms, Throughout P arm :=
  throughout_iff

@[simp] theorem throughout_array {item : Schema} :
    Throughout P (.array item) ↔ P (.array item) ∧ Throughout P item :=
  throughout_iff.trans (and_congr_right' List.forall_mem_singleton)

@[simp] theorem throughout_record {item : Schema} :
    Throughout P (.record item) ↔ P (.record item) ∧ Throughout P item :=
  throughout_iff.trans (and_congr_right' List.forall_mem_singleton)

@[simp] theorem throughout_optional {inner : Schema} :
    Throughout P (.optional inner) ↔ P (.optional inner) ∧ Throughout P inner :=
  throughout_iff.trans (and_congr_right' List.forall_mem_singleton)

@[simp] theorem throughout_nullable {inner : Schema} :
    Throughout P (.nullable inner) ↔ P (.nullable inner) ∧ Throughout P inner :=
  throughout_iff.trans (and_congr_right' List.forall_mem_singleton)

@[simp] theorem throughout_nullish {inner : Schema} :
    Throughout P (.nullish inner) ↔ P (.nullish inner) ∧ Throughout P inner :=
  throughout_iff.trans (and_congr_right' List.forall_mem_singleton)

end

end Schema

end DataShapes
