import DataShapes.Schema.Basic

/-! # What a schema refers to

A schema lies within a set of names when it refers to no other names and all objects in it are strict.
Both are said at once because they are asked of the same schemas: those of inputs, which refuse unknown
properties and refer only to schemas that do so too. -/

namespace DataShapes

namespace Schema

/-! ### Induction -/

/-- Induction over schemas with a hypothesis for each part, also for those in lists. -/
@[elab_as_elim, induction_eliminator]
theorem inductionOnParts {motive : Schema → Prop}
    (leaf : ∀ l, motive (.leaf l))
    (ref : ∀ name, motive (.ref name))
    (enumeration : ∀ values, motive (.enumeration values))
    (object : ∀ properties strict, (∀ p ∈ properties, motive p.2) → motive (.object properties strict))
    (union : ∀ arms, (∀ arm ∈ arms, motive arm) → motive (.union arms))
    (array : ∀ item, motive item → motive (.array item))
    (record : ∀ item, motive item → motive (.record item))
    (optional : ∀ inner, motive inner → motive (.optional inner))
    (nullable : ∀ inner, motive inner → motive (.nullable inner))
    (nullish : ∀ inner, motive inner → motive (.nullish inner)) (schema : Schema) : motive schema :=
  @Schema.rec motive (fun properties => ∀ p ∈ properties, motive p.2) (fun arms => ∀ arm ∈ arms, motive arm)
    (fun p => motive p.2) leaf ref enumeration object union array record optional nullable nullish
    (by simp) (fun _ _ head tail => List.forall_mem_cons.mpr ⟨head, tail⟩)
    (by simp) (fun _ _ head tail => List.forall_mem_cons.mpr ⟨head, tail⟩)
    (fun _ _ h => h) schema

/-! ### References, part by part -/

theorem mem_referencesOfArms {name : String} :
    ∀ {arms : List Schema}, name ∈ referencesOfArms arms ↔ ∃ arm ∈ arms, name ∈ arm.references
  | [] => by simp [referencesOfArms]
  | _ :: arms => by
    have ih : name ∈ referencesOfArms arms ↔ _ := mem_referencesOfArms
    simp [referencesOfArms, ih]

theorem mem_referencesOfProperties {name : String} :
    ∀ {properties : List (String × Schema)},
      name ∈ referencesOfProperties properties ↔ ∃ p ∈ properties, name ∈ p.2.references
  | [] => by simp [referencesOfProperties]
  | (_, _) :: properties => by
    have ih : name ∈ referencesOfProperties properties ↔ _ := mem_referencesOfProperties
    simp [referencesOfProperties, ih]

section
variable {name : String}

@[simp] theorem mem_references_ref {other : String} : name ∈ (ref other).references ↔ name = other :=
  List.mem_singleton

@[simp] theorem mem_references_strictObject {properties : List (String × Schema)} :
    name ∈ (strictObject properties).references ↔ ∃ p ∈ properties, name ∈ p.2.references :=
  mem_referencesOfProperties

@[simp] theorem mem_references_union {arms : List Schema} :
    name ∈ (union arms).references ↔ ∃ arm ∈ arms, name ∈ arm.references :=
  mem_referencesOfArms

@[simp] theorem mem_references_array {item : Schema} : name ∈ item.array.references ↔ name ∈ item.references :=
  Iff.rfl

@[simp] theorem mem_references_optional {inner : Schema} :
    name ∈ inner.optional.references ↔ name ∈ inner.references :=
  Iff.rfl

@[simp] theorem mem_references_nullable {inner : Schema} :
    name ∈ inner.nullable.references ↔ name ∈ inner.references :=
  Iff.rfl

end

/-! ### Strict schemas within some names -/

/-- Every object in the schema is strict, and every name that the schema refers to is in `names`. -/
inductive Within (names : String → Prop) : Schema → Prop
  | leaf {l : Leaf} : Within names (.leaf l)
  | ref {name : String} : names name → Within names (.ref name)
  | enumeration {values : List String} : Within names (.enumeration values)
  | object {properties : List (String × Schema)} :
    (∀ p ∈ properties, Within names p.2) → Within names (.object properties true)
  | union {arms : List Schema} : (∀ arm ∈ arms, Within names arm) → Within names (.union arms)
  | array {item : Schema} : Within names item → Within names (.array item)
  | record {item : Schema} : Within names item → Within names (.record item)
  | optional {inner : Schema} : Within names inner → Within names (.optional inner)
  | nullable {inner : Schema} : Within names inner → Within names (.nullable inner)
  | nullish {inner : Schema} : Within names inner → Within names (.nullish inner)

section
variable {names : String → Prop}

@[simp] theorem within_leaf {l : Leaf} : Within names (.leaf l) := .leaf

@[simp] theorem within_enumeration {values : List String} : Within names (.enumeration values) :=
  .enumeration

@[simp] theorem within_ref {name : String} : Within names (.ref name) ↔ names name :=
  ⟨fun | .ref h => h, .ref⟩

@[simp] theorem within_object {properties : List (String × Schema)} {strict : Bool} :
    Within names (.object properties strict) ↔ strict = true ∧ ∀ p ∈ properties, Within names p.2 :=
  ⟨fun | .object h => ⟨rfl, h⟩, fun ⟨hs, h⟩ => hs ▸ .object h⟩

@[simp] theorem within_strictObject {properties : List (String × Schema)} :
    Within names (.strictObject properties) ↔ ∀ p ∈ properties, Within names p.2 := by
  simp [strictObject]

@[simp] theorem within_union {arms : List Schema} :
    Within names (.union arms) ↔ ∀ arm ∈ arms, Within names arm :=
  ⟨fun | .union h => h, .union⟩

@[simp] theorem within_array {item : Schema} : Within names (.array item) ↔ Within names item :=
  ⟨fun | .array h => h, .array⟩

@[simp] theorem within_record {item : Schema} : Within names (.record item) ↔ Within names item :=
  ⟨fun | .record h => h, .record⟩

@[simp] theorem within_optional {inner : Schema} : Within names (.optional inner) ↔ Within names inner :=
  ⟨fun | .optional h => h, .optional⟩

@[simp] theorem within_nullable {inner : Schema} : Within names (.nullable inner) ↔ Within names inner :=
  ⟨fun | .nullable h => h, .nullable⟩

@[simp] theorem within_nullish {inner : Schema} : Within names (.nullish inner) ↔ Within names inner :=
  ⟨fun | .nullish h => h, .nullish⟩

@[simp] theorem within_oneOrMany {item : Schema} : Within names (.oneOrMany item) ↔ Within names item := by
  simp [oneOrMany]

/-- A schema within some names refers to no other name. -/
theorem Within.names_of_mem {schema : Schema} (h : schema.Within names) :
    ∀ name ∈ schema.references, names name := by
  intro name hn
  induction h with
  | leaf | enumeration => simp [references] at hn
  | ref h =>
    obtain rfl : name = _ := by simpa [references] using hn
    exact h
  | object _ ih =>
    obtain ⟨p, hp, hn⟩ := mem_referencesOfProperties.mp (by simpa [references] using hn)
    exact ih p hp hn
  | union _ ih =>
    obtain ⟨arm, ha, hn⟩ := mem_referencesOfArms.mp (by simpa [references] using hn)
    exact ih arm ha hn
  | array _ ih | record _ ih | optional _ ih | nullable _ ih | nullish _ ih =>
    exact ih (by simpa [references] using hn)

end

end Schema

end DataShapes
