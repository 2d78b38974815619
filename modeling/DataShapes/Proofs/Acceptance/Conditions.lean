import DataShapes.Proofs.Generation.Termination
import DataShapes.Proofs.Generation.Unaltered
import DataShapes.Proofs.Inputs.Keys
import DataShapes.Proofs.Schema.Acceptance

/-! # What conditions mean

A condition is told without schemas: it is an object, and each entry of it is a clause that joins or negates
conditions, looks at a value field, or goes on to related records. The three kinds of conditions that a model
builds accept what is a condition in this sense, however deep it goes. -/

namespace DataShapes

/-- What may stand under a value field in a condition: what the filter of the field accepts. -/
def DataModel.Compares (model : DataModel) (field : Field) (part : Json) : Prop :=
  ∃ schema, Condition.onValue? field = some schema ∧ model.document.Accepts schema part

namespace Condition

/-- What a condition says of a field; `holds` tells which values are conditions on the entities that relation
fields lead to. -/
inductive About (model : DataModel) (holds : Entity → Json → Prop) :
    Json → Field → Prop
  | value {field : Field} {part : Json} : field.relation? = none → model.Compares field part →
    About model holds part field
  /-- Conditions on the members of a list. -/
  | members {field : Field} {relation : Relation} {target : Entity} {entries : List (String × Json)} :
    field.relation? = some relation → model.entity? relation.target = some target → field.multiplicity = .list →
    (∀ key part, Json.entry? entries key = some part → key ∈ ["every", "some", "none"]) →
    (∀ key part, Json.entry? entries key = some part → holds target part) →
    About model holds (.object entries) field
  /-- Conditions on the one related record, met or not met; `null` if it may be missing. -/
  | compared {field : Field} {relation : Relation} {target : Entity} {entries : List (String × Json)} :
    field.relation? = some relation → model.entity? relation.target = some target → field.multiplicity ≠ .list →
    (∀ key part, Json.entry? entries key = some part → key ∈ ["is", "isNot"]) →
    (∀ key part, Json.entry? entries key = some part → ¬(field.multiplicity = .nullable ∧ part = .null) →
      holds target part) → About model holds (.object entries) field
  /-- A condition on the one related record. -/
  | related {field : Field} {relation : Relation} {target : Entity} {part : Json} :
    field.relation? = some relation → model.entity? relation.target = some target → field.multiplicity ≠ .list →
    holds target part → About model holds part field
  /-- The related record is missing. -/
  | missing {field : Field} {relation : Relation} : field.relation? = some relation →
    field.multiplicity = .nullable → About model holds .null field

/-- An entry of a condition on an entity, by the given fields of the entity. -/
inductive Clause (model : DataModel) (fields : Entity → List Field)
    (holds : Entity → Json → Prop) : String → Json → Entity → Prop
  /-- Several conditions joined, as alternatives or negated. -/
  | several {key : String} {items : List Json} {entity : Entity} : key ∈ ["AND", "OR", "NOT"] →
    (∀ item ∈ items, holds entity item) → Clause model fields holds key (.array items) entity
  /-- One condition, required or negated. -/
  | single {key : String} {part : Json} {entity : Entity} : key ∈ ["AND", "NOT"] →
    holds entity part → Clause model fields holds key part entity
  | field {field : Field} {part : Json} {entity : Entity} : field ∈ fields entity →
    About model holds part field → Clause model fields holds field.name part entity

/-- The value is a condition on records of the entity: an object of clauses. -/
inductive Where (model : DataModel) (fields : Entity → List Field) : Entity → Json → Prop
  | object {entity : Entity} {entries : List (String × Json)} :
    (∀ key part, Json.entry? entries key = some part →
      Clause model fields (Where model fields) key part entity) →
    Where model fields entity (.object entries)

section
variable {model : DataModel} {fields : Entity → List Field}
  {holds others : Entity → Json → Prop} {entity : Entity} {key : String} {part : Json}

theorem where_iff {value : Json} : Where model fields entity value ↔ ∃ entries, value = .object entries ∧
    ∀ key part, Json.entry? entries key = some part →
      Clause model fields (Where model fields) key part entity := by
  constructor
  · intro h
    cases h with
    | object hentries => exact ⟨_, rfl, hentries⟩
  · rintro ⟨entries, rfl, hentries⟩
    exact .object hentries

section
variable {field : Field}

theorem about_value_iff (hr : field.relation? = none) :
    About model holds part field ↔ model.Compares field part := by
  constructor
  · intro h
    cases h with
    | value _ hpart => exact hpart
    | members hr' | compared hr' | related hr' | missing hr' =>
      rw [hr] at hr'
      cases hr'
  · exact .value hr

variable {relation : Relation} (hr : field.relation? = some relation) {target : Entity}
  (ht : model.entity? relation.target = some target)
include hr ht

theorem about_list_iff (hlist : field.multiplicity = .list) : About model holds part field ↔
    ∃ entries, part = .object entries ∧
      (∀ key rest, Json.entry? entries key = some rest → key ∈ ["every", "some", "none"]) ∧
      ∀ key rest, Json.entry? entries key = some rest → holds target rest := by
  constructor
  · intro h
    cases h with
    | value hnone =>
      rw [hr] at hnone
      cases hnone
    | members hr' ht' _ hkeys hentries =>
      obtain rfl := Option.some.inj (hr.symm.trans hr')
      obtain rfl := Option.some.inj (ht.symm.trans ht')
      exact ⟨_, rfl, hkeys, hentries⟩
    | compared _ _ hne | related _ _ hne => exact absurd hlist hne
    | missing _ hnull =>
      rw [hlist] at hnull
      cases hnull
  · rintro ⟨entries, rfl, hkeys, hentries⟩
    exact .members hr ht hlist hkeys hentries

theorem about_single_iff (hlist : field.multiplicity ≠ .list) : About model holds part field ↔
    (∃ entries, part = .object entries ∧ (∀ key rest, Json.entry? entries key = some rest → key ∈ ["is", "isNot"]) ∧
      ∀ key rest, Json.entry? entries key = some rest → ¬(field.multiplicity = .nullable ∧ rest = .null) →
        holds target rest) ∨
    holds target part ∨ field.multiplicity = .nullable ∧ part = .null := by
  constructor
  · intro h
    cases h with
    | value hnone =>
      rw [hr] at hnone
      cases hnone
    | members _ _ heq => exact absurd heq hlist
    | compared hr' ht' _ hkeys hentries =>
      obtain rfl := Option.some.inj (hr.symm.trans hr')
      obtain rfl := Option.some.inj (ht.symm.trans ht')
      exact Or.inl ⟨_, rfl, hkeys, hentries⟩
    | related hr' ht' _ hone =>
      obtain rfl := Option.some.inj (hr.symm.trans hr')
      obtain rfl := Option.some.inj (ht.symm.trans ht')
      exact Or.inr (Or.inl hone)
    | missing _ hnull => exact Or.inr (Or.inr ⟨hnull, rfl⟩)
  · rintro (⟨entries, rfl, hkeys, hentries⟩ | hone | ⟨hnull, rfl⟩)
    · exact .compared hr ht hlist hkeys hentries
    · exact .related hr ht hlist hone
    · exact .missing hr hnull

end

theorem where_nil : Where model fields entity (.object []) :=
  .object fun _ _ hpart => absurd (Json.mem_of_entry_eq_some hpart) List.not_mem_nil

theorem where_singleton (h : Clause model fields (Where model fields) key part entity) :
    Where model fields entity (.object [(key, part)]) := by
  refine .object fun other rest hrest => ?_
  obtain ⟨rfl, rfl⟩ : other = key ∧ rest = part := by simpa using Json.mem_of_entry_eq_some hrest
  exact h

/-- What is said of a field asks only of parts whether they are conditions, and of conditions on a target. -/
theorem About.mono {field : Field} (hparts : ∀ relation target, field.relation? = some relation →
      model.entity? relation.target = some target → ∀ rest, sizeOf rest ≤ sizeOf part →
        holds target rest → others target rest) (h : About model holds part field) :
    About model others part field := by
  cases h with
  | value hr hpart => exact .value hr hpart
  | members hr ht hlist hkeys hentries =>
    refine .members hr ht hlist hkeys fun key rest hrest => hparts _ _ hr ht rest ?_ (hentries key rest hrest)
    have hlt := Json.sizeOf_entry?_lt hrest
    rw [Json.object.sizeOf_spec]
    omega
  | compared hr ht hlist hkeys hentries =>
    refine .compared hr ht hlist hkeys fun key rest hrest hnull =>
      hparts _ _ hr ht rest ?_ (hentries key rest hrest hnull)
    have hlt := Json.sizeOf_entry?_lt hrest
    rw [Json.object.sizeOf_spec]
    omega
  | related hr ht hlist hone => exact .related hr ht hlist (hparts _ _ hr ht part (Nat.le_refl _) hone)
  | missing hr hnull => exact .missing hr hnull

theorem Clause.mono (hself : ∀ rest, sizeOf rest ≤ sizeOf part → holds entity rest → others entity rest)
    (hparts : ∀ field ∈ fields entity, ∀ relation target, field.relation? = some relation →
      model.entity? relation.target = some target → ∀ rest, sizeOf rest ≤ sizeOf part →
        holds target rest → others target rest)
    (h : Clause model fields holds key part entity) :
    Clause model fields others key part entity := by
  cases h with
  | several hkey hitems =>
    refine .several hkey fun item hi => hself item ?_ (hitems item hi)
    have hlt := List.sizeOf_lt_of_mem hi
    rw [Json.array.sizeOf_spec]
    omega
  | single hkey hone => exact .single hkey (hself part (Nat.le_refl _) hone)
  | field hf habout => exact .field hf (habout.mono (hparts _ hf))

/-- Among entities that no relation field leads out of, nothing but `Where` is made of clauses about itself: it
all depends on smaller parts in the end. -/
theorem holds_iff_where (holds : Entity → Json → Prop) (scope : Entity → Prop)
    (hclosed : ∀ entity, scope entity → ∀ field ∈ fields entity, ∀ relation target,
      field.relation? = some relation → model.entity? relation.target = some target → scope target)
    (hunfold : ∀ entity, scope entity → ∀ value, holds entity value ↔
      ∃ entries, value = .object entries ∧ ∀ key part, Json.entry? entries key = some part →
        Clause model fields holds key part entity) {entity : Entity} (he : scope entity) (value : Json) :
    holds entity value ↔ Where model fields entity value := by
  rw [hunfold entity he, where_iff]
  refine exists_congr fun entries => and_congr_right fun hvalue => ?_
  -- Whatever a clause is about, it asks for conditions on values that are smaller than the whole.
  have hparts : ∀ {key part}, Json.entry? entries key = some part → ∀ target, scope target → ∀ rest,
      sizeOf rest ≤ sizeOf part → (holds target rest ↔ Where model fields target rest) := by
    intro key part hpart target ht rest hsize
    have hlt := Json.sizeOf_entry?_lt hpart
    have hsmaller : sizeOf rest < sizeOf value := by
      rw [hvalue, Json.object.sizeOf_spec]
      omega
    exact holds_iff_where holds scope hclosed hunfold ht rest
  refine forall₂_congr fun key part => forall_congr' fun hpart => ⟨fun h => ?_, fun h => ?_⟩
  · refine h.mono (fun rest hsize => (hparts hpart entity he rest hsize).mp) ?_
    intro field hf relation target hr ht rest hsize
    exact (hparts hpart target (hclosed entity he field hf relation target hr ht) rest hsize).mp
  · refine h.mono (fun rest hsize => (hparts hpart entity he rest hsize).mpr) ?_
    intro field hf relation target hr ht rest hsize
    exact (hparts hpart target (hclosed entity he field hf relation target hr ht) rest hsize).mpr
termination_by sizeOf value

end

end Condition

/-! ### Conditions as schemas -/

namespace Condition
variable {name : String} {fields : List Field} {schema? : Field → Option Schema}

theorem acceptsAbsent_of_mem (habsent : ∀ field schema, schema? field = some schema → schema.acceptsAbsent = true) :
    ∀ p ∈ connectives name ++ Entity.propertiesOf fields schema?, p.2.acceptsAbsent = true := by
  intro p hp
  rcases List.mem_append.mp hp with hp | hp
  · simp only [connectives, List.mem_cons, List.not_mem_nil, or_false] at hp
    rcases hp with rfl | rfl | rfl <;> rfl
  · obtain ⟨field, -, hs, -⟩ := Entity.mem_propertiesOf.mp hp
    exact habsent field p.2 hs

end Condition

namespace Document
variable {d : Document} (hd : d.Guarded)
include hd

/-- The joining properties of a condition accept several conditions or, but for alternatives, a single one. -/
theorem Guarded.accepts_connectives {name key : String} {part : Json} :
    (∃ schema, (key, schema) ∈ Condition.connectives name ∧ d.Accepts schema part) ↔
      (key ∈ ["AND", "OR", "NOT"] ∧ ∃ items, part = .array items ∧ ∀ item ∈ items, d.Accepts (.ref name) item) ∨
        key ∈ ["AND", "NOT"] ∧ d.Accepts (.ref name) part := by
  have hor : d.Accepts (Schema.ref name).array.optional part ↔
      ∃ items, part = .array items ∧ ∀ item ∈ items, d.Accepts (.ref name) item := by
    rw [accepts_optional, accepts_array]
  have hand : d.Accepts (Schema.oneOrMany (.ref name)).optional part ↔
      (∃ items, part = .array items ∧ ∀ item ∈ items, d.Accepts (.ref name) item) ∨ d.Accepts (.ref name) part := by
    rw [accepts_optional, hd.accepts_oneOrMany]
  constructor
  · rintro ⟨schema, hmem, haccepted⟩
    simp only [Condition.connectives, List.mem_cons, List.not_mem_nil, or_false, Prod.mk.injEq] at hmem
    rcases hmem with ⟨rfl, rfl⟩ | ⟨rfl, rfl⟩ | ⟨rfl, rfl⟩
    · exact (hand.mp haccepted).imp (⟨by simp, ·⟩) (⟨by simp, ·⟩)
    · exact Or.inl ⟨by simp, hor.mp haccepted⟩
    · exact (hand.mp haccepted).imp (⟨by simp, ·⟩) (⟨by simp, ·⟩)
  · rintro (⟨hkey, hitems⟩ | ⟨hkey, hone⟩)
    · simp only [List.mem_cons, List.not_mem_nil, or_false] at hkey
      rcases hkey with rfl | rfl | rfl
      · exact ⟨_, by simp [Condition.connectives], hand.mpr (Or.inl hitems)⟩
      · exact ⟨_, by simp [Condition.connectives], hor.mpr hitems⟩
      · exact ⟨_, by simp [Condition.connectives], hand.mpr (Or.inl hitems)⟩
    · simp only [List.mem_cons, List.not_mem_nil, or_false] at hkey
      rcases hkey with rfl | rfl
      · exact ⟨_, by simp [Condition.connectives], hand.mpr (Or.inr hone)⟩
      · exact ⟨_, by simp [Condition.connectives], hand.mpr (Or.inr hone)⟩

/-- A condition that joins conditions of its own name accepts objects of clauses, if its properties for fields
accept what clauses say about them. -/
theorem Guarded.accepts_condition {model : DataModel} (fields : Entity → List Field)
    {suffix : String} (schema? : Field → Option Schema) {entity : Entity}
    (hfind : d.find? (Naming.ofEntity entity.name suffix) = some ⟨Naming.ofEntity entity.name suffix, .strictObject
      (Condition.connectives (Naming.ofEntity entity.name suffix) ++ Entity.propertiesOf (fields entity) schema?)⟩)
    (habsent : ∀ field schema, schema? field = some schema → schema.acceptsAbsent = true)
    (hnodup : ((fields entity).map (·.name)).Nodup)
    (hapart : ∀ field ∈ fields entity, field.name ∉ ["AND", "OR", "NOT"])
    (habout : ∀ field ∈ fields entity, ∀ part, (∃ schema, schema? field = some schema ∧ d.Accepts schema part) ↔
      Condition.About model (fun target => d.Accepts (.ref (Naming.ofEntity target.name suffix))) part field)
    (value : Json) : d.Accepts (.ref (Naming.ofEntity entity.name suffix)) value ↔
      ∃ entries, value = .object entries ∧ ∀ key part, Json.entry? entries key = some part →
        Condition.Clause model fields (fun target => d.Accepts (.ref (Naming.ofEntity target.name suffix)))
          key part entity := by
  rw [hd.accepts_ref_of_find? hfind, accepts_strictObject_of_optional (Condition.acceptsAbsent_of_mem habsent)
    (Condition.nodup_keys hnodup hapart)]
  -- Now both sides say something of each entry.
  refine exists_congr fun entries => and_congr_right fun _ => forall₂_congr fun key part => forall_congr' fun _ => ?_
  constructor
  · rintro ⟨schema, hmem, haccepted⟩
    rcases List.mem_append.mp hmem with hmem | hmem
    · rcases hd.accepts_connectives.mp ⟨schema, hmem, haccepted⟩ with ⟨hkey, items, rfl, hitems⟩ | ⟨hkey, hone⟩
      · exact .several hkey hitems
      · exact .single hkey hone
    · obtain ⟨field, hf, hs, rfl⟩ := Entity.mem_propertiesOf.mp hmem
      exact .field hf ((habout field hf part).mp ⟨schema, hs, haccepted⟩)
  · intro hclause
    cases hclause with
    | several hkey hitems =>
      obtain ⟨schema, hmem, haccepted⟩ := hd.accepts_connectives.mpr (Or.inl ⟨hkey, _, rfl, hitems⟩)
      exact ⟨schema, List.mem_append_left _ hmem, haccepted⟩
    | single hkey hone =>
      obtain ⟨schema, hmem, haccepted⟩ := hd.accepts_connectives.mpr (Or.inr ⟨hkey, hone⟩)
      exact ⟨schema, List.mem_append_left _ hmem, haccepted⟩
    | @field field _ _ hf hpart =>
      obtain ⟨schema, hs, haccepted⟩ := (habout field hf part).mpr hpart
      exact ⟨schema, List.mem_append_right _ (Entity.mem_propertiesOf.mpr ⟨field, hf, hs, rfl⟩), haccepted⟩

end Document

namespace Document
variable {d : Document} {value : Json}

theorem accepts_orNull {nullable : Bool} {schema : Schema} :
    d.Accepts (Filter.orNull nullable schema) value ↔ (¬(nullable = true ∧ value = .null) → d.Accepts schema value) := by
  unfold Filter.orNull
  cases nullable with
  | true => simp [accepts_optional, accepts_nullable]
  | false => simp [accepts_optional]

/-- Properties that are all conditions on one entity accept objects of such conditions. -/
theorem accepts_quantified {entity : Entity} {keys : List String} (hkeys : keys.Nodup) {nullable : Bool} :
    d.Accepts (entity.quantified keys nullable) value ↔ ∃ entries, value = .object entries ∧
      (∀ key rest, Json.entry? entries key = some rest → key ∈ keys) ∧
      ∀ key rest, Json.entry? entries key = some rest → ¬(nullable = true ∧ rest = .null) →
        d.Accepts (.ref (Naming.ofEntity entity.name "WhereInput")) rest := by
  have hnodup : ((keys.map fun key => (key, Filter.orNull nullable
      (.ref (Naming.ofEntity entity.name "WhereInput")))).map (·.1)).Nodup := by
    rw [List.map_map]
    show (keys.map id).Nodup
    rwa [List.map_id]
  have hoptional : ∀ p ∈ keys.map fun key => (key, Filter.orNull nullable
      (.ref (Naming.ofEntity entity.name "WhereInput"))), p.2.acceptsAbsent = true := by
    intro p hp
    obtain ⟨key, -, rfl⟩ := List.mem_map.mp hp
    cases nullable <;> rfl
  rw [Entity.quantified, accepts_strictObject_of_optional hoptional hnodup]
  refine exists_congr fun entries => and_congr_right fun _ => ⟨fun h => ⟨fun key rest hrest => ?_, ?_⟩, ?_⟩
  · obtain ⟨schema, hmem, -⟩ := h key rest hrest
    obtain ⟨other, hother, heq⟩ := List.mem_map.mp hmem
    cases heq
    exact hother
  · intro key rest hrest
    obtain ⟨schema, hmem, haccepted⟩ := h key rest hrest
    obtain ⟨other, -, heq⟩ := List.mem_map.mp hmem
    cases heq
    exact accepts_orNull.mp haccepted
  · rintro ⟨hmem, hrests⟩ key rest hrest
    exact ⟨_, List.mem_map.mpr ⟨key, hmem key rest hrest, rfl⟩, accepts_orNull.mpr (hrests key rest hrest)⟩

end Document

namespace DataModel
variable {model : DataModel}

/-- The filters of an entity that relation fields lead to are declared as they were built. -/
theorem DropsNothing.find?_relationFilter (hd : model.DropsNothing) {entity : Entity} (he : entity ∈ model.entities)
    {x : Declaration} (hx : x ∈ entity.relationFilters (model.targetUsage entity.name)) :
    model.document.find? x.name = some x :=
  hd.find?_input (mem_inputs_of_entity he (by simp [entityInputs, queryDeclarations, hx]))

/-- A condition on a relation field accepts what is said about the field. -/
theorem DropsNothing.accepts_onRelation (hd : model.DropsNothing) {field : Field}
    (hf : field ∈ model.allFields) {relation : Relation} (hr : field.relation? = some relation) {target : Entity}
    (ht : model.entity? relation.target = some target) (part : Json) :
    model.document.Accepts (Condition.onRelation field relation.target) part ↔ Condition.About model
      (fun target => model.document.Accepts (.ref (Naming.ofEntity target.name "WhereInput"))) part field := by
  have hguarded : model.document.Guarded := guarded_document model
  obtain ⟨hmem, hname⟩ := mem_of_entity? ht
  have husage := has_targetUsage_of_mem hf hr
  rw [← hname] at husage ⊢
  unfold Condition.onRelation
  cases hm : field.multiplicity with
  | list =>
    rw [hm, Usage.has] at husage
    have hfind := hd.find?_relationFilter hmem (x := ⟨Naming.ofEntity target.name "ListRelationFilter",
      target.quantified ["every", "some", "none"] false⟩) (by simp [Entity.relationFilters, husage])
    rw [Condition.about_list_iff hr ht hm, Document.accepts_optional, hguarded.accepts_ref_of_find? hfind,
      Document.accepts_quantified (by decide)]
    simp
  | required =>
    rw [hm, Usage.has] at husage
    have hfind := hd.find?_relationFilter hmem (x := ⟨Naming.ofEntity target.name "RelationFilter",
      target.quantified ["is", "isNot"] false⟩) (by simp [Entity.relationFilters, husage])
    rw [Condition.about_single_iff hr ht (by simp [hm]), Document.accepts_optional, hguarded.accepts_union]
    simp [hguarded.accepts_ref_of_find? hfind, Document.accepts_quantified, hm]
  | nullable =>
    rw [hm, Usage.has] at husage
    have hfind := hd.find?_relationFilter hmem (x := ⟨Naming.ofEntity target.name "NullableRelationFilter",
      target.quantified ["is", "isNot"] true⟩) (by simp [Entity.relationFilters, husage])
    have hnull : model.document.Accepts (.leaf .null) part ↔ part = .null := by
      rw [Document.accepts_leaf]
      cases part <;> simp [Leaf.admits]
    rw [Condition.about_single_iff hr ht (by simp [hm]), Document.accepts_optional, hguarded.accepts_union]
    simp [hguarded.accepts_ref_of_find? hfind, Document.accepts_quantified, hm, hnull, or_assoc, or_comm]

/-- A condition on a field accepts what is said about the field. -/
theorem DropsNothing.accepts_onField? (hd : model.DropsNothing) (hm : model.Resolved) (hapart : model.NamedApart)
    {field : Field} (hf : field ∈ model.allFields) (part : Json) :
    (∃ schema, Condition.onField? field = some schema ∧ model.document.Accepts schema part) ↔
      Condition.About model
        (fun target => model.document.Accepts (.ref (Naming.ofEntity target.name "WhereInput"))) part field := by
  cases hr : field.relation? with
  | none =>
    rw [Condition.about_value_iff hr]
    simp only [Condition.onField?, hr, Compares]
  | some relation =>
    obtain ⟨target, hmem, hname⟩ := hm.exists_target hf hr
    have ht : model.entity? relation.target = some target := hname ▸ hapart.entity?_eq hmem
    rw [← hd.accepts_onRelation hf hr ht]
    simp only [Condition.onField?, hr, Option.some.injEq, exists_eq_left']

theorem acceptsAbsent_onValue? {field : Field} {schema : Schema} (h : Condition.onValue? field = some schema) :
    schema.acceptsAbsent = true := by
  obtain ⟨value, -, rfl⟩ := Option.map_eq_some_iff.mp h
  cases Condition.filterName? field with
  | none => rfl
  | some name => cases field.multiplicity <;> rfl

theorem acceptsAbsent_onField? {field : Field} {schema : Schema} (h : Condition.onField? field = some schema) :
    schema.acceptsAbsent = true := by
  unfold Condition.onField? at h
  split at h
  · cases h
    unfold Condition.onRelation
    cases field.multiplicity <;> rfl
  · exact acceptsAbsent_onValue? h

section
variable (hv : model.validate = .ok ()) (hd : model.DropsNothing)
  (hfields : ∀ entity ∈ model.entities, ∀ field ∈ entity.fields, field.name ∉ ["AND", "OR", "NOT"])
include hv hd hfields

theorem accepts_whereInput_iff {entity : Entity} (he : entity ∈ model.entities) (value : Json) :
    model.document.Accepts (.ref (Naming.ofEntity entity.name "WhereInput")) value ↔
      Condition.Where model Entity.fields entity value := by
  have hm : model.Resolved := resolved_of_validate hv
  have hapart : model.NamedApart := namedApart_of_validate hv
  refine Condition.holds_iff_where
    (fun target => model.document.Accepts (.ref (Naming.ofEntity target.name "WhereInput")))
    (· ∈ model.entities) (fun _ _ _ _ _ _ _ ht => (mem_of_entity? ht).1) (fun entity he => ?_) he value
  have hinput : entity.whereInput ∈ model.entityInputs entity := by simp [entityInputs, queryDeclarations]
  have hfind : model.document.find? entity.whereInput.name = some entity.whereInput :=
    hd.find?_input (mem_inputs_of_entity he hinput)
  exact (guarded_document model).accepts_condition Entity.fields Condition.onField? hfind
    (fun _ _ => acceptsAbsent_onField?) (hapart.fields entity he) (hfields entity he)
    fun field hf part => hd.accepts_onField? hm hapart (mem_allFields_of_mem he hf) part

omit hd in
theorem accepts_scalarWhere_iff {entity : Entity} (he : entity ∈ model.entities) {suffix : String}
    (hdeclared : entity.scalarWhere suffix ∈ model.document.declarations) (value : Json) :
    model.document.Accepts (.ref (Naming.ofEntity entity.name suffix)) value ↔
      Condition.Where model Entity.valueFields entity value := by
  have hapart : model.NamedApart := namedApart_of_validate hv
  have hnone : ∀ field ∈ entity.valueFields, field.relation? = none := fun field hf => by
    simpa [Field.isRelation] using (List.mem_filter.mp hf).2
  -- Value fields lead to no entity, so the entity itself is the whole scope.
  refine Condition.holds_iff_where
    (fun target => model.document.Accepts (.ref (Naming.ofEntity target.name suffix))) (· = entity) ?_ ?_ rfl value
  · rintro _ rfl field hf relation target hr
    rw [hnone field hf] at hr
    cases hr
  · rintro entity rfl value
    have hfind : model.document.find? (Naming.ofEntity entity.name suffix) = some (entity.scalarWhere suffix) :=
      Document.find?_of_mem (x := entity.scalarWhere suffix) (nodup_names_document model) hdeclared
    refine (guarded_document model).accepts_condition Entity.valueFields Condition.onValue? hfind
      (fun _ _ => acceptsAbsent_onValue?) ?_ ?_ ?_ value
    · exact (List.filter_sublist.map _).nodup (hapart.fields _ he)
    · exact fun field hf => hfields _ he field (Entity.mem_of_mem_valueFields hf)
    · exact fun field hf part => by rw [Condition.about_value_iff (hnone field hf), Compares]

/-- What the conditions on an entity accept. Those for queries go on to related records at any depth; those for
groups of records, and those for bulk updates if they are declared, do not. -/
theorem accepts_iff_where {entity : Entity} (he : entity ∈ model.entities) (value : Json) :
    ((∃ result, model.document.parse (Naming.ofEntity entity.name "WhereInput") value = .ok result) ↔
      Condition.Where model Entity.fields entity value) ∧
    ((∃ result, model.document.parse (Naming.ofEntity entity.name "ScalarWhereWithAggregatesInput") value = .ok result) ↔
      Condition.Where model Entity.valueFields entity value) ∧
    (entity.scalarWhere "ScalarWhereInput" ∈ model.document.declarations →
      ((∃ result, model.document.parse (Naming.ofEntity entity.name "ScalarWhereInput") value = .ok result) ↔
        Condition.Where model Entity.valueFields entity value)) := by
  refine ⟨accepts_whereInput_iff hv hd hfields he value, accepts_scalarWhere_iff hv hfields he ?_ value,
    fun hdeclared => accepts_scalarWhere_iff hv hfields he hdeclared value⟩
  have hinput : entity.groupWhere ∈ model.entityInputs entity := by simp [entityInputs, queryDeclarations]
  rw [hd.declarations_document]
  exact mem_built.mpr (Or.inl (mem_inputs_of_entity he hinput))

end

/-- Users with the key 1 that have a child below a user with a parent. -/
def familyCondition : Json :=
  .object [("AND", .array [.object [("id", .int 1)],
    .object [("children", .object [("some", .object [("parent", .object [("is", .object [])])])])]])]

theorem compares_id_user : users.Compares (.mk "id" (.scalar .int) true false false true false false) (.int 1) := by
  refine ⟨_, rfl, Document.accepts_optional.mpr ((guarded_document users).accepts_union.mpr ?_)⟩
  exact ⟨.leaf .int, List.mem_cons_of_mem _ List.mem_cons_self, Document.accepts_leaf.mpr rfl⟩

theorem where_familyCondition : Condition.Where users Entity.fields user familyCondition := by
  have huser : users.entity? "User" = some user := rfl
  have hparent : Condition.Where users Entity.fields user (.object [("parent", .object [("is", .object [])])]) := by
    have hfield : user.fields[2] ∈ user.fields := List.getElem_mem _
    refine Condition.where_singleton (.field hfield ?_)
    refine .compared rfl huser (by decide) (fun key rest hrest => ?_) fun key rest hrest _ => ?_
    all_goals obtain ⟨rfl, rfl⟩ : key = "is" ∧ rest = .object [] := by simpa using Json.mem_of_entry_eq_some hrest
    · decide
    · exact Condition.where_nil
  have hchildren : Condition.Where users Entity.fields user
      (.object [("children", .object [("some", .object [("parent", .object [("is", .object [])])])])]) := by
    have hfield : user.fields[3] ∈ user.fields := List.getElem_mem _
    refine Condition.where_singleton (.field hfield ?_)
    refine .members rfl huser rfl (fun key rest hrest => ?_) fun key rest hrest => ?_
    all_goals obtain ⟨rfl, rfl⟩ : key = "some" ∧ rest = _ := by simpa using Json.mem_of_entry_eq_some hrest
    · decide
    · exact hparent
  refine Condition.where_singleton (.several (by decide) fun item hi => ?_)
  simp only [List.mem_cons, List.not_mem_nil, or_false] at hi
  rcases hi with rfl | rfl
  · exact Condition.where_singleton (.field List.mem_cons_self (.value rfl compares_id_user))
  · exact hchildren

/-- The condition is accepted; one for bulk updates may ask for a key, and one for groups may not speak of
children. -/
theorem familyCondition_accepted : users.validate = .ok () ∧ users.DropsNothing ∧
    (∃ result, users.document.parse (Naming.ofEntity user.name "WhereInput") familyCondition = .ok result) ∧
    (∃ result, users.document.parse (Naming.ofEntity user.name "ScalarWhereInput") (.object [("id", .int 1)]) =
      .ok result) ∧
    ¬∃ result, users.document.parse (Naming.ofEntity user.name "ScalarWhereWithAggregatesInput")
      (.object [("children", .object [])]) = .ok result := by
  have hfields : ∀ entity ∈ users.entities, ∀ field ∈ entity.fields, field.name ∉ ["AND", "OR", "NOT"] := by decide
  have huser : user ∈ users.entities := List.mem_cons_self
  have hfield : user.fields[0] ∈ user.valueFields := List.mem_filter.mpr ⟨List.getElem_mem _, rfl⟩
  have hlist : (users.targetUsage user.name).list = true := by decide
  have hbulk : user.scalarWhere "ScalarWhereInput" ∈ users.document.declarations := by
    rw [dropsNothing_users.declarations_document]
    exact mem_built.mpr (Or.inl (mem_inputs_of_entity huser
      (by simp [entityInputs, queryDeclarations, Entity.bulkWhere, hlist])))
  obtain ⟨hwhere, -, -⟩ := accepts_iff_where validate_users dropsNothing_users hfields huser familyCondition
  obtain ⟨-, -, hrows⟩ := accepts_iff_where validate_users dropsNothing_users hfields huser (.object [("id", .int 1)])
  obtain ⟨-, hgroups, -⟩ :=
    accepts_iff_where validate_users dropsNothing_users hfields huser (.object [("children", .object [])])
  refine ⟨validate_users, dropsNothing_users, hwhere.mpr where_familyCondition, (hrows hbulk).mpr ?_, fun h => ?_⟩
  · exact Condition.where_singleton (.field hfield (.value rfl compares_id_user))
  · obtain ⟨entries, heq, hentries⟩ := Condition.where_iff.mp (hgroups.mp h)
    cases heq
    have hclause := hentries "children" (.object []) rfl
    have hvalues : "children" ∉ user.valueFields.map (·.name) := by decide
    have hjoins : "children" ∉ ["AND", "NOT"] := by decide
    generalize "children" = key at hclause hvalues hjoins
    cases hclause with
    | single hkey => exact hjoins hkey
    | field hf => exact hvalues (List.mem_map_of_mem hf)

end DataModel

end DataShapes
