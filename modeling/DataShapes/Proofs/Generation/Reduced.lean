import Mathlib.Data.List.Pairwise
import Mathlib.Logic.Relation
import DataShapes.Proofs.Generation.Apart
import DataShapes.Proofs.Generation.Unaltered
import DataShapes.Proofs.Schema.Calls

/-! # What nested writes lead to

From the nested writes of a relation field one comes, reference by reference, to shared inputs, enumerations,
lookups, conditions, bulk updates and nested writes: this set is closed. Names of full payloads are not in it, for
no two declarations of a document have one name. Of what is in it only payloads that leave a relation out go on
to nested writes of further relations. -/

namespace DataShapes

/-! ### Names in a row of declarations -/

theorem name_ne_of_nodup_append {xs ys : List Declaration} (h : ((xs ++ ys).map (·.name)).Nodup) {x y : Declaration}
    (hx : x ∈ xs) (hy : y ∈ ys) : x.name ≠ y.name := by
  rw [List.map_append] at h
  exact (List.nodup_append.mp h).2.2 x.name (List.mem_map_of_mem hx) y.name (List.mem_map_of_mem hy)

/-- Of distinct names each tells the element to which its declaration belongs. -/
theorem eq_of_nodup_flatMap {α : Type} {xs : List α} {f : α → List Declaration}
    (h : ((xs.flatMap f).map (·.name)).Nodup) {x y : α} (hx : x ∈ xs) (hy : y ∈ xs) {a b : Declaration}
    (ha : a ∈ f x) (hb : b ∈ f y) (hn : a.name = b.name) : x = y := by
  rw [List.map_flatMap] at h
  by_contra hne
  obtain ⟨-, hpairs⟩ := List.nodup_flatMap.mp h
  have hsymm : Std.Symm (Function.onFun List.Disjoint fun z => (f z).map (·.name)) :=
    ⟨fun _ _ h _ hb ha => h ha hb⟩
  have hdisjoint := hpairs.forall hx hy hne
  exact hdisjoint (List.mem_map_of_mem ha) (hn ▸ List.mem_map_of_mem hb)

namespace DataModel
variable {model : DataModel}

/-- Lookups and conditions of an entity. -/
def conditionInputs (model : DataModel) (entity : Entity) : List Declaration :=
  [entity.whereInput, entity.whereUnique] ++ entity.relationFilters (model.targetUsage entity.name) ++
    entity.bulkWhere (model.targetUsage entity.name)

theorem map_name_conditionInputs (model : DataModel) (entity : Entity) :
    (model.conditionInputs entity).map (·.name) =
      (Entity.conditionSuffixes (model.targetUsage entity.name)).map (Naming.ofEntity entity.name) := by
  simp only [conditionInputs, Entity.conditionSuffixes, Entity.whereInput, Entity.whereUnique,
    Entity.relationFilters, Entity.bulkWhere, Entity.scalarWhere, List.map_append, List.map_cons, List.map_nil,
    map_ite_nil]

/-! ### The declarations in order -/

/-- What is built before the payloads of entities. -/
def beforePayloads (model : DataModel) : List Declaration :=
  Primitives.declarations model ++ model.recordDeclarations ++ model.querySection (Graph.ofModel model) ++
    Operation.declarations model

/-- The payloads of all entities. -/
def payloads (model : DataModel) : List Declaration :=
  model.entities.flatMap fun entity =>
    entity.createInputs (Graph.ofModel model) ++ entity.updateInputs (Graph.ofModel model)

/-- The nested writes of all relation fields. -/
def writes (model : DataModel) : List Declaration :=
  model.entities.flatMap fun owner => owner.relationFields.flatMap ((Graph.ofModel model).nestedWrites owner)

theorem built_eq :
    model.built = model.beforePayloads ++ (model.payloads ++ (model.writes ++ model.argumentSection)) := by
  simp only [built, sections, beforePayloads, payloads, writes, payloadSection, List.flatMap_cons, List.flatMap_nil,
    List.append_nil, List.append_assoc]

theorem mem_beforePayloads_of_shared {d : Declaration} (hd : d ∈ model.sharedInputs) :
    d ∈ model.beforePayloads := by
  simp only [sharedInputs, List.mem_append] at hd
  simp only [beforePayloads, querySection, Filter.declarations, Operation.declarations, List.mem_append]
  rcases hd with (hd | hd) | hd <;> simp only [hd, true_or, or_true]

theorem mem_beforePayloads_of_enumeration {enumeration : Enumeration} (he : enumeration ∈ model.enumerations)
    {d : Declaration} (hd : d ∈ model.enumerationInputs enumeration) : d ∈ model.beforePayloads := by
  simp only [enumerationInputs, List.mem_cons, List.mem_append] at hd
  simp only [beforePayloads, recordDeclarations, querySection, Filter.declarations, Operation.declarations,
    List.mem_append, List.mem_flatMap, List.mem_map]
  rcases hd with rfl | hd | hd
  · exact Or.inl (Or.inl (Or.inr (Or.inl ⟨enumeration, he, rfl⟩)))
  · exact Or.inl (Or.inr (Or.inl (Or.inr ⟨enumeration, he, hd⟩)))
  · exact Or.inr (Or.inr ⟨enumeration, he, hd⟩)

theorem mem_queryDeclarations_of_condition {entity : Entity} {d : Declaration}
    (hd : d ∈ model.conditionInputs entity) : d ∈ model.queryDeclarations (Graph.ofModel model) entity := by
  simp only [conditionInputs, List.mem_append] at hd
  simp only [queryDeclarations, List.mem_append]
  rcases hd with (hd | hd) | hd <;> simp only [hd, true_or, or_true]

theorem mem_beforePayloads_of_condition {entity : Entity} (he : entity ∈ model.entities) {d : Declaration}
    (hd : d ∈ model.conditionInputs entity) : d ∈ model.beforePayloads := by
  have hsection : d ∈ model.querySection (Graph.ofModel model) :=
    List.mem_append_right _ (List.mem_flatMap.mpr ⟨entity, he, mem_queryDeclarations_of_condition hd⟩)
  exact List.mem_append_left _ (List.mem_append_right _ hsection)

theorem mem_writes {owner : Entity} (ho : owner ∈ model.entities) {field : Field}
    (hf : field ∈ owner.relationFields) {d : Declaration}
    (hd : d ∈ (Graph.ofModel model).nestedWrites owner field) : d ∈ model.writes :=
  List.mem_flatMap.mpr ⟨owner, ho, List.mem_flatMap.mpr ⟨field, hf, hd⟩⟩

/-! ### A closed set -/

/-- A declaration to which nested writes lead: any that values and conditions rely on, a bulk update, or a nested
write; `entries` tells whether it may be one through which payloads write relations. -/
inductive Led (model : DataModel) (entries : Bool) (d : Declaration) : Prop
  | shared : d ∈ model.sharedInputs → Led model entries d
  | enumeration (enumeration : Enumeration) : enumeration ∈ model.enumerations →
    d ∈ model.enumerationInputs enumeration → Led model entries d
  | condition (entity : Entity) : entity ∈ model.entities → d ∈ model.conditionInputs entity →
    Led model entries d
  | bulkUpdate (entity : Entity) : entity ∈ model.entities →
    d = ⟨Naming.ofEntity entity.name "UpdateManyMutationInput",
      .strictObject (Payload.bulkProperties .update .checked entity none)⟩ → Led model entries d
  | write (owner : Entity) (field : Field) (edge : Edge) (role : NestedRole) : owner ∈ model.entities →
    field ∈ owner.relationFields → (Graph.ofModel model).edge? owner field = some edge →
    d ∈ (Graph.ofModel model).nestedWrites owner field → role ∈ NestedRole.all field (!edge.reverse.isList) →
    d.name = role.name (.ofEdge edge) → entries = true ∨ role ∉ NestedRole.entries → Led model entries d

/-- The names of such declarations. -/
def LedNames (model : DataModel) (entries : Bool) (name : String) : Prop := ∃ d, model.Led entries d ∧ d.name = name

section
variable {entries : Bool} {d : Declaration}

theorem Led.mono (h : model.Led false d) : model.Led true d := by
  cases h with
  | shared hd => exact .shared hd
  | enumeration e he hd => exact .enumeration e he hd
  | condition e he hd => exact .condition e he hd
  | bulkUpdate e he hd => exact .bulkUpdate e he hd
  | write owner field edge role ho hf hedge hd hrole hn =>
    exact .write owner field edge role ho hf hedge hd hrole hn (Or.inl rfl)

theorem Led.mem_inputs (h : model.Led entries d) : d ∈ model.inputs := by
  cases h with
  | shared hd => exact mem_inputs_of_shared hd
  | enumeration e he hd => exact mem_inputs_of_enumeration he hd
  | condition e he hd =>
    have hquery := mem_queryDeclarations_of_condition hd
    refine mem_inputs_of_entity he ?_
    simp only [entityInputs, List.mem_cons, List.mem_append, hquery, true_or, or_true]
  | bulkUpdate e he hd =>
    subst hd
    exact mem_inputs_of_entity he (by simp [entityInputs, Entity.updateInputs])
  | write owner field edge role ho hf hedge hd => exact mem_inputs_of_field ho hf hd

theorem led_of_mem_nestedWrites {owner : Entity} (ho : owner ∈ model.entities) {field : Field}
    (hf : field ∈ owner.relationFields) (hd : d ∈ (Graph.ofModel model).nestedWrites owner field) :
    model.Led true d := by
  obtain ⟨edge, hedge, -⟩ := Graph.mem_nestedWrites.mp hd
  have hn : d.name ∈ (NestedRole.all field (!edge.reverse.isList)).map (·.name (.ofEdge edge)) := by
    rw [← Graph.map_name_nestedWrites hedge]
    exact List.mem_map_of_mem hd
  obtain ⟨role, hrole, hn⟩ := List.mem_map.mp hn
  exact .write owner field edge role ho hf hedge hd hrole hn.symm (Or.inl rfl)

/-- Each role of a relation field is taken by a nested write. -/
theorem exists_nestedWrite {owner : Entity} {field : Field} {edge : Edge}
    (hedge : (Graph.ofModel model).edge? owner field = some edge) {role : NestedRole}
    (hrole : role ∈ NestedRole.all field (!edge.reverse.isList)) :
    ∃ x ∈ (Graph.ofModel model).nestedWrites owner field, x.name = role.name (.ofEdge edge) := by
  have hn : role.name (.ofEdge edge) ∈ ((Graph.ofModel model).nestedWrites owner field).map (·.name) := by
    rw [Graph.map_name_nestedWrites hedge]
    exact List.mem_map_of_mem hrole
  exact List.mem_map.mp hn

theorem ledNames_role {owner : Entity} (ho : owner ∈ model.entities) {field : Field}
    (hf : field ∈ owner.relationFields) {edge : Edge} (hedge : (Graph.ofModel model).edge? owner field = some edge)
    {role : NestedRole} (hrole : role ∈ NestedRole.all field (!edge.reverse.isList))
    (hentry : entries = true ∨ role ∉ NestedRole.entries) : model.LedNames entries (role.name (.ofEdge edge)) := by
  obtain ⟨x, hx, hn⟩ := exists_nestedWrite hedge hrole
  exact ⟨x, .write owner field edge role ho hf hedge hx hrole hn hentry, hn⟩

/-! ### What it refers to -/

theorem supplies_ledNames : model.Supplies (model.LedNames entries) where
  shared d hd := ⟨d, .shared hd, rfl⟩
  enumerations e he d hd := ⟨d, .enumeration e he hd, rfl⟩
  conditions e he suffix hs := by
    have hn : Naming.ofEntity e.name suffix ∈ (model.conditionInputs e).map (·.name) := by
      rw [map_name_conditionInputs]
      exact List.mem_map_of_mem hs
    obtain ⟨x, hx, hn⟩ := List.mem_map.mp hn
    exact ⟨x, .condition e he hx, hn⟩

theorem suppliesNested_ledNames : model.SuppliesNested (model.LedNames true) := by
  intro entity he field hf edge hedge purpose form before after hrole
  exact ledNames_role he hf hedge (NestedRole.mem_all_of_nestedRole? hrole) (Or.inl rfl)

/-- Payloads apart, what nested writes lead to refers to nothing through which payloads write relations. -/
theorem Led.within (hm : model.Resolved) (h : model.Led true d) :
    (∃ owner ∈ model.entities, ∃ field ∈ owner.relationFields, ∃ edge,
      (Graph.ofModel model).edge? owner field = some edge ∧
        ∃ purpose, d ∈ (NestedNames.ofEdge edge).payload (Graph.ofModel model) purpose edge) ∨
      d.schema.Within (model.LedNames false) := by
  have hs : model.Supplies (model.LedNames false) := supplies_ledNames
  cases h with
  | shared hd => exact Or.inr (hs.within_of_mem_shared hd)
  | enumeration e he hd => exact Or.inr (hs.within_of_mem_enumerationInputs he hd)
  | condition e he hd =>
    simp only [conditionInputs, List.mem_append, List.mem_cons, List.not_mem_nil, or_false] at hd
    rcases hd with ((rfl | rfl) | hd) | hd
    · exact Or.inr (hs.within_whereInput hm he)
    · exact Or.inr (hs.within_lookup hm he)
    · exact Or.inr (hs.within_relationFilters he hd)
    · exact Or.inr (hs.within_bulkWhere hm he hd)
  | bulkUpdate e he hd =>
    subst hd
    exact Or.inr (hs.within_bulkProperties he hm .update .checked none)
  | write owner field edge role ho hf hedge hd =>
    -- Nested writes but payloads refer to those of the same field in other roles.
    have ht : edge.target ∈ model.entities := Graph.target_mem_of_edge? hedge
    have havailable : (NestedNames.ofEdge edge).Available (model.LedNames false) field (!edge.reverse.isList) :=
      hs.available ho hf hedge (fun role hrole hentry => ledNames_role ho hf hedge hrole (Or.inr hentry))
        ⟨_, .bulkUpdate edge.target ht rfl, rfl⟩
    refine (hs.within_of_mem_nestedWrites hm hedge havailable hd).imp_left ?_
    rintro ⟨purpose, hd⟩
    exact ⟨owner, ho, field, hf, edge, hedge, purpose, hd⟩

/-- So the set is closed. -/
theorem Led.ledNames_of_mem (hm : model.Resolved) (h : model.Led true d) {name : String}
    (hn : name ∈ d.schema.references) : model.LedNames true name := by
  rcases h.within hm with ⟨owner, ho, field, hf, edge, hedge, purpose, hd⟩ | hwithin
  · have ht : edge.target ∈ model.entities := Graph.target_mem_of_edge? hedge
    have hwithin : d.schema.Within (model.LedNames true) :=
      supplies_ledNames.within_of_mem_payload suppliesNested_ledNames hm ht hd
    exact hwithin.names_of_mem name hn
  · obtain ⟨x, hx, rfl⟩ := hwithin.names_of_mem name hn
    exact ⟨x, hx.mono, rfl⟩

theorem ledNames_of_reaches (hm : model.Resolved) (hd : model.DropsNothing) {name other : String}
    (hn : model.LedNames true name) (h : Relation.ReflTransGen model.document.Refers name other) :
    model.LedNames true other := by
  induction h with
  | refl => exact hn
  | tail _ hstep ih =>
    obtain ⟨x, hx, rfl⟩ := ih
    obtain ⟨y, hy, hmem⟩ := hstep
    rw [hd.find?_input hx.mem_inputs] at hy
    cases hy
    exact hx.ledNames_of_mem hm hmem

/-! ### What is not in it -/

theorem DropsNothing.nodup_names (hd : model.DropsNothing) : (model.built.map (·.name)).Nodup := by
  have h := nodup_names_document model
  rwa [Document.names, hd.declarations_document] at h

theorem DropsNothing.nodup_payloads_writes (hd : model.DropsNothing) :
    ((model.payloads ++ (model.writes ++ model.argumentSection)).map (·.name)).Nodup := by
  have h := hd.nodup_names
  rw [built_eq, List.map_append] at h
  exact h.of_append_right

theorem DropsNothing.nodup_payloads (hd : model.DropsNothing) : (model.payloads.map (·.name)).Nodup := by
  have h := hd.nodup_payloads_writes
  rw [List.map_append] at h
  exact h.of_append_left

theorem DropsNothing.nodup_writes (hd : model.DropsNothing) : (model.writes.map (·.name)).Nodup := by
  have h := hd.nodup_payloads_writes
  rw [List.map_append, List.map_append] at h
  exact h.of_append_right.of_append_left

theorem DropsNothing.before_ne (hd : model.DropsNothing) {x y : Declaration} (hx : x ∈ model.beforePayloads)
    (hy : y ∈ model.payloads ∨ y ∈ model.writes) : x.name ≠ y.name := by
  have h := hd.nodup_names
  rw [built_eq] at h
  refine name_ne_of_nodup_append h hx ?_
  rcases hy with hy | hy <;> simp only [List.mem_append, hy, true_or, or_true]

theorem DropsNothing.payload_ne_write (hd : model.DropsNothing) {x y : Declaration} (hx : x ∈ model.payloads)
    (hy : y ∈ model.writes) : x.name ≠ y.name :=
  name_ne_of_nodup_append hd.nodup_payloads_writes hx (List.mem_append_left _ hy)

/-- The suffixes of the payloads that write a record whole. -/
def fullSuffixes : List String := ["CreateInput", "UncheckedCreateInput", "UpdateInput", "UncheckedUpdateInput"]

theorem exists_payload {entity : Entity} {suffix : String} (hs : suffix ∈ fullSuffixes) :
    ∃ x ∈ entity.createInputs (Graph.ofModel model) ++ entity.updateInputs (Graph.ofModel model),
      x.name = Naming.ofEntity entity.name suffix := by
  have hpayload : suffix ∈ Entity.payloadSuffixes := by
    simp only [fullSuffixes, List.mem_cons, List.not_mem_nil, or_false] at hs
    rcases hs with rfl | rfl | rfl | rfl <;> decide
  have hn : Naming.ofEntity entity.name suffix ∈
      (entity.createInputs (Graph.ofModel model) ++ entity.updateInputs (Graph.ofModel model)).map (·.name) := by
    rw [Entity.map_name_payloads]
    exact List.mem_map_of_mem hpayload
  exact List.mem_map.mp hn

/-- Nested writes do not lead to full payloads. -/
theorem Led.name_ne_full (hd : model.DropsNothing) (h : model.Led entries d) {entity : Entity}
    (he : entity ∈ model.entities) {suffix : String} (hs : suffix ∈ fullSuffixes) :
    d.name ≠ Naming.ofEntity entity.name suffix := by
  obtain ⟨x, hx, hn⟩ := exists_payload hs
  have hpayload : x ∈ model.payloads := List.mem_flatMap.mpr ⟨entity, he, hx⟩
  rw [← hn]
  cases h with
  | shared hmem => exact hd.before_ne (mem_beforePayloads_of_shared hmem) (Or.inl hpayload)
  | enumeration e he hmem => exact hd.before_ne (mem_beforePayloads_of_enumeration he hmem) (Or.inl hpayload)
  | condition e he hmem => exact hd.before_ne (mem_beforePayloads_of_condition he hmem) (Or.inl hpayload)
  | bulkUpdate other ho hother =>
    intro heq
    have hmem : d ∈ other.createInputs (Graph.ofModel model) ++ other.updateInputs (Graph.ofModel model) := by
      simp [Entity.updateInputs, hother]
    obtain rfl := eq_of_nodup_flatMap hd.nodup_payloads ho he hmem hx heq
    rw [hn, hother] at heq
    have hsuffix : "UpdateManyMutationInput" = suffix := Naming.ofEntity_inj heq
    subst hsuffix
    simp [fullSuffixes] at hs
  | write owner field edge role ho hf hedge hmem =>
    exact (hd.payload_ne_write hpayload (mem_writes ho hf hmem)).symm

/-- The names under which payloads write relation fields. -/
def RelationWrite (model : DataModel) (name : String) : Prop :=
  ∃ owner ∈ model.entities, ∃ field ∈ owner.relationFields, ∃ edge,
    (Graph.ofModel model).edge? owner field = some edge ∧ ∃ purpose form before after,
      Payload.nestedRole? purpose form field.multiplicity = some (before, after) ∧
        name = (NestedNames.ofEdge edge).role before after

theorem mem_entries_of_nestedRole? {purpose : Purpose} {form : Form} {multiplicity : Multiplicity}
    {before after : String} (h : Payload.nestedRole? purpose form multiplicity = some (before, after)) :
    .record before after ∈ NestedRole.entries := by
  cases purpose <;> cases form <;> cases multiplicity <;> cases h <;> decide

/-- A nested write is told by its name: the record from inside which it is written, the relation and the role. -/
theorem DropsNothing.role_eq (hd : model.DropsNothing) {owner other : Entity} (ho : owner ∈ model.entities)
    (ho' : other ∈ model.entities) {field field' : Field} (hf : field ∈ owner.relationFields)
    (hf' : field' ∈ other.relationFields) {edge edge' : Edge}
    (hedge : (Graph.ofModel model).edge? owner field = some edge)
    (hedge' : (Graph.ofModel model).edge? other field' = some edge') {role role' : NestedRole}
    (hrole : role ∈ NestedRole.all field (!edge.reverse.isList))
    (hrole' : role' ∈ NestedRole.all field' (!edge'.reverse.isList))
    (hn : role.name (.ofEdge edge) = role'.name (.ofEdge edge')) : role = role' := by
  obtain ⟨x, hx, hxn⟩ := exists_nestedWrite hedge hrole
  obtain ⟨y, hy, hyn⟩ := exists_nestedWrite hedge' hrole'
  have heq : x.name = y.name := by rw [hxn, hyn, hn]
  -- No name is shared between owners, nor between fields of one, nor between roles of one far side.
  obtain rfl : owner = other := eq_of_nodup_flatMap hd.nodup_writes ho ho'
    (List.mem_flatMap.mpr ⟨field, hf, hx⟩) (List.mem_flatMap.mpr ⟨field', hf', hy⟩) heq
  have hnodup := hd.nodup_writes
  rw [writes, List.map_flatMap] at hnodup
  obtain ⟨howner, -⟩ := List.nodup_flatMap.mp hnodup
  obtain rfl : field = field' := eq_of_nodup_flatMap (howner owner ho) hf hf' hx hy heq
  rw [hedge] at hedge'
  cases hedge'
  exact NestedRole.name_inj (NestedRole.mem_possible hrole) (NestedRole.mem_possible hrole') hn

/-- What is led to without such names has none of them. -/
theorem Led.not_relationWrite (hd : model.DropsNothing) (h : model.Led false d) : ¬model.RelationWrite d.name := by
  rintro ⟨owner, ho, field, hf, edge, hedge, purpose, form, before, after, hentry, hn⟩
  have hrole : .record before after ∈ NestedRole.all field (!edge.reverse.isList) :=
    NestedRole.mem_all_of_nestedRole? hentry
  obtain ⟨y, hy, hyn⟩ := exists_nestedWrite hedge hrole
  have heq : d.name = y.name := hn.trans hyn.symm
  have hwrite : y ∈ model.writes := mem_writes ho hf hy
  cases h with
  | shared hmem => exact hd.before_ne (mem_beforePayloads_of_shared hmem) (Or.inr hwrite) heq
  | enumeration e he hmem => exact hd.before_ne (mem_beforePayloads_of_enumeration he hmem) (Or.inr hwrite) heq
  | condition e he hmem => exact hd.before_ne (mem_beforePayloads_of_condition he hmem) (Or.inr hwrite) heq
  | bulkUpdate other ho' hother =>
    have hpayload : d ∈ model.payloads := List.mem_flatMap.mpr ⟨other, ho', by simp [Entity.updateInputs, hother]⟩
    exact hd.payload_ne_write hpayload hwrite heq
  | write other field' edge' role ho' hf' hedge' hmem hrole' hrn hno =>
    have hsame : role = .record before after :=
      hd.role_eq ho' ho hf' hf hedge' hedge hrole' hrole (hrn.symm.trans hn)
    rcases hno with hno | hno
    · cases hno
    · exact hno (hsame ▸ mem_entries_of_nestedRole? hentry)

end

/-- Whatever nested writes lead to, reference by reference, is declared and is no full payload of an entity; and
where it writes relation fields, it is a payload that leaves a relation out. -/
theorem nestedWrites_lead (hv : model.validate = .ok ()) (hd : model.DropsNothing) {owner : Entity}
    (ho : owner ∈ model.entities) {field : Field} (hf : field ∈ owner.relationFields) {x : Declaration}
    (hx : x ∈ (Graph.ofModel model).nestedWrites owner field) {name : String}
    (h : Relation.ReflTransGen model.document.Refers x.name name) :
    (∀ entity ∈ model.entities, ∀ suffix ∈ fullSuffixes, name ≠ Naming.ofEntity entity.name suffix) ∧
      ∃ y, model.document.find? name = some y ∧ ∀ other ∈ y.schema.references, model.RelationWrite other →
        ∃ owner ∈ model.entities, ∃ field ∈ owner.relationFields, ∃ edge,
          (Graph.ofModel model).edge? owner field = some edge ∧
            ∃ purpose, y ∈ (NestedNames.ofEdge edge).payload (Graph.ofModel model) purpose edge := by
  have hm : model.Resolved := resolved_of_validate hv
  have hstart : model.LedNames true x.name := ⟨x, led_of_mem_nestedWrites ho hf hx, rfl⟩
  obtain ⟨y, hy, rfl⟩ := ledNames_of_reaches hm hd hstart h
  refine ⟨fun entity he suffix hs => hy.name_ne_full hd he hs, y, hd.find?_input hy.mem_inputs, ?_⟩
  intro other hother hwrite
  rcases hy.within hm with hpayload | hwithin
  · exact hpayload
  · obtain ⟨z, hz, rfl⟩ := hwithin.names_of_mem other hother
    exact absurd hwrite (hz.not_relationWrite hd)

/-- Children of a user are written through users without a parent; these are no full users, and have children
again. -/
theorem children_lead : ∃ x ∈ (Graph.ofModel users).nestedWrites user user.fields[3], ∃ y,
    users.document.Refers x.name y.name ∧ y.name ≠ Naming.ofEntity user.name "UncheckedCreateInput" ∧
      users.RelationWrite x.name ∧ x.name ∈ y.schema.references ∧
        ∃ edge purpose, y ∈ (NestedNames.ofEdge edge).payload (Graph.ofModel users) purpose edge := by
  have huser : user ∈ users.entities := List.mem_cons_self
  have hfield : user.fields[3] ∈ user.relationFields := by decide
  have hwrites : (Graph.ofModel users).nestedWrites user user.fields[3] =
      (Graph.ofModel users).writesTo user.fields[3] childrenEdge := by
    rw [Graph.nestedWrites, edge_children]
    rfl
  let x := (NestedNames.ofEdge childrenEdge).createMany "UncheckedCreateNestedMany" true
  let y : Declaration := ⟨(NestedNames.ofEdge childrenEdge).role "UncheckedCreate" "Input",
    .strictObject (Payload.properties (Graph.ofModel users) .create .unchecked user (some childrenEdge.reverse))⟩
  have hx : x ∈ (Graph.ofModel users).nestedWrites user user.fields[3] := by
    rw [hwrites]
    exact List.mem_append_left _ (List.mem_append_right _ (List.mem_cons_of_mem _ (List.mem_cons_of_mem _
      (List.mem_cons_of_mem _ List.mem_cons_self))))
  have hy : y ∈ (Graph.ofModel users).nestedWrites user user.fields[3] := by
    rw [hwrites]
    exact List.mem_append_left _ (List.mem_append_left _ (List.mem_append_left _
      (List.mem_cons_of_mem _ List.mem_cons_self)))
  have hrefers : users.document.Refers x.name y.name :=
    ⟨x, dropsNothing_users.find?_input (mem_inputs_of_field huser hfield hx), by decide +kernel⟩
  have hagain : x.name ∈ y.schema.references := by decide +kernel
  have hwrite : users.RelationWrite x.name :=
    ⟨user, huser, user.fields[3], hfield, childrenEdge, edge_children, .create, .unchecked, _, _, rfl, rfl⟩
  obtain ⟨hfull, z, hz, hpayload⟩ :=
    nestedWrites_lead validate_users dropsNothing_users huser hfield hx (.single hrefers)
  rw [dropsNothing_users.find?_input (mem_inputs_of_field huser hfield hy)] at hz
  cases hz
  obtain ⟨-, -, -, -, edge, -, hpayload⟩ := hpayload x.name hagain hwrite
  exact ⟨x, hx, y, hrefers, hfull user huser "UncheckedCreateInput" (by decide), hwrite, hagain, edge, hpayload⟩

end DataModel

end DataShapes
