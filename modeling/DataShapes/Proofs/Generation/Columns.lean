import DataShapes.Proofs.Acceptance.Conditions
import DataShapes.Proofs.Generation.Extension
import DataShapes.Proofs.Model.Constraints
import DataShapes.Proofs.Schema.Widening

/-! # Entities with further columns

An entity is given value fields that a new record may leave out. They do not take part in what is built on relations,
on identifiers or on uniqueness. Everything else that is built of the entity keeps its properties, and those of the
further fields may be left out, so it only gets wider. -/

namespace DataShapes

/-- The same name with a wider schema. -/
structure Declaration.Widens (d wider : Declaration) : Prop where
  name : wider.name = d.name
  schema : d.schema.Widens wider.schema

/-- Each declaration has a wider one. -/
def Declaration.Covered (ds wider : List Declaration) : Prop := ∀ d ∈ ds, ∃ x ∈ wider, d.Widens x

namespace Declaration
variable {d x : Declaration} {ds wider others widerOthers : List Declaration}

theorem Widens.refl (d : Declaration) : d.Widens d := ⟨rfl, .refl _⟩

namespace Covered

theorem of_subset (h : ∀ d ∈ ds, d ∈ wider) : Covered ds wider := fun d hd => ⟨d, h d hd, .refl d⟩

theorem refl (ds : List Declaration) : Covered ds ds := of_subset fun _ hd => hd

theorem cons (hd : d.Widens x) (h : Covered ds wider) : Covered (d :: ds) (x :: wider) := by
  refine List.forall_mem_cons.mpr ⟨⟨x, List.mem_cons_self, hd⟩, fun e he => ?_⟩
  obtain ⟨y, hy, hwidens⟩ := h e he
  exact ⟨y, List.mem_cons_of_mem _ hy, hwidens⟩

theorem append (h : Covered ds wider) (h' : Covered others widerOthers) :
    Covered (ds ++ others) (wider ++ widerOthers) := by
  refine List.forall_mem_append.mpr ⟨fun d hd => ?_, fun d hd => ?_⟩
  · obtain ⟨x, hx, hwidens⟩ := h d hd
    exact ⟨x, List.mem_append_left _ hx, hwidens⟩
  · obtain ⟨x, hx, hwidens⟩ := h' d hd
    exact ⟨x, List.mem_append_right _ hx, hwidens⟩

theorem ite {c c' : Prop} [Decidable c] [Decidable c'] (hc : c → c') (h : Covered ds wider) :
    Covered (if c then ds else []) (if c' then wider else []) := by
  split
  · next hc' => rwa [if_pos (hc hc')]
  · exact of_subset fun _ hd => absurd hd List.not_mem_nil

end Covered

end Declaration

namespace Entity

/-- Keys that the inputs of an entity have beside those of its fields. -/
def reservedKeys : List String := ["AND", "OR", "NOT", "_count", "_avg", "_sum", "_min", "_max", "_all"]

/-- Whether the key is that of a field or a reserved one. -/
def Knows (entity : Entity) (key : String) : Prop := key ∈ entity.fieldNames ∨ key ∈ reservedKeys

instance (entity : Entity) (key : String) : Decidable (entity.Knows key) := inferInstanceAs (Decidable (_ ∨ _))

/-- A value field that the entity does not have and that new records may leave out. -/
structure Admits (entity : Entity) (column : Field) : Prop where
  value : column.isRelation = false
  fresh : ¬ entity.Knows column.name
  omittable : column.isOmittable = true
  notId : column.isId = false
  notUnique : column.isUnique = false
  /-- The first number brings averages and sums, and groups are ordered by these and by value fields at once. -/
  totals : entity.hasNumericFields = false → column.isNumeric = true →
    ∀ field ∈ entity.valueFields, field.name ∉ ["_avg", "_sum"]

/-- The second entity is the first one with further fields here and there. -/
structure Widens (entity wider : Entity) : Prop where
  name : wider.name = entity.name
  primaryKey : wider.primaryKey = entity.primaryKey
  compoundUniques : wider.compoundUniques = entity.compoundUniques
  kept : wider.fields.filter (entity.fields.contains ·) = entity.fields
  added : ∀ field ∈ wider.fields, field ∉ entity.fields → entity.Admits field

/-- Some fields with further ones that the entity admits. -/
structure AddsFields (entity : Entity) (fields wider : List Field) : Prop where
  kept : ∀ field ∈ fields, field ∈ wider
  added : ∀ field ∈ wider, field ∈ fields ∨ entity.Admits field

section
variable {entity wider : Entity} {fields more : List Field}

/-- Fields that all have a schema all have a property. -/
theorem map_eq_propertiesOf (fields : List Field) (schema : Field → Schema) :
    (fields.map fun field => (field.name, schema field)) = propertiesOf fields fun field => some (schema field) := by
  simp [propertiesOf, List.filterMap_eq_map']

namespace AddsFields

theorem filter (h : entity.AddsFields fields more) (p q : Field → Bool) (hpq : ∀ field ∈ fields, q field = p field) :
    entity.AddsFields (fields.filter p) (more.filter q) where
  kept field hf := by
    obtain ⟨hmem, hp⟩ := List.mem_filter.mp hf
    exact List.mem_filter.mpr ⟨h.kept field hmem, (hpq field hmem).trans hp⟩
  added field hf := by
    obtain ⟨hmem, hq⟩ := List.mem_filter.mp hf
    rcases h.added field hmem with hin | hadmits
    · exact Or.inl (List.mem_filter.mpr ⟨hin, (hpq field hin).symm.trans hq⟩)
    · exact Or.inr hadmits

theorem propertiesOf (h : entity.AddsFields fields more) {schema? other? : Field → Option Schema}
    (hsame : ∀ field ∈ fields, other? field = schema? field)
    (habsent : ∀ field, entity.Admits field → ∀ schema, other? field = some schema → schema.acceptsAbsent = true) :
    Schema.Adds (fun key => ¬ entity.Knows key) (propertiesOf fields schema?) (propertiesOf more other?) where
  kept p hp := by
    obtain ⟨field, hf, hs⟩ := List.mem_filterMap.mp hp
    exact List.mem_filterMap.mpr ⟨field, h.kept field hf, by rw [hsame field hf, hs]⟩
  added p hp := by
    obtain ⟨field, hf, hs⟩ := List.mem_filterMap.mp hp
    rcases h.added field hf with hin | hadmits
    · exact Or.inl (List.mem_filterMap.mpr ⟨field, hin, by rw [← hsame field hin, hs]⟩)
    · obtain ⟨schema, hschema, rfl⟩ := Option.map_eq_some_iff.mp hs
      exact Or.inr ⟨hadmits.fresh, habsent field hadmits schema hschema⟩

theorem map (h : entity.AddsFields fields more) {schema : Field → Schema}
    (habsent : ∀ field, (schema field).acceptsAbsent = true) :
    Schema.Adds (fun key => ¬ entity.Knows key) (fields.map fun field => (field.name, schema field))
      (more.map fun field => (field.name, schema field)) := by
  rw [map_eq_propertiesOf, map_eq_propertiesOf]
  refine h.propertiesOf (fun _ _ => rfl) fun field _ _ hs => ?_
  rw [← Option.some.inj hs]
  exact habsent field

end AddsFields

/-- A column that is admitted may stand anywhere among the fields. -/
theorem Admits.widens {column : Field} (h : entity.Admits column) {others : List Field}
    (hf : entity.fields = fields ++ others) :
    entity.Widens { entity with fields := fields ++ column :: others } where
  name := rfl
  primaryKey := rfl
  compoundUniques := rfl
  kept := by
    have hcolumn : column ∉ entity.fields := fun hin => h.fresh (Or.inl (List.mem_map_of_mem hin))
    have hkept : ∀ part : List Field, (∀ field ∈ part, field ∈ entity.fields) →
        part.filter (entity.fields.contains ·) = part := fun part hpart =>
      List.filter_eq_self.mpr fun field hin => by simpa using hpart field hin
    rw [List.filter_append, List.filter_cons_of_neg (by simpa using hcolumn),
      hkept fields fun field hin => hf ▸ List.mem_append_left _ hin,
      hkept others fun field hin => hf ▸ List.mem_append_right _ hin, hf]
  added field hin hnew := by
    rcases List.mem_append.mp hin with hin | hin
    · exact absurd (hf ▸ List.mem_append_left _ hin) hnew
    · rcases List.mem_cons.mp hin with rfl | hin
      · exact h
      · exact absurd (hf ▸ List.mem_append_right _ hin) hnew

theorem Widens.refl (entity : Entity) : entity.Widens entity where
  name := rfl
  primaryKey := rfl
  compoundUniques := rfl
  kept := List.filter_eq_self.mpr fun field hf => by simpa using hf
  added _ hf hnew := absurd hf hnew

namespace Widens
variable (h : entity.Widens wider)
include h

theorem addsFields : entity.AddsFields entity.fields wider.fields where
  kept _ hf := List.mem_of_mem_filter (h.kept ▸ hf)
  added field hf := (em (field ∈ entity.fields)).imp_right (h.added field hf)

/-- Among the fields of a kind that further fields are not of, there are no others. -/
theorem filter_eq {p : Field → Bool} (hp : ∀ field, entity.Admits field → p field = false) :
    wider.fields.filter p = entity.fields.filter p := by
  -- What the entity keeps is a filter of the wider one, which a field of the kind passes anyway.
  rw [← h.kept, List.filter_filter]
  refine List.filter_congr fun field hf => ?_
  by_cases hin : field ∈ entity.fields
  · simp [hin]
  · simp [hp field (h.added field hf hin)]

theorem relationFields : wider.relationFields = entity.relationFields :=
  h.filter_eq fun _ hadmits => hadmits.value

theorem field?_eq {name : String} (hn : name ∈ entity.fieldNames) : wider.field? name = entity.field? name := by
  rw [field?, field?, ← List.head?_filter, ← List.head?_filter, h.filter_eq fun field hadmits => ?_]
  refine beq_eq_false_iff_ne.mpr fun heq => hadmits.fresh (Or.inl ?_)
  rw [heq]
  exact hn

theorem uniqueConstraints : wider.uniqueConstraints = entity.uniqueConstraints := by
  have hid : wider.fields.filter (·.isId) = entity.fields.filter (·.isId) :=
    h.filter_eq fun _ hadmits => hadmits.notId
  have hunique : wider.fields.filter (fun f => f.isUnique && !f.isId) =
      entity.fields.filter fun f => f.isUnique && !f.isId :=
    h.filter_eq fun _ hadmits => by rw [hadmits.notUnique, Bool.false_and]
  simp only [Entity.uniqueConstraints, h.primaryKey, h.compoundUniques, hid, hunique]

theorem isStorageKey (name : String) : wider.isStorageKey name = entity.isStorageKey name := by
  simp only [Entity.isStorageKey, storageKeys, h.relationFields]

theorem valueFields : entity.AddsFields entity.valueFields wider.valueFields :=
  h.addsFields.filter _ _ fun _ _ => rfl

theorem numericFields : entity.AddsFields entity.numericFields wider.numericFields :=
  h.addsFields.filter _ _ fun _ _ => rfl

theorem comparableFields : entity.AddsFields entity.comparableFields wider.comparableFields :=
  h.valueFields.filter _ _ fun _ _ => rfl

end Widens

/-! ### Objects with a property for each field -/

theorem widens_object {properties others : List (String × Schema)}
    (hadds : Schema.Adds (fun key => ¬ entity.Knows key) properties others)
    (hknown : ∀ p ∈ properties, entity.Knows p.1) :
    (Schema.strictObject properties).Widens (.strictObject others) :=
  .object hadds fun p hp hnew => hnew (hknown p hp)

theorem knows_of_mem_propertiesOf (hfields : ∀ field ∈ fields, field ∈ entity.fields)
    {schema? : Field → Option Schema} : ∀ p ∈ propertiesOf fields schema?, entity.Knows p.1 := by
  intro p hp
  obtain ⟨field, hf, hs⟩ := List.mem_filterMap.mp hp
  obtain ⟨schema, -, rfl⟩ := Option.map_eq_some_iff.mp hs
  exact Or.inl (List.mem_map_of_mem (hfields field hf))

theorem knows_of_mem_map (hfields : ∀ field ∈ fields, field ∈ entity.fields) {schema : Field → Schema} :
    ∀ p ∈ fields.map fun field => (field.name, schema field), entity.Knows p.1 := by
  rw [map_eq_propertiesOf]
  exact knows_of_mem_propertiesOf hfields

/-! ### Queries -/

theorem acceptsAbsent_byValue (field : Field) : (Ordering.byValue field).acceptsAbsent = true := by
  unfold Ordering.byValue
  split <;> rfl

theorem acceptsAbsent_byField (field : Field) : (Ordering.byField field).acceptsAbsent = true := by
  unfold Ordering.byField
  split
  · exact acceptsAbsent_byValue field
  · rfl

theorem knows_connectives {name : String} : ∀ p ∈ Condition.connectives name, entity.Knows p.1 := by
  simp [Condition.connectives, Knows, reservedKeys]

namespace Widens
variable (h : entity.Widens wider)
include h

theorem fieldNamesDeclaration : entity.fieldNamesDeclaration.Widens wider.fieldNamesDeclaration where
  name := by simp only [Entity.fieldNamesDeclaration, h.name]
  schema := by
    refine .enumeration fun name hn => ?_
    obtain ⟨field, hf, rfl⟩ := List.mem_map.mp hn
    exact List.mem_map_of_mem (h.valueFields.kept field hf)

theorem whereInput : entity.whereInput.Widens wider.whereInput where
  name := by simp only [Entity.whereInput, h.name]
  schema := by
    simp only [Entity.whereInput, h.name]
    refine widens_object ((Schema.Adds.refl _ _).append (h.addsFields.propertiesOf (fun _ _ => rfl) ?_))
      (List.forall_mem_append.mpr ⟨knows_connectives, knows_of_mem_propertiesOf fun _ hf => hf⟩)
    exact fun _ _ _ => DataModel.acceptsAbsent_onField?

theorem scalarWhere (suffix : String) : (entity.scalarWhere suffix).Widens (wider.scalarWhere suffix) where
  name := by simp only [Entity.scalarWhere, h.name]
  schema := by
    simp only [Entity.scalarWhere, h.name]
    refine widens_object ((Schema.Adds.refl _ _).append (h.valueFields.propertiesOf (fun _ _ => rfl) ?_))
      (List.forall_mem_append.mpr ⟨knows_connectives, knows_of_mem_propertiesOf fun _ => List.mem_of_mem_filter⟩)
    exact fun _ _ _ => DataModel.acceptsAbsent_onValue?

theorem orderBy : entity.orderBy.Widens wider.orderBy where
  name := by simp only [Entity.orderBy, h.name]
  schema := widens_object (h.addsFields.map acceptsAbsent_byField) (knows_of_mem_map fun _ hf => hf)

theorem relationChoices :
    Schema.Adds (fun key => ¬ entity.Knows key) entity.relationChoices wider.relationChoices := by
  simp only [Entity.relationChoices, ownsListRelation, h.relationFields, h.name]
  refine (h.addsFields.propertiesOf (fun _ _ => rfl) fun field hadmits schema hs => ?_).append (.refl _ _)
  obtain ⟨relation, -, rfl⟩ := Option.map_eq_some_iff.mp hs
  rfl

omit h in
theorem knows_relationChoices : ∀ p ∈ entity.relationChoices, entity.Knows p.1 := by
  refine List.forall_mem_append.mpr ⟨knows_of_mem_propertiesOf fun _ hf => hf, ?_⟩
  split <;> simp [Knows, reservedKeys]

theorem fieldSelection : entity.fieldSelection.Widens wider.fieldSelection where
  name := by simp only [Entity.fieldSelection, h.name]
  schema := widens_object ((h.valueFields.map fun _ => rfl).append h.relationChoices)
    (List.forall_mem_append.mpr ⟨knows_of_mem_map fun _ => List.mem_of_mem_filter, knows_relationChoices⟩)

theorem relationSelection : Declaration.Covered entity.relationSelection wider.relationSelection := by
  simp only [Entity.relationSelection, hasRelations, h.relationFields, h.name]
  exact .ite id (.cons ⟨rfl, widens_object h.relationChoices knows_relationChoices⟩ (.refl []))

theorem selection : wider.selection = entity.selection := by
  have hrelations : wider.hasRelations = entity.hasRelations := by rw [hasRelations, hasRelations, h.relationFields]
  rw [Entity.selection, Entity.selection, hrelations, h.name]

/-! ### Lookups -/

theorem lookup (hkeys : ∀ key ∈ entity.compoundKeys, ∀ name ∈ key.fields, name ∈ entity.fieldNames) :
    wider.lookup = entity.lookup := by
  have hvalue : ∀ c ∈ entity.uniqueConstraints, ∀ name ∈ c.fields, wider.valueOf name = entity.valueOf name := by
    intro c hc name hn
    have hname : name ∈ entity.fieldNames := by
      rcases Entity.mem_uniqueConstraints hc with ⟨key, hk, rfl⟩ | ⟨field, hf, rfl⟩
      · exact hkeys key hk name hn
      · rw [List.mem_singleton.mp hn]
        exact List.mem_map_of_mem hf
    rw [valueOf, valueOf, h.field?_eq hname]
  have hlookup : ∀ c ∈ entity.uniqueConstraints, wider.lookupBy c = entity.lookupBy c := by
    intro c hc
    have hall : c.fields.map (fun name => (name, wider.valueOf name)) =
        c.fields.map fun name => (name, entity.valueOf name) :=
      List.map_congr_left fun name hn => by rw [hvalue c hc name hn]
    have hhead : c.fields.head?.map wider.valueOf = c.fields.head?.map entity.valueOf := by
      cases hc' : c.fields with
      | nil => rfl
      | cons name names => exact congrArg some (hvalue c hc name (hc' ▸ List.mem_cons_self))
    rw [lookupBy, lookupBy, constraintValue, constraintValue, hall, hhead]
  unfold Entity.lookup
  rw [h.uniqueConstraints]
  cases hconstraints : entity.uniqueConstraints with
  | nil => rfl
  | cons c others =>
    rw [hconstraints] at hlookup
    cases others with
    | nil => exact hlookup c List.mem_cons_self
    | cons c' others => exact congrArg Schema.union (List.map_congr_left hlookup)

theorem whereUnique (hkeys : ∀ key ∈ entity.compoundKeys, ∀ name ∈ key.fields, name ∈ entity.fieldNames) :
    wider.whereUnique = entity.whereUnique := by
  rw [Entity.whereUnique, Entity.whereUnique, h.name, h.lookup hkeys]

/-! ### Totals -/

theorem hasNumericFields (hn : entity.hasNumericFields = true) : wider.hasNumericFields = true := by
  obtain ⟨field, hf⟩ := List.exists_mem_of_ne_nil entity.numericFields (by simpa [Entity.hasNumericFields] using hn)
  simpa [Entity.hasNumericFields] using List.ne_nil_of_mem (h.numericFields.kept field hf)

end Widens

/-- Whether the key is that of a total, and the wider entity the first one to have numbers. -/
def NewTotal (entity wider : Entity) (key : String) : Prop :=
  entity.hasNumericFields = false ∧ wider.hasNumericFields = true ∧ key ∈ ["_avg", "_sum"]

theorem not_newTotal {properties : List (String × Schema)} (hkeys : ∀ p ∈ properties, p.1 ∉ ["_avg", "_sum"]) :
    ∀ p ∈ properties, ¬ NewTotal entity wider p.1 :=
  fun p hp hnew => hkeys p hp hnew.2.2

theorem not_newTotal_of_numeric {properties : List (String × Schema)} :
    ∀ p ∈ (if entity.hasNumericFields then properties else []), ¬ NewTotal entity wider p.1 := by
  intro p hp hnew
  rw [if_neg (by rw [hnew.1]; exact Bool.false_ne_true)] at hp
  cases hp

namespace Widens
variable (h : entity.Widens wider)
include h

theorem not_newTotal_of_valueField {schema : Field → Schema} :
    ∀ p ∈ entity.valueFields.map fun field => (field.name, schema field), ¬ NewTotal entity wider p.1 := by
  rintro p hp ⟨hnone, hsome, hkey⟩
  obtain ⟨field, hf, rfl⟩ := List.mem_map.mp hp
  obtain ⟨number, hnumber⟩ :=
    List.exists_mem_of_ne_nil wider.numericFields (by simpa [Entity.hasNumericFields] using hsome)
  rcases h.numericFields.added number hnumber with hin | hadmits
  · have hempty : entity.numericFields = [] := by simpa [Entity.hasNumericFields] using hnone
    rw [hempty] at hin
    cases hin
  · exact hadmits.totals hnone (List.mem_filter.mp hnumber).2 field hf hkey

theorem adds_totals {properties : List (String × Schema)}
    (htotals : ∀ p ∈ properties, p.1 ∈ ["_avg", "_sum"] ∧ p.2.acceptsAbsent = true) :
    Schema.Adds (NewTotal entity wider) (if entity.hasNumericFields then properties else [])
      (if wider.hasNumericFields then properties else []) := by
  cases hn : entity.hasNumericFields with
  | true =>
    rw [h.hasNumericFields hn]
    exact .refl _ _
  | false =>
    cases hw : wider.hasNumericFields with
    | false => exact .refl _ _
    | true => exact ⟨by simp, fun p hp => Or.inr ⟨⟨hn, hw, (htotals p hp).1⟩, (htotals p hp).2⟩⟩

theorem aggregateChoices :
    Schema.Adds (NewTotal entity wider) entity.aggregateChoices wider.aggregateChoices := by
  simp only [Entity.aggregateChoices, aggregateName, h.name]
  exact ((Schema.Adds.refl _ _).append (h.adds_totals (by simp [Schema.acceptsAbsent]))).append (.refl _ _)

omit h in
theorem not_newTotal_aggregateChoices : ∀ p ∈ entity.aggregateChoices, ¬ NewTotal entity wider p.1 := by
  refine List.forall_mem_append.mpr ⟨List.forall_mem_append.mpr ⟨?_, not_newTotal_of_numeric⟩, ?_⟩
  · exact not_newTotal (by simp)
  · exact not_newTotal (by simp)

/-- Only the arguments with aggregates get wider. -/
theorem operationArguments : Declaration.Covered entity.operationArguments wider.operationArguments := by
  have hchoices {shared : List (String × Schema)} (hshared : ∀ p ∈ shared, p.1 ∉ ["_avg", "_sum"]) :
      (Schema.strictObject (shared ++ entity.aggregateChoices)).Widens
        (.strictObject (shared ++ wider.aggregateChoices)) :=
    .object ((Schema.Adds.refl _ _).append h.aggregateChoices)
      (List.forall_mem_append.mpr ⟨not_newTotal hshared, not_newTotal_aggregateChoices⟩)
  have hwindow : wider.window = entity.window := by simp only [window, matching, role, h.name]
  simp only [Entity.operationArguments, operations, distinctWindow, hwindow, found, matching, changedRecord, newRecord,
    either, role, h.selection, h.name, List.map_cons, List.map_nil]
  iterate 12 refine .cons (.refl _) ?_
  exact .cons ⟨rfl, hchoices (by simp [window, matching, page])⟩ (.cons ⟨rfl, hchoices (by simp [page])⟩ (.refl []))

omit h in
theorem widens_perField {schema : Schema} (habsent : schema.acceptsAbsent = true)
    (hadds : entity.AddsFields fields more) (hfields : ∀ field ∈ fields, field ∈ entity.fields) :
    (Schema.strictObject (fields.map fun field => (field.name, schema))).Widens
      (.strictObject (more.map fun field => (field.name, schema))) :=
  widens_object (hadds.map fun _ => habsent) (knows_of_mem_map hfields)

theorem aggregateInputs : Declaration.Covered entity.aggregateInputs wider.aggregateInputs := by
  have hcount : (Schema.strictObject (Aggregate.marks entity.valueFields ++ [("_all", Aggregate.mark)])).Widens
      (.strictObject (Aggregate.marks wider.valueFields ++ [("_all", Aggregate.mark)])) :=
    widens_object ((h.valueFields.map fun _ => rfl).append (.refl _ _)) (List.forall_mem_append.mpr
      ⟨knows_of_mem_map fun _ => List.mem_of_mem_filter, by simp [Knows, reservedKeys]⟩)
  have hnumeric : (Schema.strictObject (Aggregate.marks entity.numericFields)).Widens
      (.strictObject (Aggregate.marks wider.numericFields)) :=
    widens_perField rfl h.numericFields fun _ => List.mem_of_mem_filter
  have hcomparable : (Schema.strictObject (Aggregate.marks entity.comparableFields)).Widens
      (.strictObject (Aggregate.marks wider.comparableFields)) :=
    widens_perField rfl h.comparableFields fun _ hf => List.mem_of_mem_filter (List.mem_of_mem_filter hf)
  simp only [Entity.aggregateInputs, aggregates, aggregateName, h.name, List.map_append, List.map_cons, List.map_nil,
    apply_ite (List.map _)]
  exact .append (.append (.append (.cons ⟨rfl, hcount⟩ (.refl []))
    (.ite h.hasNumericFields (.cons ⟨rfl, hnumeric⟩ (.refl []))))
    (.ite h.hasNumericFields (.cons ⟨rfl, hnumeric⟩ (.refl []))))
    (.cons ⟨rfl, hcomparable⟩ (.cons ⟨rfl, hcomparable⟩ (.refl [])))

theorem orderByAggregates : Declaration.Covered entity.orderByAggregates wider.orderByAggregates := by
  have hcount : (Ordering.perField entity.valueFields).Widens (Ordering.perField wider.valueFields) :=
    widens_perField rfl h.valueFields fun _ => List.mem_of_mem_filter
  have hnumeric : (Ordering.perField entity.numericFields).Widens (Ordering.perField wider.numericFields) :=
    widens_perField rfl h.numericFields fun _ => List.mem_of_mem_filter
  have hcomparable : (Ordering.perField entity.comparableFields).Widens (Ordering.perField wider.comparableFields) :=
    widens_perField rfl h.comparableFields fun _ hf => List.mem_of_mem_filter (List.mem_of_mem_filter hf)
  simp only [Entity.orderByAggregates, orderedAggregates, orderByAggregateName, h.name, List.map_append, List.map_cons,
    List.map_nil, apply_ite (List.map _)]
  exact .append (.append (.append (.cons ⟨rfl, hcount⟩ (.refl []))
    (.ite h.hasNumericFields (.cons ⟨rfl, hnumeric⟩ (.refl []))))
    (.cons ⟨rfl, hcomparable⟩ (.cons ⟨rfl, hcomparable⟩ (.refl []))))
    (.ite h.hasNumericFields (.cons ⟨rfl, hnumeric⟩ (.refl [])))

/-- Groups are ordered by value fields and by aggregates, and the keys of both stay apart. -/
theorem orderGroupsBy : entity.orderGroupsBy.Widens wider.orderGroupsBy where
  name := by simp only [Entity.orderGroupsBy, h.name]
  schema := by
    let new (key : String) : Prop := ¬ entity.Knows key ∨ NewTotal entity wider key
    have hfields : Schema.Adds new (entity.valueFields.map fun field => (field.name, Ordering.byValue field))
        (wider.valueFields.map fun field => (field.name, Ordering.byValue field)) :=
      (h.valueFields.map acceptsAbsent_byValue).mono fun _ => Or.inl
    have htotals {key aggregate : String} (hkey : key ∈ ["_avg", "_sum"]) : Schema.Adds new
        (if entity.hasNumericFields then [(key, (Schema.ref aggregate).optional)] else [])
        (if wider.hasNumericFields then [(key, (Schema.ref aggregate).optional)] else []) :=
      (h.adds_totals (List.forall_mem_singleton.mpr ⟨hkey, rfl⟩)).mono fun _ => Or.inr
    simp only [Entity.orderGroupsBy, orderedAggregates, orderByAggregateName, h.name, List.map_append, List.map_cons,
      List.map_nil, apply_ite (List.map _)]
    refine .object (.append hfields (.append (.append (.append (.refl _ _) (htotals (by simp))) (.refl _ _))
      (htotals (by simp)))) ?_
    simp only [List.forall_mem_append]
    have hnumeric {key : String} {schema : Schema} (hkey : key ∈ reservedKeys) :
        ∀ p ∈ (if entity.hasNumericFields then [(key, schema)] else []), ¬ new p.1 := by
      intro p hp
      refine not_or.mpr ⟨not_not.mpr (Or.inr ?_), not_newTotal_of_numeric p hp⟩
      split at hp
      · rwa [List.mem_singleton.mp hp]
      · cases hp
    refine ⟨fun p hp => not_or.mpr ⟨not_not.mpr ?_, h.not_newTotal_of_valueField p hp⟩, ⟨⟨?_, hnumeric ?_⟩, ?_⟩,
      hnumeric ?_⟩
    · exact knows_of_mem_map (fun _ => List.mem_of_mem_filter) p hp
    all_goals simp [new, Knows, NewTotal, reservedKeys]

end Widens

end

end Entity

end DataShapes
