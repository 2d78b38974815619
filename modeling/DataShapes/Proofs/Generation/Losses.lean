import DataShapes.Proofs.Generation.Clashes

/-! # What clashes lose

Each way in which names clash builds two different schemas under one name: they have different properties,
refer to names of different entities, or only one of them drops what it does not know. -/

namespace DataShapes

/-! ### Schemas that differ -/

namespace Payload

/-- A checked payload has a property for every other relation field with a far side. -/
theorem exists_mem_properties {graph : Graph} {entity : Entity} {field omitted : Field} {edge : Edge}
    (hf : field ∈ entity.relationFields) (hedge : graph.edge? entity field = some edge)
    (hn : omitted.name ≠ field.name) (purpose : Purpose) :
    ∃ schema, (field.name, schema) ∈ properties graph purpose .checked entity (some omitted) := by
  obtain ⟨hf, hrelation⟩ := List.mem_filter.mp hf
  have hrole : (nestedRole? purpose .checked field.multiplicity).isSome = true := by
    cases purpose <;> cases field.multiplicity <;> rfl
  have hnested : (nested? purpose .checked field edge).isSome = true := by
    rw [nested?, Option.isSome_map]
    exact hrole
  obtain ⟨schema, hs⟩ := Option.isSome_iff_exists.mp hnested
  refine ⟨schema, Entity.mem_propertiesOf.mpr ⟨field, hf, ?_, rfl⟩⟩
  simp [ofField?, hn, hrelation, hedge, hs]

theorem updatedSingle_ne_newRecords {value : Schema} {names : NestedNames} (hv : value ≠ names.newRecords)
    (operations : Option String) (nullable : Bool) :
    updatedSingle value operations nullable ≠ names.newRecords.optional := by
  intro h
  cases nullable with
  | true => simp [updatedSingle, Filter.orNull, NestedNames.newRecords] at h
  | false =>
    have h := Schema.optional.inj h
    cases operations with
    | some name => simp [NestedNames.newRecords] at h
    | none => exact hv h

/-- No update of a value field takes new records. -/
theorem updated?_ne_newRecords (field : Field) (names : NestedNames) :
    updated? field ≠ some names.newRecords.optional := by
  intro h
  simp only [updated?, Option.bind_eq_bind, Option.bind_eq_some_iff, Option.pure_def, Option.some.injEq] at h
  obtain ⟨single, hs, many, -, h⟩ := h
  split at h
  · simp [updatedList, NestedNames.newRecords] at h
  · refine updatedSingle_ne_newRecords (fun hv => ?_) _ _ h
    subst hv
    cases hk : field.kind with
    | scalar type => cases type <;> simp [Field.single?, hk, ScalarType.single, NestedNames.newRecords] at hs
    | enumeration => simp [Field.single?, hk, NestedNames.newRecords] at hs
    | relation => simp [Field.single?, hk] at hs

/-- A bulk update tells nothing of new records, a list of updates begins with them. -/
theorem bulkProperties_ne_updateMany {form : Form} {entity : Entity} {omitted : Option Field} {names : NestedNames}
    {before : String} {bulkAllowed : Bool} :
    .strictObject (bulkProperties .update form entity omitted) ≠ (names.updateMany before bulkAllowed).schema := by
  intro h
  have hcreate : ("create", names.newRecords.optional) ∈ bulkProperties .update form entity omitted := by
    rw [(Schema.object.inj h).1]
    simp
  obtain ⟨value, -, hs, -⟩ := Entity.mem_propertiesOf.mp hcreate
  exact updated?_ne_newRecords value _ hs

end Payload

/-- The lists of nested records of two far sides differ, for new records are named on their own. -/
theorem NestedNames.createMany_ne {names other : NestedNames}
    (h : names.role "Create" "Input" ≠ other.role "Create" "Input") (before before' : String)
    (bulkAllowed bulkAllowed' : Bool) :
    (names.createMany before bulkAllowed).schema ≠ (other.createMany before' bulkAllowed').schema := by
  intro heq
  simp only [createMany, Schema.strictObject, List.cons_append, List.nil_append, Schema.object.injEq,
    List.cons.injEq, Prod.mk.injEq, newRecords, roleRef, Schema.optional.injEq, Schema.union.injEq,
    Schema.array.injEq, Schema.ref.injEq] at heq
  exact h heq.1.1.2.1

namespace Filter

/-- Filters of enumerations for fields of different multiplicity differ. -/
theorem ofEnumeration_required_ne {value value' : Schema} {m : Multiplicity} (hm : m ≠ .required)
    (name name' : String) : ofEnumeration value .required name ≠ ofEnumeration value' m name' := by
  cases m with
  | required => exact absurd rfl hm
  | nullable => simp [ofEnumeration, Schema.strictObject, orNull]
  | list => simp [ofEnumeration, ofList, Schema.strictObject]

end Filter

/-! ### Declarations by their names -/

namespace Entity

theorem lookup_ne_enumeration (entity : Entity) (values : List String) : entity.lookup ≠ .enumeration values := by
  unfold lookup
  split <;> simp [lookupBy, Schema.strictObject]

theorem relationFilter_ne {m : Multiplicity} (hm : m ≠ .required) (entity other : Entity) :
    (entity.relationFilter m).schema ≠ (other.relationFilter .required).schema := by
  cases m with
  | required => exact absurd rfl hm
  | nullable => simp [relationFilter, quantified, Schema.strictObject, Filter.orNull]
  | list => simp [relationFilter, quantified, Schema.strictObject]

theorem ofEnumeration_ne_relationFilter {value : Schema} {name : String} (entity : Entity) (m : Multiplicity) :
    Filter.ofEnumeration value .required name ≠ (entity.relationFilter m).schema := by
  cases m <;> simp [Filter.ofEnumeration, relationFilter, quantified, Schema.strictObject]

/-- The arguments of an operation on an entity select of that entity or select nothing. -/
theorem operation_ne_singleArguments {entity other : Entity} (hname : entity.name ≠ other.name)
    {operation : String × List (String × Schema)} (h : operation ∈ entity.operations) :
    .strictObject operation.2 ≠ other.singleArguments.schema := by
  have hselect : Naming.ofEntity entity.name "Select" ≠ Naming.ofEntity other.name "Select" := fun heq =>
    hname (Naming.ofEntity_left_inj heq)
  intro heq
  have heq := (Schema.object.inj heq).1
  simp only [operations, List.mem_cons, List.not_mem_nil, or_false] at h
  rcases h with rfl | rfl | rfl | rfl | rfl | rfl | rfl | rfl | rfl | rfl | rfl | rfl | rfl | rfl
  all_goals simp [selection, matching, window, hselect] at heq

theorem map_fst_operations (entity : Entity) : entity.operations.map (·.1) = operationStems.map (· ++ "Args") := by
  simp [operations, operationStems]

end Entity

namespace DataModel
variable {model : DataModel}

/-- Only an entity owns its record; whatever else is owned is an input. -/
theorem owned_cases {o : Owner} {d : Declaration} (h : (o, d) ∈ model.owned) :
    d ∈ model.inputs ∨ ∃ entity ∈ model.entities, o = .entity entity.name ∧ d = entity.recordDeclaration := by
  rw [mem_inputs]
  rcases mem_owned.mp h with ⟨-, hd⟩ | ⟨e, he, -, hd⟩ | ⟨e, he, ho, hd⟩ | ⟨field, edge, hedge, -, hd⟩
  · exact Or.inl (Or.inl hd)
  · exact Or.inl (Or.inr (Or.inl ⟨e, he, hd⟩))
  · rcases List.mem_cons.mp hd with rfl | hd
    · exact Or.inr ⟨e, he, ho, rfl⟩
    · exact Or.inl (Or.inr (Or.inr (Or.inl ⟨e, he, hd⟩)))
  · obtain ⟨owner, ho, hf, hedge⟩ := mem_edges.mp hedge
    exact Or.inl (Or.inr (Or.inr (Or.inr
      ⟨owner, ho, field, hf, Graph.mem_nestedWrites.mpr ⟨edge, hedge, List.mem_append.mp hd⟩⟩)))

theorem query_schema_ne_enumeration {entity : Entity} {d : Declaration}
    (hd : d ∈ model.queryDeclarations (Graph.ofModel model) entity) (values : List String) :
    d.schema ≠ .enumeration values := by
  intro hs
  have hlookup := entity.lookup_ne_enumeration values
  simp only [queryDeclarations, List.mem_append, List.mem_cons, List.not_mem_nil, or_false] at hd
  rcases hd with ((((((((((rfl | rfl) | hd) | hd) | rfl | rfl) | hd) | hd) | rfl | rfl) | hd) | rfl) | hd)
  · cases hs
  · exact hlookup hs
  · simp only [Entity.relationFilters, List.mem_append, List.mem_ite_nil_right, List.mem_singleton] at hd
    rcases hd with (⟨-, rfl⟩ | ⟨-, rfl⟩) | ⟨-, rfl⟩ <;> cases hs
  · simp only [Entity.bulkWhere, List.mem_ite_nil_right, List.mem_singleton] at hd
    obtain ⟨-, rfl⟩ := hd
    cases hs
  · cases hs
  · cases hs
  · simp only [Entity.orderBySize, List.mem_ite_nil_right, List.mem_singleton] at hd
    obtain ⟨-, rfl⟩ := hd
    cases hs
  · obtain ⟨aggregate, -, rfl⟩ := List.mem_map.mp hd
    cases hs
  · cases hs
  · cases hs
  · simp only [Entity.relationSelection, List.mem_ite_nil_right, List.mem_singleton] at hd
    obtain ⟨-, rfl⟩ := hd
    cases hs
  · cases hs
  · simp only [Entity.countSelection, List.mem_ite_nil_right, List.mem_cons, List.not_mem_nil, or_false] at hd
    obtain ⟨-, rfl | rfl⟩ := hd <;> cases hs

/-- Only one declaration that is named on an entity alone lists names. -/
theorem eq_fieldNames_of_enumeration {entity : Entity} {d : Declaration} (hd : d ∈ model.entityDeclarations entity)
    {values : List String} (hs : d.schema = .enumeration values) : d = entity.fieldNamesDeclaration := by
  simp only [entityDeclarations, entityInputs, List.mem_cons, List.mem_append] at hd
  rcases hd with rfl | rfl | ((((hd | hd) | hd) | hd) | hd)
  · cases hs
  · rfl
  · exact absurd hs (query_schema_ne_enumeration hd values)
  · simp only [Entity.createInputs, List.mem_cons, List.not_mem_nil, or_false] at hd
    rcases hd with rfl | rfl | rfl <;> cases hs
  · simp only [Entity.updateInputs, List.mem_cons, List.not_mem_nil, or_false] at hd
    rcases hd with rfl | rfl | rfl | rfl <;> cases hs
  · obtain ⟨aggregate, -, rfl⟩ := List.mem_map.mp hd
    cases hs
  · obtain ⟨operation, -, rfl⟩ := List.mem_map.mp hd
    cases hs

/-- No nested write does. -/
theorem Writes.schema_ne_enumeration {field : Field} {edge : Edge} {role : NestedRole} {d : Declaration}
    (h : model.Writes field edge role d) (values : List String) : d.schema ≠ .enumeration values := by
  intro hs
  have hmem := Graph.mem_possibleWrites h.mem
  simp only [Graph.possibleWrites, NestedNames.payload, NestedNames.createRows, NestedNames.changeMany,
    List.mem_append, List.mem_cons, List.not_mem_nil, or_false, or_assoc] at hmem
  rcases hmem with rfl | rfl | rfl | rfl | rfl | rfl | rfl | rfl | rfl | rfl | rfl | rfl | rfl | rfl | rfl | rfl | rfl |
    rfl | rfl | rfl <;> cases hs

theorem NamedApart.fieldNames_of_enumeration (hm : model.NamedApart) {entity : Entity} (he : entity ∈ model.entities)
    {d : Declaration} (hd : (.entity entity.name, d) ∈ model.owned) {values : List String}
    (hs : d.schema = .enumeration values) :
    d.name = Naming.ofEntity entity.name "ScalarFieldEnum" ∧ entity.valueFields.map (·.name) = values := by
  rcases entity_cases hd with ⟨e, he', hname, hd⟩ | ⟨field, edge, role, hwrite, hname⟩
  · obtain rfl := hm.entity_eq he he' hname
    obtain rfl := eq_fieldNames_of_enumeration hd hs
    exact ⟨rfl, Schema.enumeration.inj hs⟩
  · exact absurd hs (hwrite.schema_ne_enumeration values)

/-! ### Declarations of an enumeration -/

theorem mem_owned_declaration {e : Enumeration} (he : e ∈ model.enumerations) :
    (.enumeration e.name, e.declaration) ∈ model.owned :=
  mem_owned_enumeration.mpr ⟨e, he, rfl, List.mem_cons_self⟩

theorem mem_owned_filter {e : Enumeration} (he : e ∈ model.enumerations) {m : Multiplicity}
    (hu : (model.enumerationUsage e.name).has m = true) :
    (.enumeration e.name, ⟨Naming.enumerationFilter e.name m, Filter.ofEnumeration (.ref (Naming.enumeration e.name)) m
      (Naming.enumerationFilter e.name m)⟩) ∈ model.owned :=
  mem_owned_enumeration.mpr ⟨e, he, rfl, mem_enumerationFilters hu⟩

theorem mem_owned_operations {e : Enumeration} (he : e ∈ model.enumerations) {nullable : Bool}
    (hu : nullable ∈ Operation.nullabilities (model.enumerationUsage e.name)) :
    (.enumeration e.name, ⟨Naming.enumerationOperations e.name nullable, Operation.ofEnumeration e.name nullable⟩) ∈
      model.owned :=
  mem_owned_enumeration.mpr ⟨e, he, rfl,
    List.mem_cons_of_mem _ (List.mem_append_right _ (List.mem_map.mpr ⟨nullable, hu, rfl⟩))⟩

/-- A name that is spelled like an input of an enumeration is that of an object. -/
theorem NamesInput.exists_owned {e : Enumeration} (he : e ∈ model.enumerations) {own : String}
    (h : model.NamesInput e own) : ∃ d, (.enumeration e.name, d) ∈ model.owned ∧ d.name = own ++ "Schema" ∧
      ∀ values, d.schema ≠ .enumeration values := by
  rcases h with ⟨m, hu, hname⟩ | ⟨nullable, hu, hname⟩
  · refine ⟨_, mem_owned_filter he hu, hname, fun values => ?_⟩
    cases m <;> simp [Filter.ofEnumeration, Filter.ofList, Schema.strictObject]
  · refine ⟨_, mem_owned_operations he hu, hname, fun values => ?_⟩
    simp [Operation.ofEnumeration, Schema.strictObject]

/-! ### What a clash loses -/

section
variable (hl : model.Lossless)
include hl

theorem Lossless.schema_eq_of_owned {o o' : Owner} {a b : Declaration} (ha : (o, a) ∈ model.owned)
    (hb : (o', b) ∈ model.owned) (hn : a.name = b.name) : a.schema = b.schema :=
  hl a (mem_built_iff_owned.mpr ⟨o, ha⟩) b (mem_built_iff_owned.mpr ⟨o', hb⟩) hn

/-- Declarations of an entity and of one whose name runs on from it. -/
theorem Lossless.schema_eq_of_runsOn {entity other : Entity} {more s : String} (h : model.RunsOn entity more other)
    {a b : Declaration} (ha : a ∈ model.entityDeclarations entity) (hb : b ∈ model.entityDeclarations other)
    (hna : a.name = Naming.ofEntity entity.name (more ++ s)) (hnb : b.name = Naming.ofEntity other.name s) :
    a.schema = b.schema :=
  hl a (mem_built_of_mem_entityDeclarations h.mem ha) b (mem_built_of_mem_entityDeclarations h.mem_other hb)
    (by rw [hna, hnb, h.ofEntity_eq])

theorem Lossless.write_schema_eq {field other : Field} {edge edge' : Edge} (h : (field, edge) ∈ model.edges)
    (h' : (other, edge') ∈ model.edges) {a b : Declaration} (ha : a ∈ (Graph.ofModel model).writesTo field edge)
    (hb : b ∈ (Graph.ofModel model).writesTo other edge') (hn : a.name = b.name) : a.schema = b.schema :=
  hl a (mem_built_of_mem_writesTo h ha) b (mem_built_of_mem_writesTo h' hb) hn

theorem Lossless.not_record (hm : model.Resolved) {entity : Entity} (he : entity ∈ model.entities) {o : Owner}
    {d : Declaration} (hd : (o, d) ∈ model.owned) (ho : o ≠ .entity entity.name)
    (hn : d.name = Naming.ofEntity entity.name "") : False := by
  have hrecord : entity.recordDeclaration ∈ model.built := mem_built.mpr (Or.inr ⟨entity, he, rfl⟩)
  have hschema : d.schema = entity.recordDeclaration.schema :=
    hl d (mem_built_iff_owned.mpr ⟨o, hd⟩) _ hrecord hn
  rcases owned_cases hd with hd | ⟨other, -, rfl, rfl⟩
  · have hwithin := hm.within_of_mem_inputs hd
    rw [hschema, Entity.recordDeclaration, Schema.within_object] at hwithin
    exact Bool.false_ne_true hwithin.1
  · exact ho (congrArg Owner.entity (Naming.ofEntity_left_inj hn))

theorem Lossless.not_filters {e other : Enumeration} (he : e ∈ model.enumerations) (ho : other ∈ model.enumerations)
    {more : String} {m : Multiplicity} (hmore : (more, m) ∈ [("Nullable", .nullable), ("NullableList", .list)])
    (hn : e.name = other.name ++ more) (hu : (model.enumerationUsage e.name).required = true)
    (hu' : (model.enumerationUsage other.name).has m = true) : False := by
  have hname : Naming.enumerationFilter e.name .required = Naming.enumerationFilter other.name m := by
    simp only [List.mem_cons, Prod.mk.injEq, List.not_mem_nil, or_false] at hmore
    rcases hmore with ⟨rfl, rfl⟩ | ⟨rfl, rfl⟩ <;>
      simp only [Naming.enumerationFilter, Naming.filterSuffix, hn, String.append_assoc, String.reduceAppend]
  have hm : m ≠ .required := by rintro rfl; simp at hmore
  have hfilter := hl.schema_eq_of_owned (mem_owned_filter he (m := .required) hu) (mem_owned_filter ho hu') hname
  exact Filter.ofEnumeration_required_ne hm _ _ hfilter

theorem Lossless.not_relationFilter {e : Enumeration} {entity : Entity} (he : e ∈ model.enumerations)
    (hentity : entity ∈ model.entities) {more : String} {m : Multiplicity}
    (hmore : (more, m) ∈ [("Relation", .required), ("NullableRelation", .nullable), ("ListRelation", .list)])
    (hn : "Enum" ++ e.name = entity.name ++ more) (hu : (model.enumerationUsage e.name).required = true)
    (hu' : (model.targetUsage entity.name).has m = true) : False := by
  have hname : Naming.enumerationFilter e.name .required = (entity.relationFilter m).name := by
    simp only [List.mem_cons, Prod.mk.injEq, List.not_mem_nil, or_false] at hmore
    rcases hmore with ⟨rfl, rfl⟩ | ⟨rfl, rfl⟩ | ⟨rfl, rfl⟩ <;>
      simp only [Naming.enumerationFilter, Naming.filterSuffix, Entity.relationFilter, Naming.ofEntity, hn,
        String.append_assoc, String.reduceAppend]
  have hfilter := hl.schema_eq_of_owned (mem_owned_filter he (m := .required) hu)
    (mem_owned_entity.mpr (Or.inl ⟨entity, hentity, rfl, relationFilter_mem_entityDeclarations hu'⟩)) hname
  exact Entity.ofEnumeration_ne_relationFilter entity m hfilter

theorem Lossless.operations_eq {e : Enumeration} (he : e ∈ model.enumerations) {nullable : Bool}
    (hu : nullable ∈ Operation.nullabilities (model.enumerationUsage e.name)) {field : Field} {edge : Edge}
    {role : NestedRole} {d : Declaration} (hwrite : model.Writes field edge role d) (hending : role.ending = "Input")
    {front : String} (hs : edge.spelling = front ++ "FieldUpdateOperations")
    (hn : (if nullable then "NullableEnum" else "Enum") ++ e.name = edge.target.name ++ role.opening ++ front) :
    d.schema = Operation.ofEnumeration e.name nullable := by
  refine hl.schema_eq_of_owned hwrite.mem_owned (mem_owned_operations he hu) ?_
  rw [hwrite.name_eq_ofEntity, Naming.enumerationOperations_eq, hn]
  simp only [Naming.ofEntity, NestedRole.suffix, hs, hending, String.append_assoc, String.reduceAppend]

theorem Lossless.not_arguments {entity other : Entity} {stem : String} (h : model.RunsOn entity stem other)
    (hs : stem ∈ Entity.operationStems) : False := by
  have hmem : stem ++ "Args" ∈ entity.operations.map (·.1) := by
    rw [Entity.map_fst_operations]
    exact List.mem_map_of_mem hs
  obtain ⟨operation, hoperation, hname⟩ := List.mem_map.mp hmem
  have hne : stem ≠ "" := by rintro rfl; exact absurd hs (by decide)
  have harguments := hl.schema_eq_of_runsOn (s := "Args") h
    (arguments_mem_entityDeclarations (List.mem_map_of_mem hoperation))
    (query_mem_entityDeclarations (d := other.singleArguments) (by simp [queryDeclarations]))
    (congrArg (Naming.ofEntity entity.name) hname) rfl
  exact Entity.operation_ne_singleArguments (h.name_ne hne) hoperation harguments

theorem Lossless.not_relationFilters {entity other : Entity} {more : String} {m : Multiplicity}
    (h : model.RunsOn entity more other) (hmore : (more, m) ∈ [("Nullable", .nullable), ("List", .list)])
    (hu : (model.targetUsage entity.name).has m = true) (hu' : (model.targetUsage other.name).required = true) :
    False := by
  have hname : (entity.relationFilter m).name = Naming.ofEntity entity.name (more ++ "RelationFilter") := by
    simp only [List.mem_cons, Prod.mk.injEq, List.not_mem_nil, or_false] at hmore
    rcases hmore with ⟨rfl, rfl⟩ | ⟨rfl, rfl⟩ <;> rfl
  have hm : m ≠ .required := by rintro rfl; simp at hmore
  exact Entity.relationFilter_ne hm entity other (hl.schema_eq_of_runsOn h (relationFilter_mem_entityDeclarations hu)
    (relationFilter_mem_entityDeclarations (m := .required) hu') hname rfl)

theorem Lossless.scalarWhere_eq {entity other : Entity} (h : model.RunsOn entity "Scalar" other)
    (hu : (model.targetUsage entity.name).list = true) :
    Entity.propertiesOf entity.valueFields Condition.onValue? =
      Entity.propertiesOf other.fields Condition.onField? := by
  have hschema := hl.schema_eq_of_runsOn (s := "WhereInput") h
    (query_mem_entityDeclarations (d := entity.scalarWhere "ScalarWhereInput")
      (by simp [queryDeclarations, Entity.bulkWhere, hu]))
    (query_mem_entityDeclarations (d := other.whereInput) (by simp [queryDeclarations])) rfl rfl
  have hself : Naming.ofEntity entity.name "ScalarWhereInput" = Naming.ofEntity other.name "WhereInput" :=
    h.ofEntity_eq "WhereInput"
  rw [Entity.scalarWhere, Entity.whereInput, hself] at hschema
  exact List.append_cancel_left (Schema.object.inj hschema).1

theorem Lossless.counts_eq {entity other : Entity} (h : model.RunsOn entity "CountOutputType" other)
    (hlists : entity.ownsListRelation = true) : other.hasRelations = false ∧
      (entity.countableFields (Graph.ofModel model)).map (·.name) = other.valueFields.map (·.name) := by
  have hcounts : ∀ d ∈ entity.countSelection (Graph.ofModel model), d ∈ model.entityDeclarations entity :=
    fun d hd => query_mem_entityDeclarations (by simp [queryDeclarations, hd])
  rw [Entity.countSelection, if_pos hlists] at hcounts
  have harguments := hl.schema_eq_of_runsOn (s := "Args") h (hcounts _ (List.mem_cons_of_mem _ List.mem_cons_self))
    (query_mem_entityDeclarations (d := other.singleArguments) (by simp [queryDeclarations])) rfl rfl
  have hnone : other.hasRelations = false := by
    by_contra hrelations
    have hproperties := (Schema.object.inj harguments).1
    simp [Entity.selection, hrelations] at hproperties
  have hselect := hl.schema_eq_of_runsOn (s := "Select") h (hcounts _ List.mem_cons_self)
    (query_mem_entityDeclarations (d := other.fieldSelection) (by simp [queryDeclarations])) rfl rfl
  have hproperties := congrArg (List.map (·.1)) (Schema.object.inj hselect).1
  rw [Entity.relationChoices_eq_nil hnone] at hproperties
  exact ⟨hnone, by simpa [Function.comp_def] using hproperties⟩

theorem Lossless.unchecked_eq {entity other : Entity} (h : model.RunsOn entity "Unchecked" other) (purpose : Purpose) :
    Payload.properties (Graph.ofModel model) purpose .unchecked entity none =
      Payload.properties (Graph.ofModel model) purpose .checked other none :=
  (Schema.object.inj (hl.schema_eq_of_runsOn h (uncheckedPayload_mem_entityDeclarations entity purpose)
    (checkedPayload_mem_entityDeclarations other purpose) rfl rfl)).1

theorem Lossless.uncheckedWrites_eq {field field' : Field} {edge edge' : Edge} (h : (field, edge) ∈ model.edges)
    (h' : (field', edge') ∈ model.edges) (hrun : model.RunsOn edge.target "Unchecked" edge'.target)
    (hs : edge.spelling = edge'.spelling) (purpose : Purpose) :
    Payload.properties (Graph.ofModel model) purpose .unchecked edge.target (some edge.reverse) =
      Payload.properties (Graph.ofModel model) purpose .checked edge'.target (some edge'.reverse) := by
  have hname : (NestedNames.ofEdge edge).role ("Unchecked" ++ purpose.stem) "Input" =
      (NestedNames.ofEdge edge').role purpose.stem "Input" := by
    rw [Edge.spelling, Edge.spelling] at hs
    simp only [NestedNames.role, NestedNames.ofEdge, Naming.without, hrun.name_eq, hs, String.append_assoc]
  exact (Schema.object.inj (hl.write_schema_eq h h' (Graph.uncheckedPayload_mem_writesTo _ edge field purpose)
    (Graph.checkedPayload_mem_writesTo _ edge' field' purpose) hname)).1

theorem Lossless.not_uncheckedLists {field field' : Field} {edge edge' : Edge} (h : (field, edge) ∈ model.edges)
    (h' : (field', edge') ∈ model.edges) (hrun : model.RunsOn edge.target "Unchecked" edge'.target)
    (hlist : field.isList = true) (hlist' : field'.isList = true)
    (hs : edge.spelling ∈ [edge'.spelling, edge'.spelling ++ "Nested"]) : False := by
  rw [List.mem_pair, Edge.spelling, Edge.spelling] at hs
  rcases hs with hs | hs
  · have hrole : (NestedNames.ofEdge edge).role "Create" "Input" ≠
        (NestedNames.ofEdge edge').role "Create" "Input" := by
      intro heq
      have hlength := congrArg String.length heq
      simp [NestedNames.role, NestedNames.ofEdge, Naming.without, hrun.name_eq, hs] at hlength
    have hmany : (NestedNames.ofEdge edge).createMany "UncheckedCreateNestedMany" (!edge.reverse.isList) ∈
        (Graph.ofModel model).writesTo field edge := by
      simp [Graph.writesTo, NestedNames.creations, hlist]
    have hmany' : (NestedNames.ofEdge edge').createMany "CreateNestedMany" (!edge'.reverse.isList) ∈
        (Graph.ofModel model).writesTo field' edge' := by
      simp [Graph.writesTo, NestedNames.creations, hlist']
    refine NestedNames.createMany_ne hrole _ _ _ _ (hl.write_schema_eq h h' hmany hmany' ?_)
    simp only [NestedNames.createMany, NestedNames.role, NestedNames.ofEdge, Naming.without, hrun.name_eq, hs,
      String.append_assoc, String.reduceAppend]
  · refine Payload.bulkProperties_ne_updateMany (hl.write_schema_eq h h' (Graph.bulkUpdate_mem_writesTo _ edge hlist)
      (Graph.updateMany_mem_writesTo _ edge' hlist' List.mem_cons_self) ?_)
    simp only [NestedNames.updateMany, NestedNames.role, NestedNames.ofEdge, Naming.without, hrun.name_eq, hs,
      String.append_assoc, String.reduceAppend]

theorem Lossless.reverse_eq (hm : model.NamedApart) {field other : Field} {edge edge' : Edge}
    (h : (field, edge) ∈ model.edges) (h' : (other, edge') ∈ model.edges) (ht : edge.target = edge'.target)
    (hs : edge.spelling = edge'.spelling) : edge.reverse = edge'.reverse := by
  -- The payload for one edge has a property for the reverse of the other, and none for its own.
  have hschema := hl.write_schema_eq h h' (Graph.checkedPayload_mem_writesTo _ edge field .create)
    (Graph.checkedPayload_mem_writesTo _ edge' other .create) (by
      rw [Edge.spelling, Edge.spelling] at hs
      simp only [NestedNames.role, NestedNames.ofEdge, Naming.without, ht, hs])
  have hproperties := (Schema.object.inj hschema).1
  by_contra hne
  have htarget := target_mem_of_mem_edges h'
  have hn : edge.reverse.name ≠ edge'.reverse.name := fun hn =>
    hne (hm.field_eq htarget (ht ▸ reverse_mem_of_mem_edges h) (reverse_mem_of_mem_edges h') hn)
  obtain ⟨owner, ho, hf, hedge⟩ := mem_edges.mp h'
  obtain ⟨hrelation, back, hback⟩ := hm.exists_edge_back ho hf hedge
  obtain ⟨schema, hs⟩ := Payload.exists_mem_properties hrelation hback hn .create
  rw [← ht, hproperties] at hs
  exact Payload.notMem_properties hs

theorem Lossless.not_endings {field field' : Field} {edge edge' : Edge} (h : (field, edge) ∈ model.edges)
    (h' : (field', edge') ∈ model.edges) (ht : edge.target = edge'.target) (hlist : field.isList = true)
    (hlist' : field'.isList = true) (hs : edge.spelling = edge'.spelling ++ "Nested") : False := by
  rw [Edge.spelling, Edge.spelling] at hs
  refine Payload.bulkProperties_ne_updateMany (hl.write_schema_eq h h' (Graph.bulkUpdate_mem_writesTo _ edge hlist)
    (Graph.updateMany_mem_writesTo _ edge' hlist' (List.mem_cons_of_mem _ List.mem_cons_self)) ?_)
  simp only [NestedNames.updateMany, NestedNames.role, NestedNames.ofEdge, Naming.without, ht, hs,
    String.append_assoc, String.reduceAppend]

theorem Lossless.notMem_impliedKeys {field : Field} {edge : Edge} (h : (field, edge) ∈ model.edges)
    (hlist : field.isList = true) (hone : edge.reverse.isList = false) (hs : edge.spelling = "") :
    ∀ value ∈ edge.target.valueFields, value.name ∉ Payload.impliedKeys (some edge.reverse) := by
  have hrow : ⟨(NestedNames.ofEdge edge).rows "Input",
      .strictObject (Payload.bulkProperties .create .unchecked edge.target (some edge.reverse))⟩ ∈
        (Graph.ofModel model).writesTo field edge := by
    simp [Graph.writesTo, NestedNames.creations, NestedNames.createRows, hlist, hone]
  have hrows := model.rows_mem_entityDeclarations edge.target
  have hschema := hl _ (mem_built_of_mem_writesTo h hrow) _
    (mem_built_of_mem_entityDeclarations (target_mem_of_mem_edges h) hrows) (by
      rw [Edge.spelling] at hs
      simp only [NestedNames.rows, NestedNames.ofEdge, Naming.createManyFor, Naming.ofEntity, hs,
        String.append_assoc, String.reduceAppend])
  exact Payload.bulkProperties_eq_iff.mp (Schema.object.inj hschema).1

end

/-- Where names clash, a schema is lost. -/
theorem Clash.not_lossless (hm : model.NamedApart) (hr : model.Resolved) (h : model.Clash) : ¬ model.Lossless := by
  intro hl
  cases h with
  | shared he hd hn => exact hl.not_record hr he (mem_owned_shared.mpr hd) (by simp) hn
  | enumeration he he' hn =>
    refine hl.not_record hr he (mem_owned_declaration he') (by simp) ?_
    rw [Naming.ofEntity, String.append_empty, hn]
    rfl
  | suffix h hs hd hn =>
    refine hl.not_record hr h.mem_other hd (fun ho => h.name_ne hs (Owner.entity.inj ho)) ?_
    rw [hn, ← h.ofEntity_eq, String.append_empty]
  | sharedMembers he hd hn hne =>
    exact hne (hl.schema_eq_of_owned (mem_owned_shared.mpr hd) (mem_owned_declaration he) hn)
  | suffixMembers he hentity hname _ hd hn hvalues =>
    have hschema := hl.schema_eq_of_owned hd (mem_owned_declaration he) (by
      rw [hn, Naming.ofEntity, ← hname]
      rfl)
    obtain ⟨hfields, heq⟩ := hm.fieldNames_of_enumeration hentity hd hschema
    exact hvalues (Naming.ofEntity_inj (hn.symm.trans hfields)) heq
  | input hown he hnames =>
    obtain ⟨d, hd, hn, hne⟩ := hnames.exists_owned he
    rcases List.mem_append.mp hown with hown | hown
    · obtain ⟨entity, hentity, rfl⟩ := List.mem_map.mp hown
      exact hl.not_record hr hentity hd (by simp) (by rw [hn, Naming.ofEntity, String.append_empty])
    · obtain ⟨other, hother, rfl⟩ := List.mem_map.mp hown
      exact hne other.values (hl.schema_eq_of_owned hd (mem_owned_declaration hother) hn)
  | filters he ho hmore hn hu hu' => exact hl.not_filters he ho hmore hn hu hu'
  | relationFilter he hentity hmore hn hu hu' => exact hl.not_relationFilter he hentity hmore hn hu hu'
  | operations he hu hwrite hending hs hn hne => exact hne (hl.operations_eq he hu hwrite hending hs hn)
  | arguments h hs => exact hl.not_arguments h hs
  | relationFilters h hmore hu hu' => exact hl.not_relationFilters h hmore hu hu'
  | scalarWhere h hu hne => exact hne (hl.scalarWhere_eq h hu)
  | counts h hlists hne =>
    obtain ⟨hnone, hnames⟩ := hl.counts_eq h hlists
    exact hne.elim (by simp [hnone]) fun hne => hne hnames
  | unchecked h hne => exact hne (hl.unchecked_eq h _)
  | uncheckedWrites h h' hrun hs hne => exact hne (hl.uncheckedWrites_eq h h' hrun hs _)
  | uncheckedLists h h' hrun hlist hlist' hs => exact hl.not_uncheckedLists h h' hrun hlist hlist' hs
  | write hwrite hrun hs hd hn hne =>
    refine hne (hl.schema_eq_of_owned hwrite.mem_owned hd ?_)
    rw [hwrite.name_eq_ofEntity, hn, ← hrun.ofEntity_eq]
    simp only [NestedRole.suffix, hs, String.append_assoc]
  | fields h h' ht hs hne => exact hne (hl.reverse_eq hm h h' ht hs)
  | endings h h' ht hlist hlist' hs => exact hl.not_endings h h' ht hlist hlist' hs
  | rows h hlist hone hs hvalue hkey => exact hl.notMem_impliedKeys h hlist hone hs _ hvalue hkey

end DataModel

end DataShapes
