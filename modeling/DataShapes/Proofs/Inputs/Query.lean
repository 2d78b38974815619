import DataShapes.Proofs.Inputs.Shared

/-! # References of queries

Conditions, lookups, orderings and selections refer to inputs of the same entity and to inputs of the
targets of its relations. What they refer to under a condition is built under the same condition. -/

namespace DataShapes

namespace Entity
variable {entity : Entity} {names : String → Prop}

theorem mem_of_mem_valueFields {field : Field} (h : field ∈ entity.valueFields) : field ∈ entity.fields :=
  (List.mem_filter.mp h).1

theorem mem_of_mem_relationFields {field : Field} (h : field ∈ entity.relationFields) : field ∈ entity.fields :=
  (List.mem_filter.mp h).1

theorem mem_propertiesOf {fields : List Field} {schema? : Field → Option Schema} {p : String × Schema} :
    p ∈ propertiesOf fields schema? ↔ ∃ field ∈ fields, schema? field = some p.2 ∧ field.name = p.1 := by
  simp only [propertiesOf, List.mem_filterMap, Option.map_eq_some_iff]
  constructor
  · rintro ⟨field, hf, schema, hs, rfl⟩
    exact ⟨field, hf, hs, rfl⟩
  · rintro ⟨field, hf, hs, hn⟩
    exact ⟨field, hf, p.2, hs, by rw [hn]⟩

/-- The keys are the names of the fields that have a schema. -/
theorem map_key_propertiesOf (fields : List Field) (schema? : Field → Option Schema) :
    (propertiesOf fields schema?).map (·.1) = (fields.filter fun field => (schema? field).isSome).map (·.name) := by
  induction fields with
  | nil => rfl
  | cons field fields ih =>
    rw [propertiesOf] at ih ⊢
    cases hs : schema? field with
    | none => simp [hs, ih]
    | some schema => simp [hs, ih]

theorem sublist_keys_propertiesOf (fields : List Field) (schema? : Field → Option Schema) :
    ((propertiesOf fields schema?).map (·.1)).Sublist (fields.map (·.name)) := by
  rw [map_key_propertiesOf]
  exact List.filter_sublist.map _

/-- Schemas withheld from the fields of some names are properties left out. -/
theorem propertiesOf_eq_filter {fields : List Field} {schema? fewer? : Field → Option Schema} (keep : String → Bool)
    (h : ∀ field ∈ fields, fewer? field = if keep field.name then schema? field else none) :
    propertiesOf fields fewer? = (propertiesOf fields schema?).filter fun p => keep p.1 := by
  rw [propertiesOf, propertiesOf, List.filter_filterMap]
  refine List.filterMap_congr fun field hf => ?_
  rw [h field hf]
  cases schema? field with
  | none => simp
  | some schema => cases hkeep : keep field.name <;> simp [hkeep, Option.filter]

theorem within_propertiesOf {fields : List Field} {schema? : Field → Option Schema}
    (h : ∀ field ∈ fields, ∀ schema, schema? field = some schema → schema.Within names) :
    ∀ p ∈ propertiesOf fields schema?, p.2.Within names := by
  intro p hp
  obtain ⟨field, hf, hs, -⟩ := mem_propertiesOf.mp hp
  exact h field hf p.2 hs

end Entity

namespace DataModel
variable {model : DataModel}

theorem mem_allFields_of_mem {entity : Entity} (he : entity ∈ model.entities) {field : Field}
    (hf : field ∈ entity.fields) : field ∈ model.allFields :=
  mem_allFields.mpr ⟨entity, he, hf⟩

/-- An input that every entity has, or every entity that is led to like the target of this field. -/
theorem provides_ofTarget (hm : model.Resolved) {field : Field} (hf : field ∈ model.allFields)
    {relation : Relation} (hr : field.relation? = some relation) {suffix : String}
    (hs : ∀ target : Entity, suffix ∈ target.inputSuffixes (model.targetUsage relation.target)) :
    model.Provides (Naming.ofEntity relation.target suffix) := by
  obtain ⟨target, ht, hn⟩ := hm.exists_target hf hr
  rw [← hn]
  exact provides_ofEntity ht (hn ▸ hs target)

/-! ### Conditions -/

section
variable {names : String → Prop} (hs : model.Supplies names) (hm : model.Resolved)
include hs hm

section
variable {field : Field} (hf : field ∈ model.allFields) {schema : Schema}
include hf

theorem Supplies.filterName? {name : String} (h : Condition.filterName? field = some name) : names name := by
  unfold Condition.filterName? at h
  split at h
  · next type hk =>
    have ht : field.scalarType? = some type := by simp [Field.scalarType?, hk]
    exact hs.scalarFilter (has_scalarUsage_of_mem hf ht) h
  · next other hk =>
    cases h
    have hn : field.enumeration? = some other := by simp [Field.enumeration?, hk]
    obtain ⟨enumeration, he, rfl⟩ := hm.exists_enumeration hf hn
    exact hs.enumerationFilter he (has_enumerationUsage_of_mem hf hn)
  · cases h

theorem Supplies.within_onValue? (h : Condition.onValue? field = some schema) : schema.Within names := by
  obtain ⟨value, hv, rfl⟩ := Option.map_eq_some_iff.mp h
  have hvalue : value.Within names := hs.values.within_value? hm hf hv
  cases hname : Condition.filterName? field with
  | none => simp
  | some name =>
    have hfilter : names name := hs.filterName? hm hf hname
    cases field.multiplicity <;> simp [hfilter, hvalue]

theorem Supplies.within_onRelation {relation : Relation} (hr : field.relation? = some relation) :
    (Condition.onRelation field relation.target).Within names := by
  obtain ⟨target, ht, hn⟩ := hm.exists_target hf hr
  have husage := has_targetUsage_of_mem hf hr
  rw [← hn] at husage ⊢
  have hwhere : names (Naming.ofEntity target.name "WhereInput") := hs.whereInput ht
  unfold Condition.onRelation
  cases hmul : field.multiplicity with
  | required =>
    rw [hmul, Usage.has] at husage
    have hfilter : names (Naming.ofEntity target.name "RelationFilter") :=
      hs.conditions target ht _ (by simp [Entity.conditionSuffixes, husage])
    simp [hfilter, hwhere]
  | nullable =>
    rw [hmul, Usage.has] at husage
    have hfilter : names (Naming.ofEntity target.name "NullableRelationFilter") :=
      hs.conditions target ht _ (by simp [Entity.conditionSuffixes, husage])
    simp [hfilter, hwhere]
  | list =>
    rw [hmul, Usage.has] at husage
    have hfilter : names (Naming.ofEntity target.name "ListRelationFilter") :=
      hs.conditions target ht _ (by simp [Entity.conditionSuffixes, husage])
    simp [hfilter]

theorem Supplies.within_onField? (h : Condition.onField? field = some schema) : schema.Within names := by
  unfold Condition.onField? at h
  split at h
  · next relation hr =>
    cases h
    exact hs.within_onRelation hm hf hr
  · exact hs.within_onValue? hm hf h

end

omit hs hm in
theorem within_connectives {self : String} (h : names self) : ∀ p ∈ Condition.connectives self, p.2.Within names := by
  simp [Condition.connectives, h]

variable {entity : Entity} (he : entity ∈ model.entities)
include he

theorem Supplies.within_whereInput : entity.whereInput.schema.Within names := by
  refine .object fun p hp => ?_
  rcases List.mem_append.mp hp with hp | hp
  · exact within_connectives (hs.whereInput he) p hp
  · exact Entity.within_propertiesOf
      (fun field hf _ h => hs.within_onField? hm (mem_allFields_of_mem he hf) h) p hp

/-- A condition on value fields refers to itself and to filters. -/
theorem Supplies.within_scalarWhere {suffix : String} (h : names (Naming.ofEntity entity.name suffix)) :
    (entity.scalarWhere suffix).schema.Within names := by
  refine .object fun p hp => ?_
  rcases List.mem_append.mp hp with hp | hp
  · exact within_connectives h p hp
  · exact Entity.within_propertiesOf (fun field hf _ h =>
      hs.within_onValue? hm (mem_allFields_of_mem he (Entity.mem_of_mem_valueFields hf)) h) p hp

omit hm in
theorem Supplies.within_quantified {keys : List String} {nullable : Bool} :
    (entity.quantified keys nullable).Within names := by
  refine .object fun p hp => ?_
  obtain ⟨key, -, rfl⟩ := List.mem_map.mp hp
  exact Filter.within_orNull.mpr (.ref (hs.whereInput he))

omit hm in
theorem Supplies.within_relationFilters {d : Declaration}
    (hd : d ∈ entity.relationFilters (model.targetUsage entity.name)) : d.schema.Within names := by
  simp only [Entity.relationFilters, List.mem_append] at hd
  rcases hd with (hd | hd) | hd
  all_goals
    split at hd
    · obtain rfl := List.mem_singleton.mp hd
      exact hs.within_quantified he
    · cases hd

theorem Supplies.within_bulkWhere {d : Declaration} (hd : d ∈ entity.bulkWhere (model.targetUsage entity.name)) :
    d.schema.Within names := by
  unfold Entity.bulkWhere at hd
  split at hd
  · next hlist =>
    obtain rfl := List.mem_singleton.mp hd
    exact hs.within_scalarWhere hm he (hs.conditions entity he _ (by simp [Entity.conditionSuffixes, hlist]))
  · cases hd

/-! ### Lookups -/

theorem Supplies.within_valueOf (name : String) : (entity.valueOf name).Within names := by
  unfold Entity.valueOf
  cases hv : (entity.field? name).bind (·.value?) with
  | none => exact .leaf
  | some value =>
    obtain ⟨field, hf, hv⟩ := Option.bind_eq_some_iff.mp hv
    exact hs.values.within_value? hm (mem_allFields_of_mem he (List.mem_of_find?_eq_some hf)) hv

theorem Supplies.within_lookupBy (c : UniqueConstraint) : (entity.lookupBy c).Within names := by
  have hvalue : (entity.constraintValue c).Within names := by
    unfold Entity.constraintValue
    split
    · refine .object fun p hp => ?_
      obtain ⟨name, -, rfl⟩ := List.mem_map.mp hp
      exact hs.within_valueOf hm he name
    · cases c.fields.head? with
      | none => exact .leaf
      | some name => exact hs.within_valueOf hm he name
  simp [Entity.lookupBy, hvalue]

theorem Supplies.within_lookup : entity.lookup.Within names := by
  unfold Entity.lookup
  split
  · simp
  · exact hs.within_lookupBy hm he _
  · refine .union fun arm harm => ?_
    obtain ⟨c, -, rfl⟩ := List.mem_map.mp harm
    exact hs.within_lookupBy hm he c

end

/-! ### Orderings -/

theorem within_direction : Ordering.direction.Within model.Provides := .optional (.ref supplies_provides.sortOrder)

theorem within_byValue {field : Field} : (Ordering.byValue field).Within model.Provides := by
  unfold Ordering.byValue
  split
  · simp [supplies_provides.sortOrder, supplies_provides.sortOrderInput]
  · exact within_direction

theorem Resolved.within_byField (hm : model.Resolved) {field : Field} (hf : field ∈ model.allFields) :
    (Ordering.byField field).Within model.Provides := by
  unfold Ordering.byField
  split
  · exact within_byValue
  · next relation hr =>
    have husage := has_targetUsage_of_mem hf hr
    refine .optional (.ref (provides_ofTarget hm hf hr fun target => ?_))
    split
    · next hl =>
      rw [Field.multiplicity_eq_list.mpr hl, Usage.has] at husage
      simp [Entity.inputSuffixes, Entity.querySuffixes, husage]
    · simp [Entity.inputSuffixes, Entity.querySuffixes]

theorem within_perField {fields : List Field} : (Ordering.perField fields).Within model.Provides := by
  refine .object fun p hp => ?_
  obtain ⟨field, -, rfl⟩ := List.mem_map.mp hp
  exact within_direction

section
variable {entity : Entity} (he : entity ∈ model.entities)
include he

theorem within_orderGroupsBy : entity.orderGroupsBy.schema.Within model.Provides := by
  refine .object fun p hp => ?_
  rcases List.mem_append.mp hp with hp | hp
  · obtain ⟨field, -, rfl⟩ := List.mem_map.mp hp
    exact within_byValue
  · obtain ⟨⟨key, aggregate, fields⟩, ha, rfl⟩ := List.mem_map.mp hp
    have hd : ⟨entity.orderByAggregateName aggregate, Ordering.perField fields⟩ ∈ entity.orderByAggregates :=
      List.mem_map.mpr ⟨_, ha, rfl⟩
    have hd : ⟨entity.orderByAggregateName aggregate, Ordering.perField fields⟩ ∈ model.entityInputs entity := by
      simp only [entityInputs, queryDeclarations, List.mem_cons, List.mem_append, hd, true_or, or_true]
    exact .optional (.ref ⟨_, mem_inputs_of_entity he hd, rfl⟩)

/-! ### Selections -/

theorem within_relationChoices (hm : model.Resolved) :
    ∀ p ∈ entity.relationChoices, p.2.Within model.Provides := by
  intro p hp
  rcases List.mem_append.mp hp with hp | hp
  · refine Entity.within_propertiesOf (fun field hf schema hs => ?_) p hp
    obtain ⟨relation, hr, rfl⟩ := Option.map_eq_some_iff.mp hs
    have harguments : model.Provides
        (Naming.ofEntity relation.target (if field.isList then "FindManyArgs" else "Args")) :=
      provides_ofTarget hm (mem_allFields_of_mem he hf) hr fun target => by
        cases field.isList <;> simp [Entity.inputSuffixes, Entity.querySuffixes, Entity.argumentSuffixes]
    simp [Selection.ofRelation, Selection.flagOr, Selection.flag, harguments]
  · split at hp
    · next hlist =>
      obtain rfl := List.mem_singleton.mp hp
      have harguments : model.Provides (Naming.ofEntity entity.name "CountOutputTypeArgs") :=
        provides_ofEntity he (by simp [Entity.inputSuffixes, Entity.querySuffixes, hlist])
      simp [Selection.flagOr, Selection.flag, harguments]
    · cases hp

theorem within_fieldSelection (hm : model.Resolved) :
    entity.fieldSelection.schema.Within model.Provides := by
  refine .object fun p hp => ?_
  rcases List.mem_append.mp hp with hp | hp
  · obtain ⟨field, -, rfl⟩ := List.mem_map.mp hp
    exact .optional .leaf
  · exact within_relationChoices he hm p hp

theorem within_selection : ∀ p ∈ entity.selection, p.2.Within model.Provides := by
  have hselect : model.Provides (Naming.ofEntity entity.name "Select") :=
    provides_ofEntity he (by simp [Entity.inputSuffixes, Entity.querySuffixes])
  intro p hp
  rcases List.mem_append.mp hp with hp | hp
  · obtain rfl := List.mem_singleton.mp hp
    exact .optional (.ref hselect)
  · split at hp
    · next hrelations =>
      obtain rfl := List.mem_singleton.mp hp
      exact .optional (.ref (provides_ofEntity he (by
        simp [Entity.inputSuffixes, Entity.querySuffixes, hrelations])))
    · cases hp

theorem within_countSelection {graph : Graph} {d : Declaration} (hd : d ∈ entity.countSelection graph) :
    d.schema.Within model.Provides := by
  unfold Entity.countSelection at hd
  split at hd
  · next hlist =>
    simp only [List.mem_cons, List.not_mem_nil, or_false] at hd
    rcases hd with rfl | rfl
    · refine .object fun p hp => ?_
      obtain ⟨field, -, rfl⟩ := List.mem_map.mp hp
      exact .optional .leaf
    · have hselect : model.Provides (Naming.ofEntity entity.name "CountOutputTypeSelect") :=
        provides_ofEntity he (by simp [Entity.inputSuffixes, Entity.querySuffixes, hlist])
      simp [hselect]
  · cases hd

/-! ### All of them -/

/-- The inputs that ask for records of an entity refer to declared inputs only. -/
theorem within_of_mem_query (hm : model.Resolved) {graph : Graph} {d : Declaration}
    (hd : d ∈ model.queryDeclarations graph entity) : d.schema.Within model.Provides := by
  simp only [queryDeclarations, List.mem_append, List.mem_cons, List.not_mem_nil, or_false] at hd
  rcases hd with (((((((((rfl | rfl) | hd) | hd) | rfl | rfl) | hd) | hd) | rfl | rfl) | hd) | rfl) | hd
  · exact supplies_provides.within_whereInput hm he
  · exact supplies_provides.within_lookup hm he
  · exact supplies_provides.within_relationFilters he hd
  · exact supplies_provides.within_bulkWhere hm he hd
  · exact supplies_provides.within_scalarWhere hm he
      (provides_ofEntity he (by simp [Entity.inputSuffixes, Entity.querySuffixes]))
  · refine .object fun p hp => ?_
    obtain ⟨field, hf, rfl⟩ := List.mem_map.mp hp
    exact hm.within_byField (mem_allFields_of_mem he hf)
  · unfold Entity.orderBySize at hd
    split at hd
    · obtain rfl := List.mem_singleton.mp hd
      simp [within_direction]
    · cases hd
  · obtain ⟨⟨key, aggregate, fields⟩, -, rfl⟩ := List.mem_map.mp hd
    exact within_perField
  · exact within_orderGroupsBy he
  · exact within_fieldSelection he hm
  · unfold Entity.relationSelection at hd
    split at hd
    · obtain rfl := List.mem_singleton.mp hd
      exact .object (within_relationChoices he hm)
    · cases hd
  · exact .object (within_selection he)
  · exact within_countSelection he hd

end

end DataModel

end DataShapes
