import DataShapes.Proofs.Generation.Growth
import DataShapes.Proofs.Generation.WiderWrites

/-! # Models with further columns

A field that new records may leave out takes nothing from what a model accepts. Relations lead where they led, all
inputs stay or get wider, and what was accepted is accepted still and stays as it is. One pair of keys has to be kept
apart: the first number of an entity brings totals, by which its groups are ordered beside its value fields. -/

namespace DataShapes

namespace DataModel

/-- The second model is the first one with further fields in its entities. -/
structure Widens (model wider : DataModel) : Prop where
  entities : List.Forall₂ Entity.Widens model.entities wider.entities
  enumerations : wider.enumerations = model.enumerations

namespace Widens
variable {model wider : DataModel} (h : model.Widens wider)
include h

/-- A name is that of no entity in both models, or of an entity and of a wider one. -/
theorem entity?_cases (name : String) : (model.entity? name = none ∧ wider.entity? name = none) ∨
    ∃ entity other, model.entity? name = some entity ∧ wider.entity? name = some other ∧ entity.Widens other := by
  unfold entity?
  generalize model.entities = entities, wider.entities = others, h.entities = hrow
  induction hrow with
  | nil => exact Or.inl ⟨rfl, rfl⟩
  | @cons entity other entities others hwidens _ ih =>
    rw [List.find?_cons, List.find?_cons, hwidens.name]
    split
    · exact Or.inr ⟨entity, other, rfl, rfl, hwidens⟩
    · exact ih

theorem exists_wider {entity : Entity} (he : entity ∈ model.entities) :
    ∃ other ∈ wider.entities, entity.Widens other := by
  obtain ⟨i, hi, rfl⟩ := List.mem_iff_getElem.mp he
  obtain ⟨hlength, hget⟩ := List.forall₂_iff_get.mp h.entities
  exact ⟨_, List.getElem_mem (hlength ▸ hi), hget i hi (hlength ▸ hi)⟩

theorem exists_narrower {other : Entity} (ho : other ∈ wider.entities) :
    ∃ entity ∈ model.entities, entity.Widens other := by
  obtain ⟨i, hi, rfl⟩ := List.mem_iff_getElem.mp ho
  obtain ⟨hlength, hget⟩ := List.forall₂_iff_get.mp h.entities
  exact ⟨_, List.getElem_mem (hlength ▸ hi), hget i (hlength ▸ hi) hi⟩

theorem mem_allFields {field : Field} (hf : field ∈ model.allFields) : field ∈ wider.allFields := by
  obtain ⟨entity, he, hf⟩ := DataModel.mem_allFields.mp hf
  obtain ⟨other, ho, hwidens⟩ := h.exists_wider he
  exact DataModel.mem_allFields.mpr ⟨other, ho, hwidens.addsFields.kept field hf⟩

/-! ### Far sides -/

theorem pairing?_eq {entity other : Entity} (hwidens : entity.Widens other) (field : Field) :
    wider.pairing? other field = model.pairing? entity field := by
  unfold pairing?
  cases hr : field.relation? with
  | none => rfl
  | some relation =>
    simp only [Option.bind_eq_bind, Option.bind_some]
    rcases h.entity?_cases relation.target with ⟨hnone, hnone'⟩ | ⟨target, target', ht, ht', htarget⟩
    · rw [hnone, hnone', Option.bind_none, Option.bind_none]
    · have hback : relation.isReversedBy other field target' = relation.isReversedBy entity field target := by
        funext back
        rw [Relation.isReversedBy, Relation.isReversedBy, htarget.name, hwidens.name]
      have hreverse : reverse? other field target' = reverse? entity field target := by
        simp only [reverse?, reverseCandidates, hr, htarget.relationFields, hback]
      rw [ht, ht', Option.bind_some, Option.bind_some, hreverse, hwidens.name]

theorem pairings : wider.pairings = model.pairings := by
  have hown : ∀ entity other : Entity, entity.Widens other →
      other.relationFields.filterMap (wider.pairing? other) =
        entity.relationFields.filterMap (model.pairing? entity) := by
    intro entity other hwidens
    rw [hwidens.relationFields]
    exact List.filterMap_congr fun field _ => h.pairing?_eq hwidens field
  unfold DataModel.pairings
  generalize model.entities = entities, wider.entities = others, h.entities = hrow
  induction hrow with
  | nil => rfl
  | @cons entity other entities others hwidens _ ih =>
    rw [List.flatMap_cons, List.flatMap_cons, hown entity other hwidens, ih]

/-- In an accepted model each relation has its far side, and in the wider model it has a wider one. -/
theorem widensAt (hv : model.validate = .ok ()) {entity other : Entity} (he : entity ∈ model.entities)
    (hwidens : entity.Widens other) : (Graph.ofModel model).WidensAt (Graph.ofModel wider) entity other := by
  intro field hf
  obtain ⟨edge, hedge⟩ := exists_edge_of_validate hv he hf
  obtain ⟨relation, hr, ht, reverse, hreverse, hfield⟩ := Graph.edge?_eq_some_iff.mp hedge
  replace ht : model.entity? relation.target = some edge.target := ht
  rcases h.entity?_cases relation.target with ⟨hnone, -⟩ | ⟨target, target', htarget, htarget', hw⟩
  · rw [hnone] at ht
    cases ht
  · obtain rfl : target = edge.target := Option.some.inj (htarget.symm.trans ht)
    have hreverse' : (Graph.ofModel wider).reverseOf? other.name field.name = some reverse := by
      rw [← hreverse, hwidens.name, Graph.reverseOf?, Graph.reverseOf?, Graph.ofModel, Graph.ofModel, h.pairings]
    have hname : reverse ∈ edge.target.fieldNames := by
      obtain ⟨hmem, rfl⟩ := Entity.mem_of_field? hfield
      exact List.mem_map_of_mem hmem
    have hfield' : target'.field? reverse = some edge.reverse := by rw [hw.field?_eq hname, hfield]
    exact ⟨edge, ⟨target', edge.reverse⟩, hedge,
      Graph.edge?_eq_some_iff.mpr ⟨relation, hr, htarget', reverse, hreverse', hfield'⟩, hw, rfl⟩

/-! ### Declarations -/

theorem sharedInputs_subset : ∀ d ∈ model.sharedInputs, d ∈ wider.sharedInputs := by
  have hf : ∀ field ∈ model.allFields, field ∈ wider.allFields := fun _ => h.mem_allFields
  intro d hd
  simp only [sharedInputs, List.mem_append] at hd ⊢
  exact hd.imp (Or.imp (fun hd => (primitives_sublist hf).subset hd) fun hd => (scalarFilters_subperm hf).subset hd)
    fun hd => (scalarOperations_subperm hf).subset hd

theorem enumerationInputs_subset (enumeration : Enumeration) :
    ∀ d ∈ model.enumerationInputs enumeration, d ∈ wider.enumerationInputs enumeration := by
  have hf : ∀ field ∈ model.allFields, field ∈ wider.allFields := fun _ => h.mem_allFields
  have hsublist := (enumerationFilters_sublist hf enumeration).append (enumerationOperations_sublist hf enumeration)
  exact fun d hd => (hsublist.cons_cons enumeration.declaration).subset hd

section
variable (hv : model.validate = .ok ())
include hv

theorem queryDeclarations_covered {entity other : Entity} (he : entity ∈ model.entities)
    (hwidens : entity.Widens other) :
    Declaration.Covered (model.queryDeclarations (Graph.ofModel model) entity)
      (wider.queryDeclarations (Graph.ofModel wider) other) := by
  have husage : ∀ m, (model.targetUsage entity.name).has m = true → (wider.targetUsage other.name).has m = true :=
    hwidens.name ▸ targetUsage_mono (fun _ => h.mem_allFields) entity.name
  have hlookup : other.whereUnique = entity.whereUnique :=
    hwidens.whereUnique (constraintFields_of_structure (structureViolation?_of_validate hv) he)
  have hfilters : other.relationFilters (wider.targetUsage other.name) =
      entity.relationFilters (wider.targetUsage other.name) := by
    simp only [Entity.relationFilters, Entity.quantified, hwidens.name]
  have hsize : other.orderBySize (wider.targetUsage other.name) =
      entity.orderBySize (wider.targetUsage other.name) := by
    simp only [Entity.orderBySize, hwidens.name]
  have hsingle : other.singleArguments = entity.singleArguments := by
    simp only [Entity.singleArguments, hwidens.selection, hwidens.name]
  rw [queryDeclarations, queryDeclarations, hlookup, hfilters, hsize, hsingle,
    hwidens.countSelection (h.widensAt hv he hwidens)]
  have hbulk : Declaration.Covered (entity.bulkWhere (model.targetUsage entity.name))
      (other.bulkWhere (wider.targetUsage other.name)) :=
    .ite (husage .list) (.cons (hwidens.scalarWhere _) (.refl []))
  exact .append (.append (.append (.append (.append (.append (.append (.append (.append
    (.cons hwidens.whereInput (.refl _)) (.of_subset (entity.relationFilters_sublist husage).subset)) hbulk)
    (.cons (hwidens.scalarWhere _) (.cons hwidens.orderBy (.refl [])))) (.ite (husage .list) (.refl _)))
    hwidens.orderByAggregates) (.cons hwidens.orderGroupsBy (.cons hwidens.fieldSelection (.refl []))))
    hwidens.relationSelection) (.refl _)) (.refl _)

theorem entityInputs_covered {entity other : Entity} (he : entity ∈ model.entities) (hwidens : entity.Widens other) :
    Declaration.Covered (model.entityInputs entity) (wider.entityInputs other) := by
  have hg := h.widensAt hv he hwidens
  exact .cons hwidens.fieldNamesDeclaration (.append (.append (.append (.append
    (h.queryDeclarations_covered hv he hwidens) (hwidens.createInputs hg)) (hwidens.updateInputs hg))
    hwidens.aggregateInputs) hwidens.operationArguments)

theorem nestedWrites_covered {entity other : Entity} (he : entity ∈ model.entities) (hwidens : entity.Widens other)
    {field : Field} (hf : field ∈ entity.relationFields) :
    Declaration.Covered ((Graph.ofModel model).nestedWrites entity field)
      ((Graph.ofModel wider).nestedWrites other field) := by
  obtain ⟨edge, edge', hedge, hedge', htarget, hreverse⟩ := h.widensAt hv he hwidens field hf
  exact Graph.nestedWrites_covered hedge hedge' htarget hreverse
    (h.widensAt hv (Graph.target_mem_of_edge? hedge) htarget)

/-- Each input of an accepted model has a wider one in the wider model. -/
theorem inputs_covered : Declaration.Covered model.inputs wider.inputs := by
  intro d hd
  rcases mem_inputs.mp hd with hd | ⟨enumeration, he, hd⟩ | ⟨entity, he, hd⟩ | ⟨owner, ho, field, hf, hd⟩
  · exact ⟨d, mem_inputs_of_shared (h.sharedInputs_subset d hd), .refl d⟩
  · exact ⟨d, mem_inputs_of_enumeration (h.enumerations ▸ he) (h.enumerationInputs_subset enumeration d hd), .refl d⟩
  · obtain ⟨other, hother, hwidens⟩ := h.exists_wider he
    obtain ⟨x, hx, hwider⟩ := h.entityInputs_covered hv he hwidens d hd
    exact ⟨x, mem_inputs_of_entity hother hx, hwider⟩
  · obtain ⟨other, hother, hwidens⟩ := h.exists_wider ho
    obtain ⟨x, hx, hwider⟩ := h.nestedWrites_covered hv ho hwidens hf d hd
    exact ⟨x, mem_inputs_of_field hother (hwidens.relationFields ▸ hf) hx, hwider⟩

end

end Widens

/-! ### Accepted values -/

section
variable {model wider : DataModel} (h : model.Widens wider)
include h

theorem Widens.resolved (hm : model.Resolved)
    (hdeclared : ∀ entity ∈ wider.entities, ∀ field ∈ entity.fields, ∀ name, field.enumeration? = some name →
      ∃ enumeration ∈ model.enumerations, enumeration.name = name) : wider.Resolved where
  targets other ho field hf relation hr := by
    obtain ⟨entity, he, hwidens⟩ := h.exists_narrower ho
    have hrelation : field ∈ entity.relationFields := by
      rw [← hwidens.relationFields]
      exact List.mem_filter.mpr ⟨hf, by simp [Field.isRelation, hr]⟩
    obtain ⟨target, ht, hname⟩ := hm.targets entity he field (List.mem_of_mem_filter hrelation) relation hr
    obtain ⟨target', ht', hw⟩ := h.exists_wider ht
    exact ⟨target', ht', hw.name.trans hname⟩
  enumerations other ho field hf name hn := h.enumerations ▸ hdeclared other ho field hf name hn

/-- Where neither document drops a declaration, whatever an input accepts is accepted in the wider model, and stays
as it is in both. -/
theorem Widens.parse_eq_ok (hv : model.validate = .ok ()) (hw : wider.Resolved) (hd : model.DropsNothing)
    (hd' : wider.DropsNothing) {name : String} (hn : model.Provides name) {value result : Json}
    (hparse : model.document.parse name value.normal = .ok result) :
    wider.document.parse name value.normal = .ok result := by
  have hm : model.Resolved := resolved_of_validate hv
  have hclosed : ∀ name, model.Provides name → ∀ x, model.document.find? name = some x →
      x.schema.Within model.Provides := fun _ hn _ hx => hd.within_of_find? hm hn hx
  have hclosed' : ∀ name, wider.Provides name → ∀ x, wider.document.find? name = some x →
      x.schema.Within wider.Provides := fun _ hn _ hx => hd'.within_of_find? hw hn hx
  have hwider : ∀ name, model.Provides name → ∀ x, model.document.find? name = some x →
      ∃ x', wider.document.find? name = some x' ∧ x.schema.Widens x'.schema := by
    rintro _ ⟨d, hmem, rfl⟩ x hx
    rw [hd.find?_input hmem] at hx
    cases hx
    obtain ⟨x', hx', hwidens⟩ := h.inputs_covered hv d hmem
    exact ⟨x', hwidens.name ▸ hd'.find?_input hx', hwidens.schema⟩
  have hn' : wider.Provides name := by
    obtain ⟨d, hmem, rfl⟩ := hn
    obtain ⟨x', hx', hwidens⟩ := h.inputs_covered hv d hmem
    exact ⟨x', hx', hwidens.name⟩
  obtain ⟨result', hresult'⟩ := (Document.makes_of_eval hparse).accepts_wider (guarded_document wider) hclosed hwider
    (.ref hn) (.refl _)
  have hsame : result = value.normal :=
    Document.eval_eq_self hclosed hparse (.ref hn) (Json.isNormal_normal value)
  have hsame' : result' = value.normal :=
    Document.eval_eq_self hclosed' hresult' (.ref hn') (Json.isNormal_normal value)
  rw [Document.parse, hresult', hsame', hsame]

end

/-- An omittable column may be added to an accepted model, anywhere in an entity: if neither document drops a
declaration, every input accepts what it accepted, and returns it as it did. -/
theorem column_adds {model wider : DataModel} (hv : model.validate = .ok ()) (hd : model.DropsNothing)
    (hd' : wider.DropsNothing) {before after : List Entity} {entity : Entity} {fields others : List Field}
    {column : Field} (hm : model.entities = before ++ entity :: after) (hf : entity.fields = fields ++ others)
    (hw : wider = ⟨before ++ { entity with fields := fields ++ column :: others } :: after, model.enumerations⟩)
    (hcolumn : entity.Admits column)
    (hdeclared : ∀ name, column.enumeration? = some name →
      ∃ enumeration ∈ model.enumerations, enumeration.name = name) :
    ∀ name ∈ model.document.names, (∀ entity ∈ model.entities, name ≠ Naming.ofEntity entity.name "") →
      ∀ value result : Json, model.document.parse name value.normal = .ok result →
        wider.document.parse name value.normal = .ok result := by
  have hwidens : model.Widens wider := by
    subst hw
    refine ⟨?_, rfl⟩
    rw [hm]
    exact List.rel_append (List.forall₂_same.mpr fun _ _ => .refl _)
      (.cons (hcolumn.widens hf) (List.forall₂_same.mpr fun _ _ => .refl _))
  have hresolved : model.Resolved := resolved_of_validate hv
  have hfields : ∀ field ∈ wider.allFields, field ∈ model.allFields ∨ field = column := by
    intro field hin
    simp only [hw, allFields, hm, hf, List.flatMap_append, List.flatMap_cons, List.mem_append, List.mem_cons] at hin ⊢
    tauto
  have hw' : wider.Resolved := by
    refine hwidens.resolved hresolved fun other ho field hin name hn => ?_
    rcases hfields field (mem_allFields.mpr ⟨other, ho, hin⟩) with hin | rfl
    · obtain ⟨owner, howner, hin⟩ := mem_allFields.mp hin
      exact hresolved.enumerations owner howner field hin name hn
    · exact hdeclared name hn
  intro name hn hrecord value result hparse
  exact hwidens.parse_eq_ok hv hw' hd hd' (provides_of_mem_names hn hrecord) hparse

/-- A name that may be missing. -/
def nickname : Field := { Field.plain "nickname" (.scalar .string) with isRequired := false }

/-- Users with such a name. -/
def namedUsers : DataModel := ⟨[{ user with fields := user.fields.take 2 ++ nickname :: user.fields.drop 2 }], []⟩

theorem dropsNothing_namedUsers : namedUsers.DropsNothing := by decide +kernel

theorem admits_nickname : user.Admits nickname :=
  ⟨rfl, by decide, rfl, rfl, rfl, fun hnone => absurd hnone (by decide)⟩

/-- Where users get nicknames, they are found by the same conditions, and groups of them go by the same fields. -/
theorem users_named : users.validate = .ok () ∧ users.DropsNothing ∧ namedUsers.DropsNothing ∧ user.Admits nickname ∧
    (∀ value result : Json, users.document.parse (Naming.ofEntity user.name "WhereInput") value.normal = .ok result →
      namedUsers.document.parse (Naming.ofEntity user.name "WhereInput") value.normal = .ok result) ∧
    namedUsers.document.parse (Naming.ofEntity user.name "ScalarFieldEnum") (.string "parentId") =
      .ok (.string "parentId") := by
  have hentities : users.entities = [] ++ user :: [] := rfl
  have hfields : user.fields = user.fields.take 2 ++ user.fields.drop 2 := rfl
  have hadds := column_adds validate_users dropsNothing_users dropsNothing_namedUsers hentities hfields rfl
    admits_nickname (fun _ hn => by cases hn)
  have huser : user ∈ users.entities := List.mem_cons_self
  have hprovided : ∀ suffix ∈ ["WhereInput", "ScalarFieldEnum"],
      Naming.ofEntity user.name suffix ∈ users.document.names := fun suffix hs =>
    (provides_ofEntity huser (by revert suffix; decide)).mem_names
  have hfind : users.document.find? (Naming.ofEntity user.name "ScalarFieldEnum") = some user.fieldNamesDeclaration :=
    dropsNothing_users.find?_input (mem_inputs_of_entity huser List.mem_cons_self)
  have hmember : users.document.parse (Naming.ofEntity user.name "ScalarFieldEnum") (Json.string "parentId").normal =
      .ok (.string "parentId") :=
    Document.eval_ref_eq_ok_iff.mpr ⟨List.not_mem_nil, _, hfind,
      Document.eval_enumeration_eq_ok_iff.mpr ⟨"parentId", rfl, by decide, rfl⟩⟩
  exact ⟨validate_users, dropsNothing_users, dropsNothing_namedUsers, admits_nickname,
    hadds _ (hprovided _ (by simp)) (by decide), hadds _ (hprovided _ (by simp)) (by decide) _ _ hmember⟩

/-! ### The first number -/

section
variable {model : DataModel} {entity : Entity} (hd : model.DropsNothing)
include hd

theorem DropsNothing.find?_orderGroupsBy (he : entity ∈ model.entities) :
    model.document.find? (Naming.ofEntity entity.name "OrderByWithAggregationInput") = some entity.orderGroupsBy := by
  have hmem : entity.orderGroupsBy ∈ model.entityInputs entity := by simp [entityInputs, queryDeclarations]
  exact hd.find?_input (mem_inputs_of_entity he hmem)

theorem DropsNothing.accepts_byValue (field : Field) :
    model.document.Accepts (Ordering.byValue field) (.string "asc") := by
  have hguarded := guarded_document model
  have hmem : (⟨Naming.sortOrder, .enumeration ["asc", "desc"]⟩ : Declaration) ∈ model.sharedInputs := by
    simp [sharedInputs, Primitives.declarations, Primitives.ordering]
  have hdirection : model.document.Accepts (.ref Naming.sortOrder) (.string "asc") :=
    (hguarded.accepts_ref_of_find? (hd.find?_input (mem_inputs_of_shared hmem))).mpr
      (Document.accepts_enumeration.mpr ⟨"asc", by simp, rfl⟩)
  unfold Ordering.byValue
  split
  · exact Document.accepts_optional.mpr (hguarded.accepts_union.mpr ⟨_, List.mem_cons_self, hdirection⟩)
  · exact Document.accepts_optional.mpr hdirection

/-- Without numbers a value field may have the name of a total, and groups are ordered by it. -/
theorem DropsNothing.accepts_order (he : entity ∈ model.entities) (hn : entity.hasNumericFields = false)
    {field : Field} (hf : field ∈ entity.valueFields) (hkey : field.name ∈ ["_avg", "_sum"]) :
    model.document.Accepts (.ref (Naming.ofEntity entity.name "OrderByWithAggregationInput"))
      (.object [(field.name, .string "asc")]) := by
  refine ((guarded_document model).accepts_ref_of_find? (hd.find?_orderGroupsBy he)).mpr
    (Document.accepts_strictObject.mpr ⟨_, rfl, List.forall_mem_singleton.mpr ?_, ⟨?_, ?_⟩⟩)
  · exact List.mem_map.mpr ⟨_, List.mem_append_left _ (List.mem_map_of_mem hf), rfl⟩
  · refine List.forall_mem_append.mpr ⟨List.forall_mem_map.mpr fun _ _ _ => Entity.acceptsAbsent_byValue _, ?_⟩
    exact List.forall_mem_map.mpr fun _ _ _ => rfl
  · have hentry : ∀ key part, Json.entry? [(field.name, Json.string "asc")] key = some part →
        key = field.name ∧ part = .string "asc" := fun key part hpart =>
      Prod.mk.inj (List.mem_singleton.mp (Json.mem_of_entry_eq_some hpart))
    refine List.forall_mem_append.mpr ⟨List.forall_mem_map.mpr fun other _ part hpart => ?_,
      List.forall_mem_map.mpr fun total htotal part hpart => ?_⟩
    · obtain ⟨-, rfl⟩ := hentry _ _ hpart
      exact hd.accepts_byValue other
    · -- Without numbers the totals are left out of the aggregates.
      obtain ⟨hname, -⟩ := hentry _ _ hpart
      have haggregates : ∀ aggregate ∈ entity.orderedAggregates, aggregate.1 ∉ ["_avg", "_sum"] := by
        simp [Entity.orderedAggregates, hn]
      exact absurd (hname ▸ hkey) (haggregates total htotal)

/-- With numbers totals are ordered by field by field, so no value field can be ordered by under their names. -/
theorem DropsNothing.rejects_order (he : entity ∈ model.entities) (hn : entity.hasNumericFields = true) {key : String}
    (hkey : key ∈ ["_avg", "_sum"]) :
    ¬ model.document.Accepts (.ref (Naming.ofEntity entity.name "OrderByWithAggregationInput"))
      (.object [(key, .string "asc")]) := by
  have hguarded := guarded_document model
  obtain ⟨aggregate, haggregate⟩ : ∃ aggregate, (key, aggregate, entity.numericFields) ∈ entity.orderedAggregates := by
    simp only [List.mem_cons, List.not_mem_nil, or_false] at hkey
    rcases hkey with rfl | rfl
    · exact ⟨"Avg", by simp [Entity.orderedAggregates, hn]⟩
    · exact ⟨"Sum", by simp [Entity.orderedAggregates, hn]⟩
  let total : Declaration := ⟨entity.orderByAggregateName aggregate, Ordering.perField entity.numericFields⟩
  have hmem : total ∈ entity.orderByAggregates := List.mem_map.mpr ⟨_, haggregate, rfl⟩
  have htotal : model.document.find? total.name = some total :=
    hd.find?_input (mem_inputs_of_entity he (by simp [entityInputs, queryDeclarations, hmem]))
  intro hgroups
  obtain ⟨entries, heq, -, hfits⟩ :=
    Document.accepts_strictObject.mp ((hguarded.accepts_ref_of_find? (hd.find?_orderGroupsBy he)).mp hgroups)
  cases heq
  have hpart := hfits.present (key, (Schema.ref total.name).optional)
    (List.mem_append_right _ (List.mem_map.mpr ⟨_, haggregate, rfl⟩)) (.string "asc") (by simp [Json.entry?])
  obtain ⟨entries, heq, -⟩ := Document.accepts_strictObject.mp
    ((hguarded.accepts_ref_of_find? htotal).mp (Document.accepts_optional.mp hpart))
  cases heq

end

/-- A reading without numbers, though with a field of the name by which averages are ordered. -/
def reading : Entity :=
  ⟨"Reading", [{ Field.plain "id" (.scalar .string) with isId := true }, .plain "_avg" (.scalar .string)], none, []⟩

/-- The first number. -/
def level : Field := { Field.plain "level" (.scalar .int) with isRequired := false }

def leveledReading : Entity := { reading with fields := reading.fields ++ [level] }

def readings : DataModel := ⟨[reading], []⟩

def leveledReadings : DataModel := ⟨[leveledReading], []⟩

/-- With its first number an entity orders groups by averages, and a field of that name can no more be ordered by. -/
theorem first_number_narrows :
    readings.validate = .ok () ∧ readings.DropsNothing ∧ leveledReadings.DropsNothing ∧
    level.isRelation = false ∧ ¬ reading.Knows level.name ∧ level.isOmittable = true ∧ level.isId = false ∧
    level.isUnique = false ∧ level.enumeration? = none ∧
    (∃ result, readings.document.parse (Naming.ofEntity reading.name "OrderByWithAggregationInput")
      (Json.object [("_avg", .string "asc")]).normal = .ok result) ∧
    ∀ result, leveledReadings.document.parse (Naming.ofEntity reading.name "OrderByWithAggregationInput")
      (Json.object [("_avg", .string "asc")]).normal ≠ .ok result := by
  have hd : readings.DropsNothing := by decide +kernel
  have hd' : leveledReadings.DropsNothing := by decide +kernel
  have hreading : reading ∈ readings.entities := List.mem_cons_self
  have hleveled : leveledReading ∈ leveledReadings.entities := List.mem_cons_self
  have haverage : reading.fields[1] ∈ reading.valueFields := by decide
  have haccepts := hd.accepts_order hreading (by decide) haverage (by decide)
  have hrejects := hd'.rejects_order hleveled (by decide) (show "_avg" ∈ ["_avg", "_sum"] by decide)
  exact ⟨by decide, hd, hd', rfl, by decide, rfl, rfl, rfl, rfl, haccepts,
    fun result hresult => hrejects ⟨result, hresult⟩⟩

end DataModel

end DataShapes
