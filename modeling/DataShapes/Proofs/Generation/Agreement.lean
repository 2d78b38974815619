import DataShapes.Proofs.Generation.Clashes
import DataShapes.Proofs.Generation.Overlaps
import Mathlib.Data.List.DropRight

/-! # Owners that agree

Where names of a model do not clash, two owners declare the same under one name. For one owner this comes
from the list that it has its declarations from, for two from what names of theirs begin with and end in: a
name of both is spelled in one of the ways of a clash, so that what clashes by its spelling alone is not
there, and what need not clash is the same. -/

namespace DataShapes

/-! ### Names of the vocabulary and of enumerations -/

namespace DataModel

/-- No name of the vocabulary begins like that of an input of an enumeration, ends in a suffix of an entity, or has what
stands in the names of nested writes. -/
theorem vocabulary_table : ∀ d ∈ vocabulary,
    ¬ bytesOf "Enum" <+: bytesOf d.name ∧ ¬ bytesOf "NullableEnum" <+: bytesOf d.name ∧
    (∀ s ∈ Entity.fixedSuffixes, s ≠ "" → ¬ bytesOf s <:+ (bytesOf d.name).rdrop (bytesOf "Schema").length) ∧
    ∀ mark ∈ NestedRole.marks, ¬ bytesOf mark <:+: bytesOf d.name := by
  decide

end DataModel

namespace Naming

/-- The ending of a filter of an enumeration is also that of filters of relations, while nothing of an entity ends like
operations, -/
theorem enumeration_table : ∀ s ∈ Entity.fixedSuffixes, s ≠ "" →
    (∀ m ∈ Multiplicity.all, bytesOf (filterSuffix m) <:+ bytesOf (s ++ "Schema") ∨
      bytesOf (s ++ "Schema") <:+ bytesOf (filterSuffix m) → m = .required ∧
        ∃ p ∈ [("Relation", Multiplicity.required), ("NullableRelation", .nullable), ("ListRelation", .list)],
          s = p.1 ++ "Filter") ∧
    ¬ (bytesOf "FieldUpdateOperationsInputSchema" <:+ bytesOf (s ++ "Schema") ∨
      bytesOf (s ++ "Schema") <:+ bytesOf "FieldUpdateOperationsInputSchema") := by
  decide

/-- and no nested write ends like a filter. -/
theorem filterSuffix_write : ∀ m ∈ Multiplicity.all, ∀ ending ∈ NestedRole.endings,
    ¬ (bytesOf (filterSuffix m) <:+ bytesOf (ending ++ "Schema") ∨
      bytesOf (ending ++ "Schema") <:+ bytesOf (filterSuffix m)) := by
  decide

theorem enumerationFilter_eq_of_suffix {a b : String} {m m' : Multiplicity}
    (h : enumerationFilter a m = enumerationFilter b m')
    (hs : bytesOf (filterSuffix m) <:+ bytesOf (filterSuffix m')) : a = b ∨ m = .required ∧
      ∃ more, (more, m') ∈ [("Nullable", Multiplicity.nullable), ("NullableList", .list)] ∧ a = b ++ more := by
  have cancel : ∀ more, filterSuffix m' = more ++ filterSuffix m → a = b ++ more := fun more hmore => by
    rw [enumerationFilter, enumerationFilter, hmore, String.append_assoc, String.append_assoc] at h
    have h : a ++ filterSuffix m = b ++ (more ++ filterSuffix m) := (String.append_right_inj _).mp h
    rw [← String.append_assoc] at h
    exact (String.append_left_inj _).mp h
  cases m <;> cases m' <;> first
    | exact Or.inl (cancel "" rfl |>.trans String.append_empty)
    | exact Or.inr ⟨rfl, "Nullable", by decide, cancel "Nullable" rfl⟩
    | exact Or.inr ⟨rfl, "NullableList", by decide, cancel "NullableList" rfl⟩
    | exact absurd hs (by decide)

/-- Operations on enumerations of different names have different names. -/
theorem enumerationOperations_inj {a b : String} {nullable nullable' : Bool}
    (h : enumerationOperations a nullable = enumerationOperations b nullable') : a = b := by
  rw [enumerationOperations_eq, enumerationOperations_eq] at h
  have h := (String.append_left_inj _).mp h
  cases nullable <;> cases nullable'
  · exact (String.append_right_inj _).mp h
  · exact absurd (prefix_or_prefix_of_append_eq h) (by decide)
  · exact absurd (prefix_or_prefix_of_append_eq h) (by decide)
  · exact (String.append_right_inj _).mp h

theorem enumerationFilter_ne_operations (a b : String) (m : Multiplicity) (nullable : Bool) :
    enumerationFilter a m ≠ enumerationOperations b nullable := by
  rw [enumerationOperations_eq, enumerationFilter]
  cases m <;> exact append_ne_append_of_endings (by decide) (by decide) _ _

end Naming

namespace DataModel
variable {model : DataModel}

/-- A filter of relations tells that there are some. -/
theorem has_of_relationFilter {entity : Entity} {d : Declaration} (hd : d ∈ model.entityDeclarations entity)
    (more : String) {m : Multiplicity}
    (hmore : (more, m) ∈ [("Relation", .required), ("NullableRelation", .nullable), ("ListRelation", .list)])
    (hn : d.name = Naming.ofEntity entity.name (more ++ "Filter")) :
    (model.targetUsage entity.name).has m = true := by
  have hsuffix := mem_inputSuffixes_of_name hd hn
  simp only [List.mem_cons, Prod.mk.injEq, List.not_mem_nil, or_false] at hmore
  rcases hmore with ⟨rfl, rfl⟩ | ⟨rfl, rfl⟩ | ⟨rfl, rfl⟩ <;>
    simpa [Entity.inputSuffixes, Entity.querySuffixes, Entity.payloadSuffixes, Entity.argumentSuffixes, Usage.has]
      using hsuffix

/-- Whatever the two owners declare under one name is the same. -/
def Agree (model : DataModel) (o o' : Owner) : Prop :=
  ∀ a b, (o, a) ∈ model.owned → (o', b) ∈ model.owned → a.name = b.name → a.schema = b.schema

theorem Agree.symm {o o' : Owner} (h : model.Agree o o') : model.Agree o' o :=
  fun a b ha hb hn => (h b a hb ha hn.symm).symm

theorem NamedApart.schema_of_name_eq_fieldNames (hm : model.NamedApart) {entity : Entity} (he : entity ∈ model.entities)
    {d : Declaration} (hd : (.entity entity.name, d) ∈ model.owned)
    (hn : d.name = Naming.ofEntity entity.name "ScalarFieldEnum") :
    d.schema = .enumeration (entity.valueFields.map (·.name)) := by
  rcases entity_cases hd with ⟨e, he', hname, hd⟩ | ⟨field, edge, role, hwrite, hname⟩
  · obtain rfl := hm.entity_eq he he' hname
    rw [eq_of_name_entityDeclarations hd (fieldNames_mem_entityDeclarations model entity) hn]
    rfl
  · rw [hname] at hn
    exact absurd (hwrite.name_eq.symm.trans hn)
      (NestedRole.name_ne_ofEntity hwrite.mem_possible (.ofEdge edge) (by decide) (by decide))

section
variable (hc : ¬ model.Clash)
include hc

/-! ### Different owners -/

/-- Only an entity gives its own name. -/
theorem ne_record {o : Owner} {entity : Entity} (he : entity ∈ model.entities) (ho : o ≠ .entity entity.name)
    {d : Declaration} (hd : (o, d) ∈ model.owned) : d.name ≠ Naming.ofEntity entity.name "" := by
  intro hn
  have hown : entity.name ∈ model.entities.map (·.name) ++ model.enumerations.map (·.name) :=
    List.mem_append_left _ (List.mem_map_of_mem he)
  cases o with
  | shared => exact hc (.shared he (mem_owned_shared.mp hd) hn)
  | enumeration name =>
    rw [Naming.ofEntity, String.append_empty] at hn
    obtain ⟨e, he', rfl, rfl | ⟨m, hu, hm⟩ | ⟨nullable, hu, rfl⟩⟩ := enumeration_cases hd
    · exact hc (.enumeration he he' ((String.append_left_inj _).mp hn.symm))
    · exact hc (.input hown he' (Or.inl ⟨m, hu, hm.symm.trans hn⟩))
    · exact hc (.input hown he' (Or.inr ⟨nullable, hu, hn⟩))
  | entity name =>
    obtain ⟨other, hother, rfl, s, hs⟩ := exists_entity_of_owned hd
    have hname : entity.name = other.name ++ s := by
      rw [hs, Naming.ofEntity, Naming.ofEntity, String.append_empty] at hn
      exact ((String.append_left_inj _).mp hn).symm
    have hne : s ≠ "" := by
      rintro rfl
      exact ho (congrArg Owner.entity (hname.trans String.append_empty).symm)
    exact hc (.suffix ⟨hother, he, hname⟩ hne hd hs)

/-- What else has the name of an enumeration lists its members. -/
theorem schema_eq_members (hm : model.NamedApart) {o : Owner} {e : Enumeration} (he : e ∈ model.enumerations)
    (ho : o ≠ .enumeration e.name) {d : Declaration} (hd : (o, d) ∈ model.owned) (hn : d.name = e.declaration.name) :
    d.schema = e.declaration.schema := by
  by_contra hne
  have hown : e.name ∈ model.entities.map (·.name) ++ model.enumerations.map (·.name) :=
    List.mem_append_right _ (List.mem_map_of_mem he)
  cases o with
  | shared => exact hc (.sharedMembers he (mem_owned_shared.mp hd) hn hne)
  | enumeration name =>
    obtain ⟨other, hother, rfl, rfl | ⟨m, hu, hm⟩ | ⟨nullable, hu, rfl⟩⟩ := enumeration_cases hd
    · exact ho (congrArg Owner.enumeration ((String.append_left_inj _).mp hn))
    · exact hc (.input hown hother (Or.inl ⟨m, hu, hm.symm.trans hn⟩))
    · exact hc (.input hown hother (Or.inr ⟨nullable, hu, hn⟩))
  | entity name =>
    obtain ⟨entity, hentity, rfl, s, hs⟩ := exists_entity_of_owned hd
    have hname : e.name = entity.name ++ s := ((String.append_left_inj _).mp (hs.symm.trans hn)).symm
    by_cases hempty : s = ""
    · subst hempty
      exact hc (.enumeration hentity he (hname.trans String.append_empty).symm)
    · refine hc (.suffixMembers he hentity hname hempty hd hs fun hfields hvalues => hne ?_)
      rw [hm.schema_of_name_eq_fieldNames hentity hd (hfields ▸ hs), hvalues, Enumeration.declaration]

theorem agree_shared_enumeration (hm : model.NamedApart) (name : String) : model.Agree .shared (.enumeration name) := by
  intro a b ha hb hn
  obtain ⟨e, he, rfl, hcases⟩ := enumeration_cases hb
  have hvocabulary : a ∈ vocabulary := mem_vocabulary_of_mem_shared (mem_owned_shared.mp ha)
  obtain ⟨henum, hnullable, -⟩ := vocabulary_table a hvocabulary
  rcases hcases with rfl | ⟨m, -, hb⟩ | ⟨nullable, -, rfl⟩
  · exact schema_eq_members hc hm he (by simp) ha hn
  · rw [hb, Naming.enumerationFilter, String.append_assoc] at hn
    exact absurd (prefix_of_append_eq hn.symm) henum
  · rw [Naming.enumerationOperations_eq, String.append_assoc] at hn
    cases nullable with
    | false => exact absurd (prefix_of_append_eq hn.symm) henum
    | true => exact absurd (prefix_of_append_eq hn.symm) hnullable

theorem agree_shared_entity (name : String) : model.Agree .shared (.entity name) := by
  intro a b ha hb hn
  obtain ⟨-, -, hfixed, hmarks⟩ :=
    vocabulary_table a (mem_vocabulary_of_mem_shared (mem_owned_shared.mp ha))
  rcases entity_cases hb with ⟨e, he, rfl, hd⟩ | ⟨field, edge, role, hwrite, rfl⟩
  · obtain ⟨s, hs, hb⟩ := exists_fixedSuffix hd
    rw [hb] at hn
    by_cases hne : s = ""
    · subst hne
      exact absurd hn (ne_record hc he (by simp) ha)
    · refine absurd ?_ (hfixed s hs hne)
      rw [hn, Naming.ofEntity, bytesOf_append, List.rdrop_append_length]
      exact suffix_of_append_eq rfl
  · rw [hwrite.name_eq_ofEntity] at hn
    obtain ⟨mark, hmark, hwithin⟩ := NestedRole.exists_mark_of_append_eq rfl
    refine absurd (hwithin.trans ?_) (hmarks mark hmark)
    exact (prefix_of_append_eq hn.symm).isInfix

theorem agree_enumerations (hm : model.NamedApart) {name name' : String} (hne : name ≠ name') :
    model.Agree (.enumeration name) (.enumeration name') := by
  intro a b ha hb hn
  obtain ⟨e, he, rfl, hcases⟩ := enumeration_cases ha
  obtain ⟨e', he', rfl, hcases'⟩ := enumeration_cases hb
  have howner : Owner.enumeration e.name ≠ .enumeration e'.name := fun h => hne (Owner.enumeration.inj h)
  rcases hcases with rfl | ⟨m, hu, ham⟩ | ⟨nullable, -, rfl⟩
  · exact (schema_eq_members hc hm he howner.symm hb hn.symm).symm
  · rcases hcases' with rfl | ⟨m', hu', hbm⟩ | ⟨nullable', -, rfl⟩
    · exact schema_eq_members hc hm he' howner ha hn
    · exfalso
      have hname : Naming.enumerationFilter e.name m = Naming.enumerationFilter e'.name m' :=
        ham.symm.trans (hn.trans hbm)
      rcases suffix_or_suffix_of_append_eq hname with hs | hs
      · rcases Naming.enumerationFilter_eq_of_suffix hname hs with heq | ⟨rfl, more, hmore, heq⟩
        · exact hne heq
        · exact hc (.filters he he' hmore heq hu hu')
      · rcases Naming.enumerationFilter_eq_of_suffix hname.symm hs with heq | ⟨rfl, more, hmore, heq⟩
        · exact hne heq.symm
        · exact hc (.filters he' he hmore heq hu' hu)
    · exact absurd (ham.symm.trans hn) (Naming.enumerationFilter_ne_operations _ _ _ _)
  · rcases hcases' with rfl | ⟨m', -, hbm⟩ | ⟨nullable', -, rfl⟩
    · exact schema_eq_members hc hm he' howner ha hn
    · exact absurd (hbm.symm.trans hn.symm) (Naming.enumerationFilter_ne_operations _ _ _ _)
    · exact absurd (Naming.enumerationOperations_inj hn) hne

theorem agree_enumeration_entity (hm : model.NamedApart) (name name' : String) :
    model.Agree (.enumeration name) (.entity name') := by
  intro a b ha hb hn
  obtain ⟨e, he, rfl, hcases⟩ := enumeration_cases ha
  rcases entity_cases hb with ⟨entity, hentity, rfl, hd⟩ | ⟨field, edge, role, hwrite, rfl⟩
  · obtain ⟨s, hs, hbs⟩ := exists_fixedSuffix hd
    by_cases hempty : s = ""
    · subst hempty
      exact absurd (hn.trans hbs) (ne_record hc hentity (by simp) ha)
    rcases hcases with rfl | ⟨m, hu, ham⟩ | ⟨nullable, -, rfl⟩
    · exact (schema_eq_members hc hm he (by simp) hb hn.symm).symm
    · have hname : "Enum" ++ e.name ++ Naming.filterSuffix m = entity.name ++ s ++ "Schema" :=
        ham.symm.trans (hn.trans hbs)
      obtain ⟨rfl, ⟨more, m'⟩, hmore, rfl⟩ := (Naming.enumeration_table s hs hempty).1 m m.mem_all
        (suffix_or_suffix_of_append_eq (hname.trans String.append_assoc))
      exfalso
      refine hc (.relationFilter he hentity hmore ?_ hu (has_of_relationFilter hd more hmore hbs))
      have hname : "Enum" ++ e.name ++ "FilterSchema" = entity.name ++ more ++ "FilterSchema" := by
        simpa only [Naming.filterSuffix, String.append_assoc, String.reduceAppend] using hname
      exact (String.append_left_inj _).mp hname
    · have hname := (Naming.enumerationOperations_eq e.name nullable).symm.trans (hn.trans hbs)
      exact absurd (suffix_or_suffix_of_append_eq (hname.trans String.append_assoc))
        (Naming.enumeration_table s hs hempty).2
  · rcases hcases with rfl | ⟨m, -, ham⟩ | ⟨nullable, hu, rfl⟩
    · exact (schema_eq_members hc hm he (by simp) hb hn.symm).symm
    · have hname : "Enum" ++ e.name ++ Naming.filterSuffix m =
          edge.target.name ++ role.opening ++ edge.spelling ++ (role.ending ++ "Schema") := by
        simpa only [Naming.enumerationFilter, Naming.ofEntity, NestedRole.suffix, String.append_assoc] using
          ham.symm.trans (hn.trans hwrite.name_eq_ofEntity)
      exact absurd (suffix_or_suffix_of_append_eq hname)
        (Naming.filterSuffix_write m m.mem_all _ (NestedRole.ending_mem_endings role hwrite.mem_possible))
    · by_contra hne
      have hname : edge.target.name ++ role.suffix edge.spelling =
          (if nullable then "NullableEnum" else "Enum") ++ e.name ++ "FieldUpdateOperationsInput" := by
        have hname := hn.symm.trans (Naming.enumerationOperations_eq e.name nullable)
        rw [hwrite.name_eq_ofEntity] at hname
        refine (String.append_left_inj "Schema").mp (hname.trans ?_)
        simp only [String.append_assoc, String.reduceAppend]
      obtain ⟨hending, front, hs, hstem⟩ :=
        NestedRole.exists_of_append_suffix_eq_operations hwrite.mem_possible hname
      exact hc (.operations he hu hwrite hending hs hstem (Ne.symm hne))

/-! ### Different entities -/

theorem scalarWhere_agree {entity other : Entity} (h : model.RunsOn entity "Scalar" other)
    (hu : (model.targetUsage entity.name).list = true) :
    (entity.scalarWhere "ScalarWhereInput").schema = other.whereInput.schema := by
  have hproperties : Entity.propertiesOf entity.valueFields Condition.onValue? =
      Entity.propertiesOf other.fields Condition.onField? := by
    by_contra hne
    exact hc (.scalarWhere h hu hne)
  have hself : Naming.ofEntity entity.name "ScalarWhereInput" = Naming.ofEntity other.name "WhereInput" :=
    h.ofEntity_eq "WhereInput"
  rw [Entity.scalarWhere, Entity.whereInput, hself, hproperties]

theorem counts_agree {entity other : Entity} (h : model.RunsOn entity "CountOutputType" other)
    (hlists : entity.ownsListRelation = true) : entity.countSelection (Graph.ofModel model) =
      [⟨Naming.ofEntity entity.name "CountOutputTypeSelect", other.fieldSelection.schema⟩,
        ⟨Naming.ofEntity entity.name "CountOutputTypeArgs", other.singleArguments.schema⟩] := by
  obtain ⟨hnone, hnames⟩ : other.hasRelations = false ∧
      (entity.countableFields (Graph.ofModel model)).map (·.name) = other.valueFields.map (·.name) := by
    by_contra hne
    refine hc (.counts h hlists ?_)
    rw [← Bool.not_eq_false, ← not_and_or]
    exact hne
  have hselect : Naming.ofEntity entity.name "CountOutputTypeSelect" = Naming.ofEntity other.name "Select" :=
    h.ofEntity_eq "Select"
  have hflags : ∀ fields : List Field, fields.map (fun field => (field.name, Selection.flag.optional)) =
      (fields.map (·.name)).map (·, Selection.flag.optional) := fun fields => by rw [List.map_map]; rfl
  rw [Entity.countSelection, if_pos hlists, Entity.fieldSelection, Entity.relationChoices_eq_nil hnone,
    List.append_nil, hflags, hflags, hnames]
  simp [Entity.singleArguments, Entity.selection, hnone, hselect]

theorem unchecked_agree {entity other : Entity} (h : model.RunsOn entity "Unchecked" other) (purpose : Purpose) :
    Payload.properties (Graph.ofModel model) purpose .unchecked entity none =
      Payload.properties (Graph.ofModel model) purpose .checked other none := by
  by_contra hne
  exact hc (.unchecked h hne)

/-- Declarations that are named on two entities alone. -/
theorem fixed_agree {entity other : Entity} {more : String} (h : model.RunsOn entity more other) (hmore : more ≠ "")
    {a b : Declaration} (ha : a ∈ model.entityDeclarations entity) (hb : b ∈ model.entityDeclarations other)
    (hn : a.name = b.name) : a.schema = b.schema := by
  have hne : Owner.entity entity.name ≠ .entity other.name := fun heq => h.name_ne hmore (Owner.entity.inj heq)
  have howned : (.entity entity.name, a) ∈ model.owned := mem_owned_entity.mpr (Or.inl ⟨entity, h.mem, rfl, ha⟩)
  obtain ⟨t, ht, hat⟩ := exists_fixedSuffix ha
  obtain ⟨s, hs, hbs⟩ := exists_fixedSuffix hb
  obtain rfl : t = more ++ s :=
    Naming.ofEntity_inj (hat.symm.trans (hn.trans (hbs.trans (h.ofEntity_eq s).symm)))
  by_cases hempty : s = ""
  · subst hempty
    exact absurd (hn.trans hbs) (ne_record hc h.mem_other hne howned)
  have hsuffix := mem_inputSuffixes_of_name ha hat
  -- Both suffixes are fixed and one ends in the other, which only few pairs do.
  rcases Entity.overlaps_cases (Entity.mem_overlaps hs hempty hmore ht) with
    ⟨rfl, rfl⟩ | ⟨rfl, purpose, rfl⟩ | ⟨rfl, hs⟩ | ⟨m, hm, rfl⟩ | ⟨hstem, rfl⟩
  · have hu : (model.targetUsage entity.name).list = true := by
      simpa [Entity.inputSuffixes, Entity.querySuffixes, Entity.payloadSuffixes, Entity.argumentSuffixes] using hsuffix
    obtain rfl : a = entity.scalarWhere "ScalarWhereInput" := eq_of_name_entityDeclarations ha
      (query_mem_entityDeclarations (by simp [queryDeclarations, Entity.bulkWhere, hu])) hat
    obtain rfl : b = other.whereInput := eq_of_name_entityDeclarations hb
      (query_mem_entityDeclarations (by simp [queryDeclarations])) hbs
    exact scalarWhere_agree hc h hu
  · obtain rfl := eq_of_name_entityDeclarations ha (uncheckedPayload_mem_entityDeclarations entity purpose) hat
    obtain rfl := eq_of_name_entityDeclarations hb (checkedPayload_mem_entityDeclarations other purpose) hbs
    rw [unchecked_agree hc h purpose]
  · have hlists : entity.ownsListRelation = true := by
      rcases hs with rfl | rfl <;>
        simpa [Entity.inputSuffixes, Entity.querySuffixes, Entity.payloadSuffixes, Entity.argumentSuffixes]
          using hsuffix
    have hcounts : ∀ d ∈ entity.countSelection (Graph.ofModel model), d ∈ model.entityDeclarations entity :=
      fun d hd => query_mem_entityDeclarations (by simp [queryDeclarations, hd])
    rw [counts_agree hc h hlists] at hcounts
    rcases hs with rfl | rfl
    · obtain rfl := eq_of_name_entityDeclarations ha (hcounts _ List.mem_cons_self) hat
      obtain rfl : b = other.fieldSelection := eq_of_name_entityDeclarations hb
        (query_mem_entityDeclarations (by simp [queryDeclarations])) hbs
      rfl
    · obtain rfl := eq_of_name_entityDeclarations ha (hcounts _ (List.mem_cons_of_mem _ List.mem_cons_self)) hat
      obtain rfl : b = other.singleArguments := eq_of_name_entityDeclarations hb
        (query_mem_entityDeclarations (by simp [queryDeclarations])) hbs
      rfl
  · have hu : (model.targetUsage entity.name).has m = true := by
      simp only [List.mem_cons, Prod.mk.injEq, List.not_mem_nil, or_false] at hm
      rcases hm with ⟨rfl, rfl⟩ | ⟨rfl, rfl⟩
      · exact has_of_relationFilter ha "NullableRelation" (by simp) hat
      · exact has_of_relationFilter ha "ListRelation" (by simp) hat
    have hu' := has_of_relationFilter (m := .required) hb "Relation" (by simp) hbs
    exact absurd (.relationFilters h hm hu hu') hc
  · exact absurd (.arguments h hstem) hc

/-- Nested writes in the forms of one role, named on two entities. -/
theorem uncheckedWrites_agree {field field' : Field} {edge edge' : Edge} {r s : NestedRole} {a b : Declaration}
    (h : model.RunsOn edge.target "Unchecked" edge'.target) (ha : model.Writes field edge r a)
    (hb : model.Writes field' edge' s b) (hrole : (r, s) ∈ NestedRole.uncheckedPairs)
    (hs : edge.spelling ++ r.ending = edge'.spelling ++ s.ending) : a.schema = b.schema := by
  rcases NestedRole.uncheckedPairs_cases hrole with ⟨purpose, rfl, rfl⟩ | ⟨hr, hs', hending⟩
  · have hspelling : edge.spelling = edge'.spelling := (String.append_left_inj _).mp hs
    obtain rfl := Graph.eq_of_name_eq ha.mem (Graph.uncheckedPayload_mem_writesTo _ edge field purpose) ha.name_eq
    obtain rfl := Graph.eq_of_name_eq hb.mem (Graph.checkedPayload_mem_writesTo _ edge' field' purpose) hb.name_eq
    have hproperties : Payload.properties (Graph.ofModel model) purpose .unchecked edge.target (some edge.reverse) =
        Payload.properties (Graph.ofModel model) purpose .checked edge'.target (some edge'.reverse) := by
      by_contra hne
      exact hc (.uncheckedWrites ha.mem_edges hb.mem_edges h hspelling hne)
    rw [hproperties]
  · have hspelling : edge.spelling ∈ [edge'.spelling, edge'.spelling ++ "Nested"] := by
      rcases hending with heq | ⟨hinput, hnested⟩
      · rw [heq] at hs
        exact List.mem_pair.mpr (Or.inl ((String.append_left_inj _).mp hs))
      · rw [hinput, hnested] at hs
        exact List.mem_pair.mpr (Or.inr (NestedRole.eq_of_nestedInput hs))
    have hlist := NestedRole.isList_of_mem_all hr ha.mem_all
    have hlist' := NestedRole.isList_of_mem_all hs' hb.mem_all
    exact absurd (.uncheckedLists ha.mem_edges hb.mem_edges h hlist hlist' hspelling) hc

/-- Nested writes of an entity and whatever is named on one whose name runs on from it. -/
theorem agree_of_runsOn (hm : model.NamedApart) {entity other : Entity} {more : String}
    (h : model.RunsOn entity more other) (hmore : more ≠ "") :
    model.Agree (.entity entity.name) (.entity other.name) := by
  intro a b ha hb hn
  have hne : Owner.entity entity.name ≠ .entity other.name := fun heq => h.name_ne hmore (Owner.entity.inj heq)
  rcases entity_cases ha with ⟨e, he, hname, had⟩ | ⟨field, edge, role, hwrite, hname⟩
  · obtain rfl := hm.entity_eq h.mem he hname
    rcases entity_cases hb with ⟨e', he', hname', hbd⟩ | ⟨field', edge', role', hwrite', hname'⟩
    · obtain rfl := hm.entity_eq h.mem_other he' hname'
      exact fixed_agree hc h hmore had hbd hn
    · -- No fixed suffix runs on into a nested write.
      obtain rfl := hm.entity_eq h.mem_other (target_mem_of_mem_edges hwrite'.mem_edges) hname'
      obtain ⟨t, ht, hat⟩ := exists_fixedSuffix had
      have hsuffix := hat.symm.trans (hn.trans (hwrite'.name_eq_ofEntity.trans (h.ofEntity_eq _).symm))
      exact absurd (Naming.ofEntity_inj hsuffix).symm (NestedRole.append_suffix_ne_fixed hmore ht)
  · obtain rfl := hm.entity_eq h.mem (target_mem_of_mem_edges hwrite.mem_edges) hname
    -- The longer name takes up the opening of the write, or both writes have the forms of one role.
    have hclash : ∀ front back, more = role.opening ++ front → edge.spelling = front ++ back →
        b.name = Naming.ofEntity other.name (back ++ role.ending) → a.schema = b.schema := by
      rintro front back rfl hs hbn
      by_contra hne
      exact hc (.write hwrite h hs hb hbn hne)
    rcases entity_cases hb with ⟨e', he', hname', hbd⟩ | ⟨field', edge', role', hwrite', hname'⟩
    · obtain rfl := hm.entity_eq h.mem_other he' hname'
      obtain ⟨s, hs, hbs⟩ := exists_fixedSuffix hbd
      by_cases hempty : s = ""
      · subst hempty
        exact absurd (hn.trans hbs) (ne_record hc h.mem_other hne ha)
      have hsuffix := hwrite.name_eq_ofEntity.symm.trans (hn.trans (hbs.trans (h.ofEntity_eq s).symm))
      obtain ⟨front, back, hfront, hspelling, rfl⟩ := NestedRole.exists_of_suffix_eq_append_fixed
        hwrite.mem_possible hmore hs hempty (Naming.ofEntity_inj hsuffix)
      exact hclash front back hfront hspelling hbs
    · obtain rfl := hm.entity_eq h.mem_other (target_mem_of_mem_edges hwrite'.mem_edges) hname'
      have hsuffix := hwrite.name_eq_ofEntity.symm.trans
        (hn.trans (hwrite'.name_eq_ofEntity.trans (h.ofEntity_eq _).symm))
      rcases NestedRole.exists_of_suffix_eq_append_suffix hwrite.mem_possible hwrite'.mem_possible hmore
        (Naming.ofEntity_inj hsuffix) with ⟨front, back, hfront, hspelling, hs⟩ | ⟨rfl, hrole, hs⟩
      · exact hclash front back hfront hspelling (hs ▸ hwrite'.name_eq_ofEntity)
      · exact uncheckedWrites_agree hc h hwrite hwrite' hrole hs

theorem agree_entities (hm : model.NamedApart) {name name' : String} (hne : name ≠ name') :
    model.Agree (.entity name) (.entity name') := by
  intro a b ha hb hn
  obtain ⟨entity, he, rfl, s, has⟩ := exists_entity_of_owned ha
  obtain ⟨other, ho, rfl, t, hbt⟩ := exists_entity_of_owned hb
  have hname : entity.name ++ s ++ "Schema" = other.name ++ t ++ "Schema" := has.symm.trans (hn.trans hbt)
  have hname := (String.append_left_inj _).mp hname
  rcases append_eq_append_cases hname with ⟨more, hmore, -⟩ | ⟨more, hempty, hmore, -⟩
  · have hempty : more ≠ "" := by
      rintro rfl
      exact hne (hmore.trans String.append_empty)
    exact (agree_of_runsOn hc hm ⟨ho, he, hmore⟩ hempty).symm a b ha hb hn
  · exact agree_of_runsOn hc hm ⟨he, ho, hmore⟩ hempty a b ha hb hn

/-! ### One owner -/

/-- A name of nested writes tells the edge and the write. -/
theorem write_eq {field other : Field} {edge edge' : Edge} {r s : NestedRole} {a b : Declaration}
    (ha : model.Writes field edge r a) (hb : model.Writes other edge' s b) (ht : edge.target = edge'.target)
    (hn : a.name = b.name) : a = b := by
  have hnames := ha.name_eq_ofEntity.symm.trans (hn.trans hb.name_eq_ofEntity)
  rw [ht] at hnames
  rcases NestedRole.eq_of_suffix_eq ha.mem_possible hb.mem_possible (Naming.ofEntity_inj hnames) with
    ⟨rfl, hs⟩ | ⟨rfl, rfl, hs⟩ | ⟨rfl, rfl, hs⟩
  · have hreverse : edge.reverse = edge'.reverse := by
      by_contra hne
      exact hc (.fields ha.mem_edges hb.mem_edges ht hs hne)
    obtain rfl : edge = edge' := congrArg₂ Edge.mk ht hreverse
    exact Graph.eq_of_name_eq ha.mem hb.mem hn
  all_goals
    have hlist := NestedRole.isList_of_mem_all (by decide) ha.mem_all
    have hlist' := NestedRole.isList_of_mem_all (by decide) hb.mem_all
  · exact absurd (.endings ha.mem_edges hb.mem_edges ht hlist hlist' hs) hc
  · exact absurd (.endings hb.mem_edges ha.mem_edges ht.symm hlist' hlist hs) hc

/-- It is the name of another declaration of the target at most for rows, which are the same then. -/
theorem write_schema_eq {field : Field} {edge : Edge} {role : NestedRole} {a b : Declaration}
    (ha : model.Writes field edge role a) (hb : b ∈ model.entityDeclarations edge.target) (hn : a.name = b.name) :
    a.schema = b.schema := by
  obtain ⟨s, hs, hsb⟩ := exists_fixedSuffix hb
  have hnames := ha.name_eq_ofEntity.symm.trans (hn.trans hsb)
  obtain ⟨rfl, rfl, hspelling⟩ := NestedRole.eq_of_suffix_eq_fixed ha.mem_possible hs (Naming.ofEntity_inj hnames)
  obtain ⟨hlist, hmany⟩ := NestedRole.of_rows_mem_all ha.mem_all
  have hfields : ∀ value ∈ edge.target.valueFields, value.name ∉ Payload.impliedKeys (some edge.reverse) :=
    fun value hvalue hkey => hc (.rows ha.mem_edges hlist (by simpa using hmany) hspelling hvalue hkey)
  rw [Graph.schema_of_name_eq_rows ha.mem ha.name_eq, schema_of_name_eq_rows hb hsb,
    Payload.bulkProperties_eq_iff.mpr hfields]

theorem agree_self (hm : model.NamedApart) (o : Owner) : model.Agree o o := by
  intro a b ha hb hn
  cases o with
  | shared =>
    rw [List.inj_on_of_nodup_map nodup_names_vocabulary (mem_vocabulary_of_mem_shared (mem_owned_shared.mp ha))
      (mem_vocabulary_of_mem_shared (mem_owned_shared.mp hb)) hn]
  | enumeration name =>
    obtain ⟨e, he, rfl, hda⟩ := mem_owned_enumeration.mp ha
    obtain ⟨e', he', hname, hdb⟩ := mem_owned_enumeration.mp hb
    obtain rfl := hm.enumeration_eq he he' hname
    rw [List.inj_on_of_nodup_map e.nodup_names_possibleInputs (Enumeration.mem_possibleInputs hda)
      (Enumeration.mem_possibleInputs hdb) hn]
  | entity name =>
    rcases entity_cases ha with ⟨e, he, rfl, hda⟩ | ⟨field, edge, role, hwrite, rfl⟩
    · rcases entity_cases hb with ⟨e', he', hname, hdb⟩ | ⟨field, edge, role, hwrite, hname⟩
      · obtain rfl := hm.entity_eq he he' hname
        rw [eq_of_name_entityDeclarations hda hdb hn]
      · obtain rfl := hm.entity_eq he (target_mem_of_mem_edges hwrite.mem_edges) hname
        exact (write_schema_eq hc hwrite hda hn.symm).symm
    · have htarget := target_mem_of_mem_edges hwrite.mem_edges
      rcases entity_cases hb with ⟨e, he, hname, hdb⟩ | ⟨field', edge', role', hwrite', hname⟩
      · obtain rfl := hm.entity_eq htarget he hname
        exact write_schema_eq hc hwrite hdb hn
      · have ht := hm.entity_eq htarget (target_mem_of_mem_edges hwrite'.mem_edges) hname
        rw [write_eq hc hwrite hwrite' ht hn]

/-! ### All owners -/

theorem agree (hm : model.NamedApart) (o o' : Owner) : model.Agree o o' := by
  by_cases ho : o = o'
  · subst ho
    exact agree_self hc hm o
  cases o with
  | shared =>
    cases o' with
    | shared => exact absurd rfl ho
    | enumeration name => exact agree_shared_enumeration hc hm name
    | entity name => exact agree_shared_entity hc name
  | enumeration name =>
    cases o' with
    | shared => exact (agree_shared_enumeration hc hm name).symm
    | enumeration name' => exact agree_enumerations hc hm fun heq => ho (congrArg _ heq)
    | entity name' => exact agree_enumeration_entity hc hm name name'
  | entity name =>
    cases o' with
    | shared => exact (agree_shared_entity hc name).symm
    | enumeration name' => exact (agree_enumeration_entity hc hm name' name).symm
    | entity name' => exact agree_entities hc hm fun heq => ho (congrArg _ heq)

end

end DataModel

end DataShapes
