import DataShapes.Proofs.Lookup
import DataShapes.Validation

/-! # Models without violations

What a model may rely on that validation accepts: its names are distinct, each of its kind, and what its
fields refer to is declared. -/

namespace DataShapes

theorem firstRepeated?_eq_none {seen names : List String} :
    firstRepeated? seen names = none ↔ names.Nodup ∧ ∀ name ∈ names, name ∉ seen := by
  induction names generalizing seen with
  | nil => simp [firstRepeated?]
  | cons name names ih =>
    by_cases h : name ∈ seen
    · simp [firstRepeated?, h]
    · have hs : firstRepeated? seen (name :: names) = firstRepeated? (name :: seen) names := by
        simp [firstRepeated?, h]
      rw [hs, ih, List.nodup_cons]
      constructor
      · rintro ⟨hn, hseen⟩
        refine ⟨⟨fun hm => hseen name hm List.mem_cons_self, hn⟩, fun other ho => ?_⟩
        rcases List.mem_cons.mp ho with rfl | ho
        · exact h
        · exact fun hs => hseen other ho (List.mem_cons_of_mem _ hs)
      · rintro ⟨⟨hm, hn⟩, hseen⟩
        refine ⟨hn, fun other ho hs => ?_⟩
        rcases List.mem_cons.mp hs with rfl | hs
        · exact hm ho
        · exact hseen other (List.mem_cons_of_mem _ ho) hs

theorem firstRepeated?_nil_eq_none {names : List String} : firstRepeated? [] names = none ↔ names.Nodup := by
  simp [firstRepeated?_eq_none]

namespace DataModel

/-- Relation fields lead to declared entities, and enumeration fields to declared enumerations. -/
structure Resolved (model : DataModel) : Prop where
  targets : ∀ entity ∈ model.entities, ∀ field ∈ entity.fields, ∀ relation,
    field.relation? = some relation → ∃ target ∈ model.entities, target.name = relation.target
  enumerations : ∀ entity ∈ model.entities, ∀ field ∈ entity.fields, ∀ name,
    field.enumeration? = some name → ∃ enumeration ∈ model.enumerations, enumeration.name = name

instance (model : DataModel) : Decidable model.Resolved :=
  decidable_of_iff
    (∀ entity ∈ model.entities, ∀ field ∈ entity.fields,
      (∀ relation ∈ field.relation?, ∃ target ∈ model.entities, target.name = relation.target) ∧
        ∀ name ∈ field.enumeration?, ∃ enumeration ∈ model.enumerations, enumeration.name = name)
    ⟨fun h => ⟨fun entity he field hf => (h entity he field hf).1,
        fun entity he field hf => (h entity he field hf).2⟩,
      fun h entity he field hf => ⟨h.targets entity he field hf, h.enumerations entity he field hf⟩⟩

/-- Entities, enumerations and the fields of one entity have distinct names. -/
structure NamedApart (model : DataModel) : Prop where
  enumerations : (model.enumerations.map (·.name)).Nodup
  entities : (model.entities.map (·.name)).Nodup
  fields : ∀ entity ∈ model.entities, entity.fieldNames.Nodup

section
variable {model : DataModel}

theorem NamedApart.entity_eq (h : model.NamedApart) {a b : Entity} (ha : a ∈ model.entities)
    (hb : b ∈ model.entities) (hn : a.name = b.name) : a = b :=
  List.inj_on_of_nodup_map h.entities ha hb hn

theorem NamedApart.enumeration_eq (h : model.NamedApart) {a b : Enumeration} (ha : a ∈ model.enumerations)
    (hb : b ∈ model.enumerations) (hn : a.name = b.name) : a = b :=
  List.inj_on_of_nodup_map h.enumerations ha hb hn

theorem NamedApart.field_eq (h : model.NamedApart) {entity : Entity} (he : entity ∈ model.entities)
    {a b : Field} (ha : a ∈ entity.fields) (hb : b ∈ entity.fields) (hn : a.name = b.name) : a = b :=
  List.inj_on_of_nodup_map (h.fields entity he) ha hb hn

theorem validate_eq_ok_iff : model.validate = .ok () ↔ model.violation? = none := by
  unfold validate
  cases model.violation? <;> simp

theorem structureViolation?_of_validate (h : model.validate = .ok ()) : model.structureViolation? = none :=
  (Option.or_eq_none_iff.mp (validate_eq_ok_iff.mp h)).1

/-! ### Names and references -/

/-- Names and references are in order when names are distinct and no entity has a violation of its own. -/
theorem structureViolation?_eq_none_iff : model.structureViolation? = none ↔
    (model.enumerations.map (·.name)).Nodup ∧ (model.entities.map (·.name)).Nodup ∧
      ∀ entity ∈ model.entities, entity.violation? model = none := by
  simp only [structureViolation?, Option.or_eq_none_iff, Option.map_eq_none_iff, firstRepeated?_nil_eq_none,
    List.findSome?_eq_none_iff]

/-- Relations are in order when each has its way back. -/
theorem pairingViolation?_eq_none_iff : model.pairingViolation? = none ↔
    ∀ entity ∈ model.entities, ∀ field ∈ entity.relationFields, entity.unpaired? model field = none := by
  simp only [pairingViolation?, List.findSome?_eq_none_iff]

section
variable (h : model.structureViolation? = none)
include h

/-- No entity has a violation of its own. -/
theorem entityViolation?_of_structure {entity : Entity} (he : entity ∈ model.entities) :
    entity.violation? model = none := by
  obtain ⟨-, -, hentities⟩ := structureViolation?_eq_none_iff.mp h
  exact hentities entity he

theorem danglingField?_of_structure {entity : Entity} (he : entity ∈ model.entities) {field : Field}
    (hf : field ∈ entity.fields) : entity.danglingField? model field = none := by
  obtain ⟨-, hrest⟩ := Option.or_eq_none_iff.mp (entityViolation?_of_structure h he)
  obtain ⟨hfields, -⟩ := Option.or_eq_none_iff.mp hrest
  exact List.findSome?_eq_none_iff.mp hfields field hf

theorem resolved_of_structure : model.Resolved where
  targets entity he field hf relation hr := by
    have hd := danglingField?_of_structure h he hf
    cases hk : field.kind with
    | scalar | enumeration => simp [Field.relation?, hk] at hr
    | relation r =>
      obtain rfl : r = relation := by simpa [Field.relation?, hk] using hr
      simp only [Entity.danglingField?, hk] at hd
      split at hd
      · next hc => simpa using hc
      · cases hd
  enumerations entity he field hf name hn := by
    have hd := danglingField?_of_structure h he hf
    cases hk : field.kind with
    | scalar | relation => simp [Field.enumeration?, hk] at hn
    | enumeration other =>
      obtain rfl : other = name := by simpa [Field.enumeration?, hk] using hn
      simp only [Entity.danglingField?, hk] at hd
      split at hd
      · next hc => simpa using hc
      · cases hd

theorem namedApart_of_structure : model.NamedApart := by
  obtain ⟨henumerations, hentities, hviolation⟩ := structureViolation?_eq_none_iff.mp h
  refine ⟨henumerations, hentities, fun entity he => ?_⟩
  obtain ⟨hfields, -⟩ := Option.or_eq_none_iff.mp (hviolation entity he)
  exact firstRepeated?_nil_eq_none.mp (Option.map_eq_none_iff.mp hfields)

/-- The fields of constraints are fields of their entity. -/
theorem constraintFields_of_structure {entity : Entity} (he : entity ∈ model.entities) :
    ∀ key ∈ entity.compoundKeys, ∀ name ∈ key.fields, name ∈ entity.fieldNames := by
  intro key hk name hn
  obtain ⟨-, hrest⟩ := Option.or_eq_none_iff.mp (entityViolation?_of_structure h he)
  obtain ⟨-, hconstraints⟩ := Option.or_eq_none_iff.mp hrest
  have hnone := List.find?_eq_none.mp (Option.map_eq_none_iff.mp hconstraints) name (List.mem_flatMap.mpr ⟨key, hk, hn⟩)
  simpa using hnone

end

/-- Validation sees to it that what fields refer to is declared. -/
theorem resolved_of_validate (h : model.validate = .ok ()) : model.Resolved :=
  resolved_of_structure (structureViolation?_of_validate h)

theorem namedApart_of_validate (h : model.validate = .ok ()) : model.NamedApart :=
  namedApart_of_structure (structureViolation?_of_validate h)

end

end DataModel

end DataShapes
