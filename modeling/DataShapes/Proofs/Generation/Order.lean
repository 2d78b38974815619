import DataShapes.Proofs.Generation.Built
import DataShapes.Proofs.Generation.Extension
import DataShapes.Proofs.Generation.Lossless

/-! # The order of declarations

Entities and enumerations are looked up by name, so where names are distinct nothing depends on the order in which
a model lists them but the order of what is built. Of two such models each extends the other. -/

namespace DataShapes

namespace DataModel
variable {model other : DataModel}

/-- What is wrong inside an entity depends on which names are declared. -/
theorem entityViolation?_congr
    (hentities : ∀ name, name ∈ other.entities.map (·.name) ↔ name ∈ model.entities.map (·.name))
    (henumerations : ∀ name, name ∈ other.enumerations.map (·.name) ↔ name ∈ model.enumerations.map (·.name))
    (entity : Entity) : entity.violation? other = entity.violation? model := by
  have hfield : entity.danglingField? other = entity.danglingField? model := by
    funext field
    unfold Entity.danglingField?
    simp only [List.contains_iff_mem, hentities, henumerations]
  rw [Entity.violation?, Entity.violation?, hfield]

section
variable (hn : (model.entities.map (·.name)).Nodup) (he : other.entities.Perm model.entities)
include hn he

theorem nodup_of_perm : (other.entities.map (·.name)).Nodup := (he.map _).nodup_iff.mpr hn

theorem entity?_of_perm : other.entity? = model.entity? := by
  funext name
  refine Option.ext fun entity => ?_
  rw [entity?, entity?, find?_eq_some_iff_of_nodup hn, find?_eq_some_iff_of_nodup (nodup_of_perm hn he), he.mem_iff]

theorem ownPairings_of_perm (name : String) :
    (Graph.ofModel other).ownPairings name = (Graph.ofModel model).ownPairings name := by
  by_cases h : ∃ entity ∈ model.entities, entity.name = name
  · obtain ⟨entity, hmem, rfl⟩ := h
    exact ownPairings_congr hn (nodup_of_perm hn he) hmem (he.mem_iff.mpr hmem) fun _ _ _ _ => by
      rw [entity?_of_perm hn he]
  · have hnone : ∀ entity ∈ model.entities, entity.name ≠ name := fun entity hmem hname => h ⟨entity, hmem, hname⟩
    rw [ownPairings_eq_nil hnone, ownPairings_eq_nil fun entity hmem => hnone entity (he.mem_iff.mp hmem)]

variable (hv : other.enumerations.Perm model.enumerations)
include hv

theorem extends_of_perm : other.Extends model where
  entities := he.symm.subperm
  enumerations := hv.symm.subperm
  distinct := nodup_of_perm hn he
  targets entity _ field _ relation _ := by rw [entity?_of_perm hn he]

theorem built_perm : other.built.Perm model.built := by
  have hback : model.Extends other := extends_of_perm (nodup_of_perm hn he) he.symm hv.symm
  exact hback.built_subperm.antisymm (extends_of_perm hn he hv).built_subperm

theorem validate_of_perm : other.validate = .ok () ↔ model.validate = .ok () := by
  have hentity : ∀ entity : Entity, entity.violation? other = entity.violation? model :=
    entityViolation?_congr (fun _ => (he.map _).mem_iff) fun _ => (hv.map _).mem_iff
  have hunpaired : ∀ entity : Entity, entity.unpaired? other = entity.unpaired? model := by
    intro entity
    funext field
    rw [Entity.unpaired?, Entity.unpaired?, entity?_of_perm hn he]
  simp only [validate_eq_ok_iff, violation?, Option.or_eq_none_iff, structureViolation?_eq_none_iff,
    pairingViolation?_eq_none_iff, hentity, hunpaired, he.mem_iff, (he.map _).nodup_iff, (hv.map _).nodup_iff]

end

/-- The fields of entities in another order are the same fields. -/
theorem mem_allFields_of_forall₂ {entities others : List Entity}
    (h : List.Forall₂ (fun other entity => other.fields.Perm entity.fields) others entities) {field : Field} :
    field ∈ others.flatMap (·.fields) ↔ field ∈ entities.flatMap (·.fields) := by
  induction h with
  | nil => rfl
  | cons hfields _ ih =>
    rw [List.flatMap_cons, List.flatMap_cons, List.mem_append, List.mem_append, hfields.mem_iff, ih]

/-- In a model whose entities have distinct names the order of entities and enumerations is not seen: it is accepted
or not, it uses the same, its relations are paired in the same way, and it builds the same declarations. The order of
fields inside entities is not seen by what a model uses. -/
theorem order_unseen (model : DataModel) :
    ((model.entities.map (·.name)).Nodup → ∀ other : DataModel, other.entities.Perm model.entities →
      other.enumerations.Perm model.enumerations →
        (other.validate = .ok () ↔ model.validate = .ok ()) ∧
        Facts.ofModel other = Facts.ofModel model ∧
        (Graph.ofModel other).edges = (Graph.ofModel model).edges ∧
        other.built.Perm model.built ∧
        (∀ name, name ∈ other.document.names ↔ name ∈ model.document.names) ∧
        other.document.size = model.document.size) ∧
    ∀ entities, List.Forall₂ (fun other entity => ∃ fields, fields.Perm entity.fields ∧ other = { entity with fields })
        entities model.entities → Facts.ofModel { model with entities } = Facts.ofModel model := by
  refine ⟨fun hn other he hv => ?_, fun entities h => ?_⟩
  · have hbuilt : other.built.Perm model.built := built_perm hn he hv
    have hnames : ∀ name, name ∈ other.document.names ↔ name ∈ model.document.names := fun name => by
      simp only [mem_names_document, hbuilt.mem_iff]
    have hdocument : other.document.names.Perm model.document.names :=
      (List.perm_ext_iff_of_nodup (nodup_names_document other) (nodup_names_document model)).mpr hnames
    refine ⟨validate_of_perm hn he hv, ?_, Graph.edges_congr (ownPairings_of_perm hn he), hbuilt, hnames, ?_⟩
    · exact facts_congr fun field => (he.flatMap_right (·.fields)).mem_iff
    · simpa [Document.names, Document.size] using hdocument.length_eq
  · have hfields : List.Forall₂ (fun other entity => other.fields.Perm entity.fields) entities model.entities :=
      h.imp fun _ _ => by
        rintro ⟨fields, hperm, rfl⟩
        exact hperm
    exact facts_congr fun field => mem_allFields_of_forall₂ hfields

/-- A team and its users, who have roles. -/
def staff : DataModel :=
  ⟨[keyed "Team" [relating "members" "User" "Members" true],
    keyed "User" [.plain "role" (.enumeration "Role"), .plain "teamId" (.scalar .int),
      .plain "team" (.relation ⟨"Team", "Members", ["teamId"]⟩)]],
    [⟨"Role", ["ADMIN", "USER"]⟩, ⟨"State", ["ON", "OFF"]⟩]⟩

/-- Users may be declared before their team, and their fields from the last to the first. -/
theorem staff_reversed : staff.validate = .ok () ∧
    (DataModel.mk staff.entities.reverse staff.enumerations.reverse).validate = .ok () ∧
    (DataModel.mk staff.entities.reverse staff.enumerations.reverse).built.Perm staff.built ∧
    Facts.ofModel { staff with entities := staff.entities.map fun e => { e with fields := e.fields.reverse } } =
      Facts.ofModel staff := by
  obtain ⟨horder, hfields⟩ := order_unseen staff
  have hvalid : staff.validate = .ok () := by decide
  obtain ⟨hvalidate, -, -, hbuilt, -⟩ := horder (by decide) ⟨staff.entities.reverse, staff.enumerations.reverse⟩
    (List.reverse_perm _) (List.reverse_perm _)
  refine ⟨hvalid, hvalidate.mpr hvalid, hbuilt, hfields _ ?_⟩
  exact List.forall₂_map_left_iff.mpr (List.forall₂_same.mpr fun e _ => ⟨_, List.reverse_perm _, rfl⟩)

end DataModel

end DataShapes
