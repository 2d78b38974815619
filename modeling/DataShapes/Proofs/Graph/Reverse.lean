import DataShapes.Proofs.Model.Accepted

/-! # Edges

The far side of a relation field is an entity of the model, the one its relation names, and a field of
that entity. Where names are distinct that field is the reverse, and it has a far side in its turn. -/

namespace DataShapes

namespace DataModel
variable {model : DataModel}

theorem mem_of_entity? {name : String} {entity : Entity} (h : model.entity? name = some entity) :
    entity ∈ model.entities ∧ entity.name = name :=
  ⟨List.mem_of_find?_eq_some h, by simpa using List.find?_some h⟩

end DataModel

namespace Entity

theorem mem_of_field? {entity : Entity} {name : String} {field : Field} (h : entity.field? name = some field) :
    field ∈ entity.fields ∧ field.name = name :=
  ⟨List.mem_of_find?_eq_some h, by simpa using List.find?_some h⟩

end Entity

namespace Graph
variable {graph : Graph} {owner : Entity} {field : Field} {edge : Edge}

/-- What an edge is made of. -/
theorem edge?_eq_some_iff : graph.edge? owner field = some edge ↔
    ∃ relation, field.relation? = some relation ∧ graph.model.entity? relation.target = some edge.target ∧
      ∃ reverse, graph.reverseOf? owner.name field.name = some reverse ∧
        edge.target.field? reverse = some edge.reverse := by
  simp only [edge?, Option.bind_eq_bind, Option.bind_eq_some_iff, Option.pure_def, Option.some.injEq]
  constructor
  · rintro ⟨relation, hr, target, ht, reverse, hn, other, ho, rfl⟩
    exact ⟨relation, hr, ht, reverse, hn, ho⟩
  · rintro ⟨relation, hr, ht, reverse, hn, ho⟩
    exact ⟨relation, hr, edge.target, ht, reverse, hn, edge.reverse, ho, rfl⟩

theorem target_mem_of_edge? (h : graph.edge? owner field = some edge) :
    edge.target ∈ graph.model.entities := by
  obtain ⟨relation, -, ht, -⟩ := edge?_eq_some_iff.mp h
  exact (DataModel.mem_of_entity? ht).1

theorem reverse_mem_of_edge? (h : graph.edge? owner field = some edge) : edge.reverse ∈ edge.target.fields := by
  obtain ⟨relation, -, -, reverse, -, ho⟩ := edge?_eq_some_iff.mp h
  exact (Entity.mem_of_field? ho).1

theorem relation?_of_edge? (h : graph.edge? owner field = some edge) :
    ∃ relation, field.relation? = some relation ∧ edge.target.name = relation.target := by
  obtain ⟨relation, hr, ht, -⟩ := edge?_eq_some_iff.mp h
  exact ⟨relation, hr, (DataModel.mem_of_entity? ht).2⟩

end Graph

/-! ### The way back -/

/-- The reverse of a field can be reversed by it. -/
theorem Relation.isReversedBy_symm {relation : Relation} {owner target : Entity} {field other : Field}
    (hr : field.relation? = some relation) (ht : relation.target = target.name)
    (h : relation.isReversedBy owner field target other = true) :
    ∃ back, other.relation? = some back ∧ back.target = owner.name ∧
      back.isReversedBy target other owner field = true := by
  obtain ⟨hany, hother⟩ := Bool.and_eq_true_iff.mp h
  obtain ⟨back, hb, hback⟩ := (Option.any_eq_true ..).mp hany
  have hback : back.name = relation.name ∧ back.target = owner.name := by simpa using hback
  refine ⟨back, hb, hback.2, ?_⟩
  have hother : ¬ (owner.name = target.name ∧ field.name = other.name) := by
    rintro ⟨hn, hf⟩
    simp [hn, hf] at hother
  simpa [isReversedBy, hr, hback.1, ht, ← not_and_or] using hother

theorem mem_of_reverse? {owner target : Entity} {field other : Field} (h : reverse? owner field target = some other) :
    other ∈ reverseCandidates owner field target := by
  unfold reverse? at h
  rcases Option.or_eq_some_iff.mp h with h | ⟨-, h⟩
  · exact List.mem_of_find?_eq_some h
  · exact List.mem_of_head? h

theorem mem_of_mem_reverseCandidates {owner target : Entity} {field other : Field}
    (h : other ∈ reverseCandidates owner field target) : other ∈ target.relationFields ∧
      ∃ relation, field.relation? = some relation ∧ relation.isReversedBy owner field target other = true := by
  unfold reverseCandidates at h
  split at h
  · cases h
  · next relation hr =>
    obtain ⟨hmem, hreversed⟩ := List.mem_filter.mp h
    exact ⟨hmem, relation, hr, hreversed⟩

/-- Some candidate is chosen if there are any. -/
theorem exists_reverse?_of_mem {owner target : Entity} {field other : Field}
    (h : other ∈ reverseCandidates owner field target) : ∃ reverse, reverse? owner field target = some reverse := by
  rw [← Option.isSome_iff_exists, reverse?, Option.isSome_or, Bool.or_eq_true]
  cases hcandidates : reverseCandidates owner field target with
  | nil =>
    rw [hcandidates] at h
    cases h
  | cons reverse others => exact Or.inr rfl

namespace DataModel
variable {model : DataModel}

theorem NamedApart.entity?_eq (h : model.NamedApart) {entity : Entity} (he : entity ∈ model.entities) :
    model.entity? entity.name = some entity :=
  find?_eq_of_nodup h.entities he

theorem NamedApart.field?_eq (h : model.NamedApart) {entity : Entity} (he : entity ∈ model.entities)
    {field : Field} (hf : field ∈ entity.fields) : entity.field? field.name = some field :=
  find?_eq_of_nodup (h.fields entity he) hf

/-- A field has a reverse when some other field of the target leads back along the same relation. -/
theorem NamedApart.exists_reverse?_iff (h : model.NamedApart) {owner target : Entity} (ho : owner ∈ model.entities)
    (ht : target ∈ model.entities) {field : Field} (hf : field ∈ owner.fields) {relation : Relation}
    (hr : field.relation? = some relation) : (∃ reverse, reverse? owner field target = some reverse) ↔
      ∃ other ∈ target.fields, (target, other) ≠ (owner, field) ∧
        ∃ back ∈ other.relation?, back.name = relation.name ∧ back.target = owner.name := by
  have hsame : ∀ other ∈ target.fields, (target, other) = (owner, field) ↔
      target.name = owner.name ∧ other.name = field.name := by
    intro other hother
    constructor
    · intro heq
      cases heq
      exact ⟨rfl, rfl⟩
    · rintro ⟨hentity, hfield⟩
      obtain rfl := h.entity_eq ht ho hentity
      rw [h.field_eq ht hother hf hfield]
  constructor
  · rintro ⟨other, hother⟩
    obtain ⟨hmem, relation', hr', hreversed⟩ := mem_of_mem_reverseCandidates (mem_of_reverse? hother)
    obtain rfl : relation = relation' := Option.some.inj (hr.symm.trans hr')
    have hmem : other ∈ target.fields := List.mem_of_mem_filter hmem
    obtain ⟨hback, hdiffers⟩ := Bool.and_eq_true_iff.mp hreversed
    obtain ⟨back, hb, hback⟩ := (Option.any_eq_true ..).mp hback
    refine ⟨other, hmem, ?_, back, hb, by simpa using hback⟩
    rw [ne_eq, hsame other hmem, not_and_or]
    simpa using hdiffers
  · rintro ⟨other, hmem, hdiffers, back, hb, hname, htarget⟩
    rw [ne_eq, hsame other hmem, not_and_or] at hdiffers
    have hb : other.relation? = some back := hb
    have hcandidate : other ∈ reverseCandidates owner field target := by
      rw [reverseCandidates, hr]
      refine List.mem_filter.mpr ⟨List.mem_filter.mpr ⟨hmem, by simp [Field.isRelation, hb]⟩, ?_⟩
      simpa [Relation.isReversedBy, hb, hname, htarget] using hdiffers
    exact exists_reverse?_of_mem hcandidate

/-- What a pairing is made of. -/
theorem pairing?_eq_some_iff {entity : Entity} {field : Field} {p : Pairing} :
    model.pairing? entity field = some p ↔ ∃ relation, field.relation? = some relation ∧
      ∃ target, model.entity? relation.target = some target ∧
        ∃ reverse, reverse? entity field target = some reverse ∧ p = ⟨entity.name, field.name, reverse.name⟩ := by
  simp only [pairing?, Option.bind_eq_bind, Option.bind_eq_some_iff, Option.pure_def, Option.some.injEq,
    eq_comm (a := p)]

theorem mem_pairings {p : Pairing} : p ∈ model.pairings ↔
    ∃ entity ∈ model.entities, ∃ field ∈ entity.relationFields, model.pairing? entity field = some p := by
  simp only [pairings, List.mem_flatMap, List.mem_filterMap]

section
variable (h : model.NamedApart) {owner : Entity} (ho : owner ∈ model.entities) {field : Field}
  (hf : field ∈ owner.relationFields)
include h ho hf

/-- The last pairing of a field is its only one. -/
theorem NamedApart.reverseOf?_eq :
    (Graph.ofModel model).reverseOf? owner.name field.name = (model.pairing? owner field).map (·.reverse) := by
  have honly : ∀ p ∈ model.pairings, p.entity = owner.name → p.field = field.name →
      model.pairing? owner field = some p := by
    intro p hp hentity hfield
    obtain ⟨entity, he, other, ho', hpair⟩ := mem_pairings.mp hp
    obtain ⟨_, -, _, -, _, -, rfl⟩ := pairing?_eq_some_iff.mp hpair
    obtain rfl := h.entity_eq he ho hentity
    obtain rfl := h.field_eq he (List.mem_of_mem_filter ho') (List.mem_of_mem_filter hf) hfield
    exact hpair
  unfold Graph.reverseOf?
  congr 1
  cases hpair : model.pairing? owner field with
  | some p =>
    have hp : p ∈ model.pairings := mem_pairings.mpr ⟨owner, ho, field, hf, hpair⟩
    obtain ⟨_, -, _, -, _, -, rfl⟩ := pairing?_eq_some_iff.mp hpair
    refine find?_eq_of_only (List.mem_reverse.mpr hp) (by simp) fun q hq hmatch => ?_
    have hmatch : q.entity = owner.name ∧ q.field = field.name := by simpa using hmatch
    have hq := honly q (List.mem_reverse.mp hq) hmatch.1 hmatch.2
    exact Option.some.inj (hq.symm.trans hpair)
  | none =>
    refine List.find?_eq_none.mpr fun q hq hmatch => ?_
    have hmatch : q.entity = owner.name ∧ q.field = field.name := by simpa using hmatch
    have hq := honly q (List.mem_reverse.mp hq) hmatch.1 hmatch.2
    rw [hpair] at hq
    cases hq

/-- The far side of a field is its target with its reverse. -/
theorem NamedApart.edge?_eq_some_iff {edge : Edge} : (Graph.ofModel model).edge? owner field = some edge ↔
    ∃ relation, field.relation? = some relation ∧ model.entity? relation.target = some edge.target ∧
      reverse? owner field edge.target = some edge.reverse := by
  rw [Graph.edge?_eq_some_iff, h.reverseOf?_eq ho hf]
  refine exists_congr fun relation => and_congr_right fun hr => and_congr_right fun ht => ?_
  obtain ⟨hmem, -⟩ := mem_of_entity? ht
  simp only [Option.map_eq_some_iff, pairing?_eq_some_iff]
  constructor
  · rintro ⟨_, ⟨p, ⟨relation', hr', target, ht', reverse, hrev, rfl⟩, rfl⟩, hfield⟩
    obtain rfl : relation = relation' := Option.some.inj (hr.symm.trans hr')
    obtain rfl : edge.target = target := Option.some.inj (ht.symm.trans ht')
    have hin : reverse ∈ edge.target.fields :=
      List.mem_of_mem_filter (mem_of_mem_reverseCandidates (mem_of_reverse? hrev)).1
    rw [hrev, ← hfield, h.field?_eq hmem hin]
  · intro hrev
    have hin : edge.reverse ∈ edge.target.fields :=
      List.mem_of_mem_filter (mem_of_mem_reverseCandidates (mem_of_reverse? hrev)).1
    exact ⟨_, ⟨_, ⟨relation, hr, edge.target, ht, edge.reverse, hrev, rfl⟩, rfl⟩, h.field?_eq hmem hin⟩

/-- The reverse of a field has a far side in its turn, at the owner of the field. -/
theorem NamedApart.exists_edge_back {edge : Edge} (hedge : (Graph.ofModel model).edge? owner field = some edge) :
    edge.reverse ∈ edge.target.relationFields ∧
      ∃ back, (Graph.ofModel model).edge? edge.target edge.reverse = some back := by
  obtain ⟨relation, hr, ht, hrev⟩ := (h.edge?_eq_some_iff ho hf).mp hedge
  obtain ⟨hmem, hname⟩ := mem_of_entity? ht
  obtain ⟨hin, relation', hr', hreversed⟩ := mem_of_mem_reverseCandidates (mem_of_reverse? hrev)
  obtain rfl : relation = relation' := Option.some.inj (hr.symm.trans hr')
  obtain ⟨back, hb, htarget, hback⟩ := Relation.isReversedBy_symm hr hname.symm hreversed
  have hcandidate : field ∈ reverseCandidates edge.target edge.reverse owner := by
    rw [reverseCandidates, hb]
    exact List.mem_filter.mpr ⟨hf, hback⟩
  obtain ⟨other, hother⟩ := exists_reverse?_of_mem hcandidate
  refine ⟨hin, ⟨owner, other⟩, (h.edge?_eq_some_iff hmem hin).mpr ⟨back, hb, ?_, hother⟩⟩
  rw [htarget, h.entity?_eq ho]

end

/-- In an accepted model each relation field has a far side. -/
theorem exists_edge_of_validate (hv : model.validate = .ok ()) {owner : Entity} (ho : owner ∈ model.entities)
    {field : Field} (hf : field ∈ owner.relationFields) :
    ∃ edge, (Graph.ofModel model).edge? owner field = some edge := by
  have h : model.NamedApart := namedApart_of_validate hv
  obtain ⟨relation, hr⟩ := Option.isSome_iff_exists.mp (List.mem_filter.mp hf).2
  obtain ⟨target, ht, hname⟩ :=
    (resolved_of_validate hv).targets owner ho field (List.mem_of_mem_filter hf) relation hr
  have htarget : model.entity? relation.target = some target := hname ▸ h.entity?_eq ht
  obtain ⟨-, hpaired⟩ := Option.or_eq_none_iff.mp (validate_eq_ok_iff.mp hv)
  have hpaired : owner.unpaired? model field = none := pairingViolation?_eq_none_iff.mp hpaired owner ho field hf
  cases hreverse : reverse? owner field target with
  | none => simp [Entity.unpaired?, hr, htarget, hreverse] at hpaired
  | some reverse => exact ⟨⟨target, reverse⟩, (h.edge?_eq_some_iff ho hf).mpr ⟨relation, hr, htarget, hreverse⟩⟩

end DataModel

end DataShapes
