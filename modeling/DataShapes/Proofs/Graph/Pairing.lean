import DataShapes.Proofs.Graph.Reverse

/-! # Relations seen from both sides

The far side of a relation field is another relation field, and the first one can be its reverse in turn. It is its
reverse when nothing else can be. So where each relation has just two sides, to go to the far side and back again leads
nowhere else, also from an entity to itself. -/

namespace DataShapes

/-! ### Sides -/

namespace Edge

/-- Two relation fields face each other: they carry one relation name, and each leads to the entity of the other. -/
def Faces (x y : Edge) : Prop := ∃ relation ∈ x.reverse.relation?, ∃ back ∈ y.reverse.relation?,
  back.name = relation.name ∧ relation.target = y.target.name ∧ back.target = x.target.name

/-- Two relation fields stand side by side: they carry one relation name, in one entity and to one entity. -/
def Beside (x y : Edge) : Prop := ∃ relation ∈ x.reverse.relation?, ∃ other ∈ y.reverse.relation?,
  other.name = relation.name ∧ y.target.name = x.target.name ∧ other.target = relation.target

/-- Two relation fields bear the same relation: one of this name between the same two entities. -/
def SameRelation (x y : Edge) : Prop := x.Faces y ∨ x.Beside y

instance (x y : Edge) : Decidable (x.Faces y) :=
  inferInstanceAs (Decidable (∃ relation ∈ x.reverse.relation?, ∃ back ∈ y.reverse.relation?, _))

instance (x y : Edge) : Decidable (x.Beside y) :=
  inferInstanceAs (Decidable (∃ relation ∈ x.reverse.relation?, ∃ other ∈ y.reverse.relation?, _))

instance (x y : Edge) : Decidable (x.SameRelation y) := inferInstanceAs (Decidable (_ ∨ _))

variable {x y z : Edge}

theorem Faces.symm (h : x.Faces y) : y.Faces x := by
  obtain ⟨relation, hr, back, hb, hname, hto, hfrom⟩ := h
  exact ⟨back, hb, relation, hr, hname.symm, hfrom, hto⟩

/-- What faces one field stands beside the others that it faces. -/
theorem Faces.beside (hy : x.Faces y) (hz : z.Faces y) : x.Beside z := by
  obtain ⟨relation, hr, back, hb, hname, hto, hfrom⟩ := hy
  obtain ⟨other, ho, back', hb', hname', hto', hfrom'⟩ := hz
  obtain rfl := Option.some.inj ((Option.mem_def.mp hb).symm.trans hb')
  exact ⟨relation, hr, other, ho, hname'.symm.trans hname, hfrom'.symm.trans hfrom, hto'.trans hto.symm⟩

end Edge

namespace DataModel
variable {model : DataModel}

/-- All relation fields of the model with their entities, each written like the far side that it is for others. -/
def sides (model : DataModel) : List Edge :=
  model.entities.flatMap fun entity => entity.relationFields.map (⟨entity, ·⟩)

theorem mem_sides {x : Edge} : x ∈ model.sides ↔ x.target ∈ model.entities ∧ x.reverse ∈ x.target.relationFields := by
  simp only [sides, List.mem_flatMap, List.mem_map]
  constructor
  · rintro ⟨entity, he, field, hf, rfl⟩
    exact ⟨he, hf⟩
  · rintro ⟨he, hf⟩
    exact ⟨x.target, he, x.reverse, hf, rfl⟩

/-- Every relation is borne by exactly two fields, one on either side. -/
def TwoSided (model : DataModel) : Prop := ∀ x ∈ model.sides, ∃ y ∈ model.sides, y ≠ x ∧ x.Faces y ∧
  ∀ z ∈ model.sides, x.SameRelation z → z = x ∨ z = y

instance (model : DataModel) : Decidable model.TwoSided :=
  inferInstanceAs (Decidable (∀ x ∈ model.sides, ∃ y ∈ model.sides, _ ∧ _ ∧ ∀ z ∈ model.sides, _))

section
variable (h : model.NamedApart) {owner : Entity} (ho : owner ∈ model.entities) {field : Field}
  (hf : field ∈ owner.relationFields) {relation : Relation} (hr : field.relation? = some relation)
include h ho hf hr

theorem NamedApart.edge?_iff {edge : Edge} : (Graph.ofModel model).edge? owner field = some edge ↔
    model.entity? relation.target = some edge.target ∧ reverse? owner field edge.target = some edge.reverse := by
  simp [h.edge?_eq_some_iff ho hf, hr]

/-- There is no far side where the target is not declared, and where nothing in it can be the reverse. -/
theorem NamedApart.edge?_eq_none_iff : (Graph.ofModel model).edge? owner field = none ↔
    ∀ target, model.entity? relation.target = some target → reverseCandidates owner field target = [] := by
  rw [Option.eq_none_iff_forall_not_mem]
  constructor
  · refine fun hnone target ht => List.eq_nil_iff_forall_not_mem.mpr fun other hother => ?_
    obtain ⟨reverse, hreverse⟩ := exists_reverse?_of_mem hother
    exact hnone ⟨target, reverse⟩ ((h.edge?_iff ho hf hr).mpr ⟨ht, hreverse⟩)
  · intro hnone edge hedge
    obtain ⟨ht, hreverse⟩ := (h.edge?_iff ho hf hr).mp hedge
    have hcandidate : edge.reverse ∈ reverseCandidates owner field edge.target := mem_of_reverse? hreverse
    rw [hnone edge.target ht] at hcandidate
    cases hcandidate

end

section
variable (h : model.NamedApart) {x y : Edge} (hx : x ∈ model.sides)
include h hx

/-- A side is known by the names of its entity and of its field. -/
theorem NamedApart.side_eq (hy : y ∈ model.sides)
    (hnames : y.target.name = x.target.name ∧ y.reverse.name = x.reverse.name) : y = x := by
  obtain ⟨hxe, hxf⟩ := mem_sides.mp hx
  obtain ⟨hye, hyf⟩ := mem_sides.mp hy
  have htarget : y.target = x.target := h.entity_eq hye hxe hnames.1
  have hyf : y.reverse ∈ x.target.relationFields := htarget ▸ hyf
  have hreverse : y.reverse = x.reverse :=
    h.field_eq hxe (List.mem_of_mem_filter hyf) (List.mem_of_mem_filter hxf) hnames.2
  cases x
  cases y
  cases htarget
  cases hreverse
  rfl

/-- The fields that can be the reverse of a field are the others that it faces. -/
theorem NamedApart.mem_reverseCandidates_iff (hy : y ∈ model.sides) :
    ((∃ relation ∈ x.reverse.relation?, relation.target = y.target.name) ∧
      y.reverse ∈ reverseCandidates x.target x.reverse y.target) ↔ x.Faces y ∧ y ≠ x := by
  obtain ⟨hxe, hxf⟩ := mem_sides.mp hx
  obtain ⟨hye, hyf⟩ := mem_sides.mp hy
  constructor
  · rintro ⟨⟨relation, hr, hto⟩, hcandidate⟩
    obtain ⟨-, relation', hr', hreversed⟩ := mem_of_mem_reverseCandidates hcandidate
    obtain rfl : relation = relation' := Option.some.inj ((Option.mem_def.mp hr).symm.trans hr')
    obtain ⟨hany, hdiffers⟩ := Bool.and_eq_true_iff.mp hreversed
    obtain ⟨back, hb, hback⟩ := (Option.any_eq_true ..).mp hany
    have hback : back.name = relation.name ∧ back.target = x.target.name := by simpa using hback
    refine ⟨⟨relation, hr, back, hb, hback.1, hto, hback.2⟩, ?_⟩
    rintro rfl
    simp at hdiffers
  · rintro ⟨⟨relation, hr, back, hb, hname, hto, hfrom⟩, hne⟩
    refine ⟨⟨relation, hr, hto⟩, ?_⟩
    have hdiffers : ¬(y.target.name = x.target.name ∧ y.reverse.name = x.reverse.name) := fun hnames =>
      hne (h.side_eq hx hy hnames)
    have hr : x.reverse.relation? = some relation := hr
    have hb : y.reverse.relation? = some back := hb
    rw [reverseCandidates, hr]
    refine List.mem_filter.mpr ⟨hyf, ?_⟩
    simpa [Relation.isReversedBy, hb, hname, hfrom, ← not_and_or] using hdiffers

/-- The far side of a field is another relation field that it faces. -/
theorem NamedApart.faces_of_edge? (hedge : (Graph.ofModel model).edge? x.target x.reverse = some y) :
    y ∈ model.sides ∧ x.Faces y ∧ y ≠ x := by
  obtain ⟨hxe, hxf⟩ := mem_sides.mp hx
  obtain ⟨relation, hr, ht, hreverse⟩ := (h.edge?_eq_some_iff hxe hxf).mp hedge
  obtain ⟨hye, hname⟩ := mem_of_entity? ht
  have hcandidate : y.reverse ∈ reverseCandidates x.target x.reverse y.target := mem_of_reverse? hreverse
  have hy : y ∈ model.sides := mem_sides.mpr ⟨hye, (mem_of_mem_reverseCandidates hcandidate).1⟩
  exact ⟨hy, (h.mem_reverseCandidates_iff hx hy).mp ⟨⟨relation, hr, hname.symm⟩, hcandidate⟩⟩

/-- The only other field that a field faces is its far side. -/
theorem NamedApart.edge?_of_only (hy : y ∈ model.sides) (hfaces : x.Faces y) (hne : y ≠ x)
    (honly : ∀ z ∈ model.sides, x.Faces z → z = x ∨ z = y) :
    (Graph.ofModel model).edge? x.target x.reverse = some y := by
  obtain ⟨hxe, hxf⟩ := mem_sides.mp hx
  obtain ⟨hye, -⟩ := mem_sides.mp hy
  obtain ⟨⟨relation, hr, hto⟩, hcandidate⟩ := (h.mem_reverseCandidates_iff hx hy).mpr ⟨hfaces, hne⟩
  obtain ⟨other, hother⟩ := exists_reverse?_of_mem hcandidate
  have hchosen : other ∈ reverseCandidates x.target x.reverse y.target := mem_of_reverse? hother
  have hz : ⟨y.target, other⟩ ∈ model.sides := mem_sides.mpr ⟨hye, (mem_of_mem_reverseCandidates hchosen).1⟩
  obtain ⟨hzfaces, hzne⟩ := (h.mem_reverseCandidates_iff hx hz).mp ⟨⟨relation, hr, hto⟩, hchosen⟩
  have heq : ⟨y.target, other⟩ = y := (honly _ hz hzfaces).resolve_left hzne
  have hreverse : reverse? x.target x.reverse y.target = some y.reverse := by rw [hother, ← heq]
  exact (h.edge?_eq_some_iff hxe hxf).mpr ⟨relation, hr, hto ▸ h.entity?_eq hye, hreverse⟩

/-- A field that alone can be the reverse of another one is its far side. -/
theorem NamedApart.edge?_of_only_candidate (hy : y ∈ model.sides) (hfaces : x.Faces y) (hne : y ≠ x)
    (honly : ∀ other ∈ reverseCandidates x.target x.reverse y.target, other = y.reverse) :
    (Graph.ofModel model).edge? x.target x.reverse = some y := by
  refine h.edge?_of_only hx hy hfaces hne fun z hz hzfaces => or_iff_not_imp_left.mpr fun hzne => ?_
  obtain ⟨⟨relation, hr, hto⟩, hcandidate⟩ := (h.mem_reverseCandidates_iff hx hz).mpr ⟨hzfaces, hzne⟩
  obtain ⟨relation', hr', -, -, -, hto', -⟩ := hfaces
  obtain rfl := Option.some.inj ((Option.mem_def.mp hr).symm.trans hr')
  have htarget : z.target = y.target :=
    h.entity_eq (mem_sides.mp hz).1 (mem_sides.mp hy).1 (hto.symm.trans hto')
  refine h.side_eq hy hz ⟨congrArg Entity.name htarget, congrArg Field.name (honly z.reverse ?_)⟩
  exact htarget ▸ hcandidate

/-- Where two fields face each other and no third one bears their relation, either is the far side of the other. -/
theorem NamedApart.edge?_back (hy : y ∈ model.sides) (hfaces : x.Faces y) (hne : y ≠ x)
    (htwo : ∀ z ∈ model.sides, x.SameRelation z → z = x ∨ z = y) :
    (Graph.ofModel model).edge? y.target y.reverse = some x :=
  h.edge?_of_only hy hx hfaces.symm hne.symm fun z hz hzfaces =>
    (htwo z hz (Or.inr (hfaces.beside hzfaces.symm))).symm

end

end DataModel

namespace Graph
variable {graph : Graph} {owner : Entity} {field : Field} {edge : Edge}

theorem reverseOf?_of_edge? (h : graph.edge? owner field = some edge) :
    graph.reverseOf? owner.name field.name = some edge.reverse.name := by
  obtain ⟨relation, -, -, reverse, hreverse, hfield⟩ := edge?_eq_some_iff.mp h
  rw [hreverse, (Entity.mem_of_field? hfield).2]

end Graph

namespace DataModel
variable {model : DataModel}

/-- In a model with distinct entities that have distinct fields, the far side of a relation field is its reverse at its
target, and there is none if the target is not declared or has no candidate; in an accepted model there always is one.
The far side is another field, and the first field is a candidate for the reverse of that one in turn. So it is its far
side when it is the only candidate, in particular when the two alone bear their relation. -/
theorem far_side_of_far_side (hentities : (model.entities.map (·.name)).Nodup)
    (hfields : ∀ entity ∈ model.entities, entity.fieldNames.Nodup) :
    let graph := Graph.ofModel model
    (∀ owner ∈ model.entities, ∀ field ∈ owner.relationFields, ∀ relation, field.relation? = some relation →
      (∀ edge, graph.edge? owner field = some edge ↔
        model.entity? relation.target = some edge.target ∧ reverse? owner field edge.target = some edge.reverse) ∧
      (graph.edge? owner field = none ↔ ∀ target, model.entity? relation.target = some target →
        reverseCandidates owner field target = [])) ∧
    (model.validate = .ok () → ∀ owner ∈ model.entities, ∀ field ∈ owner.relationFields,
      ∃ edge, graph.edge? owner field = some edge) ∧
    (∀ x ∈ model.sides, ∀ y, graph.edge? x.target x.reverse = some y →
      ¬(y.target.name = x.target.name ∧ y.reverse.name = x.reverse.name) ∧
      x.reverse ∈ reverseCandidates y.target y.reverse x.target ∧
      ((∀ other ∈ reverseCandidates y.target y.reverse x.target, other = x.reverse) →
        graph.edge? y.target y.reverse = some x) ∧
      ((∀ z ∈ model.sides, x.SameRelation z → z = x ∨ z = y) → graph.edge? y.target y.reverse = some x)) ∧
    (model.TwoSided → ∀ x ∈ model.sides, ∃ y ∈ model.sides,
      ¬(y.target.name = x.target.name ∧ y.reverse.name = x.reverse.name) ∧
      graph.edge? x.target x.reverse = some y ∧ graph.edge? y.target y.reverse = some x ∧
      graph.reverseOf? x.target.name x.reverse.name = some y.reverse.name ∧
      graph.reverseOf? y.target.name y.reverse.name = some x.reverse.name) := by
  -- Enumerations take no part in this, so there may as well be none.
  have h : NamedApart { model with enumerations := [] } := ⟨List.nodup_nil, hentities, hfields⟩
  intro graph
  refine ⟨fun owner ho field hf relation hr => ⟨fun edge => ?_, ?_⟩,
    fun hv owner ho field hf => exists_edge_of_validate hv ho hf,
    fun x hx y hedge => ?_, fun htwo x hx => ?_⟩
  · exact h.edge?_iff ho hf hr
  · exact h.edge?_eq_none_iff ho hf hr
  · obtain ⟨hy, hfaces, hne⟩ := h.faces_of_edge? hx hedge
    obtain ⟨-, hcandidate⟩ := (h.mem_reverseCandidates_iff hy hx).mpr ⟨hfaces.symm, hne.symm⟩
    refine ⟨fun hnames => hne (h.side_eq hx hy hnames), hcandidate, fun honly => ?_,
      h.edge?_back hx hy hfaces hne⟩
    exact h.edge?_of_only_candidate hy hx hfaces.symm hne.symm honly
  · obtain ⟨y, hy, hne, hfaces, hpair⟩ := htwo x hx
    have hedge : graph.edge? x.target x.reverse = some y :=
      h.edge?_of_only hx hy hfaces hne fun z hz hzfaces => hpair z hz (Or.inl hzfaces)
    have hback : graph.edge? y.target y.reverse = some x := h.edge?_back hx hy hfaces hne hpair
    exact ⟨y, hy, fun hnames => hne (h.side_eq hx hy hnames), hedge, hback,
      Graph.reverseOf?_of_edge? hedge, Graph.reverseOf?_of_edge? hback⟩

/-- A page links to other pages, and has an author. -/
def page : Entity :=
  let linksTo := { Field.plain "linksTo" (.relation ⟨"Page", "Links", []⟩) with isList := true }
  let linkedFrom := { Field.plain "linkedFrom" (.relation ⟨"Page", "Links", []⟩) with isList := true }
  let author := Field.plain "author" (.relation ⟨"Author", "Written", ["authorId"]⟩)
  let key := { Field.plain "id" (.scalar .int) with isId := true }
  ⟨"Page", [key, .plain "authorId" (.scalar .int), linksTo, linkedFrom, author], none, []⟩

def author : Entity :=
  let pages := { Field.plain "pages" (.relation ⟨"Page", "Written", []⟩) with isList := true }
  let key := { Field.plain "id" (.scalar .int) with isId := true }
  ⟨"Author", [key, pages], none, []⟩

def wiki : DataModel := ⟨[page, author], []⟩

/-- Links and back links, which are alike in all but name, lead to each other. -/
theorem wiki_paired : (wiki.entities.map (·.name)).Nodup ∧
    (∀ entity ∈ wiki.entities, entity.fieldNames.Nodup) ∧ wiki.TwoSided ∧
    (∀ x ∈ wiki.sides, ∃ y ∈ wiki.sides, y ≠ x ∧ (Graph.ofModel wiki).edge? x.target x.reverse = some y ∧
      (Graph.ofModel wiki).edge? y.target y.reverse = some x) ∧
    (Graph.ofModel wiki).edge? page page.fields[2] = some ⟨page, page.fields[3]⟩ := by
  have hentities : (wiki.entities.map (·.name)).Nodup := by decide
  have hfields : ∀ entity ∈ wiki.entities, entity.fieldNames.Nodup := by decide
  have htwo : wiki.TwoSided := by decide
  obtain ⟨-, -, -, hpaired⟩ := far_side_of_far_side hentities hfields
  refine ⟨hentities, hfields, htwo, fun x hx => ?_, by decide⟩
  obtain ⟨y, hy, hne, hedge, hback, -⟩ := hpaired htwo x hx
  refine ⟨y, hy, ?_, hedge, hback⟩
  rintro rfl
  exact hne ⟨rfl, rfl⟩

end DataModel

end DataShapes
