import DataShapes.Proofs.Generation.Lossless

/-! # Relation fields with one far side

Where a relation name is ambiguous, several relation fields can have one far side: the same target, and the same field
of it that leads back. Their nested writes bear the names of that far side, and so in part the same ones, but they also
depend on nothing else: a name tells the role of the write, and the role and the far side tell the schema, whatever the
multiplicities of the fields are. -/

namespace DataShapes

/-! ### Far sides -/

namespace Graph
variable {graph : Graph} {owner other : Entity} {field sibling : Field} {edge edge' : Edge}

/-- A far side is told by the names of the target and of the field that leads back. -/
theorem edge_eq_of_names (h : graph.edge? owner field = some edge) (h' : graph.edge? other sibling = some edge')
    (ht : edge.target.name = edge'.target.name) (hr : edge.reverse.name = edge'.reverse.name) : edge = edge' := by
  obtain ⟨relation, -, htarget, reverse, -, hreverse⟩ := edge?_eq_some_iff.mp h
  obtain ⟨relation', -, htarget', reverse', -, hreverse'⟩ := edge?_eq_some_iff.mp h'
  -- Both are the first of their names.
  have hsame : relation.target = relation'.target := by
    rw [← (DataModel.mem_of_entity? htarget).2, ht, (DataModel.mem_of_entity? htarget').2]
  have hback : reverse = reverse' := by
    rw [← (Entity.mem_of_field? hreverse).2, hr, (Entity.mem_of_field? hreverse').2]
  have hedge : edge.target = edge'.target := by
    rw [hsame, htarget'] at htarget
    exact (Option.some.inj htarget).symm
  rw [hedge, hback, hreverse'] at hreverse
  exact congrArg₂ Edge.mk hedge (Option.some.inj hreverse).symm

end Graph

/-! ### Names of one family -/

/-- A relation field has each role once. -/
theorem NestedRole.nodup_all (field : Field) (bulkAllowed : Bool) : (all field bulkAllowed).Nodup := by
  unfold all creations changes
  generalize field.isList = list, (field.multiplicity == .nullable) = nullable
  revert list nullable bulkAllowed
  decide +kernel

namespace Graph

theorem nodup_names_writesTo (graph : Graph) (field : Field) (edge : Edge) :
    ((graph.writesTo field edge).map (·.name)).Nodup := by
  rw [map_name_writesTo]
  exact (NestedRole.nodup_all field _).map_on fun r hr s hs h =>
    NestedRole.name_inj (NestedRole.mem_possible hr) (NestedRole.mem_possible hs) h

theorem nestedWrites_eq_writesTo {graph : Graph} {owner : Entity} {field : Field} {edge : Edge}
    (h : graph.edge? owner field = some edge) : graph.nestedWrites owner field = graph.writesTo field edge := by
  rw [nestedWrites, h]
  rfl

end Graph

/-! ### Names of two families -/

/-- A declaration that is the only one of its name in a row is found once the row is pushed. -/
theorem Document.find?_push_of_only {d : Document} (title : String) {ds : List Declaration} {x : Declaration}
    (hx : x ∈ ds) (hn : x.name ∉ d.names) (honly : ∀ y ∈ ds, y.name = x.name → y = x) :
    (d.push title ds).value.find? x.name = some x := by
  have hnone : d.find? x.name = none := by
    rw [mem_names_iff_find?] at hn
    simpa using hn
  rw [find?_push, hnone, Option.none_or]
  exact find?_eq_of_only hx (beq_self_eq_true x.name) fun y hy hname => honly y hy (by simpa using hname)

namespace DataModel

/-- The families of two relation fields of a model with one far side, whatever else the fields are: in each of them
names are distinct, and a name that both have stands for one schema. So of declarations of the two, pushed in any order,
none is lost: what a name that was not taken before stands for is each declaration pushed under it. -/
theorem siblings_agree (model : DataModel) {owner other : Entity} {field sibling : Field} {edge edge' : Edge}
    (h : (Graph.ofModel model).edge? owner field = some edge)
    (h' : (Graph.ofModel model).edge? other sibling = some edge')
    (ht : edge.target.name = edge'.target.name) (hr : edge.reverse.name = edge'.reverse.name) :
    let family := (Graph.ofModel model).nestedWrites owner field
    let siblings := (Graph.ofModel model).nestedWrites other sibling
    (family.map (·.name)).Nodup ∧ (siblings.map (·.name)).Nodup ∧
    (∀ a ∈ family, ∀ b ∈ siblings, a.name = b.name → a.schema = b.schema) ∧
    ∀ (d : Document) (title : String) (ds : List Declaration), ds ⊆ family ++ siblings →
      ∀ x ∈ ds, x.name ∉ d.names → (d.push title ds).value.find? x.name = some x := by
  intro family siblings
  obtain rfl : edge = edge' := Graph.edge_eq_of_names h h' ht hr
  have hfamily : family = (Graph.ofModel model).writesTo field edge := Graph.nestedWrites_eq_writesTo h
  have hsiblings : siblings = (Graph.ofModel model).writesTo sibling edge := Graph.nestedWrites_eq_writesTo h'
  have hpossible : family ++ siblings ⊆ (Graph.ofModel model).possibleWrites edge := by
    intro x hx
    rw [hfamily, hsiblings] at hx
    exact (List.mem_append.mp hx).elim Graph.mem_possibleWrites Graph.mem_possibleWrites
  have hagree : ∀ a ∈ family ++ siblings, ∀ b ∈ family ++ siblings, a.name = b.name → a = b := fun a ha b hb =>
    List.inj_on_of_nodup_map (Graph.nodup_names_possibleWrites _ edge) (hpossible ha) (hpossible hb)
  refine ⟨hfamily ▸ Graph.nodup_names_writesTo _ field edge, hsiblings ▸ Graph.nodup_names_writesTo _ sibling edge,
    fun a ha b hb hn => ?_, fun d title ds hds x hx hn => ?_⟩
  · rw [hagree a (List.mem_append_left _ ha) b (List.mem_append_right _ hb) hn]
  · exact Document.find?_push_of_only title hx hn fun y hy => hagree y (hds hy) x (hds hx)

/-- A post has an author, perhaps an editor, and readers, all by one relation. -/
def post : Entity :=
  keyed "Post" [relating "author" "Account" "Posts" false,
    { relating "editor" "Account" "Posts" false with isRequired := false }, relating "readers" "Account" "Posts" true]

/-- An account has one field for all its posts. -/
def account : Entity := keyed "Account" [relating "posts" "Post" "Posts" true]

def blog : DataModel := ⟨[post, account], []⟩

/-- Such a model is accepted. Of the writes through an author and through readers five have common names, and none is
lost. -/
theorem blog_siblings_agree :
    let far : Edge := ⟨account, relating "posts" "Post" "Posts" true⟩
    let author := relating "author" "Account" "Posts" false
    let readers := relating "readers" "Account" "Posts" true
    let family := (Graph.ofModel blog).nestedWrites post author
    let siblings := (Graph.ofModel blog).nestedWrites post readers
    blog.validate = .ok () ∧
    (Graph.ofModel blog).edge? post author = some far ∧ (Graph.ofModel blog).edge? post readers = some far ∧
    (family.map (·.name)).Nodup ∧ (siblings.map (·.name)).Nodup ∧
    (family.map (·.name) ∩ siblings.map (·.name)).length = 5 ∧
    (∀ a ∈ family, ∀ b ∈ siblings, a.name = b.name → a.schema = b.schema) ∧
    ∀ x ∈ siblings ++ family,
      (Document.empty.push "Inputs" (siblings ++ family)).value.find? x.name = some x := by
  intro far author readers family siblings
  have hauthor : (Graph.ofModel blog).edge? post author = some far := by decide +kernel
  have hreaders : (Graph.ofModel blog).edge? post readers = some far := by decide +kernel
  obtain ⟨hfamily, hsiblings, hagree, hkept⟩ := siblings_agree blog hauthor hreaders rfl rfl
  refine ⟨by decide +kernel, hauthor, hreaders, hfamily, hsiblings, by decide +kernel, hagree, fun x hx => ?_⟩
  have hboth : siblings ++ family ⊆ family ++ siblings := fun y hy => by
    rw [List.mem_append, or_comm, ← List.mem_append]
    exact hy
  exact hkept Document.empty "Inputs" _ hboth x hx List.not_mem_nil

end DataModel

end DataShapes
