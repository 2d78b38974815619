import DataShapes.Proofs.Schema.Calls

/-! # Appending to a document

A document grows at its end only. Its text goes on where it ended, for nothing that is written depends on what comes
later; a name that it declares keeps its declaration, for later ones of that name are dropped; and a name from which
only declared names can be reached keeps its meaning. One push keeps all this, and so does a row of them. -/

namespace DataShapes

namespace Document

/-! ### Text -/

/-- The text of sections goes on after the text of those before them, whose names are defined then. -/
theorem exists_sectionTexts_append (defined : List String) (sections more : List Section) :
    ∃ seen, (∀ name, name ∈ seen ↔ name ∈ defined ∨ name ∈ (sections.flatMap (·.declarations)).map (·.name)) ∧
      sectionTexts defined (sections ++ more) = sectionTexts defined sections ++ sectionTexts seen more := by
  induction sections generalizing defined with
  | nil => exact ⟨defined, by simp, String.empty_append.symm⟩
  | cons s rest ih =>
    obtain ⟨seen, hseen, htext⟩ := ih (s.declarations.map (·.name) ++ defined)
    refine ⟨seen, fun name => ?_, ?_⟩
    · rw [hseen, List.flatMap_cons, List.map_append, List.mem_append, List.mem_append, or_assoc, or_left_comm]
    · rw [List.cons_append, sectionTexts, htext, sectionTexts, String.append_assoc]

/-! ### What is kept -/

/-- The later document has further sections, and finds the same under the names of the first one. -/
structure Keeps (d later : Document) : Prop where
  sections : ∃ more, later.sections = d.sections ++ more
  found : ∀ name ∈ d.names, later.find? name = d.find? name

namespace Keeps
variable {d later last : Document}

theorem refl (d : Document) : d.Keeps d := ⟨⟨[], (List.append_nil _).symm⟩, fun _ _ => rfl⟩

theorem mem_names (h : d.Keeps later) {name : String} (hn : name ∈ d.names) : name ∈ later.names := by
  rw [mem_names_iff_find?, h.found name hn, ← mem_names_iff_find?]
  exact hn

theorem trans (h : d.Keeps later) (h' : later.Keeps last) : d.Keeps last where
  sections := by
    obtain ⟨more, hmore⟩ := h.sections
    obtain ⟨others, hothers⟩ := h'.sections
    exact ⟨more ++ others, by rw [hothers, hmore, List.append_assoc]⟩
  found name hn := (h'.found name (h.mem_names hn)).trans (h.found name hn)

/-- The text of the later document is that of the first one and of sections written after all its names. -/
theorem exists_render_eq (h : d.Keeps later) : ∃ seen more, (∀ name, name ∈ seen ↔ name ∈ d.names) ∧
    later.render = d.render ++ sectionTexts seen more := by
  obtain ⟨more, hmore⟩ := h.sections
  obtain ⟨seen, hseen, htext⟩ := exists_sectionTexts_append [] d.sections more
  refine ⟨seen, more, fun name => ?_, ?_⟩
  · simp only [hseen, names, declarations, List.not_mem_nil, false_or]
  · rw [render, hmore, htext, render, String.append_assoc]

/-- A name means the same as long as references lead from it to names of the first document. -/
theorem parse_eq (h : d.Keeps later) {name : String}
    (hclosed : ∀ other, Relation.ReflTransGen d.Refers name other → other ∈ d.names) (value : Json) :
    later.parse name value = d.parse name value :=
  parse_congr (fun other hreach => h.found other (hclosed other hreach)) value

end Keeps

/-- What is declared already is not declared again. -/
theorem keeps_push (d : Document) (title : String) (ds : List Declaration) : d.Keeps (d.push title ds).value where
  sections := ⟨_, rfl⟩
  found name hn := by
    obtain ⟨x, hx⟩ := Option.isSome_iff_exists.mp (mem_names_iff_find?.mp hn)
    rw [find?_push, hx, Option.some_or]

theorem keeps_pushAll (d : Document) (sections : List Section) : d.Keeps (d.pushAll sections).value := by
  induction sections generalizing d with
  | nil => exact .refl d
  | cons s rest ih => exact (keeps_push d s.title s.declarations).trans (ih _)

/-- However a document was made, and whatever is pushed onto it: its text stays as it is and is gone on with, the names
that it declares stand for what they stood for, and a name from which references lead to declared names only makes of
every value what it made, be it a result, a rejection or no end. -/
theorem pushed_appends (d : Document) (sections : List Section) :
    let later := (d.pushAll sections).value
    (∃ more, later.render = d.render ++ more) ∧
    (∀ name ∈ d.names, later.find? name = d.find? name) ∧
    ∀ name, (∀ other, Relation.ReflTransGen d.Refers name other → other ∈ d.names) →
      ∀ value, later.parse name value = d.parse name value := by
  intro later
  have hkeeps : d.Keeps later := keeps_pushAll d sections
  obtain ⟨seen, more, -, htext⟩ := hkeeps.exists_render_eq
  exact ⟨⟨sectionTexts seen more, htext⟩, hkeeps.found, fun _ hclosed => hkeeps.parse_eq hclosed⟩

/-- Branches with twigs, which are branches, and leaves; what lives in a nest is not said yet. -/
def branches : Document :=
  (ofSections [⟨"Trees", [
    ⟨"Branch", .strictObject [("twigs", (Schema.array (.ref "Branch")).optional), ("leaf", .ref "Leaf")]⟩,
    ⟨"Leaf", .leaf .int⟩,
    ⟨"Nest", .ref "Bird"⟩]⟩]).value

theorem mem_of_branch_reaches {other : String} (h : Relation.ReflTransGen branches.Refers "Branch" other) :
    other = "Branch" ∨ other = "Leaf" := by
  induction h with
  | refl => exact Or.inl rfl
  | tail _ hstep ih =>
    obtain ⟨x, hx, hmem⟩ := hstep
    rcases ih with rfl | rfl
    · cases hx
      simpa [Schema.strictObject, Schema.references, Schema.referencesOfProperties] using hmem
    · cases hx
      simp [Schema.references] at hmem

/-- Another meaning of leaves comes too late for branches, and only nests wait for birds. -/
theorem branches_appended :
    let later := (branches.pushAll [⟨"Animals", [⟨"Leaf", .leaf .string⟩, ⟨"Bird", .leaf .any⟩]⟩]).value
    (∃ more, later.render = branches.render ++ more) ∧
    later.find? "Leaf" = some ⟨"Leaf", .leaf .int⟩ ∧
    (∀ value, later.parse "Branch" value = branches.parse "Branch" value) ∧
    later.parse "Nest" .null ≠ branches.parse "Nest" .null := by
  intro later
  obtain ⟨htext, hfound, hparse⟩ :=
    pushed_appends branches [⟨"Animals", [⟨"Leaf", .leaf .string⟩, ⟨"Bird", .leaf .any⟩]⟩]
  refine ⟨htext, hfound "Leaf" (by decide), hparse "Branch" fun other hreach => ?_, ?_⟩
  · rcases mem_of_branch_reaches hreach with rfl | rfl <;> decide
  · have hnest : later.parse "Nest" .null = .ok .null := by
      rw [parse, eval_ref_of_notMem List.not_mem_nil]
      show later.eval ["Nest"] (.ref "Bird") .null = _
      rw [eval_ref_of_notMem (by decide)]
      exact eval_leaf_eq_ok_iff.mpr ⟨rfl, rfl⟩
    have hbird : branches.parse "Nest" .null = .error (.rejected (.undefined "Bird")) := by
      rw [parse, eval_ref_of_notMem List.not_mem_nil]
      show branches.eval ["Nest"] (.ref "Bird") .null = _
      exact eval_ref_of_notMem (by decide) .null
    rw [hnest, hbird]
    exact nofun

end Document

end DataShapes
