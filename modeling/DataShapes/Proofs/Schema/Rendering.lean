import DataShapes.Proofs.Schema.Deferral
import DataShapes.Proofs.Schema.Document

/-! # Deferrals in the text of a document

The text of a document is a row of statements under headings, one for each declaration in order. Each
statement is placed in the scope of the names stated before it, so that evaluating the text from top to
bottom never looks up a name that is not stated yet. -/

namespace DataShapes

/-- A declaration as it is written. -/
structure Statement where
  name : String
  /-- Whether the type is stated too. -/
  annotated : Bool
  body : Placed

namespace Statement

def text (s : Statement) : String :=
  "export const " ++ s.name ++ (if s.annotated then ": z.ZodTypeAny" else "") ++ " = " ++ s.body.bodyText ++ ";\n"

/-- A declaration as it is written after those of the names `defined`. -/
def ofDeclaration (defined : List String) (d : Declaration) : Statement :=
  let scope : Scope := ⟨defined, d.name⟩
  ⟨d.name, scope.looksAhead d.schema, scope.place d.schema⟩

/-- Declarations as they are written one after the other. -/
def ofDeclarations (defined : List String) : List Declaration → List Statement
  | [] => []
  | d :: ds => ofDeclaration defined d :: ofDeclarations (d.name :: defined) ds

/-- A statement of this schema, written after those of the names `earlier`, puts off what it has to and
nothing else. -/
structure WellPlaced (earlier : List String) (schema : Schema) (s : Statement) : Prop where
  /-- What is not put off is stated before. -/
  eager : ∀ name ∈ s.body.eager, name ∈ earlier ∧ name ≠ s.name
  flat : ∀ inner ∈ s.body.deferrals, inner.deferrals = []
  /-- What is put off refers to the statement itself or to what is not stated before. -/
  needed : ∀ inner ∈ s.body.deferrals, inner.isDeferrable = true ∧
    ∃ name ∈ inner.erase.references, name = s.name ∨ name ∉ earlier
  annotated : s.annotated = true ↔ s.body.deferrals ≠ []
  /-- Without marks it is the statement that would be written if all names were stated before. -/
  erased : s.body.erase = schema ∧ ∀ scope : Scope, (∀ name ∈ schema.references, scope.isForward name = false) →
    Placed.ofSchema s.body.erase = scope.place schema

/-! ### One statement -/

section
variable {defined : List String} {d : Declaration}

theorem text_ofDeclaration : (ofDeclaration defined d).text = d.text defined := rfl

theorem isForward_eq_false {name current : String} :
    (Scope.mk defined current).isForward name = false ↔ name ≠ current ∧ name ∈ defined := by
  simp [Scope.isForward]

theorem isForward_eq_true {name current : String} :
    (Scope.mk defined current).isForward name = true ↔ name = current ∨ name ∉ defined := by
  simp [Scope.isForward]

theorem wellPlaced_ofDeclaration {earlier : List String} (h : ∀ name, name ∈ defined ↔ name ∈ earlier) :
    (ofDeclaration defined d).WellPlaced earlier d.schema where
  eager name hn := by
    obtain ⟨hself, hdefined⟩ := isForward_eq_false.mp (Scope.isForward_of_mem_eager hn)
    exact ⟨(h name).mp hdefined, hself⟩
  flat inner hi := by
    obtain ⟨part, rfl, -, -⟩ := Scope.exists_of_mem_deferrals hi
    exact Placed.deferrals_ofSchema part
  needed inner hi := by
    obtain ⟨part, rfl, hpart, hahead⟩ := Scope.exists_of_mem_deferrals hi
    obtain ⟨name, hn, hforward⟩ := Scope.looksAhead_iff.mp hahead
    refine ⟨hpart, name, by rwa [Placed.erase_ofSchema], ?_⟩
    exact (isForward_eq_true.mp hforward).imp_right (mt (h name).mpr)
  annotated := (not_iff_comm.mp Scope.deferrals_place_eq_nil_iff.symm).symm
  erased := by
    refine ⟨Scope.erase_place d.schema, fun scope hscope => ?_⟩
    have hahead : ¬ scope.looksAhead d.schema = true := fun ha => by
      obtain ⟨name, hn, hforward⟩ := Scope.looksAhead_iff.mp ha
      rw [hscope name hn] at hforward
      cases hforward
    rw [Scope.place_eq_ofSchema hahead]
    exact congrArg Placed.ofSchema (Scope.erase_place d.schema)

end

/-! ### Statements in a row -/

theorem map_name_ofDeclarations (defined : List String) (ds : List Declaration) :
    (ofDeclarations defined ds).map (·.name) = ds.map (·.name) := by
  induction ds generalizing defined with
  | nil => rfl
  | cons d ds ih => rw [ofDeclarations, List.map_cons, ih, List.map_cons]; rfl

theorem map_text_ofDeclarations (defined : List String) (ds : List Declaration) :
    (ofDeclarations defined ds).map ("\n" ++ ·.text) = Declaration.texts defined ds := by
  induction ds generalizing defined with
  | nil => rfl
  | cons d ds ih => rw [ofDeclarations, List.map_cons, ih, Declaration.texts, text_ofDeclaration]

/-- A statement of a row is placed in the scope of those before it. -/
theorem exists_of_ofDeclarations_eq {defined : List String} {ds : List Declaration} {before after : List Statement}
    {s : Statement} (h : ofDeclarations defined ds = before ++ s :: after) :
    ∃ x ∈ ds, ∃ seen, s = ofDeclaration seen x ∧
      ∀ name, name ∈ seen ↔ name ∈ before.map (·.name) ∨ name ∈ defined := by
  induction before generalizing defined ds with
  | nil =>
    cases ds with
    | nil => cases h
    | cons d ds =>
      obtain ⟨rfl, -⟩ := List.cons.inj h
      exact ⟨d, List.mem_cons_self, defined, rfl, by simp⟩
  | cons t before ih =>
    cases ds with
    | nil => cases h
    | cons d ds =>
      obtain ⟨rfl, hrest⟩ := List.cons.inj h
      obtain ⟨x, hx, seen, hs, hseen⟩ := ih hrest
      refine ⟨x, List.mem_cons_of_mem _ hx, seen, hs, fun name => ?_⟩
      rw [hseen, List.mem_cons, List.map_cons, List.mem_cons, or_left_comm, ← or_assoc]
      rfl

end Statement

/-- A section as it is written. -/
structure WrittenSection where
  title : String
  statements : List Statement

namespace WrittenSection

/-- A section without statements has no heading either. -/
def text (s : WrittenSection) : String :=
  if s.statements.isEmpty then ""
  else
    "\n" ++ Document.rule ++ "\n// " ++ Uppercase.ofString s.title ++ "\n" ++ Document.rule ++ "\n" ++
      String.join (s.statements.map ("\n" ++ ·.text))

/-- Sections as they are written one after the other. -/
def ofSections (defined : List String) : List Section → List WrittenSection
  | [] => []
  | s :: rest =>
    ⟨s.title, Statement.ofDeclarations defined s.declarations⟩ ::
      ofSections (s.declarations.map (·.name) ++ defined) rest

theorem text_eq_sectionText (defined : List String) (s : Section) :
    text ⟨s.title, Statement.ofDeclarations defined s.declarations⟩ = Document.sectionText defined s := by
  unfold text Document.sectionText
  rw [Statement.map_text_ofDeclarations]
  cases s.declarations <;> rfl

theorem join_text_ofSections (defined : List String) (sections : List Section) :
    String.join ((ofSections defined sections).map (·.text)) = Document.sectionTexts defined sections := by
  induction sections generalizing defined with
  | nil => rfl
  | cons s rest ih => rw [ofSections, List.map_cons, String.join_cons, ih, text_eq_sectionText,
      Document.sectionTexts]

theorem map_name_ofSections (defined : List String) (sections : List Section) :
    ((ofSections defined sections).flatMap (·.statements)).map (·.name) =
      (sections.flatMap (·.declarations)).map (·.name) := by
  induction sections generalizing defined with
  | nil => rfl
  | cons s rest ih => rw [ofSections, List.flatMap_cons, List.map_append, ih, List.flatMap_cons, List.map_append,
      Statement.map_name_ofDeclarations]

theorem exists_of_ofSections_eq {defined : List String} {sections : List Section} {before after : List Statement}
    {s : Statement} (h : (ofSections defined sections).flatMap (·.statements) = before ++ s :: after) :
    ∃ x ∈ sections.flatMap (·.declarations), ∃ seen, s = .ofDeclaration seen x ∧
      ∀ name, name ∈ seen ↔ name ∈ before.map (·.name) ∨ name ∈ defined := by
  induction sections generalizing defined before with
  | nil => simp [ofSections] at h
  | cons first rest ih =>
    rw [ofSections, List.flatMap_cons] at h
    rw [List.flatMap_cons]
    -- The statement is one of the first section, or one of the rest.
    rcases List.append_eq_append_iff.mp h with ⟨between, rfl, hrest⟩ | ⟨between, hfirst, hrest⟩
    · obtain ⟨x, hx, seen, hs, hseen⟩ := ih hrest
      refine ⟨x, List.mem_append_right _ hx, seen, hs, fun name => ?_⟩
      rw [hseen, List.mem_append, List.map_append, List.mem_append, Statement.map_name_ofDeclarations,
        or_left_comm, or_assoc]
    · cases between with
      | nil =>
        obtain ⟨x, hx, seen, hs, hseen⟩ := @ih _ [] hrest.symm
        refine ⟨x, List.mem_append_right _ hx, seen, hs, fun name => ?_⟩
        rw [List.append_nil] at hfirst
        rw [hseen, ← hfirst, Statement.map_name_ofDeclarations]
        simp
      | cons t between =>
        obtain ⟨rfl, -⟩ := List.cons.inj hrest
        obtain ⟨x, hx, seen, hs, hseen⟩ := Statement.exists_of_ofDeclarations_eq hfirst
        exact ⟨x, List.mem_append_left _ hx, seen, hs, hseen⟩

end WrittenSection

namespace Document

/-- The document as it is written. -/
def written (d : Document) : List WrittenSection := WrittenSection.ofSections [] d.sections

/-- The statements of the document in order. -/
def statements (d : Document) : List Statement := d.written.flatMap (·.statements)

/-- However a document was made, its text is the opening and its written sections; these state the names
that it declares, in order, and each statement is placed well after those before it. -/
theorem render_wellPlaced (sections : List Section) :
    (ofSections sections).value.render =
        opening ++ String.join ((ofSections sections).value.written.map (·.text)) ∧
      (ofSections sections).value.statements.map (·.name) = (ofSections sections).value.names ∧
      ∀ before s after, (ofSections sections).value.statements = before ++ s :: after →
        ∃ x, (ofSections sections).value.find? s.name = some x ∧
          s.WellPlaced (before.map (·.name)) x.schema := by
  refine ⟨?_, WrittenSection.map_name_ofSections [] _, fun before s after h => ?_⟩
  · rw [render, written, WrittenSection.join_text_ofSections]
  · obtain ⟨x, hx, seen, rfl, hseen⟩ := WrittenSection.exists_of_ofSections_eq h
    refine ⟨x, find?_of_mem (nodup_names_ofSections sections) hx, ?_⟩
    exact Statement.wellPlaced_ofDeclaration fun name => by simp [hseen]

example :
    let a := Schema.strictObject [("self", (Schema.ref "A").optional), ("many", .oneOrMany (.ref "B"))]
    let b := Schema.array (.ref "A")
    (ofSections [⟨"Both", [⟨"A", a⟩, ⟨"B", b⟩]⟩]).value.statements.map (·.text) =
      ["export const A: z.ZodTypeAny = z.object(\x7b\n  self: z.lazy(() => A).optional(),\n" ++
          "  many: z.lazy(() => z.union([B.array(), B])),\n\x7d).strict();\n",
        "export const B = A.array();\n"] := by
  decide +kernel

end Document

end DataShapes
