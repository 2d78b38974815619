import DataShapes.Proofs.Generation.Agreement
import DataShapes.Proofs.Generation.Losses

/-! # What a document keeps

A document keeps the first declaration of a name. The others are no loss exactly when names do not clash. -/

namespace DataShapes

namespace DataModel
variable {model : DataModel}

/-- A model loses no schema just where its names do not clash. -/
theorem lossless_iff (hm : model.NamedApart) (hr : model.Resolved) : model.Lossless ↔ ¬ model.Clash := by
  constructor
  · exact fun hl hc => hc.not_lossless hm hr hl
  · intro hc a ha b hb hn
    obtain ⟨o, ha⟩ := mem_built_iff_owned.mp ha
    obtain ⟨o', hb⟩ := mem_built_iff_owned.mp hb
    exact agree hc hm o o' a b ha hb hn

/-- Dropping all declarations of a name but the first loses nothing exactly when the names of an accepted
model do not clash. Then the document finds every declaration under its name, and finds under a reference the
one declaration that was built for it. -/
theorem lossless_iff_not_clash (h : model.validate = .ok ()) :
    (model.Lossless ↔ ¬ model.Clash) ∧
      (¬ model.Clash → ∀ d ∈ model.built, model.document.find? d.name = some d ∧
        ∀ name ∈ d.schema.references, ∃ meant, model.document.find? name = some meant ∧
          ∀ e ∈ model.built, e.name = name → e = meant) := by
  have hiff := lossless_iff (namedApart_of_validate h) (resolved_of_validate h)
  refine ⟨hiff, fun hc d hd => ?_⟩
  have hl : model.Lossless := hiff.mpr hc
  refine ⟨hl.find?_document hd, fun name hname => ?_⟩
  obtain ⟨meant, hmeant, rfl⟩ := (resolved_of_validate h).provides_of_mem_references hd name hname
  have hfound := hl.find?_document (mem_built.mpr (Or.inl hmeant))
  refine ⟨meant, hfound, fun e he hn => ?_⟩
  have hfound' := hl.find?_document he
  rw [hn] at hfound'
  exact Option.some.inj (hfound'.symm.trans hfound)

/-! ### A model that gives names twice -/

/-- Books on shelves, and tags: an enumeration is named like one that every document has, and an entity is named
like another one with `Unchecked`. -/
def shelves : DataModel :=
  let sort := Field.plain "sort" (.enumeration "SortOrder")
  let shelf := Field.plain "shelf" (.relation ⟨"Shelf", "Stands", ["shelfId"]⟩)
  ⟨[keyed "Tag" [sort], keyed "TagUnchecked" [sort], keyed "Shelf" [relating "books" "Book" "Stands" true],
    keyed "Book" [.plain "shelfId" (.scalar .int), shelf]], [⟨"SortOrder", ["asc", "desc"]⟩]⟩

theorem runsOn_shelves {entity other : Entity} {more : String} (h : shelves.RunsOn entity more other) :
    more = "" ∨ more = "Unchecked" ∧ entity.name = "Tag" := by
  have hnames : ∀ entity ∈ shelves.entities, ∀ other ∈ shelves.entities, bytesOf entity.name <+: bytesOf other.name →
      other.name = entity.name ++ "" ∨ other.name = entity.name ++ "Unchecked" ∧ entity.name = "Tag" := by
    decide +kernel
  rcases hnames _ h.mem _ h.mem_other (prefix_of_append_eq h.name_eq.symm) with hn | ⟨hn, htag⟩
  · exact Or.inl ((String.append_right_inj _).mp (h.name_eq.symm.trans hn))
  · exact Or.inr ⟨(String.append_right_inj _).mp (h.name_eq.symm.trans hn), htag⟩

/-- Both give names twice, but to schemas that are the same. -/
theorem not_clash_shelves : ¬ shelves.Clash := by
  have htargets : ∀ p ∈ shelves.edges, p.2.target.name ≠ "Tag" := by decide +kernel
  intro h
  cases h with
  | shared he hd hn =>
    have hshared : ∀ entity ∈ shelves.entities, ∀ d ∈ shelves.sharedInputs,
        d.name ≠ Naming.ofEntity entity.name "" := by decide +kernel
    exact hshared _ he _ hd hn
  | enumeration he he' hn =>
    have hnames : ∀ entity ∈ shelves.entities, ∀ e ∈ shelves.enumerations, entity.name ≠ e.name := by decide
    exact hnames _ he _ he' hn
  | suffix h hs hd hn =>
    rcases runsOn_shelves h with hempty | ⟨rfl, htag⟩
    · exact hs hempty
    · have hsuffix : ∀ p ∈ shelves.owned, p.1 = .entity "Tag" → p.2.name ≠ Naming.ofEntity "Tag" "Unchecked" := by
        decide +kernel
      rw [htag] at hd hn
      exact hsuffix _ hd rfl hn
  | sharedMembers he hd hn hne =>
    have hmembers : ∀ e ∈ shelves.enumerations, ∀ d ∈ shelves.sharedInputs, d.name = Naming.enumeration e.name →
        d.schema = .enumeration e.values := by decide +kernel
    exact hne (hmembers _ he _ hd hn)
  | suffixMembers he hentity hname =>
    have hnames : ∀ e ∈ shelves.enumerations, ∀ entity ∈ shelves.entities,
        ¬ bytesOf entity.name <+: bytesOf e.name := by decide +kernel
    exact hnames _ he _ hentity (prefix_of_append_eq hname.symm)
  | input hown he hnames =>
    have hfilters : ∀ own ∈ shelves.entities.map (·.name) ++ shelves.enumerations.map (·.name),
        ∀ e ∈ shelves.enumerations, ∀ m ∈ Multiplicity.all, Naming.enumerationFilter e.name m ≠ own ++ "Schema" := by
      decide +kernel
    have hoperations : ∀ own ∈ shelves.entities.map (·.name) ++ shelves.enumerations.map (·.name),
        ∀ e ∈ shelves.enumerations, ∀ nullable, Naming.enumerationOperations e.name nullable ≠ own ++ "Schema" := by
      decide +kernel
    rcases hnames with ⟨m, -, hn⟩ | ⟨nullable, -, hn⟩
    · exact hfilters _ hown _ he m m.mem_all hn
    · exact hoperations _ hown _ he nullable hn
  | filters he ho hmore hn =>
    obtain rfl := List.mem_singleton.mp he
    obtain rfl := List.mem_singleton.mp ho
    have hempty := String.append_eq_left_iff.mp hn.symm
    simp [hempty] at hmore
  | relationFilter he hentity _ hn =>
    have hnames : ∀ e ∈ shelves.enumerations, ∀ entity ∈ shelves.entities,
        ¬ bytesOf entity.name <+: bytesOf ("Enum" ++ e.name) := by decide +kernel
    exact hnames _ he _ hentity (prefix_of_append_eq hn.symm)
  | operations _ _ hwrite _ hs =>
    have hspellings : ∀ p ∈ shelves.edges, ¬ bytesOf "FieldUpdateOperations" <:+ bytesOf p.2.spelling := by
      decide +kernel
    exact hspellings _ hwrite.mem_edges (suffix_of_append_eq hs.symm)
  | arguments h hs => rcases runsOn_shelves h with rfl | ⟨rfl, -⟩ <;> exact absurd hs (by decide)
  | relationFilters h hmore => rcases runsOn_shelves h with rfl | ⟨rfl, -⟩ <;> simp at hmore
  | scalarWhere h => simpa using runsOn_shelves h
  | counts h => simpa using runsOn_shelves h
  | @unchecked entity other purpose h hne =>
    have hpayloads : ∀ purpose ∈ [Purpose.create, .update], ∀ entity ∈ shelves.entities,
        ∀ other ∈ shelves.entities, other.name = entity.name ++ "Unchecked" →
          Payload.properties (Graph.ofModel shelves) purpose .unchecked entity none =
            Payload.properties (Graph.ofModel shelves) purpose .checked other none := by decide +kernel
    exact hne (hpayloads purpose (by cases purpose <;> decide) _ h.mem _ h.mem_other h.name_eq)
  | uncheckedWrites h _ hrun =>
    rcases runsOn_shelves hrun with hempty | ⟨-, htag⟩
    · exact absurd hempty (by decide)
    · exact htargets _ h htag
  | uncheckedLists h _ hrun =>
    rcases runsOn_shelves hrun with hempty | ⟨-, htag⟩
    · exact absurd hempty (by decide)
    · exact htargets _ h htag
  | write hwrite hrun =>
    rcases runsOn_shelves hrun with hempty | ⟨-, htag⟩
    · have hopening : ∀ r ∈ NestedRole.possible, r.opening ≠ "" := by decide
      exact hopening _ hwrite.mem_possible (String.append_eq_empty_iff.mp hempty).1
    · exact htargets _ hwrite.mem_edges htag
  | fields h h' ht hs hne =>
    have hfields : ∀ p ∈ shelves.edges, ∀ q ∈ shelves.edges, p.2.spelling = q.2.spelling →
        p.2.reverse = q.2.reverse := by decide +kernel
    exact hne (hfields _ h _ h' hs)
  | endings h h' _ _ _ hs =>
    have hspellings : ∀ p ∈ shelves.edges, ∀ q ∈ shelves.edges, p.2.spelling ≠ q.2.spelling ++ "Nested" := by
      decide +kernel
    exact hspellings _ h _ h' hs
  | rows h _ _ hs =>
    have hspellings : ∀ p ∈ shelves.edges, p.2.spelling ≠ "" := by decide +kernel
    exact hspellings _ h hs

/-- Declarations are dropped, and nothing is lost. -/
theorem shelves_lossless : shelves.validate = .ok () ∧ ¬ shelves.DropsNothing ∧ ¬ shelves.Clash ∧ shelves.Lossless ∧
    ∀ d ∈ shelves.built, shelves.document.find? d.name = some d ∧
      ∀ name ∈ d.schema.references, ∃ meant, shelves.document.find? name = some meant ∧
        ∀ e ∈ shelves.built, e.name = name → e = meant := by
  have hvalid : shelves.validate = .ok () := by decide
  obtain ⟨hiff, hfinds⟩ := lossless_iff_not_clash hvalid
  exact ⟨hvalid, by decide +kernel, not_clash_shelves, hiff.mpr not_clash_shelves, hfinds not_clash_shelves⟩

end DataModel

end DataShapes
