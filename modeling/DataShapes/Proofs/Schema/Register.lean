import DataShapes.Proofs.Schema.Document
import Mathlib.Algebra.GroupWithZero.Nat
import Mathlib.Data.Finset.Card

/-! # Names and sections in step

To know which names are taken nobody has to search the sections: the set of taken names can be kept beside them, and
grows with every declaration that is kept. This is said here step by step, and whatever is pushed, the set and the
sections tell the same. So does the report: each declaration pushed is kept and counted, or dropped and told. -/

namespace DataShapes

/-! ### Declarations one by one -/

/-- A section in the making, and the names that are taken so far. -/
structure Intake where
  taken : Finset String
  kept : List Declaration
  events : List Event

namespace Intake

/-- A declaration is kept if its name is new, which is then taken. -/
def add (s : Intake) (d : Declaration) : Intake :=
  if d.name ∈ s.taken then { s with events := s.events ++ [.duplicateDropped d.name] }
  else { s with taken := insert d.name s.taken, kept := s.kept ++ [d] }

theorem add_of_mem {s : Intake} {d : Declaration} (h : d.name ∈ s.taken) :
    s.add d = ⟨s.taken, s.kept, s.events ++ [.duplicateDropped d.name]⟩ :=
  if_pos h

theorem add_of_notMem {s : Intake} {d : Declaration} (h : d.name ∉ s.taken) :
    s.add d = ⟨insert d.name s.taken, s.kept ++ [d], s.events⟩ :=
  if_neg h

/-- Declarations taken in one by one are split like all of them at once. -/
theorem foldl_add (s : Intake) (ds : List Declaration) {names : List String} (hnames : s.taken = names.toFinset) :
    ds.foldl add s = ⟨s.taken ∪ ((Declaration.splitNew names ds).1.map (·.name)).toFinset,
      s.kept ++ (Declaration.splitNew names ds).1,
      s.events ++ (Declaration.splitNew names ds).2.map .duplicateDropped⟩ := by
  induction ds generalizing s names with
  | nil => simp [Declaration.splitNew]
  | cons d ds ih =>
    have hmem : d.name ∈ s.taken ↔ d.name ∈ names := by rw [hnames, List.mem_toFinset]
    rw [List.foldl_cons]
    by_cases hd : d.name ∈ names
    · have hrest := ih ⟨s.taken, s.kept, s.events ++ [.duplicateDropped d.name]⟩ hnames
      rw [add_of_mem (hmem.mpr hd), hrest, Declaration.splitNew_of_mem hd, Declaration.splitNew_snd_of_mem hd]
      simp
    · have hgrown : insert d.name s.taken = (d.name :: names).toFinset := by rw [hnames, List.toFinset_cons]
      have hrest := ih ⟨insert d.name s.taken, s.kept ++ [d], s.events⟩ hgrown
      rw [add_of_notMem (mt hmem.mp hd), hrest, Declaration.splitNew_of_notMem hd,
        Declaration.splitNew_snd_of_notMem hd]
      simp [Finset.insert_union]

end Intake

/-! ### Section after section -/

/-- A document in the making: its sections, the names that are taken, and what was reported. -/
structure Register where
  sections : List Section
  taken : Finset String
  events : List Event

namespace Register

def empty : Register := ⟨[], ∅, []⟩

/-- Appends a section of what is kept of the declarations. -/
def push (r : Register) (s : Section) : Register :=
  let intake := s.declarations.foldl Intake.add ⟨r.taken, [], []⟩
  ⟨r.sections ++ [⟨s.title, intake.kept⟩], intake.taken,
    r.events ++ (intake.events ++ [.sectionAssembled s.title intake.kept.length])⟩

def ofSections (sections : List Section) : Register := sections.foldl push empty

/-- The register holds the sections of the document and exactly the names declared in them. -/
structure InStep (r : Register) (d : Document) : Prop where
  sections : r.sections = d.sections
  taken : r.taken = d.names.toFinset

theorem InStep.push {r : Register} {d : Document} (h : r.InStep d) (s : Section) :
    (r.push s).InStep (d.push s.title s.declarations).value ∧
      (r.push s).events = r.events ++ (d.push s.title s.declarations).events := by
  have hintake := Intake.foldl_add ⟨r.taken, [], []⟩ s.declarations h.taken
  simp only [List.nil_append] at hintake
  have hpush : r.push s = ⟨r.sections ++ [⟨s.title, (Declaration.splitNew d.names s.declarations).1⟩],
      r.taken ∪ ((Declaration.splitNew d.names s.declarations).1.map (·.name)).toFinset,
      r.events ++ (d.push s.title s.declarations).events⟩ := by
    rw [Register.push, hintake]
    rfl
  rw [hpush]
  refine ⟨⟨?_, ?_⟩, rfl⟩
  · rw [h.sections]
    rfl
  · rw [Document.names_push, List.toFinset_append, h.taken]

theorem InStep.pushAll {r : Register} {d : Document} (h : r.InStep d) (sections : List Section) :
    (sections.foldl Register.push r).InStep (d.pushAll sections).value ∧
      (sections.foldl Register.push r).events = r.events ++ (d.pushAll sections).events := by
  induction sections generalizing r d with
  | nil => exact ⟨h, (List.append_nil _).symm⟩
  | cons s rest ih =>
    obtain ⟨hnext, hevents⟩ := h.push s
    obtain ⟨hlast, hothers⟩ := ih hnext
    refine ⟨hlast, ?_⟩
    rw [List.foldl_cons, hothers, hevents, List.append_assoc]
    rfl

end Register

/-! ### What is reported -/

namespace Event

/-- The name of the declaration that the event tells to be dropped. -/
def dropped? : Event → Option String
  | .duplicateDropped name => some name
  | _ => none

/-- The title of the section that the event tells to be assembled, and the number of its declarations. -/
def assembled? : Event → Option (String × Nat)
  | .sectionAssembled title size => some (title, size)
  | _ => none

end Event

namespace Document

theorem dropped_push (d : Document) (title : String) (ds : List Declaration) :
    (d.push title ds).events.filterMap Event.dropped? = (Declaration.splitNew d.names ds).2 := by
  simp [push, List.filterMap_map, Function.comp_def, Event.dropped?]

theorem assembled_push (d : Document) (title : String) (ds : List Declaration) :
    (d.push title ds).events.filterMap Event.assembled? = [(title, (Declaration.splitNew d.names ds).1.length)] := by
  simp [push, List.filterMap_map, Function.comp_def, Event.assembled?]

/-- Sections are appended, each with some of its declarations, and the report tells how many of them are kept and which
are dropped. -/
structure Appended (d : Document) (pushed : List Section) (report : Reported Document) : Prop where
  sections : ∃ kept, report.value.sections = d.sections ++ kept ∧
    List.Forall₂ (fun s k => k.title = s.title ∧ k.declarations.Sublist s.declarations) pushed kept ∧
    report.events.filterMap Event.assembled? = kept.map fun k => (k.title, k.declarations.length)
  counted : report.value.size + (report.events.filterMap Event.dropped?).length =
    d.size + (pushed.flatMap (·.declarations)).length

theorem appended_push (d : Document) (s : Section) : d.Appended [s] (d.push s.title s.declarations) where
  sections := by
    refine ⟨[⟨s.title, (Declaration.splitNew d.names s.declarations).1⟩], rfl, .cons ⟨rfl, ?_⟩ .nil, ?_⟩
    · exact Declaration.splitNew_sublist d.names s.declarations
    · exact assembled_push d s.title s.declarations
  counted := by
    have hlength := Declaration.length_splitNew d.names s.declarations
    rw [dropped_push, size, declarations_push, List.length_append, size, List.flatMap_singleton]
    omega

theorem Appended.bind {d : Document} {first rest : List Section} {report : Reported Document}
    {next : Document → Reported Document} (h : d.Appended first report)
    (hnext : report.value.Appended rest (next report.value)) : d.Appended (first ++ rest) (report.bind next) where
  sections := by
    obtain ⟨kept, hkept, hfirst, hreport⟩ := h.sections
    obtain ⟨others, hothers, hrest, hlater⟩ := hnext.sections
    refine ⟨kept ++ others, ?_, List.rel_append hfirst hrest, ?_⟩
    · rw [Reported.bind, hothers, hkept, List.append_assoc]
    · rw [Reported.bind, List.filterMap_append, hreport, hlater, List.map_append]
  counted := by
    have hfirst := h.counted
    have hrest := hnext.counted
    simp only [Reported.bind, List.filterMap_append, List.length_append, List.flatMap_append]
    omega

theorem appended_pushAll (d : Document) (sections : List Section) : d.Appended sections (d.pushAll sections) := by
  induction sections generalizing d with
  | nil => exact ⟨⟨[], (List.append_nil _).symm, .nil, rfl⟩, rfl⟩
  | cons s rest ih => exact (appended_push d s).bind (ih _)

/-- Whatever is pushed onto an empty document, the set of taken names and the sections stay in step. Names are distinct;
a name is taken when it is declared in some section, and then it stands for what was pushed under it first. The
sections are those pushed, in order, with some of their declarations in order. The report tells each declaration that
was pushed: those kept by their number in each section, and those dropped one by one. -/
theorem register_in_step (sections : List Section) :
    let report := ofSections sections
    let d := report.value
    let register := Register.ofSections sections
    let pushed := sections.flatMap (·.declarations)
    (register.sections = d.sections ∧ register.events = report.events) ∧
    d.names.Nodup ∧
    (∀ name, (name ∈ register.taken ↔ d.contains name = true) ∧
      (d.contains name = true ↔ ∃ x ∈ d.declarations, x.name = name) ∧
      (d.contains name = true ↔ (d.find? name).isSome = true) ∧
      d.find? name = pushed.find? (·.name == name)) ∧
    (register.taken.card = d.size ∧ d.size = d.declarations.length) ∧
    List.Forall₂ (fun s kept => kept.title = s.title ∧ kept.declarations.Sublist s.declarations) sections d.sections ∧
    pushed.length = d.size + (report.events.filterMap Event.dropped?).length ∧
    report.events.filterMap Event.assembled? = d.sections.map (fun s => (s.title, s.declarations.length)) ∧
    ((report.events.filterMap Event.assembled?).map (·.2)).sum = d.size := by
  intro report d register pushed
  have hempty : Register.empty.InStep empty := ⟨rfl, rfl⟩
  obtain ⟨hstep, hevents⟩ := hempty.pushAll sections
  have htaken : register.taken = d.names.toFinset := hstep.taken
  obtain ⟨⟨kept, hkept, hsections, hassembled⟩, hcounted⟩ := appended_pushAll empty sections
  obtain rfl : d.sections = kept := hkept
  have hreported : report.events.filterMap Event.assembled? =
      d.sections.map fun s => (s.title, s.declarations.length) := hassembled
  have hcount : d.size + (report.events.filterMap Event.dropped?).length = 0 + pushed.length := hcounted
  have hnodup : d.names.Nodup := nodup_names_ofSections sections
  have hcontains : ∀ name, d.contains name = true ↔ name ∈ d.names := fun name => List.contains_iff_mem
  refine ⟨⟨hstep.sections, hevents⟩, hnodup, fun name => ⟨?_, ?_, ?_, ?_⟩, ⟨?_, rfl⟩, hsections, ?_, hreported, ?_⟩
  · rw [hcontains, htaken, List.mem_toFinset]
  · rw [hcontains, names, List.mem_map]
  · rw [hcontains, mem_names_iff_find?]
  · exact find?_ofSections sections name
  · rw [htaken, List.toFinset_card_of_nodup hnodup, names, List.length_map, size]
  · omega
  · rw [hreported, List.map_map, size, declarations, List.length_flatMap]
    rfl

end Document

end DataShapes
