import DataShapes.Proofs.Lookup
import DataShapes.Proofs.Text.NameSet
import DataShapes.Schema.Document

/-! # Look-up in a document

A document made by pushing sections finds under a name the first declaration of that name that was ever
pushed. So it declares exactly the names that were pushed, and what it declares was pushed. -/

namespace DataShapes

namespace Declaration

theorem splitNew_of_mem {taken : List String} {d : Declaration} {ds : List Declaration}
    (h : d.name ∈ taken) : (splitNew taken (d :: ds)).1 = (splitNew taken ds).1 := by
  simp [splitNew, h]

theorem splitNew_of_notMem {taken : List String} {d : Declaration} {ds : List Declaration}
    (h : d.name ∉ taken) : (splitNew taken (d :: ds)).1 = d :: (splitNew (d.name :: taken) ds).1 := by
  simp [splitNew, h]

theorem splitNew_snd_of_mem {taken : List String} {d : Declaration} {ds : List Declaration}
    (h : d.name ∈ taken) : (splitNew taken (d :: ds)).2 = d.name :: (splitNew taken ds).2 := by
  simp [splitNew, h]

theorem splitNew_snd_of_notMem {taken : List String} {d : Declaration} {ds : List Declaration}
    (h : d.name ∉ taken) : (splitNew taken (d :: ds)).2 = (splitNew (d.name :: taken) ds).2 := by
  simp [splitNew, h]

/-- What is kept under a name is its first declaration, unless the name was taken before. -/
theorem find?_splitNew (name : String) :
    ∀ (taken : List String) (ds : List Declaration), (splitNew taken ds).1.find? (·.name == name) =
      if name ∈ taken then none else ds.find? (·.name == name)
  | _, [] => by simp [splitNew]
  | taken, d :: ds => by
    by_cases hn : d.name = name
    · subst hn
      by_cases hd : d.name ∈ taken
      · rw [splitNew_of_mem hd, find?_splitNew d.name taken ds, if_pos hd, if_pos hd]
      · rw [splitNew_of_notMem hd, if_neg hd, List.find?_cons_of_pos (by simp),
          List.find?_cons_of_pos (by simp)]
    · rw [List.find?_cons_of_neg (by simpa using hn)]
      by_cases hd : d.name ∈ taken
      · rw [splitNew_of_mem hd, find?_splitNew name taken ds]
      · rw [splitNew_of_notMem hd, List.find?_cons_of_neg (by simpa using hn),
          find?_splitNew name (d.name :: taken) ds]
        simp [Ne.symm hn]

/-- What is kept was there before, in the same order. -/
theorem splitNew_sublist (taken : List String) (ds : List Declaration) : (splitNew taken ds).1.Sublist ds := by
  induction ds generalizing taken with
  | nil => exact .slnil
  | cons d ds ih =>
    by_cases hd : d.name ∈ taken
    · rw [splitNew_of_mem hd]
      exact (ih taken).cons d
    · rw [splitNew_of_notMem hd]
      exact (ih (d.name :: taken)).cons_cons d

/-- Whatever is not kept is dropped. -/
theorem length_splitNew (taken : List String) (ds : List Declaration) :
    (splitNew taken ds).1.length + (splitNew taken ds).2.length = ds.length := by
  induction ds generalizing taken with
  | nil => rfl
  | cons d ds ih =>
    by_cases hd : d.name ∈ taken
    · have hrest := ih taken
      rw [splitNew_of_mem hd, splitNew_snd_of_mem hd, List.length_cons, List.length_cons]
      omega
    · have hrest := ih (d.name :: taken)
      rw [splitNew_of_notMem hd, splitNew_snd_of_notMem hd, List.length_cons, List.length_cons]
      omega

/-- When nothing is dropped, all is kept. -/
theorem splitNew_fst_of_snd {taken : List String} {ds : List Declaration} (h : (splitNew taken ds).2 = []) :
    (splitNew taken ds).1 = ds := by
  have hlength := length_splitNew taken ds
  rw [h, List.length_nil, Nat.add_zero] at hlength
  exact (splitNew_sublist taken ds).eq_of_length hlength

/-- The kept names are not taken and differ from each other. -/
theorem nodup_splitNew (taken : List String) (ds : List Declaration) :
    ((splitNew taken ds).1.map (·.name)).Nodup ∧ ∀ name ∈ (splitNew taken ds).1.map (·.name), name ∉ taken := by
  induction ds generalizing taken with
  | nil => simp [splitNew]
  | cons d ds ih =>
    by_cases hd : d.name ∈ taken
    · rw [splitNew_of_mem hd]
      exact ih taken
    · rw [splitNew_of_notMem hd, List.map_cons, List.nodup_cons]
      obtain ⟨hnodup, hnew⟩ := ih (d.name :: taken)
      refine ⟨⟨fun h => hnew d.name h List.mem_cons_self, hnodup⟩, fun name hn => ?_⟩
      rcases List.mem_cons.mp hn with rfl | hn
      · exact hd
      · exact fun ht => hnew name hn (List.mem_cons_of_mem _ ht)

end Declaration

namespace Document

theorem mem_names_iff_find? {d : Document} {name : String} :
    name ∈ d.names ↔ (d.find? name).isSome := by
  simp [names, find?, List.find?_isSome]

/-- Nothing is unresolved when every reference is declared. -/
theorem unresolved_eq_nil_iff {d : Document} :
    d.unresolved = [] ↔ ∀ x ∈ d.declarations, ∀ name ∈ x.schema.references, name ∈ d.names := by
  simp only [unresolved, List.flatMap_eq_nil_iff, List.map_eq_nil_iff, List.filter_eq_nil_iff,
    Declaration.dependencies, List.mem_filter, NameSet.mem_ofList, contains, bne_iff_ne, Bool.not_eq_true',
    Bool.not_eq_false, List.contains_iff_mem, and_imp]
  refine forall₂_congr fun x hx => forall₂_congr fun name _ => ⟨fun h => ?_, fun h _ => h⟩
  by_cases hself : name = x.name
  · exact hself ▸ List.mem_map_of_mem hx
  · exact h hself

/-! ### Pushing a section -/

theorem declarations_push (d : Document) (title : String) (ds : List Declaration) :
    (d.push title ds).value.declarations = d.declarations ++ (Declaration.splitNew d.names ds).1 := by
  simp [push, declarations]

theorem names_push (d : Document) (title : String) (ds : List Declaration) :
    (d.push title ds).value.names = d.names ++ (Declaration.splitNew d.names ds).1.map (·.name) := by
  rw [names, declarations_push, List.map_append, ← names]

theorem find?_push (d : Document) (title : String) (ds : List Declaration) (name : String) :
    (d.push title ds).value.find? name = (d.find? name).or (ds.find? (·.name == name)) := by
  rw [find?, declarations_push, List.find?_append, Declaration.find?_splitNew, ← find?]
  cases hf : d.find? name with
  | some x =>
    have hn : name ∈ d.names := mem_names_iff_find?.mpr (by simp [hf])
    simp [hn]
  | none =>
    have hn : name ∉ d.names := fun h => by simp [mem_names_iff_find?, hf] at h
    simp [hn]

theorem mem_of_mem_push {d : Document} {title : String} {ds : List Declaration} {x : Declaration}
    (h : x ∈ (d.push title ds).value.declarations) : x ∈ d.declarations ∨ x ∈ ds := by
  rw [declarations_push, List.mem_append] at h
  exact h.imp_right fun h => (Declaration.splitNew_sublist d.names ds).subset h

theorem nodup_names_push {d : Document} (h : d.names.Nodup) (title : String) (ds : List Declaration) :
    (d.push title ds).value.names.Nodup := by
  obtain ⟨hnodup, hnew⟩ := Declaration.nodup_splitNew d.names ds
  rw [names_push]
  exact List.nodup_append.mpr ⟨h, hnodup, fun name hn other ho heq => hnew other ho (heq ▸ hn)⟩

/-! ### Pushing several sections -/

theorem find?_pushAll (name : String) :
    ∀ (d : Document) (sections : List Section), (d.pushAll sections).value.find? name =
      (d.find? name).or ((sections.flatMap (·.declarations)).find? (·.name == name))
  | d, [] => by simp [pushAll, Reported.silent]
  | d, s :: rest => by
    show ((d.push s.title s.declarations).value.pushAll rest).value.find? name = _
    rw [find?_pushAll name _ rest, find?_push, List.flatMap_cons, List.find?_append, Option.or_assoc]

theorem mem_of_mem_pushAll {x : Declaration} :
    ∀ {d : Document} {sections : List Section}, x ∈ (d.pushAll sections).value.declarations →
      x ∈ d.declarations ∨ x ∈ sections.flatMap (·.declarations)
  | _, [], h => Or.inl h
  | d, s :: rest, h => by
    rw [List.flatMap_cons, List.mem_append, ← or_assoc]
    have h : x ∈ ((d.push s.title s.declarations).value.pushAll rest).value.declarations := h
    rcases mem_of_mem_pushAll h with h | h
    · exact Or.inl (mem_of_mem_push h)
    · exact Or.inr h

theorem nodup_names_pushAll {d : Document} (h : d.names.Nodup) (sections : List Section) :
    (d.pushAll sections).value.names.Nodup := by
  induction sections generalizing d with
  | nil => exact h
  | cons s rest ih => exact ih (nodup_names_push h s.title s.declarations)

/-- A document declares a name once. -/
theorem nodup_names_ofSections (sections : List Section) : (ofSections sections).value.names.Nodup :=
  @nodup_names_pushAll empty List.nodup_nil sections

/-- Of distinct names each finds its own declaration. -/
theorem find?_of_mem {d : Document} (h : d.names.Nodup) {x : Declaration} (hx : x ∈ d.declarations) :
    d.find? x.name = some x :=
  find?_eq_of_nodup h hx

/-- A document from which nothing was dropped declares what was pushed. -/
theorem declarations_pushAll {d : Document} {sections : List Section}
    (h : ∀ name, .duplicateDropped name ∉ (d.pushAll sections).events) :
    (d.pushAll sections).value.declarations = d.declarations ++ sections.flatMap (·.declarations) := by
  induction sections generalizing d with
  | nil => simp [pushAll, Reported.silent]
  | cons s rest ih =>
    have hevents : (d.pushAll (s :: rest)).events = (d.push s.title s.declarations).events ++
        ((d.push s.title s.declarations).value.pushAll rest).events := rfl
    have hfirst : (Declaration.splitNew d.names s.declarations).2 = [] := by
      refine List.eq_nil_iff_forall_not_mem.mpr fun name hn => h name ?_
      rw [hevents]
      simp [push, hn]
    show ((d.push s.title s.declarations).value.pushAll rest).value.declarations = _
    rw [ih fun name hn => h name (hevents ▸ List.mem_append_right _ hn), declarations_push,
      Declaration.splitNew_fst_of_snd hfirst, List.flatMap_cons, List.append_assoc]

/-- A document finds the first declaration of a name that was pushed. -/
theorem find?_ofSections (sections : List Section) (name : String) :
    (ofSections sections).value.find? name =
      (sections.flatMap (·.declarations)).find? (·.name == name) := by
  rw [ofSections, find?_pushAll]
  rfl

/-- A document declares the names that were pushed. -/
theorem mem_names_ofSections {sections : List Section} {name : String} :
    name ∈ (ofSections sections).value.names ↔
      ∃ d ∈ sections.flatMap (·.declarations), d.name = name := by
  rw [mem_names_iff_find?, find?_ofSections, List.find?_isSome]
  simp

theorem mem_of_mem_ofSections {sections : List Section} {x : Declaration}
    (h : x ∈ (ofSections sections).value.declarations) :
    x ∈ sections.flatMap (·.declarations) := by
  rcases mem_of_mem_pushAll h with h | h
  · simp [empty, declarations] at h
  · exact h

end Document

end DataShapes
