import DataShapes.Proofs.Generation.Spelling

/-! # Names that two entities give

Two entities give one name when the name of one runs on from that of the other by what stands before its
suffix in the suffix of the other. Few beginnings of suffixes leave a suffix: those of a table, `Unchecked`,
and openings of nested writes with the beginning of the name of a field. -/

namespace DataShapes

/-! ### Suffixes that end in suffixes -/

namespace Entity

/-- The fixed suffixes that end in another one, each as what stands before it and that one. -/
def overlaps : List (String × String) :=
  [("Scalar", "WhereInput"), ("Unchecked", "CreateInput"), ("Unchecked", "UpdateInput"),
    ("CountOutputType", "Select"), ("CountOutputType", "Args"), ("List", "RelationFilter"),
    ("Nullable", "RelationFilter")] ++ operationStems.map (·, "Args")

theorem exists_overlap : ∀ s ∈ fixedSuffixes, s ≠ "" → ∀ t ∈ fixedSuffixes, bytesOf s <:+ bytesOf t →
    s = t ∨ ∃ overlap ∈ overlaps, overlap.2 = s ∧ overlap.1 ++ s = t := by
  decide

theorem mem_overlaps {more s : String} (hs : s ∈ fixedSuffixes) (hne : s ≠ "") (hmore : more ≠ "")
    (h : more ++ s ∈ fixedSuffixes) : (more, s) ∈ overlaps := by
  rcases exists_overlap s hs hne _ h (suffix_of_append_eq rfl) with heq | ⟨⟨front, _⟩, hmem, rfl, heq⟩
  · exact absurd ((String.append_eq_right_iff).mp heq.symm) hmore
  · obtain rfl : front = more := (String.append_left_inj _).mp heq
    exact hmem

theorem overlaps_cases {more s : String} (h : (more, s) ∈ overlaps) :
    (more = "Scalar" ∧ s = "WhereInput") ∨ (more = "Unchecked" ∧ ∃ purpose : Purpose, s = purpose.stem ++ "Input") ∨
      (more = "CountOutputType" ∧ (s = "Select" ∨ s = "Args")) ∨
      (∃ m, (more, m) ∈ [("Nullable", Multiplicity.nullable), ("List", .list)] ∧ s = "RelationFilter") ∨
      more ∈ operationStems ∧ s = "Args" := by
  simp only [overlaps, List.cons_append, List.nil_append, List.mem_cons, Prod.mk.injEq, List.mem_map] at h
  rcases h with h | ⟨rfl, rfl⟩ | ⟨rfl, rfl⟩ | ⟨rfl, rfl⟩ | ⟨rfl, rfl⟩ | ⟨rfl, rfl⟩ | ⟨rfl, rfl⟩ |
    ⟨stem, hstem, rfl, rfl⟩
  · exact Or.inl h
  · exact Or.inr (Or.inl ⟨rfl, .create, rfl⟩)
  · exact Or.inr (Or.inl ⟨rfl, .update, rfl⟩)
  · exact Or.inr (Or.inr (Or.inl ⟨rfl, Or.inl rfl⟩))
  · exact Or.inr (Or.inr (Or.inl ⟨rfl, Or.inr rfl⟩))
  · exact Or.inr (Or.inr (Or.inr (Or.inl ⟨.list, by simp, rfl⟩)))
  · exact Or.inr (Or.inr (Or.inr (Or.inl ⟨.nullable, by simp, rfl⟩)))
  · exact Or.inr (Or.inr (Or.inr (Or.inr ⟨hstem, rfl⟩)))

end Entity

namespace NestedRole

/-! ### Roles -/

/-- All endings. -/
def endings : List String := ["Input", "InputEnvelope", "NestedInput"]

theorem ending_mem_endings : ∀ r ∈ possible, r.ending ∈ endings := by decide

/-- Roles that only lists have. -/
def ofLists : List NestedRole :=
  [.record "CreateNestedMany" "Input", .record "UncheckedCreateNestedMany" "Input",
    .record "UncheckedUpdateMany" "Input", .record "UpdateMany" "NestedInput",
    .record "UncheckedUpdateMany" "NestedInput"]

theorem isList_of_mem_all {field : Field} {bulkAllowed : Bool} {role : NestedRole} (hr : role ∈ ofLists)
    (h : role ∈ all field bulkAllowed) : field.isList = true := by
  cases hlist : field.isList with
  | true => rfl
  | false =>
    revert role
    rw [all, creations, changes, hlist]
    cases bulkAllowed <;> cases field.multiplicity == .nullable <;> decide

theorem of_rows_mem_all {field : Field} {bulkAllowed : Bool} {after : String}
    (h : .rows after ∈ all field bulkAllowed) : field.isList = true ∧ bulkAllowed = true := by
  cases hlist : field.isList <;> cases bulkAllowed <;> simp [all, creations, changes, hlist] at h ⊢

/-- The pairs of roles of which the first opens with `Unchecked` and the opening of the second. -/
def uncheckedPairs : List (NestedRole × NestedRole) :=
  [(.record "UncheckedCreate" "Input", .record "Create" "Input"),
    (.record "UncheckedUpdate" "Input", .record "Update" "Input"),
    (.record "UncheckedCreateNestedMany" "Input", .record "CreateNestedMany" "Input"),
    (.record "UncheckedUpdateMany" "Input", .record "UpdateMany" "NestedInput"),
    (.record "UncheckedUpdateMany" "NestedInput", .record "UpdateMany" "NestedInput")]

theorem uncheckedPairs_cases {r s : NestedRole} (h : (r, s) ∈ uncheckedPairs) :
    (∃ purpose : Purpose, r = .record ("Unchecked" ++ purpose.stem) "Input" ∧ s = .record purpose.stem "Input") ∨
      r ∈ ofLists ∧ s ∈ ofLists ∧ (r.ending = s.ending ∨ r.ending = "Input" ∧ s.ending = "NestedInput") := by
  simp only [uncheckedPairs, List.mem_cons, Prod.mk.injEq, List.not_mem_nil, or_false] at h
  rcases h with ⟨rfl, rfl⟩ | ⟨rfl, rfl⟩ | ⟨rfl, rfl⟩ | ⟨rfl, rfl⟩ | ⟨rfl, rfl⟩
  · exact Or.inl ⟨.create, rfl, rfl⟩
  · exact Or.inl ⟨.update, rfl, rfl⟩
  · exact Or.inr ⟨by decide, by decide, Or.inl rfl⟩
  · exact Or.inr ⟨by decide, by decide, Or.inr ⟨rfl, rfl⟩⟩
  · exact Or.inr ⟨by decide, by decide, Or.inl rfl⟩

/-! ### Marks of nested writes -/

/-- One of these stands in every suffix of a nested write. -/
def marks : List String := ["Without", "CreateMany"]

theorem exists_opening_eq (role : NestedRole) : ∃ mark ∈ marks, ∃ front, role.opening = front ++ mark := by
  cases role with
  | record before => exact ⟨"Without", by decide, before, rfl⟩
  | rows => exact ⟨"CreateMany", by decide, "", rfl⟩

theorem exists_mark (role : NestedRole) (field : String) :
    ∃ mark ∈ marks, bytesOf mark <:+: bytesOf (role.suffix field) := by
  obtain ⟨mark, hmark, front, hopening⟩ := exists_opening_eq role
  refine ⟨mark, hmark, bytesOf front, bytesOf (field ++ role.ending), ?_⟩
  rw [suffix, hopening, ← bytesOf_append, ← bytesOf_append]

theorem exists_mark_of_append_eq {role : NestedRole} {more field s : String} (h : more ++ role.suffix field = s) :
    ∃ mark ∈ marks, bytesOf mark <:+: bytesOf s := by
  obtain ⟨mark, hmark, hwithin⟩ := exists_mark role field
  exact ⟨mark, hmark, hwithin.trans (suffix_of_append_eq h).isInfix⟩

/-- No fixed suffix has `Without`, those that have `CreateMany` begin with it, none begins with what a mark ends in,
and none but that of the record is an ending or a part of one. -/
theorem fixed_table : ∀ s ∈ Entity.fixedSuffixes, ¬ bytesOf "Without" <:+: bytesOf s ∧
    ¬ bytesOf "CreateMany" <:+: (bytesOf s).tail ∧
    (∀ mark ∈ marks, ∀ rest ∈ (bytesOf mark).tail.tails, rest ≠ [] → ¬ rest <+: bytesOf s) ∧
    ∀ ending ∈ endings, bytesOf s <:+ bytesOf ending → s = "" := by
  decide

theorem append_suffix_ne_fixed {role : NestedRole} {more field s : String} (hmore : more ≠ "")
    (hs : s ∈ Entity.fixedSuffixes) : more ++ role.suffix field ≠ s := by
  intro h
  obtain ⟨mark, hmark, hwithin⟩ := exists_mark role field
  have htail : (bytesOf s).tail = (bytesOf more).tail ++ bytesOf (role.suffix field) := by
    rw [← h, bytesOf_append, List.tail_append_of_ne_nil fun hnil => hmore (bytesOf_eq_nil.mp hnil)]
  have hwithin : bytesOf mark <:+: (bytesOf s).tail := by
    rw [htail]
    exact hwithin.trans (List.suffix_append _ _).isInfix
  simp only [marks, List.mem_cons, List.not_mem_nil, or_false] at hmark
  obtain ⟨hwithout, hcreateMany, -⟩ := fixed_table s hs
  rcases hmark with rfl | rfl
  · exact hwithout (hwithin.trans (List.tail_suffix _).isInfix)
  · exact hcreateMany hwithin

/-! ### What is left of an opening -/

/-- In an opening a mark stands at the end only, what a mark ends in begins none, few openings end in another, and none
ends where a beginning of `FieldUpdateOperations` ends. -/
theorem opening_table : ∀ r ∈ possible,
    (∀ mark ∈ marks, ¬ bytesOf mark <:+: (bytesOf r.opening).dropLast ∧
      ∀ rest ∈ (bytesOf mark).tail.tails, rest ≠ [] → ¬ rest <+: bytesOf r.opening) ∧
    (∀ s ∈ possible, bytesOf s.opening <:+ bytesOf r.opening →
      r.opening = s.opening ∨ (r, s) ∈ uncheckedPairs ∧ r.opening = "Unchecked" ++ s.opening) ∧
    ∀ front ∈ (bytesOf "FieldUpdateOperations").inits, front ≠ [] →
      ¬ (front <:+ bytesOf r.opening ∨ bytesOf r.opening <:+ front) := by
  decide

/-- In no ending stands a mark, and operations end like one of them. -/
theorem ending_table : ∀ ending ∈ endings, (∀ mark ∈ marks, ¬ bytesOf mark <:+: bytesOf ending) ∧
    (bytesOf ending <:+ bytesOf "FieldUpdateOperationsInput" ∨
      bytesOf "FieldUpdateOperationsInput" <:+ bytesOf ending → ending = "Input") := by
  decide

section
variable {r : NestedRole} {field more s : String} (h : r.suffix field = more ++ s)
include h

/-- Where a suffix is divided: after the opening, or within. -/
theorem suffix_eq_append_cases (hs : ∀ front, r.ending ≠ front ++ s) :
    (∃ front back, more = r.opening ++ front ∧ field = front ++ back ∧ s = back ++ r.ending) ∨
      ∃ rest, rest ≠ "" ∧ r.opening = more ++ rest ∧ s = rest ++ (field ++ r.ending) := by
  rcases append_eq_append_cases h.symm with ⟨front, rfl, hfield⟩ | ⟨rest, hne, hopening, hs⟩
  · rcases append_eq_append_cases hfield with ⟨back, rfl, hs⟩ | ⟨front, -, -, hending⟩
    · exact Or.inl ⟨front, back, rfl, rfl, hs⟩
    · exact absurd hending (hs front)
  · exact Or.inr ⟨rest, hne, hopening, hs⟩

end

theorem eq_empty_of_mark {r : NestedRole} (hr : r ∈ possible) {mark front back : String} (hmark : mark ∈ marks)
    (h : r.opening = front ++ mark ++ back) : back = "" := by
  by_contra hne
  have hnil : bytesOf back ≠ [] := fun hnil => hne (bytesOf_eq_nil.mp hnil)
  refine ((opening_table r hr).1 mark hmark).1 ⟨bytesOf front, (bytesOf back).dropLast, ?_⟩
  rw [h, bytesOf_append, bytesOf_append, List.dropLast_append_of_ne_nil hnil]

section
variable {r : NestedRole} {more rest : String} (h : r.opening = more ++ rest) (hmore : more ≠ "")
include h hmore

/-- What is left of an opening has a mark at its end, or is left of a mark. -/
theorem rest_cases :
    (∃ front, rest = front ++ "Without") ∨ ∃ mark ∈ marks, ∃ front, front ≠ "" ∧ mark = front ++ rest := by
  cases r with
  | record before =>
    have h : before ++ "Without" = more ++ rest := h
    rcases append_eq_append_cases h with ⟨front, -, heq⟩ | ⟨front, hne, -, heq⟩
    · exact Or.inl ⟨front, heq⟩
    · exact Or.inr ⟨"Without", by decide, front, hne, heq⟩
  | rows => exact Or.inr ⟨"CreateMany", by decide, more, hmore, h⟩

end

theorem mem_tails_of_mark {mark front rest : String} (hfront : front ≠ "") (h : mark = front ++ rest) :
    bytesOf rest ∈ (bytesOf mark).tail.tails := by
  rw [List.mem_tails, h, bytesOf_append, List.tail_append_of_ne_nil fun hnil => hfront (bytesOf_eq_nil.mp hnil)]
  exact List.suffix_append _ _

section
variable {r : NestedRole} {more rest : String} (h : r.opening = more ++ rest) (hmore : more ≠ "") (hrest : rest ≠ "")
include h hmore hrest

/-- What is left of an opening begins no fixed suffix, -/
theorem rest_append_ne_fixed {s : String} (hs : s ∈ Entity.fixedSuffixes) (x : String) : rest ++ x ≠ s := by
  intro heq
  obtain ⟨hwithout, -, hend, -⟩ := fixed_table s hs
  rcases rest_cases h hmore with ⟨front, rfl⟩ | ⟨mark, hmark, front, hfront, hm⟩
  · refine hwithout ⟨bytesOf front, bytesOf x, ?_⟩
    rw [← heq, bytesOf_append, bytesOf_append]
  · exact hend mark hmark _ (mem_tails_of_mark hfront hm) (fun hnil => hrest (bytesOf_eq_nil.mp hnil))
      (prefix_of_append_eq heq)

/-- and no suffix of a nested write, unless it is its opening. -/
theorem rest_eq_opening (hr : r ∈ possible) {s : NestedRole} (hs : s ∈ possible) {x y : String}
    (heq : rest ++ x = s.opening ++ y) : rest = s.opening := by
  rcases append_eq_append_cases heq with ⟨back, hback, -⟩ | ⟨back, hne, hback, -⟩
  · obtain ⟨mark, hmark, front, hopening⟩ := exists_opening_eq s
    have hmarked : r.opening = more ++ front ++ mark ++ back := by
      rw [h, hback, hopening]
      simp only [String.append_assoc]
    rw [hback, eq_empty_of_mark hr hmark hmarked, String.append_empty]
  · rcases rest_cases h hmore with ⟨front, rfl⟩ | ⟨mark, hmark, front, hfront, hm⟩
    · exact absurd (eq_empty_of_mark hs (by decide) hback) hne
    · exact absurd (prefix_of_append_eq hback.symm) (((opening_table s hs).1 mark hmark).2 _
        (mem_tails_of_mark hfront hm) fun hnil => hrest (bytesOf_eq_nil.mp hnil))

end

theorem exists_of_suffix_eq_append_fixed {r : NestedRole} (hr : r ∈ possible) {field more s : String}
    (hmore : more ≠ "") (hs : s ∈ Entity.fixedSuffixes) (hne : s ≠ "") (h : r.suffix field = more ++ s) :
    ∃ front back, more = r.opening ++ front ∧ field = front ++ back ∧ s = back ++ r.ending := by
  refine (suffix_eq_append_cases h fun front hending => ?_).resolve_right ?_
  · exact hne ((fixed_table s hs).2.2.2 _ (ending_mem_endings r hr) (suffix_of_append_eq hending.symm))
  · rintro ⟨rest, hrest, hopening, heq⟩
    exact rest_append_ne_fixed hopening hmore hrest hs _ heq.symm

theorem exists_of_suffix_eq_append_suffix {r r' : NestedRole} (hr : r ∈ possible) (hr' : r' ∈ possible)
    {field field' more : String} (hmore : more ≠ "") (h : r.suffix field = more ++ r'.suffix field') :
    (∃ front back, more = r.opening ++ front ∧ field = front ++ back ∧ r'.suffix field' = back ++ r.ending) ∨
      more = "Unchecked" ∧ (r, r') ∈ uncheckedPairs ∧ field ++ r.ending = field' ++ r'.ending := by
  refine (suffix_eq_append_cases h fun front hending => ?_).imp_right ?_
  · obtain ⟨mark, hmark, hwithin⟩ := exists_mark_of_append_eq hending.symm
    exact (ending_table _ (ending_mem_endings r hr)).1 mark hmark hwithin
  · rintro ⟨rest, hrest, hopening, heq⟩
    obtain rfl : rest = r'.opening := rest_eq_opening hopening hmore hrest hr hr' heq.symm
    rcases (opening_table r hr).2.1 r' hr' (suffix_of_append_eq hopening.symm) with hsame | ⟨hpair, hunchecked⟩
    · exact absurd (String.append_eq_right_iff.mp (hopening.symm.trans hsame)) hmore
    · refine ⟨(String.append_left_inj _).mp (hopening.symm.trans hunchecked), hpair, ?_⟩
      exact ((String.append_right_inj _).mp heq).symm

/-! ### Names of operations -/

/-- A nested write is named like operations only through the name of its field. -/
theorem exists_of_append_suffix_eq_operations {r : NestedRole} (hr : r ∈ possible) {target field stem : String}
    (h : target ++ r.suffix field = stem ++ "FieldUpdateOperationsInput") :
    r.ending = "Input" ∧ ∃ front, field = front ++ "FieldUpdateOperations" ∧ stem = target ++ r.opening ++ front := by
  have h : target ++ r.opening ++ field ++ r.ending = stem ++ "FieldUpdateOperationsInput" := by
    simpa only [suffix, String.append_assoc] using h
  have hending := (ending_table _ (ending_mem_endings r hr)).2 (suffix_or_suffix_of_append_eq h)
  have hinput : stem ++ "FieldUpdateOperationsInput" = stem ++ "FieldUpdateOperations" ++ "Input" := by
    simp only [String.append_assoc, String.reduceAppend]
  rw [hending, hinput] at h
  have h : target ++ r.opening ++ field = stem ++ "FieldUpdateOperations" := (String.append_left_inj _).mp h
  refine ⟨hending, ?_⟩
  rcases append_eq_append_cases h.symm with ⟨front, hstem, hfield⟩ | ⟨front, hne, hstem, hfield⟩
  · exact ⟨front, hfield, hstem⟩
  · have hprefix := (List.mem_inits _ _).mpr (prefix_of_append_eq hfield.symm)
    exact absurd (suffix_or_suffix_of_append_eq hstem).symm
      ((opening_table r hr).2.2 _ hprefix fun hnil => hne (bytesOf_eq_nil.mp hnil))

end NestedRole

end DataShapes
