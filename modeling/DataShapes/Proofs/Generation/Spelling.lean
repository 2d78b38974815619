import DataShapes.Proofs.Generation.Names
import Mathlib.Data.List.Infix

/-! # Names that an entity gives

All names of inputs of an entity are made of its name, a suffix and a common ending. A suffix is one of a
fixed list, or that of a nested write: an opening, the name of the field that leads back in pascal case,
and an ending. No opening begins another, so that a suffix of a nested write tells its opening, and with
two exceptions also the field: two endings of one opening run on from each other, and an empty name makes
a nested suffix a fixed one. -/

namespace DataShapes

/-! ### Beginnings and endings of texts -/

/-- The bytes of a text, by which tables of texts are compared: no text is decoded for it. -/
def bytesOf (text : String) : List Nat := text.toByteArray.data.toList.map UInt8.toNat

theorem bytesOf_append (a b : String) : bytesOf (a ++ b) = bytesOf a ++ bytesOf b := by
  simp [bytesOf, String.toByteArray_append]

theorem bytesOf_injective : Function.Injective bytesOf := fun _ _ h =>
  String.toByteArray_inj.mp (ByteArray.ext (Array.toList_inj.mp
    (List.map_injective_iff.mpr (fun _ _ => UInt8.toNat_inj.mp) h)))

theorem bytesOf_eq_nil {text : String} : bytesOf text = [] ↔ text = "" :=
  ⟨fun h => bytesOf_injective h, fun h => by rw [h]; rfl⟩

/-- Of two ways to divide a text one divides it no later than the other. -/
theorem append_eq_append_cases {a b x y : String} (h : a ++ x = b ++ y) :
    (∃ c, a = b ++ c ∧ y = c ++ x) ∨ ∃ c, c ≠ "" ∧ b = a ++ c ∧ x = c ++ y := by
  have h : a.toList ++ x.toList = b.toList ++ y.toList := by
    rw [← String.toList_append, ← String.toList_append, h]
  rcases List.append_eq_append_iff.mp h with ⟨c, hb, hx⟩ | ⟨c, ha, hy⟩
  · cases c with
    | nil => refine Or.inl ⟨"", ?_, ?_⟩ <;> apply String.toList_injective <;> simp_all
    | cons letter c =>
      refine Or.inr ⟨String.ofList (letter :: c), by simp, ?_, ?_⟩ <;> apply String.toList_injective
      · simp [hb]
      · simp [hx]
  · refine Or.inl ⟨String.ofList c, ?_, ?_⟩ <;> apply String.toList_injective
    · simp [ha]
    · simp [hy]

theorem prefix_of_append_eq {a b x : String} (h : a ++ x = b) : bytesOf a <+: bytesOf b := by
  rw [← h, bytesOf_append]
  exact List.prefix_append _ _

theorem suffix_of_append_eq {a b x : String} (h : x ++ a = b) : bytesOf a <:+ bytesOf b := by
  rw [← h, bytesOf_append]
  exact List.suffix_append _ _

theorem prefix_or_prefix_of_append_eq {a b x y : String} (h : a ++ x = b ++ y) :
    bytesOf a <+: bytesOf b ∨ bytesOf b <+: bytesOf a :=
  List.prefix_or_prefix_of_prefix (prefix_of_append_eq h) (prefix_of_append_eq rfl)

theorem suffix_or_suffix_of_append_eq {a b x y : String} (h : x ++ a = y ++ b) :
    bytesOf a <:+ bytesOf b ∨ bytesOf b <:+ bytesOf a :=
  List.suffix_or_suffix_of_suffix (suffix_of_append_eq h) (suffix_of_append_eq rfl)

/-- Texts with endings of which neither ends in the other are different. -/
theorem append_ne_append_of_endings {a b : String} (h : ¬ bytesOf a <:+ bytesOf b) (h' : ¬ bytesOf b <:+ bytesOf a)
    (x y : String) : x ++ a ≠ y ++ b :=
  fun heq => (suffix_or_suffix_of_append_eq heq).elim h h'

/-! ### Fixed suffixes -/

namespace Entity

/-- All fixed suffixes of names of an entity; that of the record is empty. -/
def fixedSuffixes : List String :=
  ["", "ScalarFieldEnum", "WhereInput", "WhereUniqueInput", "ListRelationFilter", "RelationFilter",
    "NullableRelationFilter", "ScalarWhereInput", "ScalarWhereWithAggregatesInput",
    "OrderByWithRelationInput", "OrderByRelationAggregateInput", "CountOrderByAggregateInput",
    "AvgOrderByAggregateInput", "MaxOrderByAggregateInput", "MinOrderByAggregateInput",
    "SumOrderByAggregateInput", "OrderByWithAggregationInput", "Select", "Include", "Args",
    "CountOutputTypeSelect", "CountOutputTypeArgs"] ++ payloadSuffixes ++
  ["CountAggregateInput", "AvgAggregateInput", "SumAggregateInput", "MinAggregateInput",
    "MaxAggregateInput", "FindUniqueArgs", "FindUniqueOrThrowArgs", "FindFirstArgs",
    "FindFirstOrThrowArgs", "FindManyArgs", "CreateArgs", "CreateManyArgs", "UpdateArgs",
    "UpdateManyArgs", "UpsertArgs", "DeleteArgs", "DeleteManyArgs", "AggregateArgs", "GroupByArgs"]

/-- What stands before `Args` in the suffixes of operations. -/
def operationStems : List String :=
  ["FindUnique", "FindUniqueOrThrow", "FindFirst", "FindFirstOrThrow", "FindMany", "Create", "CreateMany", "Update",
    "UpdateMany", "Upsert", "Delete", "DeleteMany", "Aggregate", "GroupBy"]

theorem nodup_fixedSuffixes : fixedSuffixes.Nodup := by decide

/-- An entity has some of the fixed suffixes, in their order. -/
theorem inputSuffixes_sublist (entity : Entity) (usage : Usage) :
    ("" :: entity.inputSuffixes usage).Sublist fixedSuffixes := by
  obtain ⟨required, nullable, list⟩ := usage
  unfold inputSuffixes querySuffixes argumentSuffixes
  generalize entity.hasNumericFields = numeric, entity.hasRelations = relations,
    entity.ownsListRelation = lists
  revert required nullable list numeric relations lists
  decide

end Entity

/-! ### Suffixes of nested writes -/

namespace NestedRole

/-- What the suffix of a nested write begins with. -/
def opening : NestedRole → String
  | .record before _ => before ++ "Without"
  | .rows _ => "CreateMany"

/-- What it ends in. -/
def ending : NestedRole → String
  | .record _ after => after
  | .rows suffix => suffix

/-- The suffix of a nested write that leaves out the field with this name in pascal case. -/
def suffix (role : NestedRole) (field : String) : String := role.opening ++ (field ++ role.ending)

theorem name_eq_ofEntity (role : NestedRole) (names : NestedNames) :
    role.name names = Naming.ofEntity names.target (role.suffix (Naming.pascalCase names.reverse)) := by
  cases role with
  | record before after =>
    simp only [name, NestedNames.role, Naming.without, Naming.ofEntity, suffix, opening, ending, String.append_assoc]
  | rows after =>
    simp only [name, NestedNames.rows, Naming.createManyFor, Naming.ofEntity, suffix, opening, ending,
      String.append_assoc]

/-- All roles of nested writes through any field. -/
def possible : List NestedRole :=
  [.record "Create" "Input", .record "UncheckedCreate" "Input", .record "CreateOrConnect" "Input",
    .rows "Input", .rows "InputEnvelope", .record "CreateNestedMany" "Input",
    .record "UncheckedCreateNestedMany" "Input", .record "CreateNestedOne" "Input",
    .record "Update" "Input", .record "UncheckedUpdate" "Input",
    .record "UpsertWithWhereUnique" "Input", .record "UpdateWithWhereUnique" "Input",
    .record "UpdateManyWithWhere" "Input", .record "UncheckedUpdateMany" "Input",
    .record "UpdateMany" "NestedInput", .record "UncheckedUpdateMany" "NestedInput",
    .record "Upsert" "Input", .record "UpdateToOneWithWhere" "Input",
    .record "UpdateOne" "NestedInput", .record "UpdateOneRequired" "NestedInput"]

theorem mem_possible {field : Field} {bulkAllowed : Bool} {role : NestedRole} (h : role ∈ all field bulkAllowed) :
    role ∈ possible := by
  unfold all creations changes at h
  generalize field.isList = list, (field.multiplicity == .nullable) = nullable at h
  revert role
  revert list nullable bulkAllowed
  decide

/-- The two roles of one opening that both lists have. -/
theorem eq_of_opening_eq : ∀ r ∈ possible, ∀ s ∈ possible, bytesOf r.opening <+: bytesOf s.opening →
    r = s ∨ r.opening = s.opening ∧ (r = .rows "Input" ∧ s = .rows "InputEnvelope" ∨
      r = .rows "InputEnvelope" ∧ s = .rows "Input" ∨
      r = .record "UncheckedUpdateMany" "Input" ∧ s = .record "UncheckedUpdateMany" "NestedInput" ∨
      r = .record "UncheckedUpdateMany" "NestedInput" ∧ s = .record "UncheckedUpdateMany" "Input") := by
  decide

/-- Of the fixed suffixes only two begin like a nested write. -/
theorem eq_of_opening_prefix : ∀ r ∈ possible, ∀ s ∈ Entity.fixedSuffixes, bytesOf r.opening <+: bytesOf s →
    (r = .rows "Input" ∨ r = .rows "InputEnvelope") ∧ (s = "CreateManyInput" ∨ s = "CreateManyArgs") := by
  decide

theorem input_ne_inputEnvelope (a b : String) : a ++ "Input" ≠ b ++ "InputEnvelope" := by
  intro h
  have hlast := congrArg (fun s : String => s.toList.getLast?) h
  simp at hlast

theorem eq_of_nestedInput {a b : String} (h : a ++ "Input" = b ++ "NestedInput") : a = b ++ "Nested" := by
  have hnested : b ++ "Nested" ++ "Input" = b ++ "NestedInput" := String.append_assoc
  exact (String.append_left_inj _).mp (h.trans hnested.symm)

/-- A suffix of a nested write tells its role and its field, but for a field whose name ends like an
ending begins. -/
theorem eq_of_suffix_eq {r s : NestedRole} (hr : r ∈ possible) (hs : s ∈ possible) {a b : String}
    (h : r.suffix a = s.suffix b) : r = s ∧ a = b ∨
      r = .record "UncheckedUpdateMany" "Input" ∧ s = .record "UncheckedUpdateMany" "NestedInput" ∧
        a = b ++ "Nested" ∨
      r = .record "UncheckedUpdateMany" "NestedInput" ∧ s = .record "UncheckedUpdateMany" "Input" ∧
        b = a ++ "Nested" := by
  have hcases : r = s ∨ r.opening = s.opening ∧ (r = .rows "Input" ∧ s = .rows "InputEnvelope" ∨
      r = .rows "InputEnvelope" ∧ s = .rows "Input" ∨
      r = .record "UncheckedUpdateMany" "Input" ∧ s = .record "UncheckedUpdateMany" "NestedInput" ∨
      r = .record "UncheckedUpdateMany" "NestedInput" ∧ s = .record "UncheckedUpdateMany" "Input") := by
    rcases prefix_or_prefix_of_append_eq h with hp | hp
    · exact eq_of_opening_eq r hr s hs hp
    · rcases eq_of_opening_eq s hs r hr hp with rfl | ⟨ho, h | h | h | h⟩
      · exact Or.inl rfl
      · exact Or.inr ⟨ho.symm, Or.inr (Or.inl h.symm)⟩
      · exact Or.inr ⟨ho.symm, Or.inl h.symm⟩
      · exact Or.inr ⟨ho.symm, Or.inr (Or.inr (Or.inr h.symm))⟩
      · exact Or.inr ⟨ho.symm, Or.inr (Or.inr (Or.inl h.symm))⟩
  rcases hcases with rfl | ⟨ho, hroles⟩
  · exact Or.inl ⟨rfl, (String.append_left_inj _).mp ((String.append_right_inj _).mp h)⟩
  · rw [suffix, suffix, ho] at h
    have h : a ++ r.ending = b ++ s.ending := (String.append_right_inj _).mp h
    rcases hroles with ⟨rfl, rfl⟩ | ⟨rfl, rfl⟩ | ⟨rfl, rfl⟩ | ⟨rfl, rfl⟩
    · exact absurd h (input_ne_inputEnvelope a b)
    · exact absurd h.symm (input_ne_inputEnvelope b a)
    · exact Or.inr (Or.inl ⟨rfl, rfl, eq_of_nestedInput h⟩)
    · exact Or.inr (Or.inr ⟨rfl, rfl, eq_of_nestedInput h.symm⟩)

/-- Such a suffix is not a fixed one, but for a field of which nothing is left in pascal case. -/
theorem eq_of_suffix_eq_fixed {r : NestedRole} (hr : r ∈ possible) {s : String} (hs : s ∈ Entity.fixedSuffixes)
    {a : String} (h : r.suffix a = s) : r = .rows "Input" ∧ s = "CreateManyInput" ∧ a = "" := by
  obtain ⟨hrole, hfixed⟩ := eq_of_opening_prefix r hr s hs (prefix_of_append_eq h)
  rcases hrole with rfl | rfl <;> rcases hfixed with rfl | rfl
  · have h : a ++ "Input" = "" ++ "Input" := (String.append_right_inj "CreateMany").mp h
    exact ⟨rfl, rfl, (String.append_left_inj _).mp h⟩
  -- The other pairs end in different letters.
  all_goals
    have hlast := congrArg (fun s : String => s.toList.getLast?) h
    simp [suffix, opening, ending, List.getLast?_cons] at hlast

end NestedRole

/-- What the suffixes of payloads for a purpose begin with. -/
def Purpose.stem : Purpose → String
  | .create => "Create"
  | .update => "Update"

end DataShapes
