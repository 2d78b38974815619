import DataShapes.Proofs.Acceptance.Records
import DataShapes.Proofs.Generation.Termination
import DataShapes.Proofs.Schema.Acceptance

/-! # JSON values as they are

What a JSON field holds is any JSON value but `null`, and inside it there is any JSON value at all. The two schemas for
this come before all others, so no enumeration or entity takes their names. Each arm of theirs takes values of one form,
and gives back what it takes when the parts of the value come back: by induction over the value nothing is changed. -/

namespace DataShapes

namespace Json

/-- The values right inside a value. -/
def parts : Json → List Json
  | .array items => items
  | .object entries => entries.map (·.2)
  | _ => []

theorem sizeOf_lt_of_mem_parts {value part : Json} (h : part ∈ value.parts) : sizeOf part < sizeOf value := by
  cases value with
  | array items =>
    have hlt : sizeOf part < sizeOf items := List.sizeOf_lt_of_mem h
    simp only [array.sizeOf_spec]
    omega
  | object entries =>
    obtain ⟨e, he, rfl⟩ := List.mem_map.mp h
    have hlt := List.sizeOf_lt_of_mem he
    have hpair : sizeOf e = 1 + sizeOf e.1 + sizeOf e.2 := rfl
    simp only [object.sizeOf_spec]
    omega
  | null | bool | int | double | string => cases h

/-- Induction over values with a hypothesis for each part. -/
@[elab_as_elim]
theorem inductionOnParts {motive : Json → Prop} (step : ∀ value, (∀ part ∈ value.parts, motive part) → motive value)
    (value : Json) : motive value :=
  step value fun part _ => inductionOnParts step part
termination_by sizeOf value
decreasing_by exact sizeOf_lt_of_mem_parts ‹_›

end Json

/-! ### The arms -/

namespace Document
variable {d : Document} {value result : Json}

section
variable (hparts : ∀ part ∈ value.parts, d.eval [] (.ref Naming.jsonValue) part = .ok part)
include hparts

/-- An arm for values with parts changes nothing if nothing is changed in the parts. -/
theorem eq_of_eval_container {arm : Schema} (ha : arm ∈ Primitives.jsonContainers)
    (h : d.eval [] arm value = .ok result) : result = value := by
  simp only [Primitives.jsonContainers, List.mem_cons, List.not_mem_nil, or_false] at ha
  rcases ha with rfl | rfl
  · obtain ⟨items, rfl, -, rfl⟩ := eval_array_eq_ok_iff.mp h
    have hsame : items.map (d.made (.ref Naming.jsonValue)) = items.map id :=
      List.map_congr_left fun part hp => made_of_eval (hparts part hp)
    rw [hsame, List.map_id]
  · obtain ⟨entries, rfl, -, rfl⟩ := eval_record_eq_ok_iff.mp h
    have hsame : (entries.map fun e => (e.1, d.made (.ref Naming.jsonValue) e.2)) = entries.map id :=
      List.map_congr_left fun e he => Prod.ext rfl (made_of_eval (hparts e.2 (List.mem_map_of_mem he)))
    rw [hsame, List.map_id]

/-- The arms for values without parts and the arms for values with parts together take everything but `null`. -/
theorem jsonArms_accept_iff :
    (∃ arm ∈ Primitives.jsonLeaves ++ Primitives.jsonContainers, d.Accepts arm value) ↔ value ≠ .null := by
  have haccepts : ∀ part ∈ value.parts, d.Accepts (.ref Naming.jsonValue) part := fun part hp => ⟨part, hparts part hp⟩
  simp only [Primitives.jsonLeaves, Primitives.jsonContainers, List.cons_append, List.nil_append, List.mem_cons,
    List.not_mem_nil, or_false, exists_eq_or_imp, exists_eq_left, accepts_leaf, accepts_array, accepts_record]
  cases value with
  | array items => simpa [Leaf.admits, Json.parts] using haccepts
  | object entries => simpa [Leaf.admits] using List.forall_mem_map.mp haccepts
  | null | bool | int | double | string => simp [Leaf.admits]

variable (hd : d.Guarded)
include hd

/-- A union of leaves and of these arms gives back what any of its arms takes. -/
theorem eval_jsonArms_eq_ok_iff {leaves : List Schema} (hleaves : ∀ arm ∈ leaves, ∃ l, arm = .leaf l) :
    d.eval [] (.union (leaves ++ Primitives.jsonContainers)) value = .ok result ↔
      (∃ arm ∈ leaves ++ Primitives.jsonContainers, d.Accepts arm value) ∧ result = value := by
  have hkept : ∀ {other}, d.eval [] (.union (leaves ++ Primitives.jsonContainers)) value = .ok other →
      other = value := by
    intro other h
    obtain ⟨arm, ha, h⟩ := exists_of_eval_union h
    rcases List.mem_append.mp ha with ha | ha
    · obtain ⟨l, rfl⟩ := hleaves arm ha
      exact (eval_leaf_eq_ok_iff.mp h).2
    · exact eq_of_eval_container hparts ha h
  rw [← hd.accepts_union]
  constructor
  · intro h
    exact ⟨⟨result, h⟩, hkept h⟩
  · rintro ⟨⟨other, h⟩, rfl⟩
    rw [h, hkept h]

/-- Any JSON value but `null` is given back as it is. -/
theorem eval_inputJson_eq_ok_iff :
    d.eval [] (.union (Primitives.jsonLeaves ++ Primitives.jsonContainers)) value = .ok result ↔
      value ≠ .null ∧ result = value := by
  rw [eval_jsonArms_eq_ok_iff hparts hd (by simp [Primitives.jsonLeaves]), jsonArms_accept_iff hparts]

/-- With an arm for `null` any JSON value is. -/
theorem eval_json_eq_ok_iff :
    d.eval [] (.union (Primitives.jsonLeaves ++ [.leaf .null] ++ Primitives.jsonContainers)) value = .ok result ↔
      result = value := by
  rw [eval_jsonArms_eq_ok_iff hparts hd (by simp [Primitives.jsonLeaves]), and_iff_right]
  by_cases hn : value = .null
  · exact ⟨.leaf .null, by simp, accepts_leaf.mpr (hn ▸ rfl)⟩
  · obtain ⟨arm, ha, haccepted⟩ := (jsonArms_accept_iff hparts).mpr hn
    refine ⟨arm, ?_, haccepted⟩
    rcases List.mem_append.mp ha with ha | ha
    · exact List.mem_append_left _ (List.mem_append_left _ ha)
    · exact List.mem_append_right _ ha

end

/-- By induction over its parts every JSON value is given back as it is. -/
theorem Guarded.eval_jsonValue (hd : d.Guarded) (hfind : d.find? Naming.jsonValue =
      some ⟨Naming.jsonValue, .union (Primitives.jsonLeaves ++ [.leaf .null] ++ Primitives.jsonContainers)⟩)
    (value : Json) : d.eval [] (.ref Naming.jsonValue) value = .ok value := by
  induction value using Json.inductionOnParts with
  | step value ih =>
    rw [hd.eval_ref_of_find? hfind]
    exact (eval_json_eq_ok_iff ih hd).mpr rfl

end Document

/-! ### The document of a model -/

namespace DataModel
variable {model : DataModel}

/-- Where some field holds JSON values, their schemas are found under their names: only ordering comes before them. -/
theorem find?_json (h : ∃ field ∈ model.allFields, field.scalarType? = some .json) :
    ∀ d ∈ Primitives.json, model.document.find? d.name = some d := by
  obtain ⟨field, hf, htype⟩ := h
  have hany : (model.scalarUsage .json).any = true :=
    Usage.any_iff.mpr ⟨field.multiplicity, has_scalarUsage.mpr ⟨field, hf, htype, rfl⟩⟩
  obtain ⟨others, hbuilt⟩ := exists_built_eq_valueInputs_append model
  have hprimitives : Primitives.declarations model = Primitives.ordering ++ Primitives.json := by
    rw [Primitives.declarations, if_pos hany]
  intro d hd
  rw [find?_document, hbuilt, valueInputs, hprimitives, List.find?_append, List.find?_append]
  simp only [Primitives.json, List.mem_cons, List.not_mem_nil, or_false] at hd
  rcases hd with rfl | rfl <;> rfl

/-- Where some field holds JSON values, the schema of JSON values gives back every value as it is, and the schema of
what a field holds gives back every value but `null`, which it rejects. Whatever else a model declares, `null` inside a
value is kept. -/
theorem json_given_back (h : ∃ field ∈ model.allFields, field.scalarType? = some .json) (value : Json) :
    model.document.parse Naming.jsonValue value = .ok value ∧
    (∀ result, model.document.parse Naming.inputJsonValue value = .ok result ↔ value ≠ .null ∧ result = value) ∧
    (value = .null → ∃ reason, model.document.parse Naming.inputJsonValue value = .error (.rejected reason)) := by
  have hd := guarded_document model
  obtain ⟨hjson, hothers⟩ := List.forall_mem_cons.mp (find?_json h)
  have hinput := List.forall_mem_singleton.mp hothers
  have hkept : ∀ value, model.document.parse Naming.jsonValue value = .ok value := hd.eval_jsonValue hjson
  have hinputs : ∀ result, model.document.parse Naming.inputJsonValue value = .ok result ↔
      value ≠ .null ∧ result = value := by
    intro result
    rw [Document.parse, hd.eval_ref_of_find? hinput]
    exact Document.eval_inputJson_eq_ok_iff (fun part _ => hkept part) hd
  refine ⟨hkept value, hinputs, fun hnull => ?_⟩
  cases hparse : model.document.parse Naming.inputJsonValue value with
  | ok result => exact absurd hnull ((hinputs result).mp hparse).1
  | error obstacle =>
    cases obstacle with
    | rejected reason => exact ⟨reason, rfl⟩
    | endless name => exact absurd hparse (hd.eval_ne_endless Document.clear_nil value name)

/-- Notes with a row of attachments, and an enumeration that would take the name of the schema of JSON values. -/
def notes : DataModel :=
  let attachments := { Field.plain "attachments" (.scalar .json) with isList := true }
  ⟨[⟨"Note", [{ Field.plain "id" (.scalar .int) with isId := true }, attachments], none, []⟩],
    [⟨"JsonValue", ["none"]⟩]⟩

/-- The enumeration changes nothing, and `null` inside an attachment is kept. -/
theorem notes_given_back : (∃ field ∈ notes.allFields, field.scalarType? = some .json) ∧
    notes.document.parse Naming.jsonValue .null = .ok .null ∧
    notes.document.parse Naming.inputJsonValue (.array [.null, .object [("of", .array [.null])]]) =
      .ok (.array [.null, .object [("of", .array [.null])]]) ∧
    ∃ reason, notes.document.parse Naming.inputJsonValue .null = .error (.rejected reason) := by
  have hjson : ∃ field ∈ notes.allFields, field.scalarType? = some .json :=
    ⟨_, List.mem_cons_of_mem _ List.mem_cons_self, rfl⟩
  obtain ⟨hnull, -, hrejected⟩ := json_given_back hjson .null
  obtain ⟨-, hkept, -⟩ := json_given_back hjson (.array [.null, .object [("of", .array [.null])]])
  exact ⟨hjson, hnull, (hkept _).mpr ⟨by simp, rfl⟩, hrejected rfl⟩

end DataModel

end DataShapes
