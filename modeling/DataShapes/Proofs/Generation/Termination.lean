import DataShapes.Proofs.Generation.Resolution
import DataShapes.Proofs.Schema.Calls

/-! # Evaluation ends

All declarations that a model builds are objects, rows of texts, or unions of leaves and containers: to go on
to another name is to go into the value. So the document of any model, accepted or not, is one in which every
evaluation ends. -/

namespace DataShapes

/-! ### Schemas that open nothing -/

namespace Schema

/-- All references of the schema stand in objects, arrays and records. -/
def Shut (schema : Schema) : Prop := ∀ name, ¬ schema.Exposes name

@[simp] theorem shut_leaf {l : Leaf} : Shut (.leaf l) := fun _ h => nomatch h

@[simp] theorem shut_enumeration {values : List String} : Shut (.enumeration values) := fun _ h => nomatch h

@[simp] theorem shut_object {properties : List (String × Schema)} {strict : Bool} : Shut (.object properties strict) :=
  fun _ h => nomatch h

@[simp] theorem shut_strictObject {properties : List (String × Schema)} : Shut (.strictObject properties) := shut_object

@[simp] theorem shut_array {item : Schema} : Shut (.array item) := fun _ h => nomatch h

@[simp] theorem shut_record {item : Schema} : Shut (.record item) := fun _ h => nomatch h

@[simp] theorem shut_union {arms : List Schema} : Shut (.union arms) ↔ ∀ arm ∈ arms, Shut arm :=
  ⟨fun h _ ha name hn => h name (.union ha hn), fun h name hn => by
    cases hn with
    | union ha hn => exact h _ ha name hn⟩

end Schema

/-! ### Declarations of a model -/

theorem Entity.shut_lookup (entity : Entity) : entity.lookup.Shut := by
  unfold lookup
  split
  · simp
  · simp [lookupBy]
  · simp [lookupBy]

theorem Entity.shut_of_mem_payloads {entity : Entity} {graph : Graph} {d : Declaration}
    (hd : d ∈ entity.createInputs graph ++ entity.updateInputs graph) : d.schema.Shut := by
  obtain ⟨purpose, form, hschema | hschema⟩ := Entity.payload_cases hd <;>
    exact hschema ▸ Schema.shut_strictObject

namespace Filter

theorem shut_ofScalar {type : ScalarType} {m : Multiplicity} {name : String} : (ofScalar type m name).Shut := by
  cases m <;> simp [ofScalar, ofSingle, ofList]

theorem shut_ofEnumeration {value : Schema} {m : Multiplicity} {name : String} : (ofEnumeration value m name).Shut := by
  cases m <;> simp [ofEnumeration, ofList]

end Filter

namespace NestedNames
variable {names : NestedNames} {graph : Graph} {field : Field} {edge : Edge} {d : Declaration}

theorem shut_of_mem_payload {purpose : Purpose} (hd : d ∈ names.payload graph purpose edge) : d.schema.Shut := by
  simp only [payload, List.mem_cons, List.not_mem_nil, or_false] at hd
  rcases hd with rfl | rfl <;> exact Schema.shut_strictObject

theorem shut_of_mem_creations (hd : d ∈ names.creations graph field edge) : d.schema.Shut := by
  simp only [creations, List.mem_append, List.mem_singleton] at hd
  rcases hd with (hd | rfl) | hd
  · exact shut_of_mem_payload hd
  · exact Schema.shut_strictObject
  · split at hd
    · simp only [createRows, List.mem_append, List.mem_ite_nil_right, List.mem_cons, List.not_mem_nil, or_false] at hd
      rcases hd with ⟨-, rfl | rfl⟩ | rfl | rfl <;> exact Schema.shut_strictObject
    · obtain rfl := List.mem_singleton.mp hd
      exact Schema.shut_strictObject

theorem shut_of_mem_changes (hd : d ∈ names.changes graph field edge) : d.schema.Shut := by
  simp only [changes, List.mem_append] at hd
  rcases hd with hd | hd
  · exact shut_of_mem_payload hd
  · split at hd
    · simp only [changeMany, List.mem_append, List.mem_cons, List.not_mem_nil, or_false] at hd
      rcases hd with (rfl | rfl | rfl | rfl) | rfl | rfl <;> exact Schema.shut_strictObject
    · simp only [List.mem_cons, List.not_mem_nil, or_false] at hd
      rcases hd with rfl | rfl | rfl <;> exact Schema.shut_strictObject

end NestedNames

namespace DataModel
variable {model : DataModel} {d : Declaration}

theorem shut_of_mem_shared (hd : d ∈ model.sharedInputs) : d.schema.Shut := by
  rcases shared_cases hd with hd | ⟨type, -, m, hschema⟩ | ⟨type, -, nullable, hschema⟩
  · simp only [Primitives.declarations, Primitives.ordering, List.mem_append, List.mem_cons, List.not_mem_nil,
      or_false] at hd
    rcases hd with (rfl | rfl | rfl | rfl) | hd
    · simp
    · simp
    · simp
    · simp
    · split at hd
      · simp only [Primitives.json, List.mem_cons, List.not_mem_nil, or_false] at hd
        rcases hd with rfl | rfl <;> simp [Primitives.jsonLeaves, Primitives.jsonContainers]
      · cases hd
  · rw [hschema]
    exact Filter.shut_ofScalar
  · rw [hschema]
    exact Schema.shut_strictObject

theorem shut_of_mem_enumerationInputs {enumeration : Enumeration} (hd : d ∈ model.enumerationInputs enumeration) :
    d.schema.Shut := by
  rcases enumerationInput_cases hd with rfl | ⟨m, hschema⟩ | ⟨nullable, hschema⟩
  · exact Schema.shut_enumeration
  · rw [hschema]
    exact Filter.shut_ofEnumeration
  · rw [hschema]
    exact Schema.shut_strictObject

theorem shut_of_mem_relationFilters {entity : Entity} {usage : Usage} (hd : d ∈ entity.relationFilters usage) :
    d.schema.Shut := by
  simp only [Entity.relationFilters, List.mem_append, List.mem_ite_nil_right, List.mem_singleton] at hd
  rcases hd with (⟨-, rfl⟩ | ⟨-, rfl⟩) | ⟨-, rfl⟩
  all_goals exact Schema.shut_strictObject

theorem shut_of_mem_query {graph : Graph} {entity : Entity} (hd : d ∈ model.queryDeclarations graph entity) :
    d.schema.Shut := by
  simp only [queryDeclarations, Entity.bulkWhere, Entity.orderBySize, Entity.relationSelection,
    Entity.countSelection, List.mem_append, List.mem_cons, List.not_mem_nil, or_false,
    List.mem_ite_nil_right] at hd
  rcases hd with (((((((((rfl | rfl) | hd) | ⟨-, rfl⟩) | rfl | rfl) | ⟨-, rfl⟩) | hd) | rfl | rfl) | ⟨-, rfl⟩) | rfl) |
    ⟨-, rfl | rfl⟩
  · exact Schema.shut_strictObject
  · exact entity.shut_lookup
  · exact shut_of_mem_relationFilters hd
  · exact Schema.shut_strictObject
  · exact Schema.shut_strictObject
  · exact Schema.shut_strictObject
  · exact Schema.shut_strictObject
  · obtain ⟨⟨key, aggregate, fields⟩, -, rfl⟩ := List.mem_map.mp hd
    exact Schema.shut_strictObject
  all_goals exact Schema.shut_strictObject

/-- Payloads, aggregates and arguments are objects. -/
theorem shut_of_mem_entityInputs {entity : Entity} (hd : d ∈ model.entityInputs entity) : d.schema.Shut := by
  simp only [entityInputs, List.mem_cons, List.mem_append] at hd
  rcases hd with rfl | (((hd | hd) | hd) | hd) | hd
  · exact Schema.shut_enumeration
  · exact shut_of_mem_query hd
  · exact Entity.shut_of_mem_payloads (List.mem_append_left _ hd)
  · exact Entity.shut_of_mem_payloads (List.mem_append_right _ hd)
  · obtain ⟨⟨aggregate, properties⟩, -, rfl⟩ := List.mem_map.mp hd
    exact Schema.shut_strictObject
  · obtain ⟨⟨suffix, properties⟩, -, rfl⟩ := List.mem_map.mp hd
    exact Schema.shut_strictObject

/-- No declaration that a model builds refers to a name outside of objects, arrays and records. -/
theorem shut_of_mem_built (hd : d ∈ model.built) : d.schema.Shut := by
  rcases mem_built.mp hd with hd | ⟨entity, -, rfl⟩
  · rcases mem_inputs.mp hd with hd | ⟨enumeration, -, hd⟩ | ⟨entity, -, hd⟩ | ⟨owner, -, field, -, hd⟩
    · exact shut_of_mem_shared hd
    · exact shut_of_mem_enumerationInputs hd
    · exact shut_of_mem_entityInputs hd
    · obtain ⟨edge, -, hd | hd⟩ := Graph.mem_nestedWrites.mp hd
      · exact NestedNames.shut_of_mem_creations hd
      · exact NestedNames.shut_of_mem_changes hd
  · exact Schema.shut_object

theorem guarded_document (model : DataModel) : model.document.Guarded := by
  -- There are no cycles because there is not even a first step.
  have hopens : ∀ name other, ¬ model.document.Opens name other := by
    rintro name other ⟨x, hx, hexposes⟩
    have hbuilt : x ∈ model.built := mem_built_of_mem_document (List.mem_of_find?_eq_some hx)
    exact shut_of_mem_built hbuilt other hexposes
  intro name hcycle
  obtain ⟨other, hstep, -⟩ := Relation.TransGen.head'_iff.mp hcycle
  exact hopens name other hstep

end DataModel

namespace Document

/-- Where no name opens itself again on the same value, the evaluation of every name on every value ends: no
row of its calls goes on for ever, and it is never endless. The document of any model is such a document. Where
no reference is unresolved, the evaluation of a declared name looks up declared names only; so what it says does
not depend on what else is declared. -/
theorem parse_ends : (∀ d : Document, d.Guarded → ∀ name value, d.Ends (.ref name, value) ∧
      ∀ other, d.parse name value ≠ .error (.endless other)) ∧
    (∀ model : DataModel, model.document.Guarded) ∧
    ∀ d : Document, d.unresolved = [] → ∀ name ∈ d.names, ∀ value,
      (∀ other, d.LooksUp (.ref name) value other → other ∈ d.names) ∧
      (d.Guarded → ∀ d' : Document, (∀ other ∈ d.names, d'.find? other = d.find? other) →
        d'.parse name value = d.parse name value) := by
  refine ⟨fun d hd name value => ⟨hd.ends (.ref name) value, hd.eval_ne_endless clear_nil value⟩,
    DataModel.guarded_document, fun d hresolved name hname value => ?_⟩
  have hdeclared : ∀ other, d.LooksUp (.ref name) value other → other ∈ d.names :=
    fun other => LooksUp.declared hresolved hname
  refine ⟨hdeclared, fun _ d' hagree => ?_⟩
  exact eval_congr (fun other hother => hagree other (hdeclared other hother)) (.refl [] _)

/-- Trees of numbers: an item is a number or a row of items. -/
def trees : Document :=
  ⟨[⟨"Trees", [⟨"Item", .union [.leaf .int, .ref "Row"]⟩, ⟨"Row", .array (.ref "Item")⟩]⟩]⟩

theorem opens_trees {name other : String} (h : trees.Opens name other) : name = "Item" ∧ other = "Row" := by
  obtain ⟨x, hx, hexposes⟩ := h
  have hname : x.name = name := by simpa using List.find?_some hx
  have hmem : x ∈ trees.declarations := List.mem_of_find?_eq_some hx
  simp only [trees, declarations, List.flatMap_cons, List.flatMap_nil, List.append_nil, List.mem_cons,
    List.not_mem_nil, or_false] at hmem
  rcases hmem with rfl | rfl
  · cases hexposes with
    | union ha harm =>
      simp only [List.mem_cons, List.not_mem_nil, or_false] at ha
      rcases ha with rfl | rfl <;> cases harm
      exact ⟨hname.symm, rfl⟩
  · cases hexposes

/-- From an item on, trees open a row, and a row opens nothing before it has gone into the value. -/
theorem guarded_trees : trees.Guarded := by
  intro name hcycle
  obtain ⟨other, hstep, hback⟩ := Relation.TransGen.head'_iff.mp hcycle
  obtain ⟨rfl, rfl⟩ := opens_trees hstep
  rcases hback.cases_head with heq | ⟨next, hnext, -⟩
  · exact absurd heq (by decide)
  · exact absurd (opens_trees hnext).1 (by decide)

/-- The evaluation of a tree ends, and says the same in a document that declares more. -/
theorem parse_ends_trees : trees.Guarded ∧ trees.unresolved = [] ∧ "Item" ∈ trees.names ∧
    trees.Ends (.ref "Item", .array [.array [.int 1], .int 2]) ∧
    (∀ other, trees.parse "Item" (.array [.array [.int 1], .int 2]) ≠ .error (.endless other)) ∧
    (∀ other, trees.LooksUp (.ref "Item") (.array [.array [.int 1], .int 2]) other → other ∈ ["Item", "Row"]) ∧
    (⟨trees.sections ++ [⟨"Others", [⟨"Leaf", .leaf .any⟩]⟩]⟩ : Document).parse "Item"
        (.array [.array [.int 1], .int 2]) = trees.parse "Item" (.array [.array [.int 1], .int 2]) := by
  obtain ⟨hends, -, hdeclared⟩ := parse_ends
  have hresolved : trees.unresolved = [] := by decide
  have hitem : "Item" ∈ trees.names := by decide
  obtain ⟨hlooked, hagree⟩ := hdeclared trees hresolved "Item" hitem (.array [.array [.int 1], .int 2])
  obtain ⟨hend, hendless⟩ := hends trees guarded_trees "Item" (.array [.array [.int 1], .int 2])
  refine ⟨guarded_trees, hresolved, hitem, hend, hendless, hlooked, hagree guarded_trees _ ?_⟩
  simp [find?, declarations, trees, names]

end Document

end DataShapes
