import DataShapes.Proofs.Generation.Lossless
import DataShapes.Proofs.Generation.Termination
import DataShapes.Proofs.Schema.Acceptance

/-! # New records inside a record

A new record may create others through its relations, and these others in turn. What the document accepts for
such a record leaves out the relation that leads back and the value fields that store it: in each of the forms
in which a record can be written, and so, by induction, however deep it stands. -/

namespace DataShapes

/-! ### Records in a payload -/

/-- The items of an array, or else the value itself. -/
def Json.several : Json → List Json
  | .array items => items
  | value => [value]

/-- The write through a relation field creates the record: as one of those under `create`, as a row, or in case
there is none to connect to. -/
inductive Json.Creates (write : Json) : Json → Prop
  | create {value record : Json} : write.get? "create" = some value → record ∈ value.several → Creates write record
  | createMany {rows data record : Json} : write.get? "createMany" = some rows → rows.get? "data" = some data →
    record ∈ data.several → Creates write record
  | connectOrCreate {value choice record : Json} : write.get? "connectOrCreate" = some value →
    choice ∈ value.several → choice.get? "create" = some record → Creates write record

namespace Graph

/-- The record is written through a relation field of the owner that has this far side. -/
def Nests (graph : Graph) (owner : Entity) (payload : Json) (edge : Edge) (record : Json) : Prop :=
  ∃ field ∈ owner.relationFields, graph.edge? owner field = some edge ∧
    ∃ write, payload.get? field.name = some write ∧ write.Creates record

/-- The record is written somewhere in the payload, through a relation field that has this far side. -/
inductive Written (graph : Graph) : Entity → Json → Edge → Json → Prop
  | direct {owner : Entity} {payload record : Json} {edge : Edge} :
    graph.Nests owner payload edge record → Written graph owner payload edge record
  | deeper {owner : Entity} {payload outer record : Json} {through edge : Edge} :
    graph.Nests owner payload through outer → Written graph through.target outer edge record →
    Written graph owner payload edge record

end Graph

/-! ### What a record leaves out -/

namespace Payload
variable {entity : Entity} {omitted field : Field}

theorem isStorageKey_of_mem_impliedKeys (ho : omitted ∈ entity.relationFields) {key : String}
    (hk : key ∈ impliedKeys (some omitted)) : entity.isStorageKey key = true := by
  obtain ⟨relation, hr⟩ := Option.isSome_iff_exists.mp (List.mem_filter.mp ho).2
  have hk : key ∈ relation.storageKeys := by simpa [impliedKeys, hr] using hk
  refine List.contains_iff_mem.mpr (List.mem_flatMap.mpr ⟨relation, ?_, hk⟩)
  exact List.mem_filterMap.mpr ⟨omitted, ho, hr⟩

/-- Either form leaves out the value fields that store the relation left out. -/
theorem hides_of_mem_impliedKeys (ho : omitted ∈ entity.relationFields)
    (hk : field.name ∈ impliedKeys (some omitted)) (form : Form) : hides entity form (some omitted) field = true := by
  cases form with
  | checked => exact isStorageKey_of_mem_impliedKeys ho hk
  | unchecked => exact List.contains_iff_mem.mpr hk

end Payload

namespace Document
variable {d : Document}

theorem Accepts.exists_entries {properties : List (String × Schema)} {value : Json}
    (h : d.Accepts (.strictObject properties) value) : ∃ entries, value = .object entries := by
  obtain ⟨entries, rfl, -⟩ := accepts_strictObject.mp h
  exact ⟨entries, rfl⟩

/-- What stands under a key of an object is accepted by the property of that key. -/
theorem Accepts.get? {properties : List (String × Schema)} {value part : Json} {key : String}
    (h : d.Accepts (.strictObject properties) value) (hpart : value.get? key = some part) :
    ∃ p ∈ properties, p.1 = key ∧ d.Accepts p.2 part := by
  obtain ⟨entries, rfl⟩ := h.exists_entries
  exact h.property hpart

/-- The value is accepted as a new record of the entity without the relation `omitted`: in one of the two forms, or
as a row. -/
inductive TakesNew (d : Document) (graph : Graph) (entity : Entity) (omitted : Option Field) (value : Json) : Prop
  | form (form : Form) :
    d.Accepts (.strictObject (Payload.properties graph .create form entity omitted)) value →
    TakesNew d graph entity omitted value
  | row : d.Accepts (.strictObject (Payload.bulkProperties .create .unchecked entity omitted)) value →
    TakesNew d graph entity omitted value

variable {graph : Graph} {entity : Entity} {value : Json}

theorem TakesNew.exists_entries {omitted : Option Field} (h : d.TakesNew graph entity omitted value) :
    ∃ entries, value = .object entries := by
  cases h with
  | form _ h => exact h.exists_entries
  | row h => exact h.exists_entries

/-- A new record is no array of them. -/
theorem TakesNew.of_mem_several {omitted : Option Field} (h : d.TakesNew graph entity omitted value) {record : Json}
    (hr : record ∈ value.several) : d.TakesNew graph entity omitted record := by
  obtain ⟨entries, rfl⟩ := h.exists_entries
  obtain rfl := List.mem_singleton.mp hr
  exact h

/-- A record that is accepted without a relation states neither the relation nor a value field that stores it. -/
theorem TakesNew.omits {model : DataModel} (hapart : model.NamedApart) (he : entity ∈ model.entities) {omitted : Field}
    (ho : omitted ∈ entity.relationFields) {entries : List (String × Json)}
    (h : d.TakesNew graph entity (some omitted) (.object entries)) {key : String} {part : Json}
    (hpart : Json.entry? entries key = some part) :
    key ≠ omitted.name ∧ ∀ field ∈ entity.valueFields, field.name ∈ Payload.impliedKeys (some omitted) →
      key ≠ field.name := by
  have hofields : omitted ∈ entity.fields := Entity.mem_of_mem_relationFields ho
  cases h with
  | form form h =>
    obtain ⟨p, hp, rfl, -⟩ := h.property hpart
    refine ⟨fun heq => ?_, fun field hf hkey heq => ?_⟩
    · have hp : (omitted.name, p.2) ∈ Payload.properties graph .create form entity (some omitted) := heq ▸ hp
      exact Payload.notMem_properties hp
    · obtain ⟨other, hother, hs, hn⟩ := Entity.mem_propertiesOf.mp hp
      obtain rfl : other = field :=
        hapart.field_eq he hother (Entity.mem_of_mem_valueFields hf) (hn.trans heq)
      have hvalue : other.isRelation = false := by simpa using (List.mem_filter.mp hf).2
      have hhidden : Payload.hides entity form (some omitted) other = true :=
        Payload.hides_of_mem_impliedKeys ho hkey form
      simp [Payload.ofField?, hvalue, hhidden] at hs
  | row h =>
    obtain ⟨p, hp, rfl, -⟩ := h.property hpart
    obtain ⟨other, hother, -, hn⟩ := Entity.mem_propertiesOf.mp hp
    obtain ⟨hvalues, hshown⟩ := List.mem_filter.mp hother
    refine ⟨fun heq => ?_, fun field hf hkey heq => ?_⟩
    · obtain rfl : other = omitted :=
        hapart.field_eq he (Entity.mem_of_mem_valueFields hvalues) hofields (hn.trans heq)
      have hvalue := (List.mem_filter.mp hvalues).2
      have hrelation := (List.mem_filter.mp ho).2
      simp [hrelation] at hvalue
    · rw [← hn] at heq
      rw [Payload.hides_of_mem_impliedKeys ho (heq ▸ hkey) .unchecked] at hshown
      cases hshown

end Document

namespace DataModel
variable {model : DataModel}

section
variable (hd : model.DropsNothing) {owner : Entity} (ho : owner ∈ model.entities) {field : Field}
  (hf : field ∈ owner.relationFields) {edge : Edge} (hedge : (Graph.ofModel model).edge? owner field = some edge)
  {value : Json}
include hd ho hf hedge

theorem DropsNothing.find?_creation {x : Declaration}
    (hx : x ∈ (NestedNames.ofEdge edge).creations (Graph.ofModel model) field edge) :
    model.document.find? x.name = some x := by
  exact hd.find?_input (mem_inputs_of_field ho hf (Graph.mem_nestedWrites.mpr ⟨edge, hedge, Or.inl hx⟩))

theorem DropsNothing.accepts_creation {x : Declaration}
    (hx : x ∈ (NestedNames.ofEdge edge).creations (Graph.ofModel model) field edge)
    (h : model.document.Accepts (.ref x.name) value) : model.document.Accepts x.schema value :=
  ((guarded_document model).accepts_ref_of_find? (hd.find?_creation ho hf hedge hx)).mp h

/-- A reference to either form of new records takes new records. -/
theorem DropsNothing.takesNew_of_checked
    (h : model.document.Accepts ((NestedNames.ofEdge edge).roleRef "Create") value) :
    model.document.TakesNew (Graph.ofModel model) edge.target (some edge.reverse) value := by
  have hx : ⟨(NestedNames.ofEdge edge).role "Create" "Input", .strictObject (Payload.properties (Graph.ofModel model)
      .create .checked edge.target (some edge.reverse))⟩ ∈
        (NestedNames.ofEdge edge).creations (Graph.ofModel model) field edge :=
    List.mem_append_left _ (List.mem_append_left _ List.mem_cons_self)
  exact .form .checked (hd.accepts_creation ho hf hedge hx h)

theorem DropsNothing.takesNew_of_unchecked
    (h : model.document.Accepts ((NestedNames.ofEdge edge).roleRef "UncheckedCreate") value) :
    model.document.TakesNew (Graph.ofModel model) edge.target (some edge.reverse) value := by
  have hx : ⟨(NestedNames.ofEdge edge).role "UncheckedCreate" "Input", .strictObject (Payload.properties
      (Graph.ofModel model) .create .unchecked edge.target (some edge.reverse))⟩ ∈
        (NestedNames.ofEdge edge).creations (Graph.ofModel model) field edge :=
    List.mem_append_left _ (List.mem_append_left _ (List.mem_cons_of_mem _ List.mem_cons_self))
  exact .form .unchecked (hd.accepts_creation ho hf hedge hx h)

theorem DropsNothing.takesNew_of_newRecord (h : model.document.Accepts (NestedNames.ofEdge edge).newRecord value) :
    model.document.TakesNew (Graph.ofModel model) edge.target (some edge.reverse) value := by
  obtain ⟨arm, ha, h⟩ := (guarded_document model).accepts_union.mp h
  simp only [List.mem_cons, List.not_mem_nil, or_false] at ha
  rcases ha with rfl | rfl
  · exact hd.takesNew_of_checked ho hf hedge h
  · exact hd.takesNew_of_unchecked ho hf hedge h

/-- Several new records or one: the arms for arrays take each item, and the others no array. -/
theorem DropsNothing.takesNew_of_newRecords (h : model.document.Accepts (NestedNames.ofEdge edge).newRecords value)
    {record : Json} (hr : record ∈ value.several) :
    model.document.TakesNew (Graph.ofModel model) edge.target (some edge.reverse) record := by
  obtain ⟨arm, ha, h⟩ := (guarded_document model).accepts_union.mp h
  simp only [List.mem_cons, List.not_mem_nil, or_false] at ha
  rcases ha with rfl | rfl | rfl | rfl
  · obtain ⟨items, rfl, hitems⟩ := Document.accepts_array.mp h
    exact hd.takesNew_of_checked ho hf hedge (hitems record hr)
  · obtain ⟨items, rfl, hitems⟩ := Document.accepts_array.mp h
    exact hd.takesNew_of_unchecked ho hf hedge (hitems record hr)
  · exact (hd.takesNew_of_checked ho hf hedge h).of_mem_several hr
  · exact (hd.takesNew_of_unchecked ho hf hedge h).of_mem_several hr

/-- What is created if there is none to connect to is a new record. -/
theorem DropsNothing.takesNew_of_connectOrCreate
    (h : model.document.Accepts ((NestedNames.ofEdge edge).roleRef "CreateOrConnect") value) :
    (∃ entries, value = .object entries) ∧ ∀ record, value.get? "create" = some record →
      model.document.TakesNew (Graph.ofModel model) edge.target (some edge.reverse) record := by
  have hx : (NestedNames.ofEdge edge).connectOrCreate ∈
      (NestedNames.ofEdge edge).creations (Graph.ofModel model) field edge :=
    List.mem_append_left _ (List.mem_append_right _ (List.mem_singleton_self _))
  have h := hd.accepts_creation ho hf hedge hx h
  refine ⟨h.exists_entries, fun record hrecord => ?_⟩
  obtain ⟨p, hp, hkey, haccepted⟩ := h.get? hrecord
  simp only [List.mem_cons, List.not_mem_nil, or_false] at hp
  rcases hp with rfl | rfl
  · simp at hkey
  · exact hd.takesNew_of_newRecord ho hf hedge haccepted

theorem DropsNothing.takesNew_of_connectOrCreates
    (h : model.document.Accepts (.oneOrMany ((NestedNames.ofEdge edge).roleRef "CreateOrConnect")) value)
    {choice : Json} (hc : choice ∈ value.several) {record : Json} (hr : choice.get? "create" = some record) :
    model.document.TakesNew (Graph.ofModel model) edge.target (some edge.reverse) record := by
  rcases (guarded_document model).accepts_oneOrMany.mp h with ⟨items, rfl, hitems⟩ | h
  · exact (hd.takesNew_of_connectOrCreate ho hf hedge (hitems choice hc)).2 record hr
  · obtain ⟨⟨entries, rfl⟩, htakes⟩ := hd.takesNew_of_connectOrCreate ho hf hedge h
    obtain rfl := List.mem_singleton.mp hc
    exact htakes record hr

/-- Rows are new records too. -/
theorem DropsNothing.takesNew_of_rows (hlist : field.isList = true) (hbulk : edge.reverse.isList = false)
    (h : model.document.Accepts (.ref ((NestedNames.ofEdge edge).rows "InputEnvelope")) value) {data : Json}
    (hdata : value.get? "data" = some data) {record : Json} (hr : record ∈ data.several) :
    model.document.TakesNew (Graph.ofModel model) edge.target (some edge.reverse) record := by
  have hrows : ∀ x ∈ (NestedNames.ofEdge edge).createRows edge,
      x ∈ (NestedNames.ofEdge edge).creations (Graph.ofModel model) field edge := by
    intro x hx
    refine List.mem_append_right _ ?_
    simp only [hlist, hbulk, Bool.not_false, ↓reduceIte]
    exact List.mem_append_left _ hx
  have hrow : ∀ x, model.document.Accepts (.ref ((NestedNames.ofEdge edge).rows "Input")) x →
      model.document.TakesNew (Graph.ofModel model) edge.target (some edge.reverse) x := by
    intro x hx
    exact .row (hd.accepts_creation ho hf hedge (hrows _ List.mem_cons_self) hx)
  have h := hd.accepts_creation ho hf hedge (hrows _ (List.mem_cons_of_mem _ List.mem_cons_self)) h
  obtain ⟨p, hp, hkey, haccepted⟩ := h.get? hdata
  simp only [List.mem_cons, List.not_mem_nil, or_false] at hp
  rcases hp with rfl | rfl
  · rcases (guarded_document model).accepts_oneOrMany.mp haccepted with ⟨items, rfl, hitems⟩ | hone
    · exact hrow record (hitems record hr)
    · exact (hrow data hone).of_mem_several hr
  · simp at hkey

theorem DropsNothing.takesNew_of_createOne (hlist : field.isList = false)
    (h : model.document.Accepts (.ref (NestedNames.ofEdge edge).createOne.name) value) {record : Json}
    (hr : value.Creates record) :
    model.document.TakesNew (Graph.ofModel model) edge.target (some edge.reverse) record := by
  have hx : (NestedNames.ofEdge edge).createOne ∈
      (NestedNames.ofEdge edge).creations (Graph.ofModel model) field edge := by
    refine List.mem_append_right _ ?_
    rw [if_neg (by simp [hlist])]
    exact List.mem_singleton_self _
  have h := hd.accepts_creation ho hf hedge hx h
  cases hr with
  | create hvalue hr =>
    obtain ⟨p, hp, hkey, haccepted⟩ := h.get? hvalue
    simp only [List.mem_cons, List.not_mem_nil, or_false] at hp
    rcases hp with rfl | rfl | rfl
    · have htakes := hd.takesNew_of_newRecord ho hf hedge (Document.accepts_optional.mp haccepted)
      exact htakes.of_mem_several hr
    · simp at hkey
    · simp at hkey
  | createMany hrows =>
    obtain ⟨p, hp, hkey, -⟩ := h.get? hrows
    simp only [List.mem_cons, List.not_mem_nil, or_false] at hp
    rcases hp with rfl | rfl | rfl <;> simp at hkey
  | connectOrCreate hvalue hc hr =>
    obtain ⟨p, hp, hkey, haccepted⟩ := h.get? hvalue
    simp only [List.mem_cons, List.not_mem_nil, or_false] at hp
    rcases hp with rfl | rfl | rfl
    · simp at hkey
    · obtain ⟨⟨entries, rfl⟩, htakes⟩ :=
        hd.takesNew_of_connectOrCreate ho hf hedge (Document.accepts_optional.mp haccepted)
      obtain rfl := List.mem_singleton.mp hc
      exact htakes _ hr
    · simp at hkey

theorem DropsNothing.takesNew_of_createMany (hlist : field.isList = true) {before : String}
    (hbefore : before = "CreateNestedMany" ∨ before = "UncheckedCreateNestedMany")
    (h : model.document.Accepts (.ref ((NestedNames.ofEdge edge).role before "Input")) value) {record : Json}
    (hr : value.Creates record) :
    model.document.TakesNew (Graph.ofModel model) edge.target (some edge.reverse) record := by
  have hx : (NestedNames.ofEdge edge).createMany before (!edge.reverse.isList) ∈
      (NestedNames.ofEdge edge).creations (Graph.ofModel model) field edge := by
    refine List.mem_append_right _ ?_
    rw [if_pos hlist]
    refine List.mem_append_right _ ?_
    rcases hbefore with rfl | rfl <;> simp
  have h := hd.accepts_creation ho hf hedge hx h
  have hproperty : ∀ {key : String} {part : Json}, value.get? key = some part → ∃ schema,
      model.document.Accepts schema part ∧
        ((key, schema) = ("create", (NestedNames.ofEdge edge).newRecords.optional) ∨
        (key, schema) = ("connectOrCreate",
          (Schema.oneOrMany ((NestedNames.ofEdge edge).roleRef "CreateOrConnect")).optional) ∨
        edge.reverse.isList = false ∧ (key, schema) = ("createMany",
          (Schema.ref ((NestedNames.ofEdge edge).rows "InputEnvelope")).optional) ∨
        key = "connect") := by
    intro key part hpart
    obtain ⟨p, hp, rfl, haccepted⟩ := h.get? hpart
    refine ⟨p.2, haccepted, ?_⟩
    simp only [NestedNames.several, NestedNames.bulk, List.map_cons, List.map_nil, List.mem_append,
      List.mem_ite_nil_right, List.mem_cons, List.not_mem_nil, or_false] at hp
    rcases hp with ((rfl | rfl) | ⟨hbulk, rfl⟩) | rfl
    · exact Or.inl rfl
    · exact Or.inr (Or.inl rfl)
    · exact Or.inr (Or.inr (Or.inl ⟨by simpa using hbulk, rfl⟩))
    · exact Or.inr (Or.inr (Or.inr rfl))
  cases hr with
  | create hvalue hr =>
    obtain ⟨schema, haccepted, hschema⟩ := hproperty hvalue
    obtain rfl : schema = (NestedNames.ofEdge edge).newRecords.optional := by simpa using hschema
    exact hd.takesNew_of_newRecords ho hf hedge (Document.accepts_optional.mp haccepted) hr
  | createMany hrows hdata hr =>
    obtain ⟨schema, haccepted, hschema⟩ := hproperty hrows
    obtain ⟨hbulk, rfl⟩ : edge.reverse.isList = false ∧
        schema = (Schema.ref ((NestedNames.ofEdge edge).rows "InputEnvelope")).optional := by simpa using hschema
    exact hd.takesNew_of_rows ho hf hedge hlist hbulk (Document.accepts_optional.mp haccepted) hdata hr
  | connectOrCreate hvalue hc hr =>
    obtain ⟨schema, haccepted, hschema⟩ := hproperty hvalue
    obtain rfl : schema = (Schema.oneOrMany ((NestedNames.ofEdge edge).roleRef "CreateOrConnect")).optional := by
      simpa using hschema
    exact hd.takesNew_of_connectOrCreates ho hf hedge (Document.accepts_optional.mp haccepted) hc hr

/-- What a payload says of a relation field creates new records of its target. -/
theorem DropsNothing.takesNew_of_nested {form : Form} {schema : Schema}
    (hs : Payload.nested? .create form field edge = some schema) (h : model.document.Accepts schema value)
    {record : Json} (hr : value.Creates record) :
    model.document.TakesNew (Graph.ofModel model) edge.target (some edge.reverse) record := by
  obtain ⟨⟨before, after⟩, hrole, rfl⟩ := Option.map_eq_some_iff.mp hs
  have h : model.document.Accepts (.ref ((NestedNames.ofEdge edge).role before after)) value := by
    dsimp only at h
    split at h
    · exact h
    · exact Document.accepts_optional.mp h
  cases hm : field.multiplicity with
  | list =>
    have hlist : field.isList = true := Field.multiplicity_eq_list.mp hm
    rw [hm] at hrole
    cases form with
    | checked =>
      cases hrole
      exact hd.takesNew_of_createMany ho hf hedge hlist (Or.inl rfl) h hr
    | unchecked =>
      cases hrole
      exact hd.takesNew_of_createMany ho hf hedge hlist (Or.inr rfl) h hr
  | required | nullable =>
    have hlist : field.isList = false := by
      rw [← Bool.not_eq_true, ← Field.multiplicity_eq_list, hm]
      simp
    rw [hm] at hrole
    cases form with
    | checked =>
      cases hrole
      exact hd.takesNew_of_createOne ho hf hedge hlist h hr
    | unchecked => cases hrole

end

/-- A new record creates new records, each without the relation that leads back to it. -/
theorem DropsNothing.takesNew_of_nests (hd : model.DropsNothing) (hapart : model.NamedApart) {owner : Entity}
    (ho : owner ∈ model.entities) {omitted : Option Field} {payload : Json}
    (h : model.document.TakesNew (Graph.ofModel model) owner omitted payload) {edge : Edge} {record : Json}
    (hnests : (Graph.ofModel model).Nests owner payload edge record) :
    model.document.TakesNew (Graph.ofModel model) edge.target (some edge.reverse) record := by
  obtain ⟨field, hf, hedge, write, hwrite, hr⟩ := hnests
  have hfields : field ∈ owner.fields := Entity.mem_of_mem_relationFields hf
  have hrelation : field.isRelation = true := (List.mem_filter.mp hf).2
  cases h with
  | form form h =>
    obtain ⟨p, hp, hkey, haccepted⟩ := h.get? hwrite
    obtain ⟨other, hother, hs, hn⟩ := Entity.mem_propertiesOf.mp hp
    obtain rfl : other = field := hapart.field_eq ho hother hfields (hn.trans hkey)
    rw [Payload.ofField?, if_pos hrelation, hedge] at hs
    split at hs
    · cases hs
    · exact hd.takesNew_of_nested ho hf hedge hs haccepted hr
  | row h =>
    -- A row has value fields only, so that nothing is written through it.
    obtain ⟨p, hp, hkey, -⟩ := h.get? hwrite
    obtain ⟨other, hother, -, hn⟩ := Entity.mem_propertiesOf.mp hp
    have hvalues : other ∈ owner.valueFields := (List.mem_filter.mp hother).1
    obtain rfl : other = field :=
      hapart.field_eq ho (Entity.mem_of_mem_valueFields hvalues) hfields (hn.trans hkey)
    have hvalue := (List.mem_filter.mp hvalues).2
    simp [hrelation] at hvalue

/-- Then so do these, and on and on; and a record without a relation does not state it. -/
theorem DropsNothing.omits_of_written (hd : model.DropsNothing) (hapart : model.NamedApart) {owner : Entity}
    {payload : Json} {edge : Edge} {record : Json} (hw : (Graph.ofModel model).Written owner payload edge record)
    (ho : owner ∈ model.entities) {omitted : Option Field}
    (h : model.document.TakesNew (Graph.ofModel model) owner omitted payload) :
    ∃ entries, record = .object entries ∧ ∀ key part, Json.entry? entries key = some part →
      key ≠ edge.reverse.name ∧ ∀ field ∈ edge.target.valueFields,
        field.name ∈ Payload.impliedKeys (some edge.reverse) → key ≠ field.name := by
  -- On the way down every record is taken as a new one without the relation through which it is written.
  induction hw generalizing omitted with
  | direct hnests =>
    have htakes := hd.takesNew_of_nests hapart ho h hnests
    obtain ⟨field, hf, hedge, -⟩ := hnests
    obtain ⟨hback, -⟩ := hapart.exists_edge_back ho hf hedge
    obtain ⟨entries, rfl⟩ := htakes.exists_entries
    exact ⟨entries, rfl, fun key part => htakes.omits hapart (Graph.target_mem_of_edge? hedge) hback⟩
  | deeper hnests _ ih =>
    have htakes := hd.takesNew_of_nests hapart ho h hnests
    obtain ⟨field, -, hedge, -⟩ := hnests
    exact ih (Graph.target_mem_of_edge? hedge) htakes

/-- In a new record that the document accepts, no record that is written through a relation field, however deep it
stands, states the field that leads back or a value field that stores it. -/
theorem nested_create_omits_link (hv : model.validate = .ok ()) (hd : model.DropsNothing) {entity : Entity}
    (he : entity ∈ model.entities) {suffix : String} (hs : suffix = "CreateInput" ∨ suffix = "UncheckedCreateInput")
    {payload result : Json} (h : model.document.parse (Naming.ofEntity entity.name suffix) payload = .ok result)
    {edge : Edge} {record : Json} (hw : (Graph.ofModel model).Written entity payload edge record) :
    ∃ entries, record = .object entries ∧ ∀ key part, Json.entry? entries key = some part →
      key ≠ edge.reverse.name ∧ ∀ relation, edge.reverse.relation? = some relation →
        ∀ field ∈ edge.target.valueFields, field.name ∈ relation.storageKeys → key ≠ field.name := by
  have hinputs : ∀ x ∈ entity.createInputs (Graph.ofModel model), model.document.find? x.name = some x := fun x hx =>
    hd.find?_input (mem_inputs_of_entity he (by simp [entityInputs, hx]))
  have haccepted : ∀ x ∈ entity.createInputs (Graph.ofModel model),
      model.document.parse x.name payload = .ok result → model.document.Accepts x.schema payload := fun x hx hparse =>
    ((guarded_document model).accepts_ref_of_find? (hinputs x hx)).mp ⟨result, hparse⟩
  have htakes : model.document.TakesNew (Graph.ofModel model) entity none payload := by
    rcases hs with rfl | rfl
    · exact .form .checked (haccepted _ List.mem_cons_self h)
    · exact .form .unchecked (haccepted _ (List.mem_cons_of_mem _ List.mem_cons_self) h)
  obtain ⟨entries, hrecord, homits⟩ := hd.omits_of_written (namedApart_of_validate hv) hw he htakes
  refine ⟨entries, hrecord, fun key part hpart => ?_⟩
  obtain ⟨hlink, hstored⟩ := homits key part hpart
  refine ⟨hlink, fun relation hr field hf hkey => hstored field hf ?_⟩
  simpa [Payload.impliedKeys, hr] using hkey

theorem accepts_ref_creation {x : Declaration}
    (hx : x ∈ (NestedNames.ofEdge childrenEdge).creations (Graph.ofModel users) user.fields[3] childrenEdge)
    {value : Json} (h : users.document.Accepts x.schema value) : users.document.Accepts (.ref x.name) value := by
  have hfield : user.fields[3] ∈ user.relationFields := by decide
  have hfind := dropsNothing_users.find?_creation List.mem_cons_self hfield edge_children hx
  exact ((guarded_document users).accepts_ref_of_find? hfind).mpr h

/-- Children are written by writing one of them. -/
theorem accepts_children {record : Json}
    (h : users.document.Accepts ((NestedNames.ofEdge childrenEdge).roleRef "UncheckedCreate") record) :
    users.document.Accepts (.ref ((NestedNames.ofEdge childrenEdge).role "UncheckedCreateNestedMany" "Input"))
      (.object [("create", record)]) := by
  have hx : (NestedNames.ofEdge childrenEdge).createMany "UncheckedCreateNestedMany" true ∈
      (NestedNames.ofEdge childrenEdge).creations (Graph.ofModel users) user.fields[3] childrenEdge :=
    List.mem_append_right _ (List.mem_append_right _ (List.mem_cons_of_mem _ List.mem_cons_self))
  refine accepts_ref_creation hx (Document.accepts_strictObject.mpr ⟨_, rfl, by simp, ?_, ?_⟩)
  · intro p hp _
    simp only [NestedNames.several, NestedNames.bulk, List.map_cons, List.map_nil, List.mem_append, ↓reduceIte,
      List.mem_cons, List.not_mem_nil, or_false] at hp
    rcases hp with ((rfl | rfl) | rfl) | rfl <;> rfl
  · intro p hp part hpart
    obtain ⟨hkey, rfl⟩ : p.1 = "create" ∧ part = record := by simpa using Json.mem_of_entry_eq_some hpart
    simp only [NestedNames.several, NestedNames.bulk, List.map_cons, List.map_nil, List.mem_append, ↓reduceIte,
      List.mem_cons, List.not_mem_nil, or_false] at hp
    rcases hp with ((rfl | rfl) | rfl) | rfl
    · refine Document.accepts_optional.mpr ((guarded_document users).accepts_union.mpr ⟨_, ?_, h⟩)
      simp
    all_goals simp at hkey

/-- A new user states a key and a parent, and may write children; as a child it does not state the parent. -/
theorem properties_user : Payload.properties (Graph.ofModel users) .create .unchecked user none =
      [("id", .leaf .int), ("parentId", .leaf .int),
        ("children",
          (Schema.ref ((NestedNames.ofEdge childrenEdge).role "UncheckedCreateNestedMany" "Input")).optional)] ∧
    Payload.properties (Graph.ofModel users) .create .unchecked user (some childrenEdge.reverse) =
      [("id", .leaf .int),
        ("children",
          (Schema.ref ((NestedNames.ofEdge childrenEdge).role "UncheckedCreateNestedMany" "Input")).optional)] :=
  ⟨rfl, rfl⟩

theorem accepts_child {entries : List (String × Json)}
    (h : users.document.Accepts (.strictObject (Payload.properties (Graph.ofModel users) .create .unchecked user
      (some childrenEdge.reverse))) (.object entries)) :
    users.document.Accepts ((NestedNames.ofEdge childrenEdge).roleRef "UncheckedCreate") (.object entries) := by
  have hx : ⟨(NestedNames.ofEdge childrenEdge).role "UncheckedCreate" "Input", .strictObject (Payload.properties
      (Graph.ofModel users) .create .unchecked user (some childrenEdge.reverse))⟩ ∈
        (NestedNames.ofEdge childrenEdge).creations (Graph.ofModel users) user.fields[3] childrenEdge :=
    List.mem_append_left _ (List.mem_append_left _ (List.mem_cons_of_mem _ List.mem_cons_self))
  exact accepts_ref_creation hx h

/-- A user, a child below it and a grandchild. -/
def family : Json :=
  .object [("children", .object [("create", .object [
    ("children", .object [("create", .object [("id", .int 3)])]), ("id", .int 2)])]),
    ("id", .int 1), ("parentId", .int 0)]

theorem family_accepted :
    ∃ result, users.document.parse (Naming.ofEntity user.name "UncheckedCreateInput") family = .ok result := by
  have hint : ∀ n, users.document.Accepts (.leaf .int) (.int n) := fun n => Document.accepts_leaf.mpr rfl
  have hgrandchild : users.document.Accepts ((NestedNames.ofEdge childrenEdge).roleRef "UncheckedCreate")
      (.object [("id", .int 3)]) := by
    refine accepts_child (Document.accepts_strictObject.mpr ⟨_, rfl, ?_⟩)
    rw [properties_user.2]
    refine ⟨by simp, ⟨?_, ?_⟩⟩
    · simp [Json.entry?, Schema.acceptsAbsent]
    · simp [Json.entry?, hint]
  have hchild : users.document.Accepts ((NestedNames.ofEdge childrenEdge).roleRef "UncheckedCreate")
      (.object [("children", .object [("create", .object [("id", .int 3)])]), ("id", .int 2)]) := by
    refine accepts_child (Document.accepts_strictObject.mpr ⟨_, rfl, ?_⟩)
    rw [properties_user.2]
    refine ⟨by simp, ⟨?_, ?_⟩⟩
    · simp [Json.entry?]
    · simp [Json.entry?, hint, Document.accepts_optional, accepts_children hgrandchild]
  have huser : users.document.Accepts (.strictObject (Payload.properties (Graph.ofModel users) .create .unchecked user
      none)) family := by
    refine Document.accepts_strictObject.mpr ⟨_, rfl, ?_⟩
    rw [properties_user.1]
    refine ⟨by simp, ⟨?_, ?_⟩⟩
    · simp [Json.entry?]
    · simp [Json.entry?, hint, Document.accepts_optional, accepts_children hchild]
  have hinput : ⟨Naming.ofEntity user.name "UncheckedCreateInput", .strictObject (Payload.properties
      (Graph.ofModel users) .create .unchecked user none)⟩ ∈ users.entityInputs user := by
    simp [entityInputs, Entity.createInputs]
  have hfind := dropsNothing_users.find?_input (mem_inputs_of_entity List.mem_cons_self hinput)
  exact ((guarded_document users).accepts_ref_of_find? hfind).mpr huser

/-- The grandchild is written through the children of the child, and does not state its parent. -/
theorem family_omits_parent : users.validate = .ok () ∧ users.DropsNothing ∧
    (∃ result, users.document.parse (Naming.ofEntity user.name "UncheckedCreateInput") family = .ok result) ∧
    (Graph.ofModel users).Written user family childrenEdge (.object [("id", .int 3)]) ∧
    ∃ entries, Json.object [("id", .int 3)] = .object entries ∧ ∀ key part, Json.entry? entries key = some part →
      key ≠ "parent" ∧ key ≠ "parentId" := by
  obtain ⟨result, hresult⟩ := family_accepted
  have hfield : user.fields[3] ∈ user.relationFields := by decide
  have hchild : (Graph.ofModel users).Nests user family childrenEdge
      (.object [("children", .object [("create", .object [("id", .int 3)])]), ("id", .int 2)]) :=
    ⟨_, hfield, edge_children, _, rfl, .create rfl List.mem_cons_self⟩
  have hwritten : (Graph.ofModel users).Written user family childrenEdge (.object [("id", .int 3)]) :=
    .deeper hchild (.direct ⟨_, hfield, edge_children, _, rfl, .create rfl List.mem_cons_self⟩)
  obtain ⟨entries, hentries, homits⟩ := nested_create_omits_link validate_users dropsNothing_users
    (List.mem_cons_self (a := user)) (Or.inr rfl) hresult hwritten
  refine ⟨validate_users, dropsNothing_users, ⟨result, hresult⟩, hwritten, entries, hentries, fun key part hpart => ?_⟩
  obtain ⟨hparent, hstored⟩ := homits key part hpart
  have hkey : user.fields[1] ∈ user.valueFields := by decide
  exact ⟨hparent, hstored _ rfl _ hkey (by decide)⟩

end DataModel

end DataShapes
