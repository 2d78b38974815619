import DataShapes.Proofs.Acceptance.Conditions
import DataShapes.Proofs.Generation.WiderWrites

/-! # What lookups take

A lookup takes objects with one key, the key of a unique constraint, under which stand values for the fields of that
constraint: an object with just these fields if there are several, and else the one value. So no lookup asks for two
constraints at once, and every constraint can be asked for. -/

namespace DataShapes

namespace Json

/-- These are the keys of the entries, and there are no others. -/
def HasKeys (entries : List (String × Json)) (keys : List String) : Prop :=
  ∀ key, key ∈ entries.map (·.1) ↔ key ∈ keys

theorem mem_keys_iff {entries : List (String × Json)} {key : String} :
    key ∈ entries.map (·.1) ↔ ∃ part, entry? entries key = some part := by
  rw [← Option.isSome_iff_exists, Option.isSome_iff_ne_none, ne_eq, entry?_eq_none_iff]
  simp

end Json

/-! ### What identifies a record -/

namespace Lookup
variable {model : DataModel} {entity : Entity}

/-- A value of the field of a name. A relation field holds no values, and takes anything. -/
def Admits (model : DataModel) (entity : Entity) (name : String) (part : Json) : Prop :=
  ∀ field ∈ entity.fields, field.name = name → ∀ schema, field.value? = some schema →
    model.document.Accepts schema part

/-- Values for the fields of a constraint. -/
inductive Values (model : DataModel) (entity : Entity) (c : UniqueConstraint) : Json → Prop
  /-- An object of just these fields, if there are several. -/
  | compound {entries : List (String × Json)} : c.isCompound = true → Json.HasKeys entries c.fields →
    (∀ name part, Json.entry? entries name = some part → Admits model entity name part) →
    Values model entity c (.object entries)
  /-- A value of the only field. -/
  | single {name : String} {part : Json} : c.fields = [name] → Admits model entity name part →
    Values model entity c part
  /-- Anything, if the constraint lists no field. -/
  | unlisted {part : Json} : c.fields = [] → Values model entity c part

/-- The value identifies a record of the entity, by exactly one of its constraints. Without constraints it is empty. -/
inductive Identifies (model : DataModel) (entity : Entity) : Json → Prop
  | byConstraint {c : UniqueConstraint} {entries : List (String × Json)} {part : Json} :
    c ∈ entity.uniqueConstraints → Json.HasKeys entries [c.key] → Json.entry? entries c.key = some part →
    Values model entity c part → Identifies model entity (.object entries)
  | empty : entity.uniqueConstraints = [] → Identifies model entity (.object [])

theorem values_compound_iff {c : UniqueConstraint} (hc : c.isCompound = true) {part : Json} :
    Values model entity c part ↔ ∃ entries, part = .object entries ∧ Json.HasKeys entries c.fields ∧
      ∀ name rest, Json.entry? entries name = some rest → Admits model entity name rest := by
  constructor
  · intro h
    cases h with
    | compound _ hkeys hparts => exact ⟨_, rfl, hkeys, hparts⟩
    | single hfields | unlisted hfields => simp [UniqueConstraint.isCompound, hfields] at hc
  · rintro ⟨entries, rfl, hkeys, hparts⟩
    exact .compound hc hkeys hparts

theorem values_single_iff {c : UniqueConstraint} {name : String} (hc : c.fields = [name]) {part : Json} :
    Values model entity c part ↔ Admits model entity name part := by
  constructor
  · intro h
    cases h with
    | compound hmany => simp [UniqueConstraint.isCompound, hc] at hmany
    | single hfields hpart =>
      obtain rfl : name = _ := by simpa [hc] using hfields
      exact hpart
    | unlisted hfields => simp [hc] at hfields
  · exact .single hc

theorem identifies_iff {value : Json} : Identifies model entity value ↔
    (entity.uniqueConstraints = [] ∧ value = .object []) ∨
    ∃ c ∈ entity.uniqueConstraints, ∃ entries, value = .object entries ∧ Json.HasKeys entries [c.key] ∧
      ∀ part, Json.entry? entries c.key = some part → Values model entity c part := by
  constructor
  · intro h
    cases h with
    | @byConstraint c entries part hc hkeys hpart hvalues =>
      refine Or.inr ⟨c, hc, entries, rfl, hkeys, fun other hother => ?_⟩
      obtain rfl := Option.some.inj (hpart.symm.trans hother)
      exact hvalues
    | empty hnone => exact Or.inl ⟨hnone, rfl⟩
  · rintro (⟨hnone, rfl⟩ | ⟨c, hc, entries, rfl, hkeys, hparts⟩)
    · exact .empty hnone
    · obtain ⟨part, hpart⟩ := Json.mem_keys_iff.mp ((hkeys c.key).mpr List.mem_cons_self)
      exact .byConstraint hc hkeys hpart (hparts part hpart)

end Lookup

/-! ### Lookups as schemas -/

namespace Document
variable {d : Document} {value : Json}

/-- A strict object of which no property may be left out has just these keys. -/
theorem accepts_strictObject_of_required {keys : List String} {schemaOf : String → Schema}
    (hmust : ∀ key ∈ keys, (schemaOf key).acceptsAbsent = false) :
    d.Accepts (.strictObject (keys.map fun key => (key, schemaOf key))) value ↔
      ∃ entries, value = .object entries ∧ Json.HasKeys entries keys ∧
        ∀ key part, Json.entry? entries key = some part → d.Accepts (schemaOf key) part := by
  have hnames : (keys.map fun key => (key, schemaOf key)).map (·.1) = keys := by
    rw [List.map_map]
    exact List.map_id keys
  rw [accepts_strictObject, hnames]
  refine exists_congr fun entries => and_congr_right fun _ => ⟨fun ⟨hstrict, hfits⟩ => ?_, fun ⟨hkeys, hparts⟩ => ?_⟩
  · have hkeys : Json.HasKeys entries keys := by
      refine fun key => ⟨fun hkey => ?_, fun hkey => Json.mem_keys_iff.mpr ?_⟩
      · obtain ⟨e, he, rfl⟩ := List.mem_map.mp hkey
        exact hstrict e he
      · cases hpart : Json.entry? entries key with
        | some part => exact ⟨part, rfl⟩
        | none =>
          have habsent := hfits.absent (key, schemaOf key) (List.mem_map.mpr ⟨key, hkey, rfl⟩) hpart
          rw [hmust key hkey] at habsent
          cases habsent
    refine ⟨hkeys, fun key part hpart => ?_⟩
    have hkey : key ∈ keys := (hkeys key).mp (Json.mem_keys_iff.mpr ⟨part, hpart⟩)
    exact hfits.present (key, schemaOf key) (List.mem_map.mpr ⟨key, hkey, rfl⟩) part hpart
  · refine ⟨fun e he => (hkeys e.1).mp (List.mem_map_of_mem he), fun p hp hnone => ?_, fun p hp part hpart => ?_⟩
    · obtain ⟨key, hkey, rfl⟩ := List.mem_map.mp hp
      obtain ⟨part, hpart⟩ := Json.mem_keys_iff.mp ((hkeys key).mpr hkey)
      rw [hnone] at hpart
      cases hpart
    · obtain ⟨key, -, rfl⟩ := List.mem_map.mp hp
      exact hparts key part hpart

/-- The empty object is all that fits no properties. -/
theorem accepts_strictObject_nil : d.Accepts (.strictObject []) value ↔ value = .object [] := by
  rw [accepts_strictObject]
  constructor
  · rintro ⟨entries, rfl, hstrict, -⟩
    rw [List.eq_nil_iff_forall_not_mem.mpr fun e he => List.not_mem_nil (hstrict e he)]
  · rintro rfl
    exact ⟨[], rfl, by simp, by simp, by simp⟩

end Document

namespace Entity
variable {entity : Entity}

theorem acceptsAbsent_valueOf (name : String) : (entity.valueOf name).acceptsAbsent = false := by
  unfold valueOf
  cases hv : (entity.field? name).bind (·.value?) with
  | none => rfl
  | some value =>
    obtain ⟨field, -, hv⟩ := Option.bind_eq_some_iff.mp hv
    exact Field.acceptsAbsent_value? hv

theorem acceptsAbsent_constraintValue (c : UniqueConstraint) : (entity.constraintValue c).acceptsAbsent = false := by
  unfold constraintValue
  split
  · rfl
  · cases c.fields.head? with
    | none => rfl
    | some name => exact acceptsAbsent_valueOf name

end Entity

namespace DataModel
variable {model : DataModel} {entity : Entity}

/-- What a lookup takes under the name of a field are the values of the field. -/
theorem accepts_valueOf_iff (hn : entity.fieldNames.Nodup) {name : String} {part : Json} :
    model.document.Accepts (entity.valueOf name) part ↔ Lookup.Admits model entity name part := by
  unfold Entity.valueOf Lookup.Admits
  cases hfield : entity.field? name with
  | none =>
    refine iff_of_true (Document.accepts_leaf.mpr rfl) fun field hf hname => ?_
    have hother := List.find?_eq_none.mp hfield field hf
    simp [hname] at hother
  | some field =>
    obtain ⟨hf, rfl⟩ := Entity.mem_of_field? hfield
    have honly : ∀ other ∈ entity.fields, other.name = field.name → other = field := fun other hother hname =>
      List.inj_on_of_nodup_map hn hother hf hname
    rw [Option.bind_some]
    constructor
    · rintro haccepted other hother hname schema hs
      obtain rfl := honly other hother hname
      rwa [hs] at haccepted
    · intro hadmits
      cases hs : field.value? with
      | none => exact Document.accepts_leaf.mpr rfl
      | some schema => exact hadmits field hf rfl schema hs

theorem admits_of_leaf (hn : entity.fieldNames.Nodup) {name : String} {part : Json} {l : Leaf}
    (hl : entity.valueOf name = .leaf l) (h : l.admits part = true) : Lookup.Admits model entity name part := by
  rw [← accepts_valueOf_iff hn, hl]
  exact Document.accepts_leaf.mpr h

theorem accepts_constraintValue_iff (hn : entity.fieldNames.Nodup) {c : UniqueConstraint} {part : Json} :
    model.document.Accepts (entity.constraintValue c) part ↔ Lookup.Values model entity c part := by
  unfold Entity.constraintValue
  split
  · next hmany =>
    rw [Lookup.values_compound_iff hmany,
      Document.accepts_strictObject_of_required fun name _ => Entity.acceptsAbsent_valueOf name]
    simp only [accepts_valueOf_iff hn]
  · next hmany =>
    cases hfields : c.fields with
    | nil => exact iff_of_true (Document.accepts_leaf.mpr rfl) (.unlisted hfields)
    | cons name others =>
      obtain rfl : others = [] := by simpa [UniqueConstraint.isCompound, hfields] using hmany
      rw [Lookup.values_single_iff hfields]
      exact accepts_valueOf_iff hn

theorem accepts_lookupBy_iff (hn : entity.fieldNames.Nodup) {c : UniqueConstraint} {value : Json} :
    model.document.Accepts (entity.lookupBy c) value ↔ ∃ entries, value = .object entries ∧
      Json.HasKeys entries [c.key] ∧ ∀ part, Json.entry? entries c.key = some part → Lookup.Values model entity c part := by
  have hshape : entity.lookupBy c = .strictObject ([c.key].map fun key => (key, entity.constraintValue c)) := rfl
  rw [hshape, Document.accepts_strictObject_of_required fun _ _ => Entity.acceptsAbsent_constraintValue c]
  simp only [accepts_constraintValue_iff hn]
  refine exists_congr fun entries => and_congr_right fun _ => and_congr_right fun hkeys =>
    ⟨fun h => h c.key, fun h key part hpart => ?_⟩
  obtain rfl : key = c.key := by simpa using (hkeys key).mp (Json.mem_keys_iff.mpr ⟨part, hpart⟩)
  exact h part hpart

/-- A lookup takes what the lookup by some constraint takes. -/
theorem accepts_lookup_iff {value : Json} : model.document.Accepts entity.lookup value ↔
    (entity.uniqueConstraints = [] ∧ value = .object []) ∨
      ∃ c ∈ entity.uniqueConstraints, model.document.Accepts (entity.lookupBy c) value := by
  unfold Entity.lookup
  split
  · next hnone => simp [hnone, Document.accepts_strictObject_nil]
  · next c hone => simp [hone]
  · next hsome _ =>
    have hne : entity.uniqueConstraints ≠ [] := hsome
    simp [hne, (guarded_document model).accepts_union]

/-- What a lookup accepts is what identifies a record by one unique constraint. -/
theorem lookup_accepts_iff (hv : model.validate = .ok ()) (hd : model.DropsNothing) (he : entity ∈ model.entities)
    (value : Json) : (∃ result, model.document.parse (Naming.ofEntity entity.name "WhereUniqueInput") value = .ok result) ↔
      Lookup.Identifies model entity value := by
  have hn : entity.fieldNames.Nodup := (namedApart_of_validate hv).fields entity he
  have hinput : entity.whereUnique ∈ model.inputs := mem_inputs_of_entity he (by simp [entityInputs, queryDeclarations])
  have hfind : model.document.find? (Naming.ofEntity entity.name "WhereUniqueInput") = some entity.whereUnique :=
    hd.find?_input hinput
  have hparse : (∃ result, model.document.parse (Naming.ofEntity entity.name "WhereUniqueInput") value = .ok result) ↔
      model.document.Accepts entity.lookup value :=
    (guarded_document model).accepts_ref_of_find? hfind
  rw [hparse, accepts_lookup_iff, Lookup.identifies_iff]
  simp only [accepts_lookupBy_iff hn]

/-- A seat has its place in a hall, and a ticket for it. -/
def seat : Entity :=
  let ticket := { Field.plain "ticket" (.scalar .string) with isUnique := true }
  ⟨"Seat", [.plain "hall" (.scalar .string), .plain "number" (.scalar .int), ticket], some ⟨none, ["hall", "number"]⟩, []⟩

def seats : DataModel := ⟨[seat], []⟩

theorem dropsNothing_seats : seats.DropsNothing := by decide +kernel

/-- A seat is found by its place or by its ticket, but not by both at once. -/
theorem seat_identified :
    let finds := fun entries =>
      ∃ result, seats.document.parse (Naming.ofEntity seat.name "WhereUniqueInput") (.object entries) = .ok result
    let place := ("hall_number", Json.object [("hall", .string "A"), ("number", .int 7)])
    let ticket := ("ticket", Json.string "A-7")
    seats.validate = .ok () ∧ seats.DropsNothing ∧ seat ∈ seats.entities ∧
      finds [place] ∧ finds [ticket] ∧ ¬finds [place, ticket] := by
  intro finds place ticket
  have hvalid : seats.validate = .ok () := by decide
  have hseat : seat ∈ seats.entities := List.mem_cons_self
  have hn : seat.fieldNames.Nodup := by decide
  have hfinds : ∀ entries, finds entries ↔ Lookup.Identifies seats seat (.object entries) := fun entries =>
    lookup_accepts_iff hvalid dropsNothing_seats hseat (.object entries)
  have hconstraints : seat.uniqueConstraints = [⟨"hall_number", ["hall", "number"]⟩, ⟨"ticket", ["ticket"]⟩] := by decide
  have hhall : Lookup.Admits seats seat "hall" (.string "A") :=
    admits_of_leaf hn rfl rfl
  have hnumber : Lookup.Admits seats seat "number" (.int 7) :=
    admits_of_leaf hn rfl rfl
  have hticket : Lookup.Admits seats seat "ticket" (.string "A-7") :=
    admits_of_leaf hn rfl rfl
  refine ⟨hvalid, dropsNothing_seats, hseat, (hfinds _).mpr ?_, (hfinds _).mpr ?_, fun h => ?_⟩
  · have hvalues : Lookup.Values seats seat ⟨"hall_number", ["hall", "number"]⟩ place.2 := by
      refine .compound rfl (fun key => Iff.rfl) fun name part hpart => ?_
      have hmem := Json.mem_of_entry_eq_some hpart
      simp only [List.mem_cons, List.not_mem_nil, or_false, Prod.mk.injEq] at hmem
      rcases hmem with ⟨rfl, rfl⟩ | ⟨rfl, rfl⟩
      · exact hhall
      · exact hnumber
    exact .byConstraint (hconstraints ▸ List.mem_cons_self) (fun key => Iff.rfl) rfl hvalues
  · have hvalues : Lookup.Values seats seat ⟨"ticket", ["ticket"]⟩ ticket.2 := .single rfl hticket
    exact .byConstraint (hconstraints ▸ List.mem_cons_of_mem _ List.mem_cons_self) (fun key => Iff.rfl) rfl hvalues
  · cases (hfinds _).mp h with
    | @byConstraint c _ part hc hkeys hpart hvalues =>
      -- Both keys would be the key of the one constraint.
      have hplace : "hall_number" = c.key := List.mem_singleton.mp ((hkeys _).mp List.mem_cons_self)
      have hticket : "ticket" = c.key :=
        List.mem_singleton.mp ((hkeys _).mp (List.mem_cons_of_mem _ List.mem_cons_self))
      exact absurd (hplace.trans hticket.symm) (by decide)

end DataModel

end DataShapes
