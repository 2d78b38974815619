import DataShapes.Proofs.Model.Accepted
import DataShapes.Shapes.Query.Lookup

/-! # Constraints by their keys

The unique constraints of an entity are looked up by their keys. Those over several fields are kept unless their key is
taken by a constraint declared before them, so a key stands for the first constraint that was declared under it. -/

namespace DataShapes

/-! ### Adding constraints -/

namespace UniqueConstraint

/-- The keys of some constraints. -/
def keys (constraints : List UniqueConstraint) : List String := constraints.map (·.key)

theorem mem_keys_append {constraints others : List UniqueConstraint} {key : String} :
    key ∈ keys (constraints ++ others) ↔ key ∈ keys constraints ∨ key ∈ keys others := by
  rw [keys, List.map_append, List.mem_append, keys, keys]

theorem keys_ofCompound (declared : List CompoundKey) : keys (declared.map .ofCompound) = declared.map (·.lookupKey) :=
  List.map_map

theorem keys_ofField (fields : List Field) : keys (fields.map .ofField) = fields.map (·.name) := List.map_map

section
variable {constraints : List UniqueConstraint} {c x : UniqueConstraint}

theorem addNew_of_mem (h : c.key ∈ keys constraints) : addNew constraints c = constraints := by
  obtain ⟨x, hx, hkey⟩ := List.mem_map.mp h
  exact if_pos (List.any_eq_true.mpr ⟨x, hx, by simpa using hkey⟩)

theorem addNew_of_notMem (h : c.key ∉ keys constraints) : addNew constraints c = constraints ++ [c] := by
  refine if_neg fun hany => h ?_
  obtain ⟨x, hx, hkey⟩ := List.any_eq_true.mp hany
  exact List.mem_map.mpr ⟨x, hx, by simpa using hkey⟩

theorem mem_addNew : x ∈ addNew constraints c ↔ x ∈ constraints ∨ x = c ∧ c.key ∉ keys constraints := by
  by_cases h : c.key ∈ keys constraints
  · rw [addNew_of_mem h]
    simp [h]
  · rw [addNew_of_notMem h]
    simp [h]

theorem mem_keys_addNew {key : String} : key ∈ keys (addNew constraints c) ↔ key ∈ keys constraints ∨ key = c.key := by
  by_cases h : c.key ∈ keys constraints
  · rw [addNew_of_mem h, or_iff_left_of_imp]
    rintro rfl
    exact h
  · rw [addNew_of_notMem h]
    simp [keys]

theorem nodup_keys_addNew (h : (keys constraints).Nodup) : (keys (addNew constraints c)).Nodup := by
  by_cases hc : c.key ∈ keys constraints
  · rwa [addNew_of_mem hc]
  · rw [addNew_of_notMem hc, keys, List.map_append]
    refine List.nodup_append.mpr ⟨h, List.nodup_singleton _, fun key hkey other hother heq => hc ?_⟩
    obtain rfl : other = c.key := List.mem_singleton.mp hother
    exact heq ▸ hkey

end

section
variable {others constraints : List UniqueConstraint}

theorem nodup_keys_foldl (h : (keys constraints).Nodup) : (keys (others.foldl addNew constraints)).Nodup := by
  induction others generalizing constraints with
  | nil => exact h
  | cons c others ih => exact ih (nodup_keys_addNew h)

theorem mem_keys_foldl {key : String} :
    key ∈ keys (others.foldl addNew constraints) ↔ key ∈ keys constraints ∨ key ∈ keys others := by
  induction others generalizing constraints with
  | nil => simp [keys]
  | cons c others ih =>
    rw [List.foldl_cons, ih, mem_keys_addNew, or_assoc]
    simp [keys]

/-- Of further constraints those are kept whose key nothing before them has. -/
theorem mem_foldl {x : UniqueConstraint} : x ∈ others.foldl addNew constraints ↔
    x ∈ constraints ∨ ∃ before after, others = before ++ x :: after ∧ x.key ∉ keys (constraints ++ before) := by
  induction others generalizing constraints with
  | nil => simp
  | cons c others ih =>
    have hkeys : ∀ before key, key ∈ keys (addNew constraints c ++ before) ↔ key ∈ keys (constraints ++ c :: before) := by
      intro before key
      rw [mem_keys_append, mem_keys_append, mem_keys_addNew, or_assoc]
      simp [keys]
    rw [List.foldl_cons, ih, mem_addNew, or_assoc]
    refine or_congr_right ⟨?_, ?_⟩
    · rintro (⟨rfl, hnew⟩ | ⟨before, after, rfl, hnew⟩)
      · exact ⟨[], others, rfl, by rwa [List.append_nil]⟩
      · exact ⟨c :: before, after, rfl, fun hkey => hnew ((hkeys before x.key).mpr hkey)⟩
    · rintro ⟨before, after, hsplit, hnew⟩
      cases before with
      | nil =>
        cases hsplit
        exact Or.inl ⟨rfl, by rwa [List.append_nil] at hnew⟩
      | cons first before =>
        cases hsplit
        exact Or.inr ⟨before, after, rfl, fun hkey => hnew ((hkeys before x.key).mp hkey)⟩

/-- A key that is taken at some point stands for constraints that were there before. -/
theorem mem_of_mem_foldl {x : UniqueConstraint} {later : List UniqueConstraint}
    (hx : x ∈ (others ++ later).foldl addNew constraints) (htaken : x.key ∈ keys (constraints ++ others)) :
    x ∈ constraints ++ others := by
  rw [List.foldl_append, mem_foldl] at hx
  rcases hx with hx | ⟨before, -, -, hnew⟩
  · rcases mem_foldl.mp hx with hx | ⟨before, after, rfl, -⟩
    · exact List.mem_append_left _ hx
    · exact List.mem_append_right _ (List.mem_append_right _ List.mem_cons_self)
  · refine absurd ?_ hnew
    rw [mem_keys_append, mem_keys_foldl, ← mem_keys_append]
    exact Or.inl htaken

end

end UniqueConstraint

/-! ### The constraints of an entity -/

/-- The field identifies a record on its own. -/
def Field.IsKey (field : Field) : Prop := field.isId = true ∨ field.isUnique = true

instance (field : Field) : Decidable field.IsKey := inferInstanceAs (Decidable (_ ∨ _))

namespace Entity
variable {entity : Entity}

/-- The constraints of the primary key and of single fields. -/
def basicConstraints (entity : Entity) : List UniqueConstraint :=
  entity.primaryKey.toList.map .ofCompound ++ (entity.fields.filter (·.isId)).map .ofField ++
    (entity.fields.filter fun field => field.isUnique && !field.isId).map .ofField

/-- All constraints as they are declared, whether their keys are taken or not. -/
def declaredConstraints (entity : Entity) : List UniqueConstraint :=
  entity.basicConstraints ++ entity.compoundUniques.map .ofCompound

/-- No field that identifies a record on its own is named like the primary key. -/
def KeyApart (entity : Entity) : Prop :=
  ∀ key ∈ entity.primaryKey, ∀ field ∈ entity.fields, field.IsKey → field.name ≠ key.lookupKey

instance (entity : Entity) : Decidable entity.KeyApart :=
  inferInstanceAs (Decidable (∀ key ∈ entity.primaryKey, ∀ field ∈ entity.fields, _ → _))

theorem uniqueConstraints_eq : entity.uniqueConstraints =
    (entity.compoundUniques.map UniqueConstraint.ofCompound).foldl UniqueConstraint.addNew entity.basicConstraints := rfl

theorem mem_basicConstraints {c : UniqueConstraint} : c ∈ entity.basicConstraints ↔
    (∃ key ∈ entity.primaryKey, c = .ofCompound key) ∨ ∃ field ∈ entity.fields, field.IsKey ∧ c = .ofField field := by
  simp only [basicConstraints, List.mem_append, List.mem_map, List.mem_filter, Option.mem_toList, Bool.and_eq_true,
    Bool.not_eq_true', eq_comm (b := c), or_assoc, Option.mem_def]
  refine or_congr_right ⟨?_, ?_⟩
  · rintro (⟨field, ⟨hf, hid⟩, hc⟩ | ⟨field, ⟨hf, hunique, -⟩, hc⟩)
    · exact ⟨field, hf, Or.inl hid, hc⟩
    · exact ⟨field, hf, Or.inr hunique, hc⟩
  · rintro ⟨field, hf, hmarked, hc⟩
    cases hid : field.isId with
    | true => exact Or.inl ⟨field, ⟨hf, hid⟩, hc⟩
    | false => exact Or.inr ⟨field, ⟨hf, hmarked.resolve_left (by simp [hid]), hid⟩, hc⟩

/-- Every constraint was declared: on several fields, or on one. -/
theorem mem_uniqueConstraints {c : UniqueConstraint} (hc : c ∈ entity.uniqueConstraints) :
    (∃ key ∈ entity.compoundKeys, c = .ofCompound key) ∨ ∃ field ∈ entity.fields, c = .ofField field := by
  rw [uniqueConstraints_eq, UniqueConstraint.mem_foldl, mem_basicConstraints] at hc
  rcases hc with (⟨key, hk, rfl⟩ | ⟨field, hf, -, rfl⟩) | ⟨before, after, hsplit, -⟩
  · exact Or.inl ⟨key, List.mem_append_left _ (Option.mem_toList.mpr hk), rfl⟩
  · exact Or.inr ⟨field, hf, rfl⟩
  · have hmem : c ∈ entity.compoundUniques.map .ofCompound := hsplit ▸ List.mem_append_right _ List.mem_cons_self
    obtain ⟨key, hk, rfl⟩ := List.mem_map.mp hmem
    exact Or.inl ⟨key, List.mem_append_right _ hk, rfl⟩

theorem mem_uniqueConstraints_of_basic {c : UniqueConstraint} (hc : c ∈ entity.basicConstraints) :
    c ∈ entity.uniqueConstraints :=
  UniqueConstraint.mem_foldl.mpr (Or.inl hc)

/-- The keys of constraints are those under which some are declared. -/
theorem mem_keys_uniqueConstraints {key : String} :
    key ∈ UniqueConstraint.keys entity.uniqueConstraints ↔ key ∈ UniqueConstraint.keys entity.declaredConstraints := by
  rw [uniqueConstraints_eq, UniqueConstraint.mem_keys_foldl]
  simp [declaredConstraints, UniqueConstraint.keys]

/-- The names of fields apart, and the primary key apart from them, all keys are distinct. -/
theorem nodup_keys_uniqueConstraints (hn : entity.fieldNames.Nodup) (hapart : entity.KeyApart) :
    (UniqueConstraint.keys entity.uniqueConstraints).Nodup := by
  have hfields : ∀ marked : Field → Bool, ((entity.fields.filter marked).map (·.name)).Nodup := fun marked =>
    (List.filter_sublist.map _).nodup hn
  have hkeys : UniqueConstraint.keys entity.basicConstraints = entity.primaryKey.toList.map (·.lookupKey) ++
      ((entity.fields.filter (·.isId)).map (·.name) ++
        (entity.fields.filter fun field => field.isUnique && !field.isId).map (·.name)) := by
    rw [← UniqueConstraint.keys_ofCompound, ← UniqueConstraint.keys_ofField, ← UniqueConstraint.keys_ofField,
      ← List.append_assoc]
    simp only [UniqueConstraint.keys, basicConstraints, List.map_append]
  rw [uniqueConstraints_eq]
  refine UniqueConstraint.nodup_keys_foldl ?_
  rw [hkeys]
  refine List.nodup_append.mpr ⟨?_, List.nodup_append.mpr ⟨hfields _, hfields _, ?_⟩, ?_⟩
  · cases entity.primaryKey <;> simp
  · rintro name hid other hunique rfl
    obtain ⟨field, hf, rfl⟩ := List.mem_map.mp hid
    obtain ⟨other, ho, hname⟩ := List.mem_map.mp hunique
    rw [List.mem_filter] at hf ho
    obtain rfl : other = field := List.inj_on_of_nodup_map hn ho.1 hf.1 hname
    simp [hf.2] at ho
  · rintro key hkey name hname rfl
    obtain ⟨primary, hp, rfl⟩ := List.mem_map.mp hkey
    simp only [List.mem_append, List.mem_map, List.mem_filter, Bool.and_eq_true] at hname
    rcases hname with ⟨field, ⟨hf, hid⟩, hname⟩ | ⟨field, ⟨hf, hunique, -⟩, hname⟩
    · exact hapart primary (Option.mem_toList.mp hp) field hf (Or.inl hid) hname
    · exact hapart primary (Option.mem_toList.mp hp) field hf (Or.inr hunique) hname

/-- Constraints of one key are looked up without a choice. -/
theorem lookup_of_one_key {key : String} (hnodup : (UniqueConstraint.keys entity.uniqueConstraints).Nodup)
    (hdeclared : entity.declaredConstraints ≠ []) (hone : ∀ c ∈ entity.declaredConstraints, c.key = key) :
    ∃ c, entity.uniqueConstraints = [c] ∧ entity.lookup = entity.lookupBy c := by
  have hkeys : ∀ other, other ∈ UniqueConstraint.keys entity.uniqueConstraints ↔ other = key := by
    intro other
    rw [mem_keys_uniqueConstraints, UniqueConstraint.keys, List.mem_map]
    constructor
    · rintro ⟨c, hc, rfl⟩
      exact hone c hc
    · rintro rfl
      obtain ⟨c, hc⟩ := List.exists_mem_of_ne_nil _ hdeclared
      exact ⟨c, hc, hone c hc⟩
  have hsingle : UniqueConstraint.keys entity.uniqueConstraints = [key] := by
    refine List.perm_singleton.mp ((List.perm_ext_iff_of_nodup hnodup (List.nodup_singleton key)).mpr fun other => ?_)
    rw [hkeys, List.mem_singleton]
  obtain ⟨c, hc⟩ := List.length_eq_one_iff.mp ((List.length_map _).symm.trans (congrArg List.length hsingle))
  exact ⟨c, hc, by simp only [lookup, hc]⟩

end Entity

namespace DataModel
variable {model : DataModel}

/-- How the constraints of an entity are represented. The primary key and each field that identifies a record on its
own have entries with their own fields. So has a constraint over several fields, unless its key is taken by constraints
declared before it; then the key stands for these. No other keys occur. They are distinct if no identifying field is
named like the primary key, so that constraints of one key are looked up without a choice. -/
theorem constraints_represented (hv : model.validate = .ok ()) {entity : Entity} (he : entity ∈ model.entities) :
    (∀ key ∈ entity.primaryKey, .ofCompound key ∈ entity.uniqueConstraints) ∧
    (∀ field ∈ entity.fields, field.IsKey → .ofField field ∈ entity.uniqueConstraints) ∧
    (∀ before key after, entity.compoundUniques = before ++ key :: after →
      let earlier := entity.basicConstraints ++ before.map .ofCompound
      (key.lookupKey ∉ UniqueConstraint.keys earlier → .ofCompound key ∈ entity.uniqueConstraints) ∧
      (key.lookupKey ∈ UniqueConstraint.keys earlier →
        ∀ c ∈ entity.uniqueConstraints, c.key = key.lookupKey → c ∈ earlier)) ∧
    (∀ key, key ∈ UniqueConstraint.keys entity.uniqueConstraints ↔
      key ∈ UniqueConstraint.keys entity.declaredConstraints) ∧
    (entity.KeyApart → (UniqueConstraint.keys entity.uniqueConstraints).Nodup ∧
      ∀ key, entity.declaredConstraints ≠ [] → (∀ c ∈ entity.declaredConstraints, c.key = key) →
        ∃ c, entity.uniqueConstraints = [c] ∧ entity.lookup = entity.lookupBy c) := by
  have hn : entity.fieldNames.Nodup := (namedApart_of_validate hv).fields entity he
  refine ⟨fun key hk => ?_, fun field hf hmarked => ?_,
    fun before key after hsplit => ⟨fun hnew => ?_, fun htaken c hc hkey => ?_⟩,
    fun key => Entity.mem_keys_uniqueConstraints, fun hapart => ?_⟩
  · exact Entity.mem_uniqueConstraints_of_basic (Entity.mem_basicConstraints.mpr (Or.inl ⟨key, hk, rfl⟩))
  · exact Entity.mem_uniqueConstraints_of_basic (Entity.mem_basicConstraints.mpr (Or.inr ⟨field, hf, hmarked, rfl⟩))
  · rw [Entity.uniqueConstraints_eq, hsplit, List.map_append, List.map_cons]
    exact UniqueConstraint.mem_foldl.mpr (Or.inr ⟨_, _, rfl, hnew⟩)
  · rw [Entity.uniqueConstraints_eq, hsplit, List.map_append] at hc
    exact UniqueConstraint.mem_of_mem_foldl hc (hkey ▸ htaken)
  · have hnodup := Entity.nodup_keys_uniqueConstraints hn hapart
    exact ⟨hnodup, fun key => Entity.lookup_of_one_key hnodup⟩

/-- A booking has a code, and takes a room for a slot of a day; two constraints on it are of one name. -/
def booking : Entity :=
  let code := { Field.plain "code" (.scalar .string) with isUnique := true }
  ⟨"Booking", [code, .plain "room" (.scalar .int), .plain "day" (.scalar .int), .plain "slot" (.scalar .int)],
    some ⟨none, ["room", "day", "slot"]⟩, [⟨some "visit", ["day", "slot"]⟩, ⟨some "visit", ["room", "slot"]⟩]⟩

def bookings : DataModel := ⟨[booking], []⟩

/-- The name stands for the first of the two, and all keys are distinct. -/
theorem booking_represented : bookings.validate = .ok () ∧ booking ∈ bookings.entities ∧ booking.KeyApart ∧
    ⟨"room_day_slot", ["room", "day", "slot"]⟩ ∈ booking.uniqueConstraints ∧
    ⟨"code", ["code"]⟩ ∈ booking.uniqueConstraints ∧
    ⟨"visit", ["day", "slot"]⟩ ∈ booking.uniqueConstraints ∧
    (∀ c ∈ booking.uniqueConstraints, c.key = "visit" →
      c ∈ booking.basicConstraints ++ [⟨"visit", ["day", "slot"]⟩]) ∧
    (UniqueConstraint.keys booking.uniqueConstraints).Nodup := by
  have hvalid : bookings.validate = .ok () := by decide
  have hbooking : booking ∈ bookings.entities := List.mem_cons_self
  have hapart : booking.KeyApart := by decide
  obtain ⟨hprimary, hfields, hcompound, -, hkeys⟩ := constraints_represented hvalid hbooking
  obtain ⟨hfirst, -⟩ := hcompound [] _ _ rfl
  obtain ⟨-, hsecond⟩ := hcompound [⟨some "visit", ["day", "slot"]⟩] _ [] rfl
  exact ⟨hvalid, hbooking, hapart, hprimary ⟨none, ["room", "day", "slot"]⟩ rfl,
    hfields booking.fields[0] (List.getElem_mem _) (by decide), hfirst (by decide), hsecond (by decide), (hkeys hapart).1⟩

/-- A player of a team is found by the own number, and by pairs of fields whose names run together. -/
def player : Entity :=
  let id := { Field.plain "id" (.scalar .int) with isId := true }
  ⟨"Player", [id, .plain "team" (.scalar .int), .plain "user_id" (.scalar .int), .plain "team_user" (.scalar .int)],
    some ⟨none, ["id"]⟩, [⟨none, ["team", "user_id"]⟩, ⟨none, ["team_user", "id"]⟩]⟩

def players : DataModel := ⟨[player], []⟩

/-- The number is a key twice, once as the primary key and once as a field, and the second pair is not represented. -/
theorem player_not_represented : players.validate = .ok () ∧ player ∈ players.entities ∧
    ¬(UniqueConstraint.keys player.uniqueConstraints).Nodup ∧
    ∃ key ∈ player.compoundUniques, ∀ c ∈ player.uniqueConstraints, c.fields ≠ key.fields := by
  decide

end DataModel

end DataShapes
