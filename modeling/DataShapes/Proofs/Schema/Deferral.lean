import DataShapes.Proofs.Schema.References
import DataShapes.Schema.Deferral

/-! # Where deferrals stand

Placing a schema in a scope puts off exactly what has to be: outside the parts put off there are only
references to what exists, each part put off refers to something that does not exist yet, and parts put
off do not nest. Apart from the marks the schema stays the same. -/

namespace DataShapes

namespace Placed

mutual

/-- The names that are looked up when the schema is evaluated: those outside the parts put off. -/
def eager : Placed → List String
  | .leaf _ => []
  | .ref name => [name]
  | .enumeration _ => []
  | .object properties _ => eagerOfProperties properties
  | .union arms => eagerOfArms arms
  | .array item => eager item
  | .record item => eager item
  | .optional inner => eager inner
  | .nullable inner => eager inner
  | .nullish inner => eager inner
  | .deferred _ => []

def eagerOfArms : List Placed → List String
  | [] => []
  | arm :: arms => eager arm ++ eagerOfArms arms

def eagerOfProperties : List (String × Placed) → List String
  | [] => []
  | (_, placed) :: properties => eager placed ++ eagerOfProperties properties

end

mutual

/-- The parts put off, also those inside other parts put off. -/
def deferrals : Placed → List Placed
  | .leaf _ => []
  | .ref _ => []
  | .enumeration _ => []
  | .object properties _ => deferralsOfProperties properties
  | .union arms => deferralsOfArms arms
  | .array item => deferrals item
  | .record item => deferrals item
  | .optional inner => deferrals inner
  | .nullable inner => deferrals inner
  | .nullish inner => deferrals inner
  | .deferred inner => inner :: deferrals inner

def deferralsOfArms : List Placed → List Placed
  | [] => []
  | arm :: arms => deferrals arm ++ deferralsOfArms arms

def deferralsOfProperties : List (String × Placed) → List Placed
  | [] => []
  | (_, placed) :: properties => deferrals placed ++ deferralsOfProperties properties

end

/-- References, unions, arrays and records may be put off; objects are not, only their properties, and
what may be left out or `null` is so outside the part put off. -/
def isDeferrable : Placed → Bool
  | .ref _ | .union _ | .array _ | .record _ => true
  | _ => false

/-! ### Lists of parts -/

theorem eagerOfArms_eq (arms : List Placed) : eagerOfArms arms = arms.flatMap eager := by
  induction arms with
  | nil => rfl
  | cons arm arms ih => rw [eagerOfArms, ih, List.flatMap_cons]

theorem eagerOfProperties_eq (properties : List (String × Placed)) :
    eagerOfProperties properties = properties.flatMap (eager ·.2) := by
  induction properties with
  | nil => rfl
  | cons p properties ih => rw [eagerOfProperties, ih, List.flatMap_cons]

theorem deferralsOfArms_eq (arms : List Placed) : deferralsOfArms arms = arms.flatMap deferrals := by
  induction arms with
  | nil => rfl
  | cons arm arms ih => rw [deferralsOfArms, ih, List.flatMap_cons]

theorem deferralsOfProperties_eq (properties : List (String × Placed)) :
    deferralsOfProperties properties = properties.flatMap (deferrals ·.2) := by
  induction properties with
  | nil => rfl
  | cons p properties ih => rw [deferralsOfProperties, ih, List.flatMap_cons]

theorem eraseArms_eq (arms : List Placed) : eraseArms arms = arms.map erase := by
  induction arms with
  | nil => rfl
  | cons arm arms ih => rw [eraseArms, ih, List.map_cons]

theorem eraseProperties_eq (properties : List (String × Placed)) :
    eraseProperties properties = properties.map fun p => (p.1, p.2.erase) := by
  induction properties with
  | nil => rfl
  | cons p properties ih => rw [eraseProperties, ih, List.map_cons]

theorem ofArms_eq (arms : List Schema) : ofArms arms = arms.map ofSchema := by
  induction arms with
  | nil => rfl
  | cons arm arms ih => rw [ofArms, ih, List.map_cons]

theorem ofProperties_eq (properties : List (String × Schema)) :
    ofProperties properties = properties.map fun p => (p.1, ofSchema p.2) := by
  induction properties with
  | nil => rfl
  | cons p properties ih => rw [ofProperties, ih, List.map_cons]

/-! ### Schemas of which nothing is put off -/

@[simp] theorem deferrals_ofSchema (schema : Schema) : (ofSchema schema).deferrals = [] := by
  induction schema with
  | leaf | enumeration | ref => rfl
  | object properties strict ih =>
    rw [ofSchema, deferrals, ofProperties_eq, deferralsOfProperties_eq, List.flatMap_map,
      List.flatMap_eq_nil_iff]
    exact ih
  | union arms ih =>
    rw [ofSchema, deferrals, ofArms_eq, deferralsOfArms_eq, List.flatMap_map, List.flatMap_eq_nil_iff]
    exact ih
  | array item ih | record item ih | optional inner ih | nullable inner ih | nullish inner ih =>
    rw [ofSchema, deferrals, ih]

@[simp] theorem erase_ofSchema (schema : Schema) : (ofSchema schema).erase = schema := by
  induction schema with
  | leaf | enumeration | ref => rfl
  | object properties strict ih =>
    have h : (properties.map fun p => (p.1, (ofSchema p.2).erase)) = properties.map id :=
      List.map_congr_left fun p hp => Prod.ext rfl (ih p hp)
    rw [ofSchema, erase, ofProperties_eq, eraseProperties_eq, List.map_map]
    exact congrArg (Schema.object · strict) (h.trans (List.map_id _))
  | union arms ih =>
    have h : (arms.map fun arm => (ofSchema arm).erase) = arms.map id := List.map_congr_left ih
    rw [ofSchema, erase, ofArms_eq, eraseArms_eq, List.map_map]
    exact congrArg Schema.union (h.trans (List.map_id _))
  | array item ih | record item ih | optional inner ih | nullable inner ih | nullish inner ih =>
    rw [ofSchema, erase, ih]

end Placed

namespace Scope
variable {scope : Scope}

/-! ### Looking ahead -/

theorem looksAhead_iff {schema : Schema} :
    scope.looksAhead schema = true ↔ ∃ name ∈ schema.references, scope.isForward name = true := by
  simp [looksAhead]

theorem looksAhead_object {properties : List (String × Schema)} {strict : Bool} :
    scope.looksAhead (.object properties strict) = true ↔ ∃ p ∈ properties, scope.looksAhead p.2 = true := by
  simp only [looksAhead_iff, Schema.references, Schema.mem_referencesOfProperties]
  constructor
  · rintro ⟨name, ⟨p, hp, hn⟩, hf⟩
    exact ⟨p, hp, name, hn, hf⟩
  · rintro ⟨p, hp, name, hn, hf⟩
    exact ⟨name, ⟨p, hp, hn⟩, hf⟩

theorem looksAhead_union {arms : List Schema} :
    scope.looksAhead (.union arms) = true ↔ ∃ arm ∈ arms, scope.looksAhead arm = true := by
  simp only [looksAhead_iff, Schema.references, Schema.mem_referencesOfArms]
  constructor
  · rintro ⟨name, ⟨arm, ha, hn⟩, hf⟩
    exact ⟨arm, ha, name, hn, hf⟩
  · rintro ⟨arm, ha, name, hn, hf⟩
    exact ⟨name, ⟨arm, ha, hn⟩, hf⟩

theorem looksAhead_ref {name : String} : scope.looksAhead (.ref name) = scope.isForward name := by
  simp [looksAhead, Schema.references]

/-! ### Placing -/

theorem placeArms_eq (arms : List Schema) : scope.placeArms arms = arms.map scope.place := by
  induction arms with
  | nil => rfl
  | cons arm arms ih => rw [placeArms, ih, List.map_cons]

theorem placeProperties_eq (properties : List (String × Schema)) :
    scope.placeProperties properties = properties.map fun p => (p.1, scope.place p.2) := by
  induction properties with
  | nil => rfl
  | cons p properties ih => rw [placeProperties, ih, List.map_cons]

/-- Where nothing looks ahead, nothing is put off. -/
theorem place_eq_ofSchema {schema : Schema} (h : ¬ scope.looksAhead schema = true) :
    scope.place schema = .ofSchema schema := by
  induction schema with
  | leaf | enumeration => rfl
  | ref name => rw [place, if_neg (looksAhead_ref ▸ h), Placed.ofSchema]
  | object properties strict ih =>
    rw [place, Placed.ofSchema, placeProperties_eq, Placed.ofProperties_eq]
    refine congrArg (Placed.object · strict) (List.map_congr_left fun p hp => ?_)
    rw [ih p hp fun ha => h (looksAhead_object.mpr ⟨p, hp, ha⟩)]
  | union arms ih =>
    rw [place, if_neg h, Placed.ofSchema, placeArms_eq, Placed.ofArms_eq]
    refine congrArg Placed.union (List.map_congr_left fun arm ha => ?_)
    exact ih arm ha fun hl => h (looksAhead_union.mpr ⟨arm, ha, hl⟩)
  | array item ih | record item ih =>
    rw [place, if_neg (by exact h), ih (by exact h), Placed.ofSchema]
  | optional inner ih | nullable inner ih | nullish inner ih =>
    rw [place, ih (by exact h), Placed.ofSchema]

/-- Without its marks a placed schema is the schema. -/
theorem erase_place (schema : Schema) : (scope.place schema).erase = schema := by
  induction schema with
  | leaf | enumeration => rfl
  | ref name =>
    rw [place]
    split <;> rfl
  | object properties strict ih =>
    have h : (properties.map fun p => (p.1, (scope.place p.2).erase)) = properties.map id :=
      List.map_congr_left fun p hp => Prod.ext rfl (ih p hp)
    rw [place, Placed.erase, placeProperties_eq, Placed.eraseProperties_eq, List.map_map]
    exact congrArg (Schema.object · strict) (h.trans (List.map_id _))
  | union arms ih =>
    have h : (arms.map fun arm => (scope.place arm).erase) = arms.map id := List.map_congr_left ih
    rw [place]
    split
    · rw [Placed.erase, Placed.erase_ofSchema]
    · rw [Placed.erase, placeArms_eq, Placed.eraseArms_eq, List.map_map]
      exact congrArg Schema.union (h.trans (List.map_id _))
  | array item ih | record item ih =>
    rw [place]
    split
    · rw [Placed.erase, Placed.erase_ofSchema]
    · rw [Placed.erase, ih]
  | optional inner ih | nullable inner ih | nullish inner ih => rw [place, Placed.erase, ih]

/-- Outside the parts put off there are only references to what exists. -/
theorem isForward_of_mem_eager {schema : Schema} {name : String} (h : name ∈ (scope.place schema).eager) :
    scope.isForward name = false := by
  induction schema with
  | leaf | enumeration => simp [place, Placed.eager] at h
  | ref other =>
    rw [place] at h
    split at h
    · simp [Placed.eager] at h
    · next hother =>
      obtain rfl : name = other := by simpa [Placed.eager] using h
      simpa using hother
  | object properties strict ih =>
    rw [place, Placed.eager, placeProperties_eq, Placed.eagerOfProperties_eq, List.flatMap_map] at h
    obtain ⟨p, hp, h⟩ := List.mem_flatMap.mp h
    exact ih p hp h
  | union arms ih =>
    rw [place] at h
    split at h
    · simp [Placed.eager] at h
    · rw [Placed.eager, placeArms_eq, Placed.eagerOfArms_eq, List.flatMap_map] at h
      obtain ⟨arm, ha, h⟩ := List.mem_flatMap.mp h
      exact ih arm ha h
  | array item ih | record item ih =>
    rw [place] at h
    split at h
    · simp [Placed.eager] at h
    · exact ih (by simpa [Placed.eager] using h)
  | optional inner ih | nullable inner ih | nullish inner ih =>
    exact ih (by simpa [place, Placed.eager] using h)

/-- What is put off is a whole part of the schema that may be put off and looks ahead. -/
theorem exists_of_mem_deferrals {schema : Schema} {inner : Placed} (h : inner ∈ (scope.place schema).deferrals) :
    ∃ part, inner = .ofSchema part ∧ inner.isDeferrable = true ∧ scope.looksAhead part = true := by
  induction schema with
  | leaf | enumeration => simp [place, Placed.deferrals] at h
  | ref name =>
    rw [place] at h
    split at h
    · next hn =>
      obtain rfl : inner = .ref name := by simpa [Placed.deferrals] using h
      exact ⟨.ref name, rfl, rfl, looksAhead_ref.trans hn⟩
    · simp [Placed.deferrals] at h
  | object properties strict ih =>
    rw [place, Placed.deferrals, placeProperties_eq, Placed.deferralsOfProperties_eq, List.flatMap_map] at h
    obtain ⟨p, hp, h⟩ := List.mem_flatMap.mp h
    exact ih p hp h
  | union arms ih =>
    rw [place] at h
    split at h
    · next hu =>
      obtain rfl : inner = .ofSchema (.union arms) := by simpa [Placed.deferrals] using h
      exact ⟨.union arms, rfl, rfl, hu⟩
    · rw [Placed.deferrals, placeArms_eq, Placed.deferralsOfArms_eq, List.flatMap_map] at h
      obtain ⟨arm, ha, h⟩ := List.mem_flatMap.mp h
      exact ih arm ha h
  | array item ih =>
    rw [place] at h
    split at h
    · next hi =>
      obtain rfl : inner = .ofSchema (.array item) := by simpa [Placed.deferrals] using h
      exact ⟨.array item, rfl, rfl, hi⟩
    · exact ih (by simpa [Placed.deferrals] using h)
  | record item ih =>
    rw [place] at h
    split at h
    · next hi =>
      obtain rfl : inner = .ofSchema (.record item) := by simpa [Placed.deferrals] using h
      exact ⟨.record item, rfl, rfl, hi⟩
    · exact ih (by simpa [Placed.deferrals] using h)
  | optional part ih | nullable part ih | nullish part ih =>
    exact ih (by simpa [place, Placed.deferrals] using h)

/-- Something is put off exactly when the schema looks ahead. -/
theorem deferrals_place_eq_nil_iff {schema : Schema} :
    (scope.place schema).deferrals = [] ↔ ¬ scope.looksAhead schema = true := by
  constructor
  · intro h ha
    induction schema with
    | leaf | enumeration => simp [looksAhead, Schema.references] at ha
    | ref name =>
      rw [place, if_pos (looksAhead_ref ▸ ha)] at h
      simp [Placed.deferrals] at h
    | object properties strict ih =>
      rw [place, Placed.deferrals, placeProperties_eq, Placed.deferralsOfProperties_eq, List.flatMap_map,
        List.flatMap_eq_nil_iff] at h
      obtain ⟨p, hp, ha⟩ := looksAhead_object.mp ha
      exact ih p hp (h p hp) ha
    | union arms ih =>
      rw [place, if_pos ha] at h
      simp [Placed.deferrals] at h
    | array item ih | record item ih =>
      rw [place, if_pos (by exact ha)] at h
      simp [Placed.deferrals] at h
    | optional inner ih | nullable inner ih | nullish inner ih => exact ih h ha
  · intro h
    rw [place_eq_ofSchema h, Placed.deferrals_ofSchema]

end Scope

end DataShapes
