import Mathlib.Data.List.Infix
import DataShapes.Proofs.Graph.Reverse

/-! # The first violation

A model has sites at which rules may be broken: its names, what its fields and constraints refer to, and the
relations that ask for a way back. Each site is broken or not by what the whole model declares. Validation
accepts a model in which no site is broken, and otherwise reports the first broken one, in the order in which
the sites are listed. -/

namespace DataShapes

/-! ### Sites -/

/-- A place of a model at which a rule may be broken. -/
inductive Site where
  /-- The name of an enumeration, declared after these. -/
  | enumerationName (earlier : List String) (name : String)
  /-- The name of an entity, declared after these. -/
  | entityName (earlier : List String) (name : String)
  /-- The name of a field, declared in the entity after these. -/
  | fieldName (entity : Entity) (earlier : List String) (name : String)
  /-- The enumeration that a field takes its values from. -/
  | members (entity : Entity) (field : Field) (enumeration : String)
  /-- The entity that a relation field leads to. -/
  | target (entity : Entity) (field : Field) (relation : Relation)
  /-- A field that stores the reference of a relation field. -/
  | storageKey (entity : Entity) (field : Field) (key : String)
  /-- A field of a constraint over several. -/
  | constraintField (entity : Entity) (name : String)
  /-- The field that leads back from the target of a relation field. -/
  | wayBack (entity : Entity) (field : Field) (relation : Relation)

/-- Each name with those before it. -/
def withEarlier (names : List String) : List (List String × String) := names.inits.zip names

namespace Entity

/-- The sites of what a field refers to. -/
def fieldSites (entity : Entity) (field : Field) : List Site :=
  match field.kind with
  | .scalar _ => []
  | .enumeration name => [.members entity field name]
  | .relation relation => .target entity field relation :: relation.storageKeys.map (.storageKey entity field)

/-- The sites inside an entity: its names, then its fields, then its constraints. -/
def sites (entity : Entity) : List Site :=
  (withEarlier entity.fieldNames).map (fun (earlier, name) => .fieldName entity earlier name) ++
    (entity.fields.flatMap entity.fieldSites ++
      (entity.compoundKeys.flatMap (·.fields)).map (.constraintField entity))

/-- The sites of the ways back that the relation fields of an entity ask for. -/
def waysBack (entity : Entity) : List Site :=
  entity.relationFields.flatMap fun field => field.relation?.toList.map (.wayBack entity field)

end Entity

namespace DataModel

/-- The sites of names and references. -/
def structureSites (model : DataModel) : List Site :=
  (withEarlier (model.enumerations.map (·.name))).map (fun (earlier, name) => .enumerationName earlier name) ++
    ((withEarlier (model.entities.map (·.name))).map (fun (earlier, name) => .entityName earlier name) ++
      model.entities.flatMap (·.sites))

/-- All sites, in the order in which the first broken one counts. -/
def sites (model : DataModel) : List Site := model.structureSites ++ model.entities.flatMap (·.waysBack)

end DataModel

namespace Site

/-- Whether the rule of a site is broken. -/
def Broken (model : DataModel) : Site → Prop
  | .enumerationName earlier name | .entityName earlier name | .fieldName _ earlier name => name ∈ earlier
  | .members _ _ name => ¬ ∃ enumeration ∈ model.enumerations, enumeration.name = name
  | .target _ _ relation => ¬ ∃ target ∈ model.entities, target.name = relation.target
  | .storageKey owner _ name | .constraintField owner name => ¬ ∃ field ∈ owner.fields, field.name = name
  | .wayBack owner field relation => ¬ ∃ target ∈ model.entities, target.name = relation.target ∧
      ∃ other ∈ target.fields, (target, other) ≠ (owner, field) ∧
        ∃ back ∈ other.relation?, back.name = relation.name ∧ back.target = owner.name

instance (model : DataModel) : (site : Site) → Decidable (site.Broken model)
  | .enumerationName earlier name | .entityName earlier name | .fieldName _ earlier name =>
    inferInstanceAs (Decidable (name ∈ earlier))
  | .members _ _ name =>
    inferInstanceAs (Decidable (¬ ∃ enumeration ∈ model.enumerations, enumeration.name = name))
  | .target _ _ relation => inferInstanceAs (Decidable (¬ ∃ target ∈ model.entities, target.name = relation.target))
  | .storageKey owner _ name | .constraintField owner name =>
    inferInstanceAs (Decidable (¬ ∃ field ∈ owner.fields, field.name = name))
  | .wayBack owner field relation => inferInstanceAs (Decidable (¬ ∃ target ∈ model.entities,
      target.name = relation.target ∧ ∃ other ∈ target.fields, (target, other) ≠ (owner, field) ∧
        ∃ back ∈ other.relation?, back.name = relation.name ∧ back.target = owner.name))

/-- What is reported of a broken site. -/
def violation : Site → Violation
  | .enumerationName _ name => .duplicateEnumeration name
  | .entityName _ name => .duplicateEntity name
  | .fieldName owner _ name => .duplicateField owner.name name
  | .members owner field name => .unknownEnumeration owner.name field.name name
  | .target owner field relation => .danglingRelation owner.name field.name relation.target
  | .storageKey owner field key => .unknownStorageKey owner.name field.name key
  | .constraintField owner name => .unknownConstraintField owner.name name
  | .wayBack owner field relation =>
    .unpairedRelation owner.name field.name relation.target relation.name

end Site

/-- The violation of the first broken site of a row. -/
def DataModel.firstBroken? (model : DataModel) (sites : List Site) : Option Violation :=
  (sites.find? (Site.Broken model ·)).map (·.violation)

/-! ### Rows of sites -/

section
variable {model : DataModel}

theorem firstBroken?_cons (site : Site) (sites : List Site) : model.firstBroken? (site :: sites) =
    if site.Broken model then some site.violation else model.firstBroken? sites := by
  by_cases h : site.Broken model <;> simp [DataModel.firstBroken?, h]

theorem firstBroken?_append (xs ys : List Site) :
    model.firstBroken? (xs ++ ys) = (model.firstBroken? xs).or (model.firstBroken? ys) := by
  simp only [DataModel.firstBroken?, List.find?_append, Option.map_or]

theorem firstBroken?_flatMap {α : Type} (xs : List α) (f : α → List Site) :
    model.firstBroken? (xs.flatMap f) = xs.findSome? fun x => model.firstBroken? (f x) := by
  simp only [DataModel.firstBroken?, List.find?_flatMap, List.map_findSome?, Function.comp_def]

/-- Sites of one kind, made of the elements of a list. -/
theorem firstBroken?_map {α : Type} {xs : List α} {site : α → Site} {broken : α → Bool}
    {violation : α → Violation} (hbroken : ∀ x, Site.Broken model (site x) ↔ broken x = true)
    (hviolation : ∀ x, (site x).violation = violation x) :
    model.firstBroken? (xs.map site) = (xs.find? broken).map violation := by
  have hb : (fun x => decide (Site.Broken model (site x))) = broken := by
    funext x
    rw [Bool.eq_iff_iff, decide_eq_true_iff]
    exact hbroken x
  simp only [DataModel.firstBroken?, List.find?_map, Function.comp_def, hb, Option.map_map, hviolation]

/-! ### Names -/

theorem firstRepeated?_eq_find? (seen names : List String) : firstRepeated? seen names =
    ((withEarlier names).find? fun p => seen.contains p.2 || p.1.contains p.2).map (·.2) := by
  induction names generalizing seen with
  | nil => rfl
  | cons name names ih =>
    -- after the head, what is before a name is the head and what is before it in the tail
    have hsplit : withEarlier (name :: names) =
        ([], name) :: (withEarlier names).map fun p => (name :: p.1, p.2) := by
      rw [withEarlier, List.inits_cons, List.zip_cons_cons, List.zip_map_left, withEarlier]
      rfl
    rw [firstRepeated?, ih, hsplit]
    by_cases h : name ∈ seen
    · simp [h]
    · have hcontains : seen.contains name = false := by simpa using h
      simp only [hcontains, Bool.false_eq_true, ↓reduceIte, List.contains_nil, Bool.or_self,
        not_false_eq_true, List.find?_cons_of_neg, List.find?_map, Option.map_map, Function.comp_def,
        List.contains_cons, Bool.or_assoc, Bool.or_left_comm]

theorem firstBroken?_names {names : List String} {site : List String × String → Site} {violation : String → Violation}
    (hbroken : ∀ p, Site.Broken model (site p) ↔ p.2 ∈ p.1) (hviolation : ∀ p, (site p).violation = violation p.2) :
    model.firstBroken? ((withEarlier names).map site) = (firstRepeated? [] names).map violation := by
  have hfirst : model.firstBroken? ((withEarlier names).map site) =
      ((withEarlier names).find? fun p => p.1.contains p.2).map fun p => violation p.2 :=
    firstBroken?_map (fun p => by simpa using hbroken p) hviolation
  rw [hfirst, firstRepeated?_eq_find?, Option.map_map]
  simp [Function.comp_def]

/-! ### Fields and constraints -/

theorem firstBroken?_fieldSites (entity : Entity) (field : Field) :
    model.firstBroken? (entity.fieldSites field) = entity.danglingField? model field := by
  unfold Entity.fieldSites Entity.danglingField?
  cases field.kind with
  | scalar type => rfl
  | enumeration name =>
    have hbroken : Site.Broken model (.members entity field name) ↔
        ¬ (model.enumerations.map (·.name)).contains name = true := by simp [Site.Broken]
    simp only [firstBroken?_cons, hbroken, ite_not]
    rfl
  | relation relation =>
    have hbroken : Site.Broken model (.target entity field relation) ↔
        ¬ (model.entities.map (·.name)).contains relation.target = true := by simp [Site.Broken]
    have hkeys : model.firstBroken? (relation.storageKeys.map (.storageKey entity field)) =
        (relation.storageKeys.find? (!entity.fieldNames.contains ·)).map (.unknownStorageKey entity.name field.name) :=
      firstBroken?_map (fun key => by simp [Site.Broken, Entity.fieldNames]) fun key => rfl
    simp only [firstBroken?_cons, hbroken, ite_not, hkeys]
    rfl

theorem firstBroken?_constraints (entity : Entity) :
    model.firstBroken? ((entity.compoundKeys.flatMap (·.fields)).map (.constraintField entity)) =
      entity.danglingConstraint? :=
  firstBroken?_map (fun name => by simp [Site.Broken, Entity.fieldNames]) fun name => rfl

theorem firstBroken?_entitySites (entity : Entity) : model.firstBroken? entity.sites = entity.violation? model := by
  have hnames : model.firstBroken? ((withEarlier entity.fieldNames).map fun p => .fieldName entity p.1 p.2) =
      (firstRepeated? [] entity.fieldNames).map (.duplicateField entity.name) :=
    firstBroken?_names (fun p => Iff.rfl) fun p => rfl
  rw [Entity.sites, firstBroken?_append, firstBroken?_append, firstBroken?_flatMap, firstBroken?_constraints,
    Entity.violation?, hnames]
  simp only [firstBroken?_fieldSites]

theorem firstBroken?_structureSites : model.firstBroken? model.structureSites = model.structureViolation? := by
  have henumerations : model.firstBroken? ((withEarlier (model.enumerations.map (·.name))).map
      fun p => .enumerationName p.1 p.2) =
        (firstRepeated? [] (model.enumerations.map (·.name))).map .duplicateEnumeration :=
    firstBroken?_names (fun p => Iff.rfl) fun p => rfl
  have hentities : model.firstBroken? ((withEarlier (model.entities.map (·.name))).map fun p => .entityName p.1 p.2) =
      (firstRepeated? [] (model.entities.map (·.name))).map .duplicateEntity :=
    firstBroken?_names (fun p => Iff.rfl) fun p => rfl
  rw [DataModel.structureSites, firstBroken?_append, firstBroken?_append, firstBroken?_flatMap, henumerations,
    hentities, DataModel.structureViolation?]
  simp only [firstBroken?_entitySites]

/-! ### Relations -/

/-- Where names and references are in order, a relation field has no way back when it has no reverse. -/
theorem firstBroken?_wayBack (hstructure : model.structureViolation? = none) {entity : Entity}
    (he : entity ∈ model.entities) {field : Field} (hf : field ∈ entity.relationFields) :
    model.firstBroken? (field.relation?.toList.map (.wayBack entity field)) = entity.unpaired? model field := by
  have hapart : model.NamedApart := DataModel.namedApart_of_structure hstructure
  have hf : field ∈ entity.fields := List.mem_of_mem_filter hf
  cases hr : field.relation? with
  | none => simp [Entity.unpaired?, hr, DataModel.firstBroken?]
  | some relation =>
    obtain ⟨target, ht, hname⟩ := (DataModel.resolved_of_structure hstructure).targets entity he field hf relation hr
    have htarget : model.entity? relation.target = some target := hname ▸ hapart.entity?_eq ht
    have hbroken : Site.Broken model (.wayBack entity field relation) ↔ reverse? entity field target = none := by
      rw [← not_iff_not, ← ne_eq _ none, Option.ne_none_iff_exists', hapart.exists_reverse?_iff he ht hf hr,
        Site.Broken, not_not]
      constructor
      · -- the target of the site is the one that is looked up, as names are distinct
        rintro ⟨other, ho, hn, hback⟩
        obtain rfl := hapart.entity_eq ho ht (hn.trans hname.symm)
        exact hback
      · exact fun hback => ⟨target, ht, hname, hback⟩
    rw [Option.toList_some, List.map_singleton, firstBroken?_cons]
    cases hreverse : reverse? entity field target with
    | none =>
      rw [if_pos (hbroken.mpr hreverse)]
      simp [Entity.unpaired?, hr, htarget, hreverse, Site.violation]
    | some reverse =>
      rw [if_neg (by simp [hbroken, hreverse])]
      simp [Entity.unpaired?, hr, htarget, hreverse, DataModel.firstBroken?]

theorem firstBroken?_waysBack (hstructure : model.structureViolation? = none) :
    model.firstBroken? (model.entities.flatMap (·.waysBack)) = model.pairingViolation? := by
  rw [firstBroken?_flatMap, DataModel.pairingViolation?]
  refine findSome?_congr fun entity he => ?_
  rw [Entity.waysBack, firstBroken?_flatMap]
  exact findSome?_congr fun field hf => firstBroken?_wayBack hstructure he hf

theorem firstBroken?_sites : model.firstBroken? model.sites = model.violation? := by
  rw [DataModel.sites, firstBroken?_append, firstBroken?_structureSites, DataModel.violation?]
  cases hstructure : model.structureViolation? with
  | some violation => rfl  -- ways back are not looked at
  | none => rw [firstBroken?_waysBack hstructure]

end

namespace DataModel
variable {model : DataModel} {violation : Violation}

theorem validate_eq_error_iff : model.validate = .error violation ↔ model.violation? = some violation := by
  unfold validate
  cases model.violation? <;> simp

/-- Validation accepts a model in which no site is broken, and otherwise reports the first broken one. -/
theorem validate_first (model : DataModel) :
    (model.validate = .ok () ↔ ∀ site ∈ model.sites, ¬ site.Broken model) ∧
    ∀ violation, model.validate = .error violation ↔ ∃ before site after, model.sites = before ++ site :: after ∧
      (∀ earlier ∈ before, ¬ earlier.Broken model) ∧ site.Broken model ∧ site.violation = violation := by
  constructor
  · rw [validate_eq_ok_iff, ← firstBroken?_sites, firstBroken?, Option.map_eq_none_iff, List.find?_eq_none]
    simp only [decide_eq_true_eq]
  · intro violation
    rw [validate_eq_error_iff, ← firstBroken?_sites, firstBroken?, Option.map_eq_some_iff]
    simp only [List.find?_eq_some_iff_append, decide_eq_true_eq, Bool.not_eq_true', decide_eq_false_iff_not]
    constructor
    · rintro ⟨site, ⟨hbroken, before, after, hsplit, hbefore⟩, rfl⟩
      exact ⟨before, site, after, hsplit, hbefore, hbroken, rfl⟩
    · rintro ⟨before, site, after, hsplit, hbefore, hbroken, rfl⟩
      exact ⟨site, ⟨hbroken, before, after, hsplit, hbefore⟩, rfl⟩

end DataModel

end DataShapes
