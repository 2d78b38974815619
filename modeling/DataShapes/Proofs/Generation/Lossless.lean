import DataShapes.Proofs.Generation.Apart
import DataShapes.Proofs.Generation.Unaltered
import DataShapes.Schema.Equality

/-! # What a document loses

A document keeps the first declaration of a name. Names are spelled from names of the model, which
validation keeps apart within their kinds only, so that a name can be given twice. Nothing is lost when all
declarations of a name agree, and accepted models lose declarations. -/

namespace DataShapes

namespace DataModel

/-- Declarations that are built under one name have one schema. -/
def Lossless (model : DataModel) : Prop :=
  ∀ a ∈ model.built, ∀ b ∈ model.built, a.name = b.name → a.schema = b.schema

section
variable {model : DataModel} (hl : model.Lossless)
include hl

/-- The document finds whatever was built. -/
theorem Lossless.find?_document {d : Declaration} (hd : d ∈ model.built) :
    model.document.find? d.name = some d := by
  rw [DataModel.find?_document]
  refine find?_eq_of_only hd (beq_self_eq_true d.name) fun e he hn => ?_
  have hn : e.name = d.name := by simpa using hn
  have hs : e.schema = d.schema := hl e he d hd hn
  exact congrArg₂ Declaration.mk hn hs

/-- Then the last declaration of a name is as good as the first. -/
theorem Lossless.find?_reverse (name : String) :
    (model.built.find? (·.name == name)).map (·.schema) =
      (model.built.reverse.find? (·.name == name)).map (·.schema) := by
  have hlast : model.built.reverse.find? (·.name == name) = none ↔ model.built.find? (·.name == name) = none := by
    simp only [List.find?_eq_none, List.mem_reverse]
  cases hfirst : model.built.find? (·.name == name) with
  | none => rw [hlast.mpr hfirst]
  | some a =>
    cases hfound : model.built.reverse.find? (·.name == name) with
    | none => rw [hlast.mp hfound] at hfirst; cases hfirst
    | some b =>
      have ha : a.name = name := by simpa using List.find?_some hfirst
      have hb : b.name = name := by simpa using List.find?_some hfound
      exact congrArg some (hl a (List.mem_of_find?_eq_some hfirst) b
        (List.mem_reverse.mp (List.mem_of_find?_eq_some hfound)) (ha.trans hb.symm))

end

/-! ### Accepted models that lose a schema -/

/-- An entity with a key and other fields. -/
def keyed (name : String) (fields : List Field) : Entity :=
  ⟨name, { Field.plain "id" (.scalar .int) with isId := true } :: fields, none, []⟩

/-- A field of a relation without storage keys. -/
def relating (name target relation : String) (isList : Bool) : Field :=
  { Field.plain name (.relation ⟨target, relation, []⟩) with isList }

/-- An entity has the name of an enumeration. -/
def roles : DataModel := ⟨[keyed "Role" []], [⟨"Role", ["ADMIN", "USER"]⟩]⟩

/-- The name of an entity is that of another with the stem of an operation. -/
def searches : DataModel := ⟨[keyed "User" [], keyed "UserFindMany" []], []⟩

/-- The ways back to teams are spelled alike in pascal case. -/
def teams : DataModel :=
  ⟨[keyed "Team" [relating "owner" "User" "Owner" false, relating "creator" "User" "Creator" false],
    keyed "User" [relating "owned_teams" "Team" "Owner" true, relating "ownedTeams" "Team" "Creator" true]], []⟩

/-- One way back to lists runs on where the other ends. -/
def guests : DataModel :=
  ⟨[keyed "Team" [relating "members" "User" "Members" true, relating "guests" "User" "Guests" true],
    keyed "User" [relating "team" "Team" "Members" false, relating "teamNested" "Team" "Guests" false]], []⟩

/-- The way back has no letter in its name. -/
def members : DataModel :=
  ⟨[keyed "Team" [relating "members" "User" "Members" true],
    keyed "User" [.plain "teamId" (.scalar .int), .plain "_" (.relation ⟨"Team", "Members", ["teamId"]⟩)]], []⟩

/-- Names of entities, of enumerations and of fields make accepted models lose a schema. -/
theorem accepted_not_lossless : (roles.validate = .ok () ∧ ¬ roles.Lossless) ∧
    (searches.validate = .ok () ∧ ¬ searches.Lossless) ∧ (teams.validate = .ok () ∧ ¬ teams.Lossless) ∧
    (guests.validate = .ok () ∧ ¬ guests.Lossless) ∧ (members.validate = .ok () ∧ ¬ members.Lossless) := by
  refine ⟨⟨by decide, fun h => ?_⟩, ⟨by decide, fun h => ?_⟩, ⟨by decide, fun h => ?_⟩, ⟨by decide, fun h => ?_⟩,
    by decide, fun h => ?_⟩
  · exact absurd (h.find?_reverse "RoleSchema") (by decide +kernel)
  · exact absurd (h.find?_reverse "UserFindManyArgsSchema") (by decide +kernel)
  · exact absurd (h.find?_reverse "UserCreateWithoutOwnedTeamsInputSchema") (by decide +kernel)
  · exact absurd (h.find?_reverse "UserUncheckedUpdateManyWithoutTeamNestedInputSchema") (by decide +kernel)
  · exact absurd (h.find?_reverse "UserCreateManyInputSchema") (by decide +kernel)

end DataModel

end DataShapes
