import DataShapes.Proofs.Generation.Extension
import DataShapes.Proofs.Generation.Lossless
import DataShapes.Proofs.Generation.Resolution
import DataShapes.Proofs.Generation.Unaltered
import DataShapes.Proofs.Schema.Calls

/-! # Growing models

A new entity, whatever it leads to, and further enumerations take nothing from what a model builds: the relations
of an accepted model lead to declared entities already. So the document of the larger model says the same of all that
the smaller one declares. -/

namespace DataShapes

namespace DataModel
variable {model grown : DataModel}

/-- Of documents that drop nothing, the one finds what the other finds if it is built for both. -/
theorem DropsNothing.find?_eq (hd : model.DropsNothing) (hg : grown.DropsNothing)
    (h : ∀ d ∈ model.built, d ∈ grown.built) {name : String} (hn : name ∈ model.document.names) :
    grown.document.find? name = model.document.find? name := by
  obtain ⟨d, hmem, rfl⟩ := mem_names_document.mp hn
  rw [hd.find?_of_mem_built hmem, hg.find?_of_mem_built (h d hmem)]

section
variable {before after : List Entity} {new : Entity} (hm : model.entities = before ++ after)
  (hg : grown.entities = before ++ new :: after) (hnew : ∀ entity ∈ model.entities, entity.name ≠ new.name)
include hm hg hnew

theorem nodup_of_insert (hn : (model.entities.map (·.name)).Nodup) : (grown.entities.map (·.name)).Nodup := by
  have hfresh : new.name ∉ model.entities.map (·.name) := by
    rw [List.mem_map]
    rintro ⟨entity, he, hname⟩
    exact hnew entity he hname
  rw [hm, List.map_append] at hn hfresh
  rw [hg, List.map_append, List.map_cons, List.nodup_middle]
  exact List.nodup_cons.mpr ⟨hfresh, hn⟩

theorem extends_of_insert (hv : model.validate = .ok ())
    (henumerations : model.enumerations.Sublist grown.enumerations) : grown.Extends model := by
  have hapart : model.NamedApart := namedApart_of_validate hv
  have hn : (grown.entities.map (·.name)).Nodup := nodup_of_insert hm hg hnew hapart.entities
  have hsublist : model.entities.Sublist grown.entities := by
    rw [hm, hg]
    exact (List.Sublist.refl before).append (List.sublist_cons_self new after)
  refine ⟨hsublist.subperm, henumerations.subperm, hn, fun entity he field hf relation hr => ?_⟩
  obtain ⟨target, ht, hname⟩ := (resolved_of_validate hv).targets entity he field hf relation hr
  have hgrown : grown.entity? relation.target = some target :=
    (find?_eq_some_iff_of_nodup hn).mpr ⟨hsublist.subset ht, hname⟩
  rw [hgrown, ← hname, hapart.entity?_eq ht]

end

/-- A model that is accepted may be given a further entity of a new name and further enumerations, anywhere and with
any relations to what is there: all that it built is built as it was. If neither document drops a declaration, what
was declared says the same of every value. -/
theorem growth_adds (hv : model.validate = .ok ()) {before after : List Entity} {new : Entity}
    (hm : model.entities = before ++ after) (hg : grown.entities = before ++ new :: after)
    (hnew : ∀ entity ∈ model.entities, entity.name ≠ new.name)
    (henumerations : model.enumerations.Sublist grown.enumerations) :
    (∀ d ∈ model.built, d ∈ grown.built) ∧
    (model.DropsNothing → grown.DropsNothing → ∀ name ∈ model.document.names, ∀ value,
      grown.document.parse name value = model.document.parse name value) := by
  have hbuilt : ∀ d ∈ model.built, d ∈ grown.built := fun _ hd =>
    (extends_of_insert hm hg hnew hv henumerations).built_subperm.subset hd
  refine ⟨hbuilt, fun hd hgrown name hn value => ?_⟩
  have hresolved : model.document.unresolved = [] := (resolved_of_validate hv).unresolved_eq_nil
  exact Document.parse_congr (fun _ hreach =>
    hd.find?_eq hgrown hbuilt (Document.mem_names_of_reaches hresolved hn hreach)) value

/-- A team with members and perhaps a leader. -/
def team : Entity :=
  keyed "Team" [relating "members" "User" "Members" true, .plain "kind" (.enumeration "Kind"),
    { relating "leader" "User" "Leader" false with isRequired := false }]

/-- Users and a team that they know nothing of. -/
def teamUsers : DataModel := ⟨[team, user], [⟨"Kind", ["OPEN", "CLOSED"]⟩]⟩

theorem dropsNothing_teamUsers : teamUsers.DropsNothing := by decide +kernel

/-- With the team users are also filtered as leaders, and conditions on them mean what they meant. -/
theorem users_grown : users.validate = .ok () ∧ users.DropsNothing ∧ teamUsers.DropsNothing ∧
    Naming.ofEntity user.name "NullableRelationFilter" ∈ teamUsers.document.names ∧
    (∀ d ∈ users.built, d ∈ teamUsers.built) ∧
    ∀ value, teamUsers.document.parse (Naming.ofEntity user.name "WhereInput") value =
      users.document.parse (Naming.ofEntity user.name "WhereInput") value := by
  have hnew : ∀ entity ∈ users.entities, entity.name ≠ team.name := by decide
  have hbefore : users.entities = [] ++ [user] := rfl
  have hafter : teamUsers.entities = [] ++ team :: [user] := rfl
  obtain ⟨hbuilt, hparse⟩ := growth_adds validate_users hbefore hafter hnew (by decide)
  have huser : user ∈ teamUsers.entities := List.mem_cons_of_mem _ List.mem_cons_self
  have hleader : Naming.ofEntity user.name "NullableRelationFilter" ∈ teamUsers.document.names :=
    (provides_ofEntity huser (by decide)).mem_names
  have hwhere : Naming.ofEntity user.name "WhereInput" ∈ users.document.names :=
    (provides_ofEntity List.mem_cons_self (by decide)).mem_names
  exact ⟨validate_users, dropsNothing_users, dropsNothing_teamUsers, hleader, hbuilt,
    hparse dropsNothing_users dropsNothing_teamUsers _ hwhere⟩

end DataModel

end DataShapes
