import DataShapes.Proofs.Schema.Acceptance
import DataShapes.Proofs.Schema.Making

/-! # Wider schemas

A schema gets wider by more members of an enumeration or by more properties of a strict object, if these have keys
that the object did not have and may be left out. When each name stands for the same schema or a wider one, whatever
was accepted is accepted still: an arm that accepted a value goes on to do so, and what is accepted was not told apart
by what is not. -/

namespace DataShapes

namespace Schema

/-- The properties stay as they are; those beside them have new keys and may be left out. -/
structure Adds (new : String → Prop) (properties wider : List (String × Schema)) : Prop where
  kept : ∀ p ∈ properties, p ∈ wider
  added : ∀ p ∈ wider, p ∈ properties ∨ new p.1 ∧ p.2.acceptsAbsent = true

/-- The second schema is the first one or wider. -/
inductive Widens : Schema → Schema → Prop where
  | refl (schema : Schema) : Widens schema schema
  | enumeration {values wider : List String} : (∀ v ∈ values, v ∈ wider) →
    Widens (.enumeration values) (.enumeration wider)
  | object {new : String → Prop} {properties wider : List (String × Schema)} : Adds new properties wider →
    (∀ p ∈ properties, ¬ new p.1) → Widens (.strictObject properties) (.strictObject wider)

namespace Adds
variable {new other : String → Prop} {properties wider others widerOthers : List (String × Schema)}

theorem refl (new : String → Prop) (properties : List (String × Schema)) : Adds new properties properties :=
  ⟨fun _ hp => hp, fun _ hp => Or.inl hp⟩

theorem append (h : Adds new properties wider) (h' : Adds new others widerOthers) :
    Adds new (properties ++ others) (wider ++ widerOthers) where
  kept p hp := by
    rcases List.mem_append.mp hp with hp | hp
    · exact List.mem_append_left _ (h.kept p hp)
    · exact List.mem_append_right _ (h'.kept p hp)
  added p hp := by
    rcases List.mem_append.mp hp with hp | hp
    · exact (h.added p hp).imp_left (List.mem_append_left _)
    · exact (h'.added p hp).imp_left (List.mem_append_right _)

theorem mono (h : Adds new properties wider) (hnew : ∀ key, new key → other key) : Adds other properties wider where
  kept := h.kept
  added p hp := (h.added p hp).imp_right fun ⟨hkey, habsent⟩ => ⟨hnew _ hkey, habsent⟩

end Adds

end Schema

namespace Document
variable {d wider : Document}

/-- An object that is accepted has none of the new keys, so further properties may be missing from it. -/
theorem accepts_of_adds {new : String → Prop} {properties more : List (String × Schema)}
    {entries : List (String × Json)} (h : Schema.Adds new properties more) (hnew : ∀ p ∈ properties, ¬ new p.1)
    (hkeys : ∀ e ∈ entries, e.1 ∈ properties.map (·.1)) (hfits : Fits wider.Accepts properties entries) :
    wider.Accepts (.strictObject more) (.object entries) := by
  refine accepts_strictObject.mpr ⟨entries, rfl, fun e he => ?_, fun p hp hentry => ?_, fun p hp value hentry => ?_⟩
  · obtain ⟨p, hp, hkey⟩ := List.mem_map.mp (hkeys e he)
    exact List.mem_map.mpr ⟨p, h.kept p hp, hkey⟩
  · rcases h.added p hp with hp | ⟨-, habsent⟩
    · exact hfits.absent p hp hentry
    · exact habsent
  · rcases h.added p hp with hp | ⟨hkey, -⟩
    · exact hfits.present p hp value hentry
    · obtain ⟨q, hq, heq⟩ := List.mem_map.mp (hkeys _ (Json.mem_of_entry_eq_some hentry))
      exact absurd (heq ▸ hkey) (hnew q hq)

section
variable {names : String → Prop} (hg : wider.Guarded)
  (hclosed : ∀ name, names name → ∀ x, d.find? name = some x → x.schema.Within names)
  (hwider : ∀ name, names name → ∀ x, d.find? name = some x →
    ∃ x', wider.find? name = some x' ∧ x.schema.Widens x'.schema)
include hg hclosed hwider

/-- What a schema makes something of is accepted by a wider schema in the wider document. -/
theorem Makes.accepts_wider {schema more : Schema} {value result : Json} (h : d.Makes schema value result)
    (hschema : schema.Within names) (hmore : schema.Widens more) : wider.Accepts more value := by
  induction h generalizing more with
  | leaf hadmits =>
    cases hmore
    exact accepts_leaf.mpr hadmits
  | ref hx _ ih =>
    cases hmore
    have hname := Schema.within_ref.mp hschema
    obtain ⟨x', hx', hwidens⟩ := hwider _ hname _ hx
    exact (hg.accepts_ref_of_find? hx').mpr (ih (hclosed _ hname _ hx) hwidens)
  | @enumeration values s hs =>
    cases hmore with
    | refl => exact accepts_enumeration.mpr ⟨s, hs, rfl⟩
    | enumeration hmembers => exact accepts_enumeration.mpr ⟨s, hmembers s hs, rfl⟩
  | @object properties strict entries change hstrict habsent _ ih =>
    obtain ⟨rfl, hproperties⟩ := Schema.within_object.mp hschema
    have hfits : Fits wider.Accepts properties entries :=
      ⟨habsent, fun p hp value hentry => ih p hp value hentry (hproperties p hp) (.refl _)⟩
    cases hmore with
    | refl => exact accepts_strictObject.mpr ⟨entries, rfl, hstrict rfl, hfits⟩
    | object hadds hnew => exact accepts_of_adds hadds hnew (hstrict rfl) hfits
  | union harm _ ih =>
    cases hmore
    exact hg.accepts_union.mpr ⟨_, harm, ih (Schema.within_union.mp hschema _ harm) (.refl _)⟩
  | array _ ih =>
    cases hmore
    exact accepts_array.mpr ⟨_, rfl, fun x hx => ih x hx (Schema.within_array.mp hschema) (.refl _)⟩
  | record _ ih =>
    cases hmore
    exact accepts_record.mpr ⟨_, rfl, fun e he => ih e he (Schema.within_record.mp hschema) (.refl _)⟩
  | optional _ ih =>
    cases hmore
    exact accepts_optional.mpr (ih (Schema.within_optional.mp hschema) (.refl _))
  | nullableNull =>
    cases hmore
    exact accepts_nullable.mpr fun hn => absurd rfl hn
  | nullable _ ih =>
    cases hmore
    exact accepts_nullable.mpr fun _ => ih (Schema.within_nullable.mp hschema) (.refl _)
  | nullishNull =>
    cases hmore
    exact accepts_nullish.mpr fun hn => absurd rfl hn
  | nullish _ ih =>
    cases hmore
    exact accepts_nullish.mpr fun _ => ih (Schema.within_nullish.mp hschema) (.refl _)

end

end Document

end DataShapes
