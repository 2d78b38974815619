import DataShapes.Proofs.Generation.Resolution
import DataShapes.Proofs.Schema.Making

/-! # Inputs are not altered

In the document of a model of which nothing is dropped, each name finds the declaration that was built
under it. So all inputs are strict and refer to inputs only, and what they accept they return as it came.
A record read back returns the members that it names. -/

namespace DataShapes

namespace Entity
variable {entity : Entity}

theorem isSome_value?_of_mem {field : Field} (hf : field ∈ entity.valueFields) : field.value?.isSome = true := by
  have hk : field.isRelation = false := by simpa using (List.mem_filter.mp hf).2
  unfold Field.value? Field.many? Field.single?
  cases hkind : field.kind with
  | relation relation => simp [Field.isRelation, Field.relation?, hkind] at hk
  | scalar | enumeration => split <;> rfl

/-- A record as it is read back has the value fields of the entity. -/
theorem map_key_readValues :
    (propertiesOf entity.valueFields readValue?).map (·.1) = entity.valueFields.map (·.name) := by
  have hread : ∀ field ∈ entity.valueFields, (readValue? field).isSome = true := fun field hf => by
    simpa [readValue?] using isSome_value?_of_mem hf
  rw [map_key_propertiesOf, List.filter_eq_self.mpr hread]

end Entity

namespace DataModel
variable {model : DataModel}

/-- Each name of an input finds an input, and that refers to such names only. -/
theorem DropsNothing.within_of_find? (hd : model.DropsNothing) (hm : model.Resolved) {name : String}
    (hn : model.Provides name) {x : Declaration} (hx : model.document.find? name = some x) :
    x.schema.Within model.Provides := by
  obtain ⟨d, hinput, rfl⟩ := hn
  rw [hd.find?_of_mem_built (mem_built.mpr (Or.inl hinput))] at hx
  cases hx
  exact hm.within_of_mem_inputs hinput

theorem DropsNothing.find?_record (hd : model.DropsNothing) {entity : Entity} (he : entity ∈ model.entities) :
    model.document.find? (Naming.ofEntity entity.name "") = some entity.recordDeclaration :=
  hd.find?_of_mem_built (mem_built.mpr (Or.inr ⟨entity, he, rfl⟩))

/-- Other than records, what the document declares are inputs. -/
theorem provides_of_mem_names {name : String} (hn : name ∈ model.document.names)
    (hrecord : ∀ entity ∈ model.entities, name ≠ Naming.ofEntity entity.name "") : model.Provides name := by
  obtain ⟨d, hd, rfl⟩ := mem_names_document.mp hn
  rcases mem_built.mp hd with hd | ⟨entity, he, rfl⟩
  · exact provides_of_mem hd
  · exact absurd rfl (hrecord entity he)

/-- No schema but that of a record alters what it accepts; a record keeps the members of its value fields,
and takes them again as they are. -/
theorem parse_eq_self (hv : model.validate = .ok ()) (hd : model.DropsNothing) :
    (∀ name ∈ model.document.names, (∀ entity ∈ model.entities, name ≠ Naming.ofEntity entity.name "") →
      ∀ value result : Json, model.document.parse name value.normal = .ok result → result = value.normal) ∧
    ∀ entity ∈ model.entities, ∀ value result : Json,
      model.document.parse (Naming.ofEntity entity.name "") value.normal = .ok result →
        (∃ entries, value.normal = .object entries ∧
          result = .object (entries.filter fun e => (entity.valueFields.map (·.name)).contains e.1)) ∧
        model.document.parse (Naming.ofEntity entity.name "") result = .ok result := by
  have hm : model.Resolved := resolved_of_validate hv
  have hclosed : ∀ name, model.Provides name → ∀ x, model.document.find? name = some x →
      x.schema.Within model.Provides := fun name hn x hx => hd.within_of_find? hm hn hx
  constructor
  · intro name hn hrecord value result h
    have hschema : (Schema.ref name).Within model.Provides := .ref (provides_of_mem_names hn hrecord)
    exact Document.eval_eq_self hclosed h hschema (Json.isNormal_normal value)
  · intro entity he value result h
    have hfind := hd.find?_record he
    obtain ⟨hfresh, x, hx, h⟩ := Document.eval_ref_eq_ok_iff.mp h
    rw [hfind] at hx
    cases hx
    obtain ⟨entries, hvalue, hresult, hagain⟩ :=
      Document.eval_object_eq_filter hclosed h (supplies_provides.values.within_readValue? hm he)
        (Json.isNormal_normal value)
    rw [Entity.map_key_readValues] at hresult
    refine ⟨⟨entries, hvalue, hresult⟩, ?_⟩
    exact Document.eval_ref_eq_ok_iff.mpr ⟨hfresh, entity.recordDeclaration, hfind, hagain⟩

/-- A user, who may stand below other users. -/
def user : Entity :=
  let parent := Field.plain "parent" (.relation ⟨"User", "Tree", ["parentId"]⟩)
  let children := { Field.plain "children" (.relation ⟨"User", "Tree", []⟩) with isList := true }
  let key := { Field.plain "id" (.scalar .int) with isId := true }
  ⟨"User", [key, .plain "parentId" (.scalar .int), parent, children], none, []⟩

def users : DataModel := ⟨[user], []⟩

theorem validate_users : users.validate = .ok () := by decide

theorem dropsNothing_users : users.DropsNothing := by decide +kernel

/-- The far side of the children of a user. -/
def childrenEdge : Edge := ⟨user, user.fields[2]⟩

theorem edge_children : (Graph.ofModel users).edge? user user.fields[3] = some childrenEdge := by decide

/-- A user with a member that users do not have is read back without it. -/
theorem users_unaltered : users.validate = .ok () ∧ users.DropsNothing ∧
    (∀ value result : Json, users.document.parse (Naming.ofEntity user.name "WhereInput") value.normal = .ok result →
      result = value.normal) ∧
    ∃ result, users.document.parse (Naming.ofEntity user.name "")
        (.object [("age", .int 7), ("id", .int 1), ("parentId", .int 0)]) = .ok result ∧
      result = .object [("id", .int 1), ("parentId", .int 0)] ∧
      users.document.parse (Naming.ofEntity user.name "") result = .ok result := by
  obtain ⟨hinput, hrecord⟩ := parse_eq_self validate_users dropsNothing_users
  have huser : user ∈ users.entities := List.mem_cons_self
  have hwhere : Naming.ofEntity user.name "WhereInput" ∈ users.document.names :=
    (provides_ofEntity huser (by simp [Entity.inputSuffixes, Entity.querySuffixes])).mem_names
  have hint : ∀ n, users.document.eval [] (.leaf .int) (.int n) = .ok (.int n) := fun n =>
    Document.eval_leaf_eq_ok_iff.mpr ⟨rfl, rfl⟩
  have haccepted : users.document.parse (Naming.ofEntity user.name "")
      (.object [("age", .int 7), ("id", .int 1), ("parentId", .int 0)]) =
        .ok (.object [("id", .int 1), ("parentId", .int 0)]) := by
    refine Document.eval_ref_eq_ok_iff.mpr ⟨List.not_mem_nil, _, dropsNothing_users.find?_record huser, ?_⟩
    have hrecord : user.recordDeclaration.schema =
      .object [("id", .leaf .int), ("parentId", .leaf .int)] false := rfl
    have hid : Json.setEntry "id" (.int 1) [] = [("id", .int 1)] := rfl
    have hparent : Json.setEntry "parentId" (.int 0) [("id", .int 1)] = [("id", .int 1), ("parentId", .int 0)] := rfl
    rw [hrecord]
    refine Document.eval_object_eq_ok_iff.mpr ⟨_, rfl, fun h => absurd h Bool.false_ne_true, ⟨?_, ?_⟩, ?_⟩
    · simp [List.find?_cons, Json.entry?]
    · simp [hint, Json.entry?, Document.made]
    · simp [Document.gather, Json.entry?, Document.made, hint, hid, hparent]
  refine ⟨validate_users, dropsNothing_users, hinput _ hwhere (by decide), _, haccepted, rfl, ?_⟩
  exact (hrecord user huser (.object [("age", .int 7), ("id", .int 1), ("parentId", .int 0)]) _ haccepted).2

end DataModel

end DataShapes
