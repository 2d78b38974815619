import DataShapes.Proofs.Inputs.Write

/-! # References of nested writes

The nested writes of a field refer to roles of the same field, to conditions and lookups of the target,
and, where they write a record whole, to what its payload refers to. -/

namespace DataShapes

namespace NestedNames

/-- The names that the nested writes of `field` rely on: its own roles, but for those that payloads refer to, and
what the target offers. Bulk updates are conditional on value fields, and such conditions exist for targets of
lists only. -/
structure Available (provided : String → Prop) (names : NestedNames) (field : Field) (bulkAllowed : Bool) :
    Prop where
  roles : ∀ role ∈ NestedRole.all field bulkAllowed, role ∉ NestedRole.entries → provided (role.name names)
  condition : provided (Naming.ofEntity names.target "WhereInput")
  lookup : provided (Naming.ofEntity names.target "WhereUniqueInput")
  bulkUpdate : provided (Naming.ofEntity names.target "UpdateManyMutationInput")
  bulkCondition : field.isList = true → provided (Naming.ofEntity names.target "ScalarWhereInput")

section
variable {provided : String → Prop} {names : NestedNames} {field : Field} {bulkAllowed : Bool}
  (h : names.Available provided field bulkAllowed)
include h

theorem Available.role {before after : String} (hr : .record before after ∈ NestedRole.all field bulkAllowed)
    (he : .record before after ∉ NestedRole.entries) : provided (names.role before after) :=
  h.roles _ hr he

theorem Available.rows {suffix : String} (hr : .rows suffix ∈ NestedRole.all field bulkAllowed) :
    provided (names.rows suffix) :=
  h.roles _ hr (by simp [NestedRole.entries])

/-! ### Parts -/

/-- The payloads of the target that leave the reverse out are there for every field. -/
theorem Available.within_payloadRef {before : String}
    (hb : before ∈ ["Create", "UncheckedCreate", "Update", "UncheckedUpdate"]) :
    (names.roleRef before).Within provided := by
  simp only [List.mem_cons, List.not_mem_nil, or_false] at hb
  rcases hb with rfl | rfl | rfl | rfl
  · exact .ref (h.role (by simp [NestedRole.all, NestedRole.creations]) (by decide))
  · exact .ref (h.role (by simp [NestedRole.all, NestedRole.creations]) (by decide))
  · exact .ref (h.role (by simp [NestedRole.all, NestedRole.changes]) (by decide))
  · exact .ref (h.role (by simp [NestedRole.all, NestedRole.changes]) (by decide))

theorem Available.within_newRecord : names.newRecord.Within provided := by
  have hchecked : (names.roleRef "Create").Within provided := h.within_payloadRef (by simp)
  have hunchecked : (names.roleRef "UncheckedCreate").Within provided := h.within_payloadRef (by simp)
  simp [newRecord, hchecked, hunchecked]

theorem Available.within_newRecords : names.newRecords.Within provided := by
  have hchecked : (names.roleRef "Create").Within provided := h.within_payloadRef (by simp)
  have hunchecked : (names.roleRef "UncheckedCreate").Within provided := h.within_payloadRef (by simp)
  simp [newRecords, hchecked, hunchecked]

theorem Available.within_changedRecord : names.changedRecord.Within provided := by
  have hchecked : (names.roleRef "Update").Within provided := h.within_payloadRef (by simp)
  have hunchecked : (names.roleRef "UncheckedUpdate").Within provided := h.within_payloadRef (by simp)
  simp [changedRecord, hchecked, hunchecked]

theorem Available.within_connectOrCreate : (names.roleRef "CreateOrConnect").Within provided :=
  .ref (h.role (by simp [NestedRole.all, NestedRole.creations]) (by decide))

omit h in
theorem within_of_mem_several {keys : List String} {item : Schema} (hi : item.Within provided) :
    ∀ p ∈ several keys item, p.2.Within provided := by
  intro p hp
  obtain ⟨key, -, rfl⟩ := List.mem_map.mp hp
  exact .optional (Schema.within_oneOrMany.mpr hi)

theorem Available.within_of_mem_bulk (hlist : field.isList = true) :
    ∀ p ∈ names.bulk bulkAllowed, p.2.Within provided := by
  intro p hp
  unfold bulk at hp
  split at hp
  · next hbulk =>
    obtain rfl := List.mem_singleton.mp hp
    have hrows : provided (names.rows "InputEnvelope") :=
      h.rows (by simp [NestedRole.all, NestedRole.creations, hlist, hbulk])
    exact .optional (.ref hrows)
  · cases hp

/-! ### Creating -/

theorem Available.within_createMany (hlist : field.isList = true) (before : String) :
    (names.createMany before bulkAllowed).schema.Within provided := by
  refine .object fun p hp => ?_
  simp only [List.mem_append] at hp
  rcases hp with ((hp | hp) | hp) | hp
  · obtain rfl := List.mem_singleton.mp hp
    exact .optional h.within_newRecords
  · exact within_of_mem_several h.within_connectOrCreate p hp
  · exact h.within_of_mem_bulk hlist p hp
  · exact within_of_mem_several (.ref h.lookup) p hp

theorem Available.within_creations {graph : Graph} {edge : Edge} (hbulk : bulkAllowed = !edge.reverse.isList)
    (hrow : (Schema.strictObject
      (Payload.bulkProperties .create .unchecked edge.target (some edge.reverse))).Within provided)
    {d : Declaration} (hd : d ∈ names.creations graph field edge) :
    d ∈ names.payload graph .create edge ∨ d.schema.Within provided := by
  simp only [creations, List.mem_append, List.mem_cons, List.not_mem_nil, or_false, or_assoc] at hd
  refine hd.imp_right fun hd => ?_
  rcases hd with rfl | hd
  · have hlookup := h.lookup
    simp [connectOrCreate, ofTarget, hlookup, h.within_newRecord]
  · split at hd
    · next hlist =>
      simp only [List.mem_append, List.mem_cons, List.not_mem_nil, or_false] at hd
      rcases hd with hd | rfl | rfl
      · split at hd
        · next hallowed =>
          simp only [createRows, List.mem_cons, List.not_mem_nil, or_false] at hd
          rcases hd with rfl | rfl
          · exact hrow
          · have hrows : provided (names.rows "Input") :=
              h.rows (by simp [NestedRole.all, NestedRole.creations, hlist, hbulk, hallowed])
            simp [hrows]
        · cases hd
      · exact hbulk ▸ h.within_createMany hlist "CreateNestedMany"
      · exact hbulk ▸ h.within_createMany hlist "UncheckedCreateNestedMany"
    · obtain rfl := List.mem_singleton.mp hd
      have hlookup := h.lookup
      simp [createOne, ofTarget, hlookup, h.within_newRecord, h.within_connectOrCreate]

/-! ### Updating -/

theorem Available.within_updateOne (hlist : field.isList = false) :
    (names.updateOne (field.multiplicity == .nullable)).schema.Within provided := by
  have hupsert : provided (names.role "Upsert" "Input") :=
    h.role (by simp [NestedRole.all, NestedRole.changes, hlist]) (by decide)
  have hfound : (names.roleRef "UpdateToOneWithWhere").Within provided :=
    .ref (h.role (by simp [NestedRole.all, NestedRole.changes, hlist]) (by decide))
  have hchecked : (names.roleRef "Update").Within provided := h.within_payloadRef (by simp)
  have hunchecked : (names.roleRef "UncheckedUpdate").Within provided := h.within_payloadRef (by simp)
  have hlookup := h.lookup
  have hcondition := h.condition
  refine .object fun p hp => ?_
  simp only [List.mem_append] at hp
  rcases hp with (hp | hp) | hp
  · simp only [List.mem_cons, List.not_mem_nil, or_false] at hp
    rcases hp with rfl | rfl | rfl
    · exact .optional h.within_newRecord
    · exact .optional h.within_connectOrCreate
    · exact .optional (.ref hupsert)
  · split at hp
    · simp only [List.mem_cons, List.not_mem_nil, or_false] at hp
      rcases hp with rfl | rfl <;> simp [detach, ofTarget, hcondition]
    · cases hp
  · simp only [List.mem_cons, List.not_mem_nil, or_false] at hp
    rcases hp with rfl | rfl
    · exact .optional (.ref hlookup)
    · simp [hfound, hchecked, hunchecked]

theorem Available.within_changeMany {edge : Edge} (hlist : field.isList = true)
    (hrow : (Schema.strictObject
      (Payload.bulkProperties .update .unchecked edge.target (some edge.reverse))).Within provided)
    {d : Declaration} (hd : d ∈ names.changeMany edge) : d.schema.Within provided := by
  have hlookup := h.lookup
  have hmutation := h.bulkUpdate
  have hcondition := h.bulkCondition hlist
  have hbulk : provided (names.role "UncheckedUpdateMany" "Input") :=
    h.role (by simp [NestedRole.all, NestedRole.changes, hlist]) (by decide)
  simp only [changeMany, List.mem_cons, List.not_mem_nil, or_false] at hd
  rcases hd with rfl | rfl | rfl | rfl
  · simp [ofTarget, hlookup, h.within_changedRecord, h.within_newRecord]
  · simp [ofTarget, hlookup, h.within_changedRecord]
  · simp [ofTarget, roleRef, hcondition, hmutation, hbulk]
  · exact hrow

theorem Available.within_updateMany (hlist : field.isList = true) (before : String) :
    (names.updateMany before bulkAllowed).schema.Within provided := by
  have hupsert : provided (names.role "UpsertWithWhereUnique" "Input") :=
    h.role (by simp [NestedRole.all, NestedRole.changes, hlist]) (by decide)
  have hfound : provided (names.role "UpdateWithWhereUnique" "Input") :=
    h.role (by simp [NestedRole.all, NestedRole.changes, hlist]) (by decide)
  have hmatching : provided (names.role "UpdateManyWithWhere" "Input") :=
    h.role (by simp [NestedRole.all, NestedRole.changes, hlist]) (by decide)
  refine .object fun p hp => ?_
  simp only [List.mem_append] at hp
  rcases hp with ((((((hp | hp) | hp) | hp) | hp) | hp) | hp) | hp
  · obtain rfl := List.mem_singleton.mp hp
    exact .optional h.within_newRecords
  · exact within_of_mem_several h.within_connectOrCreate p hp
  · exact within_of_mem_several (.ref hupsert) p hp
  · exact h.within_of_mem_bulk hlist p hp
  · exact within_of_mem_several (.ref h.lookup) p hp
  · exact within_of_mem_several (.ref hfound) p hp
  · exact within_of_mem_several (.ref hmatching) p hp
  · exact within_of_mem_several (.ref (h.bulkCondition hlist)) p hp

theorem Available.within_changes {graph : Graph} {edge : Edge} (hbulk : bulkAllowed = !edge.reverse.isList)
    (hrow : (Schema.strictObject
      (Payload.bulkProperties .update .unchecked edge.target (some edge.reverse))).Within provided)
    {d : Declaration} (hd : d ∈ names.changes graph field edge) :
    d ∈ names.payload graph .update edge ∨ d.schema.Within provided := by
  refine (List.mem_append.mp hd).imp_right fun hd => ?_
  split at hd
  · next hlist =>
    simp only [List.mem_append, List.mem_cons, List.not_mem_nil, or_false] at hd
    rcases hd with hd | rfl | rfl
    · exact h.within_changeMany hlist hrow hd
    · exact hbulk ▸ h.within_updateMany hlist "UpdateMany"
    · exact hbulk ▸ h.within_updateMany hlist "UncheckedUpdateMany"
  · next hlist =>
    have hcondition := h.condition
    simp only [List.mem_cons, List.not_mem_nil, or_false] at hd
    rcases hd with rfl | rfl | rfl
    · simp [upsertOne, ofTarget, hcondition, h.within_changedRecord, h.within_newRecord]
    · simp [changeOne, ofTarget, hcondition, h.within_changedRecord]
    · exact h.within_updateOne (by simpa using hlist)

end

end NestedNames

namespace DataModel
variable {model : DataModel} {names : String → Prop}

/-! ### Edges of the model -/

section
variable (hs : model.Supplies names) {owner : Entity} (ho : owner ∈ model.entities) {field : Field}
  (hf : field ∈ owner.relationFields)
include hs ho hf

/-- With values and conditions, most of what the nested writes of a relation field rely on is there. -/
theorem Supplies.available {edge : Edge} (hedge : (Graph.ofModel model).edge? owner field = some edge)
    (hroles : ∀ role ∈ NestedRole.all field (!edge.reverse.isList), role ∉ NestedRole.entries →
      names (role.name (.ofEdge edge)))
    (hbulk : names (Naming.ofEntity edge.target.name "UpdateManyMutationInput")) :
    (NestedNames.ofEdge edge).Available names field (!edge.reverse.isList) := by
  have ht : edge.target ∈ model.entities := Graph.target_mem_of_edge? hedge
  obtain ⟨relation, hr, hname⟩ := Graph.relation?_of_edge? hedge
  have husage := has_targetUsage_of_mem (mem_allFields_of_mem ho (Entity.mem_of_mem_relationFields hf)) hr
  rw [← hname] at husage
  refine ⟨hroles, hs.whereInput ht, hs.whereUnique ht, hbulk, fun hlist => ?_⟩
  rw [Field.multiplicity_eq_list.mpr hlist, Usage.has] at husage
  exact hs.conditions edge.target ht _ (by simp [Entity.conditionSuffixes, husage])

omit ho hf in
/-- The nested writes of a relation field, payloads apart, refer to each other, to values and to conditions. -/
theorem Supplies.within_of_mem_nestedWrites (hm : model.Resolved) {edge : Edge}
    (hedge : (Graph.ofModel model).edge? owner field = some edge)
    (h : (NestedNames.ofEdge edge).Available names field (!edge.reverse.isList)) {d : Declaration}
    (hd : d ∈ (Graph.ofModel model).nestedWrites owner field) :
    (∃ purpose, d ∈ (NestedNames.ofEdge edge).payload (Graph.ofModel model) purpose edge) ∨ d.schema.Within names := by
  have ht : edge.target ∈ model.entities := Graph.target_mem_of_edge? hedge
  rw [Graph.nestedWrites, hedge] at hd
  rcases List.mem_append.mp hd with hd | hd
  · exact (h.within_creations rfl (hs.within_bulkProperties ht hm .create .unchecked _) hd).imp_left (⟨_, ·⟩)
  · exact (h.within_changes rfl (hs.within_bulkProperties ht hm .update .unchecked _) hd).imp_left (⟨_, ·⟩)

end

/-- The payloads among the nested writes refer to values and to nested writes. -/
theorem Supplies.within_of_mem_payload (hs : model.Supplies names) (hn : model.SuppliesNested names)
    (hm : model.Resolved) {edge : Edge} (ht : edge.target ∈ model.entities) {purpose : Purpose} {d : Declaration}
    (hd : d ∈ (NestedNames.ofEdge edge).payload (Graph.ofModel model) purpose edge) : d.schema.Within names := by
  simp only [NestedNames.payload, List.mem_cons, List.not_mem_nil, or_false] at hd
  rcases hd with rfl | rfl
  · exact hs.within_properties hn ht hm purpose .checked (some edge.reverse)
  · exact hs.within_properties hn ht hm purpose .unchecked (some edge.reverse)

/-- The nested writes of a relation field refer to declared inputs only. -/
theorem within_of_mem_nestedWrites {owner : Entity} (ho : owner ∈ model.entities) {field : Field}
    (hf : field ∈ owner.relationFields) (hm : model.Resolved) {d : Declaration}
    (hd : d ∈ (Graph.ofModel model).nestedWrites owner field) : d.schema.Within model.Provides := by
  obtain ⟨edge, hedge, -⟩ := Graph.mem_nestedWrites.mp hd
  have ht : edge.target ∈ model.entities := Graph.target_mem_of_edge? hedge
  have havailable := supplies_provides.available ho hf hedge
    (fun role hrole _ => provides_nestedRole ho hf hedge hrole)
    (provides_ofEntity ht (by simp [Entity.inputSuffixes, Entity.payloadSuffixes]))
  rcases supplies_provides.within_of_mem_nestedWrites hm hedge havailable hd with ⟨purpose, hd⟩ | hd
  · exact supplies_provides.within_of_mem_payload suppliesNested_provides hm ht hd
  · exact hd

end DataModel

end DataShapes
