import DataShapes.Generation
import DataShapes.Proofs.Graph.Locality
import DataShapes.Proofs.Graph.Usage

/-! # Declarations of a larger model

A model that has the entities and enumerations of another one, and in which relations lead where they led there,
builds all that the other builds: what is built of an entity depends on the far sides of its fields, which are
the same, and on what the model uses, of which there is only more. -/

namespace DataShapes

/-! ### What far sides decide -/

/-- The far sides of an entity's fields are the same in both graphs. -/
def Graph.AgreesOn (graph other : Graph) (entity : Entity) : Prop :=
  ∀ field ∈ entity.fields, other.edge? entity field = graph.edge? entity field

section
variable {graph other : Graph} {entity : Entity} (h : graph.AgreesOn other entity)
include h

theorem Payload.properties_congr (purpose : Purpose) (form : Form) (omitted : Option Field) :
    Payload.properties other purpose form entity omitted = Payload.properties graph purpose form entity omitted :=
  List.filterMap_congr fun field hf => by simp only [Payload.ofField?, h field hf]

theorem Entity.createInputs_congr : entity.createInputs other = entity.createInputs graph := by
  simp only [createInputs, Payload.properties_congr h]

theorem Entity.updateInputs_congr : entity.updateInputs other = entity.updateInputs graph := by
  simp only [updateInputs, Payload.properties_congr h]

theorem Entity.countSelection_congr : entity.countSelection other = entity.countSelection graph := by
  have hfields : entity.countableFields other = entity.countableFields graph :=
    List.filter_congr fun field hf => by rw [h field (List.mem_of_mem_filter hf)]
  simp only [countSelection, hfields]

/-- Nested writes depend on the far side of their field and on those of the target. -/
theorem Graph.nestedWrites_congr {field : Field} (hf : field ∈ entity.fields)
    (ht : ∀ edge, graph.edge? entity field = some edge → graph.AgreesOn other edge.target) :
    other.nestedWrites entity field = graph.nestedWrites entity field := by
  unfold nestedWrites
  rw [h field hf]
  cases hedge : graph.edge? entity field with
  | none => rfl
  | some edge =>
    simp only [NestedNames.creations, NestedNames.changes, NestedNames.payload,
      Payload.properties_congr (ht edge hedge)]

end

/-! ### What is used decides -/

theorem sublist_ite {α : Type} {c c' : Prop} [Decidable c] [Decidable c'] (h : c → c') (xs : List α) :
    (if c then xs else []).Sublist (if c' then xs else []) := by
  by_cases hc : c
  · rw [if_pos hc, if_pos (h hc)]
  · rw [if_neg hc]
    exact List.nil_sublist _

theorem Operation.nullabilities_sublist {usage other : Usage} (h : ∀ m, usage.has m = true → other.has m = true) :
    (nullabilities usage).Sublist (nullabilities other) :=
  (sublist_ite (h .required) _).append (sublist_ite (h .nullable) _)

theorem Entity.relationFilters_sublist (entity : Entity) {usage other : Usage}
    (h : ∀ m, usage.has m = true → other.has m = true) :
    (entity.relationFilters usage).Sublist (entity.relationFilters other) :=
  ((sublist_ite (h .list) _).append (sublist_ite (h .required) _)).append (sublist_ite (h .nullable) _)

namespace DataModel

section
variable {model grown : DataModel} (h : ∀ field ∈ model.allFields, field ∈ grown.allFields)
include h

theorem primitives_sublist : (Primitives.declarations model).Sublist (Primitives.declarations grown) :=
  (List.Sublist.refl _).append (sublist_ite (any_scalarUsage_mono h .json) _)

theorem scalarFilters_subperm : (Filter.scalarDeclarations model).Subperm (Filter.scalarDeclarations grown) :=
  subperm_flatMap (scalarTypes_sublist h).subperm fun type _ =>
    (Usage.multiplicities_sublist (scalarUsage_mono h type)).filterMap _

theorem enumerationFilters_sublist (enumeration : Enumeration) :
    (Filter.enumerationDeclarations model enumeration).Sublist (Filter.enumerationDeclarations grown enumeration) :=
  (Usage.multiplicities_sublist (enumerationUsage_mono h enumeration.name)).map _

theorem scalarOperations_subperm : (Operation.scalarDeclarations model).Subperm (Operation.scalarDeclarations grown) :=
  subperm_flatMap (scalarTypes_sublist h).subperm fun type _ =>
    (Operation.nullabilities_sublist (scalarUsage_mono h type)).filterMap _

theorem enumerationOperations_sublist (enumeration : Enumeration) :
    (Operation.enumerationDeclarations model enumeration).Sublist
      (Operation.enumerationDeclarations grown enumeration) :=
  (Operation.nullabilities_sublist (enumerationUsage_mono h enumeration.name)).map _

/-- With the same far sides more usage makes more queries. -/
theorem queryDeclarations_sublist {entity : Entity} {graph other : Graph} (hg : graph.AgreesOn other entity) :
    (model.queryDeclarations graph entity).Sublist (grown.queryDeclarations other entity) := by
  have hu : ∀ m, (model.targetUsage entity.name).has m = true → (grown.targetUsage entity.name).has m = true :=
    targetUsage_mono h entity.name
  have hbulk : (entity.bulkWhere (model.targetUsage entity.name)).Sublist
      (entity.bulkWhere (grown.targetUsage entity.name)) := sublist_ite (hu .list) _
  have hsize : (entity.orderBySize (model.targetUsage entity.name)).Sublist
      (entity.orderBySize (grown.targetUsage entity.name)) := sublist_ite (hu .list) _
  simp only [queryDeclarations, List.append_assoc, Entity.countSelection_congr hg]
  exact (List.Sublist.refl _).append ((entity.relationFilters_sublist hu).append (hbulk.append
    ((List.Sublist.refl _).append (hsize.append (List.Sublist.refl _)))))

end

/-! ### Larger models -/

/-- The larger model has what the other has, as often; in it entities are told by their names, and the relations
of the other lead where they led. -/
structure Extends (grown model : DataModel) : Prop where
  entities : model.entities.Subperm grown.entities
  enumerations : model.enumerations.Subperm grown.enumerations
  distinct : (grown.entities.map (·.name)).Nodup
  targets : ∀ entity ∈ model.entities, entity.SameTargets model grown

namespace Extends
variable {model grown : DataModel} (h : grown.Extends model)
include h

theorem mem_allFields {field : Field} (hf : field ∈ model.allFields) : field ∈ grown.allFields := by
  obtain ⟨entity, he, hf⟩ := DataModel.mem_allFields.mp hf
  exact DataModel.mem_allFields.mpr ⟨entity, h.entities.subset he, hf⟩

theorem distinct_smaller : (model.entities.map (·.name)).Nodup := by
  obtain ⟨entities, hperm, hsublist⟩ := h.entities
  exact (hperm.map _).nodup_iff.mp (h.distinct.sublist (hsublist.map _))

theorem agreesOn {entity : Entity} (he : entity ∈ model.entities) :
    (Graph.ofModel model).AgreesOn (Graph.ofModel grown) entity := fun _ hf =>
  edge?_congr h.distinct_smaller h.distinct he (h.entities.subset he) (h.targets entity he) hf

theorem nestedWrites_eq {entity : Entity} (he : entity ∈ model.entities) {field : Field}
    (hf : field ∈ entity.relationFields) :
    (Graph.ofModel grown).nestedWrites entity field = (Graph.ofModel model).nestedWrites entity field :=
  Graph.nestedWrites_congr (h.agreesOn he) (List.mem_of_mem_filter hf) fun _ hedge =>
    h.agreesOn (Graph.target_mem_of_edge? hedge)

theorem recordDeclarations_subperm : model.recordDeclarations.Subperm grown.recordDeclarations := by
  refine List.Subperm.append ?_ (subperm_flatMap h.entities fun _ _ => .refl _)
  rw [List.map_eq_flatMap, List.map_eq_flatMap]
  exact subperm_flatMap h.enumerations fun _ _ => .refl _

theorem querySection_subperm :
    (model.querySection (Graph.ofModel model)).Subperm (grown.querySection (Graph.ofModel grown)) := by
  have hf : ∀ field ∈ model.allFields, field ∈ grown.allFields := fun _ => h.mem_allFields
  refine List.Subperm.append (List.Subperm.append ?_ ?_) ?_
  · exact scalarFilters_subperm hf
  · exact subperm_flatMap h.enumerations fun enumeration _ => enumerationFilters_sublist hf enumeration
  · exact subperm_flatMap h.entities fun entity he => queryDeclarations_sublist hf (h.agreesOn he)

theorem payloadSection_subperm :
    (model.payloadSection (Graph.ofModel model)).Subperm (grown.payloadSection (Graph.ofModel grown)) := by
  have hf : ∀ field ∈ model.allFields, field ∈ grown.allFields := fun _ => h.mem_allFields
  refine List.Subperm.append (List.Subperm.append (List.Subperm.append ?_ ?_) ?_) ?_
  · exact scalarOperations_subperm hf
  · exact subperm_flatMap h.enumerations fun enumeration _ => enumerationOperations_sublist hf enumeration
  · refine subperm_flatMap h.entities fun entity he => ?_
    rw [Entity.createInputs_congr (h.agreesOn he), Entity.updateInputs_congr (h.agreesOn he)]
  · refine subperm_flatMap h.entities fun entity he => ?_
    rw [List.flatMap_congr fun field hf => h.nestedWrites_eq he hf]

theorem argumentSection_subperm : model.argumentSection.Subperm grown.argumentSection :=
  subperm_flatMap h.entities fun _ _ => .refl _

/-- The larger model builds whatever the other builds, as often. -/
theorem built_subperm : model.built.Subperm grown.built := by
  have hprimitives := (primitives_sublist fun _ => h.mem_allFields).subperm
  simp only [built, sections, List.flatMap_cons, List.flatMap_nil]
  exact hprimitives.append (h.recordDeclarations_subperm.append (h.querySection_subperm.append
    (h.payloadSection_subperm.append (h.argumentSection_subperm.append (.refl _)))))

end Extends

end DataModel

end DataShapes
