import Timetable.Proofs.CommittedGroups
import Timetable.Proofs.PlanStages

/-! A search for groups whose slots are all committed. It has nothing to choose from, so whatever is
drawn it ends with the placements that were committed. -/

namespace Timetable.Proofs.CommittedSearch
open Grouping CommittedGroups ConflictGraph ConflictEdges Draws SearchRuns PlanStages

variable {groups : List ExamGroup} {placements : List Placement} {genes : List Slot}
  {params : SearchParams} {weights : PenaltyWeights} {plan : Plan}

/-- A node that may only take the committed slot of its group. -/
def confine (placements : List Placement) (node : ConflictNode) : ConflictNode :=
  match committedSlot? placements node.code with
  | none => node
  | some slot => { node with domain := [slot] }

private theorem confine_fixed (placements : List Placement) (node : ConflictNode) :
    (confine placements node).code = node.code ∧ (confine placements node).external = node.external ∧
      (confine placements node).edges = node.edges := by
  unfold confine
  split <;> exact ⟨rfl, rfl, rfl⟩

private theorem placeOf?_settle (groups : List ExamGroup) (code : GroupCode) :
    placeOf? (groups.map (settle placements)) code = placeOf? groups code := by
  rw [placeOf?, placeOf?, List.zipIdx_map, List.filter_map, List.getLast?_map, Option.map_map]
  simp [Function.comp_def]

private theorem edgesOf_settle (groups : List ExamGroup) (group : ExamGroup) :
    edgesOf (groups.map (settle placements)) (settle placements group) = edgesOf groups group := by
  simp only [edgesOf, settle_conflicts, placeOf?_settle]

private theorem placeable_settle (placed : ∀ group ∈ groups, Places placements group) :
    (groups.map (settle placements)).filter ExamGroup.isPlaceable
      = (groups.filter ExamGroup.isPlaceable).map (settle placements) := by
  rw [List.filter_map]
  congr 1
  apply List.filter_congr
  exact fun group member => settle_isPlaceable (placed group member)

private theorem ofGroups_settle (placed : ∀ group ∈ groups, Places placements group) :
    ofGroups (groups.map (settle placements)) = ⟨(ofGroups groups).nodes.map (confine placements)⟩ := by
  rw [ofGroups, placeable_settle placed, ofGroups, List.map_map, List.map_map]
  congr 1
  apply List.map_congr_left
  intro group _
  simp only [Function.comp_apply, settle_code, settle_isExternal, edgesOf_settle, confine]
  rw [settle]
  cases committedSlot? placements group.code <;> rfl

private theorem clashAlong_confine (graph : ConflictGraph) (slots : Array Slot) (node : ConflictNode)
    (place : Nat) :
    clashAlong ⟨graph.nodes.map (confine placements)⟩ slots (confine placements node) place
      = clashAlong graph slots node place := by
  funext edge
  obtain ⟨code, external, -⟩ := confine_fixed placements node
  rw [clashAlong, clashAlong, List.getElem?_map, code, external]
  cases graph.nodes[edge.target]? with
  | none => rfl
  | some other =>
    obtain ⟨code, external, -⟩ := confine_fixed placements other
    simp only [Option.map_some, code, external]

private theorem clashes_confine (graph : ConflictGraph) (assignment : List Slot) :
    clashes ⟨graph.nodes.map (confine placements)⟩ assignment = clashes graph assignment := by
  unfold clashes
  simp only [List.zipIdx_map, List.mapM_map]
  simp only [Function.comp_def, Prod.map, id, (confine_fixed placements _).2.2, clashAlong_confine]

/-- Where codes are distinct, the slot committed for a code is the one placed with it. -/
theorem committedSlot?_of_mem (distinct : (placements.map (·.group)).Nodup) {placement : Placement}
    (member : placement ∈ placements) :
    committedSlot? placements placement.group = some placement.slot := by
  rw [committedSlot?, Lookups.getLast?_key distinct member, Option.map_some]

section
variable (planned : Planned groups placements genes)
include planned

theorem places : ∀ group ∈ groups, Places placements group := by
  intro group member
  unfold Places
  cases placeable : group.isPlaceable with
  | true =>
    have listed : group.code ∈ placements.map (·.group) := by
      rw [planned.groups_eq]
      exact List.mem_map_of_mem (List.mem_filter.mpr ⟨member, placeable⟩)
    obtain ⟨placement, placed, same⟩ := List.mem_map.mp listed
    rw [← same, committedSlot?_of_mem planned.groups_nodup placed]
    rfl
  | false =>
    have absent : placements.filter (·.group = group.code) = [] := by
      rw [List.filter_eq_nil_iff]
      intro placement placed same
      have listed := List.mem_map_of_mem (f := (·.group)) placed
      rw [planned.groups_eq] at listed
      obtain ⟨other, inside, equal⟩ := List.mem_map.mp listed
      obtain ⟨inside, chosen⟩ := List.mem_filter.mp inside
      have equal := Lookups.eq_of_key planned.distinct inside member
        (equal.trans (of_decide_eq_true same))
      rw [equal, placeable] at chosen
      cases chosen
    rw [committedSlot?, absent]
    rfl

private theorem committed_genes : List.Forall₂ (fun group gene => committedSlot? placements group.code = some gene)
    (groups.filter ExamGroup.isPlaceable) genes :=
  planned.pairs.imp fun _ _ member => committedSlot?_of_mem planned.groups_nodup member

private theorem domains_eq : (ofGroups (groups.map (settle placements))).domains = genes.map ([·]) := by
  rw [ofGroups_domains, placeable_settle (places planned), List.map_map]
  have matched := committed_genes planned
  generalize groups.filter ExamGroup.isPlaceable = placeable at matched
  clear planned
  induction matched with
  | nil => rfl
  | cons first _ ih =>
    rw [List.map_cons, List.map_cons, ih]
    exact congrArg (· :: _) (settle_allowedSlots first)

end

/-- Whatever its parameters, a search for settled groups finds the placements that settled them. -/
theorem schedule_settle (returned : (Search.ofGroups params weights groups).schedule = .ok plan)
    (distinct : (groups.map (·.code)).Nodup) (others : SearchParams) :
    (∃ again, (Search.ofGroups others weights (groups.map (settle plan.placements))).schedule = .ok again ∧
        again.placements = plan.placements) ∨
      (Search.ofGroups others weights (groups.map (settle plan.placements))).schedule
        = .error (.fault .drawsExhausted) := by
  obtain ⟨genes, planned⟩ := exists_genes returned distinct
  have graph : (Search.ofGroups others weights (groups.map (settle plan.placements))).graph
      = ofGroups (groups.map (settle plan.placements)) := rfl
  rcases @bestPlan_settles (.ofGroups others weights (groups.map (settle plan.placements)))
    (closed_ofGroups _) with ⟨again, found, chosen, allowed, placed⟩ | ⟨failed, -⟩
  · left
    rw [graph, domains_eq planned] at allowed
    obtain rfl := allowed_singletons allowed
    have same : again.placements = plan.placements := by
      rw [placed, graph, ofGroups_codes, placeable_settle (places planned), List.map_map, planned.eq]
      simp [Function.comp_def]
    refine ⟨again, schedule_ok_iff.mpr ⟨found, ?_⟩, same⟩
    rw [graph, ofGroups_settle (places planned), clashes_confine, same]
    exact (schedule_ok_iff.mp returned).2
  · right
    rw [Search.schedule, failed]
    rfl

end Timetable.Proofs.CommittedSearch
