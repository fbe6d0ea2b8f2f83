import Timetable.Proofs.Lookups
import Timetable.Proofs.SearchRuns

/-! The conflict graph of groups and the clashes along its edges. An edge leads from one group that has to be
placed to another, and a clash is looked for at the edge of the group that stands earlier. -/

namespace Timetable.Proofs.ConflictEdges
open ConflictGraph SearchRuns

theorem tooClose_iff {a b : Slot} : a.tooClose b = true ↔
    a.day = b.day ∧ a.number ≤ b.number + 1 ∧ b.number ≤ a.number + 1 := by
  simp [Slot.tooClose, and_assoc]

theorem tooClose_comm (a b : Slot) : a.tooClose b = b.tooClose a := by
  rw [Bool.eq_iff_iff, tooClose_iff, tooClose_iff]
  constructor
  all_goals
    rintro ⟨day, below, above⟩
    exact ⟨day.symm, above, below⟩

section
variable {graph : ConflictGraph} {slots : List Slot} {node : ConflictNode} {place : Nat} {edge : ConflictEdge}
  {clash : Clash}

def along (graph : ConflictGraph) (slots : List Slot) (node : ConflictNode) (place : Nat) (edge : ConflictEdge) :
    List Clash :=
  match graph.nodes[edge.target]?, slots[place]?, slots[edge.target]? with
  | some other, some own, some theirs =>
    if place < edge.target ∧ node.external = false ∧ other.external = false ∧ own.tooClose theirs = true then
      [⟨node.code, other.code, edge.students⟩]
    else []
  | _, _, _ => []

private theorem clashAlong_eq (target : edge.target < graph.size) (here : place < slots.length)
    (there : edge.target < slots.length) :
    graph.clashAlong slots.toArray node place edge = .ok (along graph slots node place edge) := by
  have other := List.getElem?_eq_getElem (l := graph.nodes) target
  have own := List.getElem?_eq_getElem here
  have theirs := List.getElem?_eq_getElem there
  unfold clashAlong along
  simp only [other, own, theirs, slotAt, List.getElem?_toArray]
  by_cases skipped : edge.target ≤ place ∨ node.external = true ∨ graph.nodes[edge.target].external = true
  · rw [if_pos skipped, if_neg]
    rintro ⟨ahead, one, two, -⟩
    simp only [one, two, Bool.false_eq_true, or_self, or_false] at skipped
    omega
  · simp only [not_or, Nat.not_le, Bool.not_eq_true] at skipped
    simp only [skipped, Nat.not_le.mpr skipped.1, true_and, Bool.false_eq_true, or_self, if_false]
    rfl

theorem mem_along : clash ∈ along graph slots node place edge ↔
    ∃ other own theirs, graph.nodes[edge.target]? = some other ∧ slots[place]? = some own ∧
      slots[edge.target]? = some theirs ∧ place < edge.target ∧ node.external = false ∧
      other.external = false ∧ own.tooClose theirs = true ∧ clash = ⟨node.code, other.code, edge.students⟩ := by
  unfold along
  split
  · rename_i other own theirs target here there
    split
    · rename_i close
      rw [List.mem_singleton]
      constructor
      · intro same
        exact ⟨other, own, theirs, target, here, there, close.1, close.2.1, close.2.2.1, close.2.2.2, same⟩
      · rintro ⟨again, -, -, same, -, -, -, -, -, -, named⟩
        rw [target, Option.some_inj] at same
        rw [named, same]
    · rename_i apart
      constructor
      · intro member
        cases member
      · rintro ⟨again, first, second, same, one, two, ahead, own, external, close, -⟩
        rw [target, Option.some_inj] at same
        rw [here, Option.some_inj] at one
        rw [there, Option.some_inj] at two
        subst same one two
        exact absurd ⟨ahead, own, external, close⟩ apart
  · rename_i missing
    constructor
    · intro member
      cases member
    · rintro ⟨other, own, theirs, target, here, there, -⟩
      exact absurd there (missing other own theirs target here)

/-- All clashes, in the order in which edges are looked along. -/
def listed (graph : ConflictGraph) (slots : List Slot) : List Clash :=
  graph.nodes.zipIdx.flatMap fun (node, place) => node.edges.flatMap (along graph slots node place)

theorem mem_listed : clash ∈ listed graph slots ↔ ∃ node place edge, graph.nodes[place]? = some node ∧
    edge ∈ node.edges ∧ clash ∈ along graph slots node place edge := by
  simp only [listed, List.mem_flatMap, Prod.exists, List.mk_mem_zipIdx_iff_getElem?]
  constructor
  · rintro ⟨node, place, here, edge, leaving, member⟩
    exact ⟨node, place, edge, here, leaving, member⟩
  · rintro ⟨node, place, edge, here, leaving, member⟩
    exact ⟨node, place, here, edge, leaving, member⟩

/-- Where every place has a slot, the check of an assignment returns. -/
theorem clashes_eq (closed : Closed graph) (length : slots.length = graph.size) :
    graph.clashes slots = .ok (listed graph slots) := by
  have each :
      graph.nodes.zipIdx.mapM (fun (node, place) => node.edges.mapM (graph.clashAlong slots.toArray node place))
        = .ok (graph.nodes.zipIdx.map fun (node, place) => node.edges.map (along graph slots node place)) := by
    apply Returned.mapM_eq
    intro ⟨node, place⟩ member
    have here := List.mk_mem_zipIdx_iff_getElem?.mp member
    have inside : place < graph.size := (List.getElem?_eq_some_iff.mp here).1
    apply Returned.mapM_eq
    intro edge leaving
    have target := closed node (List.mem_of_getElem? here) edge leaving
    exact clashAlong_eq target (length ▸ inside) (length ▸ target)
  unfold clashes
  rw [Returned.ok_bind each, List.map_map]
  rfl

end

section
variable {groups : List ExamGroup} {first second group : ExamGroup} {place students : Nat} {node : ConflictNode}

private theorem placeOf?_some {code : GroupCode} (found : placeOf? groups code = some place) :
    ∃ group, groups[place]? = some group ∧ group.code = code := by
  obtain ⟨⟨group, place⟩, last, rfl⟩ := Option.map_eq_some_iff.mp found
  obtain ⟨member, named⟩ := List.mem_filter.mp (List.mem_of_getLast? last)
  exact ⟨group, List.mk_mem_zipIdx_iff_getElem?.mp member, of_decide_eq_true named⟩

theorem closed_ofGroups (groups : List ExamGroup) : Closed (ofGroups groups) := by
  intro node member edge along
  obtain ⟨group, -, rfl⟩ := List.mem_map.mp member
  obtain ⟨conflict, -, found⟩ := List.mem_filterMap.mp along
  obtain ⟨place, named, rfl⟩ := Option.map_eq_some_iff.mp found
  obtain ⟨second, here, -⟩ := placeOf?_some named
  simpa [ofGroups, ConflictGraph.size] using (List.getElem?_eq_some_iff.mp here).1

theorem ofGroups_codes (groups : List ExamGroup) :
    (ofGroups groups).codes = (groups.filter ExamGroup.isPlaceable).map (·.code) := by
  rw [ofGroups, ConflictGraph.codes, List.map_map]
  rfl

theorem ofGroups_domains (groups : List ExamGroup) :
    (ofGroups groups).domains = (groups.filter ExamGroup.isPlaceable).map (·.allowedSlots) := by
  rw [ofGroups, ConflictGraph.domains, List.map_map]
  rfl

theorem ofGroups_node_iff : (ofGroups groups).nodes[place]? = some node ↔
    ∃ group, (groups.filter ExamGroup.isPlaceable)[place]? = some group ∧
      ⟨group.code, group.allowedSlots, group.isExternal, edgesOf (groups.filter ExamGroup.isPlaceable) group⟩
        = node := by
  rw [ofGroups, List.getElem?_map, Option.map_eq_some_iff]

theorem ofGroups_node (here : (groups.filter ExamGroup.isPlaceable)[place]? = some first) :
    (ofGroups groups).nodes[place]? = some ⟨first.code, first.allowedSlots, first.isExternal,
      edgesOf (groups.filter ExamGroup.isPlaceable) first⟩ :=
  ofGroups_node_iff.mpr ⟨first, here, rfl⟩

theorem clashes_ofGroups {slots : List Slot} (length : slots.length = (groups.filter ExamGroup.isPlaceable).length) :
    (ofGroups groups).clashes slots = .ok (listed (ofGroups groups) slots) :=
  clashes_eq (closed_ofGroups groups) (length.trans (List.length_map _).symm)

theorem exists_edge (distinct : (groups.map (·.code)).Nodup) {j count : Nat}
    (here : groups[j]? = some second) (positive : 0 < count)
    (conflict : ⟨second.code, count⟩ ∈ first.conflicts) :
    ⟨j, count⟩ ∈ edgesOf groups first := by
  have place : placeOf? groups second.code = some j := by
    rw [placeOf?, Lookups.place_key distinct here, Option.map_some]
  refine List.mem_filterMap.mpr ⟨_, List.mem_filter.mpr ⟨conflict, by simpa using positive⟩, ?_⟩
  rw [place, Option.map_some]

end

end Timetable.Proofs.ConflictEdges
