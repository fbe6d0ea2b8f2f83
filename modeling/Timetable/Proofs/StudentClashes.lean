import Timetable.Proofs.PlanStages
import Timetable.Proofs.SharedStudents

/-! A plan that is handed out keeps the exams of every student apart. The clash check only looks along
the edges of the conflict graph, so the argument follows a student from two registrations to an
edge, and from the edge to the two slots it compares. -/

namespace Timetable.Proofs.StudentClashes
open ConflictGraph ConflictEdges PlanStages

section
variable {groups : List ExamGroup} {first second : ExamGroup}

section
variable {params : SearchParams} {weights : PenaltyWeights} {plan : Plan}

/-- The plan names the slot that the clash check looks up at the place of a group. -/
theorem slotOf?_scheduled (returned : (Search.ofGroups params weights groups).schedule = .ok plan)
    (distinct : (groups.map (·.code)).Nodup) {place : Nat} {slot : Slot}
    (present : (groups.filter ExamGroup.isPlaceable)[place]? = some first)
    (here : (plan.placements.map (·.slot))[place]? = some slot) :
    plan.slotOf? first.code = some slot := by
  obtain ⟨genes, planned⟩ := exists_genes returned distinct
  rw [List.getElem?_map] at here
  obtain ⟨placement, entry, rfl⟩ := Option.map_eq_some_iff.mp here
  have named := congrArg (·[place]?) planned.groups_eq
  simp only [List.getElem?_map, entry, present, Option.map_some, Option.some.injEq] at named
  apply (ScheduledExams.slotOf?_iff planned.groups_nodup).mpr
  rw [← named]
  exact List.mem_of_getElem? entry

private theorem apart_ahead (returned : (Search.ofGroups params weights groups).schedule = .ok plan)
    (distinct : (groups.map (·.code)).Nodup) {i j count : Nat}
    (here : (groups.filter ExamGroup.isPlaceable)[i]? = some first)
    (there : (groups.filter ExamGroup.isPlaceable)[j]? = some second) (ahead : i < j)
    (own : first.isExternal = false) (theirs : second.isExternal = false) (positive : 0 < count)
    (conflict : ⟨second.code, count⟩ ∈ first.conflicts) :
    ∃ a b, plan.slotOf? first.code = some a ∧ plan.slotOf? second.code = some b ∧
      a.tooClose b = false := by
  have codes : ((groups.filter ExamGroup.isPlaceable).map (·.code)).Nodup :=
    distinct.sublist (List.filter_sublist.map _)
  obtain ⟨genes, planned⟩ := exists_genes returned distinct
  have length := planned.length_eq
  rw [← planned.slots_eq] at length
  obtain ⟨a, one⟩ := Lookups.exists_at length here
  obtain ⟨b, other⟩ := Lookups.exists_at length there
  refine ⟨a, b, slotOf?_scheduled returned distinct here one, slotOf?_scheduled returned distinct there other, ?_⟩
  cases close : a.tooClose b with
  | false => rfl
  | true =>
    have clash : ⟨first.code, second.code, count⟩ ∈ listed (ofGroups groups) (plan.placements.map (·.slot)) :=
      mem_listed.mpr ⟨_, i, _, ofGroups_node here, exists_edge codes there positive conflict,
        mem_along.mpr ⟨_, a, b, ofGroups_node there, one, other, ahead, own, theirs, close, rfl⟩⟩
    have none := (clashes_ofGroups length).symm.trans (schedule_ok_iff.mp returned).2
    rw [Except.ok.inj none] at clash
    cases clash

/-- The edge between two groups is looked along from the one that stands earlier, whichever it is. -/
theorem apart_of_conflicts (returned : (Search.ofGroups params weights groups).schedule = .ok plan)
    (distinct : (groups.map (·.code)).Nodup) {count back : Nat}
    (isFirst : first ∈ groups) (isSecond : second ∈ groups)
    (own : first.isExternal = false) (theirs : second.isExternal = false)
    (positive : 0 < count) (forth : ⟨second.code, count⟩ ∈ first.conflicts)
    (positiveBack : 0 < back) (backwards : ⟨first.code, back⟩ ∈ second.conflicts)
    (different : first ≠ second) :
    ∃ a b, plan.slotOf? first.code = some a ∧ plan.slotOf? second.code = some b ∧
      a.tooClose b = false := by
  obtain ⟨i, here⟩ := List.mem_iff_getElem?.mp (GroupMembership.placeable_of_internal isFirst own)
  obtain ⟨j, there⟩ := List.mem_iff_getElem?.mp (GroupMembership.placeable_of_internal isSecond theirs)
  rcases Nat.lt_trichotomy i j with ahead | same | behind
  · exact apart_ahead returned distinct here there ahead own theirs positive forth
  · rw [same, there, Option.some.injEq] at here
    exact absurd here.symm different
  · obtain ⟨b, a, slotSecond, slotFirst, apart⟩ :=
      apart_ahead returned distinct there here behind theirs own positiveBack backwards
    exact ⟨a, b, slotFirst, slotSecond, tooClose_comm a b ▸ apart⟩

end

/-- Whoever sits two exams of two groups planned here has neither at the same time nor in
neighbouring slots of a day. Every exam does have a group. -/
theorem students_never_clash {input : PlanningInput} {config : Config} {outcome : Outcome}
    (planned : plan input config = .ok outcome) {e f : Exam} (here : e ∈ input.exams)
    (there : f ∈ input.exams) {student : StudentId} (one : student ∈ e.students)
    (other : student ∈ f.students) :
    (∃ group ∈ outcome.groups, e.ancode ∈ group.exams) ∧
      (∃ group ∈ outcome.groups, f.ancode ∈ group.exams) ∧
      ∀ first ∈ outcome.groups, ∀ second ∈ outcome.groups,
        e.ancode ∈ first.exams → f.ancode ∈ second.exams → first ≠ second →
        first.isExternal = false → second.isExternal = false →
        ∃ a b, outcome.plan.slotOf? first.code = some a ∧ outcome.plan.slotOf? second.code = some b ∧
          ¬ (a.day = b.day ∧ a.number ≤ b.number + 1 ∧ b.number ≤ a.number + 1) := by
  obtain ⟨accepted, built, scheduled, -, -⟩ := handed planned
  have distinct := accepted.distinct_exams
  rw [built] at scheduled ⊢
  refine ⟨GroupMembership.exists_group distinct here, GroupMembership.exists_group distinct there, ?_⟩
  intro first isFirst second isSecond inFirst inSecond different own theirs
  have codes : first.code ≠ second.code := fun same => different
    (Lookups.eq_of_key (GroupMembership.grouped_codes_nodup distinct) isFirst isSecond same)
  obtain ⟨count, positive, forth⟩ := SharedStudents.exists_conflict distinct here there one other
    isFirst isSecond inFirst inSecond codes
  obtain ⟨back, positiveBack, backwards⟩ := SharedStudents.exists_conflict distinct there here other one
    isSecond isFirst inSecond inFirst codes.symm
  obtain ⟨a, b, slotFirst, slotSecond, apart⟩ := apart_of_conflicts scheduled
    (GroupMembership.grouped_codes_nodup distinct) isFirst isSecond own theirs positive forth
    positiveBack backwards different
  refine ⟨a, b, slotFirst, slotSecond, fun close => ?_⟩
  rw [tooClose_iff.mpr close] at apart
  cases apart

theorem both_exams_are_apart : ∃ outcome, Timetable.plan twoDays (briefly 0) = .ok outcome ∧
    ∃ a b, outcome.plan.slotOf? 1 = some a ∧ outcome.plan.slotOf? 2 = some b ∧
      ¬ (a.day = b.day ∧ a.number ≤ b.number + 1 ∧ b.number ≤ a.number + 1) := by
  obtain ⟨plan, staffing, planned, -⟩ := twoDays_planned
  obtain ⟨one, listed, sits, here⟩ : ∃ exam ∈ twoDays.exams, "b" ∈ exam.students ∧ exam.ancode = 1 := by
    decide
  obtain ⟨other, present, joins, there⟩ :
      ∃ exam ∈ twoDays.exams, "b" ∈ exam.students ∧ exam.ancode = 2 := by decide
  obtain ⟨-, -, apart⟩ := students_never_clash planned listed present sits joins
  rw [here, there] at apart
  have first : 1 ∈ twoGroups[0].exams ∧ twoGroups[0].isExternal = false := by decide
  have second : 2 ∈ twoGroups[1].exams ∧ twoGroups[1].isExternal = false := by decide
  have different : twoGroups[0] ≠ twoGroups[1] := by decide
  exact ⟨_, planned, apart _ (List.getElem_mem _) _ (List.getElem_mem _) first.1 second.1 different
    first.2 second.2⟩

end

end Timetable.Proofs.StudentClashes
