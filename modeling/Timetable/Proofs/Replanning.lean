import Timetable.Proofs.CommittedSearch
import Timetable.Proofs.PlacedGroups
import Timetable.Proofs.RoomsAgain
import Timetable.Proofs.ScheduledExams

/-! Planning again with a plan and its rooms as the starting point. The groups are settled, so the
search can only find the plan again; every seating is a pin, so the rooms are filled as before. -/

namespace Timetable.Proofs.Replanning
open Grouping GroupMembership CommittedGroups CommittedSearch InputChecks PlacedGroups PlanStages
  ScheduledExams Returned

variable {input : PlanningInput} {config : Config} {groups : List ExamGroup} {plan : Plan}
  {first : Outcome} {others : SearchParams}

/-- An input that keeps the plan and the rooms of an outcome. -/
def keeping (input : PlanningInput) (outcome : Outcome) : PlanningInput :=
  { input with committed := outcome.plan.placements, pinned := outcome.rooms.seatings }

section
variable (handed : Handed input config first)
include handed

private theorem handed_places : ∀ group ∈ (grouped (input.calendar config) input.exams input.committed).groups,
    Places first.plan.placements group := by
  obtain ⟨genes, planned⟩ := exists_genes handed.scheduled (codes_nodup handed)
  exact handed.built ▸ CommittedSearch.places planned

private theorem agenda_distinct : ∀ item ∈ examsNeedingRooms first.plan first.groups input.exams,
    (item.2.map (·.ancode)).Nodup := by
  intro item listed
  refine examsNeedingRooms_distinct ?_ listed
  rw [handed.built]
  exact grouped_exams_nodup handed.accepted.distinct_exams

private theorem seated_known : ∀ entry ∈ first.rooms.seatings,
    entry.slot ∈ input.period.slots.map (·.slot) ∧ entry.ancode ∈ input.exams.map (·.ancode) := by
  intro entry member
  obtain ⟨exams, listed, exam, within, same⟩ :=
    SeatedStudents.seating_listed (examsNeedingRooms_slots ..) handed.allocated member
  obtain ⟨⟨group, -, placed⟩, known⟩ := examsNeedingRooms_known listed
  obtain ⟨placement, found, here⟩ := Option.map_eq_some_iff.mp placed
  change placement.slot = entry.slot at here
  rw [← here, ← same]
  exact ⟨placed_known handed placement (List.mem_of_find?_eq_some found),
    List.mem_map_of_mem (known exam within)⟩

/-- The checks in front of a search have nothing to say about a plan that has been handed out. -/
theorem accepted_again (valid : validateConfig { config with search := others } = .ok ()) :
    Accepted (keeping input first) { config with search := others } := by
  have places := handed_places handed
  have committed := committedProblems_eq_nil_iff.mpr (placed_known handed)
  have pinned := pinnedProblems_eq_nil_iff.mpr (seated_known handed)
  obtain ⟨calendar, duplicates, slots, exams, rooms, staff, -, -⟩ :=
    problems_eq_nil_iff.mp handed.accepted.sound
  constructor
  case sound =>
    exact problems_eq_nil_iff.mpr
      ⟨calendar, duplicates, slots, exams, rooms, staff, committed, pinned⟩
  case settings => exact validateConfig_ok_iff.mp valid
  case housed => exact handed.accepted.housed
  case inRange => exact handed.accepted.inRange
  case schedulable => exact grouped_schedulable handed.accepted.distinct_exams places

private theorem prepare_again (valid : validateConfig { config with search := others } = .ok ()) :
    prepare (keeping input first) { config with search := others }
      = .ok (first.groups.map (settle first.plan.placements)) := by
  refine prepare_ok_iff.mpr ⟨accepted_again handed valid, ?_⟩
  rw [handed.built]
  exact (grouped_settle handed.accepted.distinct_exams (handed_places handed)).symm

/-- Once more only a search for settled groups stands between the checks and the rooms. -/
theorem plan_again (valid : validateConfig { config with search := others } = .ok ()) :
    Timetable.plan (keeping input first) { config with search := others } =
      (Search.ofGroups others config.penalties (first.groups.map (settle first.plan.placements))).schedule
        >>= fun plan => (furnish (keeping input first) { config with search := others }
          (first.groups.map (settle first.plan.placements)) plan).mapError .fault :=
  ok_bind (prepare_again handed valid)

private theorem allocate_again (unpinned : input.pinned = []) (unreserved : config.rooms.reserveMinStudents = 0)
    (seated : first.rooms.shortfalls = []) :
    (Allocator.ofConfig input.rooms config).allocate
      (examsNeedingRooms first.plan first.groups input.exams) input.accommodations first.rooms.seatings
      = .ok first.rooms := by
  have returned := handed.allocated
  rw [unpinned] at returned
  have named := SlotRounds.ofConfig_named handed.accepted.distinct_rooms config
  exact RoomsAgain.allocateFrom_again named unreserved (examsNeedingRooms_slots ..)
    (agenda_distinct handed) returned seated (fun _ _ => rfl) (fun _ => .rfl)

private theorem furnish_again (unpinned : input.pinned = []) (unreserved : config.rooms.reserveMinStudents = 0)
    (seated : first.rooms.shortfalls = []) (same : plan.placements = first.plan.placements) :
    furnish (keeping input first) { config with search := others }
      (first.groups.map (settle first.plan.placements)) plan
      = .ok ⟨first.groups.map (settle first.plan.placements), plan, first.rooms, first.staffing⟩ := by
  have allocated := allocate_again handed unpinned unreserved seated
  refine furnish_ok_iff.mpr ⟨rfl, rfl, ?_, ?_⟩
  · rw [keeping, examsNeedingRooms_map same (settle_code _) (settle_exams _)]
    exact allocated
  · rw [keeping, scheduledExams_map same (settle_code _) (settle_exams _)]
    exact handed.balanced

end

/-- Planning again from an outcome without pins, reserves and shortfalls gives the same placements,
rooms and duties, whatever the settings of the search are, as long as its draws return. -/
theorem replanning_changes_nothing (planned : Timetable.plan input config = .ok first)
    (unpinned : input.pinned = []) (unreserved : config.rooms.reserveMinStudents = 0)
    (seated : first.rooms.shortfalls = []) (others : SearchParams)
    (valid : validateConfig { config with search := others } = .ok ())
    (drawn : Timetable.plan { input with
        committed := first.plan.placements, pinned := first.rooms.seatings }
      { config with search := others } ≠ .error (.fault .drawsExhausted)) :
    ∃ second, Timetable.plan { input with
          committed := first.plan.placements, pinned := first.rooms.seatings }
        { config with search := others } = .ok second ∧
      second.plan.placements = first.plan.placements ∧
      second.rooms.seatings = first.rooms.seatings ∧ second.rooms.shortfalls = [] ∧
      second.staffing = first.staffing := by
  have handed := handed planned
  have repeated := plan_again handed valid
  rcases schedule_settle handed.scheduled (codes_nodup handed) others with ⟨again, found, same⟩ | failed
  · refine ⟨⟨first.groups.map (settle first.plan.placements), again, first.rooms, first.staffing⟩,
      ?_, same, rfl, seated, rfl⟩
    refine repeated.trans ((ok_bind found).trans ?_)
    rw [furnish_again handed unpinned unreserved seated same]
    rfl
  · refine absurd (repeated.trans ?_) drawn
    rw [failed]
    rfl

theorem two_days_are_kept : ∃ first second, Timetable.plan twoDays (briefly 0) = .ok first ∧
    Timetable.plan { twoDays with committed := first.plan.placements, pinned := first.rooms.seatings }
      (briefly 7) = .ok second ∧
    second.plan.placements = first.plan.placements ∧ second.rooms.seatings = first.rooms.seatings ∧
    second.rooms.shortfalls = [] ∧ second.staffing = first.staffing := by
  obtain ⟨plan, staffing, planned, placed⟩ := twoDays_planned
  have prepared : prepare { twoDays with pinned := twoRooms.seatings } (briefly 7) = .ok twoGroups := by
    decide +kernel
  have drawn : ((Search.ofGroups (briefly 7).search (briefly 7).penalties twoGroups).firstPopulation.run
      (ChaCha.ofSeed (briefly 7).search.seed.toUInt64 (0 : Nat).toUInt64)).isOk = true := by decide +kernel
  obtain ⟨balance, balanced⟩ : ∃ balance, Staffing.balance [] (briefly 7) twoRooms.seatings
      (scheduledExams (.ofPlacements twoDays.committed) twoGroups twoDays.exams)
      (twoDays.calendar (briefly 7)) = .ok balance := ⟨_, rfl⟩
  obtain ⟨again, returned, -⟩ := @plan_forced { twoDays with pinned := twoRooms.seatings } (briefly 7)
    twoGroups twoDays.committed [⟨1, 1⟩, ⟨2, 1⟩] twoRooms balance prepared rfl rfl rfl rfl rfl drawn rfl balanced
  have same : ({ twoDays with committed := plan.placements, pinned := twoRooms.seatings } : PlanningInput)
      = { twoDays with pinned := twoRooms.seatings } := by
    rw [placed]
  obtain ⟨second, found, kept⟩ := replanning_changes_nothing planned rfl rfl rfl (briefly 7).search rfl (by
    rw [same]
    exact returned ▸ nofun)
  exact ⟨_, second, planned, found, kept⟩

end Timetable.Proofs.Replanning
