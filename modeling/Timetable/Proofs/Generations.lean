import Timetable.Proofs.PlanStages

/-! A run of the search, generation by generation. Every population is as large as the first one and of
scored candidates, and so is the candidate that a run remembers beside them. -/

namespace Timetable.Proofs.Generations
open ConflictGraph ConflictEdges Draws SearchRuns PlanStages

structure Moment (σ : Type) where
  population : List Candidate
  best : Candidate
  /-- The generations since a better candidate was found. -/
  stale : Nat
  source : σ

section
variable {σ : Type} [RandomSource σ] {search : Search}

structure Starts (search : Search) (source : σ) (start : Moment σ) : Prop where
  drawn : search.firstPopulation.run source = .ok (start.population, start.source)
  fittest : Search.fittestOf start.population = .ok start.best
  fresh : start.stale = 0

/-- One generation. The candidate that is fittest in it may be better than the best one so far. -/
inductive Step (search : Search) : Moment σ → Moment σ → Prop where
  | improves {now : Moment σ} {population : List Candidate} {found : Candidate} {source : σ}
      (lively : now.stale < search.params.noImprovement)
      (bred : (search.nextPopulation now.population).run now.source = .ok (population, source))
      (fittest : Search.fittestOf population = .ok found) (better : now.best.fitness < found.fitness) :
      Step search now ⟨population, found, 0, source⟩
  | stalls {now : Moment σ} {population : List Candidate} {found : Candidate} {source : σ}
      (lively : now.stale < search.params.noImprovement)
      (bred : (search.nextPopulation now.population).run now.source = .ok (population, source))
      (fittest : Search.fittestOf population = .ok found) (worse : ¬ now.best.fitness < found.fitness) :
      Step search now ⟨population, now.best, now.stale + 1, source⟩

inductive Goes (search : Search) : Moment σ → List (Moment σ) → Moment σ → Prop where
  | ends {now : Moment σ} (tired : ¬ now.stale < search.params.noImprovement) : Goes search now [] now
  | on {now next last : Moment σ} {later : List (Moment σ)} (step : Step search now next)
      (rest : Goes search next later last) : Goes search now (next :: later) last

variable {now next start last : Moment σ} {later : List (Moment σ)} {source : σ}

private theorem Goes.last_mem (goes : Goes search now later last) : last ∈ now :: later := by
  induction goes with
  | ends => exact List.mem_singleton_self _
  | on _ _ ih => exact List.mem_cons_of_mem _ ih

/-- What each generation keeps holds through the whole run. -/
theorem Goes.keeps {kept : Moment σ → Prop}
    (step : ∀ before after, kept before → Step search before after → kept after)
    (goes : Goes search now later last) (start : kept now) : ∀ moment ∈ now :: later, kept moment := by
  induction goes with
  | ends => exact List.forall_mem_singleton.mpr start
  | on next _ ih => exact List.forall_mem_cons.mpr ⟨start, ih (step _ _ start next)⟩

private theorem continueRun_goes (population : List Candidate) (best : Candidate) (stale generations : Nat) (source : σ)
    {result : RunResult × σ}
    (ran : (search.continueRun population best stale generations).run source = .ok result) :
    ∃ later last, Goes search ⟨population, best, stale, source⟩ later last ∧
      result = (⟨last.best, generations + later.length⟩, last.source) := by
  rw [Search.continueRun] at ran
  split at ran
  · rename_i lively
    obtain ⟨next, middle, bred, chosen⟩ := ran_bind ran
    obtain ⟨found, after, looked, rest⟩ := ran_bind chosen
    obtain ⟨fittest, rfl⟩ := ran_lift looked
    by_cases better : best.fitness < found.fitness
    · rw [if_pos better] at rest
      obtain ⟨later, last, goes, rfl⟩ := continueRun_goes next found 0 (generations + 1) after rest
      refine ⟨_, last, .on (.improves lively bred fittest better) goes, ?_⟩
      rw [List.length_cons, Nat.add_right_comm, Nat.add_assoc]
    · rw [if_neg better] at rest
      obtain ⟨later, last, goes, rfl⟩ := continueRun_goes next best (stale + 1) (generations + 1) after rest
      refine ⟨_, last, .on (.stalls lively bred fittest better) goes, ?_⟩
      rw [List.length_cons, Nat.add_right_comm, Nat.add_assoc]
  · rename_i tired
    cases ran
    exact ⟨[], _, .ends tired, rfl⟩
termination_by (Search.headroom best.fitness, search.params.noImprovement - stale)
decreasing_by
  · exact Prod.Lex.left _ _ (Search.headroom_lt better)
  · exact Prod.Lex.right _ (by omega)

private theorem Goes.continueRun_eq (goes : Goes search now later last) (generations : Nat) :
    (search.continueRun now.population now.best now.stale generations).run now.source
      = .ok (⟨last.best, generations + later.length⟩, last.source) := by
  induction goes generalizing generations with
  | ends tired =>
    rw [Search.continueRun, if_neg tired]
    rfl
  | on step _ ih =>
    rw [List.length_cons, ← Nat.add_assoc, Nat.add_right_comm]
    cases step with
    | improves lively bred fittest better =>
      rw [Search.continueRun, if_pos lively, bind_run bred, bind_run (lift_run fittest), if_pos better]
      exact ih (generations + 1)
    | stalls lively bred fittest worse =>
      rw [Search.continueRun, if_pos lively, bind_run bred, bind_run (lift_run fittest), if_neg worse]
      exact ih (generations + 1)

/-- A run returns by going through generations, with the best candidate of its last moment. -/
theorem run_ok_iff {result : RunResult × σ} : search.run.run source = .ok result ↔
    ∃ start later last, Starts search source start ∧ Goes search start later last ∧
      result = (⟨last.best, later.length⟩, last.source) := by
  constructor
  · intro ran
    obtain ⟨population, middle, drawn, chosen⟩ := ran_bind ran
    obtain ⟨best, after, looked, rest⟩ := ran_bind chosen
    obtain ⟨fittest, rfl⟩ := ran_lift looked
    obtain ⟨later, last, goes, rfl⟩ := continueRun_goes population best 0 0 after rest
    exact ⟨_, later, last, ⟨drawn, fittest, rfl⟩, goes, by rw [Nat.zero_add]⟩
  · rintro ⟨start, later, last, starts, goes, rfl⟩
    have ended := goes.continueRun_eq 0
    rw [starts.fresh, Nat.zero_add] at ended
    rw [Search.run, bind_run starts.drawn, bind_run (lift_run starts.fittest), ended]

structure Whole (search : Search) (moment : Moment σ) : Prop where
  generation : Generation search moment.population
  best : Scored search moment.best

theorem scored_fittest {population : List Candidate} {found : Candidate} (generation : Generation search population)
    (fittest : Search.fittestOf population = .ok found) : Scored search found := by
  obtain ⟨best, -, same, scored⟩ := generation.exists_fittest
  cases fittest.symm.trans same
  exact scored

section
variable (closed : Closed search.graph)
include closed

theorem Starts.whole (starts : Starts search source start) : Whole search start := by
  have generation := (firstPopulation_yields closed).holds starts.drawn
  exact ⟨generation, scored_fittest generation starts.fittest⟩

theorem Step.whole (step : Step search now next) (whole : Whole search now) : Whole search next := by
  cases step with
  | improves _ bred fittest _ =>
    have generation := (nextPopulation_yields closed whole.generation).holds bred
    exact ⟨generation, scored_fittest generation fittest⟩
  | stalls _ bred _ _ => exact ⟨(nextPopulation_yields closed whole.generation).holds bred, whole.best⟩

private theorem whole_run (starts : Starts search source start) (goes : Goes search start later last) :
    ∀ moment ∈ start :: later, Whole search moment :=
  goes.keeps (fun _ _ whole step => step.whole closed whole) (starts.whole closed)

end

end

section
variable {groups : List ExamGroup} {placements : List Placement} {genes : List Slot}

private theorem placedSlot?_of_mem (distinct : (placements.map (·.group)).Nodup) {placement : Placement}
    (member : placement ∈ placements) : placedSlot? placements placement.group = some placement.slot := by
  rw [placedSlot?, Lookups.getLast?_key distinct member, Option.map_some]

/-- The assignment that is read off a plan is the one it was made of. -/
theorem assignmentOf?_planned (planned : Planned groups placements genes) :
    (ofGroups groups).assignmentOf? placements = some genes := by
  unfold assignmentOf?
  rw [ofGroups_codes]
  apply Returned.mapM_some
  rw [List.forall₂_map_left_iff]
  exact planned.pairs.imp fun _ _ member => placedSlot?_of_mem planned.groups_nodup member

private theorem slots_planned {plan : Plan} (planned : Planned groups plan.placements genes) :
    List.Forall₂ (fun group gene => plan.slotOf? group.code = some gene)
      (groups.filter ExamGroup.isPlaceable) genes :=
  planned.pairs.imp fun _ _ member => (ScheduledExams.slotOf?_iff planned.groups_nodup).mpr member

/-- Whatever its settings, and whatever numbers they are, a run from a lively source returns, and no run fails
but for want of an acceptable draw. It goes through populations of one size, of candidates with one gene for
each group that is to be placed, and ends with a candidate that has the penalty and the fitness of its own
genes. A plan places the groups by the genes of a run, and both ways to look them up answer with these genes. -/
theorem every_generation_is_whole {σ : Type} [RandomSource σ] (distinct : (groups.map (·.code)).Nodup)
    (params : SearchParams) (weights : PenaltyWeights) :
    (∀ source : σ, (∃ start later last, Starts (Search.ofGroups params weights groups) source start ∧
        Goes (Search.ofGroups params weights groups) start later last ∧
        (Search.ofGroups params weights groups).run.run source = .ok (⟨last.best, later.length⟩, last.source) ∧
        (∀ moment ∈ start :: later, moment.population.length = max params.population 2 ∧
          ∀ candidate ∈ moment.population, Scored (.ofGroups params weights groups) candidate ∧
            candidate.genes.length = (groups.filter ExamGroup.isPlaceable).length) ∧
        (ofGroups groups).penalty weights last.best.genes = .ok last.best.penalty ∧
        last.best.fitness = fitnessOf last.best.penalty) ∨
      (Search.ofGroups params weights groups).run.run source = .error .drawsExhausted ∧ ¬ Lively source) ∧
    ((∃ plan result, (Search.ofGroups params weights groups).bestPlan = .ok plan ∧
        (Search.ofGroups params weights groups).seededRun plan.run = .ok result ∧
        plan.placements =
          List.zipWith Placement.mk ((groups.filter ExamGroup.isPlaceable).map (·.code)) result.best.genes ∧
        plan.penalty = result.best.penalty ∧ plan.fitness = result.best.fitness ∧
        (ofGroups groups).assignmentOf? plan.placements = some result.best.genes ∧
        List.Forall₂ (fun group gene => plan.slotOf? group.code = some gene)
          (groups.filter ExamGroup.isPlaceable) result.best.genes) ∨
      (Search.ofGroups params weights groups).bestPlan = .error .drawsExhausted ∧
        ¬ Supplied (.ofGroups params weights groups)) := by
  have closed : Closed (Search.ofGroups params weights groups).graph := closed_ofGroups groups
  constructor
  · intro source
    rcases run_yields closed source with ⟨result, returned, -⟩ | failed
    · obtain ⟨start, later, last, starts, goes, rfl⟩ := run_ok_iff.mp returned
      have whole := whole_run closed starts goes
      refine .inl ⟨start, later, last, starts, goes, returned, ?_, ?_⟩
      · intro moment reached
        have generation := (whole moment reached).generation
        refine ⟨generation.size, ?_⟩
        intro candidate member
        have scored := generation.scored candidate member
        exact ⟨scored, (allowed_length scored.allowed).trans (List.length_map _)⟩
      · have best := (whole last goes.last_mem).best
        exact ⟨best.penalty, best.fitness⟩
    · exact .inr failed
  · rcases bestPlan_chooses closed with ⟨plan, found, result, chooses⟩ | failed
    · have planned := planned_of_chooses chooses distinct
      exact .inl ⟨plan, result, found, chooses.ended.seeded, planned.eq, chooses.penalty, chooses.fitness,
        assignmentOf?_planned planned, slots_planned planned⟩
    · exact .inr failed

end

structure Zeros where

instance : RandomSource Zeros where
  word32 source := (0, source)
  word64 source := (0, source)

/-- The product of a zero is accepted at once. -/
theorem accepted_zero {σ : Type} {size limit n : Nat} {word : Draw σ Nat} {source after : σ} (positive : 0 < limit)
    (drawn : word.run source = .ok (0, after)) :
    (Draw.accepted size limit word n Draw.attempts).run source = .ok (0, after) := by
  have attempts : Draw.attempts = 0x3fffffffffffffff + 1 := by decide
  rw [attempts, Draw.accepted, bind_run drawn]
  simp only [Nat.zero_mul, Nat.zero_mod, if_pos positive, Nat.zero_div]
  rfl

theorem zeros_lively : Lively Zeros.mk := by
  have shifted {n : Nat} (positive : 0 < n) (places : Nat) : 0 < n <<< places := by
    rw [Nat.shiftLeft_eq]
    exact Nat.mul_pos positive (Nat.two_pow_pos places)
  refine ⟨fun _ => True, ⟨fun _ _ => trivial, ?_, ?_⟩, trivial⟩
  · intro source _ n positive
    unfold Draw.below
    rw [if_neg (Nat.ne_of_gt positive)]
    exact ⟨0, source, accepted_zero (shifted positive _) rfl, trivial⟩
  · intro source _ n positive
    unfold Draw.belowLong
    rw [if_neg (Nat.ne_of_gt positive)]
    exact ⟨0, source, accepted_zero (shifted positive _) rfl, trivial⟩

/-- A group with two slots to choose from, one that is not placed and one without a slot to choose. -/
def mixedGroups : List ExamGroup :=
  [⟨1, [1], 2, 90, [⟨1, 1⟩, ⟨2, 1⟩], [⟨4, 1⟩], .scheduled⟩, ⟨2, [2], 2, 60, [], [], .external none⟩,
   ⟨3, [3], 2, 60, [], [], .scheduled⟩, ⟨4, [4], 2, 60, [⟨2, 1⟩], [⟨1, 1⟩], .locked ⟨2, 1⟩⟩]

/-- Three candidates, and settings that are no numbers. -/
def oddly : SearchParams :=
  { population := 3, noImprovement := 2, targetMutation := ⟨0x7ff8000000000000⟩,
    selection := .rank ⟨0x7ff8000000000000⟩, crossover := .onePoint }

theorem three_candidates_stay_three : (mixedGroups.map (·.code)).Nodup ∧
    ∃ start next : Moment Zeros, Starts (.ofGroups oddly {} mixedGroups) ⟨⟩ start ∧
      Step (.ofGroups oddly {} mixedGroups) start next ∧ next.population.length = 3 ∧
      ∀ candidate ∈ next.population, candidate.genes.length = 3 := by
  have distinct : (mixedGroups.map (·.code)).Nodup := by decide
  refine ⟨distinct, ?_⟩
  rcases (every_generation_is_whole distinct oddly {}).1 Zeros.mk with
    ⟨start, later, last, starts, goes, -, whole, -⟩ | ⟨-, tired⟩
  · cases goes with
    | ends tired =>
      rw [starts.fresh] at tired
      exact absurd (by decide) tired
    | on step rest =>
      obtain ⟨size, genes⟩ := whole _ (List.mem_cons_of_mem _ List.mem_cons_self)
      exact ⟨start, _, starts, step, size, fun candidate member => (genes candidate member).2⟩
  · exact absurd zeros_lively tired

end Timetable.Proofs.Generations
