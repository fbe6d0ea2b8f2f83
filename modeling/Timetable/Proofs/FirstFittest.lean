import Timetable.Proofs.SureGenerations

/-! What a plan is chosen from. The candidate picked from a population, the best one of the picks of a run and
the best run are strict maxima, and each keeps the first of equals. Together they keep the first of the fittest
candidates that were ever bred, if all fitness values are numbers. -/

namespace Timetable.Proofs.FirstFittest
open Draws SearchRuns Generations FilledDomains RunBounds Returned SureGenerations

section
variable {x y z : Double}

theorem le_refl (number : x.isNaN = false) : x ≤ x := Double.le_iff.mpr ⟨number, number, UInt64.le_refl _⟩

theorem le_of_not_lt (first : x.isNaN = false) (second : y.isNaN = false) (level : ¬ x < y) : y ≤ x := by
  rw [Double.lt_iff, not_and, not_and, UInt64.not_lt] at level
  exact Double.le_iff.mpr ⟨second, first, level first second⟩

theorem le_of_lt (below : x < y) : x ≤ y := by
  obtain ⟨first, second, places⟩ := Double.lt_iff.mp below
  exact Double.le_iff.mpr ⟨first, second, UInt64.le_of_lt places⟩

theorem le_trans (first : x ≤ y) (second : y ≤ z) : x ≤ z := by
  obtain ⟨number, -, low⟩ := Double.le_iff.mp first
  obtain ⟨-, other, high⟩ := Double.le_iff.mp second
  exact Double.le_iff.mpr ⟨number, other, UInt64.le_trans low high⟩

theorem lt_of_le_of_lt (first : x ≤ y) (second : y < z) : x < z := by
  obtain ⟨number, -, low⟩ := Double.le_iff.mp first
  obtain ⟨-, other, high⟩ := Double.lt_iff.mp second
  exact Double.lt_iff.mpr ⟨number, other, UInt64.lt_of_le_of_lt low high⟩

private theorem not_le_of_lt (below : x < y) : ¬ y ≤ x := by
  intro level
  exact UInt64.not_lt.mpr (Double.le_iff.mp level).2.2 (Double.lt_iff.mp below).2.2

end

section
variable {α β : Type} {f : α → Double} {xs others : List α} {first best x : α}

/-- The first of the greatest members of a list. -/
def First (f : α → Double) (xs : List α) (best : α) : Prop :=
  ∃ before after, xs = before ++ best :: after ∧ (∀ x ∈ before, f x < f best) ∧ ∀ x ∈ after, f x ≤ f best

theorem First.mem (chosen : First f xs best) : best ∈ xs := by
  obtain ⟨before, after, rfl, -⟩ := chosen
  exact List.mem_append_right _ List.mem_cons_self

theorem First.le (chosen : First f xs best) (number : (f best).isNaN = false) (member : x ∈ xs) : f x ≤ f best := by
  obtain ⟨before, after, rfl, less, most⟩ := chosen
  rcases List.mem_append.mp member with member | member
  · exact le_of_lt (less x member)
  · rcases List.mem_cons.mp member with rfl | member
    · exact le_refl number
    · exact most x member

theorem First.find? (chosen : First f xs best) (number : (f best).isNaN = false) :
    xs.find? (fun x => f best ≤ f x) = some best := by
  obtain ⟨before, after, rfl, less, -⟩ := chosen
  refine List.find?_eq_some_iff_append.mpr ⟨decide_eq_true (le_refl number), before, after, rfl, ?_⟩
  intro x member
  simpa using not_le_of_lt (less x member)

/-- Where the members stand in the order of their keys, those with smaller keys are less. -/
theorem First.lt_of_key {key : α → Nat} (chosen : First f xs best) (ascending : xs.Pairwise (key · < key ·))
    (member : x ∈ xs) (earlier : key x < key best) : f x < f best := by
  obtain ⟨before, after, rfl, less, -⟩ := chosen
  rcases List.mem_append.mp member with member | member
  · exact less x member
  · have later := (List.pairwise_cons.mp (List.pairwise_append.mp ascending).2.1).1
    rcases List.mem_cons.mp member with rfl | member
    · exact absurd earlier (Nat.lt_irrefl _)
    · exact absurd earlier (Nat.lt_asymm (later x member))

theorem First.map {g : β → α} {items : List β} {item : β} (chosen : First (f ∘ g) items item) :
    First f (items.map g) (g item) := by
  obtain ⟨before, after, rfl, less, most⟩ := chosen
  exact ⟨before.map g, after.map g, by rw [List.map_append, List.map_cons],
    List.forall_mem_map.mpr less, List.forall_mem_map.mpr most⟩

/-- A strict maximum stays with what it has found unless something greater follows. -/
theorem First.next (chosen : First f xs best) (number : (f best).isNaN = false) (other : (f x).isNaN = false) :
    First f (xs ++ [x]) (if f best < f x then x else best) := by
  by_cases greater : f best < f x
  · rw [if_pos greater]
    exact ⟨xs, [], rfl, fun y member => lt_of_le_of_lt (chosen.le number member) greater, by simp⟩
  · rw [if_neg greater]
    obtain ⟨before, after, rfl, less, most⟩ := chosen
    refine ⟨before, after ++ [x], by rw [List.append_assoc, List.cons_append], less, fun y member => ?_⟩
    rcases List.mem_append.mp member with member | last
    · exact most y member
    · rw [List.mem_singleton.mp last]
      exact le_of_not_lt number other greater

private theorem first_foldl (numbers : ∀ x ∈ first :: others, (f x).isNaN = false) :
    First f (first :: others) (others.foldl (fun best x => if f best < f x then x else best) first) := by
  have scan : ∀ (rest seen : List α) (best : α), First f seen best → (∀ x ∈ seen ++ rest, (f x).isNaN = false) →
      First f (seen ++ rest) (rest.foldl (fun best x => if f best < f x then x else best) best) := by
    intro rest
    induction rest with
    | nil =>
      intro seen best chosen _
      rw [List.append_nil]
      exact chosen
    | cons x rest ih =>
      intro seen best chosen numbers
      have next := chosen.next (numbers best (List.mem_append_left _ chosen.mem))
        (numbers x (List.mem_append_right _ List.mem_cons_self))
      rw [List.foldl_cons, List.append_cons]
      exact ih _ _ next (by rwa [← List.append_cons])
  exact scan others [first] first ⟨[], [], rfl, by simp, by simp⟩ numbers

private theorem First.append_le (chosen : First f xs best) (most : ∀ x ∈ others, f x ≤ f best) :
    First f (xs ++ others) best := by
  obtain ⟨before, after, rfl, less, level⟩ := chosen
  refine ⟨before, after ++ others, by rw [List.append_assoc, List.cons_append], less, ?_⟩
  exact List.forall_mem_append.mpr ⟨level, most⟩

private theorem First.prepend_lt (chosen : First f xs best) (less : ∀ x ∈ others, f x < f best) :
    First f (others ++ xs) best := by
  obtain ⟨before, after, rfl, below, most⟩ := chosen
  exact ⟨others ++ before, after, by rw [List.append_assoc], List.forall_mem_append.mpr ⟨less, below⟩, most⟩

private theorem flatten_le {blocks : List (List α)} {bests : List α} (each : List.Forall₂ (First f) blocks bests)
    (most : ∀ top ∈ bests, f top ≤ f best) : ∀ x ∈ blocks.flatten, f x ≤ f best := by
  induction each with
  | nil => simp
  | cons picked _ ih =>
    obtain ⟨level, most⟩ := List.forall_mem_cons.mp most
    have number := (Double.le_iff.mp level).1
    rw [List.flatten_cons]
    exact List.forall_mem_append.mpr ⟨fun x member => le_trans (picked.le number member) level, ih most⟩

/-- The first greatest of the first greatest members of each block is the first greatest of all blocks. -/
theorem First.flatten {blocks : List (List α)} {bests : List α} (chosen : First f bests best)
    (each : List.Forall₂ (First f) blocks bests) : First f blocks.flatten best := by
  obtain ⟨before, after, rfl, less, most⟩ := chosen
  induction before generalizing blocks with
  | nil =>
    cases each with
    | cons picked later => exact picked.append_le (flatten_le later most)
  | cons top before ih =>
    obtain ⟨below, less⟩ := List.forall_mem_cons.mp less
    have number := (Double.lt_iff.mp below).1
    cases each with
    | cons picked later =>
      exact (ih later less).prepend_lt fun x member => lt_of_le_of_lt (picked.le number member) below

end

section
variable {σ : Type} {moments : List (Moment σ)} {population picks : List Candidate} {pick : Candidate}

private theorem first_of_fittest (numbers : ∀ candidate ∈ population, candidate.fitness.isNaN = false)
    (fittest : Search.fittestOf population = .ok pick) : First (·.fitness) population pick := by
  cases population with
  | nil => cases fittest
  | cons first others =>
    obtain rfl := Except.ok.inj fittest
    exact first_foldl numbers

private theorem first_of_picks (picked : Picks moments picks)
    (numbers : ∀ candidate ∈ (moments.map (·.population)).flatten, candidate.fitness.isNaN = false) :
    List.Forall₂ (First (·.fitness)) (moments.map (·.population)) picks ∧
      ∀ pick ∈ picks, pick.fitness.isNaN = false := by
  induction picked with
  | nil => exact ⟨.nil, by simp⟩
  | cons fittest _ ih =>
    rw [List.map_cons, List.flatten_cons, List.forall_mem_append] at numbers
    obtain ⟨each, rest⟩ := ih numbers.2
    have first := first_of_fittest numbers.1 fittest
    exact ⟨.cons first each, List.forall_mem_cons.mpr ⟨numbers.1 _ first.mem, rest⟩⟩

end

section
variable {σ : Type} [RandomSource σ] {search : Search} {now next start last : Moment σ}
  {later : List (Moment σ)} {source : σ} {seen : List Candidate} {result : RunResult × σ}

/-- A run ends with the first of the fittest candidates it has bred. -/
theorem run_first (starts : Starts search source start) (goes : Goes search start later last)
    (numbers : ∀ candidate ∈ ((start :: later).map (·.population)).flatten, candidate.fitness.isNaN = false) :
    First (·.fitness) ((start :: later).map (·.population)).flatten last.best := by
  obtain ⟨picks, picked, best, -⟩ := goes_picks goes (start_counted starts)
  rw [List.nil_append] at best
  obtain ⟨each, tops⟩ := first_of_picks (List.Forall₂.cons starts.fittest picked : Picks _ _) numbers
  rw [best]
  exact First.flatten (first_foldl tops) each

/-- The candidates of a run, population after population. -/
def History (search : Search) (source : σ) (seen : List Candidate) : Prop :=
  ∃ start later last, Starts search source start ∧ Goes search start later last ∧
    seen = ((start :: later).map (·.population)).flatten

theorem Starts.unique {other : Moment σ} (starts : Starts search source start) (again : Starts search source other) :
    start = other := by
  obtain ⟨drawn, fittest, fresh⟩ := starts
  obtain ⟨redrawn, refound, refreshed⟩ := again
  cases start
  cases other
  cases drawn.symm.trans redrawn
  cases fittest.symm.trans refound
  cases fresh
  cases refreshed
  rfl

theorem Step.unique {other : Moment σ} (step : Step search now next) (again : Step search now other) :
    next = other := by
  cases step with
  | improves _ bred fittest better =>
    cases again with
    | improves _ rebred refound _ =>
      cases bred.symm.trans rebred
      cases fittest.symm.trans refound
      rfl
    | stalls _ rebred refound worse =>
      cases bred.symm.trans rebred
      cases fittest.symm.trans refound
      exact absurd better worse
  | stalls _ bred fittest worse =>
    cases again with
    | improves _ rebred refound better =>
      cases bred.symm.trans rebred
      cases fittest.symm.trans refound
      exact absurd better worse
    | stalls _ rebred refound _ =>
      cases bred.symm.trans rebred
      rfl

theorem Goes.unique {others : List (Moment σ)} {finish : Moment σ} (goes : Goes search now later last)
    (again : Goes search now others finish) : later = others := by
  induction goes generalizing others with
  | ends tired =>
    cases again with
    | ends => rfl
    | on step _ => exact absurd (Step.lively step) tired
  | on step _ ih =>
    cases again with
    | ends tired => exact absurd (Step.lively step) tired
    | on other rest =>
      obtain rfl := Step.unique step other
      rw [ih rest]

theorem History.unique {others : List Candidate} (history : History search source seen)
    (again : History search source others) : seen = others := by
  obtain ⟨start, later, last, starts, goes, rfl⟩ := history
  obtain ⟨start, later, last, restarts, regoes, rfl⟩ := again
  obtain rfl := Starts.unique starts restarts
  rw [Goes.unique goes regoes]

private theorem exists_history (ran : search.run.run source = .ok result) :
    ∃ seen, History search source seen ∧ ((∀ candidate ∈ seen, candidate.fitness.isNaN = false) →
      First (·.fitness) seen result.1.best) := by
  obtain ⟨start, later, last, starts, goes, rfl⟩ := run_ok_iff.mp ran
  exact ⟨_, ⟨start, later, last, starts, goes, rfl⟩, run_first starts goes⟩

end

section
variable {search : Search} {plan : Plan} {number : Nat} {run : Search.NumberedRun}

def wordsOf (search : Search) (number : Nat) : ChaCha :=
  ChaCha.ofSeed search.params.seed.toUInt64 number.toUInt64

private theorem numberedRun_ok (returned : search.numberedRun number = .ok run) :
    run.number = number ∧ ∃ last, search.run.run (wordsOf search number) = .ok (run.result, last) := by
  rw [Search.numberedRun, Search.seededRun] at returned
  cases ran : search.run.run (wordsOf search number) with
  | error fault =>
    rw [wordsOf] at ran
    rw [ran] at returned
    cases returned
  | ok result =>
    rw [wordsOf] at ran
    rw [ran] at returned
    cases returned
    exact ⟨rfl, result.2, rfl⟩

/-- A plan is made of the best of the runs, which are numbered from zero. -/
theorem bestPlan_ok (returned : search.bestPlan = .ok plan) :
    ∃ first others, (List.range search.runCount).mapM search.numberedRun = .ok (first :: others) ∧
      plan.run = (Search.bestRun first others).number ∧
      plan.fitness = (Search.bestRun first others).result.best.fitness ∧
      plan.penalty = (Search.bestRun first others).result.best.penalty ∧
      plan.placements =
        List.zipWith Placement.mk search.graph.codes (Search.bestRun first others).result.best.genes := by
  obtain ⟨first, zero, returned⟩ := bind_ok returned
  obtain ⟨others, rest, returned⟩ := bind_ok returned
  obtain rfl := pure_ok returned
  refine ⟨first, others, ?_, rfl, rfl, rfl, rfl⟩
  have count : search.runCount = search.runCount - 1 + 1 := by
    unfold Search.runCount
    omega
  rw [count, List.range_succ_eq_map]
  exact mapM_ok_iff.mpr (.cons zero (mapM_ok_iff.mp rest))

private theorem numbers_ascending {runs : List Search.NumberedRun}
    (ran : (List.range search.runCount).mapM search.numberedRun = .ok runs) :
    runs.Pairwise (·.number < ·.number) := by
  have numbered : List.Forall₂ (fun number (run : Search.NumberedRun) => number = run.number)
      (List.range search.runCount) runs :=
    (mapM_ok_iff.mp ran).imp fun _ _ returned => (numberedRun_ok returned).1.symm
  rw [← List.forall₂_map_right_iff, List.forall₂_eq_eq_eq] at numbered
  rw [← List.pairwise_map, ← numbered]
  exact List.pairwise_lt_range

private theorem bestPlan_of_runs (each : ∀ number < search.runCount, ∃ run, search.numberedRun number = .ok run) :
    ∃ plan, search.bestPlan = .ok plan := by
  have present : 0 < search.runCount := Nat.lt_of_lt_of_le Nat.one_pos (Nat.le_max_right _ _)
  obtain ⟨first, zero⟩ := each 0 present
  have later : ∀ number ∈ (List.range (search.runCount - 1)).map (· + 1),
      ∃ run, search.numberedRun number = .ok run := by
    intro number member
    obtain ⟨earlier, inside, rfl⟩ := List.mem_map.mp member
    have below := List.mem_range.mp inside
    exact each (earlier + 1) (by omega)
  obtain ⟨others, rest⟩ := exists_mapM_iff.mpr later
  rw [Search.bestPlan, zero, ok_bind rfl, rest, ok_bind rfl]
  exact ⟨_, rfl⟩

/-- A search whose edges stay in its graph returns a plan, or a run of it lacks an acceptable draw. -/
theorem bestPlan_returns (search : Search) : (∃ plan, search.bestPlan = .ok plan) ∨
    search.bestPlan = .error .drawsExhausted ∧ ¬ Supplied search ∨
    search.bestPlan = .error .outOfRange ∧ ¬ Closed search.graph := by
  by_cases closed : Closed search.graph
  · rcases bestPlan_chooses closed with ⟨plan, returned, -⟩ | failed
    · exact .inl ⟨plan, returned⟩
    · exact .inr (.inl failed)
  · have present : 0 < search.runCount := Nat.lt_of_lt_of_le Nat.one_pos (Nat.le_max_right _ _)
    right
    rw [Search.bestPlan, Search.numberedRun, Search.seededRun, Search.run, StateT.run_bind]
    rcases firstPopulation_astray closed (wordsOf search 0) with ⟨failed, tired⟩ | failed
    · rw [wordsOf] at failed
      rw [failed]
      exact .inl ⟨rfl, fun supplied => tired (supplied 0 present)⟩
    · rw [wordsOf] at failed
      rw [failed]
      exact .inr ⟨rfl, closed⟩

/-- A plan holds the first of the fittest candidates of all populations of all runs, if their fitness values are
numbers: none of them is fitter, those of earlier runs are less fit, and so are those bred before it in its run. -/
theorem plan_is_first_fittest (search : Search)
    (numbers : ∀ number < search.runCount, ∀ seen, History search (wordsOf search number) seen →
      ∀ candidate ∈ seen, candidate.fitness.isNaN = false) :
    (∃ plan, search.bestPlan = .ok plan ∧
        (∀ number < search.runCount, ∃ seen, History search (wordsOf search number) seen) ∧
        (∀ number < search.runCount, ∀ seen, History search (wordsOf search number) seen →
          ∀ candidate ∈ seen, candidate.fitness ≤ plan.fitness ∧
            (number < plan.run → candidate.fitness < plan.fitness)) ∧
        plan.run < search.runCount ∧ ∀ seen, History search (wordsOf search plan.run) seen →
          ∃ candidate, seen.find? (fun other => plan.fitness ≤ other.fitness) = some candidate ∧
            plan.fitness = candidate.fitness ∧ plan.penalty = candidate.penalty ∧
            plan.placements = List.zipWith Placement.mk search.graph.codes candidate.genes) ∨
      search.bestPlan = .error .drawsExhausted ∧ ¬ Supplied search ∨
      search.bestPlan = .error .outOfRange ∧ ¬ Closed search.graph := by
  refine (bestPlan_returns search).imp_left fun ⟨plan, returned⟩ => ⟨plan, returned, ?_⟩
  obtain ⟨first, others, ran, number, fitness, penalty, placements⟩ := bestPlan_ok returned
  rw [fitness, penalty, placements, number]
  have reached : ∀ number < search.runCount, ∃ run ∈ first :: others, run.number = number := by
    intro number below
    obtain ⟨run, member, returned⟩ := exists_result ran (List.mem_range.mpr below)
    exact ⟨run, member, (numberedRun_ok returned).1⟩
  have each : ∀ run ∈ first :: others, run.number < search.runCount ∧ run.result.best.fitness.isNaN = false ∧
      ∃ seen, History search (wordsOf search run.number) seen ∧ First (·.fitness) seen run.result.best := by
    intro run member
    obtain ⟨number, listed, returned⟩ := exists_item ran member
    have below := List.mem_range.mp listed
    obtain ⟨rfl, _, ended⟩ := numberedRun_ok returned
    obtain ⟨seen, history, best⟩ := exists_history ended
    have best := best (numbers run.number below seen history)
    exact ⟨below, numbers run.number below seen history _ best.mem, seen, history, best⟩
  have chosen : First (·.result.best.fitness) (first :: others) (Search.bestRun first others) :=
    first_foldl fun run member => (each run member).2.1
  obtain ⟨below, numeral, own, history, best⟩ := each _ chosen.mem
  refine ⟨?_, ?_, below, ?_⟩
  · intro number inside
    obtain ⟨run, member, rfl⟩ := reached number inside
    obtain ⟨-, -, seen, history, -⟩ := each run member
    exact ⟨seen, history⟩
  · intro number inside seen again candidate bred
    obtain ⟨run, member, rfl⟩ := reached number inside
    obtain ⟨-, number, _, history, best⟩ := each run member
    obtain rfl := history.unique again
    have level := best.le number bred
    exact ⟨le_trans level (chosen.le numeral member),
      fun earlier => lt_of_le_of_lt level (chosen.lt_of_key (numbers_ascending ran) member earlier)⟩
  · intro seen again
    obtain rfl := history.unique again
    exact ⟨_, best.find? numeral, rfl, rfl, rfl⟩

end

/-- Where all assignments have numbers for their fitness, so has every candidate. -/
theorem history_numbers {σ : Type} [RandomSource σ] {search : Search} {source : σ} {seen : List Candidate}
    (closed : Closed search.graph) (numbers : none ∉ fitnessValues search) (history : History search source seen) :
    ∀ candidate ∈ seen, candidate.fitness.isNaN = false := by
  obtain ⟨start, later, last, starts, goes, rfl⟩ := history
  intro candidate member
  obtain ⟨population, listed, bred⟩ := List.mem_flatten.mp member
  obtain ⟨moment, passed, rfl⟩ := List.mem_map.mp listed
  have whole := goes.keeps (fun _ _ whole step => Step.formed closed step whole) (Starts.formed closed starts)
  have known := value_known ((whole moment passed).generation.scored candidate bred)
  cases number : candidate.fitness.isNaN with
  | false => rfl
  | true =>
    rw [valueOf, if_pos number] at known
    exact absurd known numbers

/-- Two runs of one generation each. Both begin with a candidate that leaves no clash, the first run as its second
and the second run as its first one. -/
def twoStarts : Search := .ofGroups { population := 2, noImprovement := 1, runs := 2, seed := 1 } {} mixedGroups

theorem best_of_two_starts :
    (∀ number < 2, ∃ start next : Moment ChaCha, Starts twoStarts (wordsOf twoStarts number) start ∧
      Step twoStarts start next) ∧
    ∃ plan, twoStarts.bestPlan = .ok plan ∧
      (∀ number < 2, ∃ seen, History twoStarts (wordsOf twoStarts number) seen) ∧
      (∀ number < 2, ∀ seen, History twoStarts (wordsOf twoStarts number) seen →
        ∀ candidate ∈ seen, candidate.fitness ≤ plan.fitness ∧
          (number < plan.run → candidate.fitness < plan.fitness)) ∧
      plan.run < 2 ∧ ∀ seen, History twoStarts (wordsOf twoStarts plan.run) seen →
        ∃ candidate, seen.find? (fun other => plan.fitness ≤ other.fitness) = some candidate ∧
          plan.fitness = candidate.fitness ∧ plan.penalty = candidate.penalty ∧
          plan.placements = List.zipWith Placement.mk twoStarts.graph.codes candidate.genes := by
  have closed : Closed twoStarts.graph := ConflictEdges.closed_ofGroups mixedGroups
  have known : none ∉ fitnessValues twoStarts := by decide +kernel
  have short : ∀ domain ∈ twoStarts.graph.domains, domain.length ≤ 2 := by decide
  have begins : ∀ number < 2, beginsBest twoStarts (wordsOf twoStarts number) = true := by decide +kernel
  have bred (number : Nat) (below : number < 2) := exists_only_generation closed rfl short (begins number below)
  refine ⟨?_, ?_⟩
  · intro number below
    obtain ⟨start, next, starts, step, -⟩ := bred number below
    exact ⟨start, next, starts, step⟩
  obtain ⟨plan, returned⟩ : ∃ plan, twoStarts.bestPlan = .ok plan := by
    refine bestPlan_of_runs fun number below => ?_
    obtain ⟨_, _, -, -, ran⟩ := bred number below
    rw [Search.numberedRun, Search.seededRun]
    rw [wordsOf] at ran
    rw [ran]
    exact ⟨_, rfl⟩
  rcases plan_is_first_fittest twoStarts fun _ _ _ => history_numbers closed known with
    found | ⟨failed, -⟩ | ⟨failed, -⟩
  · exact found
  · cases returned.symm.trans failed
  · cases returned.symm.trans failed

end Timetable.Proofs.FirstFittest
