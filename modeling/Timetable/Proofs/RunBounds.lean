import Timetable.Proofs.FilledDomains

/-! How long a run takes. A better candidate leaves fewer values above the best one, and a generation without
one brings the run closer to its end, so the values that can be formed bound the generations of every run. A run
ends with the first block of generations that is long enough and brings nothing better. -/

namespace Timetable.Proofs.RunBounds
open Draws SearchRuns Generations FilledDomains

section
variable {worse better fitness : Double} {candidate : Candidate}

def above (search : Search) (fitness : Double) : Finset (Option UInt64) :=
  (fitnessValues search).filter fun value =>
    fitness.isNaN = false ∧ ∃ place, value = some place ∧ fitness.place < place

theorem above_ssubset (known : valueOf better ∈ fitnessValues search) (rises : worse < better) :
    above search better ⊂ above search worse := by
  obtain ⟨number, numeral, places⟩ := Double.lt_iff.mp rises
  have value : valueOf better = some better.place := if_neg (by rw [numeral]; exact Bool.false_ne_true)
  refine Finset.ssubset_iff_of_subset ?_ |>.mpr ⟨valueOf better, ?_, ?_⟩
  · intro other member
    obtain ⟨listed, -, place, same, greater⟩ := Finset.mem_filter.mp member
    exact Finset.mem_filter.mpr ⟨listed, number, place, same, UInt64.lt_trans places greater⟩
  · exact Finset.mem_filter.mpr ⟨known, number, better.place, value, places⟩
  · intro member
    obtain ⟨-, -, place, same, greater⟩ := Finset.mem_filter.mp member
    rw [value, Option.some.injEq] at same
    exact UInt64.lt_irrefl _ (same ▸ greater)

private theorem above_card_lt (known : valueOf fitness ∈ fitnessValues search) :
    (above search fitness).card < (fitnessValues search).card := by
  refine Finset.card_lt_card (Finset.filter_ssubset.mpr ⟨valueOf fitness, known, ?_⟩)
  rintro ⟨number, place, same, greater⟩
  rw [valueOf, number, if_neg Bool.false_ne_true, Option.some.injEq] at same
  exact UInt64.lt_irrefl _ (same ▸ greater)

end

section
variable {σ : Type} {search : Search} {now : Moment σ} {first pick : Candidate} {before picks : List Candidate}
  {n : Nat}

def Picks (moments : List (Moment σ)) (picks : List Candidate) : Prop :=
  List.Forall₂ (fun moment pick => Search.fittestOf moment.population = .ok pick) moments picks

/-- The pick of generation `n` beats the best one before it. -/
def Beats (first : Candidate) (picks : List Candidate) (n : Nat) : Prop :=
  ∃ pick, picks[n]? = some pick ∧ (Search.fittest first (picks.take n)).fitness < pick.fitness

/-- The last generations of the first `n`, as many as end a run, beat nothing. -/
def Barren (search : Search) (first : Candidate) (picks : List Candidate) (n : Nat) : Prop :=
  search.params.noImprovement ≤ n ∧
    ∀ generation, n - search.params.noImprovement ≤ generation → generation < n → ¬ Beats first picks generation

private theorem beats_append (inside : n < before.length) : Beats first (before ++ picks) n ↔ Beats first before n := by
  rw [Beats, Beats, List.getElem?_append_left inside, List.take_append_of_le_length inside.le]

private theorem beats_last : Beats first (before ++ [pick]) before.length ↔
    (Search.fittest first before).fitness < pick.fitness := by
  rw [Beats, List.getElem?_concat_length, List.take_left]
  constructor
  · rintro ⟨other, same, better⟩
    rwa [Option.some.inj same]
  · exact fun better => ⟨pick, rfl, better⟩

structure Counted (first : Candidate) (before : List Candidate) (now : Moment σ) : Prop where
  best : now.best = Search.fittest first before
  within : now.stale ≤ before.length
  idle : ∀ generation, before.length - now.stale ≤ generation → generation < before.length →
    ¬ Beats first before generation
  fruitful : now.stale < before.length → Beats first before (before.length - now.stale - 1)

private theorem fittest_concat : Search.fittest first (before ++ [pick]) =
    if (Search.fittest first before).fitness < pick.fitness then pick else Search.fittest first before := by
  rw [Search.fittest, List.foldl_concat]
  rfl

/-- A run that goes on has not seen a long enough block without a better candidate. -/
theorem Counted.not_barren (counted : Counted first before now) (lively : now.stale < search.params.noImprovement)
    (picks : List Candidate) : ¬ Barren search first (before ++ picks) before.length := by
  rintro ⟨enough, nothing⟩
  have inside : before.length - now.stale - 1 < before.length := by omega
  refine nothing (before.length - now.stale - 1) (by omega) inside ?_
  rw [beats_append inside]
  exact counted.fruitful (by omega)

private theorem Counted.barren (counted : Counted first before now)
    (tired : ¬ now.stale < search.params.noImprovement) :
    Barren search first before before.length := by
  have within := counted.within
  exact ⟨by omega, fun generation least inside => counted.idle generation (by omega) inside⟩

end

section
variable {σ : Type} [RandomSource σ] {search : Search} {now next start last : Moment σ}
  {later : List (Moment σ)} {source : σ} {first : Candidate} {before : List Candidate}

/-- The generations that may still follow. -/
def remaining (search : Search) (now : Moment σ) : Nat :=
  (above search now.best.fitness).card * search.params.noImprovement + (search.params.noImprovement - now.stale)

private theorem step_remaining (step : Step search now next) (whole : Whole (filled search) next) :
    remaining search next < remaining search now := by
  cases step with
  | improves lively _ _ better =>
    have fewer := Finset.card_lt_card (above_ssubset (value_known whole.best) better)
    have product := Nat.mul_le_mul_right search.params.noImprovement (Nat.succ_le_of_lt fewer)
    rw [Nat.succ_mul] at product
    dsimp only [remaining] at product ⊢
    omega
  | stalls lively _ _ _ =>
    dsimp only [remaining]
    omega

private theorem start_remaining (starts : Starts search source start) (whole : Whole (filled search) start) :
    remaining search start ≤ (fitnessValues search).card * search.params.noImprovement := by
  have fewer := above_card_lt (value_known whole.best)
  have product := Nat.mul_le_mul_right search.params.noImprovement (Nat.succ_le_of_lt fewer)
  rw [Nat.succ_mul] at product
  rw [remaining, starts.fresh, Nat.sub_zero]
  exact product

private theorem chain_remaining (closed : Closed search.graph) (whole : Whole (filled search) now)
    (chain : (now :: later).IsChain (Step search)) : later.length ≤ remaining search now := by
  induction later generalizing now with
  | nil => exact Nat.zero_le _
  | cons next later ih =>
    obtain ⟨step, rest⟩ := List.isChain_cons_cons.mp chain
    have formed := Step.formed closed step whole
    exact (Nat.succ_le_succ (ih formed rest)).trans (step_remaining step formed)

private theorem Goes.chain (goes : Goes search now later last) : (now :: later).IsChain (Step search) := by
  induction goes with
  | ends => exact List.IsChain.singleton _
  | on step _ ih => exact List.isChain_cons_cons.mpr ⟨step, ih⟩

theorem Counted.step (counted : Counted first before now) (step : Step search now next) :
    ∃ pick, Search.fittestOf next.population = .ok pick ∧ Counted first (before ++ [pick]) next := by
  cases step with
  | @improves population found source _ _ fittest better =>
    rw [counted.best] at better
    refine ⟨found, fittest, ?_, Nat.zero_le _, ?_, ?_⟩
    · rw [fittest_concat, if_pos better]
    · intro generation least inside
      exact absurd inside (Nat.not_lt.mpr least)
    · intro _
      rw [List.length_append]
      exact beats_last.mpr better
  | @stalls population found source _ _ fittest worse =>
    rw [counted.best] at worse
    have within := counted.within
    refine ⟨found, fittest, ?_, ?_, ?_, ?_⟩
    · rw [fittest_concat, if_neg worse]
      exact counted.best
    · rw [List.length_append]
      exact Nat.succ_le_succ within
    · intro generation least inside
      rw [List.length_append, List.length_singleton] at least inside
      dsimp only at least
      rcases Nat.lt_succ_iff_lt_or_eq.mp inside with earlier | rfl
      · rw [beats_append earlier]
        exact counted.idle generation (by omega) earlier
      · exact fun beats => worse (beats_last.mp beats)
    · intro inside
      rw [List.length_append, List.length_singleton] at inside ⊢
      dsimp only at inside ⊢
      have earlier := counted.fruitful (by omega)
      rw [show before.length + 1 - (now.stale + 1) - 1 = before.length - now.stale - 1 by omega,
        beats_append (by omega)]
      exact earlier

theorem Step.lively (step : Step search now next) : now.stale < search.params.noImprovement := by
  cases step with
  | improves lively => exact lively
  | stalls lively => exact lively

/-- The picks of the generations that follow end with a barren block, and none of them ends another one. -/
theorem goes_picks (goes : Goes search now later last) (counted : Counted first before now) :
    ∃ picks, Picks later picks ∧ last.best = Search.fittest first (before ++ picks) ∧
      Barren search first (before ++ picks) (before.length + later.length) ∧
      ∀ n, before.length ≤ n → n < before.length + later.length → ¬ Barren search first (before ++ picks) n := by
  induction goes generalizing before with
  | ends tired =>
    refine ⟨[], .nil, ?_, ?_, fun n least inside => absurd inside (Nat.not_lt.mpr least)⟩
    · rw [List.append_nil]
      exact counted.best
    · rw [List.append_nil]
      exact counted.barren tired
  | on step _ ih =>
    obtain ⟨pick, fittest, known⟩ := counted.step step
    obtain ⟨picks, picked, best, barren, earlier⟩ := ih known
    rw [List.append_assoc, List.length_append] at barren earlier
    rw [List.append_assoc] at best
    refine ⟨pick :: picks, .cons fittest picked, best, ?_, fun n least inside => ?_⟩
    · rwa [List.length_cons, Nat.add_comm _ 1, ← Nat.add_assoc]
    · rcases Nat.eq_or_lt_of_le least with rfl | later
      · exact counted.not_barren (Step.lively step) _
      · rw [List.length_cons] at inside
        exact earlier n later (by rw [List.length_singleton]; omega)

theorem start_counted (starts : Starts search source start) : Counted start.best [] start where
  best := rfl
  within := starts.fresh.le
  idle _ _ inside := absurd inside (Nat.not_lt_zero _)
  fruitful inside := absurd inside (Nat.not_lt_zero _)

/-- Whatever the search and the words it is given, a run stops. As long as it goes, its generations are at most
the values that the domains allow, times the generations it may take without success, and it ends with the first
block of so many generations in which no pick beats the best before. It only fails for want of an acceptable
draw or for an edge that leaves the graph. -/
theorem every_run_ends (search : Search) (source : σ) :
    (∀ start later, Starts search source start → (start :: later).IsChain (Step search) →
      later.length ≤ (fitnessValues search).card * search.params.noImprovement) ∧
    ((∃ start later last, Starts search source start ∧ Goes search start later last ∧
        search.run.run source = .ok (⟨last.best, later.length⟩, last.source) ∧
        later.length ≤ (fitnessValues search).card * search.params.noImprovement ∧
        ∃ first picks, Picks (start :: later) (first :: picks) ∧ last.best = Search.fittest first picks ∧
          Barren search first picks later.length ∧ ∀ n < later.length, ¬ Barren search first picks n) ∨
      search.run.run source = .error .drawsExhausted ∧ ¬ Lively source ∨
      search.run.run source = .error .outOfRange ∧ ¬ Closed search.graph) := by
  by_cases closed : Closed search.graph
  · have bound (start : Moment σ) (later : List (Moment σ)) (starts : Starts search source start)
        (chain : (start :: later).IsChain (Step search)) :
        later.length ≤ (fitnessValues search).card * search.params.noImprovement := by
      have whole := Starts.formed closed starts
      exact (chain_remaining closed whole chain).trans (start_remaining starts whole)
    refine ⟨bound, ?_⟩
    rcases run_yields closed source with ⟨result, returned, -⟩ | failed
    · obtain ⟨start, later, last, starts, goes, rfl⟩ := run_ok_iff.mp returned
      obtain ⟨picks, picked, best, barren, earlier⟩ := goes_picks goes (start_counted starts)
      rw [List.nil_append, List.length_nil, Nat.zero_add] at barren
      refine .inl ⟨start, later, last, starts, goes, returned, bound start later starts (Goes.chain goes),
        start.best, picks, .cons starts.fittest picked, best, barren, fun n inside => ?_⟩
      exact earlier n (Nat.zero_le n) (by rwa [List.length_nil, Nat.zero_add])
    · exact .inr (.inl failed)
  · have failed := firstPopulation_astray closed source
    refine ⟨fun start later starts _ => ?_, .inr ?_⟩
    · rcases failed with ⟨failed, -⟩ | failed <;> cases starts.drawn.symm.trans failed
    · rw [Search.run, StateT.run_bind]
      rcases failed with ⟨failed, tired⟩ | failed
      · rw [failed]
        exact .inl ⟨rfl, tired⟩
      · rw [failed]
        exact .inr ⟨rfl, closed⟩

end

end Timetable.Proofs.RunBounds
