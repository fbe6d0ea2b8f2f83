import Mathlib.Data.List.Forall2
import Mathlib.Data.List.Perm.Basic
import Timetable.Proofs.Returned
import Timetable.Random.Draw

/-! Draws that cannot fault but for want of an acceptable word, which a lively source never lacks. A draw
yields good values if that fault is the only one it has and every value it returns is good. -/

namespace Timetable.Proofs.Draws

section
variable {σ : Type} [RandomSource σ]

/-- Whatever is drawn from these sources is returned, and leads to one of them again. -/
structure Supply (kept : σ → Prop) : Prop where
  word : ∀ source, kept source → kept (RandomSource.word64 source).2
  below : ∀ source, kept source → ∀ n, 0 < n →
    ∃ number after, (Draw.below n : Draw σ Nat).run source = .ok (number, after) ∧ kept after
  belowLong : ∀ source, kept source → ∀ n, 0 < n →
    ∃ number after, (Draw.belowLong n : Draw σ Nat).run source = .ok (number, after) ∧ kept after

/-- All draws from the source return, those that are made later included. -/
def Lively (source : σ) : Prop := ∃ kept, Supply kept ∧ kept source

theorem supply_lively : Supply (Lively : σ → Prop) where
  word source lively := by
    obtain ⟨kept, supply, here⟩ := lively
    exact ⟨kept, supply, supply.word source here⟩
  below source lively n positive := by
    obtain ⟨kept, supply, here⟩ := lively
    obtain ⟨number, after, ran, there⟩ := supply.below source here n positive
    exact ⟨number, after, ran, kept, supply, there⟩
  belowLong source lively n positive := by
    obtain ⟨kept, supply, here⟩ := lively
    obtain ⟨number, after, ran, there⟩ := supply.belowLong source here n positive
    exact ⟨number, after, ran, kept, supply, there⟩

end

section
variable {α β : Type} {excuse : Prop} {good : α → Prop} {better : β → Prop} {step : Except Fault α}

/-- There is a good value, or no word was ever accepted, for which there is an excuse. -/
def Settles (excuse : Prop) (good : α → Prop) (step : Except Fault α) : Prop :=
  (∃ value, step = .ok value ∧ good value) ∨ step = .error .drawsExhausted ∧ excuse

theorem Settles.bind {next : α → Except Fault β} (first : Settles excuse good step)
    (rest : ∀ value, good value → Settles excuse better (next value)) : Settles excuse better (step >>= next) := by
  rcases first with ⟨value, rfl, holds⟩ | ⟨rfl, excused⟩
  · exact rest value holds
  · exact .inr ⟨rfl, excused⟩

theorem Settles.mono {weaker : α → Prop} (settles : Settles excuse good step)
    (implies : ∀ value, good value → weaker value) : Settles excuse weaker step :=
  settles.imp_left fun ⟨value, returned, holds⟩ => ⟨value, returned, implies value holds⟩

theorem Settles.excused {other : Prop} (settles : Settles excuse good step) (implies : excuse → other) :
    Settles other good step :=
  settles.imp_right fun ⟨failed, excused⟩ => ⟨failed, implies excused⟩

theorem Settles.mapM {f : α → Except Fault β} {items : List α}
    (each : ∀ item ∈ items, Settles excuse better (f item)) :
    Settles excuse (fun results => ∀ result ∈ results, better result) (items.mapM f) := by
  induction items with
  | nil => exact .inl ⟨[], rfl, by simp⟩
  | cons item items ih =>
    rw [List.mapM_cons]
    refine (each item List.mem_cons_self).bind fun value first => ?_
    refine (ih fun other member => each other (List.mem_cons_of_mem _ member)).bind fun values rest => ?_
    exact .inl ⟨_, rfl, List.forall_mem_cons.mpr ⟨first, rest⟩⟩

end

section
variable {σ α β : Type} {better : β → Prop} {step : Except Fault α} {draw : Draw σ α}

theorem bind_run {next : α → Draw σ β} {source middle : σ} {value : α} (ran : draw.run source = .ok (value, middle)) :
    (draw >>= next).run source = (next value).run middle := by
  rw [StateT.run_bind]
  exact Returned.ok_bind ran

theorem ran_bind {next : α → Draw σ β} {source : σ} {result : β × σ}
    (ran : (draw >>= next).run source = .ok result) :
    ∃ value middle, draw.run source = .ok (value, middle) ∧ (next value).run middle = .ok result := by
  rw [StateT.run_bind] at ran
  obtain ⟨⟨value, middle⟩, first, rest⟩ := Returned.bind_ok ran
  exact ⟨value, middle, first, rest⟩

theorem lift_run {source : σ} {value : α} (returned : step = .ok value) :
    (liftM step : Draw σ α).run source = .ok (value, source) := by
  rw [returned]
  rfl

theorem ran_lift {source after : σ} {value : α} (ran : (liftM step : Draw σ α).run source = .ok (value, after)) :
    step = .ok value ∧ after = source := by
  cases step with
  | error fault => cases ran
  | ok value =>
    cases ran
    exact ⟨rfl, rfl⟩

theorem forall₂_right {items : List α} {results : List β}
    (matched : List.Forall₂ (fun _ result => better result) items results) :
    results.length = items.length ∧ ∀ result ∈ results, better result := by
  refine ⟨matched.length_eq.symm, ?_⟩
  induction matched with
  | nil => simp
  | cons first _ ih => exact List.forall_mem_cons.mpr ⟨first, ih⟩

/-- The high half of a product of a word and a bound lies below the bound. -/
theorem accepted_settles {size limit n : Nat} (positive : 0 < n) {word : Draw σ Nat}
    (words : ∀ source, ∃ drawn after, word.run source = .ok (drawn, after) ∧ drawn < size) : ∀ left source,
    Settles True (fun result => result.1 < n) ((Draw.accepted size limit word n left).run source)
  | 0, _ => .inr ⟨rfl, trivial⟩
  | left + 1, source => by
    obtain ⟨drawn, after, ran, below⟩ := words source
    unfold Draw.accepted
    rw [bind_run ran]
    by_cases inside : drawn * n % size < limit
    · simp only [if_pos inside]
      exact .inl ⟨_, rfl, Nat.div_lt_of_lt_mul (Nat.mul_lt_mul_of_pos_right below positive)⟩
    · simp only [if_neg inside]
      exact accepted_settles positive words left after

end

section
variable {σ α β : Type} {kept : σ → Prop} {good : α → Prop} {better : β → Prop} {step : Except Fault α}
  {draw : Draw σ α}

/-- A draw settles from every source, keeps what holds of the source, and gives up only where that fails. -/
def YieldsWhile (kept : σ → Prop) (good : α → Prop) (draw : Draw σ α) : Prop :=
  ∀ source, Settles (¬ kept source) (fun result => good result.1 ∧ (kept source → kept result.2))
    (draw.run source)

theorem YieldsWhile.pure {value : α} (holds : good value) :
    YieldsWhile kept good (Pure.pure value : Draw σ α) :=
  fun source => .inl ⟨(value, source), rfl, holds, id⟩

theorem YieldsWhile.lift {value : α} (returned : step = .ok value) (holds : good value) :
    YieldsWhile kept good (liftM step : Draw σ α) := by
  intro source
  rw [returned]
  exact .inl ⟨(value, source), rfl, holds, id⟩

theorem YieldsWhile.bind {next : α → Draw σ β} (first : YieldsWhile kept good draw)
    (rest : ∀ value, good value → YieldsWhile kept better (next value)) :
    YieldsWhile kept better (draw >>= next) := by
  intro source
  rw [StateT.run_bind]
  refine (first source).bind fun result ⟨holds, alive⟩ => ?_
  have settled := rest result.1 holds result.2
  exact (settled.mono fun _ ⟨holds, still⟩ => ⟨holds, still ∘ alive⟩).excused fun tired lively => tired (alive lively)

theorem YieldsWhile.mono {weaker : α → Prop} (yields : YieldsWhile kept good draw)
    (implies : ∀ value, good value → weaker value) : YieldsWhile kept weaker draw :=
  fun source => (yields source).mono fun result ⟨holds, alive⟩ => ⟨implies result.1 holds, alive⟩

theorem YieldsWhile.holds {source after : σ} {value : α} (yields : YieldsWhile kept good draw)
    (ran : draw.run source = .ok (value, after)) : good value := by
  rcases yields source with ⟨result, returned, holds, -⟩ | ⟨failed, -⟩
  · cases returned.symm.trans ran
    exact holds
  · cases failed.symm.trans ran

/-- What gives up nowhere returns from every source. -/
theorem YieldsWhile.returns (yields : YieldsWhile (fun _ => True) good draw) (source : σ) :
    ∃ value after, draw.run source = .ok (value, after) ∧ good value := by
  rcases yields source with ⟨⟨value, after⟩, returned, holds, -⟩ | ⟨-, never⟩
  · exact ⟨value, after, returned, holds⟩
  · exact absurd trivial never

theorem YieldsWhile.mapM {f : α → Draw σ β} {each : α → β → Prop} {items : List α}
    (step : ∀ item ∈ items, YieldsWhile kept (each item) (f item)) :
    YieldsWhile kept (List.Forall₂ each items) (items.mapM f) := by
  induction items with
  | nil => exact .pure .nil
  | cons item items ih =>
    rw [List.mapM_cons]
    refine (step item List.mem_cons_self).bind fun value first => ?_
    refine (ih fun other member => step other (List.mem_cons_of_mem _ member)).bind fun values rest => ?_
    exact .pure (.cons first rest)

theorem YieldsWhile.mapM_all {f : α → Draw σ β} {items : List α}
    (step : ∀ item ∈ items, YieldsWhile kept better (f item)) :
    YieldsWhile kept (fun results => results.length = items.length ∧ ∀ result ∈ results, better result)
      (items.mapM f) :=
  (YieldsWhile.mapM step).mono fun _ => forall₂_right

end

section
variable {σ α : Type} [RandomSource σ] {good : α → Prop} {draw : Draw σ α}

/-- A draw that gives up at most where the source is not lively. -/
abbrev Yields (good : α → Prop) (draw : Draw σ α) : Prop := YieldsWhile Lively good draw

/-- What returns from lively sources has no other excuse. -/
theorem Yields.of_supply (settles : ∀ source, Settles True (fun result => good result.1) (draw.run source))
    (supply : ∀ source, Lively source → ∃ value after, draw.run source = .ok (value, after) ∧ Lively after) :
    Yields good draw := by
  intro source
  rcases settles source with ⟨result, returned, holds⟩ | ⟨failed, -⟩
  · refine .inl ⟨result, returned, holds, ?_⟩
    intro lively
    obtain ⟨value, after, ran, still⟩ := supply source lively
    cases returned.symm.trans ran
    exact still
  · refine .inr ⟨failed, ?_⟩
    intro lively
    obtain ⟨value, after, ran, -⟩ := supply source lively
    cases failed.symm.trans ran

end

section
variable {σ : Type} [RandomSource σ] {α : Type}

def Fair (p : Double) : Prop := p = 1 ∨ 0 ≤ p ∧ p < 1

theorem fair_half : Fair .half := .inr (by decide)

section
variable {kept : σ → Prop} (words : ∀ source, kept source → kept (RandomSource.word64 source).2)
include words

private theorem word64_yields : YieldsWhile kept (fun _ => True) (Draw.word64 : Draw σ UInt64) :=
  fun source => .inl ⟨_, rfl, trivial, words source⟩

theorem unit_yields : YieldsWhile kept (fun _ => True) (Draw.unit : Draw σ Double) :=
  (word64_yields words).bind fun _ _ => .pure trivial

theorem chance_yields {p : Double} (fair : Fair p) :
    YieldsWhile kept (fun hit => p = 1 → hit = true) (Draw.chance p : Draw σ Bool) := by
  unfold Draw.chance
  split
  · exact .pure fun _ => rfl
  · rename_i uncertain
    rw [if_pos (fair.resolve_left uncertain)]
    exact (word64_yields words).bind fun _ _ => .pure fun certain => absurd certain uncertain

end

private theorem below_yields {n : Nat} (positive : 0 < n) : Yields (· < n) (Draw.below n : Draw σ Nat) := by
  refine .of_supply ?_ fun source lively => supply_lively.below source lively n positive
  unfold Draw.below
  simp only [if_neg (Nat.ne_of_gt positive)]
  exact accepted_settles positive (fun source => ⟨_, _, rfl, UInt32.toNat_lt _⟩) _

theorem belowLong_yields {n : Nat} (positive : 0 < n) :
    Yields (· < n) (Draw.belowLong n : Draw σ Nat) := by
  refine .of_supply ?_ fun source lively => supply_lively.belowLong source lively n positive
  unfold Draw.belowLong
  simp only [if_neg (Nat.ne_of_gt positive)]
  exact accepted_settles positive (fun source => ⟨_, _, rfl, UInt64.toNat_lt _⟩) _

theorem choose_yields (items : List α) :
    Yields (fun chosen => (items ≠ [] → chosen ≠ none) ∧ ∀ item, chosen = some item → item ∈ items)
      (Draw.choose items : Draw σ (Option α)) := by
  cases items with
  | nil => exact .pure ⟨fun present => absurd rfl present, fun _ none => by cases none⟩
  | cons item items =>
    refine (below_yields (Nat.succ_pos items.length)).bind fun place inside => .pure ⟨?_, ?_⟩
    · intro _ none
      exact absurd (List.getElem?_eq_none_iff.mp none) (Nat.not_le.mpr inside)
    · exact fun other chosen => List.mem_of_getElem? chosen

private theorem swapIfInBounds_perm (items : Array α) (i j : Nat) : (items.swapIfInBounds i j).Perm items := by
  unfold Array.swapIfInBounds
  split
  · split
    · exact Array.swap_perm _ _
    · exact .refl _
  · exact .refl _

private theorem shuffleFrom_yields :
    ∀ (i : Nat) (items : Array α), Yields (·.Perm items) (Draw.shuffleFrom i items : Draw σ (Array α))
  | 0, items => .pure (.refl _)
  | i + 1, items => by
    unfold Draw.shuffleFrom
    refine (below_yields (Nat.succ_pos _)).bind fun j _ => ?_
    exact (shuffleFrom_yields i _).mono fun order perm => perm.trans (swapIfInBounds_perm _ _ _)

theorem shuffle_yields (items : List α) : Yields (·.Perm items) (Draw.shuffle items : Draw σ (List α)) :=
  (shuffleFrom_yields _ _).bind fun _ perm => .pure (Array.perm_iff_toList_perm.mp perm)

end

end Timetable.Proofs.Draws
