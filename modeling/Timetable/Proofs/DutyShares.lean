import Timetable.Proofs.DoubleSizes
import Timetable.Proofs.StaffingReturns

/-! Shares of all minutes. What a factor gives its owner is the exact share up to the rounding of three operations,
and never more than all minutes together; what is owed of it is cut to the last 32 binary digits. -/

namespace Timetable.Proofs.DutyShares
open Staffing StaffExclusions StaffingReturns DoubleSigns DoubleSizes Rounding

variable {input : PlanningInput} {overrides : Table InvigilatorOverride} {member : Member} {x : Double}
  {totalDuty totalOther other : Nat} {totalFactors factor : Double}

def minutesPerFactor (totalDuty totalOther : Nat) (totalFactors : Double) : Double :=
  (.ofNat totalDuty + .ofNat totalOther) / totalFactors

/-- The share of all minutes, as it is computed. -/
def share (totalDuty totalOther : Nat) (totalFactors factor : Double) : Int :=
  if totalFactors ≤ 0 then 0 else (minutesPerFactor totalDuty totalOther totalFactors * factor).nearestInt64

/-- The share of all minutes by factors; nothing where there are no factors. -/
def exactShare (minutes : Nat) (totalFactors factor : Double) : ℚ := minutes * amount factor / amount totalFactors

/-- A whole number that is the exact share, up to an error that is far below a minute, rounded. -/
structure RoundedShare (minutes : Nat) (totalFactors factor : Double) (share : Int) : Prop where
  near : ∃ nearly : ℚ, |nearly - exactShare minutes totalFactors factor| ≤ 1 / 2 ^ 18 ∧ share = ⌊nearly + 1 / 2⌋
  least : 0 ≤ share
  most : share ≤ minutes

private theorem share_nonneg (least : AtLeastZero factor) (duty : totalDuty < numberLimit)
    (elsewhere : totalOther < numberLimit) : 0 ≤ share totalDuty totalOther totalFactors factor := by
  unfold share
  split
  next => exact le_rfl
  next above =>
    have word : numberLimit < UInt64.size := by decide
    have sum : AtLeastZero (.ofNat totalDuty + .ofNat totalOther) :=
      atLeastZero_add (atLeastZero_ofNat (duty.trans word)) (atLeastZero_ofNat (elsewhere.trans word))
    exact nearestInt64_nonneg (atLeastZero_mul (atLeastZero_div sum (plain_of_not_le above)) least)

private theorem requiredMinutes_eq (least : AtLeastZero factor) (duty : totalDuty < numberLimit)
    (elsewhere : totalOther < numberLimit) (own : other < numberLimit) :
    requiredMinutes totalDuty totalOther totalFactors factor other =
      .ok ((share totalDuty totalOther totalFactors factor - other).toNat % numberLimit) := by
  have positive : 0 ≤ share totalDuty totalOther totalFactors factor := share_nonneg least duty elsewhere
  rw [numberLimit] at own
  change other < 4294967296 at own
  unfold requiredMinutes
  unfold share at positive ⊢
  split
  next nothing =>
    have none : (0 - (other : Int)).toNat = 0 := Int.toNat_of_nonpos (by omega)
    rw [none]
    rfl
  next above =>
    rw [if_neg above] at positive
    unfold minutesPerFactor at positive
    exact if_neg (by omega)

private theorem significand_eq_zero_iff : x.significand = 0 ↔ x.magnitude.toNat = 0 := by
  have limit : Double.fractionLimit = 2 ^ 52 := rfl
  rw [Double.significand, Double.biasedExponent, Double.fractionBits, limit]
  split <;> omega

private theorem amount_pos_iff : 0 < amount x ↔ 0 < x.magnitude.toNat := by
  have unit : (0 : ℚ) < 2 ^ x.exponent := by positivity
  rw [amount, mul_pos_iff_of_pos_right unit, Nat.cast_pos, Nat.pos_iff_ne_zero, Nat.pos_iff_ne_zero, ne_eq, ne_eq,
    significand_eq_zero_iff]

/-- What is above zero amounts to something, and what is not amounts to nothing. -/
theorem above_zero_iff (least : AtLeastZero x) (number : x.isNaN = false) : ¬x ≤ 0 ↔ 0 < amount x := by
  have middle : (0 : Double).place = Double.signBit := rfl
  have placed : x ≤ 0 ↔ x.place ≤ Double.signBit := by
    rw [Double.le_iff, number, middle]
    simp only [true_and, and_iff_right_iff_imp]
    intro _
    rfl
  rw [placed, amount_pos_iff]
  rcases least with none | plain | zero
  · rw [number] at none
    cases none
  · have inside : x.magnitude.toNat < 2 ^ 63 := by
      rw [magnitude_toNat]
      exact Nat.mod_lt _ (by decide)
    rw [Double.place, plain, UInt64.le_iff_toNat_le]
    simp only [Bool.false_eq_true, if_false, UInt64.toNat_add, signBit_toNat]
    omega
  · obtain ⟨bits⟩ := x
    obtain rfl : bits = Double.signBit := zero
    decide

private theorem minutes_exact (duty : totalDuty < numberLimit) (elsewhere : totalOther < numberLimit) :
    ((.ofNat totalDuty + .ofNat totalOther : Double)).isFinite = true ∧
      amount (.ofNat totalDuty + .ofNat totalOther) = (totalDuty + totalOther : Nat) := by
  have limit : numberLimit = 2 ^ 32 := rfl
  obtain ⟨first, one⟩ := ofNat_exact (n := totalDuty) (by omega)
  obtain ⟨second, two⟩ := ofNat_exact (n := totalOther) (by omega)
  have word : numberLimit < UInt64.size := by decide
  have sum := computes_add first second (atLeastZero_ofNat (duty.trans word)) (atLeastZero_ofNat (elsewhere.trans word))
  rw [one, two, ← Nat.cast_add] at sum
  exact computes_whole (by omega) sum

private theorem nearestInt64_eq (least : AtLeastZero x) (finite : x.isFinite = true) {most : Nat} (word : most < 2 ^ 63)
    (below : amount x < most + 1 / 2) : x.nearestInt64 = ⌊amount x + 1 / 2⌋ ∧ x.nearestInt64 ≤ most := by
  have number := isNaN_of_finite finite
  have whole : ⌊amount x + 1 / 2⌋ ≤ most := by
    apply Int.lt_add_one_iff.mp
    apply Int.floor_lt.mpr
    push_cast
    linarith
  have positive : 0 ≤ ⌊amount x + 1 / 2⌋ := Int.floor_nonneg.mpr (by linarith [amount_nonneg x])
  unfold Double.nearestInt64
  rw [number, finite, nearestInteger_eq least number]
  dsimp only
  rw [if_neg Bool.false_ne_true, if_pos rfl]
  omega

private theorem error_of_errors {exact inner outer : ℚ} (few : exact ≤ 2 ^ 33)
    (first : |inner - exact| ≤ exact / 2 ^ 53 + 2 ^ (-51 : Int)) :
    inner ≤ 2 ^ 34 ∧ (|outer - inner| ≤ inner / 2 ^ 53 + 2 ^ (-51 : Int) → |outer - exact| ≤ 1 / 2 ^ 18) := by
  have first := abs_le.mp first
  norm_num at few first
  have most : inner ≤ 2 ^ 34 := by
    norm_num
    linarith
  refine ⟨most, fun second => ?_⟩
  have second := abs_le.mp second
  rw [abs_le]
  norm_num at most second ⊢
  constructor <;> linarith

/-- Dividing and multiplying, each rounded to the nearest double, stays close to the exact share. -/
theorem product_near {minutes : Nat} {sum : ℚ} {quotient : Double} (few : minutes ≤ 2 ^ 33)
    (finite : quotient.isFinite = true) (factorFinite : factor.isFinite = true)
    (divided : Computes (minutes / sum) quotient) (some : 0 < sum) (part : amount factor ≤ sum) :
    (quotient * factor).isFinite = true ∧
      |amount (quotient * factor) - minutes * amount factor / sum| ≤ 1 / 2 ^ 18 := by
  have exact : minutes * amount factor / sum ≤ 2 ^ 33 := by
    have few : (minutes : ℚ) ≤ 2 ^ 33 := by exact_mod_cast few
    rw [div_le_iff₀ some]
    exact mul_le_mul few part (amount_nonneg factor) (by positivity)
  have first : |amount quotient * amount factor - minutes * amount factor / sum| ≤
      minutes * amount factor / sum / 2 ^ 53 + 2 ^ (-51 : Int) := by
    have error := (divided.rounded finite).error (div_nonneg (Nat.cast_nonneg _) some.le)
    rw [(unpacked_finite finite).2] at error
    have last : (2 : ℚ) ^ (-1075 : Int) * amount factor ≤ 2 ^ (-51 : Int) := by
      calc (2 : ℚ) ^ (-1075 : Int) * amount factor ≤ 2 ^ (-1075 : Int) * 2 ^ (1024 : Int) := by
            gcongr
            exact (amount_lt_range factorFinite).le
        _ = 2 ^ (-51 : Int) := by
          rw [← zpow_add₀ two_ne_zero]
          rfl
    calc |amount quotient * amount factor - minutes * amount factor / sum|
        = |(amount quotient - minutes / sum) * amount factor| := by
          congr 1
          ring
      _ = |amount quotient - minutes / sum| * amount factor := by rw [abs_mul, abs_of_nonneg (amount_nonneg factor)]
      _ ≤ (minutes / sum / 2 ^ 53 + 2 ^ (-1075 : Int)) * amount factor := by
          gcongr
          exact amount_nonneg factor
      _ = minutes * amount factor / sum / 2 ^ 53 + 2 ^ (-1075 : Int) * amount factor := by ring
      _ ≤ minutes * amount factor / sum / 2 ^ 53 + 2 ^ (-51 : Int) := by gcongr
  have product := computes_mul finite factorFinite
  obtain ⟨bounded, near⟩ := error_of_errors exact first
  have inRange : (quotient * factor).isFinite = true := product.ranged (bounded.trans (by norm_num))
  refine ⟨inRange, near ?_⟩
  have second := (product.rounded inRange).error (mul_nonneg (amount_nonneg _) (amount_nonneg _))
  rw [(unpacked_finite inRange).2] at second
  have tiny : (2 : ℚ) ^ (-1075 : Int) ≤ 2 ^ (-51 : Int) := zpow_le_zpow_right₀ one_le_two (by norm_num)
  exact second.trans (add_le_add_right tiny _)

private theorem share_rounded (least : AtLeastZero factor) (factorFinite : factor.isFinite = true)
    (totalLeast : AtLeastZero totalFactors) (finite : totalFactors.isFinite = true)
    (part : amount factor ≤ amount totalFactors) (duty : totalDuty < numberLimit) (elsewhere : totalOther < numberLimit)
    (inRange : totalFactors ≤ 0 ∨ (minutesPerFactor totalDuty totalOther totalFactors).isFinite = true) :
    RoundedShare (totalDuty + totalOther) totalFactors factor (share totalDuty totalOther totalFactors factor) := by
  have limit : numberLimit = 2 ^ 32 := rfl
  have number := isNaN_of_finite finite
  by_cases nothing : totalFactors ≤ 0
  · have none : amount totalFactors = 0 := by
      apply le_antisymm _ (amount_nonneg _)
      exact not_lt.mp (mt (above_zero_iff totalLeast number).mpr (not_not_intro nothing))
    rw [share, if_pos nothing]
    refine ⟨⟨0, ?_, by norm_num⟩, le_rfl, Int.natCast_nonneg _⟩
    rw [exactShare, none, div_zero, sub_zero, abs_zero]
    positivity
  · have some := (above_zero_iff totalLeast number).mp nothing
    have quotientFinite := inRange.resolve_left nothing
    obtain ⟨sumFinite, sum⟩ := minutes_exact duty elsewhere
    have divided := computes_div sumFinite finite some
    rw [sum] at divided
    obtain ⟨productFinite, near⟩ := product_near (by omega) quotientFinite factorFinite divided some part
    have word : numberLimit < UInt64.size := by decide
    have sumLeast : AtLeastZero (.ofNat totalDuty + .ofNat totalOther) :=
      atLeastZero_add (atLeastZero_ofNat (duty.trans word)) (atLeastZero_ofNat (elsewhere.trans word))
    have productLeast : AtLeastZero (minutesPerFactor totalDuty totalOther totalFactors * factor) :=
      atLeastZero_mul (atLeastZero_div sumLeast (plain_of_not_le nothing)) least
    have below : amount (minutesPerFactor totalDuty totalOther totalFactors * factor) <
        (totalDuty + totalOther : Nat) + 1 / 2 := by
      have exact : (totalDuty + totalOther : Nat) * amount factor / amount totalFactors ≤
          (totalDuty + totalOther : Nat) := by
        rw [div_le_iff₀ some]
        gcongr
      have error : (1 : ℚ) / 2 ^ 18 < 1 / 2 := by norm_num
      linarith [(abs_le.mp near).2]
    obtain ⟨nearest, most⟩ := nearestInt64_eq productLeast productFinite (by omega) below
    rw [share, if_neg nothing]
    exact ⟨⟨_, near, nearest⟩, nearestInt64_nonneg productLeast, most⟩

/-- The factors of a pool add up to no less than the factor of any member. -/
theorem factor_part (valid : validate input = .ok ()) (taking : member ∈ members input.invigilators overrides)
    (finite : (Double.sum ((members input.invigilators overrides).map (·.invigilator.factor))).isFinite = true) :
    AtLeastZero (.sum ((members input.invigilators overrides).map (·.invigilator.factor))) ∧
      member.invigilator.factor.isFinite = true ∧
      amount member.invigilator.factor ≤
        amount (.sum ((members input.invigilators overrides).map (·.invigilator.factor))) := by
  have least : ∀ factor ∈ (members input.invigilators overrides).map (·.invigilator.factor), AtLeastZero factor := by
    intro factor listed
    obtain ⟨other, present, rfl⟩ := List.mem_map.mp listed
    exact members_atLeastZero valid overrides other present
  obtain ⟨sum, -, -, parts⟩ := le_foldl_add _ least 0 (.inr (.inl rfl)) finite
  exact ⟨sum, parts _ (List.mem_map_of_mem taking)⟩

/-- What somebody in the pool owes is the share of all minutes by the factors, rounded, less what is contributed
elsewhere and not below zero, exactly if that is a number of a document: of anything greater only the last 32 binary
digits are left. Shares do not exceed all minutes together, so nothing is lost where these are few enough. -/
theorem owed_minutes_are_cut (valid : validate input = .ok ())
    (taking : member ∈ members input.invigilators overrides) (duty : totalDuty < numberLimit)
    (elsewhere : totalOther < numberLimit) (own : member.invigilator.otherContributions < numberLimit) :
    let totalFactors := Double.sum ((members input.invigilators overrides).map (·.invigilator.factor))
    let share := share totalDuty totalOther totalFactors member.invigilator.factor
    let owed : Int := max 0 (share - member.invigilator.otherContributions)
    ∃ minutes, requiredMinutes totalDuty totalOther totalFactors member.invigilator.factor
        member.invigilator.otherContributions = .ok minutes ∧
      (minutes : Int) = owed % numberLimit ∧
      ((minutes : Int) = owed ↔ owed < numberLimit) ∧
      (totalFactors.isFinite = true →
        totalFactors ≤ 0 ∨ (minutesPerFactor totalDuty totalOther totalFactors).isFinite = true →
        RoundedShare (totalDuty + totalOther) totalFactors member.invigilator.factor share ∧
          (totalDuty + totalOther < numberLimit + member.invigilator.otherContributions → (minutes : Int) = owed)) := by
  intro totalFactors share owed
  have least := members_atLeastZero valid overrides member taking
  have cut : ((owed.toNat % numberLimit : Nat) : Int) = owed % numberLimit := by
    rw [Int.natCast_emod, Int.toNat_of_nonneg (le_max_left _ _)]
  have whole : ((owed.toNat % numberLimit : Nat) : Int) = owed ↔ owed < numberLimit := by
    rw [cut]
    refine ⟨fun same => ?_, Int.emod_eq_of_lt (le_max_left _ _)⟩
    rw [← same]
    exact Int.emod_lt_of_pos owed (by decide)
  refine ⟨owed.toNat % numberLimit, ?_, cut, whole, fun finite inRange => ?_⟩
  · rw [requiredMinutes_eq least duty elsewhere own]
    have same : (share - member.invigilator.otherContributions).toNat = owed.toNat := by
      change _ = (max 0 (share - member.invigilator.otherContributions)).toNat
      omega
    exact same ▸ rfl
  · obtain ⟨sum, factorFinite, part⟩ := factor_part valid taking finite
    have rounded := share_rounded least factorFinite sum finite part duty elsewhere inRange
    refine ⟨rounded, fun few => whole.mpr (max_lt (by decide) ?_)⟩
    have most : share ≤ (totalDuty + totalOther : Nat) := rounded.most
    omega

def poolOfTwo (factor : Double) (elsewhere : Nat) : PlanningInput :=
  { oneExam 90 0 with invigilators := [⟨"ada", 1, 0, [], []⟩, ⟨"bob", factor, elsewhere, [], []⟩] }

def factorsOf (input : PlanningInput) : Double := .sum ((members input.invigilators []).map (·.invigilator.factor))

/-- Half as much of three hours and a quarter as the other one, a quarter of an hour of which is done elsewhere. -/
theorem half_a_factor_owes_fifty_minutes :
    validate (poolOfTwo .half 15) = .ok () ∧
      ⟨⟨"bob", .half, 15, [], []⟩, [], []⟩ ∈ members (poolOfTwo .half 15).invigilators [] ∧
      requiredMinutes 180 15 (factorsOf (poolOfTwo .half 15)) .half 15 = .ok 50 ∧
      RoundedShare 195 (factorsOf (poolOfTwo .half 15)) .half 65 ∧ (50 : Int) = max 0 (65 - 15) := by
  have valid : validate (poolOfTwo .half 15) = .ok () := by decide +kernel
  have taking : ⟨⟨"bob", .half, 15, [], []⟩, [], []⟩ ∈ members (poolOfTwo .half 15).invigilators [] :=
    mem_members.mpr ⟨⟨"bob", .half, 15, [], []⟩, by simp [poolOfTwo], rfl, rfl⟩
  obtain ⟨minutes, returned, -, -, shared⟩ :=
    @owed_minutes_are_cut _ _ _ 180 15 valid taking (by decide) (by decide) (by decide)
  have fifty : requiredMinutes 180 15 (factorsOf (poolOfTwo .half 15)) .half 15 = .ok 50 := by decide +kernel
  obtain rfl : minutes = 50 := Except.ok.inj (returned.symm.trans fifty)
  have computed : share 180 15 (factorsOf (poolOfTwo .half 15)) .half = 65 := by decide +kernel
  obtain ⟨rounded, kept⟩ := shared (by decide +kernel) (.inr (by decide +kernel))
  have kept := kept (by decide)
  exact ⟨valid, taking, fifty, computed ▸ rounded, computed ▸ kept⟩

/-- Somebody who contributes all minutes elsewhere and owes none leaves the other with one minute more than a
document has numbers for, of which nothing is left. -/
theorem greatest_share_is_lost :
    validate (poolOfTwo 0 (numberLimit - 1)) = .ok () ∧
      ⟨⟨"ada", 1, 0, [], []⟩, [], []⟩ ∈ members (poolOfTwo 0 (numberLimit - 1)).invigilators [] ∧
      exactShare (1 + (numberLimit - 1)) (factorsOf (poolOfTwo 0 (numberLimit - 1))) 1 = numberLimit ∧
      share 1 (numberLimit - 1) (factorsOf (poolOfTwo 0 (numberLimit - 1))) 1 = numberLimit ∧
      requiredMinutes 1 (numberLimit - 1) (factorsOf (poolOfTwo 0 (numberLimit - 1))) 1 0 = .ok 0 := by
  refine ⟨by decide +kernel, ?_, ?_, by decide +kernel, by decide +kernel⟩
  · exact mem_members.mpr ⟨⟨"ada", 1, 0, [], []⟩, by simp [poolOfTwo], rfl, rfl⟩
  · have one : factorsOf (poolOfTwo 0 (numberLimit - 1)) = 1 := by decide +kernel
    have some : 0 < amount 1 := amount_pos_iff.mpr (by decide)
    rw [exactShare, one, mul_div_cancel_right₀ _ some.ne']
    rfl

end Timetable.Proofs.DutyShares
