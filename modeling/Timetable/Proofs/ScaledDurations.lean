import Timetable.Seating.Demand
import Mathlib.Data.Rat.Floor

/-! Durations with additional time. The product is all that can leave its range: below it minutes are rounded up and
cut off, more minutes or more percent never give less, and nobody sits shorter than the exam. -/

namespace Timetable.Proofs.ScaledDurations

variable {base percent less fewer : Nat}

/-- The minutes of an exam with additional time, as a number without a range. -/
def extended (base percent : Nat) : ℚ := (base * (100 + percent) : ℚ) / 100

def saturated (minutes : ℚ) : Nat := min ⌈minutes⌉₊ (numberLimit - 1)

private theorem extended_eq : extended base percent = ((base * (100 + percent) : Nat) : ℚ) / 100 := by
  rw [extended]
  push_cast
  rfl

private theorem ceil_hundredths (hundredths : Nat) : ⌈(hundredths : ℚ) / 100⌉₊ = (hundredths + 99) / 100 := by
  apply le_antisymm
  · rw [Nat.ceil_le, div_le_iff₀ (by norm_num)]
    have enough : hundredths ≤ (hundredths + 99) / 100 * 100 := by omega
    exact_mod_cast enough
  · have enough : (hundredths : ℚ) ≤ ⌈(hundredths : ℚ) / 100⌉₊ * 100 :=
      (div_le_iff₀ (by norm_num)).mp (Nat.le_ceil _)
    have enough : hundredths ≤ ⌈(hundredths : ℚ) / 100⌉₊ * 100 := by exact_mod_cast enough
    omega

private theorem scaledDuration_eq (fits : base * (100 + percent) < UInt64.size) :
    scaledDuration base percent = .ok (saturated (extended base percent)) := by
  rw [scaledDuration, saturated, extended_eq, ceil_hundredths]
  exact if_pos fits

private theorem extended_mono (fewerMinutes : less ≤ base) (fewerPercent : fewer ≤ percent) :
    extended less fewer ≤ extended base percent := by
  rw [extended_eq, extended_eq]
  have product : less * (100 + fewer) ≤ base * (100 + percent) :=
    Nat.mul_le_mul fewerMinutes (Nat.add_le_add_left fewerPercent 100)
  gcongr

private theorem saturated_mono {first second : ℚ} (most : first ≤ second) : saturated first ≤ saturated second :=
  min_le_min_right _ (Nat.ceil_le_ceil most)

private theorem le_extended (base percent : Nat) : (base : ℚ) ≤ extended base percent := by
  rw [extended_eq, le_div_iff₀ (by norm_num)]
  exact_mod_cast Nat.mul_le_mul_left base (Nat.le_add_right 100 percent)

private theorem le_saturated (number : base < numberLimit) : base ≤ saturated (extended base percent) := by
  apply le_min
  · exact_mod_cast (le_extended base percent).trans (Nat.le_ceil _)
  · exact Nat.le_sub_one_of_lt number

/-- As long as its product stays within 64 bits, a duration with additional time is rounded up to minutes and cut off
at the greatest number of a document; it is never below the duration itself, and less time or fewer percent give a
duration that is not longer. Every other product overflows. -/
theorem durations_saturate (number : base < numberLimit) :
    (base * (100 + percent) < UInt64.size → ∃ minutes, scaledDuration base percent = .ok minutes ∧
      minutes = min ⌈extended base percent⌉₊ (numberLimit - 1) ∧ base ≤ minutes ∧
      ∀ less fewer, less ≤ base → fewer ≤ percent →
        ∃ shorter, scaledDuration less fewer = .ok shorter ∧ shorter ≤ minutes) ∧
    (UInt64.size ≤ base * (100 + percent) → scaledDuration base percent = .error .overflow) := by
  constructor
  · intro fits
    refine ⟨_, scaledDuration_eq fits, rfl, le_saturated number, fun less fewer fewerMinutes fewerPercent => ?_⟩
    have product : less * (100 + fewer) ≤ base * (100 + percent) :=
      Nat.mul_le_mul fewerMinutes (Nat.add_le_add_left fewerPercent 100)
    exact ⟨_, scaledDuration_eq (product.trans_lt fits), saturated_mono (extended_mono fewerMinutes fewerPercent)⟩
  · intro beyond
    exact if_neg (Nat.not_lt.mpr beyond)

/-- Three quarters of an hour with a tenth more, of which half a minute is rounded up. -/
theorem half_minutes_are_rounded_up :
    45 < numberLimit ∧ 45 * (100 + 10) < UInt64.size ∧ extended 45 10 = 99 / 2 ∧ scaledDuration 45 10 = .ok 50 ∧
      ∃ shorter, scaledDuration 30 10 = .ok shorter ∧ shorter ≤ 50 := by
  have number : 45 < numberLimit := by decide
  have fits : 45 * (100 + 10) < UInt64.size := by decide
  obtain ⟨minutes, returned, -, -, less⟩ := (durations_saturate number).1 fits
  obtain rfl : 50 = minutes := Except.ok.inj returned
  exact ⟨number, fits, by norm_num [extended], returned, less 30 10 (by decide) (by decide)⟩

/-- The longest duration with the most percent would be cut off, but its product has more than 64 bits. -/
theorem longest_duration_overflows :
    min ⌈extended (numberLimit - 1) (numberLimit - 1)⌉₊ (numberLimit - 1) = numberLimit - 1 ∧
      scaledDuration (numberLimit - 1) (numberLimit - 1) = .error .overflow := by
  constructor
  · rw [extended_eq, ceil_hundredths]
    decide
  · rfl

end Timetable.Proofs.ScaledDurations
