import JerkPlan.Proofs.Exact
import JerkPlan.Region

/-!
# The gap at the end of an interaction

Whether the gap that is given for the end of an interaction is kept at some knot.

A region reads its gaps at the times of the knots, and the gap for the end counts
at the knots that are less than a twentieth of a second away from it. Of the
knots around a time, one is no further away than half a step. So with steps of
less than a tenth of a second some knot is always near enough, wherever the end
is in the horizon.

Steps of a tenth of a second are the usual ones, and there half a step is exactly
the distance that no longer counts. An end midway between two knots is that far
from both of them and further from all others. Its gap is kept at none, unless it
is no wider than the one that is kept at all times: `gap_kept_iff`.

## Main definitions

* `Midway`: A time midway between two knots.

## Theorems

* `nearest_knot`: A knot less than half a step away, or a time midway.
* `Midway.half_le`: What is midway is half a step away from all knots.
* `Region.le_gap_iff`: When a region keeps the gap for its end.
* `Region.gap_kept_iff`: Whether the gap for the end is kept at some knot.
* `Region.gap_missed_midway`: An end whose gap is kept at no knot.
-/

namespace JerkPlan

variable {R : Type} [ExactScalar R] {step time : R} {knots : Int}

/-- A time midway between two knots, as far after the one as it is before the other. -/
def Midway (step time : R) : Prop :=
  ∃ k : Nat, time - (k : R) * step = ((k : R) + 1) * step - time

/-- A time within the horizon is at most half a step away from some knot, and less than
    that unless it is midway between two of them. -/
theorem nearest_knot (hstep : 0 < step) (hfirst : 0 ≤ time)
    (hlast : time ≤ ((knots : R) - 1) * step) :
    ∃ i : Nat, i < knots.toNat ∧ |time - (i : R) * step| ≤ step / 2 ∧
      (step / 2 ≤ |time - (i : R) * step| → Midway step time) := by
  rcases truncate_of_nonneg (div_nonneg hfirst hstep.le) with ⟨n, _, hle, hlt⟩
  rw [le_div_iff₀ hstep] at hle
  rw [div_lt_iff₀ hstep] at hlt
  -- The time is between the knots `n` and `n + 1`, and none of them is before the start.
  have hn : 0 ≤ n := by
    have hahead : (0 : R) < n + 1 := pos_of_mul_pos_left (hfirst.trans_lt hlt) hstep.le
    have hahead' : 0 < n + 1 := by exact_mod_cast hahead
    omega
  rcases Int.eq_ofNat_of_zero_le hn with ⟨k, rfl⟩
  rw [Int.cast_natCast] at hle hlt
  have hwithin (i : Nat) (hi : (i : R) * step < (knots : R) * step) : i < knots.toNat := by
    have hless : (i : R) < knots := lt_of_mul_lt_mul_right hi hstep.le
    have hless' : (i : Int) < knots := by exact_mod_cast hless
    omega
  rcases le_or_gt time (((k : R) + 1 / 2) * step) with hearly | hlate
  · refine ⟨k, hwithin k (by linarith), ?_⟩
    rw [abs_of_nonneg (sub_nonneg.mpr hle)]
    exact ⟨by linarith, fun hhalf => ⟨k, by linarith⟩⟩
  · refine ⟨k + 1, hwithin (k + 1) (by push_cast; linarith), ?_⟩
    rw [Nat.cast_add, Nat.cast_one, abs_of_neg (sub_neg.mpr hlt)]
    exact ⟨by linarith, fun hhalf => absurd hhalf (not_le.mpr (by linarith))⟩

/-- What is midway between two knots is half a step away from both, and further from
    all others. -/
theorem Midway.half_le (hstep : 0 < step) (h : Midway step time) (i : Nat) :
    step / 2 ≤ |time - (i : R) * step| := by
  rcases h with ⟨k, hmid⟩
  rcases Nat.lt_or_ge k i with hafter | hbefore
  · have hknot : ((k : R) + 1) * step ≤ (i : R) * step :=
      mul_le_mul_of_nonneg_right (by exact_mod_cast hafter) hstep.le
    rw [abs_sub_comm]
    exact le_trans (by linarith) (le_abs_self _)
  · have hknot : (i : R) * step ≤ (k : R) * step :=
      mul_le_mul_of_nonneg_right (by exact_mod_cast hbefore) hstep.le
    exact le_trans (by linarith) (le_abs_self _)

namespace Region

variable {r : Region R} {wide : R}

/-- A region keeps the gap for its end at times less than a twentieth of a second away
    from it. At other times it does so only if the gap that it keeps anyway is as wide. -/
theorem le_gap_iff (hending : r.ending = some (time, wide)) (t : R) :
    wide ≤ r.gap t ↔ |time - t| < 1 / 20 ∨ wide ≤ r.clearance := by
  have htolerance : (endingTolerance : R) = 1 / 20 := by
    rw [endingTolerance, decimal_eq]
    norm_num
  simp only [gap, hending, magnitude_eq_abs, htolerance, greater_eq_max]
  by_cases hnear : |time - t| < 1 / 20
  · rw [if_pos hnear]
    exact iff_of_true (le_max_right _ _) (Or.inl hnear)
  · rw [if_neg hnear, or_iff_right hnear]

/-- With steps of at most a tenth of a second, the gap for the end of an interaction is
    kept at some knot wherever the end is in the horizon, but for one case. Steps are a
    tenth of a second, the end is midway between two knots, and its gap is wider than
    the one that is kept at all times. Then it is kept at none. -/
theorem gap_kept_iff (hending : r.ending = some (time, wide)) (hstep : 0 < step)
    (hfine : step ≤ 1 / 10) (hfirst : 0 ≤ time) (hlast : time ≤ ((knots : R) - 1) * step) :
    (∃ i : Nat, i < knots.toNat ∧ wide ≤ r.gap ((i : R) * step)) ↔
      ¬ (step = 1 / 10 ∧ Midway step time ∧ r.clearance < wide) := by
  simp only [le_gap_iff hending]
  constructor
  · rintro ⟨i, _, hkept⟩ ⟨htenth, hmid, hwider⟩
    have hfar := hmid.half_le hstep i
    rcases hkept with hnear | hnarrow
    · rw [htenth] at hfar hnear
      linarith
    · exact absurd hwider (not_lt.mpr hnarrow)
  · intro hnot
    rcases nearest_knot hstep hfirst hlast with ⟨i, hi, hhalf, hmid⟩
    by_cases hnear : |time - (i : R) * step| < 1 / 20
    · exact ⟨i, hi, Or.inl hnear⟩
    · -- Half of a step that is not too long is a twentieth of a second at most.
      rw [not_lt] at hnear
      have htenth : step = 1 / 10 := le_antisymm hfine (by linarith)
      have hmidway : Midway step time := hmid (le_trans (by linarith) hnear)
      exact ⟨i, hi, Or.inr (not_lt.mp fun hwider => hnot ⟨htenth, hmidway, hwider⟩)⟩

/-! Somebody who turns off -/

/-- Somebody to follow for a second, who turns off at a given time. One keeps two behind,
    and nine when they do. -/
def turningOff (time : Rat) : Region Rat :=
  ⟨.follow, [(0, 20), (1, 30)], [(0, 24), (1, 34)], 2, some (time, 9)⟩

/-- A twentieth of a second after the start is midway between two of the usual knots, and
    nine is kept at none of them. With slightly shorter steps an end midway is no
    exception, and with the usual steps one slightly earlier is none. -/
theorem gap_kept_iff_turningOff :
    (0 : Rat) < 1 / 10 ∧ (0 : Rat) < 2 / 25 ∧ (2 / 25 : Rat) ≤ 1 / 10 ∧
      ¬ (∃ i : Nat, i < (11 : Int).toNat ∧ 9 ≤ (turningOff (1 / 20)).gap ((i : Rat) * (1 / 10))) ∧
      (∃ i : Nat, i < (11 : Int).toNat ∧ 9 ≤ (turningOff (1 / 25)).gap ((i : Rat) * (2 / 25))) ∧
      ∃ i : Nat, i < (11 : Int).toNat ∧ 9 ≤ (turningOff (6 / 125)).gap ((i : Rat) * (1 / 10)) := by
  have hstep : (0 : Rat) < 1 / 10 := by norm_num
  have hshorter : (0 : Rat) < 2 / 25 := by norm_num
  have hfine : (2 / 25 : Rat) ≤ 1 / 10 := by norm_num
  have hwithin : (1 / 20 : Rat) ≤ (((11 : Int) : Rat) - 1) * (1 / 10) := by norm_num
  have hwithin' : (1 / 25 : Rat) ≤ (((11 : Int) : Rat) - 1) * (2 / 25) := by norm_num
  have hearlier : (6 / 125 : Rat) ≤ (((11 : Int) : Rat) - 1) * (1 / 10) := by norm_num
  refine ⟨hstep, hshorter, hfine, ?_, ?_, ?_⟩
  · rw [gap_kept_iff rfl hstep le_rfl (by norm_num) hwithin, not_not]
    exact ⟨rfl, ⟨0, by norm_num⟩, by decide +kernel⟩
  · refine (gap_kept_iff rfl hshorter hfine (by norm_num) hwithin').mpr ?_
    exact fun hmissed => absurd hmissed.1 (by norm_num)
  · refine (gap_kept_iff rfl hstep le_rfl (by norm_num) hearlier).mpr ?_
    rintro ⟨_, ⟨k, hk⟩, _⟩
    have hlater : (0 : Rat) ≤ k := Nat.cast_nonneg k
    linarith

/-- So the gap for the end can be missed with the usual steps, though the end is within the
    horizon. -/
theorem gap_missed_midway :
    ¬ ∀ (r : Region Rat) (time wide step : Rat) (knots : Int), r.ending = some (time, wide) →
      0 < step → step ≤ 1 / 10 → 2 ≤ knots → 0 ≤ time → time ≤ ((knots : Rat) - 1) * step →
      ∃ i : Nat, i < knots.toNat ∧ wide ≤ r.gap ((i : Rat) * step) := by
  intro hall
  have hmissed : ∀ i : Nat, i < (2 : Int).toNat →
      ¬ 9 ≤ (turningOff (1 / 20)).gap ((i : Rat) * (1 / 10)) := by decide +kernel
  rcases hall (turningOff (1 / 20)) (1 / 20) 9 (1 / 10) 2 rfl (by norm_num) le_rfl le_rfl
    (by norm_num) (by norm_num) with ⟨i, hi, hkept⟩
  exact hmissed i hi hkept

end Region

end JerkPlan
