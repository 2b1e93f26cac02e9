import JerkPlan.Proofs.CycleLimits
import JerkPlan.Proofs.StandingStart

/-!
# Lost ground

How far a convex plan can roll back, although no speed of it is negative.

The speed is bounded at the knots only. Over a step of constant jerk the place
changes by the mean of the two speeds at its ends times the step, and by a
twelfth of the step's square times the acceleration that is given up. Where
acceleration rises while both speeds are small, as when a vehicle brakes hard
and then recovers, the second part is negative and may outweigh the first. The
plan then loses ground between two knots at which it moves ahead.

The rows of a convex plan do not exclude this. They limit it. The rise of
acceleration telescopes over a run of steps, so what is lost over the run is a
twelfth of the step's square times the rise over the whole of it, and this is
bounded in two ways: by the range of accelerations, however long the run is,
and by the jerk over its steps. A step on which the speeds are large enough for
the jerk loses nothing.

The bounds of acceleration and jerk are clipped before a solver reads them. As
they have zero between them, clipping makes them no wider.

## Main definitions

* `Horizon.LosesLittle`: How much ground states may lose.

## Theorems

* `Motion.Linked.advance`, `Motion.Linked.advances_iff`: What a step leads to.
* `rise_le`, `lost_le`: A run of steps.
* `ConvexFor.losesLittle`: The rows limit what is lost.
* `Planner.plan_losesLittle`: A plan loses little ground.
* `Planner.plan_rollsBack`: A plan that loses ground.
-/

namespace JerkPlan

variable {R : Type} [ExactScalar R]

/-! Clipping -/

namespace Endpoint

theorem clip_le_of_nonneg {x : R} (hx : 0 ≤ x) : (finite x).clip ≤ x := by
  rw [clip_finite_eq]
  exact max_le ((neg_nonpos.mpr huge_pos.le).trans hx) (min_le_left _ _)

theorem le_clip_of_nonpos {x : R} (hx : x ≤ 0) : x ≤ (finite x).clip := by
  rw [clip_finite_eq]
  exact le_max_of_le_right (le_min le_rfl (hx.trans huge_pos.le))

end Endpoint

/-! A step -/

namespace Motion.Linked

variable {step : R} {m m' : Motion R}

/-- A step leads as far as its mean speed does, and further by what
    acceleration is given up. -/
theorem advance (h : m.Linked step m') :
    m'.p - m.p = step / 2 * (m.v + m'.v) - step ^ 2 / 12 * (m'.a - m.a) := by
  have hspeed : m'.v = m.v + step / 2 * (m.a + m'.a) := by linarith [h.slope]
  rw [h.value, hspeed]
  ring

/-- A step loses no ground exactly when acceleration rises no more than the
    speeds at its ends make up for. -/
theorem advances_iff (h : m.Linked step m') (hstep : 0 < step) :
    m.p ≤ m'.p ↔ step * (m'.a - m.a) ≤ 6 * (m.v + m'.v) := by
  have hadvance : m'.p - m.p = step / 12 * (6 * (m.v + m'.v) - step * (m'.a - m.a)) := by
    rw [h.advance]
    ring
  have hfactor : 0 < step / 12 := by positivity
  rw [← sub_nonneg, hadvance, mul_nonneg_iff_of_pos_left hfactor, sub_nonneg]

end Motion.Linked

/-! A run of steps -/

section Run

variable {s : Nat → Motion R} {n : Nat}

/-- What acceleration gains over a run of steps, by induction on the steps. -/
theorem rise_le {rise : R} (h : ∀ i, i + 1 < n → (s (i + 1)).a - (s i).a ≤ rise) (i m : Nat)
    (hm : i + m < n) : (s (i + m)).a - (s i).a ≤ m * rise := by
  induction m with
  | zero => simp only [Nat.add_zero, sub_self, Nat.cast_zero, zero_mul, le_refl]
  | succ m ih =>
      have hrun := ih (by omega)
      have hstep := h (i + m) (by omega)
      rw [Nat.cast_succ, add_mul, one_mul, ← Nat.add_assoc]
      linarith

/-- What is lost over a run of steps whose speeds are not negative: the rises of
    acceleration over the single steps add up to that over the run. -/
theorem lost_le {step : R} (hlinked : ∀ i, i + 1 < n → (s i).Linked step (s (i + 1)))
    (hspeed : ∀ i, i < n → 0 ≤ (s i).v) (hstep : 0 < step) (i m : Nat) (hm : i + m < n) :
    (s i).p - (s (i + m)).p ≤ step ^ 2 / 12 * ((s (i + m)).a - (s i).a) := by
  induction m with
  | zero => simp only [Nat.add_zero, sub_self, mul_zero, le_refl]
  | succ m ih =>
      have hrun := ih (by omega)
      have hadvance := (hlinked (i + m) (by omega)).advance
      have hmean : 0 ≤ step / 2 * ((s (i + m)).v + (s (i + m + 1)).v) :=
        mul_nonneg (by positivity)
          (add_nonneg (hspeed (i + m) (by omega)) (hspeed (i + m + 1) (by omega)))
      rw [← Nat.add_assoc]
      linarith

end Run

/-! The convex plan -/

/-- States lose no more ground than the rise of acceleration, which the limits
    of a horizon bound, and none on a step that is fast enough. -/
structure Horizon.LosesLittle (h : Horizon R) (s : Nat → Motion R) : Prop where
  step : ∀ i, i + 1 < h.knots.toNat →
    ((s i).p ≤ (s (i + 1)).p ↔ h.step * ((s (i + 1)).a - (s i).a) ≤ 6 * ((s i).v + (s (i + 1)).v))
  fast : ∀ i, i + 1 < h.knots.toNat →
    h.step ^ 2 * h.maxJerk ≤ 6 * ((s i).v + (s (i + 1)).v) → (s i).p ≤ (s (i + 1)).p
  run : ∀ i m, i + m < h.knots.toNat →
    (s i).p - (s (i + m)).p ≤ h.step ^ 2 / 12 * ((s (i + m)).a - (s i).a)
  range : ∀ i m, i + m < h.knots.toNat →
    (s i).p - (s (i + m)).p ≤ h.step ^ 2 / 12 * (h.maxAcceleration - h.minAcceleration)
  jerk : ∀ i m, i + m < h.knots.toNat →
    (s i).p - (s (i + m)).p ≤ m * (h.step ^ 3 / 12 * h.maxJerk)

/-- The rows of a convex plan limit what it loses. -/
theorem ConvexFor.losesLittle {h : Horizon R} {q : KnotProblem R} (hq : ConvexFor h q)
    (hrest : h.AllowsRest) {z : Nat → R} (hz : q.constraints.Hold z) :
    h.LosesLittle (stateAt h.knots.toNat z) := by
  have hstep := hq.step_pos
  have hrows := hq.eachRow hz
  have hlinked (i : Nat) (hi : i + 1 < h.knots.toNat) :
      (stateAt h.knots.toNat z i).Linked h.step (stateAt h.knots.toNat z (i + 1)) := by
    have hlink := KnotProblem.linked_of_hold hq.wellFormed hz (by rw [hq.knots]; exact hi)
    rw [hq.step, hq.knots] at hlink
    exact hlink
  have hspeed (i : Nat) (hi : i < h.knots.toNat) : 0 ≤ (stateAt h.knots.toNat z i).v := by
    have hslope := hrows.slopes i _ (by rw [hq.vBounds, List.getElem?_replicate, if_pos hi])
    rw [hq.knots, KnotProblem.finitePair, Endpoint.clip_zero] at hslope
    exact hslope.1
  have hbend (i : Nat) (hi : i < h.knots.toNat) :
      h.minAcceleration ≤ (stateAt h.knots.toNat z i).a ∧
        (stateAt h.knots.toNat z i).a ≤ h.maxAcceleration := by
    have hbend := hrows.bends i _ (by rw [hq.aBounds, List.getElem?_replicate, if_pos hi])
    rw [hq.knots, KnotProblem.finitePair] at hbend
    exact ⟨(Endpoint.le_clip_of_nonpos hrest.acceleration.1).trans hbend.1,
      hbend.2.trans (Endpoint.clip_le_of_nonneg hrest.acceleration.2)⟩
  have hrise (i : Nat) (hi : i + 1 < h.knots.toNat) :
      (stateAt h.knots.toNat z (i + 1)).a - (stateAt h.knots.toNat z i).a ≤
        h.maxJerk * h.step := by
    have hchange := (hrows.changes i (by rw [hq.knots]; exact hi)).2
    rw [hq.jerkBounds, hq.step, hq.knots] at hchange
    exact hchange.trans (Endpoint.clip_le_of_nonneg (mul_nonneg hrest.jerk.2 hstep.le))
  -- What is lost over a run depends on its two ends, whatever happens in between.
  have hrun := lost_le hlinked hspeed hstep
  have hfactor : 0 ≤ h.step ^ 2 / 12 := by positivity
  refine ⟨fun i hi => (hlinked i hi).advances_iff hstep, fun i hi hfast => ?_, hrun,
    fun i m hm => ?_, fun i m hm => ?_⟩
  · refine ((hlinked i hi).advances_iff hstep).mpr (le_trans ?_ hfast)
    calc h.step * ((stateAt h.knots.toNat z (i + 1)).a - (stateAt h.knots.toNat z i).a)
        ≤ h.step * (h.maxJerk * h.step) := mul_le_mul_of_nonneg_left (hrise i hi) hstep.le
      _ = h.step ^ 2 * h.maxJerk := by ring
  · refine (hrun i m hm).trans (mul_le_mul_of_nonneg_left ?_ hfactor)
    exact sub_le_sub (hbend (i + m) hm).2 (hbend i (by omega)).1
  · calc (stateAt h.knots.toNat z i).p - (stateAt h.knots.toNat z (i + m)).p
        ≤ h.step ^ 2 / 12 *
            ((stateAt h.knots.toNat z (i + m)).a - (stateAt h.knots.toNat z i).a) := hrun i m hm
      _ ≤ h.step ^ 2 / 12 * (m * (h.maxJerk * h.step)) :=
          mul_le_mul_of_nonneg_left (rise_le hrise i m hm) hfactor
      _ = m * (h.step ^ 3 / 12 * h.maxJerk) := by ring

/-- Whatever a checked planner's horizon of two knots is, a point that keeps all
    rows of the convex plan loses little ground. -/
theorem Planner.plan_losesLittle {p : Planner R} (hp : p.Checked) {rough : SpeedSeries R}
    {x : Surroundings R} {h : Horizon R} (hh : (p.horizon rough x).result = .ok h)
    (hknots : 2 ≤ h.knots) :
    ∃ q, (convexProblem h rough p.settings).result = .ok q ∧
      ∀ z, q.constraints.Hold z → h.LosesLittle (stateAt h.knots.toNat z) := by
  rcases convexProblem_ready hp hh hknots with ⟨q, hq, hfor, _, _⟩
  exact ⟨q, hq, fun z hz => hfor.losesLittle (horizon_allowsRest hp hh) hz⟩

/-! Braking and recovering -/

/-- A planner that stays close to the rough motion and weighs nothing else, with
    a second between the knots. -/
def tracker : Planner Rat :=
  { Planner.usual with
    settings := { PlanSettings.usual with step := 1, accelerationWeight := 0, jerkWeight := 0 }
    comfort := { Comfort.usual with jerkUpper := 3, refine := false, publishTime := 0 } }

/-- A slow start on a free road. -/
def slowStart : Surroundings Rat where
  regions := []
  length := 10
  time := 2
  speed := 4 / 5
  acceleration := 0
  limit := ⟨[(0, 5), (10, 5)]⟩
  cruiseSpeed := 5
  legalSpeed := 5
  brake := none
  arrived := false

/-- Rough motion that stops after a second. -/
def stopping : SpeedSeries Rat := ⟨[⟨0, 0, 0, 0, 0⟩, ⟨3 / 8, 1, 0, 0, 0⟩, ⟨3 / 8, 2, 0, 0, 0⟩]⟩

/-- Brake, and recover in the second after. -/
def recovering : KnotProfile Rat :=
  ⟨[0, 11 / 20, 7 / 20], [4 / 5, 1 / 20, 1 / 20], [0, -3 / 2, 3 / 2]⟩

theorem tracker_checked : tracker.Checked :=
  { Planner.usual_checked with
    settings := by
      have hsound := (PlanSettings.checked_iff _).mp (PlanSettings.usual_checked (R := Rat))
      exact (PlanSettings.checked_iff _).mpr
        { hsound with step_pos := one_pos, weights := by decide +kernel }
    comfort := (Comfort.checked_iff _).mpr ⟨by decide +kernel, by decide +kernel⟩ }

theorem recovering_feasible : ∃ h q, (tracker.horizon stopping slowStart).result = .ok h ∧
    h.knots = 3 ∧ (convexProblem h stopping tracker.settings).result = .ok q ∧
      q.Feasible recovering := by
  have hparts : ((tracker.horizon stopping slowStart).result.toOption.map fun h =>
      (h.knots, (convexProblem h stopping tracker.settings).result.toOption.map fun q =>
        decide (q.Feasible recovering))) = some (3, some true) := by decide +kernel
  rcases exists_of_toOption_map hparts with ⟨h, hh, hrest⟩
  rw [Prod.mk.injEq] at hrest
  rcases exists_of_toOption_map hrest.2 with ⟨q, hq, hkept⟩
  exact ⟨h, q, hh, hrest.1, hq, of_decide_eq_true hkept⟩

/-- Braking and recovering keeps all rows and moves ahead at every knot, but
    loses a fifth of a metre between the last two. -/
theorem Planner.plan_rollsBack : tracker.Checked ∧
    ∃ h q, (tracker.horizon stopping slowStart).result = .ok h ∧
      (convexProblem h stopping tracker.settings).result = .ok q ∧
        q.constraints.Hold recovering.point ∧
          (∀ i, i < 3 → 0 < (stateAt h.knots.toNat recovering.point i).v) ∧
            (stateAt h.knots.toNat recovering.point 2).p <
              (stateAt h.knots.toNat recovering.point 1).p := by
  rcases recovering_feasible with ⟨h, q, hh, hknots, hq, hkept⟩
  refine ⟨tracker_checked, h, q, hh, hq, hkept, ?_, ?_⟩
  · rw [hknots]
    decide +kernel
  · rw [hknots]
    decide +kernel

/-- What it loses is what its rise of acceleration allows less what its speeds
    make up for. -/
theorem Planner.plan_losesLittle_recovering : tracker.Checked ∧
    ∃ h q, (tracker.horizon stopping slowStart).result = .ok h ∧ 2 ≤ h.knots ∧
      (convexProblem h stopping tracker.settings).result = .ok q ∧
        q.constraints.Hold recovering.point ∧
          h.LosesLittle (stateAt h.knots.toNat recovering.point) := by
  rcases recovering_feasible with ⟨h, q, hh, hknots, hq, hkept⟩
  rcases plan_losesLittle tracker_checked hh (by omega) with ⟨q', hq', hlittle⟩
  rw [hq, Except.ok.injEq] at hq'
  subst hq'
  exact ⟨tracker_checked, h, q, hh, by omega, hq, hkept, hlittle _ hkept⟩

end JerkPlan
