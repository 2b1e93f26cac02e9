import JerkPlan.Proofs.CycleSteps
import JerkPlan.Proofs.FailureKinds

/-!
# Cycles that fail

What a cycle that fails leaves in its buffer.

A buffer is what the rest of the vehicle drives by, so it matters whether a
cycle without a result leaves anything in it. There are three ways. A cycle
that is refused, and one that has arrived, do not touch the buffer. A stage
that fails empties it. Any other failure passes through the cycle and leaves
what is there at that moment: the rough motion that came in, or whatever was
published before publishing broke off.

The third way is easily overlooked. A horizon shorter than one step has a
single knot, no problem over knots can be made for it, and the motion of the
cycle before stays in force.

## Theorems

* `Planner.run_error`: Where a cycle fails that has begun.
* `Planner.run_failed`: What a failure leaves, once the cycle has begun.
* `Planner.cycle_failed`: What a cycle without a result leaves.
* `Planner.cycle_short`: A horizon without a second knot.
-/

namespace JerkPlan

open Failure

variable {R : Type} [Scalar R]

namespace Planner

variable (p : Planner R) (solve : ConvexSolver R) (nonlinear : RefinementSolver R)

/-- A cycle that has begun and fails has done so before its convex plan, or in
    no stage. -/
theorem run_error (path : Path R) (before : SpeedSeries R) (x : Surroundings R)
    (recording : Option (Recording R)) {e : Failure R}
    (he : (p.run (p.stages solve nonlinear) path before x recording).result = .error e) :
    ((p.firstPlan (p.stages solve nonlinear) before.copy x recording).result = .error e ∧
      (p.run (p.stages solve nonlinear) path before x recording).buffer =
        some (bufferAfter before e)) ∨
    (e.Unstaged ∧
      ((p.run (p.stages solve nonlinear) path before x recording).buffer = some before ∨
        ∃ h c d, p.fillBuffer h c = (d, some e) ∧
          (p.run (p.stages solve nonlinear) path before x recording).buffer = some d)) := by
  unfold run at he ⊢
  rcases hfirst : (p.firstPlan (p.stages solve nonlinear) before.copy x recording).result with
    e' | ⟨h, k⟩
  · simp only [hfirst, Except.error.injEq] at he ⊢
    subst he
    exact Or.inl ⟨rfl, rfl⟩
  simp only [hfirst] at he ⊢
  have hunstaged := p.finalPlan_unstaged solve nonlinear path h x.limit k
    (p.firstPlan (p.stages solve nonlinear) before.copy x recording).recording
  rcases hfinal : (p.finalPlan (p.stages solve nonlinear) path h x.limit k
    (p.firstPlan (p.stages solve nonlinear) before.copy x recording).recording).result with
    e' | ⟨stage, c⟩
  · -- After it no stage fails any more.
    simp only [hfinal, Except.error.injEq] at he ⊢
    subst he
    exact Or.inr ⟨hunstaged e' hfinal, Or.inl trivial⟩
  simp only [hfinal] at he ⊢
  rcases hfill : p.fillBuffer h c with ⟨d, _ | e'⟩
  · simp only [hfill, reduceCtorEq] at he
  · simp only [hfill, Except.error.injEq] at he ⊢
    subst he
    exact Or.inr ⟨p.fillBuffer_unstaged h c hfill, Or.inr ⟨h, c, d, hfill, rfl⟩⟩

/-- A cycle that has begun and fails has its buffer emptied by a stage. Other
    failures leave the motion that came in, unless publishing has begun. -/
theorem run_failed (path : Path R) (before : SpeedSeries R) (x : Surroundings R)
    (recording : Option (Recording R)) {e : Failure R}
    (he : (p.run (p.stages solve nonlinear) path before x recording).result = .error e) :
    ((∃ c, e = .stage c) ∧
      (p.run (p.stages solve nonlinear) path before x recording).buffer = some .empty) ∨
    (e.Unstaged ∧
      ((p.run (p.stages solve nonlinear) path before x recording).buffer = some before ∨
        ∃ h c d, p.fillBuffer h c = (d, some e) ∧
          (p.run (p.stages solve nonlinear) path before x recording).buffer = some d)) := by
  rcases p.run_error solve nonlinear path before x recording he with ⟨_, hbuffer⟩ | hlater
  · -- Before the convex plan the failure decides about the buffer.
    cases e with
    | stage c => exact Or.inl ⟨⟨c, rfl⟩, hbuffer⟩
    | _ => exact Or.inr ⟨trivial, Or.inl hbuffer⟩
  · exact Or.inr hlater

/-- A cycle that is refused or has arrived leaves its buffer alone. A cycle
    that fails otherwise has its buffer emptied by a stage, while any other
    failure leaves the motion that came in or what has been published of a new
    one. -/
theorem cycle_failed (path : Option (Path R)) (buffer : Option (SpeedSeries R))
    (x : Surroundings R) (recording : Option (Recording R)) :
    (buffer = none ∨ path = none ∨ path = some ⟨[]⟩ ∨ x.arrived = true →
      (p.cycle (p.stages solve nonlinear) path buffer x recording).buffer = buffer) ∧
    ∀ before way e, buffer = some before → path = some way → way.points ≠ [] →
      x.arrived = false →
      (p.cycle (p.stages solve nonlinear) path buffer x recording).result = .error e →
      ((∃ c, e = .stage c) ∧
        (p.cycle (p.stages solve nonlinear) path buffer x recording).buffer = some .empty) ∨
      (e.Unstaged ∧
        ((p.cycle (p.stages solve nonlinear) path buffer x recording).buffer = buffer ∨
          ∃ h c d, p.fillBuffer h c = (d, some e) ∧
            (p.cycle (p.stages solve nonlinear) path buffer x recording).buffer = some d)) := by
  constructor
  · intro h
    unfold cycle
    split
    · rfl
    · rfl
    · rfl
    · next way _ hway =>
        -- Only an arrival is left of the four.
        have harrived : x.arrived = true := by
          rcases h with h | h | h | h
          · exact absurd h (by simp only [reduceCtorEq, not_false_eq_true])
          · exact absurd h (by simp only [reduceCtorEq, not_false_eq_true])
          · exact absurd (Option.some.inj h) hway
          · exact h
        rw [if_pos harrived]
  · intro before way e hbuffer hpath hpoints harrived he
    rw [hbuffer, hpath, cycle_eq_run hpoints harrived] at he ⊢
    exact p.run_failed solve nonlinear _ before x recording he

/-- Without a second knot there is no problem to solve, and the motion of the
    cycle before stays in the buffer. -/
theorem cycle_short {path : Path R} {before : SpeedSeries R} {x : Surroundings R} {h : Horizon R}
    (recording : Option (Recording R)) (hpath : path.points ≠ []) (harrived : x.arrived = false)
    (hh : (p.horizon before.copy x).result = .ok h) (hknots : h.knots < 2) :
    (p.cycle (p.stages solve nonlinear) (some path) (some before) x recording).result =
        .error (.invalid (.fewKnots h.knots)) ∧
      (p.cycle (p.stages solve nonlinear) (some path) (some before) x recording).buffer =
        some before := by
  -- Making the convex problem is the first thing to fail, before any solver.
  have hplan : (planConvex solve h before.copy p.settings).result =
      .error (.invalid (.fewKnots h.knots)) := by
    simp only [planConvex, convexProblem, KnotProblem.make, if_pos hknots, Outcome.result_bind,
      Outcome.result_of]
    rfl
  have hfirst : (p.firstPlan (p.stages solve nonlinear) before.copy x recording).result =
      .error (.invalid (.fewKnots h.knots)) := by
    simp only [firstPlan, stages, hh, hplan]
  rw [cycle_eq_run hpath harrived]
  simp only [run, hfirst, bufferAfter, and_self]

end Planner

/-! A road without a limit, and too short a horizon -/

/-- The planner with two knots in a second. -/
def halting : Planner Rat :=
  { Planner.usual with settings := { PlanSettings.usual with step := 1 / 2 } }

/-- The motion of an earlier cycle. -/
def earlierMotion : SpeedSeries Rat := ⟨[⟨0, 0, 5, 0, 0⟩, ⟨5 / 2, 1 / 2, 5, 0, 0⟩]⟩

/-- An empty road, to be planned for two tenths of a second. -/
def hurry : Surroundings Rat where
  regions := []
  length := 60
  time := 1 / 5
  speed := 5
  acceleration := 0
  limit := ⟨[(0, 20), (60, 20)]⟩
  cruiseSpeed := 10
  legalSpeed := 20
  brake := none
  arrived := false

/-- A cycle in given surroundings after an earlier motion, its solvers of no
    help. -/
def helpless (x : Surroundings Rat) : CycleReport Rat :=
  halting.cycle (halting.stages (fun _ _ => .error .bounds) fun _ _ => .brokeDown "")
    (some ⟨[⟨0, 0, 0, 0, 0, 0, 0⟩, ⟨10, 0, 0, 0, 0, 0, 10⟩]⟩) (some earlierMotion) x none

/-- Without a speed limit a stage fails. -/
theorem helpless_unlimited : (match (helpless { hurry with limit := ⟨[]⟩ }).result with
    | .error (.stage _) => true
    | _ => false) = true := by decide +kernel

/-- Without a speed limit the buffer is emptied. -/
theorem cycle_failed_unlimited : ∃ c, (helpless { hurry with limit := ⟨[]⟩ }).result =
    .error (.stage c) ∧ (helpless { hurry with limit := ⟨[]⟩ }).buffer = some .empty := by
  have hfails := helpless_unlimited
  split at hfails
  · next c hresult =>
      refine ⟨c, hresult, ?_⟩
      rcases (halting.cycle_failed _ _ _ _ _ none).2 earlierMotion _ _ rfl rfl
        (List.cons_ne_nil _ _) rfl hresult with ⟨_, hbuffer⟩ | ⟨hunstaged, _⟩
      · exact hbuffer
      · exact hunstaged.elim
  · exact absurd hfails Bool.false_ne_true

/-- A cycle in a hurry begins and fails, and the motion in its buffer is not
    its own. -/
theorem hurry_keeps_earlierMotion : (helpless hurry).result = .error (.invalid (.fewKnots 1)) ∧
    (helpless hurry).buffer = some earlierMotion ∧ earlierMotion.samples ≠ [] := by
  have hknots : ((halting.horizon earlierMotion.copy hurry).result.toOption.map (·.knots)) =
      some 1 := by decide +kernel
  rcases hh : (halting.horizon earlierMotion.copy hurry).result with e | h
  · rw [hh] at hknots
    exact absurd hknots (by simp [Except.toOption])
  have hone : h.knots = 1 := by
    rw [hh] at hknots
    exact Option.some.inj hknots
  rcases halting.cycle_short (fun _ _ => .error .bounds) (fun _ _ => .brokeDown "") none
    (List.cons_ne_nil _ _) rfl hh (by omega) with ⟨hresult, hbuffer⟩
  rw [hone] at hresult
  exact ⟨hresult, hbuffer, List.cons_ne_nil _ _⟩

end JerkPlan
