import JerkPlan.Proofs.Results
import JerkPlan.Cycle

/-!
# Kinds of failures

Which failures the parts of a cycle can end with, from its convex problem on.

A cycle treats failures by their kind. The failure of a stage empties the
buffer unless the cycle can recover from it; any other failure passes through
and touches nothing. What a part can fail with is therefore asked by kind
alone: `Unstaged` failures are not those of a stage, and `Contained` ones are
either that or recovered from. After the convex plan there is nothing else,
since the only stages left are the two fits and the refinement.

Nothing here depends on the answers of the solvers or on exact arithmetic.

## Main definitions

* `Failure.Unstaged`, `Failure.Contained`: The two kinds.
* `Failure.Recovered`: The failures of a stage among the contained ones.

## Theorems

* `convexProblem_unstaged`: The problem of the convex plan.
* `fitCurve_contained`, `fitCurvature_contained`, `fitSpeedLimit_contained`:
  The fits.
* `Planner.refinement_contained`, `refine_contained`: The refinement.
* `Planner.refinedProfile_contained`: All of it together.
* `Planner.finalPlan_unstaged`, `Planner.fillBuffer_unstaged`: What is left for
  the cycle.
-/

namespace JerkPlan

namespace Failure

variable {R : Type}

/-- Not the failure of a stage. -/
def Unstaged : Failure R → Prop
  | stage _ => False
  | _ => True

/-- The failure of a stage only if the cycle goes on. -/
def Contained : Failure R → Prop
  | stage c => c.recoverable = true
  | _ => True

/-- The failure of a stage after which the cycle goes on. -/
def Recovered (e : Failure R) : Prop := e.recoverable = true

end Failure

theorem FailsOnly.contained {R α : Type} {x : Except (Failure R) α}
    (h : FailsOnly Failure.Unstaged x) : FailsOnly Failure.Contained x := by
  refine h.mono fun e he => ?_
  cases e with
  | stage c => exact he.elim
  | _ => trivial

variable {R : Type} [Scalar R]

open Failure

/-! Problems over knots -/

omit [Scalar R] in
theorem KnotProblem.withReference_unstaged (q : KnotProblem R) (weights targets : List R) :
    FailsOnly Unstaged (q.withReference weights targets) := by
  have hweights : FailsOnly Unstaged (knotWeights q.knots weights) := by
    unfold knotWeights
    split
    · exact FailsOnly.ok _
    · simp [Unstaged]
  exact FailsOnly.ite_iff.mpr ⟨fun _ => FailsOnly.error_iff.mpr trivial, fun _ => hweights.map⟩

theorem fitProblem_unstaged (samples : List R) (start : Motion R) (f : FitSettings R) :
    FailsOnly Unstaged (fitProblem samples start f) := by
  refine FailsOnly.bind ?_ fun p _ => ?_
  · simp [KnotProblem.make, Unstaged]
  · exact KnotProblem.withReference_unstaged _ _ _

theorem KnotProblem.program_unstaged (q : KnotProblem R) : FailsOnly Unstaged q.program := by
  refine FailsOnly.bind ?_ fun k _ => FailsOnly.bind ?_ fun o _ => FailsOnly.ok _
  · have hweight : FailsOnly Unstaged q.changeWeight := by simp [changeWeight, Unstaged]
    unfold kernel
    split
    · exact FailsOnly.bind (by simp [Unstaged]) fun _ h => absurd h (by simp)
    · exact FailsOnly.bind hweight fun w _ => FailsOnly.ok _
  · unfold offset
    split
    · exact FailsOnly.bind (by simp [Unstaged]) fun _ h => absurd h (by simp)
    · exact FailsOnly.ok _

theorem KnotProblem.optimize_unstaged (solve : ConvexSolver R) (budget : Int)
    (q : KnotProblem R) : FailsOnly Unstaged (q.optimize solve budget).result := by
  refine FailsOnly.bind_outcome q.program_unstaged fun _ _ => ?_
  split
  · simp [Unstaged]
  · split
    · exact FailsOnly.ok _
    · exact FailsOnly.ok _

/-! The convex problem -/

theorem convexProblem_unstaged (h : Horizon R) (rough : SpeedSeries R) (p : PlanSettings R) :
    FailsOnly Unstaged (convexProblem h rough p).result := by
  have hsettle (spec : BoundsSpec R) (n : Nat) : FailsOnly Unstaged (spec.settle n) := by
    unfold BoundsSpec.settle
    split
    · exact FailsOnly.ok _
    · exact FailsOnly.error_iff.mpr trivial
    · exact FailsOnly.error_iff.mpr trivial
    · simp [Unstaged]
  have htargets : FailsOnly Unstaged (referenceDistances rough h) := by
    refine FailsOnly.bind ?_ fun first _ => FailsOnly.bind ?_ fun last _ => FailsOnly.ok _
    · unfold SpeedSeries.front
      cases rough.samples.head? <;> simp [Unstaged]
    · unfold SpeedSeries.back
      cases rough.samples.getLast? <;> simp [Unstaged]
  refine FailsOnly.bind_outcome ?_ fun q _ =>
    FailsOnly.bind_outcome (hsettle _ _) fun bounds _ => ?_
  · simp [KnotProblem.make, Unstaged]
  split
  · exact FailsOnly.bind_outcome htargets fun targets _ => KnotProblem.withReference_unstaged _ _ _
  · exact FailsOnly.ok _

/-! Fits -/

theorem extendBy_unstaged (spacing : R) (as : List R) :
    ∀ c, FailsOnly Unstaged (extendBy spacing as c) := by
  induction as with
  | nil => exact fun c => FailsOnly.ok c
  | cons a as ih =>
      intro c
      cases as with
      | nil => exact FailsOnly.ok c
      | cons b as =>
          refine FailsOnly.bind (FailsOnly.bind ?_ fun g _ => FailsOnly.ok _) fun c' _ => ih c'
          simp [JerkSegment.make, Unstaged]

theorem rebuild_unstaged (spacing : R) (k : KnotProfile R) :
    FailsOnly Unstaged (rebuild spacing k) := by
  unfold rebuild
  split
  · exact extendBy_unstaged _ _ _
  · simp [Unstaged]

/-- The only stage that a fit can fail in is its own. -/
theorem fitCurve_contained (solve : ConvexSolver R) (samples : List R) (start : Motion R)
    (f : FitSettings R) (name : String) :
    FailsOnly Contained (fitCurve solve samples start f name).result := by
  unfold fitCurve
  split
  · exact FailsOnly.error_iff.mpr rfl
  refine FailsOnly.bind_outcome ((fitProblem_unstaged _ _ _).contained) fun q _ => ?_
  refine FailsOnly.bind_outcome ((q.optimize_unstaged _ _).contained) fun answer _ => ?_
  split
  · exact (rebuild_unstaged _ _).contained
  · exact FailsOnly.error_iff.mpr rfl

omit [Scalar R] in
theorem Path.front_unstaged (path : Path R) : FailsOnly Unstaged path.front := by
  unfold front
  cases path.points.head? <;> simp [Unstaged]

theorem sampleCurvature_unstaged (path : Path R) (spacing : R) :
    FailsOnly Unstaged (sampleCurvature path spacing) := by
  have hback : FailsOnly Unstaged path.back := by
    unfold Path.back
    cases path.points.getLast? <;> simp [Unstaged]
  have hpoint (s : R) : FailsOnly Unstaged (path.pointAt s) := by
    unfold Path.pointAt
    simp only
    split <;> simp [Unstaged]
  refine FailsOnly.bind path.front_unstaged fun first _ => FailsOnly.bind hback fun last _ => ?_
  exact FailsOnly.mapM fun s _ => FailsOnly.bind (hpoint s) fun _ _ => FailsOnly.ok _

theorem fitCurvature_contained (solve : ConvexSolver R) (path : Path R) (f : FitSettings R) :
    FailsOnly Contained (fitCurvature solve path f).result := by
  refine FailsOnly.bind_outcome ((sampleCurvature_unstaged _ _).contained) fun samples _ => ?_
  refine FailsOnly.bind_outcome (path.front_unstaged.contained) fun first _ => ?_
  exact fitCurve_contained _ _ _ _ _

theorem SpeedLimit.limitAt_unstaged (limit : SpeedLimit R) (s : R) :
    FailsOnly Unstaged (limit.limitAt s) := by
  unfold limitAt
  split
  · simp [Unstaged]
  · split <;> simp [Unstaged]

theorem fitSpeedLimit_contained (solve : ConvexSolver R) (limit : SpeedLimit R)
    (f : FitSettings R) : FailsOnly Contained (fitSpeedLimit solve limit f).result := by
  unfold fitSpeedLimit
  simp only
  split
  · exact FailsOnly.error_iff.mpr rfl
  refine FailsOnly.bind_outcome (FailsOnly.mapM fun i _ => ?_) fun samples _ => ?_
  · exact (limit.limitAt_unstaged _).contained
  split
  · exact FailsOnly.error_iff.mpr trivial
  · exact fitCurve_contained _ _ _ _ _

/-! The refinement -/

theorem Planner.refinement_contained (p : Planner R) (h : Horizon R) (plan : KnotProfile R)
    (curvature limit : JerkCurve R) :
    FailsOnly Contained (p.refinement h plan curvature limit).result := by
  refine FailsOnly.bind_outcome ?_ fun q _ => FailsOnly.bind_outcome ?_ fun q _ =>
    FailsOnly.bind_outcome ?_ fun q _ => FailsOnly.bind_outcome ?_ fun q _ => FailsOnly.ok _
  · simp [RefinementProblem.withHard, Contained]
  · unfold softened
    split
    · exact FailsOnly.ok q
    · refine FailsOnly.bind_outcome ?_ fun q _ => FailsOnly.ok _
      simp [RefinementProblem.withSoft, Contained]
  · -- A warm start of the wrong size is the refinement's own failure.
    unfold warmed RefinementProblem.withWarmStart
    split
    · split
      · exact FailsOnly.error_iff.mpr rfl
      · exact FailsOnly.ok _
    · exact FailsOnly.ok _
  · simp [aimed, RefinementProblem.withReference, Contained]

theorem CurveTable.ofCurve_unstaged (curve : JerkCurve R) (reach spacing : R) :
    FailsOnly Unstaged (CurveTable.ofCurve curve reach spacing) := by
  unfold ofCurve
  simp only
  split
  · simp [Unstaged]
  · split <;> simp [Unstaged]

theorem RefinementProblem.program_unstaged (r : RefinementProblem R) :
    FailsOnly Unstaged r.program := by
  refine FailsOnly.bind ?_ fun _ _ => FailsOnly.ok _
  unfold splines
  split
  · refine FailsOnly.bind ?_ fun reach _ => FailsOnly.bind ?_ fun kappa _ =>
      FailsOnly.bind ?_ fun bound _ => FailsOnly.ok _
    · unfold RefinementProblem.reach
      split <;> simp [Unstaged]
    · exact (CurveTable.ofCurve_unstaged _ _ _).map
    · exact (CurveTable.ofCurve_unstaged _ _ _).map
  · simp [Unstaged]

theorem RefinementProblem.startingPoint_unstaged (r : RefinementProblem R) :
    FailsOnly Unstaged r.startingPoint := by
  unfold startingPoint
  simp only
  split
  · exact FailsOnly.ok _
  · refine FailsOnly.bind (FailsOnly.bind (FailsOnly.mapM fun i _ => ?_) fun _ _ =>
      FailsOnly.ok _) fun _ _ => FailsOnly.ok _
    split <;> simp [Unstaged]

theorem refine_contained (solve : RefinementSolver R) (budget : Int) (r : RefinementProblem R) :
    FailsOnly Contained (refine solve budget r).result := by
  refine FailsOnly.bind_outcome r.program_unstaged.contained fun _ _ =>
    FailsOnly.bind_outcome r.startingPoint_unstaged.contained fun _ _ => ?_
  split
  · exact FailsOnly.error_iff.mpr rfl
  · split
    · exact FailsOnly.ok _
    · split
      · exact FailsOnly.error_iff.mpr rfl
      · exact FailsOnly.error_iff.mpr rfl

/-! Publishing -/

theorem samplesAfter_unstaged (step : R) (stopping : Bool) (knots : List (R × R × R)) :
    ∀ before i, FailsOnly Unstaged (samplesAfter step stopping before i knots) := by
  induction knots with
  | nil => exact fun _ _ => FailsOnly.ok _
  | cons k knots ih =>
      intro before i
      unfold samplesAfter
      split
      · exact FailsOnly.ok _
      · split
        · exact FailsOnly.error_iff.mpr trivial
        · exact FailsOnly.bind (ih _ _) fun _ _ => FailsOnly.ok _

theorem profileSamples_unstaged (k : KnotProfile R) (step : R) (stopping : Bool) :
    FailsOnly Unstaged (profileSamples k step stopping) := by
  unfold profileSamples
  split
  · exact FailsOnly.ok _
  · split
    · exact FailsOnly.ok _
    · exact FailsOnly.bind (samplesAfter_unstaged _ _ _ _ _) fun _ _ => FailsOnly.ok _

theorem appendAll_unstaged {e : Failure R} (samples : List (SpeedSample R)) :
    ∀ d, (appendAll samples d).2 = some e → e.Unstaged := by
  induction samples with
  | nil =>
      intro d h
      exact absurd h (by simp [appendAll])
  | cons sample samples ih =>
      intro d h
      rw [appendAll] at h
      rcases hd : d.append sample with e' | d'
      · simp only [hd, Option.some.injEq] at h
        have happend : FailsOnly Unstaged (d.append sample) := by
          unfold SpeedSeries.append
          split
          · simp [Unstaged]
          · exact FailsOnly.ok _
        rw [← h]
        exact happend e' hd
      · simp only [hd] at h
        exact ih d' h

theorem publish_unstaged {k : KnotProfile R} {step : R} {e : Failure R}
    (h : (publish k step).2 = some e) : e.Unstaged := by
  unfold publish at h
  rcases hsamples : profileSamples k step true with e' | samples
  · rw [hsamples, Option.some.injEq] at h
    rw [← h]
    exact profileSamples_unstaged k step true e' hsamples
  · rw [hsamples] at h
    exact appendAll_unstaged samples .empty h

/-! After the convex plan -/

theorem FailsOnly.andThen {R α β : Type} {kind : Failure R → Prop} {x : CyclePart R α}
    {f : Option (Recording R) → α → CyclePart R β} (hx : FailsOnly kind x.result)
    (hf : ∀ a, x.result = .ok a → FailsOnly kind (f x.recording a).result) :
    FailsOnly kind (x.andThen f).result := by
  unfold CyclePart.andThen
  rcases hresult : x.result with e | a
  · rw [hresult] at hx
    exact error_iff.mpr (error_iff.mp hx)
  · exact hf a hresult

namespace Planner

variable (p : Planner R) (solve : ConvexSolver R) (nonlinear : RefinementSolver R)

theorem refinedProfile_contained (path : Path R) (h : Horizon R) (limit : SpeedLimit R)
    (plan : KnotProfile R) (recording : Option (Recording R)) :
    FailsOnly Contained
      (p.refinedProfile (p.stages solve nonlinear) path h limit plan recording).result := by
  refine FailsOnly.andThen (fitCurvature_contained _ _ _) fun kappa _ => ?_
  refine FailsOnly.andThen (fitSpeedLimit_contained _ _ _) fun bound _ => ?_
  refine FailsOnly.andThen (p.refinement_contained _ _ _ _) fun problem _ => ?_
  exact refine_contained _ _ _

/-- What the refinement contains the cycle recovers from, so no stage fails
    after the convex plan. -/
theorem secondPlan_unstaged (path : Path R) (h : Horizon R) (limit : SpeedLimit R)
    (c : Checkpoint R) (recording : Option (Recording R)) :
    FailsOnly Unstaged
      (p.secondPlan (p.stages solve nonlinear) path h limit c recording).result := by
  have hcontained := p.refinedProfile_contained solve nonlinear path h limit c.profile recording
  unfold secondPlan
  rcases hx : (p.refinedProfile (p.stages solve nonlinear) path h limit c.profile
    recording).result with e | k
  · rw [hx, FailsOnly.error_iff] at hcontained
    simp only [hx]
    cases e with
    | stage cause =>
        have hrecovered : cause.recoverable = true := hcontained
        simp only [hrecovered, if_true]
        exact FailsOnly.ok _
    | _ => exact FailsOnly.error_iff.mpr trivial
  · simp only [hx]
    exact FailsOnly.ok _

theorem startsWithinLimit_unstaged (h : Horizon R) (limit : SpeedLimit R) :
    FailsOnly Unstaged (startsWithinLimit h limit).result := by
  unfold startsWithinLimit
  split
  · exact FailsOnly.ok _
  · refine FailsOnly.bind_outcome (limit.limitAt_unstaged _) fun here _ => ?_
    split
    · exact FailsOnly.ok _
    · exact FailsOnly.ok _

/-- Recording and refining a convex plan fails in no stage. -/
theorem finalPlan_unstaged (path : Path R) (h : Horizon R) (limit : SpeedLimit R)
    (k : KnotProfile R) (recording : Option (Recording R)) :
    FailsOnly Unstaged
      (p.finalPlan (p.stages solve nonlinear) path h limit k recording).result := by
  have himprove (c : Checkpoint R) (recording : Option (Recording R)) : FailsOnly Unstaged
      (p.improve (p.stages solve nonlinear) path h limit c recording).result := by
    unfold improve
    split
    · exact FailsOnly.ok _
    · refine FailsOnly.andThen (startsWithinLimit_unstaged _ _) fun within _ => ?_
      split
      · exact FailsOnly.andThen (p.secondPlan_unstaged _ _ _ _ _ _ _) fun _ _ => FailsOnly.ok _
      · exact FailsOnly.ok _
  have hrecord (r : Recording R) : FailsOnly Unstaged ((r.recordConvex k h.step).map some) :=
    (FailsOnly.bind (profileSamples_unstaged _ _ _) fun _ _ => FailsOnly.ok _).map
  unfold finalPlan
  cases recording with
  | none => exact himprove _ _
  | some r =>
      rcases hrecorded : (r.recordConvex k h.step).map some with e | recorded
      · simp only [hrecorded]
        exact FailsOnly.error_iff.mpr (hrecord r e hrecorded)
      · simp only [hrecorded]
        exact himprove _ _

/-- Publishing fails in no stage. -/
theorem fillBuffer_unstaged (h : Horizon R) (c : Checkpoint R) {d : SpeedSeries R}
    {e : Failure R} (hd : p.fillBuffer h c = (d, some e)) : e.Unstaged := by
  have hfill (d : SpeedSeries R) (finish unit : R) : FailsOnly Unstaged (d.fill finish unit) := by
    unfold SpeedSeries.fill
    split
    · exact FailsOnly.ok _
    · simp [Unstaged]
  unfold fillBuffer at hd
  rcases hpublish : publish c.profile h.step with ⟨d', _ | e'⟩
  · simp only [hpublish] at hd
    rcases hfilled : d'.fill p.comfort.publishTime p.comfort.publishUnit with e' | d''
    · simp only [hfilled, Prod.mk.injEq, Option.some.injEq] at hd
      rw [← hd.2]
      exact hfill _ _ _ e' hfilled
    · simp only [hfilled, Prod.mk.injEq, reduceCtorEq, and_false] at hd
  · simp only [hpublish, Prod.mk.injEq, Option.some.injEq] at hd
    have he : (publish c.profile h.step).2 = some e' := by rw [hpublish]
    rw [← hd.2]
    exact publish_unstaged he

end Planner

end JerkPlan
