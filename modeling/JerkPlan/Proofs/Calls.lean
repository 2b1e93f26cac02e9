import JerkPlan.Proofs.CycleSteps

/-!
# Calls

What a call of a planner leaves behind besides its plan.

A call tells of the lock and of the recording however it ends, so that what it
leaves there cannot be read off its result. It can be read off how far the call
gets. A call without a convex plan has not touched the lock and has recorded
its corridor at most; `answer_of_first?_none` says so. From the convex plan on
everything goes through `refinedProfile`, or through nothing at all:
`improve_traces` and `improve_traces_idle` tell the two apart, and
`refinedProfile_traces` and `refinedProfile_traces_unfitted` say what the two
fits decide.

The convex plan is recorded on the way. That could fail only for a step of
zero, and `finalPlan_eq` is the one place where this matters. Nothing here
depends on exact arithmetic.

## Main definitions

* `Call`, `Call.into`: All that a call of a planner comes with, and the same call
  into another recording.
* `Planner.answer`: The cycle of a call.
* `Planner.first?`: The horizon and the convex plan of a call.
* `Planner.attempts`: Whether a call tries a refinement.
* `Call.fitted`: Whether both of its fits give a curve.
* `Recording.planned`: A recording once there is a convex plan.
* `CyclePart.traces`, `CycleReport.traces`: What is left besides the result.

## Theorems

* `profileSamples_total`: A profile has samples, unless the step is zero.
* `Planner.finalPlan_eq`: The convex plan is recorded, whatever is asked for.
* `Planner.improve_traces`, `Planner.improve_traces_idle`: Trying a refinement,
  or not.
* `Planner.refinedProfile_traces`, `Planner.refinedProfile_traces_unfitted`:
  With both fits, or without.
* `Planner.answer_traces`, `Planner.answer_of_first?_none`: Calls with a convex
  plan, and without.
* `Planner.attempts_iff`, `Planner.attempted_iff`, `Call.fitted_iff`: When a call
  tries a refinement, whether it tells, and when both fits give a curve.
-/

namespace JerkPlan

/-- All that a call of a planner comes with. -/
structure Call (R : Type) where
  stages : Stages R
  path : Option (Path R)
  buffer : Option (SpeedSeries R)
  surroundings : Surroundings R
  recording : Option (Recording R)

/-- The same call into another recording. -/
def Call.into {R : Type} (c : Call R) (r : Recording R) : Call R := { c with recording := some r }

/-- Whether both fits of a call give a curve. -/
def Call.fitted {R : Type} (c : Call R) : Bool :=
  c.path.any fun path =>
    (c.stages.curvature path).result.isOk && (c.stages.limit c.surroundings.limit).result.isOk

/-- What a part leaves besides its result: what happened to the lock, and the
    recording. -/
def CyclePart.traces {R α : Type} (x : CyclePart R α) : List LockEvent × Option (Recording R) :=
  (x.lock, x.recording)

/-- What a cycle leaves besides its plan. -/
def CycleReport.traces {R : Type} (x : CycleReport R) : List LockEvent × Option (Recording R) :=
  (x.lock, x.recording)

variable {R : Type} [Scalar R]

/-- A recording once there is a convex plan: the corridor and the plan are new. -/
def Recording.planned (r : Recording R) (h : Horizon R) (brake : Option (SpeedSeries R))
    (samples : List (SpeedSample R)) : Recording R :=
  (r.recordCorridor Planner.name h brake).addPlan "qp_speed" samples

namespace Planner

/-- The cycle of a call. -/
def answer (p : Planner R) (c : Call R) : CycleReport R :=
  p.cycle c.stages c.path c.buffer c.surroundings c.recording

/-- The horizon and the convex plan of a call, if it gets that far. -/
def first? (p : Planner R) (c : Call R) : Option (Horizon R × KnotProfile R) :=
  match c.path, c.buffer with
  | some path, some before =>
    if path.points.isEmpty || c.surroundings.arrived then none
    else (p.firstPlan c.stages before.copy c.surroundings c.recording).result.toOption
  | _, _ => none

/-- Whether a call tries a refinement: it has a convex plan, and refining is
    asked for and makes sense. -/
def attempts (p : Planner R) (c : Call R) : Bool :=
  p.comfort.refine && (p.first? c).any fun (h, _) =>
    (startsWithinLimit h c.surroundings.limit).result.toOption == some true

end Planner

/-- Both fits of a call give a curve when each of them does. -/
theorem Call.fitted_iff {R : Type} {c : Call R} {path : Path R} (hpath : c.path = some path) :
    c.fitted = true ↔ ∃ kappa bound, (c.stages.curvature path).result = .ok kappa ∧
      (c.stages.limit c.surroundings.limit).result = .ok bound := by
  rw [fitted, hpath, Option.any_some, Bool.and_eq_true]
  constructor
  · rintro ⟨hcurvature, hlimit⟩
    rcases hkappa : (c.stages.curvature path).result with e | kappa
    · rw [hkappa] at hcurvature
      exact absurd hcurvature Bool.false_ne_true
    rcases hbound : (c.stages.limit c.surroundings.limit).result with e | bound
    · rw [hbound] at hlimit
      exact absurd hlimit Bool.false_ne_true
    exact ⟨kappa, bound, rfl, rfl⟩
  · rintro ⟨kappa, bound, hkappa, hbound⟩
    rw [hkappa, hbound]
    exact ⟨rfl, rfl⟩

/-! Parts -/

namespace CyclePart

variable {α β : Type} {x : Outcome R α} {recording : Option (Recording R)}

omit [Scalar R] in
/-- A step without traces leaves those of what follows it. -/
theorem traces_andThen_ok {a : α} (h : x.result = .ok a)
    (f : Option (Recording R) → α → CyclePart R β) :
    ((ofOutcome recording x).andThen f).traces = (f recording a).traces := by
  simp only [traces, andThen, ofOutcome, h, List.nil_append]

omit [Scalar R] in
/-- A step without traces that fails leaves none. -/
theorem traces_andThen_error {e : Failure R} (h : x.result = .error e)
    (f : Option (Recording R) → α → CyclePart R β) :
    ((ofOutcome recording x).andThen f).traces = ([], recording) := by
  simp only [traces, andThen, ofOutcome, h]

end CyclePart

/-- What is not at most zero is not zero, in any arithmetic. -/
theorem same_zero_of_not_le {a : R} (h : ¬ a ≤ 0) : same a 0 = false := by
  rw [same, decide_eq_false h, Bool.false_and]

/-- The samples of knots can be computed unless the step is zero. -/
theorem samplesAfter_total {step : R} (hstep : same step 0 = false) (stopping : Bool)
    (knots : List (R × R × R)) :
    ∀ a i, ∃ samples, samplesAfter step stopping a i knots = .ok samples := by
  induction knots with
  | nil => exact fun a i => ⟨[], rfl⟩
  | cons knot knots ih =>
      intro a i
      rcases ih knot.2.2 (i + 1) with ⟨samples, hsamples⟩
      by_cases hstop : stopping = true ∧ knot.2.1 < 0
      · rw [samplesAfter, if_pos hstop]
        exact ⟨_, rfl⟩
      · rw [samplesAfter, if_neg hstop, hstep, hsamples]
        exact ⟨_, rfl⟩

/-- A profile has samples unless the step is zero. -/
theorem profileSamples_total {step : R} (hstep : same step 0 = false) (k : KnotProfile R)
    (stopping : Bool) : ∃ samples, profileSamples k step stopping = .ok samples := by
  unfold profileSamples
  split
  · exact ⟨_, rfl⟩
  split
  · exact ⟨_, rfl⟩
  · next p v a knots _ =>
      rcases samplesAfter_total hstep stopping knots a 1 with ⟨samples, hsamples⟩
      rw [hsamples]
      exact ⟨_, rfl⟩

/-- Settings that pass their check have a step other than zero. -/
theorem PlanSettings.step_of_checked {c : PlanSettings R} (hc : c.checked = .ok c) :
    same c.step 0 = false := by
  rcases bind_eq_ok_iff.mp hc with ⟨_, hstep, _⟩
  exact same_zero_of_not_le (ite_error_ok hstep).1

/-- The step of a horizon is that of the settings. -/
theorem Planner.horizon_step {p : Planner R} (hp : p.settings.checked = .ok p.settings)
    {rough : SpeedSeries R} {x : Surroundings R} {h : Horizon R}
    (hh : (p.horizon rough x).result = .ok h) : same h.step 0 = false := by
  rw [(horizon_parts hh).1]
  exact PlanSettings.step_of_checked hp

namespace Planner

variable {p : Planner R} {s : Stages R} {path : Path R} {h : Horizon R} {limit : SpeedLimit R}
  {k : KnotProfile R} {c : Checkpoint R} {recording : Option (Recording R)}

/-- The convex plan is recorded where somebody asked for that, and what follows
    is the same for everybody. -/
theorem finalPlan_eq (hstep : same h.step 0 = false) (k : KnotProfile R) :
    ∃ samples, ∀ recording : Option (Recording R), p.finalPlan s path h limit k recording =
      p.improve s path h limit { profile := k, stage := "qp" }
        (recording.map (·.addPlan "qp_speed" samples)) := by
  rcases profileSamples_total hstep k false with ⟨samples, hsamples⟩
  refine ⟨samples, fun recording => ?_⟩
  unfold finalPlan Recording.recordConvex
  cases recording with
  | none => rfl
  | some r =>
      rw [hsamples]
      rfl

/-- Whatever becomes of a refinement, its traces stay. -/
theorem secondPlan_traces : (p.secondPlan s path h limit c recording).traces =
    (p.refinedProfile s path h limit c.profile recording).traces := by
  unfold secondPlan
  simp only
  split
  · rfl
  · split
    · rfl
    · rfl
  · rfl

/-- The traces of a refinement that is tried. -/
theorem improve_traces (hrefine : p.comfort.refine = true)
    (hwithin : (startsWithinLimit h limit).result = .ok true) :
    (p.improve s path h limit c recording).traces =
      (p.refinedProfile s path h limit c.profile recording).traces := by
  have hkept : ((p.secondPlan s path h limit c recording).andThen fun recording c =>
      (⟨[], [], recording, .ok (.refinementAttempted, c)⟩ :
        CyclePart R (CycleStage × Checkpoint R))).traces =
      (p.secondPlan s path h limit c recording).traces := by
    unfold CyclePart.andThen CyclePart.traces
    split
    · simp only [List.append_nil]
    · rfl
  unfold improve
  rw [hrefine, Bool.not_true, if_neg Bool.false_ne_true, CyclePart.traces_andThen_ok hwithin,
    if_pos rfl, hkept, secondPlan_traces]

/-- Without a refinement there are no traces. -/
theorem improve_traces_idle
    (hidle : ¬ (p.comfort.refine = true ∧ (startsWithinLimit h limit).result = .ok true)) :
    (p.improve s path h limit c recording).traces = ([], recording) := by
  unfold improve
  split
  · rfl
  · next hrefine =>
      rw [Bool.not_eq_true, Bool.not_eq_false'] at hrefine
      rcases hwithin : (startsWithinLimit h limit).result with e | within
      · exact CyclePart.traces_andThen_error hwithin _
      · rw [CyclePart.traces_andThen_ok hwithin]
        cases within with
        | true => exact absurd ⟨hrefine, hwithin⟩ hidle
        | false => rfl

/-- With both fits the limit is recorded, and the refinement is asked for if its
    problem can be put together. -/
theorem refinedProfile_traces {kappa bound : JerkCurve R}
    (hkappa : (s.curvature path).result = .ok kappa)
    (hbound : (s.limit limit).result = .ok bound) :
    (p.refinedProfile s path h limit k recording).traces =
      ((p.refinement h k kappa bound).result.toOption.elim [] fun r => (s.refine r).1,
        recording.map (·.recordLimit limit bound)) := by
  unfold refinedProfile
  rw [CyclePart.traces_andThen_ok hkappa, CyclePart.traces_andThen_ok hbound]
  rcases hr : (p.refinement h k kappa bound).result with e | r
  · rw [CyclePart.traces_andThen_error hr]
    rfl
  · rw [CyclePart.traces_andThen_ok hr]
    rfl

/-- Without both fits there are no traces. -/
theorem refinedProfile_traces_unfitted
    (hunfitted : ¬ ∃ kappa bound, (s.curvature path).result = .ok kappa ∧
      (s.limit limit).result = .ok bound) :
    (p.refinedProfile s path h limit k recording).traces = ([], recording) := by
  unfold refinedProfile
  rcases hkappa : (s.curvature path).result with e | kappa
  · exact CyclePart.traces_andThen_error hkappa _
  rw [CyclePart.traces_andThen_ok hkappa]
  rcases hbound : (s.limit limit).result with e | bound
  · exact CyclePart.traces_andThen_error hbound _
  · exact absurd ⟨kappa, bound, hkappa, hbound⟩ hunfitted

/-! Whole cycles -/

variable {rough before : SpeedSeries R} {x : Surroundings R}

/-- Only a corridor is recorded before there is a convex plan. -/
theorem firstPlan_traces (hh : (p.horizon rough x).result = .ok h) :
    (p.firstPlan s rough x recording).traces =
      ([], recording.map (·.recordCorridor Planner.name h x.brake)) := by
  unfold firstPlan
  simp only [hh]
  split
  · rfl
  · rfl

/-- Without a horizon nothing is. -/
theorem firstPlan_traces_error {e : Failure R} (hh : (p.horizon rough x).result = .error e) :
    (p.firstPlan s rough x recording).traces = ([], recording) := by
  unfold firstPlan
  simp only [hh]
  rfl

/-- A cycle with a convex plan leaves what follows the plan. -/
theorem run_traces (hfirst : (p.firstPlan s before.copy x recording).result = .ok (h, k)) :
    (p.run s path before x recording).traces =
      (p.finalPlan s path h x.limit k
        (recording.map (·.recordCorridor Planner.name h x.brake))).traces := by
  have htraces : (p.firstPlan s before.copy x recording).traces = _ :=
    firstPlan_traces (firstPlan_ok hfirst).1
  have hlock := congrArg Prod.fst htraces
  have hrecording := congrArg Prod.snd htraces
  simp only [CyclePart.traces] at hlock hrecording
  unfold run
  simp only [hfirst, hlock, hrecording, List.nil_append]
  -- Publishing leaves no traces, whether it succeeds or not.
  split
  · rfl
  · split
    · rfl
    · rfl

/-- A cycle without a convex plan leaves what its attempt to make one did. -/
theorem run_traces_error {e : Failure R}
    (hfirst : (p.firstPlan s before.copy x recording).result = .error e) :
    (p.run s path before x recording).traces =
      (p.firstPlan s before.copy x recording).traces := by
  unfold run
  simp only [hfirst]
  rfl

/-- A call with a convex plan has all that a cycle needs, and leaves what follows
    the plan. -/
theorem answer_of_first? {p : Planner R} {c : Call R} {h : Horizon R} {k : KnotProfile R}
    (hfirst : p.first? c = some (h, k)) :
    ∃ path before, c.path = some path ∧ c.buffer = some before ∧
      (p.horizon before.copy c.surroundings).result = .ok h ∧
      (c.stages.convex h before.copy).result = .ok k ∧
      (p.answer c).traces = (p.finalPlan c.stages path h c.surroundings.limit k
        (c.recording.map (·.recordCorridor Planner.name h c.surroundings.brake))).traces := by
  rcases c with ⟨s, path, buffer, x, recording⟩
  unfold first? at hfirst
  split at hfirst
  · next path before hpath hbuffer =>
      simp only at hpath hbuffer hfirst
      subst hpath hbuffer
      split at hfirst
      · exact absurd hfirst (by simp only [reduceCtorEq, not_false_eq_true])
      next hbegins =>
      rw [Bool.not_eq_true, Bool.or_eq_false_iff, List.isEmpty_eq_false_iff] at hbegins
      rcases hplan : (p.firstPlan s before.copy x recording).result with e | plan
      · rw [hplan] at hfirst
        exact absurd hfirst (by simp only [Except.toOption, reduceCtorEq, not_false_eq_true])
      rw [hplan, Except.toOption, Option.some.injEq] at hfirst
      subst hfirst
      rcases firstPlan_ok hplan with ⟨hh, hk⟩
      refine ⟨path, before, rfl, rfl, hh, hk, ?_⟩
      unfold answer
      rw [cycle_eq_run hbegins.1 hbegins.2]
      exact run_traces hplan
  · exact absurd hfirst (by simp only [reduceCtorEq, not_false_eq_true])

/-- A call without a convex plan does not try a refinement. It has not touched the
    lock, and has recorded its corridor at most. -/
theorem answer_of_first?_none {p : Planner R} {c : Call R} (hfirst : p.first? c = none) :
    ¬ p.attempts c = true ∧ (p.answer c).lock = [] ∧
      ((p.answer c).recording = c.recording ∨ ∃ h : Horizon R, (p.answer c).recording =
        c.recording.map (·.recordCorridor Planner.name h c.surroundings.brake)) := by
  have hidle : ¬ p.attempts c = true := by
    rw [attempts, hfirst, Option.any_none, Bool.and_false]
    exact Bool.false_ne_true
  refine ⟨hidle, ?_⟩
  rcases c with ⟨s, path, buffer, x, recording⟩
  unfold first? at hfirst
  unfold answer cycle
  simp only at hfirst ⊢
  -- A call that is refused, or has arrived, leaves everything alone.
  split
  · exact ⟨rfl, Or.inl rfl⟩
  · exact ⟨rfl, Or.inl rfl⟩
  · exact ⟨rfl, Or.inl rfl⟩
  next before path hpath =>
  split
  · exact ⟨rfl, Or.inl rfl⟩
  next harrived =>
  have hpoints : path.points.isEmpty = false := by
    rcases path with ⟨_ | ⟨point, points⟩⟩
    · exact absurd rfl hpath
    · rfl
  rw [Bool.not_eq_true] at harrived
  simp only [hpoints, harrived, Bool.or_self, Bool.false_eq_true, if_false] at hfirst
  rcases hplan : (p.firstPlan s before.copy x recording).result with e | plan
  · have htraces : (p.run s path before x recording).traces = _ := run_traces_error hplan
    rcases hh : (p.horizon before.copy x).result with e' | h
    · rw [firstPlan_traces_error hh] at htraces
      exact ⟨congrArg Prod.fst htraces, Or.inl (congrArg Prod.snd htraces)⟩
    · rw [firstPlan_traces hh] at htraces
      exact ⟨congrArg Prod.fst htraces, Or.inr ⟨h, congrArg Prod.snd htraces⟩⟩
  · rw [hplan] at hfirst
    exact absurd hfirst (by simp only [Except.toOption, reduceCtorEq, not_false_eq_true])

/-- A call tries a refinement when it has a convex plan, and refining is asked
    for and makes sense. -/
theorem attempts_iff {p : Planner R} {c : Call R} :
    p.attempts c = true ↔ ∃ h k, p.first? c = some (h, k) ∧ p.comfort.refine = true ∧
      (startsWithinLimit h c.surroundings.limit).result = .ok true := by
  unfold attempts
  rw [Bool.and_eq_true, Option.any_eq_true]
  constructor
  · rintro ⟨hrefine, ⟨h, k⟩, hfirst, hwithin⟩
    rw [beq_iff_eq] at hwithin
    rcases exists_of_toOption_map (f := id) (by rw [Option.map_id]; exact hwithin) with
      ⟨within, hwithin, rfl⟩
    exact ⟨h, k, hfirst, hrefine, hwithin⟩
  · rintro ⟨h, k, hfirst, hrefine, hwithin⟩
    refine ⟨hrefine, (h, k), hfirst, ?_⟩
    simp only [hwithin, Except.toOption, beq_self_eq_true]

/-- The traces of a call with a convex plan. It has recorded its corridor and the
    plan, and if it tries a refinement and both fits give a curve, it has also
    recorded the limit and asked for the refinement. -/
theorem answer_traces {p : Planner R} {c : Call R} {h : Horizon R} {k : KnotProfile R}
    (hfirst : p.first? c = some (h, k)) (hstep : same h.step 0 = false) :
    ∃ samples,
      (¬ (p.attempts c = true ∧ c.fitted = true) ∧ (p.answer c).traces =
        ([], c.recording.map (·.planned h c.surroundings.brake samples))) ∨
      ((p.attempts c = true ∧ c.fitted = true) ∧ ∃ kappa bound,
        (c.stages.limit c.surroundings.limit).result = .ok bound ∧ (p.answer c).traces =
          ((p.refinement h k kappa bound).result.toOption.elim [] fun r => (c.stages.refine r).1,
            c.recording.map fun r =>
              (r.planned h c.surroundings.brake samples).recordLimit c.surroundings.limit bound)) := by
  rcases answer_of_first? hfirst with ⟨path, before, hpath, _, _, _, htraces⟩
  have hplanned : ∃ samples, ∀ recording : Option (Recording R),
      p.finalPlan c.stages path h c.surroundings.limit k recording =
        p.improve c.stages path h c.surroundings.limit { profile := k, stage := "qp" }
          (recording.map (·.addPlan "qp_speed" samples)) := finalPlan_eq hstep k
  rcases hplanned with ⟨samples, hplanned⟩
  refine ⟨samples, ?_⟩
  rw [hplanned, Option.map_map] at htraces
  have hattempts : p.attempts c = true ↔ p.comfort.refine = true ∧
      (startsWithinLimit h c.surroundings.limit).result = .ok true := by
    rw [attempts_iff]
    constructor
    · rintro ⟨h', k', hfirst', htried⟩
      rw [hfirst, Option.some.injEq, Prod.mk.injEq] at hfirst'
      rw [hfirst'.1]
      exact htried
    · exact fun htried => ⟨h, k, hfirst, htried⟩
  rw [hattempts, Call.fitted_iff hpath, htraces]
  by_cases htried : p.comfort.refine = true ∧
      (startsWithinLimit h c.surroundings.limit).result = .ok true
  · rw [improve_traces htried.1 htried.2]
    by_cases hfits : ∃ kappa bound, (c.stages.curvature path).result = .ok kappa ∧
        (c.stages.limit c.surroundings.limit).result = .ok bound
    · rcases hfits with ⟨kappa, bound, hkappa, hbound⟩
      right
      refine ⟨⟨htried, kappa, bound, hkappa, hbound⟩, kappa, bound, hbound, ?_⟩
      rw [refinedProfile_traces hkappa hbound, Option.map_map]
      rfl
    · exact Or.inl ⟨fun hboth => hfits hboth.2, refinedProfile_traces_unfitted hfits⟩
  · exact Or.inl ⟨fun hboth => htried hboth.1, improve_traces_idle htried⟩

/-- A call that ends well tells whether it has tried a refinement. -/
theorem attempted_iff {p : Planner R} {c : Call R} {res : CycleResult R}
    (hres : (p.answer c).result = .ok res) :
    CycleStage.refinementAttempted ∈ res.stages ↔ p.attempts c = true := by
  rcases c with ⟨s, path, buffer, x, recording⟩
  unfold answer at hres
  rcases cycle_ends hres with ⟨way, before, rfl, hpoints, rfl, hends⟩
  rw [attempts_iff]
  unfold first?
  simp only [List.isEmpty_eq_false_iff.mpr hpoints, Bool.false_or]
  rcases hends with ⟨harrived, rfl⟩ | ⟨harrived, hrun⟩
  · -- At the end of a journey there is nothing to plan.
    constructor
    · intro hmem
      change CycleStage.refinementAttempted ∈ [CycleStage.start, .done] at hmem
      exact absurd hmem (by decide)
    · rintro ⟨h, k, hfirst, _⟩
      rw [if_pos harrived] at hfirst
      exact absurd hfirst (by simp only [reduceCtorEq, not_false_eq_true])
  rw [harrived]
  rw [hrun] at hres
  rcases run_ends hres with ⟨h, k, recording', stage, c, d, hfirst, hfinal, _, rfl, _⟩
  rw [hfirst, CycleStage.attempted_mem_iff]
  constructor
  · intro hstage
    rcases finalPlan_ends hfinal with ⟨htried, _⟩ | ⟨_, hskipped, _⟩
    · exact ⟨h, k, rfl, htried⟩
    · rw [hskipped] at hstage
      exact absurd hstage (by decide)
  · rintro ⟨h', k', hsame, htried⟩
    simp only [Bool.false_eq_true, if_false, Except.toOption, Option.some.injEq,
      Prod.mk.injEq] at hsame
    rw [← hsame.1] at htried
    rcases finalPlan_ends hfinal with ⟨_, hstage, _⟩ | ⟨hidle, _⟩
    · exact hstage
    · exact absurd htried hidle

end Planner

end JerkPlan
