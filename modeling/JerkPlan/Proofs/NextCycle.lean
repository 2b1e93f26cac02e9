import JerkPlan.Proofs.Arranging
import JerkPlan.Proofs.ConvexProblems
import JerkPlan.Proofs.CycleCompletes
import JerkPlan.Proofs.FailedCycles
import JerkPlan.Proofs.HeldProfiles
import JerkPlan.Proofs.Readings

/-!
# The next cycle

When a cycle can start from what the one before it has left.

What a cycle leaves in its buffer ends in one of two ways. The knots of the
profile are all there, or they end before the first that leads backwards; then
the vehicle stands still in steps of a unit, for as long as comfort demands.
That time has nothing to do with the horizon, and the last step may end up to a
unit short of it. With regions on the road, the next cycle asks its rough motion
for the speed at every knot, and the time of the last knot decides whether
there is an answer: a motion that begins at zero can be read at all earlier
knots as well.

So there are two ways to be sure of an answer, a profile that never leads
backwards and a standstill that lasts a unit longer than the horizon. A profile
that is cut off, with a standstill that ends before the last knot, has no
answer, and a next cycle with regions is refused for that reason.

## Main definitions

* `SpeedSeries.Lasts`: The times of a buffer after a cycle.
* `SpeedSeries.ReadableOver`: A series that can be read at every knot.
* `Planner.Leaves`: What a buffer is to the next cycle.
* `Planner.Follows`: A later cycle over the same knots.

## Theorems

* `SpeedSeries.lasts_of_fill`: The times of a published profile, continued.
* `SpeedSeries.Lasts.readableOver_iff`, `SpeedSeries.Lasts.reaches_iff`: The
  last knot decides.
* `Planner.leaves_of_fillBuffer`: What the buffer of a cycle is to the next one.
* `Planner.horizon_noSpeed`, `Planner.horizon_unread`: When there is no speed to
  expect.
* `Planner.cycle_noSpeed`: No other stage fails for that reason.
* `Planner.Follows.expects`, `Planner.Follows.lacks`: The two kinds of later
  cycles.
* `Planner.cycle_leaves`: A cycle and the one after it.
* `Planner.cycle_leaves_nothing`: A stop that is too short.
-/

namespace JerkPlan

variable {R : Type} [ExactScalar R]

/-! The buffer -/

namespace SpeedSeries

/-- A series in order of time, with a first time of zero: as many knots as there
    are of a step each, and standing samples of a unit each after the last of
    them. -/
structure Lasts (d : SpeedSeries R) (step unit : R) (m l : Nat) : Prop where
  length : d.samples.length = m + l
  ordered : d.samples.Pairwise fun x y => x.t ≤ y.t
  first : ∀ x, d.samples.head? = some x → x.t = 0
  last : ∀ x, d.samples.getLast? = some x → x.t = ((m - 1 : Nat) : R) * step + (l : R) * unit

/-- A published profile that is continued holds its knots up to the first that
    leads backwards, and stands still until the next unit would be too late. -/
theorem lasts_of_fill {step unit : R} (hstep : 0 < step) (hunit : 0 < unit) {k : KnotProfile R}
    {n : Nat} (hn : 0 < n) (hk : k.Shaped n) {finish : R} {e d : SpeedSeries R}
    (hpublish : publish k step = (e, none)) (hfill : e.fill finish unit = .ok d) :
    ∃ m l, 0 < m ∧ m ≤ n ∧ d.Lasts step unit m l ∧
      (∀ i, 0 < i → i < m → 0 ≤ (stateAt n k.point i).v) ∧
      (m = n ∨ (stateAt n k.point m).v < 0) ∧
      (0 < l → ((m - 1 : Nat) : R) * step + (l : R) * unit < finish) ∧
      finish ≤ ((m - 1 : Nat) : R) * step + ((l + 1 : Nat) : R) * unit := by
  rcases publish_fill hstep hunit hn hk finish with
    ⟨j, l, e', hj, hkept, hcontinued, hspeeds, hend, hbefore, hlate⟩
  rw [hkept, Prod.mk.injEq] at hpublish
  rw [hpublish.1, hfill, Except.ok.injEq] at hcontinued
  subst hcontinued
  refine ⟨j + 1, l, Nat.succ_pos j, hj, ⟨length_continued, ?_, fun x hx => ?_,
    fun x hx => last_continued hx⟩, hspeeds, hend, fun hl => ?_, hlate⟩
  · exact (pairwise_continued hstep hunit).imp le_of_lt
  · rw [List.head?_eq_getElem?, continued_getElem?_knot (Nat.zero_le j), Option.some.injEq] at hx
    rw [← hx, knotSample, Nat.cast_zero, zero_mul]
  · have hlastly := hbefore (l - 1) (by omega)
    rw [Nat.sub_add_cancel hl] at hlastly
    exact hlastly

/-- A series can be read at the time of every knot of a horizon. -/
def ReadableOver (d : SpeedSeries R) (h : Horizon R) : Prop :=
  ∀ i : Nat, i < h.knots.toNat → (d.byTime ((i : R) * h.step)).isSome

/-- The last knot decides whether such a series can be read. -/
theorem Lasts.readableOver_iff {d : SpeedSeries R} {step unit : R} {m l : Nat}
    (hd : d.Lasts step unit m l) {h : Horizon R} (hstep : 0 < h.step) (hn : 0 < h.knots.toNat) :
    d.ReadableOver h ↔ 2 ≤ d.samples.length ∧ ∀ last, d.samples.getLast? = some last →
      ((h.knots.toNat - 1 : Nat) : R) * h.step - overhang < last.t := by
  rw [ReadableOver, byTime_knots_iff hn hstep]
  refine and_congr_right fun _ => and_iff_right fun first hfirst => ?_
  rw [hd.first first hfirst]
  exact overhang_pos

/-- That is a matter of the numbers of knots and of units. -/
theorem Lasts.reaches_iff {d : SpeedSeries R} {unit : R} {m l : Nat} {h : Horizon R}
    (hd : d.Lasts h.step unit m l) (hm : 0 < m) (hstep : 0 < h.step) (hn : 0 < h.knots.toNat) :
    d.ReadableOver h ↔ 2 ≤ m + l ∧ ((h.knots.toNat - 1 : Nat) : R) * h.step - overhang <
      ((m - 1 : Nat) : R) * h.step + (l : R) * unit := by
  rw [hd.readableOver_iff hstep hn, hd.length]
  refine and_congr_right fun _ => ⟨fun hlast => ?_, fun hlast last hend => ?_⟩
  · have hlength : 0 < d.samples.length := by
      rw [hd.length]
      exact Nat.add_pos_left hm l
    have hsome := List.ne_nil_of_length_pos hlength
    have hend := List.getLast?_eq_some_getLast hsome
    rw [← hd.last _ hend]
    exact hlast _ hend
  · rw [hd.last last hend]
    exact hlast

end SpeedSeries

namespace Planner

variable {p : Planner R} {h : Horizon R}

/-- What a buffer with a profile of the planner is to the next cycle, which
    copies it. Over a horizon of the same knots it can be read exactly when it
    has two samples and the last knot is within reach of the last of them. So it
    is after a profile that never leads backwards, and with a standstill that
    lasts a unit longer than the horizon. It is not after a profile that is cut
    off, with a standstill that ends too early. -/
structure Leaves (p : Planner R) (h : Horizon R) (k : KnotProfile R) (d : SpeedSeries R) :
    Prop where
  copied : d.copy = d
  readable_iff : 0 < h.knots.toNat → (d.ReadableOver h ↔ 2 ≤ d.samples.length ∧
    ∀ last, d.samples.getLast? = some last →
      ((h.knots.toNat - 1 : Nat) : R) * h.step - SpeedSeries.overhang < last.t)
  whole : h.knots.toNat ≠ 1 →
    (∀ i, 0 < i → i < h.knots.toNat → 0 ≤ (stateAt h.knots.toNat k.point i).v) → d.ReadableOver h
  lasting : h.knots.toNat ≠ 1 → ((h.knots.toNat - 1 : Nat) : R) * h.step + p.comfort.publishUnit ≤
    p.comfort.publishTime → d.ReadableOver h
  cut : (∃ i, 0 < i ∧ i < h.knots.toNat ∧ (stateAt h.knots.toNat k.point i).v < 0) →
    SpeedSeries.overhang ≤ h.step → p.comfort.publishTime ≤
      ((h.knots.toNat - 1 : Nat) : R) * h.step - SpeedSeries.overhang → ¬ d.ReadableOver h

/-- What a cycle puts into its buffer can be read as far as `Leaves` says. -/
theorem leaves_of_fillBuffer (hunit : 0 < p.comfort.publishUnit) (hstep : 0 < h.step)
    {c : Checkpoint R} (hc : c.profile.Shaped h.knots.toNat) {d : SpeedSeries R}
    (hfill : p.fillBuffer h c = (d, none)) : p.Leaves h c.profile d := by
  rcases fillBuffer_ok hfill with ⟨e, hpublish, hcontinued⟩
  rcases Nat.eq_zero_or_pos h.knots.toNat with hzero | hn
  · -- Without knots nothing is published, and nothing is read.
    have hread : d.ReadableOver h := fun i hi => absurd hi (by omega)
    have hempty : publish c.profile h.step = (.empty, none) := by
      have hinvalid : c.profile.valid = false := by simp [KnotProfile.valid, hc.values, hzero]
      simp only [publish, profileSamples, hinvalid, Bool.not_false, if_true, appendAll]
    rw [hempty, Prod.mk.injEq] at hpublish
    rcases hpublish with ⟨rfl, _⟩
    have hsame : SpeedSeries.empty = d := Except.ok.inj hcontinued
    refine ⟨SpeedSeries.copy_eq (by rw [← hsame]; exact .nil), fun hn => absurd hn (by omega),
      fun _ _ => hread, fun _ _ => hread, ?_⟩
    rintro ⟨i, _, hi, _⟩
    exact absurd hi (by omega)
  rcases SpeedSeries.lasts_of_fill hstep hunit hn hc hpublish hcontinued with
    ⟨m, l, hm, hmn, hd, hspeeds, hend, hbefore, hlate⟩
  have hreach := hd.reaches_iff hm hstep hn
  have hunits : 0 ≤ (l : R) * p.comfort.publishUnit := mul_nonneg (Nat.cast_nonneg l) hunit.le
  refine ⟨SpeedSeries.copy_eq hd.ordered, fun _ => hd.readableOver_iff hstep hn, fun hmany hv => ?_,
    fun hmany hlong => hreach.mpr ⟨?_, ?_⟩, ?_⟩
  · -- Nothing is cut off, so the last knot is there.
    have hall : m = h.knots.toNat := by
      rcases hend with hall | hnegative
      · exact hall
      · rcases Nat.lt_or_eq_of_le hmn with hlt | hall
        · exact absurd hnegative (not_lt.mpr (hv m hm hlt))
        · exact hall
    rw [hall] at hreach
    refine hreach.mpr ⟨by omega, (sub_lt_self _ SpeedSeries.overhang_pos).trans_le ?_⟩
    exact le_add_of_nonneg_right hunits
  · -- A single sample is all there is only if no unit was due after the first knot.
    by_contra hfew
    have hone : m = 1 ∧ l = 0 := by omega
    rw [hone.1, hone.2, Nat.sub_self, Nat.cast_zero, zero_mul, zero_add, zero_add, Nat.cast_one,
      one_mul] at hlate
    have hspan : 0 < ((h.knots.toNat - 1 : Nat) : R) * h.step :=
      mul_pos (Nat.cast_pos.mpr (by omega)) hstep
    linarith
  · have hover := SpeedSeries.overhang_pos (R := R)
    push_cast at hlate
    linarith
  · -- The profile is cut off, so it ends a knot early, and no unit comes late enough.
    rintro ⟨i, hi, hin, hv⟩ hover hshort hread
    have hcut : m ≤ i := by
      by_contra hkept
      exact absurd (hspeeds i hi (by omega)) (not_le.mpr hv)
    have hlast := (hreach.mp hread).2
    rcases Nat.eq_zero_or_pos l with rfl | hl
    · have hknots : ((m - 1 : Nat) : R) + 1 ≤ ((h.knots.toNat - 1 : Nat) : R) := by
        rw [← Nat.cast_succ]
        exact Nat.cast_le.mpr (by omega)
      have hearly := mul_le_mul_of_nonneg_right hknots hstep.le
      rw [Nat.cast_zero, zero_mul, add_zero] at hlast
      linarith
    · linarith [hbefore hl]

/-! The horizon of the next cycle -/

/-- A later cycle is planned in the soft mode and over the same knots, by the
    same planner or by another one. -/
structure Follows (q p : Planner R) (y x : Surroundings R) : Prop where
  checked : q.Checked
  soft : q.comfort.softBounds = true
  step : q.settings.step = p.settings.step
  time : y.time = x.time

/-- The knots of a horizon are those of its time. -/
theorem horizon_knots {rough : SpeedSeries R} {x : Surroundings R}
    (hh : (p.horizon rough x).result = .ok h) : p.knotCount x.time = .ok h.knots := by
  rcases horizon_made hh with ⟨knots, corridor, hknots, _, _, rfl⟩
  exact hknots

/-- Over the same knots a later cycle has a horizon of as many. -/
theorem Follows.knotCount {q : Planner R} {y x : Surroundings R} (hnext : q.Follows p y x)
    {rough : SpeedSeries R} (hh : (p.horizon rough x).result = .ok h) :
    q.knotCount y.time = .ok h.knots := by
  rw [← horizon_knots hh]
  unfold Planner.knotCount
  rw [hnext.step, hnext.time]

theorem knotCount_unstaged (p : Planner R) (time : R) :
    FailsOnly Failure.Unstaged (p.knotCount time) := by
  refine FailsOnly.bind ?_ fun n _ => FailsOnly.ok _
  unfold SpeedLimit.countOf
  split
  · exact FailsOnly.ok _
  · exact FailsOnly.error_iff.mpr trivial
  · exact FailsOnly.error_iff.mpr trivial

/-- A horizon that lacks an expected speed cannot be read at one of its knots,
    and there is somebody on the road. -/
theorem horizon_noSpeed {q : Planner R} (hq : q.Checked) (hsoft : q.comfort.softBounds = true)
    {rough : SpeedSeries R} {y : Surroundings R}
    (he : (q.horizon rough y).result = .error (.stage (.input Corridor.noSpeed))) :
    y.regions ≠ [] ∧ ∃ knots, q.knotCount y.time = .ok knots ∧
      ∃ i : Nat, i < knots.toNat ∧ rough.byTime ((i : R) * q.settings.step) = none := by
  have hmargin := ((PlanSettings.checked_iff _).mp hq.settings).margin_pos
  unfold horizon at he
  rcases Outcome.bind_error_iff.mp he with hknots | ⟨knots, hknots, he⟩
  · exact absurd (knotCount_unstaged q y.time _ hknots) (fun h => h)
  by_cases hlimit : y.limit.points.length < 2
  · -- The limit is refused in words of its own.
    rw [if_pos hlimit, Outcome.result_fail, Except.error.injEq] at he
    simp only [Failure.stage.injEq, StageFailure.input.injEq] at he
    exact absurd he (by decide)
  rw [if_neg hlimit] at he
  rcases Outcome.bind_error_iff.mp he with hcorridor | ⟨corridor, _, he⟩
  · rw [Corridor.compile, if_pos hsoft] at hcorridor
    rcases Corridor.withSoft_error hmargin hcorridor with ⟨_, hregions, i, hi, hrough⟩ |
      ⟨_, _, _, _, he⟩
    · exact ⟨hregions, knots, hknots, i, hi, hrough⟩
    · exact absurd he (by simp only [reduceCtorEq, not_false_eq_true])
  · rcases Outcome.bind_error_iff.mp he with he | ⟨_, _, he⟩
    · exact absurd he (by simp only [Outcome.result_tell, reduceCtorEq, not_false_eq_true])
    · exact absurd he (by simp only [Outcome.result_pure, reduceCtorEq, not_false_eq_true])

/-- Regions that one knows how to deal with need the speed at every knot. -/
theorem horizon_unread {q : Planner R} (hq : q.Checked) (hsoft : q.comfort.softBounds = true)
    {rough : SpeedSeries R} {y : Surroundings R} {knots : Int}
    (hknots : q.knotCount y.time = .ok knots) {i : Nat} (hi : i < knots.toNat)
    (hrough : rough.byTime ((i : R) * q.settings.step) = none) (hregions : y.regions ≠ [])
    (hkinds : ∀ r ∈ y.regions, ∀ kind, r.manoeuvre ≠ .other kind)
    (hlimit : 2 ≤ y.limit.points.length) :
    (q.horizon rough y).result = .error (.stage (.input Corridor.noSpeed)) := by
  have hmargin := ((PlanSettings.checked_iff _).mp hq.settings).margin_pos
  have hlacks : (Corridor.withSoft y.regions knots q.settings.step y.length rough y.brake q.comfort
      q.settings).result = .error (.stage (.input Corridor.noSpeed)) := by
    rcases Corridor.withSoft_or_unread hmargin hkinds with ⟨corridor, hresult⟩ | ⟨hlacks, _⟩
    · have hread := Corridor.withSoft_read hresult hregions hi
      rw [hrough] at hread
      exact absurd hread (by simp only [Option.isSome_none, Bool.false_eq_true, not_false_eq_true])
    · exact hlacks
  have hcompile : (Corridor.compile y.regions knots q.settings.step y.length rough y.brake q.comfort
      q.settings).result = .error (.stage (.input Corridor.noSpeed)) := by
    rw [Corridor.compile, if_pos hsoft]
    exact hlacks
  unfold horizon
  refine Outcome.bind_error_iff.mpr (.inr ⟨knots, hknots, ?_⟩)
  rw [if_neg (Nat.not_lt.mpr hlimit)]
  exact Outcome.bind_error_iff.mpr (.inl hcompile)

/-! The next cycle -/

/-- No other part of a cycle fails for the reason of a corridor that lacks an
    expected speed. -/
theorem cycle_noSpeed {q : Planner R} {solve : ConvexSolver R} {nonlinear : RefinementSolver R}
    {path : Option (Path R)} {d : SpeedSeries R} {y : Surroundings R}
    {recording : Option (Recording R)}
    (he : (q.cycle (q.stages solve nonlinear) path (some d) y recording).result =
      .error (.stage (.input Corridor.noSpeed))) :
    (q.horizon d.copy y).result = .error (.stage (.input Corridor.noSpeed)) := by
  -- A cycle that is refused says so in words of its own.
  have hrefused : Corridor.noSpeed ≠ "Speed Optimizer receives empty path data" := by decide
  unfold cycle at he
  split at he
  · next hnone => exact absurd hnone (by simp only [reduceCtorEq, not_false_eq_true])
  · simp only [refuse, Except.error.injEq, Failure.stage.injEq, StageFailure.input.injEq] at he
    exact absurd he.symm hrefused
  · simp only [refuse, Except.error.injEq, Failure.stage.injEq, StageFailure.input.injEq] at he
    exact absurd he.symm hrefused
  next before way _ hbefore =>
    rw [Option.some.injEq] at hbefore
    rw [← hbefore] at he
    split at he
    · exact absurd he (by simp only [reduceCtorEq, not_false_eq_true])
    rcases q.run_error solve nonlinear way d y recording he with ⟨hfirst, _⟩ | ⟨hunstaged, _⟩
    · unfold firstPlan at hfirst
      rcases hh : (q.horizon d.copy y).result with e | h
      · simp only [hh, Except.error.injEq] at hfirst
        rw [hfirst]
      · -- A convex plan has a failure of its own.
        simp only [hh] at hfirst
        rcases hplan : ((q.stages solve nonlinear).convex h d.copy).result with e | k
        · simp only [hplan, Except.error.injEq] at hfirst
          rw [hfirst] at hplan
          rcases planConvex_staged hplan with ⟨_, _, hkind⟩
          exact absurd hkind (by simp only [reduceCtorEq, not_false_eq_true])
        · simp only [hplan, reduceCtorEq] at hfirst
    · exact hunstaged.elim

/-- A cycle that is on its way fails as its horizon does. -/
theorem cycle_horizon_error {q : Planner R} (s : Stages R) {path : Path R}
    (hpath : path.points ≠ []) {d : SpeedSeries R} {y : Surroundings R}
    (harrived : y.arrived = false) (recording : Option (Recording R)) {e : Failure R}
    (he : (q.horizon d.copy y).result = .error e) :
    (q.cycle s (some path) (some d) y recording).result = .error e := by
  rw [cycle_eq_run hpath harrived]
  simp only [run, firstPlan, he]

section Follows

variable {q : Planner R} {y x : Surroundings R} (hnext : q.Follows p y x)
  {rough d : SpeedSeries R} (hh : (p.horizon rough x).result = .ok h) (hcopy : d.copy = d)

include hnext hh hcopy

/-- Where a series can be read at every knot, a later cycle never lacks an
    expected speed. -/
theorem Follows.expects (hread : d.ReadableOver h) (solve : ConvexSolver R)
    (nonlinear : RefinementSolver R) (path : Option (Path R)) (recording : Option (Recording R)) :
    (q.cycle (q.stages solve nonlinear) path (some d) y recording).result ≠
      .error (.stage (.input Corridor.noSpeed)) := by
  intro he
  have hlacks := cycle_noSpeed he
  rw [hcopy] at hlacks
  rcases horizon_noSpeed hnext.checked hnext.soft hlacks with ⟨_, knots, hknots, i, hi, hnone⟩
  -- The later horizon has the same knots at the same times.
  rw [hnext.knotCount hh, Except.ok.injEq] at hknots
  rw [hnext.step, ← (horizon_parts hh).1] at hnone
  have hsome := hread i (by rw [hknots]; exact hi)
  rw [hnone] at hsome
  exact absurd hsome Bool.false_ne_true

/-- Where it cannot, a later cycle that has to deal with somebody does. -/
theorem Follows.lacks (hread : ¬ d.ReadableOver h) (hregions : y.regions ≠ [])
    (hkinds : ∀ r ∈ y.regions, ∀ kind, r.manoeuvre ≠ .other kind)
    (hlimit : 2 ≤ y.limit.points.length) (harrived : y.arrived = false) (s : Stages R)
    {path : Path R} (hpath : path.points ≠ []) (recording : Option (Recording R)) :
    (q.cycle s (some path) (some d) y recording).result =
      .error (.stage (.input Corridor.noSpeed)) := by
  unfold SpeedSeries.ReadableOver at hread
  push Not at hread
  rcases hread with ⟨i, hi, hnone⟩
  rw [(horizon_parts hh).1, ← hnext.step] at hnone
  refine cycle_horizon_error s hpath harrived recording ?_
  rw [hcopy]
  exact horizon_unread hnext.checked hnext.soft (hnext.knotCount hh) hi
    (Option.not_isSome_iff_eq_none.mp hnone) hregions hkinds hlimit

end Follows

/-- A cycle that ends well, with a convex plan of the right size, leaves a
    buffer for the next one. Where that can be read at every knot, a later cycle
    over as many knots never lacks an expected speed, whoever is on the road and
    whatever its solvers answer. Where it cannot, every such cycle with somebody
    to deal with fails for that reason. -/
theorem cycle_leaves {p : Planner R} (hp : p.Checked) (s : Stages R) (path : Option (Path R))
    (buffer : Option (SpeedSeries R)) (x : Surroundings R) (recording : Option (Recording R))
    {res : CycleResult R} {h : Horizon R}
    (hres : (p.cycle s path buffer x recording).result = .ok res) (hh : res.horizon = some h)
    (hplan : ∀ rough k, (s.convex h rough).result = .ok k → k.Shaped h.knots.toNat) :
    ∃ d k, (p.cycle s path buffer x recording).buffer = some d ∧ k.Shaped h.knots.toNat ∧
      ((∃ rough, (s.convex h rough).result = .ok k) ∨ ∃ r, (s.refine r).2.result = .ok k) ∧
      p.Leaves h k d ∧ ∀ q y, Follows q p y x →
        (d.ReadableOver h → ∀ solve nonlinear path' recording',
          (q.cycle (q.stages solve nonlinear) path' (some d) y recording').result ≠
            .error (.stage (.input Corridor.noSpeed))) ∧
        (¬ d.ReadableOver h → y.regions ≠ [] →
          (∀ r ∈ y.regions, ∀ kind, r.manoeuvre ≠ .other kind) → 2 ≤ y.limit.points.length →
          y.arrived = false → ∀ s' path', Path.points path' ≠ [] → ∀ recording',
          (q.cycle s' (some path') (some d) y recording').result =
            .error (.stage (.input Corridor.noSpeed))) := by
  rcases cycle_ok hres hh with ⟨way, before, hrun⟩
  rw [hrun] at hres ⊢
  rcases run_ok hres with
    ⟨h', k, recording', stage, c, d, hhorizon, hk, hfinal, hfill, hh', hbuffer⟩
  rw [hh', Option.some.injEq] at hh
  subst hh
  have hpos : 0 < h'.step := by
    rw [(horizon_parts hhorizon).1]
    exact ((PlanSettings.checked_iff _).mp hp.settings).step_pos
  -- What is published has an entry for each knot, whichever plan it is.
  have hshaped := finalPlan_shaped hfinal (hplan _ _ hk)
  have hleaves := leaves_of_fillBuffer ((Comfort.checked_iff _).mp hp.comfort).2 hpos hshaped hfill
  refine ⟨d, c.profile, hbuffer, hshaped, ?_, hleaves, fun q y hnext =>
    ⟨hnext.expects hhorizon hleaves.copied, fun hread hregions hkinds hlimit harrived s' path' =>
      hnext.lacks hhorizon hleaves.copied hread hregions hkinds hlimit harrived s'⟩⟩
  rcases finalPlan_ok hfinal with hsame | ⟨_, _, r, _, hr⟩
  · rw [hsame]
    exact .inl ⟨_, hk⟩
  · exact .inr ⟨r, hr⟩

end Planner

/-! A short stop -/

/-- The rider without refinement, whose published motions last for a time. -/
def plainRider (time : Rat) : Planner Rat :=
  { rider with comfort := { Comfort.usual with refine := false, publishTime := time } }

theorem plainRider_checked (time : Rat) : (plainRider time).Checked where
  settings := rider_checked.settings
  comfort := by
    rcases (Comfort.checked_iff (R := Rat) .usual).mp Comfort.usual_checked with ⟨hjerk, hunit⟩
    exact (Comfort.checked_iff _).mpr ⟨hjerk, hunit⟩
  vehicle := rider_checked.vehicle
  curvatureFit := rider_checked.curvatureFit
  limitFit := rider_checked.limitFit

/-- Sixty metres of road and eight seconds to plan for, with somebody or nobody
    in the way. -/
def longRoad (regions : List (Region Rat)) : Surroundings Rat where
  regions := regions
  length := 60
  time := 8
  speed := 3
  acceleration := 0
  limit := ⟨[(0, 20), (60, 20)]⟩
  cruiseSpeed := 10
  legalSpeed := 20
  brake := none
  arrived := false

/-- Somebody to stop for, forty metres ahead. -/
def parked : Region Rat := ⟨.stop, [(0, 40), (9, 40)], [(0, 45), (9, 45)], 0, none⟩

/-- Braking for two seconds until the vehicle rolls back. -/
def rollingBack : KnotProfile Rat :=
  ⟨[0, 2, 5 / 2, 2, 3 / 2, 3 / 2, 3 / 2, 3 / 2, 3 / 2], [3, 1, -1 / 2, -1 / 2, 0, 0, 0, 0, 0],
    [0, -2, -1, 0, 0, 0, 0, 0, 0]⟩

/-- The stages of a plain rider whose convex solver has one answer. -/
def answering (time : Rat) (k : KnotProfile Rat) : Stages Rat :=
  (plainRider time).stages (fun _ _ => .ok ⟨.solved, 1, k⟩) fun _ _ => .brokeDown ""

/-- Ten metres of straight road. -/
def straightRoad : Path Rat := ⟨[⟨0, 0, 0, 0, 0, 0, 0⟩, ⟨10, 0, 0, 0, 0, 0, 10⟩]⟩

/-- A cycle of a plain rider who brakes until he rolls back. -/
def shortStop (time : Rat) : CycleReport Rat :=
  (plainRider time).cycle (answering time rollingBack) (some straightRoad)
    (some ⟨[⟨0, 0, 3, 0, 0⟩, ⟨24, 8, 3, 0, 0⟩]⟩) (longRoad []) none

/-- A cycle after that, with somebody in the way. -/
def afterwards (time : Rat) (d : SpeedSeries Rat) : CycleReport Rat :=
  (plainRider time).cycle (answering time ⟨[0, 1, 2, 3, 4, 5, 6, 7, 8], List.replicate 9 1,
    List.replicate 9 0⟩) (some straightRoad) (some d) (longRoad [parked]) none

theorem longRoad_follows (time : Rat) (regions : List (Region Rat)) :
    (plainRider time).Follows (plainRider time) (longRoad regions) (longRoad []) :=
  ⟨plainRider_checked time, rfl, rfl, rfl⟩

theorem shortStop_horizon {time : Rat} (htime : time = 3 ∨ time = 9) :
    ∃ res h, (shortStop time).result = .ok res ∧ res.horizon = some h ∧ h.knots = 9 ∧
      h.step = 1 := by
  have hsizes : ((shortStop time).result.toOption.map fun res =>
      res.horizon.map fun h => (h.knots, h.step)) = some (some (9, 1)) := by
    rcases htime with rfl | rfl <;> decide +kernel
  rcases exists_of_toOption_map hsizes with ⟨res, hres, hsome⟩
  rcases Option.map_eq_some_iff.mp hsome with ⟨h, hh, hsizes⟩
  rw [Prod.mk.injEq] at hsizes
  exact ⟨res, h, hres, hh, hsizes⟩

/-- The next cycle lacks an expected speed. -/
theorem shortStop_unread : ((shortStop 3).buffer.map fun d => match (afterwards 3 d).result with
    | .error (.stage (.input reason)) => decide (reason = Corridor.noSpeed)
    | _ => false) = some true := by decide +kernel

/-- After a stop of three seconds a cycle of eight seconds lacks an expected
    speed, although everything else is as it was. -/
theorem Planner.cycle_leaves_nothing : (plainRider 3).Checked ∧
    (plainRider 3).comfort.softBounds = true ∧
    (plainRider 3).Follows (plainRider 3) (longRoad [parked]) (longRoad []) ∧
    ∃ res h d, (shortStop 3).result = .ok res ∧ res.horizon = some h ∧
      rollingBack.Shaped h.knots.toNat ∧ (shortStop 3).buffer = some d ∧
        (afterwards 3 d).result = .error (.stage (.input Corridor.noSpeed)) := by
  rcases shortStop_horizon (.inl rfl) with ⟨res, h, hres, hh, hknots, _⟩
  refine ⟨plainRider_checked 3, rfl, longRoad_follows 3 _, res, h, ?_⟩
  rcases Option.map_eq_some_iff.mp shortStop_unread with ⟨d, hd, hfails⟩
  refine ⟨d, hres, hh, ?_, hd, ?_⟩
  · rw [hknots]
    exact ⟨rfl, rfl, rfl⟩
  · split at hfails
    · next reason hresult =>
        rw [hresult, of_decide_eq_true hfails]
    · exact absurd hfails Bool.false_ne_true

/-- After a stop of nine seconds it does not. -/
theorem Planner.cycle_leaves_enough : (plainRider 9).Checked ∧
    ∃ res h d, (shortStop 9).result = .ok res ∧ res.horizon = some h ∧
      (∀ rough k, ((answering 9 rollingBack).convex h rough).result = .ok k →
        k.Shaped h.knots.toNat) ∧
      (shortStop 9).buffer = some d ∧ d.ReadableOver h ∧
        (afterwards 9 d).result ≠ .error (.stage (.input Corridor.noSpeed)) := by
  rcases shortStop_horizon (.inr rfl) with ⟨res, h, hres, hh, hknots, hstep⟩
  have hplan : ∀ rough k, ((answering 9 rollingBack).convex h rough).result = .ok k →
      k.Shaped h.knots.toNat := by
    -- The solver has one answer only, with nine knots.
    intro rough k hk
    rcases planConvex_ok hk with ⟨_, answer, _, hanswer, _, hprofile⟩
    rw [← hprofile, ← Except.ok.inj hanswer, hknots]
    exact ⟨rfl, rfl, rfl⟩
  rcases cycle_leaves (plainRider_checked 9) _ _ _ _ _ hres hh hplan with
    ⟨d, k, hd, _, _, hleaves, hnext⟩
  have hread : d.ReadableOver h := by
    refine hleaves.lasting (by rw [hknots]; decide) ?_
    rw [hknots, hstep]
    decide +kernel
  exact ⟨plainRider_checked 9, res, h, d, hres, hh, hplan, hd, hread,
    (hnext _ _ (longRoad_follows 9 [parked])).1 hread _ _ _ _⟩

end JerkPlan
