import JerkPlan.Proofs.Readings
import JerkPlan.Proofs.CorridorKnots
import JerkPlan.Proofs.UniqueMinimum

/-!
# Steady plans

Going on at one speed, where nothing asks for anything else.

Steady motion has no second derivative and nothing that changes it, so it keeps
the rows of every step, and what it needs besides is room: its values, its
speed and zero acceleration and jerk between their bounds. If the targets of
the values are its own, it is worth the least, since every other point is worth
its spread from it more. It is then the one best plan as soon as the problem
weighs enough to have only one.

The targets of a convex plan are read off the rough motion, at times that are
put between its ends first. The knots of the horizon lie there already when the
rough motion covers it, and uniform motion is read as it is. So a uniform rough
motion that starts like the vehicle comes back as the plan, whatever the limits
are, as long as they leave room for it.

## Main definitions

* `KnotProfile.steady`: Going on at one speed.
* `KnotProblem.AdmitsSteady`: Room to go on at one speed.
* `KnotProblem.OnlyMinimum`: A problem with a given minimum and no other.
* `SpeedSeries.SteadyOver`: Uniform motion that covers a horizon.

## Theorems

* `stateAt_steady`: The states of steady motion.
* `KnotProblem.AdmitsSteady.hold`: Steady motion keeps every row.
* `KnotProblem.onTarget_steady`, `KnotProblem.AdmitsSteady.onlyMinimum`: It is
  the only minimum where the targets are its own.
* `referenceDistances_steady`: The targets of a convex plan.
* `planConvex_steady`: Uniform rough motion is the only best plan.
-/

namespace JerkPlan

variable {R : Type} [ExactScalar R]

/-! Steady motion -/

/-- Going on from a value with one slope over a number of knots. -/
def KnotProfile.steady (n : Nat) (step x v : R) : KnotProfile R :=
  ⟨(List.range n).map fun (i : Nat) => x + v * (i * step), List.replicate n v, List.replicate n 0⟩

theorem shaped_steady (n : Nat) (step x v : R) : (KnotProfile.steady n step x v).Shaped n := by
  constructor
  · rw [KnotProfile.steady, List.length_map, List.length_range]
  · rw [KnotProfile.steady, List.length_replicate]
  · rw [KnotProfile.steady, List.length_replicate]

theorem stateAt_steady {n i : Nat} (hi : i < n) (step x v : R) :
    stateAt n (KnotProfile.steady n step x v).point i = ⟨x + v * (i * step), v, 0⟩ := by
  rcases stateAt_point (shaped_steady n step x v) hi with ⟨hp, hv, ha⟩
  simp only [KnotProfile.steady, List.getElem?_map, List.getElem?_range hi, Option.map_some,
    List.getElem?_replicate, if_pos hi, Option.some.injEq] at hp hv ha
  rw [stateAt, Motion.mk.injEq]
  exact ⟨hp.symm, hv.symm, ha.symm⟩

/-- One slope leads on by constant jerk, which is none. -/
theorem linked_steady (step x v : R) (i : Nat) :
    Motion.Linked step ⟨x + v * (i * step), v, 0⟩ ⟨x + v * ((i + 1 : Nat) * step), v, 0⟩ := by
  constructor
  · ring
  · push_cast
    ring

namespace KnotProblem

/-- There is room to go on from a value with one slope: every bound leaves it,
    and no number is so large that a solver would read it as infinite. -/
structure AdmitsSteady (q : KnotProblem R) (x v : R) : Prop where
  values : ∀ (i : Nat) b, q.pBounds[i]? = some b →
    b.1.Below (.finite (x + v * (i * q.step))) ∧ (Endpoint.finite (x + v * (i * q.step))).Below b.2
  slopes : ∀ b ∈ q.vBounds, b.1.Below (.finite v) ∧ (Endpoint.finite v).Below b.2
  bends : ∀ b ∈ q.aBounds, Endpoint.AroundZero b
  changes : Endpoint.AroundZero q.jerkBounds
  start : q.start = [x, v, 0]
  moderate : |v| ≤ Endpoint.huge ∧ ∀ i : Nat, i < q.knots → |x + v * (i * q.step)| ≤ Endpoint.huge

/-- A number of moderate size stays between two ends when they are clipped. -/
theorem between_clip {b : Endpoint R × Endpoint R} {x : R} (hx : |x| ≤ Endpoint.huge)
    (h : b.1.Below (.finite x) ∧ (Endpoint.finite x).Below b.2) :
    b.1.clip ≤ x ∧ x ≤ b.2.clip := by
  have hlower := h.1.clip_le
  have hupper := h.2.clip_le
  rw [Endpoint.clip_finite (neg_le_of_abs_le hx) (le_of_abs_le hx)] at hlower hupper
  exact ⟨hlower, hupper⟩

/-- Steady motion keeps every row, block by block. -/
theorem AdmitsSteady.hold {q : KnotProblem R} {x v : R} (h : q.AdmitsSteady x v)
    (hq : q.WellFormed) :
    q.constraints.Hold (KnotProfile.steady q.knots q.step x v).point := by
  have hstate (i : Nat) (hi : i < q.knots) := stateAt_steady hi q.step x v
  have hindex {bounds : List (Endpoint R × Endpoint R)} (hlength : bounds.length = q.knots)
      {i : Nat} {b : Endpoint R × Endpoint R} (hb : bounds[i]? = some b) : i < q.knots :=
    hlength ▸ (List.getElem?_eq_some_iff.mp hb).1
  -- The bounds of the three parts, then the changes, the two closed forms and the start.
  refine (hold_constraints_iff hq).mpr ⟨?_, ?_, ?_, ?_, ?_, ?_⟩
  · intro i b hb
    have hi := hindex hq.length_pBounds hb
    rw [hstate i hi]
    exact between_clip (h.moderate.2 i hi) (h.values i b hb)
  · intro i b hb
    rw [hstate i (hindex hq.length_vBounds hb)]
    exact between_clip h.moderate.1 (h.slopes b (List.mem_of_getElem? hb))
  · intro i b hb
    rw [hstate i (hindex hq.length_aBounds hb)]
    exact (h.bends b (List.mem_of_getElem? hb)).clip
  · intro i hi
    rw [hstate i (by omega), hstate (i + 1) hi, sub_self]
    exact (h.changes.scale hq.step_pos).clip
  · intro i hi
    have hlinked := linked_steady q.step x v i
    rw [← hstate i (by omega), ← hstate (i + 1) hi, ← linked_iff] at hlinked
    rw [hlinked.1, hlinked.2]
    exact ⟨⟨le_rfl, le_rfl⟩, le_rfl, le_rfl⟩
  · intro x' v' a' hstart
    -- Clipping leaves the start as it is, since no number is too large.
    have hknots := hq.two_le_knots
    have hfirst := h.moderate.2 0 (by omega)
    have hone {y : R} (hy : |y| ≤ Endpoint.huge) :
        (Endpoint.finite y).clip ≤ y ∧ y ≤ (Endpoint.finite y).clip := by
      rw [Endpoint.clip_finite (neg_le_of_abs_le hy) (le_of_abs_le hy)]
      exact ⟨le_rfl, le_rfl⟩
    rw [h.start] at hstart
    simp only [List.cons.injEq, and_true] at hstart
    rcases hstart with ⟨rfl, rfl, rfl⟩
    rw [hstate 0 (by omega)]
    simp only [Nat.cast_zero, zero_mul, mul_zero, add_zero] at hfirst ⊢
    exact ⟨hone hfirst, hone h.moderate.1, hone (abs_zero.trans_le Endpoint.huge_pos.le)⟩

/-- Steady motion is on target where the targets of the values are its own and
    its slope costs nothing. -/
theorem onTarget_steady {q : KnotProblem R} {x v w : R} {targets : List R}
    (hvalues : q.pWeight = 0) (hslopes : q.vWeight * v = 0) (hfinal : q.finalReference = none)
    (hslope : q.slopeReference = none)
    (hreference : q.reference = some (List.replicate q.knots w, targets))
    (htargets : ∀ i : Nat, i < q.knots → targets[i]? = some (x + v * (i * q.step))) :
    q.OnTarget (KnotProfile.steady q.knots q.step x v).point := by
  refine ⟨fun i hi => ?_, fun i hi => ?_, fun i hi => ?_, hfinal, hslope⟩
  · rw [pSquare_uniform hfinal hreference hi, stateAt_steady hi, hvalues, zero_add, hreference,
      Option.elim_some, List.getElem?_replicate, if_pos hi, htargets i hi, Option.getD_some,
      Option.getD_some]
  · rw [stateAt_steady hi]
    simp only [vSquare, withFinal, hfinal, hslope, Option.elim_none]
    exact hslopes
  · rw [stateAt_steady hi]

/-- A problem has a program, of which a point is a minimum, and all minima agree
    with it. -/
def OnlyMinimum (q : KnotProblem R) (z : Nat → R) : Prop :=
  ∃ program, q.program = .ok program ∧ program.Minimum z ∧
    ∀ z', program.Minimum z' → ∀ j, j < 3 * q.knots → z' j = z j

/-- Where it has room and is on target, steady motion is the only minimum. -/
theorem AdmitsSteady.onlyMinimum {q : KnotProblem R} {x v : R} (h : q.AdmitsSteady x v)
    (hq : q.WellFormed) (hkind : q.kind ≠ .bare) (hweighted : q.Weighted) (hdecided : q.Decided)
    (htarget : q.OnTarget (KnotProfile.steady q.knots q.step x v).point) :
    q.OnlyMinimum (KnotProfile.steady q.knots q.step x v).point := by
  rcases unambiguous hq hkind hweighted hdecided with ⟨program, hprogram, hunique⟩
  have hminimum := htarget.minimum hq hkind hweighted (h.hold hq) hprogram
  exact ⟨program, hprogram, hminimum, fun z' hz' => hunique z' _ hz' hminimum⟩

/-- A profile that is a minimum is the one that is the only minimum. -/
theorem OnlyMinimum.profile_eq {q : KnotProblem R} {k k' : KnotProfile R}
    (h : q.OnlyMinimum k.point) (hk : k.Shaped q.knots) (hk' : k'.Shaped q.knots)
    (hminimum : ∀ program, q.program = .ok program → program.Minimum k'.point) : k' = k := by
  rcases h with ⟨program, hprogram, _, hunique⟩
  have hcoordinate := hunique _ (hminimum program hprogram)
  refine hk'.eq_of_states hk fun i hi => ?_
  rw [stateAt, stateAt, hcoordinate i (by omega), hcoordinate (q.knots + i) (by omega),
    hcoordinate (2 * q.knots + i) (by omega)]

end KnotProblem

/-! The convex plan -/

/-- A series of uniform motion that begins no later than a horizon, and lasts
    until its last knot at least. -/
structure SpeedSeries.SteadyOver (d : SpeedSeries R) (v : R) (h : Horizon R) : Prop where
  two : 2 ≤ d.samples.length
  line : ∀ x ∈ d.samples, x.s = v * x.t
  apart : d.Apart
  first : ∀ x, d.samples.head? = some x → x.t ≤ 0
  last : ∀ x, d.samples.getLast? = some x → ((h.knots.toNat - 1 : Nat) : R) * h.step ≤ x.t

/-- The targets read off uniform motion that covers the horizon. -/
theorem referenceDistances_steady {h : Horizon R} (hstep : 0 < h.step) {rough : SpeedSeries R}
    {v : R} (hrough : rough.SteadyOver v h) :
    referenceDistances rough h =
      .ok ((List.range h.knots.toNat).map fun (i : Nat) => v * (i * h.step)) := by
  have hsome : rough.samples ≠ [] :=
    List.ne_nil_of_length_pos (Nat.lt_of_lt_of_le Nat.two_pos hrough.two)
  have hhead := List.head?_eq_some_head hsome
  have hend := List.getLast?_eq_some_getLast hsome
  rw [referenceDistances_eq hhead hend]
  refine congrArg Except.ok (List.map_congr_left fun i hi => ?_)
  have hlast : i ≤ h.knots.toNat - 1 := by
    have hlt := List.mem_range.mp hi
    omega
  -- The time of a knot lies between the ends, so it is read as it is.
  have hafter : (rough.samples.head hsome).t ≤ (i : R) * h.step :=
    (hrough.first _ hhead).trans (mul_nonneg (Nat.cast_nonneg i) hstep.le)
  have hbefore : (i : R) * h.step ≤ (rough.samples.getLast hsome).t :=
    (mul_le_mul_of_nonneg_right (Nat.cast_le.mpr hlast) hstep.le).trans (hrough.last _ hend)
  rw [max_eq_left hafter, min_eq_left hbefore]
  rcases SpeedSeries.byTime_line hrough.two hrough.line hrough.apart
    (fun x hx => by rw [hhead, Option.some.injEq] at hx; exact hx ▸ hafter)
    (fun x hx => by rw [hend, Option.some.injEq] at hx; exact hx ▸ hbefore) with ⟨x, hx, hplace⟩
  rw [hx, Option.elim_some, hplace]

/-- A convex plan with rough motion to follow has its places as targets, all
    with one weight. -/
theorem convexProblem_targets {h : Horizon R} {rough : SpeedSeries R} {p : PlanSettings R}
    {q : KnotProblem R} (hq : (convexProblem h rough p).result = .ok q)
    (hrough : 2 ≤ rough.samples.length) :
    ∃ targets, referenceDistances rough h = .ok targets ∧
      q.reference = some (List.replicate q.knots p.referenceWeight, targets) := by
  unfold convexProblem at hq
  rcases Outcome.bind_ok_iff.mp hq with ⟨q₀, _, hq⟩
  rcases Outcome.bind_ok_iff.mp hq with ⟨bounds, _, hq⟩
  rw [if_pos hrough] at hq
  rcases Outcome.bind_ok_iff.mp hq with ⟨targets, htargets, hq⟩
  rcases ite_error_ok hq with ⟨_, hq⟩
  rw [← Except.ok.inj hq]
  exact ⟨targets, htargets, rfl⟩

/-- A convex plan admits steady motion for which its limits leave room. -/
theorem ConvexFor.admitsSteady {h : Horizon R} {q : KnotProblem R} (hq : ConvexFor h q)
    (hrest : h.AllowsRest) {v : R} (hv : 0 ≤ v) (hstart : h.start = [0, v, 0])
    (hroom : ∀ (i : Nat) b, h.corridor.hard[i]? = some b →
      b.1 ≤ v * (i * h.step) ∧ v * (i * h.step) ≤ b.2)
    (hspeed : v ≤ Endpoint.huge)
    (hplaces : ∀ i : Nat, i < h.knots.toNat → v * (i * h.step) ≤ Endpoint.huge) :
    q.AdmitsSteady 0 v := by
  have hnow : h.speed = v := by
    simp only [Horizon.start, List.cons.injEq, and_true] at hstart
    exact hstart.2.1
  refine ⟨fun i b hb => ?_, ?_, ?_, ?_, hq.start.trans hstart, ?_, fun i hi => ?_⟩
  · rw [hq.pBounds, List.getElem?_map, Option.map_eq_some_iff] at hb
    rcases hb with ⟨interval, hinterval, rfl⟩
    rw [hq.step, zero_add]
    exact hroom i interval hinterval
  · rw [hq.vBounds, hnow, greater_eq_max]
    have hmargin : v ≤ v + startSpeedMargin :=
      le_add_of_nonneg_right (decimal_pos one_pos 1).le
    exact List.forall_mem_replicate.mpr (.inr ⟨hv, hmargin.trans (le_max_right _ _)⟩)
  · rw [hq.aBounds]
    exact List.forall_mem_replicate.mpr (.inr hrest.acceleration)
  · rw [hq.jerkBounds]
    exact hrest.jerk
  · rw [abs_of_nonneg hv]
    exact hspeed
  · have hpast : 0 ≤ v * ((i : R) * q.step) :=
      mul_nonneg hv (mul_nonneg (Nat.cast_nonneg i) (hq.step ▸ hq.step_pos.le))
    rw [zero_add, abs_of_nonneg hpast, hq.step]
    exact hplaces i (hq.knots ▸ hi)

/-- Uniform rough motion that covers the horizon, starts like the vehicle and
    stays within the limits is the only minimum of the convex plan. A solver
    whose accepted answers are minima gives it back. -/
theorem planConvex_steady {h : Horizon R} (hknots : 2 ≤ h.knots) (hstep : 0 < h.step)
    (hrest : h.AllowsRest) {v : R} (hv : 0 ≤ v) (hstart : h.start = [0, v, 0])
    (hlength : h.corridor.hard.length = h.knots.toNat)
    (hroom : ∀ (i : Nat) b, h.corridor.hard[i]? = some b →
      b.1 ≤ v * (i * h.step) ∧ v * (i * h.step) ≤ b.2)
    (hspeed : v ≤ Endpoint.huge)
    (hplaces : ∀ i : Nat, i < h.knots.toNat → v * (i * h.step) ≤ Endpoint.huge)
    {rough : SpeedSeries R} (hrough : rough.SteadyOver v h) {p : PlanSettings R}
    (hacceleration : 0 ≤ p.accelerationWeight) (hjerk : 0 ≤ p.jerkWeight)
    (hreference : 0 < p.referenceWeight) :
    ∃ q, (convexProblem h rough p).result = .ok q ∧
      q.Feasible (.steady h.knots.toNat h.step 0 v) ∧
      q.OnlyMinimum (KnotProfile.steady h.knots.toNat h.step 0 v).point ∧
        ∀ solve : ConvexSolver R, solve.Accurate → ∀ k,
          (planConvex solve h rough p).result = .ok k → k = .steady h.knots.toNat h.step 0 v := by
  rcases convexProblem_total hknots hstep hlength rough p with ⟨q, hq⟩
  have hfor := convexProblem_for hq
  have haims := convexProblem_aims hq
  have hweights := haims.weights
  simp only [List.cons.injEq, and_true] at hweights
  rcases convexProblem_targets hq hrough.two with ⟨targets, htargets, hfollowed⟩
  rw [referenceDistances_steady hstep hrough, Except.ok.injEq] at htargets
  have hadmits := hfor.admitsSteady hrest hv hstart hroom hspeed hplaces
  have hkept := hadmits.hold hfor.wellFormed
  -- The targets are read off a line, so steady motion meets all of them.
  have htarget : q.OnTarget (KnotProfile.steady q.knots q.step 0 v).point := by
    refine KnotProblem.onTarget_steady hweights.1 ?_ haims.final haims.slope hfollowed
      fun i hi => ?_
    · rw [hweights.2.1, zero_mul]
    · rw [← htargets, List.getElem?_map, List.getElem?_range (hfor.knots ▸ hi), Option.map_some,
        zero_add, hfor.step]
  have honly := hadmits.onlyMinimum hfor.wellFormed haims.kind_ne
    (haims.weighted hacceleration hjerk hreference.le)
    (haims.decided (.inr (.inr ⟨hrough.two, hreference⟩))) htarget
  rw [hfor.knots, hfor.step] at hkept honly
  refine ⟨q, hq, hkept, honly, fun solve hsolve k hk => ?_⟩
  rcases planConvex_ok hk with ⟨q', answer, hq', hanswer, haccepted, rfl⟩
  rw [hq, Except.ok.injEq] at hq'
  subst hq'
  have hshaped : (KnotProfile.steady h.knots.toNat h.step 0 v).Shaped q.knots := by
    rw [hfor.knots]
    exact shaped_steady _ _ _ _
  -- The solver answers whatever program the problem has.
  have hprogram := KnotProblem.program_eq haims.kind_ne hfor.wellFormed.step_pos
  have hanswered := (hsolve _ _ _ _ hprogram hanswer haccepted).1
  exact honly.profile_eq hshaped hanswered fun program hprogram' =>
    (hsolve _ _ _ _ hprogram' hanswer haccepted).2

/-- A vehicle at two metres per second, with three knots a second apart and
    just enough room to go on. -/
def rolling : Horizon Rat :=
  { standstill with speed := 2, knots := 3, corridor := ⟨[(0, 10), (2, 2), (1, 4)], []⟩ }

/-- Samples of going on at two metres per second, unevenly spaced, with one time
    twice. -/
def onward : SpeedSeries Rat :=
  ⟨[⟨-1, -1 / 2, 2, 0, 0⟩, ⟨1, 1 / 2, 0, 0, 0⟩, ⟨1, 1 / 2, 2, 0, 0⟩, ⟨5, 5 / 2, 2, 0, 0⟩]⟩

theorem onward_steadyOver : onward.SteadyOver 2 rolling where
  two := by decide
  line := by decide +kernel
  apart := .cons_cons (by decide +kernel) <| .cons_cons (by decide +kernel) <|
    .cons_cons (by decide +kernel) <| .singleton _
  first := fun x hx => by
    rw [← Option.some.inj hx]
    decide +kernel
  last := fun x hx => by
    rw [← Option.some.inj hx]
    decide +kernel

/-- The vehicle goes on as it is. -/
theorem planConvex_steady_rolling : rolling.start = [0, 2, 0] ∧ rolling.AllowsRest ∧
    onward.SteadyOver 2 rolling ∧
    ∃ q, (convexProblem rolling onward .usual).result = .ok q ∧
      q.Feasible ⟨[0, 2, 4], [2, 2, 2], [0, 0, 0]⟩ ∧
        q.OnlyMinimum (KnotProfile.mk [0, 2, 4] [2, 2, 2] [0, 0, 0]).point := by
  have hrest : rolling.AllowsRest := ⟨by decide +kernel, by decide +kernel⟩
  have hroom : ∀ (i : Nat) b, rolling.corridor.hard[i]? = some b →
      b.1 ≤ 2 * ((i : Rat) * rolling.step) ∧ 2 * ((i : Rat) * rolling.step) ≤ b.2 := by
    intro i b hb
    rcases i with _ | _ | _ | i
    · rw [← Option.some.inj hb]
      decide +kernel
    · rw [← Option.some.inj hb]
      decide +kernel
    · rw [← Option.some.inj hb]
      decide +kernel
    · -- there are no further knots
      exact absurd (List.getElem?_eq_some_iff.mp hb).1 (Nat.not_lt.mpr (Nat.le_add_left 3 i))
  have hmotion : KnotProfile.steady 3 (1 : Rat) 0 2 = ⟨[0, 2, 4], [2, 2, 2], [0, 0, 0]⟩ := by
    simp only [KnotProfile.steady, KnotProfile.mk.injEq]
    decide +kernel
  rcases planConvex_steady (show 2 ≤ rolling.knots by decide)
    (show 0 < rolling.step by decide +kernel) hrest (show (0 : Rat) ≤ 2 by decide +kernel) rfl rfl
    hroom (by decide +kernel) (by decide +kernel) onward_steadyOver (p := .usual)
    (by decide +kernel) (by decide +kernel) (by decide +kernel) with ⟨q, hq, hkept, honly, _⟩
  have hsame : KnotProfile.steady rolling.knots.toNat rolling.step 0 2 =
      ⟨[0, 2, 4], [2, 2, 2], [0, 0, 0]⟩ := hmotion
  rw [hsame] at hkept honly
  exact ⟨rfl, hrest, onward_steadyOver, q, hq, hkept, honly⟩

end JerkPlan
