import JerkPlan.Proofs.Midway
import JerkPlan.Proofs.StandingStart

/-!
# Unique minima

The convex plan has at most one best answer, and so has a fit.

The kernel of a program does not decide this alone. Where only second
derivatives are weighed, it says nothing of the values, and where only their
changes are, nothing of the second derivatives themselves. It takes the
constraints as well.

Two minima are worth the same, and the point midway between them keeps the
constraints too, so it cannot be worth less. That leaves no spread between the
two, and they agree in whatever has a positive weight.

The rest is a matter of states. The start is given. A step of constant jerk
leaves one choice: from a given state on, the value at the next knot or either
derivative there decides the other two. So one weight that is positive at every
later knot, or else that of the changes, settles state after state.

## Main definitions

* `QuadraticProgram.Minimum`: A point that keeps the constraints and is worth
  the least.
* `KnotProblem.Decided`: A problem that weighs something at every later knot.
* `KnotProblem.Unambiguous`: A problem with one minimum at most.
* `KnotProblem.OnTarget`: A point from which nothing pulls away.
* `ConvexSolver.Accurate`: A solver whose accepted answers are minima.
* `KnotProblem.OnlyRests`: A problem whose minimum is to stay.

## Theorems

* `Motion.Linked.unique`: A step of constant jerk leaves one choice.
* `KnotProblem.states_eq`: Agreeing in what is weighed is agreeing everywhere.
* `QuadraticProgram.Minimum.states_eq`: Minima have the same states.
* `KnotProblem.unambiguous`, `ConvexSolver.Accurate.profile_eq`: One minimum at
  most, and one answer.
* `KnotProblem.OnTarget.objective_eq`, `KnotProblem.OnTarget.minimum`: What a
  point on target is worth.
* `KnotProblem.AdmitsRest.minimum`: Where nothing pulls, staying is a minimum.
* `ConvexAims.decided`, `FitFor.decided`: What the convex plan and a fit weigh.
* `plan_and_fit_unique`: Both have one minimum at most.
-/

namespace JerkPlan

open Finset

variable {R : Type} [ExactScalar R]

/-! State after state -/

/-- A step of constant jerk leaves one choice: where two of them begin in the
    same state, they end in the same one as soon as one of its parts agrees. -/
theorem Motion.Linked.unique {step : R} (hstep : 0 < step) {m n n' : Motion R}
    (h : m.Linked step n) (h' : m.Linked step n') (hpart : n.p = n'.p ∨ n.v = n'.v ∨ n.a = n'.a) :
    n = n' := by
  -- Whichever part agrees, the second derivatives do.
  have hbend : n.a = n'.a := by
    rcases hpart with hp | hv | ha
    · have hscaled : step ^ 2 / 6 * n.a = step ^ 2 / 6 * n'.a := by linarith [h.value, h'.value]
      exact mul_left_cancel₀ (by positivity) hscaled
    · have hscaled : step / 2 * (m.a + n.a) = step / 2 * (m.a + n'.a) := by
        linarith [h.slope, h'.slope]
      exact add_left_cancel (mul_left_cancel₀ (by positivity) hscaled)
    · exact ha
  have hslope := h.slope
  have hvalue := h.value
  rw [hbend] at hslope hvalue
  rcases n with ⟨p, v, a⟩
  rcases n' with ⟨p', v', a'⟩
  rw [Motion.mk.injEq]
  exact ⟨by linarith [h'.value], by linarith [h'.slope], hbend⟩

namespace KnotProblem

variable {q : KnotProblem R} {z z' : Nat → R}

/-- All points that keep the constraints start in the same state. -/
theorem start_eq (hq : q.WellFormed) (hz : q.constraints.Hold z) (hz' : q.constraints.Hold z') :
    stateAt q.knots z 0 = stateAt q.knots z' 0 := by
  rcases List.length_eq_three.mp hq.length_start with ⟨p, v, a, hstart⟩
  rcases ((hold_constraints_iff hq).mp hz).start p v a hstart with ⟨hp, hv, ha⟩
  rcases ((hold_constraints_iff hq).mp hz').start p v a hstart with ⟨hp', hv', ha'⟩
  -- Both bounds of a row of the start are the same number.
  have hrow {l x y : R} (hx : l ≤ x ∧ x ≤ l) (hy : l ≤ y ∧ y ≤ l) : x = y :=
    le_antisymm (hx.2.trans hy.1) (hy.2.trans hx.1)
  rw [stateAt, stateAt, Motion.mk.injEq]
  exact ⟨hrow hp hp', hrow hv hv', hrow ha ha'⟩

/-- Something is weighed at every later knot, or the changes are. -/
def Decided (q : KnotProblem R) : Prop :=
  0 < q.jerkWeight ∨
    ∀ i, 0 < i → i < q.knots → 0 < q.pSquare i ∨ 0 < q.vSquare i ∨ 0 < q.aSquare i

/-- Points that keep the constraints and agree in what is weighed have the same
    state at every knot, by induction on the knots. -/
theorem states_eq (hq : q.WellFormed) (hdecided : q.Decided) (hz : q.constraints.Hold z)
    (hz' : q.constraints.Hold z') (hagree : q.Agree z z') :
    ∀ i, i < q.knots → stateAt q.knots z i = stateAt q.knots z' i := by
  intro i
  induction i with
  | zero => exact fun _ => start_eq hq hz hz'
  | succ i ih =>
      intro hi
      have hbefore := ih (by omega)
      have hlink := linked_of_hold hq hz hi
      have hlink' := linked_of_hold hq hz' hi
      rw [← hbefore] at hlink'
      refine hlink.unique hq.step_pos hlink' ?_
      rcases hdecided with hjerk | hknot
      · -- The same change from the same second derivative.
        have hchange := hagree.changes i hi hjerk
        rw [hbefore] at hchange
        exact .inr (.inr (sub_left_injective hchange))
      · rcases hknot (i + 1) i.succ_pos hi with hp | hv | ha
        · exact .inl (hagree.values _ hi hp)
        · exact .inr (.inl (hagree.slopes _ hi hv))
        · exact .inr (.inr (hagree.bends _ hi ha))

end KnotProblem

/-- The states at all knots are all coordinates. -/
theorem eq_of_states {R : Type} {n : Nat} {z z' : Nat → R}
    (h : ∀ i, i < n → stateAt n z i = stateAt n z' i) {j : Nat} (hj : j < 3 * n) : z j = z' j := by
  by_cases hvalue : j < n
  · exact congrArg Motion.p (h j hvalue)
  by_cases hslope : j < 2 * n
  · have hv : z (n + (j - n)) = z' (n + (j - n)) := congrArg Motion.v (h (j - n) (by omega))
    rw [Nat.add_sub_cancel' (by omega)] at hv
    exact hv
  · have ha : z (2 * n + (j - 2 * n)) = z' (2 * n + (j - 2 * n)) :=
      congrArg Motion.a (h (j - 2 * n) (by omega))
    rw [Nat.add_sub_cancel' (by omega)] at ha
    exact ha

/-- Profiles with the same states are the same. -/
theorem KnotProfile.Shaped.eq_of_states {n : Nat} {k k' : KnotProfile R} (hk : k.Shaped n)
    (hk' : k'.Shaped n) (h : ∀ i, i < n → stateAt n k.point i = stateAt n k'.point i) : k = k' := by
  have hentries (i : Nat) (hi : i < n) :
      k.p[i]? = k'.p[i]? ∧ k.v[i]? = k'.v[i]? ∧ k.a[i]? = k'.a[i]? := by
    rcases stateAt_point hk hi with ⟨hp, hv, ha⟩
    rcases stateAt_point hk' hi with ⟨hp', hv', ha'⟩
    rw [hp, hv, ha, hp', hv', ha', h i hi]
    exact ⟨rfl, rfl, rfl⟩
  have hlist {xs ys : List R} (hxs : xs.length = n) (hys : ys.length = n)
      (hget : ∀ i, i < n → xs[i]? = ys[i]?) : xs = ys := by
    refine List.ext_getElem? fun i => ?_
    by_cases hi : i < n
    · exact hget i hi
    · rw [List.getElem?_eq_none (by omega), List.getElem?_eq_none (by omega)]
  rcases k with ⟨p, v, a⟩
  rcases k' with ⟨p', v', a'⟩
  rw [KnotProfile.mk.injEq]
  exact ⟨hlist hk.values hk'.values fun i hi => (hentries i hi).1,
    hlist hk.slopes hk'.slopes fun i hi => (hentries i hi).2.1,
    hlist hk.bends hk'.bends fun i hi => (hentries i hi).2.2⟩

/-! Minima -/

/-- A point keeps the constraints of a program, and no point that does is worth
    less. -/
structure QuadraticProgram.Minimum (program : QuadraticProgram R) (z : Nat → R) : Prop where
  kept : program.constraints.Hold z
  least : ∀ z', program.constraints.Hold z' → program.objective z ≤ program.objective z'

theorem KnotProblem.program_constraints {q : KnotProblem R} {program : QuadraticProgram R}
    (h : q.program = .ok program) : program.constraints = q.constraints := by
  rcases bind_eq_ok_iff.mp h with ⟨_, _, h⟩
  rcases bind_eq_ok_iff.mp h with ⟨_, _, h⟩
  rw [← Except.ok.inj h]

/-- Two minima of a problem that weighs enough have the same state at every
    knot. -/
theorem QuadraticProgram.Minimum.states_eq {q : KnotProblem R} (hq : q.WellFormed)
    (hkind : q.kind ≠ .bare) (hweighted : q.Weighted) (hdecided : q.Decided)
    {program : QuadraticProgram R} (hprogram : q.program = .ok program) {z z' : Nat → R}
    (hz : program.Minimum z) (hz' : program.Minimum z') :
    ∀ i, i < q.knots → stateAt q.knots z i = stateAt q.knots z' i := by
  have hsame : program.objective z = program.objective z' :=
    le_antisymm (hz.least z' hz'.kept) (hz'.least z hz.kept)
  -- The point midway is not worth less than a minimum.
  have hmidway := hz.least _ (hz.kept.midway hz'.kept)
  rw [KnotProblem.objective_midway hq hkind hprogram, ← hsame] at hmidway
  have hspread : q.spread z z' ≤ 0 := by linarith
  have hkept := hz.kept
  have hkept' := hz'.kept
  rw [KnotProblem.program_constraints hprogram] at hkept hkept'
  exact KnotProblem.states_eq hq hdecided hkept hkept'
    (KnotProblem.agree_of_spread hq.step_pos hweighted hspread)

/-- A problem has a program, and this has one minimum at most. -/
def KnotProblem.Unambiguous (q : KnotProblem R) : Prop :=
  ∃ program, q.program = .ok program ∧
    ∀ z z', program.Minimum z → program.Minimum z' → ∀ j, j < 3 * q.knots → z j = z' j

/-- A solver whose accepted answers have a state for each knot and are minima of
    the program they answer. -/
def ConvexSolver.Accurate (solve : ConvexSolver R) : Prop :=
  ∀ budget q program answer, q.program = .ok program → solve budget q = .ok answer →
    answer.status.accepted = true →
      answer.profile.Shaped q.knots ∧ program.Minimum answer.profile.point

theorem KnotProblem.unambiguous {q : KnotProblem R} (hq : q.WellFormed) (hkind : q.kind ≠ .bare)
    (hweighted : q.Weighted) (hdecided : q.Decided) : q.Unambiguous := by
  have hprogram := program_eq hkind hq.step_pos
  exact ⟨_, hprogram, fun z z' hz hz' j hj =>
    eq_of_states (hz.states_eq hq hkind hweighted hdecided hprogram hz') hj⟩

/-- Accurate solvers accept the same profile, each with a budget of its own. -/
theorem ConvexSolver.Accurate.profile_eq {solve solve' : ConvexSolver R} (hsolve : solve.Accurate)
    (hsolve' : solve'.Accurate) {q : KnotProblem R} (hq : q.Unambiguous) {budget budget' : Int}
    {answer answer' : ConvexAnswer R} (hanswer : solve budget q = .ok answer)
    (hanswer' : solve' budget' q = .ok answer') (haccepted : answer.status.accepted = true)
    (haccepted' : answer'.status.accepted = true) : answer.profile = answer'.profile := by
  rcases hq with ⟨program, hprogram, hunique⟩
  rcases hsolve _ _ _ _ hprogram hanswer haccepted with ⟨hshaped, hminimum⟩
  rcases hsolve' _ _ _ _ hprogram hanswer' haccepted' with ⟨hshaped', hminimum'⟩
  refine hshaped.eq_of_states hshaped' fun i hi => ?_
  have hcoordinate := hunique _ _ hminimum hminimum'
  rw [stateAt, stateAt, hcoordinate i (by omega), hcoordinate (q.knots + i) (by omega),
    hcoordinate (2 * q.knots + i) (by omega)]

namespace KnotProblem

/-- The linear form pulls every value of a point to where it is, and the other
    squares that are weighed are zero there. -/
structure OnTarget (q : KnotProblem R) (z : Nat → R) : Prop where
  values : ∀ i, i < q.knots →
    (q.reference.elim 0 fun r => -2 * (r.1[i]?).getD 0 * (r.2[i]?).getD 0) =
      -2 * q.pSquare i * (stateAt q.knots z i).p
  slopes : ∀ i, i < q.knots → q.vSquare i * (stateAt q.knots z i).v = 0
  bends : ∀ i, i < q.knots → (stateAt q.knots z i).a = 0
  final : q.finalReference = none
  slope : q.slopeReference = none

/-- The square is completed in every term of a sum. -/
theorem sum_completed {n : Nat} {w g x : Nat → R} (h : ∀ i, i < n → g i = -2 * w i * x i)
    (y : Nat → R) :
    ∑ i ∈ range n, (w i * y i ^ 2 + g i * y i) =
      ∑ i ∈ range n, (w i * x i ^ 2 + g i * x i) + ∑ i ∈ range n, w i * (y i - x i) ^ 2 := by
  rw [← sum_add_distrib]
  refine sum_congr rfl fun i hi => ?_
  rw [h i (mem_range.mp hi)]
  ring

/-- A point is worth its spread from a point on target more than that one. -/
theorem OnTarget.objective_eq {q : KnotProblem R} {z : Nat → R} (h : q.OnTarget z)
    (hq : q.WellFormed) (hkind : q.kind ≠ .bare) {program : QuadraticProgram R}
    (hprogram : q.program = .ok program) (z' : Nat → R) :
    program.objective z' = program.objective z + q.spread z' z := by
  -- Where there is no pull, either nothing is weighed or the point is at zero.
  have hslope (i : Nat) (hi : i < q.knots) : 0 = -2 * q.vSquare i * (stateAt q.knots z i).v := by
    rw [mul_assoc, h.slopes i hi, mul_zero]
  have hbend (i : Nat) (hi : i < q.knots) : 0 = -2 * q.aSquare i * (stateAt q.knots z i).a := by
    rw [h.bends i hi, mul_zero]
  have hvalues := sum_completed h.values fun i => (stateAt q.knots z' i).p
  have hslopes := sum_completed hslope fun i => (stateAt q.knots z' i).v
  have hbends := sum_completed hbend fun i => (stateAt q.knots z' i).a
  have hchanges : ∑ i ∈ range (q.knots - 1),
        ((stateAt q.knots z' (i + 1)).a - (stateAt q.knots z' i).a) ^ 2 =
      ∑ i ∈ range (q.knots - 1), ((stateAt q.knots z (i + 1)).a - (stateAt q.knots z i).a) ^ 2 +
        ∑ i ∈ range (q.knots - 1), (((stateAt q.knots z' (i + 1)).a - (stateAt q.knots z' i).a) -
          ((stateAt q.knots z (i + 1)).a - (stateAt q.knots z i).a)) ^ 2 := by
    rw [← sum_add_distrib]
    refine sum_congr rfl fun i hi => ?_
    have hlast : i + 1 < q.knots := Nat.add_lt_of_lt_sub (mem_range.mp hi)
    rw [h.bends i (by omega), h.bends (i + 1) hlast]
    ring
  rw [KnotProblem.objective_eq hq hkind hprogram, KnotProblem.objective_eq hq hkind hprogram,
    spread, ← mul_sum]
  simp only [withFinalPull, h.final, h.slope, Option.elim_none]
  rw [hvalues, hslopes, hbends, hchanges]
  ring

/-- A point on target that keeps the constraints is a minimum. -/
theorem OnTarget.minimum {q : KnotProblem R} {z : Nat → R} (h : q.OnTarget z) (hq : q.WellFormed)
    (hkind : q.kind ≠ .bare) (hweighted : q.Weighted) (hkept : q.constraints.Hold z)
    {program : QuadraticProgram R} (hprogram : q.program = .ok program) :
    program.Minimum z := by
  constructor
  · rw [program_constraints hprogram]
    exact hkept
  · intro z' _
    rw [h.objective_eq hq hkind hprogram z']
    exact le_add_of_nonneg_right (spread_nonneg hweighted hq.step_pos z' z)

/-- Where nothing pulls away from zero, staying there is a minimum. -/
theorem AdmitsRest.minimum {q : KnotProblem R} (h : q.AdmitsRest) (hq : q.WellFormed)
    (hkind : q.kind ≠ .bare) (hweighted : q.Weighted) (hfinal : q.finalReference = none)
    (hslope : q.slopeReference = none)
    (hreference : ∀ r, q.reference = some r → ∀ target ∈ r.2, target = 0)
    {program : QuadraticProgram R} (hprogram : q.program = .ok program) :
    program.Minimum fun _ => 0 := by
  have hpull (i : Nat) :
      (q.reference.elim 0 fun r => -2 * (r.1[i]?).getD 0 * (r.2[i]?).getD 0) = 0 := by
    rcases hr : q.reference with _ | r
    · rfl
    · rcases ht : r.2[i]? with _ | target
      · simp only [Option.elim_some, ht, Option.getD_none, mul_zero]
      · simp only [Option.elim_some, ht, Option.getD_some,
          hreference r hr target (List.mem_of_getElem? ht), mul_zero]
  have htarget : q.OnTarget fun _ => 0 :=
    ⟨fun i _ => by rw [hpull, stateAt, mul_zero], fun _ _ => mul_zero _, fun _ _ => rfl, hfinal,
      hslope⟩
  exact htarget.minimum hq hkind hweighted (h.hold hq) hprogram

end KnotProblem

/-! The convex plan and the fits -/

namespace KnotProblem

variable {q : KnotProblem R}

/-- Without a target for the last knot, a single reference weight adds to that of
    the value at every knot. -/
theorem pSquare_uniform {w : R} {targets : List R} (hfinal : q.finalReference = none)
    (hreference : q.reference = some (List.replicate q.knots w, targets)) {i : Nat}
    (hi : i < q.knots) : q.pSquare i = q.pWeight + w := by
  simp only [pSquare, withFinal, hfinal, hreference, Option.elim_some, List.getElem?_replicate,
    if_pos hi, Option.getD_some]

/-- Without a target for the last knot or for the first derivative, any one
    positive weight is enough. -/
theorem decided_of_weight (hfinal : q.finalReference = none) (hslope : q.slopeReference = none)
    (hsome : (∀ i, i < q.knots → 0 < q.pSquare i) ∨ 0 < q.vWeight ∨ 0 < q.aWeight ∨
      0 < q.jerkWeight) : q.Decided := by
  rcases hsome with hp | hv | ha | hj
  · exact .inr fun i _ hi => .inl (hp i hi)
  · refine .inr fun i _ _ => .inr (.inl ?_)
    simp only [vSquare, withFinal, hfinal, hslope, Option.elim_none]
    exact hv
  · refine .inr fun i _ _ => .inr (.inr ?_)
    simp only [aSquare, withFinal, hfinal]
    exact ha
  · exact .inl hj

end KnotProblem

/-- A convex plan weighs enough when it weighs acceleration, jerk, or the
    distance to rough motion that is there. -/
theorem ConvexAims.decided {rough : SpeedSeries R} {p : PlanSettings R} {q : KnotProblem R}
    (hq : ConvexAims rough p q) (hsome : 0 < p.accelerationWeight ∨ 0 < p.jerkWeight ∨
      2 ≤ rough.samples.length ∧ 0 < p.referenceWeight) : q.Decided := by
  have hweights := hq.weights
  simp only [List.cons.injEq, and_true] at hweights
  rcases hweights with ⟨hp, _, ha, hj⟩
  refine KnotProblem.decided_of_weight hq.final hq.slope ?_
  rcases hsome with hacceleration | hjerk | ⟨hrough, hreference⟩
  · exact .inr (.inr (.inl (ha ▸ hacceleration)))
  · exact .inr (.inr (.inr (hj ▸ hjerk)))
  · rcases hq.followed hrough with ⟨targets, hfollowed⟩
    refine .inl fun i hi => ?_
    rw [KnotProblem.pSquare_uniform hq.final hfollowed hi, hp, zero_add]
    exact hreference

/-- A fit weighs enough when it weighs anything. -/
theorem FitFor.decided {samples : List R} {f : FitSettings R} {q : KnotProblem R}
    (hq : FitFor samples f q)
    (hsigns : ∀ w ∈ [f.xWeight, f.dxWeight, f.ddxWeight, f.dddxWeight, f.referenceWeight], 0 ≤ w)
    (hsome : ∃ w ∈ [f.xWeight, f.dxWeight, f.ddxWeight, f.dddxWeight, f.referenceWeight], 0 < w) :
    q.Decided := by
  have hweights := hq.weights
  simp only [List.forall_mem_cons] at hsigns
  simp only [List.cons.injEq, and_true] at hweights
  simp only [List.exists_mem_cons_iff] at hsome
  rcases hsigns with ⟨hx, _, _, _, href, _⟩
  rcases hweights with ⟨hp, hv, ha, hj⟩
  -- The values are weighed in two ways, which add up.
  have hvalue (i : Nat) (hi : i < q.knots) : q.pSquare i = f.xWeight + f.referenceWeight := by
    rw [KnotProblem.pSquare_uniform hq.final hq.reference hi, hp]
  refine KnotProblem.decided_of_weight hq.final hq.slope ?_
  rcases hsome with hpos | hpos | hpos | hpos | hpos | ⟨_, hnone, _⟩
  · exact .inl fun i hi => hvalue i hi ▸ add_pos_of_pos_of_nonneg hpos href
  · exact .inr (.inl (hv ▸ hpos))
  · exact .inr (.inr (.inl (ha ▸ hpos)))
  · exact .inr (.inr (.inr (hj ▸ hpos)))
  · exact .inl fun i hi => hvalue i hi ▸ add_pos_of_nonneg_of_pos hx hpos
  · exact absurd hnone List.not_mem_nil

/-- A curve through samples is rebuilt from an accepted answer. -/
theorem fitCurve_ok {solve : ConvexSolver R} {samples : List R} {start : Motion R}
    {f : FitSettings R} {name : String} {c : JerkCurve R}
    (hc : (fitCurve solve samples start f name).result = .ok c) :
    ∃ q answer, fitProblem samples start f = .ok q ∧ solve f.budget q = .ok answer ∧
      answer.status.accepted = true ∧ rebuild f.spacing answer.profile = .ok c := by
  unfold fitCurve at hc
  rcases Outcome.ite_fail_ok hc with ⟨_, hc⟩
  rcases Outcome.bind_ok_iff.mp hc with ⟨q, hq, hc⟩
  rcases Outcome.bind_ok_iff.mp hc with ⟨answer, hanswer, hc⟩
  by_cases haccepted : answer.status.accepted = true
  · rw [if_pos haccepted] at hc
    exact ⟨q, answer, hq, KnotProblem.optimize_ok hanswer, haccepted, hc⟩
  · rw [if_neg haccepted, Outcome.result_complain] at hc
    exact absurd hc (by simp only [reduceCtorEq, not_false_eq_true])

/-- The convex plan has at most one minimum when it weighs acceleration, jerk, or
    the distance to two samples or more of rough motion, and a fit has at most
    one when it weighs anything. So accurate solvers plan the same profile and
    fit the same curve. -/
theorem plan_and_fit_unique :
    (∀ (h : Horizon R) (rough : SpeedSeries R) (p : PlanSettings R), 2 ≤ h.knots → 0 < h.step →
      h.corridor.hard.length = h.knots.toNat →
      0 ≤ p.accelerationWeight → 0 ≤ p.jerkWeight → 0 ≤ p.referenceWeight →
      (0 < p.accelerationWeight ∨ 0 < p.jerkWeight ∨
        2 ≤ rough.samples.length ∧ 0 < p.referenceWeight) →
      ∃ q, (convexProblem h rough p).result = .ok q ∧ q.Unambiguous ∧
        ∀ solve solve' : ConvexSolver R, solve.Accurate → solve'.Accurate → ∀ k k',
          (planConvex solve h rough p).result = .ok k →
            (planConvex solve' h rough p).result = .ok k' → k = k') ∧
    (∀ (samples : List R) (start : Motion R) (f : FitSettings R), 2 ≤ samples.length →
      0 < f.spacing →
      (∀ w ∈ [f.xWeight, f.dxWeight, f.ddxWeight, f.dddxWeight, f.referenceWeight], 0 ≤ w) →
      (∃ w ∈ [f.xWeight, f.dxWeight, f.ddxWeight, f.dddxWeight, f.referenceWeight], 0 < w) →
      ∃ q, fitProblem samples start f = .ok q ∧ q.Unambiguous ∧
        ∀ solve solve' : ConvexSolver R, solve.Accurate → solve'.Accurate → ∀ name name' c c',
          (fitCurve solve samples start f name).result = .ok c →
            (fitCurve solve' samples start f name').result = .ok c' → c = c') := by
  constructor
  · intro h rough p hknots hstep hlength hacceleration hjerk hreference hsome
    rcases convexProblem_total hknots hstep hlength rough p with ⟨q, hq⟩
    have hfor := convexProblem_for hq
    have haims := convexProblem_aims hq
    have hone := KnotProblem.unambiguous hfor.wellFormed haims.kind_ne
      (haims.weighted hacceleration hjerk hreference) (haims.decided hsome)
    refine ⟨q, hq, hone, fun solve solve' hsolve hsolve' k k' hk hk' => ?_⟩
    rcases planConvex_ok hk with ⟨q₁, answer, hq₁, hanswer, haccepted, rfl⟩
    rcases planConvex_ok hk' with ⟨q₂, answer', hq₂, hanswer', haccepted', rfl⟩
    -- Both solvers were asked about the same problem.
    rw [hq, Except.ok.injEq] at hq₁ hq₂
    subst hq₁ hq₂
    exact hsolve.profile_eq hsolve' hone hanswer hanswer' haccepted haccepted'
  · intro samples start f hsamples hspacing hsigns hsome
    rcases fitProblem_total start hsamples hspacing with ⟨q, hq⟩
    have hfor := fitProblem_for hq
    have hshape := hfor.wellFormed (by rw [fitProblem_start hq]; rfl)
    have hone := KnotProblem.unambiguous hshape hfor.kind_ne (hfor.weighted hsigns)
      (hfor.decided hsigns hsome)
    refine ⟨q, hq, hone, fun solve solve' hsolve hsolve' name name' c c' hc hc' => ?_⟩
    rcases fitCurve_ok hc with ⟨q₁, answer, hq₁, hanswer, haccepted, hcurve⟩
    rcases fitCurve_ok hc' with ⟨q₂, answer', hq₂, hanswer', haccepted', hcurve'⟩
    rw [hq, Except.ok.injEq] at hq₁ hq₂
    subst hq₁ hq₂
    rw [hsolve.profile_eq hsolve' hone hanswer hanswer' haccepted haccepted', hcurve',
      Except.ok.injEq] at hcurve
    exact hcurve.symm

/-! Nowhere to go -/

/-- A problem has a minimum, which is the point where everything is zero. -/
def KnotProblem.OnlyRests (q : KnotProblem R) : Prop :=
  ∃ program, q.program = .ok program ∧ program.Minimum (fun _ => 0) ∧
    ∀ z, program.Minimum z → ∀ j, j < 3 * q.knots → z j = 0

theorem KnotProblem.Unambiguous.onlyRests {q : KnotProblem R} (hq : q.Unambiguous)
    (hrest : ∀ program, q.program = .ok program → program.Minimum fun _ => 0) : q.OnlyRests := by
  rcases hq with ⟨program, hprogram, hunique⟩
  have hminimum := hrest program hprogram
  exact ⟨program, hprogram, hminimum, fun z hz => hunique z _ hz hminimum⟩

/-- A fit that starts at rest admits rest when its ranges do. -/
theorem FitFor.admitsRest {samples : List R} {f : FitSettings R} {q : KnotProblem R}
    (hq : FitFor samples f q) (hstart : q.start = [0, 0, 0])
    (hranges : ∀ b ∈ [f.xRange, f.dxRange, f.ddxRange, f.dddxRange], b.1 ≤ 0 ∧ 0 ≤ b.2) :
    q.AdmitsRest := by
  simp only [List.forall_mem_cons] at hranges
  rcases hranges with ⟨hx, hdx, hddx, hdddx, _⟩
  refine ⟨?_, ?_, ?_, ?_, hstart⟩
  · rw [hq.pBounds]
    exact List.forall_mem_replicate.mpr (.inr hx)
  · rw [hq.vBounds]
    exact List.forall_mem_replicate.mpr (.inr hdx)
  · rw [hq.aBounds]
    exact List.forall_mem_replicate.mpr (.inr hddx)
  · rw [hq.jerkBounds]
    exact hdddx

/-- A standing vehicle and two knots a second apart. -/
def standstill : Horizon Rat where
  place := 0
  speed := 0
  acceleration := 0
  step := 1
  knots := 2
  length := 10
  time := 1
  legalSpeed := 5
  topSpeed := 5
  minAcceleration := -6
  maxAcceleration := 2
  minJerk := -4
  maxJerk := 2
  corridor := ⟨[(0, 10), (0, 10)], []⟩
  cruiseSpeed := 5

/-- Without rough motion to follow, the best plan of a standing vehicle is to
    stay, and the best curve through two zeros is zero. Both are the only
    ones. -/
theorem plan_and_fit_unique_standstill :
    (∃ q, (convexProblem standstill ⟨[]⟩ .usual).result = .ok q ∧ q.OnlyRests) ∧
      ∃ q, fitProblem [0, 0] ⟨0, 0, 0⟩ (.curvature : FitSettings Rat) = .ok q ∧ q.OnlyRests := by
  constructor
  · have hsound := (PlanSettings.checked_iff _).mp (PlanSettings.usual_checked (R := Rat))
    have hweights := hsound.weights
    simp only [List.forall_mem_cons] at hweights
    rcases hweights with ⟨hacceleration, hjerk, _, _, _, hreference, _⟩
    rcases plan_and_fit_unique.1 standstill ⟨[]⟩ .usual le_rfl one_pos rfl hacceleration hjerk
      hreference (.inl (by decide +kernel)) with ⟨q, hq, hone, _⟩
    have hfor := convexProblem_for hq
    have haims := convexProblem_aims hq
    have hadmits := hfor.admitsRest ⟨by decide +kernel, by decide +kernel⟩ (by decide +kernel) rfl
    refine ⟨q, hq, hone.onlyRests fun program => ?_⟩
    refine hadmits.minimum hfor.wellFormed haims.kind_ne
      (haims.weighted hacceleration hjerk hreference) haims.final haims.slope fun r hr => ?_
    exact absurd ((haims.free Nat.two_pos).symm.trans hr)
      (by simp only [reduceCtorEq, not_false_eq_true])
  · have hsound : (FitSettings.curvature : FitSettings Rat).Sound := FitSettings.curvature_sound
    rcases plan_and_fit_unique.2 [0, 0] ⟨0, 0, 0⟩ .curvature le_rfl hsound.spacing_pos
      hsound.weights ⟨_, List.mem_cons_of_mem _ List.mem_cons_self, by decide +kernel⟩ with
      ⟨q, hq, hone, _⟩
    have hfor := fitProblem_for hq
    have hstart := fitProblem_start hq
    have hadmits := hfor.admitsRest hstart (by decide +kernel)
    refine ⟨q, hq, hone.onlyRests fun program => ?_⟩
    refine hadmits.minimum (hfor.wellFormed (by rw [hstart]; rfl)) hfor.kind_ne
      (hfor.weighted hsound.weights) hfor.final hfor.slope fun r hr => ?_
    rw [hfor.reference, Option.some.injEq] at hr
    rw [← hr]
    simp only [List.forall_mem_cons, List.not_mem_nil, false_implies, implies_true, and_true]

end JerkPlan
