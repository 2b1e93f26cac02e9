import JerkPlan.Proofs.Arranging
import JerkPlan.Proofs.CycleCompletes
import JerkPlan.Proofs.SteadyPlans

/-!
# Constant fits

A fit through samples that do not change is the constant.

Staying at the value of the samples is steady motion without a slope, and the
targets of a fit are its samples. So it is the only minimum as soon as the
distance to the samples is weighed and the value itself is not, and it is what
any solver of minima answers with.

The curve is rebuilt from second derivatives that are zero. Its knots all have
the same state, so every segment begins in that state, and the jerk of a segment
is what would change its second derivative. A curve whose segments all stay at
one value evaluates to it everywhere, since its first and last segments go on
beyond its ends.

A speed limit that is the same at all of its points is the same everywhere, and
its samples are too.

## Main definitions

* `KnotProfile.level`: Staying at one value.
* `JerkCurve.Flat`: A curve all of whose segments stay at one value.
* `SpeedLimit.Level`: A limit that is the same at all of its points.

## Theorems

* `FitFor.admitsSteady`: A fit has room for the constant.
* `JerkCurve.Flat.eval`: A flat curve has one value everywhere.
* `JerkCurve.Even.flat`, `rebuild_level`: The curve rebuilt from a level
  profile.
* `fitCurve_of_answer`: A fit is rebuilt from an accepted answer.
* `SpeedLimit.level_constant`, `SpeedLimit.Level.limitAt`,
  `fitSpeedLimit_level`: A limit that does not change has samples that do not.
* `fit_constant`: The fit through samples that do not change.
-/

namespace JerkPlan

variable {R : Type} [ExactScalar R]

/-! The problem -/

/-- Staying at one value over a number of knots. -/
def KnotProfile.level (n : Nat) (c : R) : KnotProfile R :=
  ⟨List.replicate n c, List.replicate n 0, List.replicate n 0⟩

theorem steady_zero (n : Nat) (step c : R) :
    KnotProfile.steady n step c 0 = KnotProfile.level n c := by
  simp only [KnotProfile.steady, KnotProfile.level, zero_mul, add_zero, List.map_const',
    List.length_range]

theorem shaped_level (n : Nat) (c : R) : (KnotProfile.level n c).Shaped n :=
  ⟨List.length_replicate, List.length_replicate, List.length_replicate⟩

/-- A fit that starts at rest has room to stay where it starts. -/
theorem FitFor.admitsSteady {samples : List R} {f : FitSettings R} {q : KnotProblem R}
    (hq : FitFor samples f q) {c : R} (hstart : q.start = [c, 0, 0]) (hc : |c| ≤ Endpoint.huge)
    (hx : f.xRange.1 ≤ c ∧ c ≤ f.xRange.2)
    (hranges : ∀ b ∈ [f.dxRange, f.ddxRange, f.dddxRange], b.1 ≤ 0 ∧ 0 ≤ b.2) :
    q.AdmitsSteady c 0 := by
  simp only [List.forall_mem_cons] at hranges
  rcases hranges with ⟨hdx, hddx, hdddx, _⟩
  refine ⟨fun i b hb => ?_, ?_, ?_, ?_, hstart, ?_, fun i _ => ?_⟩
  · rw [hq.pBounds] at hb
    rw [zero_mul, add_zero, List.eq_of_mem_replicate (List.mem_of_getElem? hb)]
    exact hx
  · rw [hq.vBounds]
    exact List.forall_mem_replicate.mpr (.inr hdx)
  · rw [hq.aBounds]
    exact List.forall_mem_replicate.mpr (.inr hddx)
  · rw [hq.jerkBounds]
    exact hdddx
  · rw [abs_zero]
    exact Endpoint.huge_pos.le
  · rw [zero_mul, add_zero]
    exact hc

/-! The curve -/

namespace JerkCurve

/-- A curve starts at rest at a value, and every segment stays there. -/
structure Flat (c : R) (k : JerkCurve R) : Prop where
  start : k.start = ⟨c, 0, 0⟩
  segments : ∀ g ∈ k.segments, g.p = c ∧ g.v = 0 ∧ g.a = 0 ∧ g.jerk = 0

/-- A flat curve has its value everywhere and no derivatives, inside its domain
    and outside. -/
theorem Flat.eval {c : R} {k : JerkCurve R} (h : k.Flat c) (order : Int) (x : R) :
    k.eval order x = if order = 0 then c else 0 := by
  unfold JerkCurve.eval
  simp only
  rcases hg : k.segments[min (lowerIndex k.breaks x) (k.segments.length - 1)]? with _ | g
  · simp only [h.start]
    split
    · exact (if_pos rfl).symm
    · exact (if_neg one_ne_zero).symm
    · exact (if_neg two_ne_zero).symm
    · next hvalue _ _ => exact (if_neg hvalue).symm
  · rcases h.segments g (List.mem_of_getElem? hg) with ⟨hp, hv, ha, hjerk⟩
    simp only [JerkSegment.eval, hp, hv, ha, hjerk, zero_mul, mul_zero, zero_div, add_zero]
    split
    · exact (if_pos rfl).symm
    · exact (if_neg one_ne_zero).symm
    · exact (if_neg two_ne_zero).symm
    · exact (if_neg three_ne_zero).symm
    · next hvalue _ _ _ => exact (if_neg hvalue).symm

/-- An even curve is flat when its knots all have one value and no
    derivatives: jerk on a segment would show at the end of it. -/
theorem Even.flat {step c : R} {k : JerkCurve R} (h : k.Even step) (hstep : 0 < step)
    (hknots : ∀ i, i ≤ k.segments.length → k.knot i = ⟨c, 0, 0⟩) : k.Flat c := by
  refine ⟨hknots 0 (Nat.zero_le _), fun g hg => ?_⟩
  rcases List.mem_iff_getElem?.mp hg with ⟨i, hi⟩
  have hbound := (List.getElem?_eq_some_iff.mp hi).1
  have hbegin := h.joins i g hi
  rw [hknots i hbound.le, Motion.mk.injEq] at hbegin
  rcases hbegin with ⟨hp, hv, ha⟩
  have hend := hknots (i + 1) hbound
  -- The end of the segment has no second derivative either, so there is no jerk.
  rw [knot, hi, Option.elim_some, JerkSegment.finish, Motion.mk.injEq] at hend
  have hbend := hend.2.2
  simp only [JerkSegment.eval, ha, zero_add, h.lengths i g hi] at hbend
  refine ⟨hp, hv, ha, ?_⟩
  exact (mul_eq_zero.mp hbend).resolve_right hstep.ne'

end JerkCurve

/-- The curve rebuilt from a level profile is flat, knot by knot. -/
theorem rebuild_level {n : Nat} (hn : 0 < n) {step : R} (hstep : 0 < step) (c : R) :
    ∃ k, rebuild step (.level n c) = .ok k ∧ k.Flat c := by
  have hstate (i : Nat) (hi : i < n) :
      stateAt n (KnotProfile.level n c).point i = ⟨c, 0, 0⟩ := by
    rw [← steady_zero n step, stateAt_steady hi, zero_mul, add_zero]
  have hlinked : Motion.Linked step ⟨c, 0, 0⟩ ⟨c, 0, 0⟩ := by
    have hlinked := linked_steady step c 0 0
    simp only [zero_mul, add_zero] at hlinked
    exact hlinked
  rcases rebuild_even hstep hn (shaped_level n c) with ⟨k, hk, heven, hlength, hfirst, hnext⟩
  -- Each knot follows from the one before it, by the states of the profile.
  refine ⟨k, hk, heven.flat hstep fun i hi => ?_⟩
  induction i with
  | zero => rw [hfirst, hstate 0 hn]
  | succ i ih =>
      rw [hnext i (by omega), ih (by omega), hstate i (by omega), hstate (i + 1) (by omega)]
      exact (Motion.advance_eq_iff hstep _ _).mpr hlinked

/-! The fit -/

/-- A fit whose solver answers with an accepted profile is rebuilt from it. -/
theorem fitCurve_of_answer {solve : ConvexSolver R} {samples : List R} {start : Motion R}
    {f : FitSettings R} (name : String) {q : KnotProblem R} {answer : ConvexAnswer R}
    (hsamples : 2 ≤ samples.length) (hq : fitProblem samples start f = .ok q)
    (hanswer : solve f.budget q = .ok answer) (haccepted : answer.status.accepted = true)
    {c : JerkCurve R} (hc : rebuild f.spacing answer.profile = .ok c) :
    (fitCurve solve samples start f name).result = .ok c := by
  have hfor := fitProblem_for hq
  have hasked : (q.optimize solve f.budget).result = .ok answer := by
    refine Outcome.bind_ok_iff.mpr ⟨_, KnotProblem.program_eq hfor.kind_ne hfor.step_pos, ?_⟩
    simp only [hanswer, haccepted, if_true, Outcome.result_pure]
  unfold fitCurve
  rw [if_neg (Nat.not_lt.mpr hsamples)]
  refine Outcome.bind_ok_iff.mpr ⟨q, hq, Outcome.bind_ok_iff.mpr ⟨answer, hasked, ?_⟩⟩
  rw [if_pos haccepted, Outcome.result_of]
  exact hc

namespace SpeedLimit

/-- A limit that is the same at all of its points, of which there are two. -/
structure Level (c : R) (l : SpeedLimit R) : Prop where
  two : 2 ≤ l.points.length
  same : ∀ p ∈ l.points, p.2 = c

/-- A constant limit can be made for any length and every spacing but none, and
    is the same at all of its points. -/
theorem level_constant (c length : R) {spacing : R} (hspacing : spacing ≠ 0) :
    ∃ l, constant c length spacing = .ok l ∧ l.Level c := by
  have hcount : ∃ n, countOf (length / spacing) = .ok n := by
    rcases le_total 0 (length / spacing) with h | h
    · rcases truncate_of_nonneg h with ⟨n, hn, _⟩
      exact ⟨n, by rw [countOf, hn]⟩
    · rcases truncate_of_nonpos h with ⟨n, hn, _⟩
      exact ⟨n, by rw [countOf, hn]⟩
  rcases hcount with ⟨n, hn⟩
  refine ⟨_, by rw [constant, same_eq_false hspacing, hn]; rfl, ?_, fun p hp => ?_⟩
  · rw [ofList, (arrange_perm _).length_eq, List.length_map, List.length_range]
    omega
  · rw [ofList, (arrange_perm _).mem_iff, List.mem_map] at hp
    rcases hp with ⟨i, _, rfl⟩
    rfl

/-- A limit that is the same at all of its points is the same everywhere. -/
theorem Level.limitAt {c : R} {l : SpeedLimit R} (h : l.Level c) (s : R) :
    l.limitAt s = .ok c := by
  rcases l.limitAt_total h.two s with ⟨v, hv⟩
  rw [hv]
  unfold SpeedLimit.limitAt at hv
  rw [if_neg (Nat.not_lt.mpr h.two)] at hv
  -- Whichever point decides, it is one of them.
  split at hv
  · next hp => rw [← Except.ok.inj hv, h.same _ (List.mem_of_getElem? hp)]
  · next hlast => rw [← Except.ok.inj hv, h.same _ (List.mem_of_getLast? hlast)]
  · exact absurd hv (by simp only [reduceCtorEq, not_false_eq_true])

end SpeedLimit

/-- The fit of a limit that does not change is one through samples that do not
    change. -/
theorem fitSpeedLimit_level {solve : ConvexSolver R} {limit : SpeedLimit R} {c : R}
    (hlimit : limit.Level c) {f : FitSettings R} {n : Nat} (hn : 0 < n)
    (hcount : (if 0 < f.samples then f.samples.toNat else 100) = n) :
    (fitSpeedLimit solve limit f).result =
      (fitCurve solve (List.replicate n c) ⟨c, 0, 0⟩ f "speed limit").result := by
  have hsame : (fun (i : Nat) => limit.limitAt ((i : R) * f.spacing)) = fun _ => .ok c :=
    funext fun i => hlimit.limitAt _
  have hsamples : (List.range n).mapM (fun (i : Nat) => limit.limitAt ((i : R) * f.spacing)) =
      .ok (List.replicate n c) := by
    rw [hsame]
    exact (List.mapM_pure).trans (by rw [List.map_const', List.length_range]; rfl)
  unfold fitSpeedLimit
  simp only [hcount]
  rw [if_neg (Nat.not_lt.mpr hlimit.two), hsamples]
  rcases n with _ | n
  · exact absurd hn (Nat.lt_irrefl 0)
  · rfl

/-- The fit through samples that do not change, from rest: the constant is
    feasible and the only minimum, if the ranges leave room for it and nothing
    but the distance to the samples is weighed of the value. With a solver whose
    answer is a minimum, the curve has the value of the samples everywhere and
    no derivatives, and so has the fit of a speed limit that does not change, in
    particular of a constant one. -/
theorem fit_constant {n : Nat} (hn : 2 ≤ n) {f : FitSettings R} (hspacing : 0 < f.spacing) {c : R}
    (hc : |c| ≤ Endpoint.huge) (hx : f.xRange.1 ≤ c ∧ c ≤ f.xRange.2)
    (hranges : ∀ b ∈ [f.dxRange, f.ddxRange, f.dddxRange], b.1 ≤ 0 ∧ 0 ≤ b.2)
    (hfree : f.xWeight = 0) (hsigns : ∀ w ∈ [f.dxWeight, f.ddxWeight, f.dddxWeight], 0 ≤ w)
    (hreference : 0 < f.referenceWeight) :
    ∃ q, fitProblem (List.replicate n c) ⟨c, 0, 0⟩ f = .ok q ∧ q.Feasible (.level n c) ∧
      q.OnlyMinimum (KnotProfile.level n c).point ∧
      (∀ (solve : ConvexSolver R) answer, solve f.budget q = .ok answer →
        answer.status.accepted = true → answer.profile.Shaped n →
        (∀ program, q.program = .ok program → program.Minimum answer.profile.point) →
          (∀ name, ∃ curve,
            (fitCurve solve (List.replicate n c) ⟨c, 0, 0⟩ f name).result = .ok curve ∧
              ∀ order x, curve.eval order x = if order = 0 then c else 0) ∧
          ((if 0 < f.samples then f.samples.toNat else 100) = n → ∀ limit : SpeedLimit R,
            limit.Level c → ∃ curve, (fitSpeedLimit solve limit f).result = .ok curve ∧
              ∀ order x, curve.eval order x = if order = 0 then c else 0)) ∧
      ∀ length spacing : R, spacing ≠ 0 →
        ∃ limit, SpeedLimit.constant c length spacing = .ok limit ∧ limit.Level c := by
  have hlength : (List.replicate n c).length = n := List.length_replicate
  rcases fitProblem_total (⟨c, 0, 0⟩ : Motion R) (hlength.symm ▸ hn) hspacing with ⟨q, hq⟩
  have hfor := fitProblem_for hq
  have hstart := fitProblem_start hq
  have hknots : q.knots = n := hfor.knots.trans hlength
  have hshape := hfor.wellFormed (by rw [hstart]; rfl)
  have hweights := hfor.weights
  simp only [List.cons.injEq, and_true] at hweights
  have hall : ∀ w ∈ [f.xWeight, f.dxWeight, f.ddxWeight, f.dddxWeight, f.referenceWeight],
      0 ≤ w := by
    simp only [List.forall_mem_cons] at hsigns ⊢
    exact ⟨hfree.ge, hsigns.1, hsigns.2.1, hsigns.2.2.1, hreference.le, hsigns.2.2.2⟩
  have hadmits := hfor.admitsSteady hstart hc hx hranges
  -- The value has no weight of its own, so its only targets are the samples.
  have htarget : q.OnTarget (KnotProfile.steady q.knots q.step c 0).point := by
    refine KnotProblem.onTarget_steady (hweights.1.trans hfree) (mul_zero _) hfor.final hfor.slope
      hfor.reference fun i hi => ?_
    rw [List.getElem?_replicate, if_pos (hknots ▸ hi), zero_mul, add_zero]
  have hkept := hadmits.hold hshape
  have honly := hadmits.onlyMinimum hshape hfor.kind_ne (hfor.weighted hall)
    (hfor.decided hall ⟨f.referenceWeight, by simp only [List.mem_cons, true_or, or_true],
      hreference⟩) htarget
  rw [steady_zero, hknots] at hkept honly
  rcases rebuild_level (by omega : 0 < n) hspacing c with ⟨curve, hcurve, hflat⟩
  refine ⟨q, hq, hkept, honly, fun solve answer hanswer haccepted hshaped hminimum => ?_,
    fun length _ => SpeedLimit.level_constant c length⟩
  -- The answer is the one minimum, and its curve is flat.
  have hprofile :=
    honly.profile_eq (hknots.symm ▸ shaped_level n c) (hknots.symm ▸ hshaped) hminimum
  rw [← hprofile] at hcurve
  have hfit (name : String) :=
    fitCurve_of_answer name (hlength.symm ▸ hn) hq hanswer haccepted hcurve
  refine ⟨fun name => ⟨curve, hfit name, hflat.eval⟩, fun hcount limit hlimit => ?_⟩
  refine ⟨curve, ?_, hflat.eval⟩
  rw [fitSpeedLimit_level hlimit (by omega) hcount]
  exact hfit _

/-- The usual fit of one limit over a stretch of road, with a solver that stays
    at the value it starts from. -/
theorem fit_constant_stretch :
    ∃ q, fitProblem (List.replicate 100 (20 : Rat)) ⟨20, 0, 0⟩ .speedLimit = .ok q ∧
      q.OnlyMinimum (KnotProfile.level 100 20).point ∧
      ∃ limit curve, SpeedLimit.constant (20 : Rat) 250 1 = .ok limit ∧
        (fitSpeedLimit .level limit .speedLimit).result = .ok curve ∧
          ∀ order x, curve.eval order x = if order = 0 then 20 else 0 := by
  rcases fit_constant (show 2 ≤ 100 by decide) (f := .speedLimit) (by decide +kernel)
    (c := (20 : Rat)) (by decide +kernel) (by decide +kernel) (by decide +kernel)
    (by decide +kernel) (by decide +kernel) (by decide +kernel) with
    ⟨q, hq, _, honly, hfit, hconstant⟩
  have hknots : q.knots = 100 := (fitProblem_for hq).knots.trans List.length_replicate
  have hstart := fitProblem_start hq
  -- The answer stays at the start, which is the minimum.
  have hanswer : ConvexSolver.level (FitSettings.speedLimit : FitSettings Rat).budget q =
      .ok ⟨.solved, 0, .level 100 20⟩ := by
    rw [ConvexSolver.level, if_neg (by decide), hknots, hstart]
    rfl
  have hminimum : ∀ program, q.program = .ok program →
      program.Minimum (KnotProfile.level 100 (20 : Rat)).point := by
    intro program hprogram
    rcases honly with ⟨program', hprogram', hminimum, _⟩
    rw [hprogram, Except.ok.injEq] at hprogram'
    exact hprogram' ▸ hminimum
  rcases hconstant 250 1 one_ne_zero with ⟨limit, hlimit, hlevel⟩
  rcases (hfit .level _ hanswer rfl (shaped_level 100 20) hminimum).2 rfl limit hlevel with
    ⟨curve, hcurve, heval⟩
  exact ⟨q, hq, honly, limit, curve, hlimit, hcurve, heval⟩

end JerkPlan
