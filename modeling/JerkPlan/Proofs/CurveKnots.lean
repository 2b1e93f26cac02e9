import JerkPlan.Proofs.KnotRows
import JerkPlan.Proofs.JoinedCurves
import JerkPlan.CurveFit

/-!
# Knots of a curve

The curve rebuilt from knots goes through them.

A fit keeps the second derivatives of the solver's answer and integrates the
rest anew. Whether the curve then has the values and slopes of the answer at
the knots is not visible in either place: the rows of a problem have the
coefficients `1 / 2`, `1 / 3` and `1 / 6`, and the curve has its own closed
forms and a search for the segment that a parameter lies on.

`Motion.advance` is the closed form over one step, and `advance_eq_iff` says
that it leads to a state exactly when the two rows of the step hold. A curve
whose segments are all of one length and begin where the one before ends is
`JerkCurve.Even`. Such a curve is joined, and its segments end at the multiples
of the step, so `Even.motionAt_knot` finds there the state in which a segment
ends. Rebuilding keeps the curve even, segment by segment.

## Main definitions

* `Motion.advance`: Where constant jerk leads.
* `JerkCurve.Even`: Segments of one length that join.

## Theorems

* `Motion.advance_eq_iff`: The rows of a step are one step of the curve.
* `JerkCurve.reach_eq_mul`: Where segments of one length end.
* `JerkCurve.Even.joined`, `JerkCurve.Joined.even`: Even curves among the joined ones.
* `JerkCurve.Even.motionAt_knot`: A curve passes its knots.
* `JerkCurve.Even.append`: One more segment keeps the curve even.
* `extendBy_even`: Rebuilding adds one step for each second derivative.
* `rebuild_even`: The knots of a rebuilt curve.
* `rebuild_through_iff`: The rows of all steps say that the rebuilt curve goes
  through the knots.
-/

namespace JerkPlan

variable {R : Type} [ExactScalar R]

/-- The state that constant jerk leads to over a step. -/
def Motion.advance (step jerk : R) (m : Motion R) : Motion R :=
  (JerkSegment.mk m.p m.v m.a jerk step).finish

/-- Constant jerk that changes the second derivative as it should leads from
    one state to another exactly when the two are linked. -/
theorem Motion.advance_eq_iff {step : R} (hstep : 0 < step) (m m' : Motion R) :
    m.advance step ((m'.a - m.a) / step) = m' ↔ m.Linked step m' := by
  have hne : step ≠ 0 := hstep.ne'
  -- The second derivative always arrives; value and slope do by the rows.
  have hp : (m.advance step ((m'.a - m.a) / step)).p =
      m.p + (step * m.v + step ^ 2 / 3 * m.a + step ^ 2 / 6 * m'.a) := by
    simp only [advance, JerkSegment.finish, JerkSegment.eval, half_eq, Nat.cast_ofNat]
    field_simp
    ring
  have hv : (m.advance step ((m'.a - m.a) / step)).v = m.v + step / 2 * (m.a + m'.a) := by
    simp only [advance, JerkSegment.finish, JerkSegment.eval, half_eq]
    field_simp
    ring
  have ha : (m.advance step ((m'.a - m.a) / step)).a = m'.a := by
    simp only [advance, JerkSegment.finish, JerkSegment.eval]
    field_simp
    ring
  constructor
  · intro h
    rw [h] at hp hv
    exact ⟨by linarith, by linarith⟩
  · intro h
    have hslope := h.slope
    have hvalue := h.value
    rcases hadvance : m.advance step ((m'.a - m.a) / step) with ⟨x, y, w⟩
    rw [hadvance] at hp hv ha
    rcases m' with ⟨x', y', w'⟩
    simp only at hp hv ha hslope hvalue ⊢
    rw [Motion.mk.injEq]
    exact ⟨by linarith, by linarith, ha⟩

namespace JerkCurve

/-- Every segment is a step long and begins where the one before it ends, and
    the breaks are the multiples of the step. -/
structure Even (step : R) (c : JerkCurve R) : Prop where
  length_breaks : c.breaks.length = c.segments.length
  breaks : ∀ (i : Nat) (x : R), c.breaks[i]? = some x → x = ((i + 1 : Nat) : R) * step
  lengths : ∀ (i : Nat) (g : JerkSegment R), c.segments[i]? = some g → g.length = step
  joins : ∀ (i : Nat) (g : JerkSegment R), c.segments[i]? = some g → ⟨g.p, g.v, g.a⟩ = c.knot i

theorem even_ofStart (step : R) (m : Motion R) : (ofStart m).Even step := by
  constructor
  · rfl
  · intro i x h
    exact absurd h (by simp [ofStart])
  · intro i g h
    exact absurd h (by simp [ofStart])
  · intro i g h
    exact absurd h (by simp [ofStart])

theorem Even.break_eq {step : R} {c : JerkCurve R} (h : c.Even step) {i : Nat}
    (hi : i < c.segments.length) : c.breaks[i]? = some (((i + 1 : Nat) : R) * step) := by
  have hlt : i < c.breaks.length := by rw [h.length_breaks]; exact hi
  have hget : c.breaks[i]? = some c.breaks[i] := List.getElem?_eq_getElem hlt
  rw [hget, h.breaks i _ hget]

/-- Segments of one length end at its multiples. -/
theorem reach_eq_mul {step : R} {c : JerkCurve R}
    (h : ∀ (i : Nat) (g : JerkSegment R), c.segments[i]? = some g → g.length = step) {i : Nat}
    (hi : i ≤ c.segments.length) : c.reach i = (i : R) * step := by
  induction i with
  | zero => rw [reach_zero, Nat.cast_zero, zero_mul]
  | succ i ih =>
      have hget : c.segments[i]? = some c.segments[i] := List.getElem?_eq_getElem hi
      rw [reach_succ hget, ih (by omega), h i _ hget]
      push_cast
      ring

/-- An even curve is joined. -/
theorem Even.joined {step : R} {c : JerkCurve R} (h : c.Even step) (hstep : 0 < step) :
    c.Joined := by
  refine ⟨h.length_breaks, fun i x hx => ?_, fun g hg => ?_, h.joins⟩
  · have hi := (List.getElem?_eq_some_iff.mp hx).1
    rw [h.length_breaks] at hi
    rw [h.breaks i x hx, reach_eq_mul h.lengths hi]
  · rcases List.mem_iff_getElem?.mp hg with ⟨i, hi⟩
    rw [h.lengths i g hi]
    exact hstep

/-- And a joined curve is even if its segments are all of one length. -/
theorem Joined.even {step : R} {c : JerkCurve R} (h : c.Joined)
    (hlengths : ∀ (i : Nat) (g : JerkSegment R), c.segments[i]? = some g → g.length = step) :
    c.Even step := by
  refine ⟨h.length_breaks, fun i x hx => ?_, hlengths, h.joins⟩
  have hi := (List.getElem?_eq_some_iff.mp hx).1
  rw [h.length_breaks] at hi
  rw [h.breaks i x hx, reach_eq_mul hlengths hi]

/-- A curve passes its knots at the multiples of the step. -/
theorem Even.motionAt_knot {step : R} {c : JerkCurve R} (h : c.Even step) (hstep : 0 < step)
    {i : Nat} (hi : i ≤ c.segments.length) : c.motionAt ((i : R) * step) = c.knot i := by
  rcases Nat.eq_zero_or_pos c.segments.length with hnone | hsome
  · -- Without segments there is the start only.
    have hget (j : Nat) : c.segments[j]? = none := List.getElem?_eq_none (by omega)
    have hzero : i = 0 := by omega
    subst hzero
    simp only [motionAt, eval, hget, knot]
  · rw [← reach_eq_mul h.lengths hi]
    exact (h.joined hstep).motionAt_reach hsome hi

/-- One more step keeps a curve even and its knots where they are, and leads
    to one more. -/
theorem Even.append {step : R} {c : JerkCurve R} (h : c.Even step) (hstep : 0 < step) (jerk : R) :
    ∃ d, c.append jerk step = .ok d ∧ d.Even step ∧ d.start = c.start ∧
      d.segments.length = c.segments.length + 1 ∧
      (∀ i ≤ c.segments.length, d.knot i = c.knot i) ∧
      d.knot (c.segments.length + 1) = (c.knot c.segments.length).advance step jerk := by
  refine ⟨c.extend jerk step, ?_, ?_, rfl, length_extend_segments, fun i hi => knot_extend hi, ?_⟩
  · rw [append_eq, if_neg (not_le.mpr hstep)]
  · refine ((h.joined hstep).extend hstep).even fun i g hg => ?_
    rcases extend_getElem? hg with hg | ⟨_, rfl⟩
    · exact h.lengths i g hg
    · rfl
  · -- The new segment begins where the curve ended.
    rw [knot, extend_getElem?_length, Option.elim_some, ← finish_eq_knot]
    rfl

end JerkCurve

/-- Going on with second derivatives keeps a curve even and its knots where
    they are, and every second derivative after the first one leads one step
    further. -/
theorem extendBy_even {step : R} (hstep : 0 < step) (as : List R) :
    ∀ (a : R) (c : JerkCurve R), c.Even step → ∃ d, extendBy step (a :: as) c = .ok d ∧
      d.Even step ∧ d.start = c.start ∧ d.segments.length = c.segments.length + as.length ∧
      (∀ i ≤ c.segments.length, d.knot i = c.knot i) ∧
      ∀ i x y, (a :: as)[i]? = some x → as[i]? = some y →
        d.knot (c.segments.length + i + 1) =
          (d.knot (c.segments.length + i)).advance step ((y - x) / step) := by
  induction as with
  | nil =>
      intro a c hc
      exact ⟨c, rfl, hc, rfl, rfl, fun _ _ => rfl, fun i x y _ hy =>
        absurd hy (by simp only [List.getElem?_nil, reduceCtorEq, not_false_eq_true])⟩
  | cons b as ih =>
      intro a c hc
      rcases hc.append hstep ((b - a) / step) with
        ⟨d, hd, hdeven, hdstart, hdlength, hdknots, hdnew⟩
      rcases ih b d hdeven with ⟨e, he, heven, hestart, helength, heknots, henew⟩
      refine ⟨e, ?_, heven, hestart.trans hdstart, ?_, fun i hi => ?_, fun i x y hx hy => ?_⟩
      · rw [extendBy, hd]
        exact he
      · rw [helength, hdlength, List.length_cons]
        omega
      · rw [heknots i (by omega), hdknots i hi]
      · rcases i with _ | i
        · -- the first step is the segment just added
          rw [List.getElem?_cons_zero, Option.some.injEq] at hx hy
          simp only [Nat.add_zero]
          rw [heknots _ (by omega), heknots _ (by omega), hdnew, hdknots _ (Nat.le_refl _), hx, hy]
        · have hshift : c.segments.length + (i + 1) = d.segments.length + i := by omega
          rw [hshift]
          exact henew i x y hx hy

/-- The knots of a rebuilt curve: the first one is the profile's, and the
    others follow by constant jerk with the profile's second derivatives. -/
theorem rebuild_even {step : R} (hstep : 0 < step) {k : KnotProfile R} {n : Nat} (hn : 0 < n)
    (hk : k.Shaped n) :
    ∃ c, rebuild step k = .ok c ∧ c.Even step ∧ c.segments.length + 1 = n ∧
      c.knot 0 = stateAt n k.point 0 ∧
      ∀ i, i + 1 < n → c.knot (i + 1) = (c.knot i).advance step
        (((stateAt n k.point (i + 1)).a - (stateAt n k.point i).a) / step) := by
  have hget (i : Nat) (hi : i < n) := stateAt_point hk hi
  rcases hk with ⟨hp, hv, ha⟩
  -- With a knot at least, none of the three lists is empty.
  rcases k with ⟨_ | ⟨x, xs⟩, _ | ⟨v, vs⟩, _ | ⟨a, as⟩⟩ <;>
    simp only [List.length_nil, List.length_cons] at hp hv ha <;> try omega
  rcases extendBy_even hstep as a ⟨⟨x, v, a⟩, [], []⟩ (JerkCurve.even_ofStart step ⟨x, v, a⟩) with
    ⟨c, hc, heven, hstart, hlength, _, hnew⟩
  refine ⟨c, hc, heven, ?_, ?_, fun i hi => ?_⟩
  · rw [hlength, List.length_nil, Nat.zero_add, ha]
  · rcases hget 0 hn with ⟨hx, hv, ha⟩
    rw [List.getElem?_cons_zero, Option.some.injEq] at hx hv ha
    rw [JerkCurve.knot, hstart, stateAt, Motion.mk.injEq]
    exact ⟨hx, hv, ha⟩
  · have hstep := hnew i _ _ (hget i (by omega)).2.2 ((List.getElem?_cons_succ).symm.trans
      (hget (i + 1) hi).2.2)
    simp only [List.length_nil, Nat.zero_add] at hstep
    exact hstep

/-- The rows of all steps say that the rebuilt curve goes through the knots:
    at every multiple of the step its value and its derivatives are those of
    the profile. -/
theorem rebuild_through_iff {p : KnotProblem R} (hn : 0 < p.knots) (hstep : 0 < p.step)
    {k : KnotProfile R} (hk : k.Shaped p.knots) :
    p.continuityRows.rows.length = 2 * (p.knots - 1) ∧ ∃ c, rebuild p.step k = .ok c ∧
      (p.continuityRows.Hold k.point ↔ ∀ i : Nat, i < p.knots →
        k.p[i]? = some (c.eval 0 (i * p.step)) ∧ k.v[i]? = some (c.eval 1 (i * p.step)) ∧
          k.a[i]? = some (c.eval 2 (i * p.step))) := by
  rcases rebuild_even hstep hn hk with ⟨c, hc, heven, hlength, hfirst, hnext⟩
  have hzero (x : R) : 0 ≤ x ∧ x ≤ 0 ↔ x = 0 :=
    ⟨fun h => le_antisymm h.2 h.1, fun h => ⟨h.ge, h.le⟩⟩
  have hrows : p.continuityRows.Hold k.point ↔ ∀ i, i + 1 < p.knots →
      Motion.Linked p.step (stateAt p.knots k.point i) (stateAt p.knots k.point (i + 1)) := by
    change p.continuityRows.Each (fun l u x => l ≤ x ∧ x ≤ u) k.point ↔ _
    rw [KnotProblem.each_continuityRows]
    simp only [hzero, KnotProblem.linked_iff]
  have hthrough (i : Nat) (hi : i < p.knots) : (k.p[i]? = some (c.eval 0 (i * p.step)) ∧
      k.v[i]? = some (c.eval 1 (i * p.step)) ∧ k.a[i]? = some (c.eval 2 (i * p.step))) ↔
      c.knot i = stateAt p.knots k.point i := by
    rcases stateAt_point hk hi with ⟨hx, hy, hw⟩
    rw [hx, hy, hw, ← heven.motionAt_knot hstep (by omega), JerkCurve.motionAt]
    rcases stateAt p.knots k.point i with ⟨x, y, w⟩
    simp only [Option.some.injEq, Motion.mk.injEq, eq_comm]
  refine ⟨p.length_continuityRows, c, hc, hrows.trans ?_⟩
  constructor
  · -- Linked states follow from the first one, knot by knot.
    intro hlinked i hi
    rw [hthrough i hi]
    induction i with
    | zero => exact hfirst
    | succ i ih =>
        rw [hnext i hi, ih (by omega)]
        exact (Motion.advance_eq_iff hstep _ _).mpr (hlinked i hi)
  · -- Two neighbours on the curve are one step apart, and so are linked.
    intro h i hi
    have hhere := (hthrough i (by omega)).mp (h i (by omega))
    have hthere := (hthrough (i + 1) hi).mp (h (i + 1) hi)
    rw [hnext i hi, hhere] at hthere
    exact (Motion.advance_eq_iff hstep _ _).mp hthere

/-- The curve rebuilt from `cruising` goes on at speed one. -/
theorem rebuild_through_cruising :
    (KnotProblem.cruise.knots = 3 ∧ (0 : Rat) < KnotProblem.cruise.step) ∧
      ∃ c, rebuild KnotProblem.cruise.step KnotProblem.cruising = .ok c ∧
        ∀ i : Nat, i < 3 → some (c.eval 0 (i / 2)) = KnotProblem.cruising.p[i]? ∧
          some (c.eval 1 (i / 2)) = KnotProblem.cruising.v[i]? := by
  have hstep : (0 : Rat) < KnotProblem.cruise.step := by decide +kernel
  rcases (rebuild_through_iff (show 0 < KnotProblem.cruise.knots by decide) hstep
    (k := KnotProblem.cruising) ⟨rfl, rfl, rfl⟩).2 with ⟨c, hc, hiff⟩
  refine ⟨⟨rfl, hstep⟩, c, hc, fun i hi => ?_⟩
  have hthrough := hiff.mp (by decide +kernel) i hi
  have hhalf : ((i : Nat) : Rat) * KnotProblem.cruise.step = i / 2 := by
    rw [KnotProblem.cruise]
    ring
  rw [hhalf] at hthrough
  exact ⟨hthrough.1.symm, hthrough.2.1.symm⟩

end JerkPlan
