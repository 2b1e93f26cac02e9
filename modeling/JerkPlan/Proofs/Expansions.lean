import JerkPlan.Proofs.JoinedCurves

/-!
# Expansions

What a curve does from any place on.

Constant jerk does not remember where it began: from every place on, a segment is the
segment that starts there in the state it has there, `JerkSegment.rest`. Re-expanding
the cubic around the shifted origin is the one calculation in this module, and both of
its results follow. Read as a formula, the rest of a segment is a Taylor sum, so the
orders in which a curve is read are derivatives of one another wherever one segment
serves. Read as a segment, the rest of the whole is the second of its two parts, so a
segment may be split without anyone noticing.

That later segments do not notice either takes the states in which the two curves end.
Curves that are read alike end alike, and so the next segment begins alike on both.

## Main definitions

* `JerkSegment.rest`: A segment from a place on.
* `Expands`: Taylor sums between two places.
* `JerkCurve.ReadAlike`: Curves that no reading tells apart.

## Theorems

* `JerkSegment.eval_rest`: The rest of a segment is read as the segment.
* `JerkSegment.expands`, `JerkCurve.Joined.expands`: Taylor sums on one segment.
* `JerkCurve.history_expands`: Taylor sums on every curve that comes about.
* `JerkCurve.Joined.readAlike_split`: A segment in two parts.
* `JerkCurve.ReadAlike.extend`, `JerkCurve.readAlike_history`: One more segment on both of
  two curves, and any calls.
* `JerkCurve.history_split`: Splitting a segment changes no curve that comes about.
-/

namespace JerkPlan

variable {R : Type} [ExactScalar R]

/-! Segments -/

namespace JerkSegment

/-- What is left of a segment from a place on. -/
def rest (g : JerkSegment R) (x : R) : JerkSegment R :=
  ⟨g.eval 0 x, g.eval 1 x, g.eval 2 x, g.jerk, g.length - x⟩

/-- What is left of a segment is read as the segment, the origin shifted. -/
theorem eval_rest (g : JerkSegment R) (order : Int) (x h : R) :
    (g.rest x).eval order h = g.eval order (x + h) := by
  unfold eval
  split
  · simp only [rest, eval, half_eq]
    push_cast
    ring
  · simp only [rest, eval, half_eq]
    ring
  · simp only [rest, eval]
    ring
  · rfl
  · rfl

end JerkSegment

/-- From one place to another, a value and its first three derivatives are Taylor sums
    of what they are at the first one, without remainders. -/
structure Expands (f : Int → R → R) (x h : R) : Prop where
  value : f 0 (x + h) = f 0 x + h * f 1 x + h ^ 2 / 2 * f 2 x + h ^ 3 / 6 * f 3 x
  slope : f 1 (x + h) = f 1 x + h * f 2 x + h ^ 2 / 2 * f 3 x
  bend : f 2 (x + h) = f 2 x + h * f 3 x
  jerk : f 3 (x + h) = f 3 x

theorem JerkSegment.expands (g : JerkSegment R) (x h : R) : Expands g.eval x h := by
  constructor
  · rw [← eval_rest]
    change g.eval 0 x + g.eval 1 x * h + decimal 5 1 * g.eval 2 x * h * h +
      g.eval 3 x * h * h * h / ((6 : Nat) : R) = _
    rw [half_eq]
    push_cast
    ring
  · rw [← eval_rest]
    change g.eval 1 x + g.eval 2 x * h + decimal 5 1 * g.eval 3 x * h * h = _
    rw [half_eq]
    ring
  · rw [← eval_rest]
    change g.eval 2 x + g.eval 3 x * h = _
    ring
  · rfl

namespace JerkCurve

variable {c d : JerkCurve R}

/-! Taylor sums -/

/-- Wherever one segment serves both places, the curve is expanded from one to the
    other. -/
theorem Joined.expands (hc : c.Joined) {i : Nat} {x h : R} (hx : c.Serves i x)
    (hxh : c.Serves i (x + h)) : Expands c.eval x h := by
  have hlt := hx.lt_length
  have hget : c.segments[i]? = some c.segments[i] := List.getElem?_eq_getElem hlt
  have hhere (order : Int) : c.eval order x = c.segments[i].eval order (x - c.reach i) :=
    hc.eval_of_serves hx hget order
  have hthere (order : Int) :
      c.eval order (x + h) = c.segments[i].eval order (x - c.reach i + h) := by
    rw [hc.eval_of_serves hxh hget, sub_add_eq_add_sub]
  have hsegment := c.segments[i].expands (x - c.reach i) h
  constructor
  · simp only [hthere, hhere]
    exact hsegment.value
  · simp only [hthere, hhere]
    exact hsegment.slope
  · simp only [hthere, hhere]
    exact hsegment.bend
  · simp only [hthere, hhere]
    exact hsegment.jerk

/-- Before the start the first segment serves. -/
theorem Joined.serves_first (hc : c.Joined) (hsome : 0 < c.segments.length) {x : R} (hx : x ≤ 0) :
    c.Serves 0 x :=
  ⟨hsome, .inl rfl, .inr (hx.trans (hc.reach_lt Nat.zero_lt_one hsome).le)⟩

/-- Beyond the end the last one does. -/
theorem Joined.serves_last (hc : c.Joined) (hsome : 0 < c.segments.length) {x : R}
    (hx : c.length ≤ x) : c.Serves (c.segments.length - 1) x := by
  refine ⟨Nat.sub_one_lt_of_lt hsome, .inr ?_, .inl (Nat.sub_add_cancel hsome)⟩
  rw [hc.length_eq] at hx
  exact (hc.reach_lt (Nat.sub_one_lt_of_lt hsome) le_rfl).trans_le hx

/-- The orders in which a curve is read are derivatives of one another: between two
    places that are read on one segment, or that both lie before the start or both
    beyond the end, each order is the Taylor sum of itself and the higher ones. -/
theorem history_expands {start : Motion R} {calls : List (R × R)}
    (hc : history start calls = c) (hsome : 0 < c.segments.length) {x h : R}
    (hplaces : (∃ i, c.Serves i x ∧ c.Serves i (x + h)) ∨ (x ≤ 0 ∧ x + h ≤ 0) ∨
      (c.length ≤ x ∧ c.length ≤ x + h)) :
    Expands c.eval x h := by
  have hjoined : c.Joined := hc ▸ joined_history start calls
  rcases hplaces with ⟨i, hx, hxh⟩ | ⟨hx, hxh⟩ | ⟨hx, hxh⟩
  · exact hjoined.expands hx hxh
  · exact hjoined.expands (hjoined.serves_first hsome hx) (hjoined.serves_first hsome hxh)
  · exact hjoined.expands (hjoined.serves_last hsome hx) (hjoined.serves_last hsome hxh)

/-- From two to three the second accepted segment serves, on which the jerk is negative. -/
theorem history_expands_braking : ∃ c : JerkCurve Rat,
    history ⟨0, 1, 0⟩ [(1, 1), (5, 0), (-2, 3)] = c ∧ 0 < c.segments.length ∧
      c.Serves 1 2 ∧ c.Serves 1 (2 + 1) ∧ Expands c.eval 2 1 ∧
      [0, 1, 2, 3].map (c.eval · 2) = [17 / 6, 3 / 2, -1, -2] ∧ c.eval 0 (2 + 1) = 7 / 2 := by
  refine ⟨_, rfl, ?_⟩
  have hsome : 0 < (history (⟨0, 1, 0⟩ : Motion Rat)
      [(1, 1), (5, 0), (-2, 3)]).segments.length := by decide +kernel
  have hhere : (history (⟨0, 1, 0⟩ : Motion Rat) [(1, 1), (5, 0), (-2, 3)]).Serves 1 2 :=
    ⟨by decide +kernel, .inr (by decide +kernel), .inl rfl⟩
  have hthere : (history (⟨0, 1, 0⟩ : Motion Rat) [(1, 1), (5, 0), (-2, 3)]).Serves 1 (2 + 1) :=
    ⟨by decide +kernel, .inr (by decide +kernel), .inl rfl⟩
  exact ⟨hsome, hhere, hthere, history_expands rfl hsome (.inl ⟨1, hhere, hthere⟩),
    by decide +kernel, by decide +kernel⟩

/-! Split segments -/

/-- Two curves are as long as each other, and are read alike in every order and at every
    parameter. -/
structure ReadAlike (c d : JerkCurve R) : Prop where
  length : c.length = d.length
  eval : ∀ order x, c.eval order x = d.eval order x

variable {jerk length a b : R}

/-- The second part of a segment is the rest of the whole, and begins where the first
    part ends. -/
theorem next_extend : (c.extend jerk a).next jerk b = (c.next jerk (a + b)).rest a := by
  have hlength : (c.next jerk (a + b)).length - a = b := add_sub_cancel_left a b
  rw [next, finish_extend, JerkSegment.rest, hlength]
  rfl

/-- A segment in two parts is read like the whole of it. -/
theorem Joined.readAlike_split (hc : c.Joined) (ha : 0 < a) (hb : 0 < b) :
    ((c.extend jerk a).extend jerk b).ReadAlike (c.extend jerk (a + b)) := by
  have hpart : (c.extend jerk a).Joined := hc.extend ha
  have hab : 0 < a + b := add_pos ha hb
  have hsome : 0 < (c.extend jerk a).segments.length := by
    rw [length_extend_segments]
    exact Nat.succ_pos _
  refine ⟨by rw [length_extend, length_extend, length_extend, add_assoc], fun order x => ?_⟩
  rcases le_or_gt x (c.extend jerk a).length with hx | hx
  · -- Up to where the two parts meet nothing is read on the second one.
    rw [hpart.eval_extend_of_le hb hsome hx]
    by_cases hbefore : 0 < c.segments.length ∧ x ≤ c.length
    · rw [hc.eval_extend_of_le ha hbefore.1 hbefore.2,
        hc.eval_extend_of_le hab hbefore.1 hbefore.2]
    · have hafter : c.segments.length = 0 ∨ c.length < x := by
        rcases Nat.eq_zero_or_pos c.segments.length with hnone | hpos
        · exact .inl hnone
        · exact .inr (not_le.mp fun hle => hbefore ⟨hpos, hle⟩)
      rw [hc.eval_extend_of_lt ha hafter, hc.eval_extend_of_lt hab hafter]
      rfl
  · have hafter : c.length < x := by
      rw [length_extend] at hx
      exact (lt_add_of_pos_right _ ha).trans hx
    rw [hpart.eval_extend_of_lt hb (.inr hx), hc.eval_extend_of_lt hab (.inr hafter), next_extend,
      JerkSegment.eval_rest, length_extend]
    congr 1
    ring

/-- Curves that are read alike end alike, so with one more segment on both they are still
    read alike. -/
theorem ReadAlike.extend (h : c.ReadAlike d) (hc : c.Joined) (hd : d.Joined)
    (hcsome : 0 < c.segments.length) (hdsome : 0 < d.segments.length) (hlength : 0 < length) :
    (c.extend jerk length).ReadAlike (d.extend jerk length) := by
  have hnext : c.next jerk length = d.next jerk length := by
    have hfinish : c.finish = d.finish := by
      rw [← hc.motionAt_length hcsome, ← hd.motionAt_length hdsome, motionAt, motionAt, h.length,
        h.eval, h.eval, h.eval]
    rw [next, next, hfinish]
  refine ⟨by rw [length_extend, length_extend, h.length], fun order x => ?_⟩
  rcases le_or_gt x c.length with hx | hx
  · rw [hc.eval_extend_of_le hlength hcsome hx,
      hd.eval_extend_of_le hlength hdsome (h.length ▸ hx), h.eval]
  · rw [hc.eval_extend_of_lt hlength (.inr hx),
      hd.eval_extend_of_lt hlength (.inr (h.length ▸ hx)), hnext, h.length]

variable (start : Motion R)

/-- A curve has as many segments as were accepted. -/
theorem length_history (calls : List (R × R)) :
    (history start calls).segments.length = (calls.filter fun call => 0 < call.2).length := by
  rw [← accepted_history start calls, List.length_map]

/-- No call takes a segment away. -/
theorem segments_pos_append {calls : List (R × R)}
    (hsome : 0 < (history start calls).segments.length) (after : List (R × R)) :
    0 < (history start (calls ++ after)).segments.length := by
  rw [length_history, List.filter_append, List.length_append, ← length_history start calls]
  exact Nat.add_pos_left hsome _

/-- Whatever is asked for of two curves that are read alike, they are still read alike
    afterwards, by induction with a call added at the end. -/
theorem readAlike_history {calls calls' : List (R × R)}
    (h : (history start calls).ReadAlike (history start calls'))
    (hsome : 0 < (history start calls).segments.length)
    (hsome' : 0 < (history start calls').segments.length) (after : List (R × R)) :
    (history start (calls ++ after)).ReadAlike (history start (calls' ++ after)) := by
  induction after using List.reverseRecOn with
  | nil =>
      rw [List.append_nil, List.append_nil]
      exact h
  | append_singleton after call ih =>
      rw [← List.append_assoc, ← List.append_assoc, history_concat, history_concat]
      by_cases hlength : 0 < call.2
      · -- Both have a segment already, so the new one begins where they end.
        rw [attempt_of_pos _ hlength, attempt_of_pos _ hlength]
        exact ih.extend (joined_history _ _) (joined_history _ _)
          (segments_pos_append start hsome after) (segments_pos_append start hsome' after) hlength
      · rw [attempt_of_nonpos _ (not_lt.mp hlength), attempt_of_nonpos _ (not_lt.mp hlength)]
        exact ih

/-- A segment of the curve may be split anywhere. Whatever came before it and comes after
    it, the two parts are one segment more, and the curve is as long as with the whole and
    is read alike everywhere, in every order. -/
theorem history_split (before after : List (R × R)) (jerk : R) (ha : 0 < a) (hb : 0 < b) :
    (history start (before ++ [(jerk, a), (jerk, b)] ++ after)).segments.length =
        (history start (before ++ [(jerk, a + b)] ++ after)).segments.length + 1 ∧
      (history start (before ++ [(jerk, a), (jerk, b)] ++ after)).ReadAlike
        (history start (before ++ [(jerk, a + b)] ++ after)) := by
  have hab : 0 < a + b := add_pos ha hb
  have hparts : history start (before ++ [(jerk, a), (jerk, b)]) =
      ((history start before).extend jerk a).extend jerk b := by
    have hone : before ++ [(jerk, a), (jerk, b)] = before ++ [(jerk, a)] ++ [(jerk, b)] := by
      rw [List.append_assoc, List.singleton_append]
    rw [hone, history_concat, history_concat, attempt_of_pos _ hb, attempt_of_pos _ ha]
  have hwhole : history start (before ++ [(jerk, a + b)]) =
      (history start before).extend jerk (a + b) := by
    rw [history_concat, attempt_of_pos _ hab]
  refine ⟨?_, readAlike_history start ?_ ?_ ?_ after⟩
  · simp only [length_history, List.filter_append, List.length_append]
    rw [List.filter_cons_of_pos (by simpa using ha), List.filter_cons_of_pos (by simpa using hb),
      List.filter_cons_of_pos (by simpa using hab)]
    simp only [List.filter_nil, List.length_cons, List.length_nil]
    omega
  · rw [hparts, hwhole]
    exact (joined_history start before).readAlike_split ha hb
  · rw [hparts, length_extend_segments]
    exact Nat.succ_pos _
  · rw [hwhole, length_extend_segments]
    exact Nat.succ_pos _

/-- A segment of length three between two others, split into one and two. -/
theorem history_split_inner : (0 : Rat) < 1 ∧ (0 : Rat) < 2 ∧ ∃ parts whole : JerkCurve Rat,
    history ⟨0, 1, 0⟩ ([(1, 1)] ++ [(-2, 1), (-2, 2)] ++ [(3, 1)]) = parts ∧
      history ⟨0, 1, 0⟩ ([(1, 1)] ++ [(-2, 1 + 2)] ++ [(3, 1)]) = whole ∧
      whole.segments.length = 3 ∧ parts.segments.length = whole.segments.length + 1 ∧
      parts.ReadAlike whole := by
  have hone : (0 : Rat) < 1 := by decide +kernel
  have htwo : (0 : Rat) < 2 := by decide +kernel
  rcases history_split ⟨0, 1, 0⟩ [(1, 1)] [(3, 1)] (-2 : Rat) hone htwo with ⟨hlength, halike⟩
  exact ⟨hone, htwo, _, _, rfl, rfl, by decide +kernel, hlength, halike⟩

end JerkCurve

end JerkPlan
