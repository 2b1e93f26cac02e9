import Mathlib.Algebra.BigOperators.Group.List.Basic
import Mathlib.Data.List.Induction
import JerkPlan.Proofs.Search
import JerkPlan.JerkCurve

/-!
# Joined curves

Curves of any segments, and how they come about.

A curve keeps its segments in one list and the parameters at which they end in another.
`JerkCurve.Joined` is what ties the two together: the breaks are the sums of the lengths
so far, lengths are positive, and each segment begins in the state in which the one
before it ends. The search in the breaks then finds one segment for each parameter, and
`Serves` says which one without the search. The first segment serves everything before
its end, the last one everything after its beginning. From there on
`Joined.eval_of_serves` is all that has to be known of a reading.

Segments come one by one, and a length that is not positive is refused. So a curve
with a history is extended by what was accepted, and `of_history` is the one induction
over all histories.

## Main definitions

* `JerkSegment.start`, `JerkCurve.knot`: The states in which segments begin and end.
* `JerkCurve.motionAt`: The state of a curve at a parameter.
* `JerkCurve.reach`: The parameter at which a number of segments end.
* `JerkCurve.Joined`: Segments that join, and their breaks.
* `JerkCurve.Serves`: The segment that a parameter is read on.
* `JerkCurve.extend`: One more segment, without a check.
* `JerkCurve.attempt`, `JerkCurve.history`: Segments that may be refused.

## Theorems

* `JerkCurve.Joined.reach_lt`, `JerkCurve.Joined.rising`: Breaks increase.
* `JerkCurve.Joined.exists_serves`, `JerkCurve.Joined.eval_of_serves`: Reading a curve.
* `JerkCurve.Joined.motionAt_reach`, `JerkCurve.Joined.motionAt_length`: A curve passes
  the states at its breaks, the last of which is its end.
* `JerkCurve.append_eq`: When a segment is accepted.
* `JerkCurve.Joined.extend`: One more segment keeps a curve joined.
* `JerkCurve.Joined.eval_extend_of_le`, `JerkCurve.Joined.eval_extend_of_lt`: What one
  more segment does to a reading.
* `JerkCurve.of_history`: What all histories keep.
* `JerkCurve.accepted_history`: The segments are those that were accepted.
-/

namespace JerkPlan

/-- The state in which a segment begins. -/
def JerkSegment.start {R : Type} (g : JerkSegment R) : Motion R := ⟨g.p, g.v, g.a⟩

/-- At its beginning a segment has the state in which it begins. -/
theorem JerkSegment.motion_zero {R : Type} [ExactScalar R] (g : JerkSegment R) :
    (⟨g.eval 0 0, g.eval 1 0, g.eval 2 0⟩ : Motion R) = g.start := by
  simp only [eval, start, mul_zero, add_zero, zero_div]

namespace JerkCurve

section AnyArithmetic

variable {R : Type} [Scalar R]

/-- Ask for one more segment, given by its jerk and its length. The curve stays as it is
    when the segment is refused. -/
def attempt (c : JerkCurve R) (call : R × R) : JerkCurve R × Option (Failure R) :=
  match c.append call.1 call.2 with
  | .ok d => (d, none)
  | .error e => (c, some e)

/-- The curve from a start after asking for segments one by one. -/
def history (start : Motion R) (calls : List (R × R)) : JerkCurve R :=
  calls.foldl (fun c call => (c.attempt call).1) (ofStart start)

theorem history_concat (start : Motion R) (calls : List (R × R)) (call : R × R) :
    history start (calls ++ [call]) = ((history start calls).attempt call).1 := by
  simp only [history, List.foldl_append, List.foldl_cons, List.foldl_nil]

end AnyArithmetic

variable {R : Type} [ExactScalar R]

/-- The state of a curve at a parameter. -/
def motionAt (c : JerkCurve R) (x : R) : Motion R := ⟨c.eval 0 x, c.eval 1 x, c.eval 2 x⟩

/-- The state in which a number of segments end, the start for none. -/
def knot (c : JerkCurve R) : Nat → Motion R
  | 0 => c.start
  | i + 1 => (c.segments[i]?).elim c.start JerkSegment.finish

theorem finish_eq_knot (c : JerkCurve R) : c.finish = c.knot c.segments.length := by
  rw [finish, List.getLast?_eq_getElem?]
  rcases h : c.segments.length with _ | n
  · rw [knot, List.getElem?_eq_none (by omega), Option.elim_none]
  · rw [knot, Nat.add_sub_cancel]

/-- The parameter at which a number of segments end. -/
def reach (c : JerkCurve R) (i : Nat) : R := ((c.segments.take i).map (·.length)).sum

/-- The breaks are where the segments so far end, all lengths are positive, and every
    segment begins where the one before it ends. -/
structure Joined (c : JerkCurve R) : Prop where
  length_breaks : c.breaks.length = c.segments.length
  breaks : ∀ (i : Nat) (x : R), c.breaks[i]? = some x → x = c.reach (i + 1)
  lengths : ∀ g ∈ c.segments, 0 < g.length
  joins : ∀ (i : Nat) (g : JerkSegment R), c.segments[i]? = some g → g.start = c.knot i

/-- A parameter is read on a segment: on the first one if it comes before the end of
    that, on the last one if it comes after its beginning, and on any other if it lies
    in between. The end of a segment is still read on it. -/
structure Serves (c : JerkCurve R) (i : Nat) (x : R) : Prop where
  lt_length : i < c.segments.length
  after : i = 0 ∨ c.reach i < x
  before : i + 1 = c.segments.length ∨ x ≤ c.reach (i + 1)

section Reading

variable {c : JerkCurve R} {i : Nat} {x : R} {g : JerkSegment R}

theorem reach_zero : c.reach 0 = 0 := rfl

theorem reach_succ (hg : c.segments[i]? = some g) : c.reach (i + 1) = c.reach i + g.length := by
  rw [reach, List.take_add_one, hg, Option.toList_some, List.map_append, List.sum_append,
    List.map_singleton, List.sum_singleton, reach]

theorem Joined.break_eq (h : c.Joined) (hi : i < c.segments.length) :
    c.breaks[i]? = some (c.reach (i + 1)) := by
  have hlt : i < c.breaks.length := by rw [h.length_breaks]; exact hi
  have hget : c.breaks[i]? = some c.breaks[i] := List.getElem?_eq_getElem hlt
  rw [hget, h.breaks i _ hget]

/-- More segments reach farther. -/
theorem Joined.reach_lt (h : c.Joined) {j : Nat} (hij : i < j) (hj : j ≤ c.segments.length) :
    c.reach i < c.reach j := by
  induction j with
  | zero => exact absurd hij (Nat.not_lt_zero i)
  | succ j ih =>
      have hget : c.segments[j]? = some c.segments[j] := List.getElem?_eq_getElem (by omega)
      -- One segment more is one positive length more.
      have hstep : c.reach j < c.reach (j + 1) := by
        rw [reach_succ hget]
        exact lt_add_of_pos_right _ (h.lengths _ (List.mem_of_getElem? hget))
      rcases Nat.lt_or_eq_of_le (Nat.lt_succ_iff.mp hij) with hlt | heq
      · exact (ih hlt (by omega)).trans hstep
      · rw [heq]
        exact hstep

/-- The breaks increase. -/
theorem Joined.rising (h : c.Joined) : c.breaks.Pairwise (· < ·) := by
  rw [List.pairwise_iff_getElem]
  intro i j hi hj hij
  rw [h.breaks i _ (List.getElem?_eq_getElem hi), h.breaks j _ (List.getElem?_eq_getElem hj)]
  refine h.reach_lt (by omega) ?_
  rw [← h.length_breaks]
  exact hj

/-- A curve is as long as all its segments together. -/
theorem Joined.length_eq (h : c.Joined) : c.length = c.reach c.segments.length := by
  rw [length, List.getLast?_eq_getElem?, h.length_breaks]
  rcases hlength : c.segments.length with _ | n
  · rw [List.getElem?_eq_none (by rw [h.length_breaks]; omega), Option.getD_none, reach_zero]
  · rw [Nat.add_sub_cancel, h.break_eq (by omega), Option.getD_some]

/-- The breaks below a parameter are those before the index that the search finds. -/
theorem Joined.reach_lt_iff (h : c.Joined) (hi : i < c.segments.length) (x : R) :
    c.reach (i + 1) < x ↔ i < lowerIndex c.breaks x :=
  lowerIndex_lt_iff (h.rising.imp le_of_lt) x (h.break_eq hi)

/-- Every parameter is read on some segment, if there is one. -/
theorem Joined.exists_serves (h : c.Joined) (hsome : 0 < c.segments.length) (x : R) :
    ∃ i, c.Serves i x := by
  refine ⟨min (lowerIndex c.breaks x) (c.segments.length - 1), by omega, ?_, ?_⟩
  · rcases hindex : min (lowerIndex c.breaks x) (c.segments.length - 1) with _ | j
    · exact Or.inl rfl
    · exact Or.inr ((h.reach_lt_iff (by omega) x).mpr (by omega))
  · rcases Nat.lt_or_ge (lowerIndex c.breaks x) (c.segments.length - 1) with hlt | hge
    · -- The break at the index that is found is not below the parameter.
      rw [Nat.min_eq_left hlt.le]
      exact Or.inr (not_lt.mp fun hbelow =>
        Nat.lt_irrefl _ ((h.reach_lt_iff (by omega) x).mp hbelow))
    · rw [Nat.min_eq_right hge]
      exact Or.inl (by omega)

/-- There is no other one, and the search finds it. -/
theorem Joined.index_eq (h : c.Joined) (hi : c.Serves i x) :
    min (lowerIndex c.breaks x) (c.segments.length - 1) = i := by
  have hlength := hi.lt_length
  have hafter : i ≤ lowerIndex c.breaks x := by
    rcases hi.after with hzero | hafter
    · omega
    · rcases i with _ | j
      · exact Nat.zero_le _
      · exact (h.reach_lt_iff (by omega) x).mp hafter
  rcases hi.before with hlast | hbefore
  · omega
  · have hfound : ¬ i < lowerIndex c.breaks x := fun hlt =>
      absurd ((h.reach_lt_iff hlength x).mpr hlt) (not_lt.mpr hbefore)
    omega

/-- A curve is read on the segment that serves the parameter, counted from where that
    segment begins. -/
theorem Joined.eval_of_serves (h : c.Joined) (hi : c.Serves i x) (hg : c.segments[i]? = some g)
    (order : Int) : c.eval order x = g.eval order (x - c.reach i) := by
  simp only [eval, h.index_eq hi, hg]
  -- The first segment is read at the parameter itself, others from the break before.
  rcases i with _ | j
  · rw [if_pos rfl, reach_zero, sub_zero]
  · have hj := hi.lt_length
    rw [if_neg (Nat.succ_ne_zero j), Nat.add_sub_cancel, h.break_eq (by omega), Option.elim_some]

/-- A curve with segments passes, where a number of them end, the state in which they
    do. -/
theorem Joined.motionAt_reach (h : c.Joined) (hsome : 0 < c.segments.length)
    (hi : i ≤ c.segments.length) : c.motionAt (c.reach i) = c.knot i := by
  rcases i with _ | j
  · -- The start is read on the first segment.
    have hserves : c.Serves 0 (c.reach 0) :=
      ⟨hsome, Or.inl rfl, Or.inr (h.reach_lt Nat.zero_lt_one hsome).le⟩
    have hget : c.segments[0]? = some c.segments[0] := List.getElem?_eq_getElem hsome
    have hjoin := h.joins 0 _ hget
    rw [motionAt, h.eval_of_serves hserves hget, h.eval_of_serves hserves hget,
      h.eval_of_serves hserves hget, sub_self, JerkSegment.motion_zero, hjoin]
  · -- Any other state is read on the segment that ends in it.
    have hserves : c.Serves j (c.reach (j + 1)) :=
      ⟨hi, Or.inr (h.reach_lt (Nat.lt_succ_self j) hi), Or.inr le_rfl⟩
    have hget : c.segments[j]? = some c.segments[j] := List.getElem?_eq_getElem hi
    have hlocal : c.reach (j + 1) - c.reach j = c.segments[j].length := by
      rw [reach_succ hget, add_sub_cancel_left]
    rw [motionAt, h.eval_of_serves hserves hget, h.eval_of_serves hserves hget,
      h.eval_of_serves hserves hget, hlocal, knot, hget, Option.elim_some, JerkSegment.finish]

/-- At its length it has the state in which it ends. -/
theorem Joined.motionAt_length (h : c.Joined) (hsome : 0 < c.segments.length) :
    c.motionAt c.length = c.finish := by
  rw [h.length_eq, h.motionAt_reach hsome (Nat.le_refl _), ← finish_eq_knot]

end Reading

section Extending

variable {c : JerkCurve R} {jerk length : R}

/-- The segment with which a curve goes on. -/
def next (c : JerkCurve R) (jerk length : R) : JerkSegment R :=
  ⟨c.finish.p, c.finish.v, c.finish.a, jerk, length⟩

/-- The curve with one more segment, of any length. -/
def extend (c : JerkCurve R) (jerk length : R) : JerkCurve R :=
  ⟨c.start, c.segments ++ [c.next jerk length], c.breaks ++ [c.length + length]⟩

/-- One more segment is accepted exactly if its length is positive. -/
theorem append_eq (c : JerkCurve R) (jerk length : R) : c.append jerk length =
    if length ≤ 0 then .error (.invalid (.notPositive "segment length" (some length)))
    else .ok (c.extend jerk length) := by
  have hstop : c.breaks.getLast?.elim length (· + length) = c.length + length := by
    rw [JerkCurve.length]
    rcases c.breaks.getLast? with _ | x
    · rw [Option.elim_none, Option.getD_none, zero_add]
    · rw [Option.elim_some, Option.getD_some]
  rw [append, JerkSegment.make, hstop]
  by_cases hlength : length ≤ 0
  · rw [if_pos hlength, if_pos hlength]
    rfl
  · rw [if_neg hlength, if_neg hlength]
    rfl

/-- The segments of the longer curve: those there were, and the new one. -/
theorem extend_getElem? {i : Nat} {g : JerkSegment R}
    (hg : (c.extend jerk length).segments[i]? = some g) :
    c.segments[i]? = some g ∨ i = c.segments.length ∧ g = c.next jerk length :=
  of_getElem?_concat hg

theorem extend_getElem?_length :
    (c.extend jerk length).segments[c.segments.length]? = some (c.next jerk length) := by
  rw [extend, List.getElem?_concat_length]

theorem length_extend_segments :
    (c.extend jerk length).segments.length = c.segments.length + 1 := by
  rw [extend, List.length_append, List.length_singleton]

theorem length_extend : (c.extend jerk length).length = c.length + length := by
  rw [JerkCurve.length, extend, List.getLast?_concat, Option.getD_some]

theorem finish_extend : (c.extend jerk length).finish = (c.next jerk length).finish := by
  rw [finish, extend, List.getLast?_concat, Option.elim_some]

/-- Nothing before the new segment moves. -/
theorem reach_extend {i : Nat} (hi : i ≤ c.segments.length) :
    (c.extend jerk length).reach i = c.reach i := by
  rw [reach, extend, List.take_append_of_le_length hi, reach]

theorem knot_extend {i : Nat} (hi : i ≤ c.segments.length) :
    (c.extend jerk length).knot i = c.knot i := by
  rcases i with _ | j
  · rfl
  · rw [knot, knot, extend, List.getElem?_append_left (by omega)]

/-- One more segment of positive length keeps a curve joined. -/
theorem Joined.extend (h : c.Joined) (hlength : 0 < length) : (c.extend jerk length).Joined := by
  constructor
  · rw [length_extend_segments, JerkCurve.extend, List.length_append, h.length_breaks,
      List.length_singleton]
  · -- Old breaks keep their sums, and the new one adds a length to the whole.
    intro i x hx
    rcases of_getElem?_concat hx with hx | ⟨rfl, rfl⟩
    · have hi := (List.getElem?_eq_some_iff.mp hx).1
      rw [h.length_breaks] at hi
      rw [h.breaks i x hx, reach_extend hi]
    · rw [h.length_breaks, reach_succ extend_getElem?_length, reach_extend (Nat.le_refl _),
        ← h.length_eq]
      rfl
  · intro g hg
    rcases List.mem_append.mp hg with hg | hg
    · exact h.lengths g hg
    · rw [List.mem_singleton.mp hg]
      exact hlength
  · -- The new segment begins where the curve ended.
    intro i g hg
    rcases extend_getElem? hg with hg | ⟨rfl, rfl⟩
    · rw [knot_extend (List.getElem?_eq_some_iff.mp hg).1.le]
      exact h.joins i g hg
    · rw [knot_extend (Nat.le_refl _), ← finish_eq_knot]
      rfl

/-- Up to the end of a curve nothing is read on one more segment. -/
theorem Joined.eval_extend_of_le (h : c.Joined) (hlength : 0 < length)
    (hsome : 0 < c.segments.length) {x : R} (hx : x ≤ c.length) (order : Int) :
    (c.extend jerk length).eval order x = c.eval order x := by
  rcases h.exists_serves hsome x with ⟨i, hi⟩
  have hlt := hi.lt_length
  have hget : c.segments[i]? = some c.segments[i] := List.getElem?_eq_getElem hlt
  have hget' : (c.extend jerk length).segments[i]? = some c.segments[i] := by
    rw [JerkCurve.extend, List.getElem?_append_left hlt, hget]
  have hserves : (c.extend jerk length).Serves i x := by
    refine ⟨?_, ?_, Or.inr ?_⟩
    · rw [length_extend_segments]
      omega
    · rw [reach_extend hlt.le]
      exact hi.after
    · -- A last segment that went on for ever now ends where the curve did.
      rw [reach_extend (i := i + 1) hlt]
      rcases hi.before with hlast | hbefore
      · rw [hlast, ← h.length_eq]
        exact hx
      · exact hbefore
  rw [(h.extend hlength).eval_of_serves hserves hget', h.eval_of_serves hi hget,
    reach_extend hlt.le]

/-- Beyond the end everything is, and without other segments all of it. -/
theorem Joined.eval_extend_of_lt (h : c.Joined) (hlength : 0 < length) {x : R}
    (hx : c.segments.length = 0 ∨ c.length < x) (order : Int) :
    (c.extend jerk length).eval order x = (c.next jerk length).eval order (x - c.length) := by
  have hserves : (c.extend jerk length).Serves c.segments.length x := by
    refine ⟨?_, ?_, Or.inl ?_⟩
    · rw [length_extend_segments]
      exact Nat.lt_succ_self _
    · rw [reach_extend (Nat.le_refl _), ← h.length_eq]
      exact hx
    · rw [length_extend_segments]
  rw [(h.extend hlength).eval_of_serves hserves extend_getElem?_length,
    reach_extend (Nat.le_refl _), ← h.length_eq]

end Extending

section Histories

/-- A segment that is not positive in length leaves the curve as it was. -/
theorem attempt_of_nonpos (c : JerkCurve R) {call : R × R} (h : call.2 ≤ 0) :
    c.attempt call = (c, some (.invalid (.notPositive "segment length" (some call.2)))) := by
  rw [attempt, append_eq, if_pos h]

theorem attempt_of_pos (c : JerkCurve R) {call : R × R} (h : 0 < call.2) :
    c.attempt call = (c.extend call.1 call.2, none) := by
  rw [attempt, append_eq, if_neg (not_le.mpr h)]

variable (start : Motion R)

/-- What the curve without segments has, and one more segment keeps, every curve has
    whatever was asked for before, by induction with a call added at the end. -/
theorem of_history (holds : JerkCurve R → Prop) (hstart : holds (ofStart start))
    (hextend : ∀ (c : JerkCurve R) (jerk length : R), holds c → 0 < length →
      holds (c.extend jerk length)) (calls : List (R × R)) : holds (history start calls) := by
  induction calls using List.reverseRecOn with
  | nil => exact hstart
  | append_singleton calls call ih =>
      rw [history_concat]
      by_cases h : 0 < call.2
      · rw [attempt_of_pos _ h]
        exact hextend _ _ _ ih h
      · rw [attempt_of_nonpos _ (not_lt.mp h)]
        exact ih

theorem joined_ofStart (m : Motion R) : (ofStart m).Joined := by
  constructor
  · rfl
  · exact fun i x h => absurd h (by simp [ofStart])
  · exact fun g h => absurd h (by simp [ofStart])
  · exact fun i g h => absurd h (by simp [ofStart])

/-- Every curve that comes about in this way is joined. -/
theorem joined_history (calls : List (R × R)) : (history start calls).Joined :=
  of_history start Joined (joined_ofStart start) (fun _ _ _ h hlength => h.extend hlength) calls

theorem start_history (calls : List (R × R)) : (history start calls).start = start :=
  of_history start (fun c => c.start = start) rfl (fun _ _ _ h _ => h) calls

/-- The segments are those that were accepted, in order. -/
theorem accepted_history (calls : List (R × R)) :
    (history start calls).segments.map (fun g => (g.jerk, g.length)) =
      calls.filter fun call => 0 < call.2 := by
  induction calls using List.reverseRecOn with
  | nil => rfl
  | append_singleton calls call ih =>
      rw [history_concat, List.filter_append, ← ih]
      by_cases h : 0 < call.2
      · rw [attempt_of_pos _ h, extend, List.map_append, List.filter_cons_of_pos (by simpa using h)]
        rfl
      · rw [attempt_of_nonpos _ (not_lt.mp h), List.filter_cons_of_neg (by simpa using h),
          List.filter_nil, List.append_nil]

end Histories

end JerkCurve

end JerkPlan
