import Mathlib.Data.List.Induction
import JerkPlan.Proofs.Arranging
import JerkPlan.Proofs.Sampling

/-!
# Histories of series

What series hold after all that has been done to them.

A series is made of samples in any order, and from then on it is appended to, cleared,
continued and copied. Reading relies on its samples being in order of time, and nothing
ever sorts them again but a copy. They stay in order because a sample that comes too
early is refused, and because continuing a series appends later and later samples.

What a series should hold can be said without looking at it. `SpeedSeries.Taken` follows
the samples that have been taken in, in the order in which they came: a sample is taken
if none of those is later, and standing samples begin after the latest of them. A series
holds these samples in order of time, those of one time as they came. `Follows.attempt`
is one edit, with a lemma for each kind that adds something, and `kept_history` is the
induction, with a request added at the end.

A copy has the history of its original up to then and is edited apart from it. So there
are as many histories as there are series, `SpeedSeries.stories`, and no series depends
on an edit that is not in its own.

Arithmetic may round here. All that is needed of it is `SteppingScalar`. Rounding can
lose a short unit altogether, and then no number of them leads to the end asked for.

## Main definitions

* `SpeedSeries.Edit`, `SpeedSeries.attempt`: What can be done to one series.
* `SpeedSeries.Request`, `SpeedSeries.history`: What can be done to several.
* `SpeedSeries.stories`: The edits of each series.
* `SpeedSeries.Stands`: The standing samples that continue what has been taken in.
* `SpeedSeries.Taken`: The samples that have been taken in.
* `SpeedSeries.Follows`, `SpeedSeries.Kept`: Series that have what their edits have taken in.
* `SpeedSeries.Ends`: Continuing that comes to an end.

## Theorems

* `SpeedSeries.Sorts.append`, `SpeedSeries.Sorts.latest`: Samples in order of time.
* `SpeedSeries.Follows.attempt`: One edit.
* `SpeedSeries.Kept.edit`, `SpeedSeries.Kept.copy`: One request.
* `SpeedSeries.kept_history`: All requests.
* `SpeedSeries.fill_fill`: A series is continued once.
* `SpeedSeries.history_ordered`: What series hold.
-/

namespace JerkPlan

namespace SpeedSeries

/-- What changes a series: one more sample, taking away all of them, or standing still up
    to a given time. -/
inductive Edit (R : Type)
  | append (p : SpeedSample R)
  | clear
  | fill (finish unit : R)

/-- What can be asked of several series: an edit of one of them, or a copy of one. -/
inductive Request (R : Type)
  | edit (i : Nat) (e : Edit R)
  | copy (i : Nat)

/-- The edits of each series after one more request. Those of a copy begin with all that
    has been done to its original. -/
def record {R : Type} (stories : List (List (Edit R))) : Request R → List (List (Edit R))
  | .edit i e => stories.modify i (· ++ [e])
  | .copy i => stories ++ (stories[i]?).toList

/-- The edits of each series, of which there is one in the beginning. -/
def stories {R : Type} (requests : List (Request R)) : List (List (Edit R)) :=
  requests.foldl record [[]]

section AnyArithmetic

variable {R : Type} [Scalar R]

/-- The series that an edit leads to. -/
def edit (d : SpeedSeries R) : Edit R → Except (Failure R) (SpeedSeries R)
  | .append p => d.append p
  | .clear => .ok d.clear
  | .fill finish unit => d.fill finish unit

/-- Ask for an edit. The series stays as it is when it is refused. -/
def attempt (d : SpeedSeries R) (e : Edit R) : SpeedSeries R × Option (Failure R) :=
  match d.edit e with
  | .ok d' => (d', none)
  | .error f => (d, some f)

/-- All series after a request. A copy is put after the others. -/
def after (series : List (SpeedSeries R)) : Request R → List (SpeedSeries R)
  | .edit i e => series.modify i fun d => (d.attempt e).1
  | .copy i => series ++ (series[i]?.map copy).toList

/-- The series that come from one that is made of samples. -/
def history (xs : List (SpeedSample R)) (requests : List (Request R)) : List (SpeedSeries R) :=
  requests.foldl after [ofList xs]

theorem attempt_of_ok {d d' : SpeedSeries R} {e : Edit R} (h : d.edit e = .ok d') :
    d.attempt e = (d', none) := by
  rw [attempt, h]

/-- A sample that comes before the last one is refused. -/
theorem attempt_early {d : SpeedSeries R} {p last : SpeedSample R}
    (hlast : d.samples.getLast? = some last) (hearly : p.t < last.t) :
    d.attempt (.append p) = (d, some (.invalid (.earlyTime p.t last.t))) := by
  rw [attempt, edit, append, hlast]
  simp only [if_pos hearly]

/-- Any other one is put at the end. -/
theorem attempt_late {d : SpeedSeries R} {p : SpeedSample R}
    (hlate : ∀ last, d.samples.getLast? = some last → ¬ p.t < last.t) :
    d.attempt (.append p) = (⟨d.samples ++ [p]⟩, none) := by
  refine attempt_of_ok ?_
  rw [edit, append]
  rcases hlast : d.samples.getLast? with _ | last
  · rw [List.getLast?_eq_none_iff.mp hlast, List.nil_append]
  · exact if_neg (hlate last hlast)

/-- An edit that is refused leaves all series as they are. -/
theorem after_refused {series : List (SpeedSeries R)} {i : Nat} {d : SpeedSeries R}
    (hd : series[i]? = some d) {e : Edit R} {f : Failure R} (he : d.attempt e = (d, some f)) :
    after series (.edit i e) = series := by
  refine List.ext_getElem? fun j => ?_
  rw [after, List.getElem?_modify]
  by_cases hthis : i = j
  · rw [← hthis, hd, Option.map_eq_map, Option.map_some, if_pos rfl, he]
  · simp only [if_neg hthis, Option.map_eq_map, Option.map_id']

/-- A request that edits none but other series leaves a series as it is. -/
theorem after_getElem? {series : List (SpeedSeries R)} {i : Nat} {d : SpeedSeries R}
    (hd : series[i]? = some d) {r : Request R} (hr : ∀ e, r ≠ .edit i e) :
    (after series r)[i]? = some d := by
  cases r with
  | edit j e =>
      have hother : j ≠ i := by
        rintro rfl
        exact hr e rfl
      rw [after, List.getElem?_modify, hd, Option.map_eq_map, Option.map_some, if_neg hother]
  | copy j =>
      rw [after, List.getElem?_append_left (List.getElem?_eq_some_iff.mp hd).1, hd]

/-- So do many such requests. -/
theorem foldl_after_getElem? (more : List (Request R)) :
    ∀ series : List (SpeedSeries R), ∀ {i : Nat} {d : SpeedSeries R}, series[i]? = some d →
      (∀ e, .edit i e ∉ more) → (more.foldl after series)[i]? = some d := by
  induction more with
  | nil => exact fun series i d hd _ => hd
  | cons r more ih =>
      intro series i d hd hmore
      rw [List.foldl_cons]
      -- The other requests are about the series that the first one leads to.
      refine ih _ (after_getElem? hd fun e hr => hmore e ?_) fun e he => hmore e ?_
      · rw [hr]
        exact List.mem_cons_self
      · exact List.mem_cons_of_mem r he

end AnyArithmetic

/-! Samples in order of time -/

section Sorting

variable {R : Type} [OrderedScalar R] {ys zs : List (SpeedSample R)} {last : SpeedSample R}

/-- Later samples in order may follow. -/
theorem Sorts.append (h : Sorts ys zs) {added : List (SpeedSample R)}
    (hadded : added.Pairwise fun p q => p.t ≤ q.t) (hlate : ∀ p ∈ ys, ∀ q ∈ added, p.t ≤ q.t) :
    Sorts (ys ++ added) (zs ++ added) := by
  refine ⟨h.perm.append_right added, List.pairwise_append.mpr ⟨h.ordered, hadded, ?_⟩, ?_⟩
  · exact fun p hp => hlate p (h.perm.mem_iff.mp hp)
  · intro t
    rw [List.filter_append, List.filter_append, h.stable t]

/-- No sample is later than the one at the end. -/
theorem Sorts.le_last (h : Sorts ys zs) (hlast : zs.getLast? = some last) :
    ∀ y ∈ ys, y.t ≤ last.t :=
  fun _ hy => rising_le_last h.ordered hlast (h.perm.mem_iff.mpr hy)

/-- It is the one that came last among the latest. -/
theorem Sorts.latest (h : Sorts ys zs) (hlast : zs.getLast? = some last) :
    ∃ before after, ys = before ++ last :: after ∧ (∀ y ∈ before, y.t ≤ last.t) ∧
      ∀ y ∈ after, y.t < last.t := by
  have hle := h.le_last hlast
  rcases List.getLast?_eq_some_iff.mp hlast with ⟨earlier, rfl⟩
  -- Among the samples of its time it is the last one, and these are in the order they came in.
  have hsame := h.stable last.t
  have hone : [last].filter (fun p => decide (p.t = last.t)) = [last] :=
    List.filter_eq_self.mpr fun p hp => decide_eq_true (by rw [List.mem_singleton.mp hp])
  rw [List.filter_append, hone] at hsame
  rcases List.filter_eq_append_iff.mp hsame.symm with ⟨front, back, rfl, _, hback⟩
  rcases List.filter_eq_cons_iff.mp hback with ⟨gap, after, rfl, _, _, hnone⟩
  refine ⟨front ++ gap, after, (List.append_assoc ..).symm, fun y hy => ?_, fun y hy => ?_⟩
  · rw [← List.append_assoc] at hle
    exact hle y (List.mem_append_left _ hy)
  · have hother := List.filter_eq_nil_iff.mp hnone y hy
    rw [decide_eq_true_eq] at hother
    refine lt_of_le_of_ne (hle y ?_) hother
    exact List.mem_append_right _ (List.mem_append_right _ (List.mem_cons_of_mem last hy))

end Sorting

/-! What has been taken in -/

variable {R : Type} [OrderedScalar R]

/-- Standing samples that continue what has been taken in up to an end, a unit after the
    other from the last one of the latest samples on. The next one would not come before
    the end, if any number of units leads there. -/
inductive Stands (finish unit : R) : List (SpeedSample R) → List (SpeedSample R) → Prop
  | nowhere : Stands finish unit [] []
  | from {before after : List (SpeedSample R)} {last : SpeedSample R} {m : Nat}
      (hbefore : ∀ y ∈ before, y.t ≤ last.t) (hafter : ∀ y ∈ after, y.t < last.t)
      (hsteps : ∀ i < m, (· + unit)^[i + 1] last.t < finish)
      (hend : ∀ n, finish ≤ (· + unit)^[n] last.t → finish ≤ (· + unit)^[m + 1] last.t) :
      Stands finish unit (before ++ last :: after) (last.rest unit m)

/-- The samples that a series has taken in by its edits, in the order in which they came,
    since it was cleared or else since it was made. One more sample is taken unless one
    of them is later. -/
inductive Taken (xs : List (SpeedSample R)) : List (Edit R) → List (SpeedSample R) → Prop
  | made : Taken xs [] xs
  | accepted {es : List (Edit R)} {ys : List (SpeedSample R)} {p : SpeedSample R}
      (h : Taken xs es ys) (hlate : ∀ y ∈ ys, y.t ≤ p.t) :
      Taken xs (es ++ [.append p]) (ys ++ [p])
  | refused {es : List (Edit R)} {ys : List (SpeedSample R)} {p y : SpeedSample R}
      (h : Taken xs es ys) (hy : y ∈ ys) (hearly : p.t < y.t) : Taken xs (es ++ [.append p]) ys
  | cleared {es : List (Edit R)} {ys : List (SpeedSample R)} (h : Taken xs es ys) :
      Taken xs (es ++ [.clear]) []
  | continued {es : List (Edit R)} {ys added : List (SpeedSample R)} {finish unit : R}
      (h : Taken xs es ys) (hadded : Stands finish unit ys added) :
      Taken xs (es ++ [.fill finish unit]) (ys ++ added)

/-- A series has what its edits have taken in, in order of time. -/
def Follows (xs : List (SpeedSample R)) (es : List (Edit R)) (d : SpeedSeries R) : Prop :=
  ∃ ys, Taken xs es ys ∧ Sorts ys d.samples

section Steps

variable {xs : List (SpeedSample R)} {es : List (Edit R)} {d : SpeedSeries R}

/-- One more sample is taken in, or is refused because the last one is later. -/
theorem Follows.append (h : Follows xs es d) (p : SpeedSample R) :
    Follows xs (es ++ [.append p]) (d.attempt (.append p)).1 := by
  rcases h with ⟨ys, htaken, hsorts⟩
  -- The last sample is the latest of those taken in, so that one alone decides.
  by_cases hlate : ∀ last, d.samples.getLast? = some last → ¬ p.t < last.t
  · have hafter : ∀ y ∈ ys, y.t ≤ p.t := by
      intro y hy
      have hsome : d.samples ≠ [] := List.ne_nil_of_mem (hsorts.perm.mem_iff.mpr hy)
      have hlast := List.getLast?_eq_some_getLast hsome
      exact (hsorts.le_last hlast y hy).trans (not_lt.mp (hlate _ hlast))
    rw [attempt_late hlate]
    refine ⟨_, htaken.accepted hafter, hsorts.append (List.pairwise_singleton _ p) ?_⟩
    intro y hy q hq
    rw [List.mem_singleton.mp hq]
    exact hafter y hy
  · simp only [not_forall, not_not] at hlate
    rcases hlate with ⟨last, hlast, hearly⟩
    have hmem : last ∈ ys := hsorts.perm.mem_iff.mp (List.mem_of_getLast? hlast)
    rw [attempt_early hlast hearly]
    exact ⟨ys, htaken.refused hmem hearly, hsorts⟩

/-- Standing samples are taken in, the first of them after the last sample. -/
theorem Follows.fill [SteppingScalar R] (h : Follows xs es d) {finish unit : R} (hunit : 0 < unit) :
    Follows xs (es ++ [.fill finish unit]) (d.attempt (.fill finish unit)).1 := by
  rcases h with ⟨ys, htaken, hsorts⟩
  rcases hlast : d.samples.getLast? with _ | last
  · -- Without samples there is no place to stand at.
    have hstays : d.edit (.fill finish unit) = .ok d := by
      rw [edit, SpeedSeries.fill, hlast]
    have hnone := List.getLast?_eq_none_iff.mp hlast
    rw [attempt_of_ok hstays]
    rw [hnone] at hsorts
    obtain rfl := hsorts.perm.nil_eq
    exact ⟨[], htaken.continued .nowhere, hnone ▸ hsorts⟩
  · rcases fill_rest hunit hlast finish with ⟨m, hfilled, hsteps, hend⟩
    rcases hsorts.latest hlast with ⟨before, after, rfl, hbefore, hafter⟩
    rcases last.rest_ordered hunit m with ⟨hordered, hlater⟩
    have hedit : d.edit (.fill finish unit) = .ok ⟨d.samples ++ last.rest unit m⟩ := hfilled
    rw [attempt_of_ok hedit]
    refine ⟨_, htaken.continued (.from hbefore hafter hsteps hend),
      hsorts.append hordered fun p hp q hq => ?_⟩
    exact (hsorts.le_last hlast p hp).trans (hlater q hq)

/-- A series goes on having what its edits have taken in after one more of them. -/
theorem Follows.attempt [SteppingScalar R] (h : Follows xs es d) (e : Edit R)
    (hunit : ∀ finish unit, e = .fill finish unit → 0 < unit) :
    Follows xs (es ++ [e]) (d.attempt e).1 := by
  cases e with
  | append p => exact h.append p
  | clear =>
      rcases h with ⟨ys, htaken, _⟩
      have hclear : d.edit .clear = .ok .empty := rfl
      rw [attempt_of_ok hclear]
      exact ⟨[], htaken.cleared, List.Perm.refl _, List.Pairwise.nil, fun t => rfl⟩
  | fill finish unit => exact h.fill (hunit finish unit rfl)

end Steps

/-- Every series has what its own edits have taken in. -/
structure Kept (xs : List (SpeedSample R)) (stories : List (List (Edit R)))
    (series : List (SpeedSeries R)) : Prop where
  length_eq : series.length = stories.length
  follows : ∀ (i : Nat) (d : SpeedSeries R), series[i]? = some d →
    ∃ es, stories[i]? = some es ∧ Follows xs es d

section Steps

variable {xs : List (SpeedSample R)} {stories : List (List (Edit R))}
  {series : List (SpeedSeries R)}

/-- It does after one more edit, which is in the story of the series that is edited and in
    no other. -/
theorem Kept.edit [SteppingScalar R] (h : Kept xs stories series) (i : Nat) {e : Edit R}
    (hunit : ∀ finish unit, e = .fill finish unit → 0 < unit) :
    Kept xs (record stories (.edit i e)) (after series (.edit i e)) := by
  constructor
  · rw [record, after, List.length_modify, List.length_modify, h.length_eq]
  · intro j d hd
    rw [after, List.getElem?_modify, Option.map_eq_map, Option.map_eq_some_iff] at hd
    rcases hd with ⟨d₀, hd₀, rfl⟩
    rcases h.follows j d₀ hd₀ with ⟨es, hes, hfollows⟩
    refine ⟨_, by rw [record, List.getElem?_modify, hes, Option.map_eq_map, Option.map_some], ?_⟩
    by_cases hthis : i = j
    · rw [if_pos hthis, if_pos hthis]
      exact hfollows.attempt e hunit
    · rw [if_neg hthis, if_neg hthis]
      exact hfollows

/-- And after a copy, which takes over the story of its original. -/
theorem Kept.copy (h : Kept xs stories series) (i : Nat) :
    Kept xs (record stories (.copy i)) (after series (.copy i)) := by
  rcases hd : series[i]? with _ | d
  · have hes : stories[i]? = none := by
      rw [List.getElem?_eq_none_iff, ← h.length_eq]
      exact List.getElem?_eq_none_iff.mp hd
    rw [record, after, hd, hes, Option.map_none, Option.toList_none, List.append_nil,
      Option.toList_none, List.append_nil]
    exact h
  · rcases h.follows i d hd with ⟨es, hes, hfollows⟩
    -- The samples are in order, so sorting them once more leaves them as they are.
    have hcopy : d.copy = d := by
      rcases hfollows with ⟨ys, _, hsorts⟩
      exact copy_eq hsorts.ordered
    rw [record, after, hd, hes, Option.map_some, hcopy, Option.toList_some, Option.toList_some]
    constructor
    · rw [List.length_append, List.length_append, h.length_eq, List.length_singleton,
        List.length_singleton]
    · intro j d' hd'
      rcases of_getElem?_concat hd' with hold | ⟨rfl, rfl⟩
      · rcases h.follows j d' hold with ⟨es', hes', hfollows'⟩
        have hlt := (List.getElem?_eq_some_iff.mp hes').1
        exact ⟨es', by rw [List.getElem?_append_left hlt, hes'], hfollows'⟩
      · exact ⟨es, by rw [h.length_eq, List.getElem?_concat_length], hfollows⟩

end Steps

/-- So it is after all that is asked for, by induction with a request added at the end. -/
theorem kept_history [SteppingScalar R] (xs : List (SpeedSample R)) (requests : List (Request R))
    (hunits : ∀ i finish unit, .edit i (.fill finish unit) ∈ requests → 0 < unit) :
    Kept xs (stories requests) (history xs requests) := by
  induction requests using List.reverseRecOn with
  | nil =>
      refine ⟨rfl, fun i d hd => ?_⟩
      rcases i with _ | i
      · rw [history, List.foldl_nil, List.getElem?_cons_zero, Option.some.injEq] at hd
        rw [← hd]
        exact ⟨[], rfl, xs, .made, ofList_sorts xs⟩
      · exact absurd hd (by simp [history])
  | append_singleton requests r ih =>
      have hkept := ih fun i finish unit hr => hunits i finish unit (List.mem_append_left [r] hr)
      have hlast : r ∈ requests ++ [r] := List.mem_append_right requests List.mem_cons_self
      rw [stories, history, List.foldl_concat, List.foldl_concat]
      -- Whatever held before the last request holds after it, by the kind of that.
      cases r with
      | edit i e =>
          refine hkept.edit i ?_
          rintro finish unit rfl
          exact hunits i finish unit hlast
      | copy i => exact hkept.copy i

/-- Continuing a series ends if some number of units leads from its last sample to the end
    asked for. -/
def Ends (d : SpeedSeries R) (finish unit : R) : Prop :=
  ∀ last, d.samples.getLast? = some last → ∃ n, finish ≤ (· + unit)^[n] last.t

/-- In exact arithmetic it always does. -/
theorem ends_of_pos {R : Type} [ExactScalar R] {unit : R} (hunit : 0 < unit)
    (d : SpeedSeries R) (finish : R) : d.Ends finish unit :=
  fun last _ => ⟨_, le_iterate_stepCount hunit last.t finish⟩

/-- Continuing a series once more adds nothing. -/
theorem fill_fill [SteppingScalar R] {unit : R} (hunit : 0 < unit) {d e : SpeedSeries R}
    {finish : R} (h : d.fill finish unit = .ok e) (hends : d.Ends finish unit) :
    e.fill finish unit = .ok e := by
  rcases hlast : d.samples.getLast? with _ | last
  · have hstays : d.fill finish unit = .ok d := by
      rw [fill, hlast]
    obtain rfl : d = e := Except.ok.inj (hstays.symm.trans h)
    exact h
  · rcases fill_rest hunit hlast finish with ⟨m, hfilled, _, hend⟩
    rcases hends last hlast with ⟨n, hn⟩
    obtain rfl : _ = e := Except.ok.inj (hfilled.symm.trans h)
    -- The next sample of the longer series is the one that would come too late.
    have hsome : d.samples ++ last.rest unit m ≠ [] :=
      List.append_ne_nil_of_left_ne_nil (List.ne_nil_of_mem (List.mem_of_getLast? hlast)) _
    have hnext := List.getLast?_eq_some_getLast hsome
    refine fill_done hnext ?_
    have hreached := hend n hn
    rw [Function.iterate_succ_apply', ← getLast?_rest hlast hnext] at hreached
    exact hreached

/-- Continuing a series by any unit that leads forward is never refused, and all that was
    there comes first. -/
theorem fill_total [SteppingScalar R] {unit : R} (hunit : 0 < unit) (d : SpeedSeries R)
    (finish : R) : ∃ e, d.fill finish unit = .ok e ∧ d.samples <+: e.samples := by
  rcases hlast : d.samples.getLast? with _ | last
  · exact ⟨d, by rw [fill, hlast], List.prefix_rfl⟩
  · rcases fill_rest hunit hlast finish with ⟨m, hfilled, _, _⟩
    exact ⟨_, hfilled, List.prefix_append _ _⟩

/-- Whatever is asked of a series and its copies, each of them has what its own edits have
    taken in, in order of time, those of one time as they came. A sample that comes before
    the last one is refused and changes nothing. Continuing a series leaves what was there
    in front, and doing so a second time adds nothing once it has come to an end, as it
    always does where nothing is rounded, `ends_of_pos`. A copy has the same samples, and a
    series does not change by what is asked of the others later. -/
theorem history_ordered [SteppingScalar R] (xs : List (SpeedSample R)) (requests : List (Request R))
    (hunits : ∀ i finish unit, .edit i (.fill finish unit) ∈ requests → 0 < unit) :
    (history xs requests).length = (stories requests).length ∧
      ∀ i d, (history xs requests)[i]? = some d →
        (∃ es ys, (stories requests)[i]? = some es ∧ Taken xs es ys ∧ Sorts ys d.samples) ∧
        (∀ p last, d.samples.getLast? = some last → p.t < last.t →
          d.append p = .error (.invalid (.earlyTime p.t last.t)) ∧
            history xs (requests ++ [.edit i (.append p)]) = history xs requests) ∧
        (∀ finish unit, 0 < unit → ∃ e, d.fill finish unit = .ok e ∧
          d.samples <+: e.samples ∧ (d.Ends finish unit → e.fill finish unit = .ok e)) ∧
        history xs (requests ++ [.copy i]) = history xs requests ++ [d] ∧
        ∀ more, (∀ e, .edit i e ∉ more) → (history xs (requests ++ more))[i]? = some d := by
  have hkept := kept_history xs requests hunits
  refine ⟨hkept.length_eq, fun i d hd => ?_⟩
  rcases hkept.follows i d hd with ⟨es, hes, ys, htaken, hsorts⟩
  refine ⟨⟨es, ys, hes, htaken, hsorts⟩, fun p last hlast hearly => ⟨?_, ?_⟩,
    fun finish unit hunit => ?_, ?_, fun more hmore => ?_⟩
  · rw [append, hlast]
    exact if_pos hearly
  · rw [history, List.foldl_concat]
    exact after_refused hd (attempt_early hlast hearly)
  · rcases fill_total hunit d finish with ⟨e, hfilled, hprefix⟩
    exact ⟨e, hfilled, hprefix, fill_fill hunit hfilled⟩
  · have hcopy : after (history xs requests) (.copy i) = history xs requests ++ [d] := by
      rw [after, hd, Option.map_some, copy_eq hsorts.ordered, Option.toList_some]
    rw [history, List.foldl_concat]
    exact hcopy
  · rw [history, List.foldl_append]
    exact foldl_after_getElem? more _ hd hmore

/-- Three samples out of order, two of them of one time. -/
def scatteredSamples : List (SpeedSample Rat) :=
  [⟨5, 2, 1, 0, 0⟩, ⟨0, 0, 0, 0, 0⟩, ⟨6, 2, 2, 0, 0⟩]

/-- A sample that comes too early, then a copy, which is cleared and begun anew, while its
    original is continued. -/
def entangledRequests : List (Request Rat) :=
  [.edit 0 (.append ⟨9, 1, 0, 0, 0⟩), .copy 0, .edit 1 .clear, .edit 0 (.fill 4 (1 / 2)),
    .edit 1 (.append ⟨0, 1, 0, 0, 0⟩)]

/-- Both series are in order and can be continued once more. -/
theorem history_ordered_entangledRequests :
    (∀ i finish unit, .edit i (.fill finish unit) ∈ entangledRequests → 0 < unit) ∧
    ∃ d e, history scatteredSamples entangledRequests = [d, e] ∧
      (d.samples.Pairwise fun p q => p.t ≤ q.t) ∧ (e.samples.Pairwise fun p q => p.t ≤ q.t) ∧
      ∃ f, d.fill 6 (1 / 3) = .ok f ∧ d.samples <+: f.samples ∧ f.fill 6 (1 / 3) = .ok f := by
  have hunits : ∀ i finish unit,
      .edit i (.fill finish unit) ∈ entangledRequests → 0 < unit := by
    intro i finish unit h
    simp only [entangledRequests, List.mem_cons, Request.edit.injEq, Edit.fill.injEq, reduceCtorEq,
      and_false, List.not_mem_nil, or_false, false_or] at h
    rcases h with ⟨_, _, rfl⟩
    decide +kernel
  rcases history_ordered scatteredSamples entangledRequests hunits with ⟨hlength, hseries⟩
  -- One request is for a copy.
  have htwo : (history scatteredSamples entangledRequests).length = 2 := hlength
  rcases List.length_eq_two.mp htwo with ⟨d, e, hhistory⟩
  rw [hhistory] at hseries
  rcases hseries 0 d rfl with ⟨⟨_, ys, _, _, hsorts⟩, _, hfill, _⟩
  rcases hseries 1 e rfl with ⟨⟨_, zs, _, _, hsorts'⟩, _⟩
  have hunit : (0 : Rat) < 1 / 3 := by decide +kernel
  rcases hfill 6 (1 / 3) hunit with ⟨f, hf, hprefix, hagain⟩
  exact ⟨hunits, d, e, hhistory, hsorts.ordered, hsorts'.ordered, f, hf, hprefix,
    hagain (ends_of_pos hunit d 6)⟩

end SpeedSeries

end JerkPlan
