import Mathlib.Data.List.Iterate
import JerkPlan.Proofs.Results
import JerkPlan.Proofs.Search
import JerkPlan.CurveFit

/-!
# Loops over distance and time

Two loops walk on in even steps until they reach an end: the one that looks
for the places at which a path is sampled, and the one that lets a published
motion stand still for as long as it is needed. Both are written with fuel, and
what has to be known is that they never run out of it. `stations_iterate` is the
one induction about either: a loop that has fuel left has reached its end. It takes
nothing from arithmetic, since a loop adds one step after another. Where nothing is
rounded, that many steps are one product, and the places are evenly spaced. The fuel
given is `stepCount`, which is enough for the whole distance whenever a step leads
forward.

Steps that are rounded may fall short of their length, or be lost altogether. Of
`SteppingScalar` it is only asked that no step leads back, and that the steps counted
get as far as any number of them would.

Nothing is assumed of the path. Its points may be out of order, and its end may
come before its start, in which case there is nothing to sample.

## Main definitions

* `SpeedSample.rest`: Standing where a sample leaves off.
* `SteppingScalar`: Scalars by which a loop can walk on.

## Theorems

* `stations_iterate`, `standing_eq`: The places and samples of a loop.
* `le_stepCount_mul`: The steps counted cover the time.
* `stations_eq`: The places of a loop in exact arithmetic.
* `stations_covers`: A loop ends by its own test.
* `SpeedSeries.fill_rest`, `SpeedSeries.fill_eq`: A series can be continued for as long as
  asked for.
* `Path.pointAt_total`: A path with points has one at every distance.
* `sampleCurvature_eq`, `sampleCurvature_total`: The curvature can be sampled along any path.
-/

namespace JerkPlan

section AnyArithmetic

variable {R : Type} [OrderedScalar R]

/-- The places of a loop are one step after the other and before its end, and there are
    as many as there is fuel unless the next one has reached the end. -/
theorem stations_iterate (spacing finish : R) (fuel : Nat) :
    ∀ s, ∃ m, stations spacing finish fuel s = List.iterate (· + spacing) s m ∧
      (∀ i < m, (· + spacing)^[i] s < finish) ∧
      (m = fuel ∨ finish ≤ (· + spacing)^[m] s) := by
  induction fuel with
  | zero =>
      intro s
      exact ⟨0, rfl, fun i hi => absurd hi (Nat.not_lt_zero i), Or.inl rfl⟩
  | succ fuel ih =>
      intro s
      by_cases hs : s < finish
      · -- The places after the first one are those of the loop from there.
        rcases ih (s + spacing) with ⟨m, hplaces, hbefore, hend⟩
        refine ⟨m + 1, ?_, ?_, ?_⟩
        · rw [stations, if_pos hs, hplaces, List.iterate]
        · intro i hi
          cases i with
          | zero => exact hs
          | succ i => exact hbefore i (by omega)
        · exact hend.imp_left fun hm => by rw [hm]
      · refine ⟨0, ?_, fun i hi => absurd hi (Nat.not_lt_zero i), Or.inr (not_lt.mp hs)⟩
        rw [stations, if_neg hs, List.iterate]

/-- Standing samples are at the places of the same loop, in time. -/
theorem standing_eq (s unit finish : R) (fuel : Nat) :
    ∀ t, SpeedSeries.standing s unit finish fuel t =
      (stations unit finish fuel t).map fun t => ⟨s, t, 0, 0, 0⟩ := by
  induction fuel with
  | zero => exact fun t => rfl
  | succ fuel ih =>
      intro t
      rw [SpeedSeries.standing, stations]
      by_cases ht : t < finish
      · rw [if_pos ht, if_pos ht, List.map_cons, ih]
      · rw [if_neg ht, if_neg ht, List.map_nil]

/-- Standing where a sample leaves off, for a number of units. -/
def SpeedSample.rest (last : SpeedSample R) (unit : R) (m : Nat) : List (SpeedSample R) :=
  (List.iterate (· + unit) (last.t + unit) m).map fun t => ⟨last.s, t, 0, 0, 0⟩

namespace SpeedSeries

variable {d : SpeedSeries R} {last : SpeedSample R} {unit : R}

/-- The last sample of a series that has been continued by some units. -/
theorem getLast?_rest (hlast : d.samples.getLast? = some last) {m : Nat} {q : SpeedSample R}
    (hq : (d.samples ++ last.rest unit m).getLast? = some q) : q.t = (· + unit)^[m] last.t := by
  cases m with
  | zero =>
      rw [SpeedSample.rest, List.iterate, List.map_nil, List.append_nil, hlast,
        Option.some.injEq] at hq
      rw [← hq, Function.iterate_zero, id]
  | succ m =>
      rw [SpeedSample.rest, ← List.range_map_iterate, List.range_succ, List.map_append,
        List.map_append, List.map_singleton, List.map_singleton, ← List.append_assoc,
        List.getLast?_concat, Option.some.injEq] at hq
      rw [← hq, Function.iterate_succ_apply]

/-- A series whose next sample would not come before the end stays as it is. -/
theorem fill_done (hlast : d.samples.getLast? = some last) {finish : R}
    (hnext : finish ≤ last.t + unit) : d.fill finish unit = .ok d := by
  have hlate : ¬ last.t + unit < finish := not_lt.mpr hnext
  unfold fill
  by_cases henough : finish ≤ last.t
  · rw [hlast]
    exact if_pos henough
  · -- The test ends the loop before its first sample, whatever its fuel.
    have hnone (fuel : Nat) : standing last.s unit finish fuel (last.t + unit) = [] := by
      cases fuel with
      | zero => rfl
      | succ fuel => rw [standing, if_neg hlate]
    simp only [hlast, if_neg henough, hlate, false_and, if_false, hnone, List.append_nil]

end SpeedSeries

end AnyArithmetic

/-- Scalars in a linear order by which a loop can walk on. A positive step does not lead
    back, and if an end is reached by any number of steps, it is by those counted. -/
class SteppingScalar (R : Type) [OrderedScalar R] : Prop where
  le_add_of_pos (t unit : R) (h : 0 < unit) : t ≤ t + unit
  reaches (t unit finish : R) (h : 0 < unit) (n : Nat) (hn : finish ≤ (· + unit)^[n] t) :
    finish ≤ (· + unit)^[SpeedSeries.stepCount (finish - t) unit] t

section Stepping

variable {R : Type} [OrderedScalar R] [SteppingScalar R] {unit : R}

/-- No number of steps leads back. -/
theorem le_iterate (hunit : 0 < unit) (t : R) (n : Nat) : t ≤ (· + unit)^[n] t := by
  induction n generalizing t with
  | zero => exact le_rfl
  | succ n ih => exact (SteppingScalar.le_add_of_pos t unit hunit).trans (ih (t + unit))

/-- Times of standing samples are in order, and none is before the sample left off. -/
theorem SpeedSample.rest_ordered (hunit : 0 < unit) (last : SpeedSample R) (m : Nat) :
    ((last.rest unit m).Pairwise fun p q => p.t ≤ q.t) ∧
      ∀ p ∈ last.rest unit m, last.t ≤ p.t := by
  constructor
  · rw [rest, List.pairwise_map, ← List.range_map_iterate, List.pairwise_map]
    refine List.pairwise_lt_range.imp fun {i j} hij => ?_
    -- The later time is as many steps after the earlier one as lie between them.
    have hlater := le_iterate hunit ((· + unit)^[i] (last.t + unit)) (j - i)
    rw [← Function.iterate_add_apply, Nat.sub_add_cancel hij.le] at hlater
    exact hlater
  · intro p hp
    rcases List.mem_map.mp hp with ⟨t, ht, rfl⟩
    rcases List.mem_iterate.mp ht with ⟨i, _, rfl⟩
    exact (SteppingScalar.le_add_of_pos last.t unit hunit).trans (le_iterate hunit _ i)

/-- What continuing a series adds, by any unit that leads forward: standing samples, each
    a unit after the one before it, all before the end asked for. The next one would not
    be, if any number of units leads to the end at all. -/
theorem SpeedSeries.fill_rest (hunit : 0 < unit) {d : SpeedSeries R} {last : SpeedSample R}
    (hlast : d.samples.getLast? = some last) (finish : R) :
    ∃ m, d.fill finish unit = .ok ⟨d.samples ++ last.rest unit m⟩ ∧
      (∀ i < m, (· + unit)^[i + 1] last.t < finish) ∧
      ∀ n, finish ≤ (· + unit)^[n] last.t → finish ≤ (· + unit)^[m + 1] last.t := by
  have hforward := SteppingScalar.le_add_of_pos last.t unit hunit
  by_cases hnext : finish ≤ last.t + unit
  · refine ⟨0, ?_, fun i hi => absurd hi (Nat.not_lt_zero i), fun _ _ => hnext⟩
    rw [fill_done hlast hnext, SpeedSample.rest, List.iterate, List.map_nil, List.append_nil]
  · have hshort : ¬ finish ≤ last.t := fun h => hnext (h.trans hforward)
    -- The unit leads forward, so continuing is never refused.
    have hback : ¬ last.t + unit < last.t := not_lt.mpr hforward
    rcases stations_iterate unit finish (stepCount (finish - last.t) unit) (last.t + unit) with
      ⟨m, hplaces, hbefore, hend⟩
    refine ⟨m, ?_, hbefore, fun n hn => ?_⟩
    · unfold fill
      simp only [hlast, if_neg hshort, hback, and_false, if_false, standing_eq, hplaces,
        SpeedSample.rest]
    · rcases hend with rfl | hend
      · -- All fuel is used, and the steps counted have got there.
        have hcounted := SteppingScalar.reaches last.t unit finish hunit n hn
        rw [Function.iterate_succ_apply']
        exact hcounted.trans (SteppingScalar.le_add_of_pos _ unit hunit)
      · exact hend

end Stepping

variable {R : Type} [ExactScalar R]

/-- In exact arithmetic many steps are one product. -/
theorem iterate_add (s spacing : R) (i : Nat) : (· + spacing)^[i] s = s + (i : R) * spacing := by
  rw [add_right_iterate, nsmul_eq_mul]

/-- The steps that are counted cover the time. -/
theorem le_stepCount_mul {unit : R} (hunit : 0 < unit) (time : R) :
    time ≤ (SpeedSeries.stepCount time unit : R) * unit := by
  rcases ceiling_eq (time / unit) with ⟨n, hn, hle, _⟩
  -- A negative number of steps counts as none.
  have hcount : (n : R) ≤ (SpeedSeries.stepCount time unit : R) := by
    rw [SpeedSeries.stepCount, hn]
    have hnat : n ≤ ((n.toNat + Nat.pow 2 62 : Nat) : Int) := by omega
    rw [← Int.cast_natCast]
    exact Int.cast_le.mpr hnat
  exact (div_le_iff₀ hunit).mp (hle.trans hcount)

/-- So the steps from a time reach any later one. -/
theorem le_iterate_stepCount {unit : R} (hunit : 0 < unit) (t finish : R) :
    finish ≤ (· + unit)^[SpeedSeries.stepCount (finish - t) unit] t := by
  rw [iterate_add, ← sub_le_iff_le_add']
  exact le_stepCount_mul hunit (finish - t)

instance : SteppingScalar R where
  le_add_of_pos _ _ h := le_add_of_nonneg_right h.le
  reaches t _ finish h _ _ := le_iterate_stepCount h t finish

/-- The places of a loop are evenly spaced before its end, and there are as many
    as there is fuel unless the next one has reached the end. -/
theorem stations_eq (spacing finish : R) (fuel : Nat) (s : R) :
    ∃ m, stations spacing finish fuel s =
        (List.range m).map (fun (i : Nat) => s + (i : R) * spacing) ∧
      (∀ i < m, s + (i : R) * spacing < finish) ∧
      (m = fuel ∨ finish ≤ s + (m : R) * spacing) := by
  rcases stations_iterate spacing finish fuel s with ⟨m, hplaces, hbefore, hend⟩
  refine ⟨m, ?_, fun i hi => iterate_add s spacing i ▸ hbefore i hi, iterate_add s spacing m ▸ hend⟩
  rw [hplaces, ← List.range_map_iterate]
  exact List.map_congr_left fun i _ => iterate_add s spacing i

/-- A loop whose fuel covers the distance ends by its own test: the step after
    its last place reaches the end. -/
theorem stations_covers {spacing : R} (hspacing : 0 < spacing) (finish s : R) :
    ∃ m, stations spacing finish (SpeedSeries.stepCount (finish - s) spacing) s =
        (List.range m).map (fun (i : Nat) => s + (i : R) * spacing) ∧
      (∀ i < m, s + (i : R) * spacing < finish) ∧ finish ≤ s + (m : R) * spacing := by
  rcases stations_eq spacing finish (SpeedSeries.stepCount (finish - s) spacing) s with
    ⟨m, hplaces, hbefore, hend⟩
  refine ⟨m, hplaces, hbefore, ?_⟩
  -- Either all fuel was used, which covers the distance, or the test ended it.
  rcases hend with hm | hend
  · rw [hm, ← sub_le_iff_le_add']
    exact le_stepCount_mul hspacing (finish - s)
  · exact hend

/-- Standing samples are a unit apart. -/
theorem SpeedSample.rest_eq (last : SpeedSample R) (unit : R) (l : Nat) : last.rest unit l =
    (List.range l).map fun (i : Nat) =>
      ⟨last.s, last.t + ((i + 1 : Nat) : R) * unit, 0, 0, 0⟩ := by
  rw [rest, ← List.range_map_iterate, List.map_map]
  refine List.map_congr_left fun i _ => ?_
  rw [Function.comp_apply, ← Function.iterate_succ_apply, iterate_add]

/-- What continuing a series adds in exact arithmetic: standing samples a unit apart, all
    before the end asked for, and the next one would not be. -/
theorem SpeedSeries.fill_eq {unit : R} (hunit : 0 < unit) {d : SpeedSeries R} {last : SpeedSample R}
    (hlast : d.samples.getLast? = some last) (finish : R) :
    ∃ l : Nat, d.fill finish unit = .ok ⟨d.samples ++ (List.range l).map fun (i : Nat) =>
        ⟨last.s, last.t + ((i + 1 : Nat) : R) * unit, 0, 0, 0⟩⟩ ∧
      (∀ i < l, last.t + ((i + 1 : Nat) : R) * unit < finish) ∧
      finish ≤ last.t + ((l + 1 : Nat) : R) * unit := by
  rcases fill_rest hunit hlast finish with ⟨l, hfilled, hbefore, hend⟩
  refine ⟨l, ?_, fun i hi => ?_, ?_⟩
  · rw [hfilled, SpeedSample.rest_eq]
  · rw [← iterate_add]
    exact hbefore i hi
  · rw [← iterate_add]
    exact hend _ (le_iterate_stepCount hunit last.t finish)

/-- The last sample of a series that has been continued so. -/
theorem SpeedSeries.getLast?_filled {unit : R} {d : SpeedSeries R} {last : SpeedSample R}
    (hlast : d.samples.getLast? = some last) {l : Nat} {q : SpeedSample R}
    (hq : (d.samples ++ (List.range l).map fun (i : Nat) =>
      (⟨last.s, last.t + ((i + 1 : Nat) : R) * unit, 0, 0, 0⟩ : SpeedSample R)).getLast? = some q) :
    q.t = last.t + (l : R) * unit := by
  rw [← SpeedSample.rest_eq] at hq
  rw [getLast?_rest hlast hq, iterate_add]

/-! Sampling a path -/

/-- A path with points has a point at every distance. -/
theorem Path.pointAt_total {path : Path R} (hpath : path.points ≠ []) (s : R) :
    ∃ q, path.pointAt s = .ok q := by
  have hpos : 0 < path.points.length := List.length_pos_iff.mpr hpath
  have hle := lowerIndex_le (path.points.map (·.s)) s
  rw [List.length_map] at hle
  unfold pointAt
  simp only
  -- There is always a point at or before the index found.
  split
  · exact ⟨_, rfl⟩
  · exact ⟨_, rfl⟩
  · next hnone =>
      rw [List.getElem?_eq_none_iff] at hnone
      omega

/-- A path with points has a first one and a last one. -/
theorem Path.ends {R : Type} [Scalar R] {path : Path R} (hpath : path.points ≠ []) :
    ∃ first last, path.front = .ok first ∧ path.back = .ok last ∧
      path.points.head? = some first ∧ path.points.getLast? = some last := by
  have hfirst := List.head?_eq_some_head hpath
  have hlast := List.getLast?_eq_some_getLast hpath
  exact ⟨_, _, by rw [front, hfirst, Option.elim_some], by rw [back, hlast, Option.elim_some],
    hfirst, hlast⟩

/-- The samples of the curvature of a path are those at places a spacing apart from its
    first point on. All places come before the one that is a spacing past the last point,
    and the next one would not. -/
theorem sampleCurvature_eq {path : Path R} (hpath : path.points ≠ []) {first last : PathPoint R}
    (hfirst : path.front = .ok first) (hlast : path.back = .ok last) {spacing : R}
    (hspacing : 0 < spacing) :
    ∃ samples, sampleCurvature path spacing = .ok samples ∧
      (∀ i < samples.length, first.s + (i : R) * spacing < last.s + spacing) ∧
      last.s + spacing ≤ first.s + (samples.length : R) * spacing ∧
      ∀ (i : Nat) kappa, samples[i]? = some kappa →
        ∃ q, path.pointAt (first.s + (i : R) * spacing) = .ok q ∧ q.kappa = kappa := by
  rcases stations_covers hspacing (last.s + spacing) first.s with ⟨m, hplaces, hbefore, hcovers⟩
  have hkappa (s : R) : ∃ kappa, (do return (← path.pointAt s).kappa :
      Except (Failure R) R) = .ok kappa := by
    rcases Path.pointAt_total hpath s with ⟨q, hq⟩
    exact ⟨q.kappa, by rw [hq]; rfl⟩
  rcases mapM_total ((List.range m).map fun (i : Nat) => first.s + (i : R) * spacing)
    fun s _ => hkappa s with ⟨samples, hsamples, hlength⟩
  rw [List.length_map, List.length_range] at hlength
  refine ⟨samples, ?_, ?_, ?_, fun i kappa hi => ?_⟩
  · rw [sampleCurvature, hfirst, hlast]
    change (stations _ _ _ _).mapM _ = _
    rw [hplaces]
    exact hsamples
  · rw [hlength]
    exact hbefore
  · rw [hlength]
    exact hcovers
  · have him : i < m := hlength ▸ (List.getElem?_eq_some_iff.mp hi).1
    have hread := mapM_entry _ hsamples i (first.s + (i : R) * spacing) kappa
      (by rw [List.getElem?_map, List.getElem?_range him, Option.map_some]) hi
    rcases bind_eq_ok_iff.mp hread with ⟨q, hq, hvalue⟩
    exact ⟨q, hq, Except.ok.inj hvalue⟩

/-- The curvature can be sampled along any path that has points, and sampling
    goes on until a spacing past the last of them. -/
theorem sampleCurvature_total {path : Path R} (hpath : path.points ≠ []) {spacing : R}
    (hspacing : 0 < spacing) :
    ∃ first last samples, path.front = .ok first ∧ path.back = .ok last ∧
      sampleCurvature path spacing = .ok samples ∧
      last.s + spacing ≤ first.s + (samples.length : R) * spacing := by
  rcases Path.ends hpath with ⟨first, last, hfirst, hlast, _⟩
  rcases sampleCurvature_eq hpath hfirst hlast hspacing with ⟨samples, hsamples, _, hcovers, _⟩
  exact ⟨first, last, samples, hfirst, hlast, hsamples, hcovers⟩

end JerkPlan
