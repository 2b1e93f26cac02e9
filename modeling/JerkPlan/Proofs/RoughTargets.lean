import JerkPlan.Proofs.OrderedReadings
import JerkPlan.Proofs.UniqueMinimum

/-!
# Rough targets

The targets of a convex plan are read off the rough motion, every one of them.

A horizon begins at time zero and may last longer than the rough motion does. The rough
motion may begin later than that, and all of its samples may be of one time. So a knot
is read at its own time only where that lies between the first sample and the last, and
otherwise at the one of them that is nearer. Put there, a time can always be read, and
the place of the vehicle, which stands in for a reading that fails, is never a target.

Putting times between two others keeps their order. So nothing but readings has to be
compared: they stay among the samples, and they rise if the samples do.

## Main definitions

* `SpeedSeries.nearest`: A time put between the ends of a series.

## Theorems

* `SpeedSeries.nearest_mono`, `SpeedSeries.byTime_nearest`: Times put between the ends.
* `referenceDistances_read`: The targets of a convex plan.
-/

namespace JerkPlan

variable {R : Type} [ExactScalar R]

namespace SpeedSeries

/-- A time put between two samples. -/
def nearest (first last : SpeedSample R) (t : R) : R := min (max t first.t) last.t

theorem nearest_mono (first last : SpeedSample R) {t t' : R} (h : t ≤ t') :
    nearest first last t ≤ nearest first last t' :=
  min_le_min_right _ (max_le_max_right _ h)

variable {d : SpeedSeries R} {first last : SpeedSample R}

/-- In a series in order the last sample is not before the first one. -/
theorem first_le_last (hsorted : d.samples.Pairwise fun x y => x.t ≤ y.t)
    (hfirst : d.samples.head? = some first) (hlast : d.samples.getLast? = some last) :
    first.t ≤ last.t :=
  rising_first_le hsorted hfirst (List.mem_of_getLast? hlast)

/-- A series in order can be read at any time that is put between its ends, and says of
    the distance nothing but what its samples say. -/
theorem byTime_nearest (hlength : 2 ≤ d.samples.length)
    (hsorted : d.samples.Pairwise fun x y => x.t ≤ y.t)
    (hfirst : d.samples.head? = some first) (hlast : d.samples.getLast? = some last) (t : R) :
    ∃ x, d.byTime (nearest first last t) = some x ∧ (∃ y ∈ d.samples, y.s ≤ x.s) ∧
      ∃ y ∈ d.samples, x.s ≤ y.s := by
  have hspan := first_le_last hsorted hfirst hlast
  have hafter (x : SpeedSample R) (hx : d.samples.head? = some x) :
      x.t ≤ nearest first last t := by
    rw [← Option.some.inj (hfirst.symm.trans hx)]
    exact le_min (le_max_right _ _) hspan
  have hbefore (x : SpeedSample R) (hx : d.samples.getLast? = some x) :
      nearest first last t ≤ x.t := by
    rw [← Option.some.inj (hlast.symm.trans hx)]
    exact min_le_right _ _
  rcases bracket_within hlength hafter hbefore with ⟨_, p, q, hbracket, _, _, _, hwithin⟩
  exact ⟨_, by rw [byTime, hbracket, Option.map_some], hwithin (·.s)⟩

end SpeedSeries

open SpeedSeries

/-- Two samples of rough motion in order give a target for each knot of a horizon, and
    each is a reading, at the time of the knot or at the end that is nearer. No target is
    outside of what the samples say. All knots from the end on have the same one, and if
    the motion never goes back, neither do the targets. -/
theorem referenceDistances_read {rough : SpeedSeries R} (hlength : 2 ≤ rough.samples.length)
    (hsorted : rough.samples.Pairwise fun x y => x.t ≤ y.t) {h : Horizon R} (hknots : 0 ≤ h.knots)
    (hstep : 0 < h.step) :
    ∃ first last targets, rough.front = .ok first ∧ rough.back = .ok last ∧
      referenceDistances rough h = .ok targets ∧ (targets.length : Int) = h.knots ∧
      (∀ i : Nat, (i : Int) < h.knots → ∃ x,
        rough.byTime (nearest first last (i * h.step)) = some x ∧ targets[i]? = some x.s) ∧
      (∀ target ∈ targets, (∃ x ∈ rough.samples, x.s ≤ target) ∧
        ∃ x ∈ rough.samples, target ≤ x.s) ∧
      (∃ common, ∀ i : Nat, (i : Int) < h.knots → last.t ≤ i * h.step →
        targets[i]? = some common) ∧
      (rough.samples.Pairwise (fun x y => x.s ≤ y.s) → targets.Pairwise (· ≤ ·)) := by
  have hsome : rough.samples ≠ [] :=
    List.ne_nil_of_length_pos (Nat.lt_of_lt_of_le Nat.two_pos hlength)
  have hfirst := List.head?_eq_some_head hsome
  have hlast := List.getLast?_eq_some_getLast hsome
  generalize rough.samples.head hsome = first at hfirst
  generalize rough.samples.getLast hsome = last at hlast
  choose reading hreading hlow hhigh using byTime_nearest hlength hsorted hfirst hlast
  -- Every reading succeeds, so the place of the vehicle is never taken.
  have htargets : referenceDistances rough h =
      .ok ((List.range h.knots.toNat).map fun (i : Nat) => (reading (i * h.step)).s) := by
    rw [referenceDistances_eq hfirst hlast]
    refine congrArg Except.ok (List.map_congr_left fun i _ => ?_)
    change (rough.byTime (nearest first last (i * h.step))).elim _ _ = _
    rw [hreading, Option.elim_some]
  have hget (i : Nat) (hi : (i : Int) < h.knots) :
      ((List.range h.knots.toNat).map fun (i : Nat) => (reading (i * h.step)).s)[i]? =
        some (reading (i * h.step)).s := by
    rw [List.getElem?_map, List.getElem?_range (by omega), Option.map_some]
  refine ⟨first, last, _, ?_, ?_, htargets, ?_, fun i hi => ⟨_, hreading _, hget i hi⟩, ?_, ?_,
    fun hrising => ?_⟩
  · rw [front, hfirst, Option.elim_some]
  · rw [back, hlast, Option.elim_some]
  · rw [List.length_map, List.length_range, Int.toNat_of_nonneg hknots]
  · intro target htarget
    rcases List.mem_map.mp htarget with ⟨i, _, rfl⟩
    exact ⟨hlow _, hhigh _⟩
  · -- Whatever comes after the end is put at the end.
    refine ⟨(reading last.t).s, fun i hi hbeyond => ?_⟩
    have hsame : nearest first last (i * h.step) = nearest first last last.t := by
      have hspan := first_le_last hsorted hfirst hlast
      rw [nearest, nearest, min_eq_right (hbeyond.trans (le_max_left _ _)),
        min_eq_right (le_max_left _ _)]
    have hread := hreading (i * h.step)
    rw [hsame, hreading, Option.some.injEq] at hread
    rw [hget i hi, hread]
  · -- Later knots are read later, and later readings are not lower.
    refine List.pairwise_map.mpr (List.pairwise_lt_range.imp fun {i j} hij => ?_)
    have hlater : (i : R) * h.step ≤ (j : R) * h.step :=
      mul_le_mul_of_nonneg_right (Nat.cast_le.mpr hij.le) hstep.le
    exact byTime_mono hsorted hrising (hreading _) (hreading _) (nearest_mono first last hlater)

/-- Rough motion that begins after two seconds, with two samples of one time. -/
def lateStart : SpeedSeries Rat := ⟨[⟨3, 2, 1, 0, 0⟩, ⟨5, 2, 2, 0, 0⟩, ⟨9, 4, 2, 0, 0⟩]⟩

/-- Five knots, of which two come before that motion and two after it. -/
def longWatch : Horizon Rat := { standstill with knots := 5, step := 3 / 2 }

theorem referenceDistances_lateStart : 2 ≤ lateStart.samples.length ∧
    lateStart.samples.Pairwise (fun x y => x.t ≤ y.t) ∧ 0 ≤ longWatch.knots ∧
      0 < longWatch.step ∧ ∃ targets, referenceDistances lateStart longWatch = .ok targets ∧
        targets = [3, 3, 7, 9, 9] ∧ (targets.length : Int) = longWatch.knots ∧
          (∀ target ∈ targets, (∃ x ∈ lateStart.samples, x.s ≤ target) ∧
            ∃ x ∈ lateStart.samples, target ≤ x.s) ∧ targets.Pairwise (· ≤ ·) := by
  have hlength : 2 ≤ lateStart.samples.length := by decide
  have hsorted : lateStart.samples.Pairwise fun x y => x.t ≤ y.t := by decide +kernel
  have hrising : lateStart.samples.Pairwise fun x y => x.s ≤ y.s := by decide +kernel
  have hknots : 0 ≤ longWatch.knots := by decide
  have hstep : 0 < longWatch.step := by decide +kernel
  rcases referenceDistances_read hlength hsorted hknots hstep with
    ⟨_, _, targets, _, _, htargets, hcount, _, hwithin, _, hmonotone⟩
  have hvalues : (referenceDistances lateStart longWatch).toOption = some [3, 3, 7, 9, 9] := by
    decide +kernel
  rw [htargets] at hvalues
  exact ⟨hlength, hsorted, hknots, hstep, targets, htargets, Option.some.inj hvalues, hcount,
    hwithin, hmonotone hrising⟩

/-- Without its last sample all of the motion is at one time, and is read at its first
    sample. -/
example : (referenceDistances ⟨lateStart.samples.take 2⟩ longWatch).toOption =
    some [3, 3, 3, 3, 3] := by decide +kernel

end JerkPlan
