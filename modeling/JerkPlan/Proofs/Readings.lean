import JerkPlan.Proofs.Search
import JerkPlan.SpeedSeries

/-!
# Reading a series

Where a series can be read, and what it says of uniform motion.

A reading needs two samples and may reach a little beyond either end. That is
all: `bracket_isSome_iff` asks nothing of the order of the samples, since the
halving search always ends at some neighbour of some sample.

Between its two ends a reading has the value it is read for between the two
samples that it uses, or meets the first of them. So interpolation returns a
line that all samples are on. The two samples of one time that a search may
stop between do not matter here: a time between two samples of one time is the
time of the first one.

## Main definitions

* `SpeedSeries.Apart`: Neighbours of one time, or of times that interpolation
  can tell apart.

## Theorems

* `SpeedSeries.bracket_isSome_iff`, `SpeedSeries.byTime_isSome_iff`: Where a
  series can be read.
* `SpeedSeries.byTime_knots_iff`: Reading a series at every knot.
* `SpeedSeries.bracket_between`: The samples of a reading between the ends.
* `lerp_line`, `lerp_end`: Interpolation on a line, and at the second point.
* `SpeedSeries.byTime_line`: Uniform motion is read as it is.
-/

namespace JerkPlan

/-! Where a series can be read -/

namespace SpeedSeries

section Readable

variable {R : Type} [Scalar R] {d : SpeedSeries R}

/-- A series can be read where it has two samples and the reading does not lie
    further than the overhang beyond them. -/
theorem bracket_isSome_iff {key : SpeedSample R → R} {x : R} :
    (d.bracket key x).isSome ↔ 2 ≤ d.samples.length ∧
      (∀ first, d.samples.head? = some first → key first < x + overhang) ∧
        ∀ last, d.samples.getLast? = some last → x - overhang < key last := by
  rcases d with ⟨samples⟩
  unfold bracket
  by_cases hshort : samples.length < 2
  · rw [if_pos hshort]
    exact ⟨fun h => absurd h (by simp), fun h => absurd h.1 (Nat.not_le.mpr hshort)⟩
  have hlength : 2 ≤ samples.length := Nat.not_lt.mp hshort
  have hsome : samples ≠ [] := List.ne_nil_of_length_pos (by omega)
  rw [if_neg hshort]
  simp only [List.head?_eq_some_head hsome, List.getLast?_eq_some_getLast hsome,
    Option.some.injEq, forall_eq']
  by_cases hin : key (samples.head hsome) < x + overhang ∧
      x - overhang < key (samples.getLast hsome)
  · -- The index is put between the second sample and the last one.
    rw [if_pos hin]
    have hindex : max 1 (min (lowerIndex (samples.map key) x) (samples.length - 1)) <
        samples.length := by omega
    rw [List.getElem?_eq_getElem (by omega : max 1 (min (lowerIndex (samples.map key) x)
      (samples.length - 1)) - 1 < samples.length), List.getElem?_eq_getElem hindex]
    exact ⟨fun _ => ⟨hlength, hin⟩, fun _ => rfl⟩
  · rw [if_neg hin]
    exact ⟨fun h => absurd h (by simp), fun h => absurd h.2 hin⟩

/-- So it is with readings by time. -/
theorem byTime_isSome_iff {t : R} :
    (d.byTime t).isSome ↔ 2 ≤ d.samples.length ∧
      (∀ first, d.samples.head? = some first → first.t < t + overhang) ∧
        ∀ last, d.samples.getLast? = some last → t - overhang < last.t := by
  rw [byTime, Option.isSome_map, bracket_isSome_iff]

end Readable

/-! Uniform motion -/

variable {R : Type} [ExactScalar R] {d : SpeedSeries R}

theorem overhang_pos : (0 : R) < overhang := decimal_pos Nat.one_pos 6

/-- A series can be read at every knot where it can be read at the first one and
    at the last. -/
theorem byTime_knots_iff {n : Nat} {step : R} (hn : 0 < n) (hstep : 0 < step) :
    (∀ i : Nat, i < n → (d.byTime ((i : R) * step)).isSome) ↔ 2 ≤ d.samples.length ∧
      (∀ first, d.samples.head? = some first → first.t < overhang) ∧
        ∀ last, d.samples.getLast? = some last →
          ((n - 1 : Nat) : R) * step - overhang < last.t := by
  simp only [byTime_isSome_iff]
  constructor
  · intro hread
    rcases hread 0 hn with ⟨hlength, hfirst, _⟩
    rcases hread (n - 1) (by omega) with ⟨_, _, hlast⟩
    rw [Nat.cast_zero, zero_mul, zero_add] at hfirst
    exact ⟨hlength, hfirst, hlast⟩
  · rintro ⟨hlength, hfirst, hlast⟩ i hi
    have hlater : 0 ≤ (i : R) * step := mul_nonneg (Nat.cast_nonneg i) hstep.le
    have hearlier : (i : R) * step ≤ ((n - 1 : Nat) : R) * step :=
      mul_le_mul_of_nonneg_right (Nat.cast_le.mpr (by omega)) hstep.le
    refine ⟨hlength, fun first hhead => ?_, fun last hend => ?_⟩
    · exact (hfirst first hhead).trans_le (le_add_of_nonneg_left hlater)
    · exact (sub_le_sub_right hearlier _).trans_lt (hlast last hend)

/-- A reading between the ends uses two neighbours with the value in between, or
    the first of them has it. -/
theorem bracket_between {key : SpeedSample R → R} {x : R} (hlength : 2 ≤ d.samples.length)
    (hfirst : ∀ first, d.samples.head? = some first → key first ≤ x)
    (hlast : ∀ last, d.samples.getLast? = some last → x ≤ key last) :
    ∃ i p q, d.bracket key x = some (p, q) ∧ d.samples[i]? = some p ∧
      d.samples[i + 1]? = some q ∧ (key p = x ∨ key p < x ∧ x ≤ key q) := by
  rcases d with ⟨samples⟩
  have hsome : samples ≠ [] := List.ne_nil_of_length_pos (Nat.lt_of_lt_of_le Nat.two_pos hlength)
  have hhead := List.head?_eq_some_head hsome
  have hend := List.getLast?_eq_some_getLast hsome
  have hin : key (samples.head hsome) < x + overhang ∧
      x - overhang < key (samples.getLast hsome) :=
    ⟨(hfirst _ hhead).trans_lt (lt_add_of_pos_right x overhang_pos),
      (sub_lt_self x overhang_pos).trans_le (hlast _ hend)⟩
  have hget (j : Nat) (hj : j < samples.length) : samples[j]? = some samples[j] :=
    List.getElem?_eq_getElem hj
  have hkey (j : Nat) (hj : j < samples.length) :
      (samples.map key)[j]? = some (key samples[j]) := by
    rw [List.getElem?_map, hget j hj, Option.map_some]
  rcases lowerIndex_between (samples.map key) x with ⟨hbelow, habove⟩
  have hle := lowerIndex_le (samples.map key) x
  rw [List.length_map] at hle
  -- The neighbours by the index at which the search ends.
  have hneighbours (i : Nat) (hi : i + 1 < samples.length)
      (hindex : max 1 (min (lowerIndex (samples.map key) x) (samples.length - 1)) = i + 1) :
      (SpeedSeries.mk samples).bracket key x = some (samples[i], samples[i + 1]) := by
    simp only [bracket, if_neg (Nat.not_lt.mpr hlength), hhead, hend, if_pos hin, hindex,
      Nat.add_sub_cancel, hget _ hi, hget _ (Nat.lt_of_succ_lt hi)]
  rcases Nat.eq_zero_or_pos (lowerIndex (samples.map key) x) with hzero | hpos
  · -- No sample before the value: it is that of the first one.
    refine ⟨0, _, _, hneighbours 0 hlength (by rw [hzero]; omega),
      hget 0 (Nat.lt_of_succ_lt hlength), hget 1 hlength, .inl ?_⟩
    have hnot := habove _ (by rw [hzero]; exact hkey 0 (Nat.lt_of_succ_lt hlength))
    have hmeet := hfirst _ hhead
    rw [List.head_eq_getElem] at hmeet
    exact le_antisymm hmeet (not_lt.mp hnot)
  · -- Otherwise the search ends at a sample, since the last one is not before the value.
    have hinside : lowerIndex (samples.map key) x < samples.length := by
      rcases Nat.lt_or_eq_of_le hle with hlt | heq
      · exact hlt
      · have hbefore := hbelow _ hpos (hkey _ (by omega))
        have hreach := hlast _ hend
        rw [List.getLast_eq_getElem] at hreach
        simp only [heq] at hbefore
        exact absurd hbefore (not_lt.mpr hreach)
    have hindex : lowerIndex (samples.map key) x - 1 + 1 = lowerIndex (samples.map key) x :=
      Nat.sub_add_cancel hpos
    refine ⟨lowerIndex (samples.map key) x - 1, _, _,
      hneighbours _ (by omega) (by omega), hget _ (by omega), hget _ (by omega),
      .inr ⟨hbelow _ hpos (hkey _ (by omega)), ?_⟩⟩
    refine not_lt.mp (habove _ ?_)
    simp only [hindex]
    exact hkey _ hinside

end SpeedSeries

variable {R : Type} [ExactScalar R]

/-- Interpolation between two points of a line stays on it, if their times can
    be told apart. -/
theorem lerp_line {v t t' x : R} (h : decimal 1 10 < t' - t) :
    lerp (v * t) t (v * t') t' x = v * x := by
  have hpos : 0 < t' - t := (decimal_pos Nat.one_pos 10).trans h
  have hne : t' - t ≠ 0 := hpos.ne'
  have hfar : ¬ magnitude (t' - t) ≤ decimal 1 10 := by
    rw [magnitude_eq_abs, abs_of_pos hpos]
    exact not_le.mpr h
  rw [lerp, if_neg hfar]
  field_simp
  ring

/-- Interpolation at the time of the second point gives its value, if the two times can
    be told apart. -/
theorem lerp_end {x x' t t' : R} (h : decimal 1 10 < |t' - t|) : lerp x t x' t' t' = x' := by
  have hne : t' - t ≠ 0 := abs_pos.mp ((decimal_pos Nat.one_pos 10).trans h)
  rw [lerp, magnitude_eq_abs, if_neg (not_le.mpr h), div_self hne, one_mul, add_sub_cancel]

namespace SpeedSeries

/-- Neighbours are of one time, or so far apart that interpolation can tell. -/
def Apart (d : SpeedSeries R) : Prop :=
  d.samples.IsChain fun x y => x.t = y.t ∨ decimal 1 10 < y.t - x.t

/-- Uniform motion is read as it is, at any time from its first sample to its
    last. -/
theorem byTime_line {d : SpeedSeries R} {v t : R} (hlength : 2 ≤ d.samples.length)
    (hline : ∀ x ∈ d.samples, x.s = v * x.t) (hapart : d.Apart)
    (hfirst : ∀ first, d.samples.head? = some first → first.t ≤ t)
    (hlast : ∀ last, d.samples.getLast? = some last → t ≤ last.t) :
    ∃ x, d.byTime t = some x ∧ x.s = v * t := by
  rcases bracket_between hlength hfirst hlast with ⟨i, p, q, hbracket, hp, hq, hbetween⟩
  refine ⟨_, by rw [byTime, hbracket, Option.map_some], ?_⟩
  rcases List.getElem?_eq_some_iff.mp hp with ⟨_, hpget⟩
  rcases List.getElem?_eq_some_iff.mp hq with ⟨hi, hqget⟩
  have hnear := (List.isChain_iff_getElem.mp hapart) i hi
  rw [hpget, hqget] at hnear
  change lerp p.s p.t q.s q.t t = v * t
  rw [hline p (List.mem_of_getElem? hp), hline q (List.mem_of_getElem? hq)]
  rcases hnear with hsame | hfar
  · -- Two samples of one time are read at the first of them.
    have hnone : magnitude (q.t - p.t) ≤ decimal 1 10 := by
      rw [hsame, sub_self, magnitude_eq_abs, abs_zero]
      exact (decimal_pos Nat.one_pos 10).le
    rw [lerp, if_pos hnone]
    rcases hbetween with hmeet | ⟨hbefore, hafter⟩
    · rw [hmeet]
    · exact absurd (hsame ▸ hbefore) (not_lt.mpr hafter)
  · exact lerp_line hfar

end SpeedSeries

end JerkPlan
