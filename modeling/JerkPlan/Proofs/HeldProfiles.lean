import Mathlib.Order.Bounds.Basic
import JerkPlan.Proofs.Publishing
import JerkPlan.Proofs.Sampling

/-!
# Profiles held by a buffer

What a buffer holds after a profile has been put into it and continued.

The steps on the way are known apart. `publish_kept` says how many knots are kept, and
`SpeedSeries.fill_eq` how many standing samples follow. Here they are put together, for
any profile and whatever the buffer held before. The two counts are said without the
loops that find them: knots end at the least index that has a negative speed, and a
standing sample is there for each unit that ends in time.

Knots are a step apart and standing samples a unit, and the two have nothing to do with
each other. Still times increase from each sample to the next, since the first unit
begins at the last knot.

## Main definitions

* `KnotProfile.Sampled`: A sample shows a knot of a profile.
* `SpeedSeries.continued`: Knots, and standing samples after them.

## Theorems

* `SpeedSeries.hold_eq`: What a buffer held before makes no difference.
* `KnotProfile.sampled_knotSample`: The sample of a knot.
* `KnotProfile.isLeast_kept`: Where the knots that are kept end.
* `SpeedSeries.pairwise_continued`: The times of knots and units increase.
* `SpeedSeries.publish_fill`: What is published and continued.
* `SpeedSeries.hold_fill`: What a buffer holds.
-/

namespace JerkPlan

/-- A sample shows the knot of a profile with a given index. Its jerk is the change of
    acceleration since the knot before, and there is none at the first one. -/
structure KnotProfile.Sampled {R : Type} [Scalar R] (k : KnotProfile R) (step : R) (i : Nat)
    (q : SpeedSample R) : Prop where
  place : k.p[i]? = some q.s
  time : q.t = (i : R) * step
  speed : k.v[i]? = some q.v
  acceleration : k.a[i]? = some q.a
  first : i = 0 → q.da = 0
  jerk : ∀ j, i = j + 1 → ∃ a, k.a[j]? = some a ∧ q.da = (q.a - a) / step

/-- What a buffer held before makes no difference to what it holds. -/
theorem SpeedSeries.hold_eq {R : Type} [Scalar R] (buffer : SpeedSeries R) (k : KnotProfile R)
    (step : R) : buffer.hold k step = publish k step := rfl

variable {R : Type} [ExactScalar R]

namespace KnotProfile

variable {k : KnotProfile R} {n i : Nat}

/-- The sample of a knot shows it. -/
theorem sampled_knotSample (hk : k.Shaped n) (step : R) (hi : i < n) :
    k.Sampled step i (knotSample step (stateAt n k.point) i) := by
  rcases stateAt_point hk hi with ⟨hp, hv, ha⟩
  refine ⟨hp, rfl, hv, ha, fun hzero => if_pos hzero, fun j hj => ?_⟩
  refine ⟨_, (stateAt_point hk (by omega : j < n)).2.2, ?_⟩
  rw [knotSample, if_neg (by omega), hj, Nat.add_sub_cancel]

/-- Where the knots that are kept end: at the first one after the start that leads
    backwards, or at the end of the profile. -/
theorem isLeast_kept (hk : k.Shaped n) {m : Nat} (hm : 0 < m) (hmn : m ≤ n)
    (hspeeds : ∀ i, 0 < i → i < m → 0 ≤ (stateAt n k.point i).v)
    (hend : m = n ∨ (stateAt n k.point m).v < 0) :
    IsLeast {i | 0 < i ∧ (i = n ∨ ∃ v, k.v[i]? = some v ∧ v < 0)} m := by
  constructor
  · refine ⟨hm, ?_⟩
    rcases Nat.eq_or_lt_of_le hmn with heq | hlt
    · exact Or.inl heq
    · exact Or.inr ⟨_, (stateAt_point hk hlt).2.1, hend.resolve_left (by omega)⟩
  · rintro i ⟨hpos, rfl | ⟨v, hv, hnegative⟩⟩
    · exact hmn
    · by_contra hbefore
      -- A knot before that end does not lead backwards.
      have hi : i < m := not_le.mp hbefore
      rw [(stateAt_point hk (by omega : i < n)).2.1, Option.some.injEq] at hv
      rw [← hv] at hnegative
      exact absurd (hspeeds i hpos hi) (not_le.mpr hnegative)

end KnotProfile

namespace SpeedSeries

/-- Knots a step apart, up to one of them, and from there on standing samples a unit
    apart. -/
def continued (step unit : R) (s : Nat → Motion R) (j l : Nat) : SpeedSeries R :=
  ⟨(List.range (j + 1)).map (knotSample step s) ++ (List.range l).map fun (i : Nat) =>
    ⟨(s j).p, (j : R) * step + ((i + 1 : Nat) : R) * unit, 0, 0, 0⟩⟩

section Continued

variable {step unit : R} {s : Nat → Motion R} {j l : Nat}

theorem length_continued : (continued step unit s j l).samples.length = j + 1 + l := by
  rw [continued, List.length_append, List.length_map, List.length_range, List.length_map,
    List.length_range]

/-- The last knot is where the vehicle stands from then on. -/
theorem getLast?_knots :
    ((List.range (j + 1)).map (knotSample step s)).getLast? = some (knotSample step s j) := by
  rw [List.range_succ, List.map_append, List.map_singleton, List.getLast?_concat]

theorem continued_getElem?_knot {i : Nat} (hi : i ≤ j) :
    (continued step unit s j l).samples[i]? = some (knotSample step s i) := by
  have hknots : i < ((List.range (j + 1)).map (knotSample step s)).length := by
    rw [List.length_map, List.length_range]
    omega
  rw [continued, List.getElem?_append_left hknots, List.getElem?_map,
    List.getElem?_range (by omega), Option.map_some]

theorem continued_getElem?_unit {i : Nat} (hi : i < l) :
    (continued step unit s j l).samples[j + 1 + i]? =
      some ⟨(s j).p, (j : R) * step + ((i + 1 : Nat) : R) * unit, 0, 0, 0⟩ := by
  have hknots : ((List.range (j + 1)).map (knotSample step s)).length = j + 1 := by
    rw [List.length_map, List.length_range]
  rw [continued, List.getElem?_append_right (by omega), hknots, Nat.add_sub_cancel_left,
    List.getElem?_map, List.getElem?_range hi, Option.map_some]

/-- Times increase, since the first unit begins at the last knot. -/
theorem pairwise_continued (hstep : 0 < step) (hunit : 0 < unit) :
    (continued step unit s j l).samples.Pairwise fun x y => x.t < y.t := by
  refine List.pairwise_append.mpr ⟨?_, ?_, ?_⟩
  · rw [List.pairwise_map]
    refine List.pairwise_lt_range.imp fun {a b} hab => ?_
    exact mul_lt_mul_of_pos_right (Nat.cast_lt.mpr hab) hstep
  · rw [List.pairwise_map]
    refine List.pairwise_lt_range.imp fun {a b} hab => ?_
    have hunits : ((a + 1 : Nat) : R) < ((b + 1 : Nat) : R) := Nat.cast_lt.mpr (by omega)
    exact add_lt_add_right (mul_lt_mul_of_pos_right hunits hunit) _
  · simp only [List.mem_map, List.mem_range]
    rintro x ⟨a, ha, rfl⟩ y ⟨b, _, rfl⟩
    have hknot : (a : R) * step ≤ (j : R) * step :=
      mul_le_mul_of_nonneg_right (Nat.cast_le.mpr (by omega)) hstep.le
    exact hknot.trans_lt (lt_add_of_pos_right _ (mul_pos (Nat.cast_pos.mpr (by omega)) hunit))

theorem last_continued {x : SpeedSample R}
    (hx : (continued step unit s j l).samples.getLast? = some x) :
    x.t = (j : R) * step + (l : R) * unit :=
  getLast?_filled (d := ⟨_⟩) getLast?_knots hx

/-- When another unit would be too late, the series lasts to within a unit of the end asked
    for. -/
theorem le_last_continued {finish : R}
    (hlate : finish ≤ (j : R) * step + ((l + 1 : Nat) : R) * unit) {x : SpeedSample R}
    (hx : (continued step unit s j l).samples.getLast? = some x) :
    finish ≤ x.t + unit := by
  rw [last_continued hx]
  push_cast at hlate
  linarith

end Continued

/-- A profile with knots is published up to the first of them, after the start, that
    leads backwards, and then continued by units as long as these end in time. -/
theorem publish_fill {step unit : R} (hstep : 0 < step) (hunit : 0 < unit) {k : KnotProfile R}
    {n : Nat} (hn : 0 < n) (hk : k.Shaped n) (finish : R) :
    ∃ (j l : Nat) (e : SpeedSeries R), j < n ∧ publish k step = (e, none) ∧
      e.fill finish unit = .ok (continued step unit (stateAt n k.point) j l) ∧
      (∀ i, 0 < i → i < j + 1 → 0 ≤ (stateAt n k.point i).v) ∧
      (j + 1 = n ∨ (stateAt n k.point (j + 1)).v < 0) ∧
      (∀ i < l, (j : R) * step + ((i + 1 : Nat) : R) * unit < finish) ∧
      finish ≤ (j : R) * step + ((l + 1 : Nat) : R) * unit := by
  rcases publish_kept hstep hn hk with ⟨m, hm, hmn, hkept, hspeeds, hend⟩
  rcases Nat.exists_eq_add_one.mpr hm with ⟨j, rfl⟩
  rcases fill_eq hunit (d := ⟨_⟩) getLast?_knots finish with ⟨l, hfilled, hbefore, hlate⟩
  exact ⟨j, l, _, hmn, hkept, hfilled, hspeeds, hend, hbefore, hlate⟩

end SpeedSeries

/-- When the units that follow a time are found to end before another one, and the next
    one not to, then these are all that do. -/
theorem unit_lt_iff {time unit finish : R} (hunit : 0 < unit) {l : Nat}
    (hbefore : ∀ i < l, time + ((i + 1 : Nat) : R) * unit < finish)
    (hlate : finish ≤ time + ((l + 1 : Nat) : R) * unit) {j : Nat} (hj : 0 < j) :
    time + (j : R) * unit < finish ↔ j ≤ l := by
  constructor
  · intro hends
    by_contra hmany
    have hunits : ((l + 1 : Nat) : R) ≤ (j : R) := Nat.cast_le.mpr (by omega)
    have hlater := mul_le_mul_of_nonneg_right hunits hunit.le
    exact absurd hends (not_lt.mpr (hlate.trans (add_le_add_right hlater _)))
  · intro hjl
    have hends := hbefore (j - 1) (by omega)
    rw [Nat.sub_add_cancel hj] at hends
    exact hends

/-- A valid profile can be put into any buffer and continued by any unit that leads
    forward. The buffer then holds the knots up to the first one, after the start, that
    leads backwards, and a standing sample for each unit after the last knot that ends
    before the time asked for. Times increase, and the next unit would reach that time.
    Nothing is left of what the buffer held before. -/
theorem SpeedSeries.hold_fill {k : KnotProfile R} (hk : k.valid = true) {step unit : R}
    (hstep : 0 < step) (hunit : 0 < unit) (finish : R) (buffer : SpeedSeries R) :
    ∃ (m l : Nat) (e d : SpeedSeries R),
      buffer.hold k step = (e, none) ∧ e.fill finish unit = .ok d ∧
      IsLeast {i | 0 < i ∧ (i = k.size ∨ ∃ v, k.v[i]? = some v ∧ v < 0)} m ∧
      (∀ j : Nat, 0 < j → (((m - 1 : Nat) : R) * step + (j : R) * unit < finish ↔ j ≤ l)) ∧
      d.samples.length = m + l ∧
      (∀ i, i < m → ∃ q, d.samples[i]? = some q ∧ k.Sampled step i q) ∧
      (∀ j, 0 < j → j ≤ l → ∃ place, k.p[m - 1]? = some place ∧ d.samples[m + j - 1]? =
        some ⟨place, ((m - 1 : Nat) : R) * step + (j : R) * unit, 0, 0, 0⟩) ∧
      d.samples.Pairwise (fun x y => x.t < y.t) ∧
      ∀ last, d.samples.getLast? = some last → finish ≤ last.t + unit := by
  have hshaped := KnotProfile.shaped_of_valid hk
  have hsome : 0 < k.size := by
    simp only [KnotProfile.valid, Bool.and_eq_true, decide_eq_true_eq] at hk
    exact hk.1.1
  rcases publish_fill hstep hunit hsome hshaped finish with
    ⟨j, l, e, hj, hpublish, hfill, hspeeds, hend, hbefore, hlate⟩
  refine ⟨j + 1, l, e, _, (buffer.hold_eq k step).trans hpublish, hfill,
    KnotProfile.isLeast_kept hshaped (Nat.succ_pos j) hj hspeeds hend,
    fun i hi => unit_lt_iff hunit hbefore hlate hi, length_continued, fun i hi => ?_,
    fun i hi hil => ?_, pairwise_continued hstep hunit, fun x hx => le_last_continued hlate hx⟩
  · exact ⟨_, continued_getElem?_knot (by omega),
      KnotProfile.sampled_knotSample hshaped step (by omega : i < k.size)⟩
  · -- Units are counted from one here, and from zero in the series.
    rcases Nat.exists_eq_add_one.mpr hi with ⟨i, rfl⟩
    exact ⟨_, (stateAt_point hshaped hj).1, continued_getElem?_unit hil⟩

/-! A profile that is cut off -/

/-- Braking too hard, the vehicle would roll backwards at the third knot. -/
def overbraked : KnotProfile Rat := ⟨[0, 2, 3, 2], [2, 1, -1, 0], [-1, -1, -2, 0]⟩

/-- The buffer forgets the sample it had. It holds two knots a second apart, and then two
    standing samples half a second apart. -/
theorem SpeedSeries.hold_fill_overbraked :
    overbraked.valid = true ∧ (0 : Rat) < 1 ∧ (0 : Rat) < 1 / 2 ∧ ∃ e d : SpeedSeries Rat,
      SpeedSeries.hold ⟨[⟨7, 7, 7, 7, 7⟩]⟩ overbraked 1 = (e, none) ∧
      e.fill (9 / 4) (1 / 2) = .ok d ∧ d.samples.length = 4 ∧
      (∃ q, d.samples[1]? = some q ∧ overbraked.Sampled 1 1 q) ∧
      d.samples[2]? = some ⟨2, 3 / 2, 0, 0, 0⟩ ∧ d.samples[3]? = some ⟨2, 2, 0, 0, 0⟩ ∧
      d.samples.Pairwise fun x y => x.t < y.t := by
  have hunit : (0 : Rat) < 1 / 2 := by decide +kernel
  rcases hold_fill (k := overbraked) rfl one_pos hunit (9 / 4) ⟨[⟨7, 7, 7, 7, 7⟩]⟩ with
    ⟨m, l, e, d, he, hd, hleast, hunits, hlength, hknots, hstands, htimes, _⟩
  -- The third knot is the first one after the start that leads backwards.
  have hthird : IsLeast {i | 0 < i ∧ (i = overbraked.size ∨
      ∃ v, overbraked.v[i]? = some v ∧ v < 0)} 2 := by
    refine ⟨⟨by decide, Or.inr ⟨-1, rfl, by decide +kernel⟩⟩, ?_⟩
    rintro i ⟨hpos, hsize | ⟨v, hv, hnegative⟩⟩
    · rw [hsize]
      decide
    · by_contra hfew
      have hone : i = 1 := by omega
      subst hone
      rw [← Option.some.inj (hv : some 1 = some v)] at hnegative
      exact absurd hnegative (by decide +kernel)
  have hm : m = 2 := hleast.unique hthird
  subst hm
  have hl : l = 2 := by
    have htwo := (hunits 2 (by decide)).mp (by decide +kernel)
    have hthree := mt (hunits 3 (by decide)).mpr (by decide +kernel)
    omega
  subst hl
  have hplace : overbraked.p[1]? = some 2 := rfl
  have hstand (j : Nat) (hj : 0 < j) (hjl : j ≤ 2) : d.samples[2 + j - 1]? =
      some ⟨2, 1 + (j : Rat) * (1 / 2), 0, 0, 0⟩ := by
    rcases hstands j hj hjl with ⟨place, hp, hsample⟩
    rw [Nat.add_one_sub_one, hplace, Option.some.injEq] at hp
    rw [hsample, ← hp, Nat.add_one_sub_one, Nat.cast_one, one_mul]
  refine ⟨rfl, one_pos, hunit, e, d, he, hd, hlength, hknots 1 (by decide), ?_, ?_, htimes⟩
  · rw [hstand 1 (by decide) (by decide)]
    norm_num
  · rw [hstand 2 (by decide) (by decide)]
    norm_num

end JerkPlan
