import JerkPlan.Proofs.Readings

/-!
# Readings in order

How readings of a series compare with its samples and with each other.

Interpolation is a line through two samples, or the value of the first one where the two
are practically one. Either way it rises where the samples do, and between the two it
stays between their values. So a reading between the ends of a series is never outside
of what the samples say, and this takes no order.

To compare two readings takes more. In a series in order the two samples of a reading
are neighbours that lie on either side of it, or as close to it as there are any:
`SpeedSeries.Brackets` says so by their index. Two readings from the same neighbours are
on the same line. Of two readings from different ones, the earlier one has not left its
neighbours before the later one has reached its own, so a sample lies between them.

All of this is about any one value that is interpolated. A sample has four of them, and
`SpeedSample.quantities` lets a statement speak of them together.

## Main definitions

* `SpeedSeries.Brackets`: The neighbours that a reading uses.
* `SpeedSample.quantities`: What a sample says of its time.

## Theorems

* `lerp_start`, `lerp_mono`, `le_lerp`, `lerp_le`: Interpolation between rising values.
* `lerp_between`, `lerp_among`: Interpolation between any values.
* `SpeedSeries.bracket_within`: A reading between the ends stays among the samples.
* `SpeedSeries.brackets_of_bracket`: The neighbours of a reading.
* `SpeedSeries.Brackets.reading_mono`: Later readings of rising values are not lower.
* `SpeedSeries.byTime_mono`: Neither are distances read later.
* `SpeedSeries.byTime_of_bracket`: A reading by time, quantity by quantity.
* `SpeedSeries.byTime_ordered`: Readings of a series in order.
-/

namespace JerkPlan

variable {R : Type} [ExactScalar R]

/-! Interpolation -/

section Interpolation

variable {x x' t t' u u' : R}

/-- Interpolation at the time of the first point gives its value. -/
theorem lerp_start (x x' t t' : R) : lerp x t x' t' t = x := by
  rw [lerp]
  split
  · rfl
  · rw [sub_self, zero_div, zero_mul, add_zero]

/-- Interpolation between rising values rises. -/
theorem lerp_mono (hx : x ≤ x') (ht : t ≤ t') (hu : u ≤ u') :
    lerp x t x' t' u ≤ lerp x t x' t' u' := by
  rw [lerp, lerp]
  split
  · exact le_rfl
  · have hshare : (u - t) / (t' - t) ≤ (u' - t) / (t' - t) :=
      div_le_div_of_nonneg_right (sub_le_sub_right hu t) (sub_nonneg.mpr ht)
    exact add_le_add_right (mul_le_mul_of_nonneg_right hshare (sub_nonneg.mpr hx)) x

/-- After the first of two rising points interpolation is not below it. -/
theorem le_lerp (hx : x ≤ x') (ht : t ≤ t') (hu : t ≤ u) : x ≤ lerp x t x' t' u := by
  have hstart := lerp_mono hx ht hu
  rw [lerp_start] at hstart
  exact hstart

/-- Before the second one it is not above that. -/
theorem lerp_le (hx : x ≤ x') (ht : t ≤ t') (hu : u ≤ t') : lerp x t x' t' u ≤ x' := by
  refine (lerp_mono hx ht hu).trans ?_
  by_cases hnear : magnitude (t' - t) ≤ decimal 1 10
  · rw [lerp, if_pos hnear]
    exact hx
  · rw [magnitude_eq_abs, not_le] at hnear
    exact (lerp_end hnear).le

/-- Falling values are rising ones turned over. -/
theorem lerp_neg (x x' t t' u : R) : lerp (-x) t (-x') t' u = -lerp x t x' t' u := by
  rw [lerp, lerp]
  split
  · rfl
  · ring

/-- Between two points in time interpolation is between their values. -/
theorem lerp_between (x x' : R) (hu : t ≤ u) (hu' : u ≤ t') :
    min x x' ≤ lerp x t x' t' u ∧ lerp x t x' t' u ≤ max x x' := by
  have ht : t ≤ t' := hu.trans hu'
  rcases le_total x x' with h | h
  · rw [min_eq_left h, max_eq_right h]
    exact ⟨le_lerp h ht hu, lerp_le h ht hu'⟩
  · have hbelow := le_lerp (neg_le_neg h) ht hu
    have habove := lerp_le (neg_le_neg h) ht hu'
    rw [lerp_neg, neg_le_neg_iff] at hbelow habove
    rw [min_eq_right h, max_eq_left h]
    exact ⟨habove, hbelow⟩

/-- Between two entries of a list interpolation is not outside of what its entries say. -/
theorem lerp_among {α : Type} {xs : List α} {p q : α} (hp : p ∈ xs) (hq : q ∈ xs)
    (value : α → R) (hu : t ≤ u) (hu' : u ≤ t') :
    (∃ y ∈ xs, value y ≤ lerp (value p) t (value q) t' u) ∧
      ∃ y ∈ xs, lerp (value p) t (value q) t' u ≤ value y := by
  have hwithin := lerp_between (value p) (value q) hu hu'
  rcases le_total (value p) (value q) with h | h
  · rw [min_eq_left h, max_eq_right h] at hwithin
    exact ⟨⟨p, hp, hwithin.1⟩, q, hq, hwithin.2⟩
  · rw [min_eq_right h, max_eq_left h] at hwithin
    exact ⟨⟨q, hq, hwithin.1⟩, p, hp, hwithin.2⟩

end Interpolation

namespace SpeedSeries

variable {d : SpeedSeries R} {key value : SpeedSample R → R}

/-! Readings among the samples -/

/-- A reading between the ends uses two neighbours with the value in between, unless the
    first of them has it. Whatever is interpolated between the two is between what some
    samples say. -/
theorem bracket_within {x : R} (hlength : 2 ≤ d.samples.length)
    (hfirst : ∀ first, d.samples.head? = some first → key first ≤ x)
    (hlast : ∀ last, d.samples.getLast? = some last → x ≤ key last) :
    ∃ i p q, d.bracket key x = some (p, q) ∧ d.samples[i]? = some p ∧
      d.samples[i + 1]? = some q ∧ (key p = x ∨ key p < x ∧ x ≤ key q) ∧
      ∀ value : SpeedSample R → R,
        (∃ y ∈ d.samples, value y ≤ lerp (value p) (key p) (value q) (key q) x) ∧
          ∃ y ∈ d.samples, lerp (value p) (key p) (value q) (key q) x ≤ value y := by
  rcases bracket_between hlength hfirst hlast with ⟨i, p, q, hbracket, hp, hq, hbetween⟩
  refine ⟨i, p, q, hbracket, hp, hq, hbetween, fun value => ?_⟩
  have hp := List.mem_of_getElem? hp
  have hq := List.mem_of_getElem? hq
  rcases hbetween with hmeet | ⟨hafter, hbefore⟩
  · rw [← hmeet, lerp_start]
    exact ⟨⟨p, hp, le_rfl⟩, p, hp, le_rfl⟩
  · exact lerp_among hp hq value hafter.le hbefore

/-! Readings in order -/

/-- Two neighbours are the ones that a reading uses: it comes after the first of them,
    unless the series begins there, and not after the second, unless it ends there. -/
structure Brackets (d : SpeedSeries R) (key : SpeedSample R → R) (x : R) (i : Nat)
    (p q : SpeedSample R) : Prop where
  left : d.samples[i]? = some p
  right : d.samples[i + 1]? = some q
  after : i = 0 ∨ key p < x
  before : i + 2 = d.samples.length ∨ x ≤ key q

/-- In a series in order every reading uses such neighbours, also beyond the ends. -/
theorem brackets_of_bracket (hkey : d.samples.Pairwise fun p q => key p ≤ key q) {x : R}
    {p q : SpeedSample R} (h : d.bracket key x = some (p, q)) : ∃ i, d.Brackets key x i p q := by
  have hlength : 2 ≤ d.samples.length :=
    (bracket_isSome_iff.mp (by rw [h, Option.isSome_some])).1
  have hsorted : (d.samples.map key).Pairwise (· ≤ ·) := List.pairwise_map.mpr hkey
  have hsearch (j : Nat) (y : SpeedSample R) (hy : d.samples[j]? = some y) :
      key y < x ↔ j < lowerIndex (d.samples.map key) x :=
    lowerIndex_lt_iff hsorted x (by rw [List.getElem?_map, hy, Option.map_some])
  unfold bracket at h
  rw [if_neg (Nat.not_lt.mpr hlength)] at h
  split at h
  · split at h
    · -- The index is that of the second neighbour, put among those that have one before.
      rcases hindex : max 1 (min (lowerIndex (d.samples.map key) x) (d.samples.length - 1)) with
        _ | i
      · omega
      simp only [hindex, Nat.add_sub_cancel] at h
      split at h
      · next y z hy hz =>
          rw [Option.some.injEq, Prod.mk.injEq] at h
          rcases h with ⟨rfl, rfl⟩
          refine ⟨i, hy, hz, ?_, ?_⟩
          · rw [hsearch i y hy]
            omega
          · rw [← not_lt, hsearch (i + 1) z hz]
            omega
      · exact absurd h (by simp only [reduceCtorEq, not_false_eq_true])
    · exact absurd h (by simp only [reduceCtorEq, not_false_eq_true])
  · exact absurd h (by simp only [reduceCtorEq, not_false_eq_true])

/-- Of two readings the later one is not lower, if the values that are interpolated rise. -/
theorem Brackets.reading_mono (hkey : d.samples.Pairwise fun p q => key p ≤ key q)
    (hvalue : d.samples.Pairwise fun p q => value p ≤ value q) {x x' : R} {i i' : Nat}
    {p q p' q' : SpeedSample R} (h : d.Brackets key x i p q) (h' : d.Brackets key x' i' p' q')
    (hx : x ≤ x') : lerp (value p) (key p) (value q) (key q) x ≤
      lerp (value p') (key p') (value q') (key q') x' := by
  have hlt := (List.getElem?_eq_some_iff.mp h.right).1
  have hlt' := (List.getElem?_eq_some_iff.mp h'.right).1
  have htime : key p ≤ key q := rising_getElem? hkey (Nat.le_succ i) h.left h.right
  have htime' : key p' ≤ key q' := rising_getElem? hkey (Nat.le_succ i') h'.left h'.right
  have hrise : value p ≤ value q := rising_getElem? hvalue (Nat.le_succ i) h.left h.right
  have hrise' : value p' ≤ value q' := rising_getElem? hvalue (Nat.le_succ i') h'.left h'.right
  rcases Nat.lt_trichotomy i i' with hbefore | rfl | hafter
  · -- The earlier reading is over where the later one begins.
    have hend : x ≤ key q := h.before.resolve_left (by omega)
    have hbegin : key p' < x' := h'.after.resolve_left (by omega)
    calc lerp (value p) (key p) (value q) (key q) x
        ≤ value q := lerp_le hrise htime hend
      _ ≤ value p' := rising_getElem? hvalue hbefore h.right h'.left
      _ ≤ lerp (value p') (key p') (value q') (key q') x' := le_lerp hrise' htime' hbegin.le
  · -- Both are on one line.
    have hp : p = p' := Option.some.inj (h.left.symm.trans h'.left)
    have hq : q = q' := Option.some.inj (h.right.symm.trans h'.right)
    rw [← hp, ← hq]
    exact lerp_mono hrise htime hx
  · -- The other way round the two would be in the wrong order.
    have hend : x' ≤ key q' := h'.before.resolve_left (by omega)
    have hbegin : key p < x := h.after.resolve_left (by omega)
    have hbetween : key q' ≤ key p := rising_getElem? hkey hafter h'.right h.left
    exact absurd (hx.trans (hend.trans hbetween)) (not_le.mpr hbegin)

/-- Distances that rise from sample to sample rise from reading to reading. -/
theorem byTime_mono (htimes : d.samples.Pairwise fun p q => p.t ≤ q.t)
    (hdistances : d.samples.Pairwise fun p q => p.s ≤ q.s) {t t' : R} {x x' : SpeedSample R}
    (hx : d.byTime t = some x) (hx' : d.byTime t' = some x') (h : t ≤ t') : x.s ≤ x'.s := by
  rcases Option.map_eq_some_iff.mp hx with ⟨⟨p, q⟩, hbracket, rfl⟩
  rcases Option.map_eq_some_iff.mp hx' with ⟨⟨p', q'⟩, hbracket', rfl⟩
  rcases brackets_of_bracket htimes hbracket with ⟨i, hi⟩
  rcases brackets_of_bracket htimes hbracket' with ⟨i', hi'⟩
  exact hi.reading_mono htimes hdistances hi' h

end SpeedSeries

/-! All quantities of a reading -/

/-- What a sample says of its time: distance, speed, acceleration and jerk. -/
def SpeedSample.quantities {R : Type} : List (SpeedSample R → R) := [(·.s), (·.v), (·.a), (·.da)]

namespace SpeedSeries

variable {d : SpeedSeries R}

/-- A reading by time has that time, and every quantity is interpolated between the two
    samples that it uses. -/
theorem byTime_of_bracket {t : R} {p q : SpeedSample R} (h : d.bracket (·.t) t = some (p, q)) :
    ∃ x, d.byTime t = some x ∧ x.t = t ∧
      ∀ value ∈ SpeedSample.quantities, value x = lerp (value p) p.t (value q) q.t t := by
  refine ⟨_, by rw [byTime, h, Option.map_some], rfl, ?_⟩
  simp only [SpeedSample.quantities, List.forall_mem_cons, List.not_mem_nil, false_implies,
    implies_true, and_true]

/-- Take a series in order that never goes back. Wherever it can be read, up to the overhang
    beyond its ends, distances read later are not lower. Between its ends it can be read, and
    a reading there uses two neighbours with the time in between. Every quantity is
    interpolated between theirs, and is not outside of what the samples say. -/
theorem byTime_ordered (hlength : 2 ≤ d.samples.length)
    (htimes : d.samples.Pairwise fun p q => p.t ≤ q.t)
    (hdistances : d.samples.Pairwise fun p q => p.s ≤ q.s) :
    ∃ first last, d.samples.head? = some first ∧ d.samples.getLast? = some last ∧
      (∀ t, (d.byTime t).isSome ↔ first.t < t + overhang ∧ t - overhang < last.t) ∧
      (∀ t t' x x', d.byTime t = some x → d.byTime t' = some x' → t ≤ t' → x.s ≤ x'.s) ∧
      ∀ t, first.t ≤ t → t ≤ last.t → ∃ x, d.byTime t = some x ∧ x.t = t ∧
        (∃ i p q, d.samples[i]? = some p ∧ d.samples[i + 1]? = some q ∧ p.t ≤ t ∧ t ≤ q.t ∧
          ∀ value ∈ SpeedSample.quantities, value x = lerp (value p) p.t (value q) q.t t) ∧
        ∀ value ∈ SpeedSample.quantities,
          (∃ y ∈ d.samples, value y ≤ value x) ∧ ∃ y ∈ d.samples, value x ≤ value y := by
  have hsome : d.samples ≠ [] := List.ne_nil_of_length_pos (by omega)
  have hfirst := List.head?_eq_some_head hsome
  have hlast := List.getLast?_eq_some_getLast hsome
  refine ⟨_, _, hfirst, hlast, fun t => ?_, fun t t' x x' hx hx' h =>
    byTime_mono htimes hdistances hx hx' h, fun t hlow hhigh => ?_⟩
  · rw [byTime_isSome_iff]
    simp only [hlength, hfirst, hlast, Option.some.injEq, forall_eq', true_and]
  · have hafter : ∀ y, d.samples.head? = some y → y.t ≤ t := by
      intro y hy
      rw [hfirst, Option.some.injEq] at hy
      rw [← hy]
      exact hlow
    have hbefore : ∀ y, d.samples.getLast? = some y → t ≤ y.t := by
      intro y hy
      rw [hlast, Option.some.injEq] at hy
      rw [← hy]
      exact hhigh
    rcases bracket_within hlength hafter hbefore with
      ⟨i, p, q, hbracket, hp, hq, hbetween, hwithin⟩
    rcases byTime_of_bracket hbracket with ⟨x, hx, htime, hquantities⟩
    refine ⟨x, hx, htime, ⟨i, p, q, hp, hq, ?_, ?_, hquantities⟩, fun value hvalue => ?_⟩
    · rcases hbetween with hmeet | ⟨hbegun, _⟩
      · exact hmeet.le
      · exact hbegun.le
    · -- A first neighbour with the very time has the second one after it.
      rcases hbetween with hmeet | ⟨_, hends⟩
      · rw [← hmeet]
        exact rising_getElem? htimes (Nat.le_succ i) hp hq
      · exact hends
    · rw [hquantities value hvalue]
      exact hwithin value

/-- Standing still for a second, a step forward, and two samples whose times interpolation
    cannot tell apart. -/
def jerkyMotion : SpeedSeries Rat :=
  ⟨[⟨0, 0, 0, 0, 0⟩, ⟨0, 1, 0, 2, 0⟩, ⟨3, 1, 4, 0, -1⟩, ⟨5, 1 + 1 / 10 ^ 11, 2, 0, 1⟩,
    ⟨9, 3, 2, 0, 0⟩]⟩

/-- At the step, and a little beyond both ends, readings are in order. -/
theorem byTime_ordered_jerkyMotion : 2 ≤ jerkyMotion.samples.length ∧
    jerkyMotion.samples.Pairwise (fun p q => p.t ≤ q.t) ∧
    jerkyMotion.samples.Pairwise (fun p q => p.s ≤ q.s) ∧
    ∃ x y z, jerkyMotion.byTime (-1 / 10 ^ 7) = some x ∧ jerkyMotion.byTime 1 = some y ∧
      jerkyMotion.byTime (3 + 1 / 10 ^ 7) = some z ∧ x.s ≤ y.s ∧ y.s ≤ z.s ∧
      ∃ p ∈ jerkyMotion.samples, y.v ≤ p.v := by
  have hlength : 2 ≤ jerkyMotion.samples.length := by decide
  have htimes : jerkyMotion.samples.Pairwise fun p q => p.t ≤ q.t := by decide +kernel
  have hdistances : jerkyMotion.samples.Pairwise fun p q => p.s ≤ q.s := by decide +kernel
  rcases byTime_ordered hlength htimes hdistances with
    ⟨first, last, hfirst, hlast, hread, hmono, hwithin⟩
  cases hfirst
  cases hlast
  rcases Option.isSome_iff_exists.mp ((hread (-1 / 10 ^ 7)).mpr (by decide +kernel)) with ⟨x, hx⟩
  rcases hwithin 1 (by decide +kernel) (by decide +kernel) with ⟨y, hy, _, _, hquantities⟩
  rcases Option.isSome_iff_exists.mp ((hread (3 + 1 / 10 ^ 7)).mpr (by decide +kernel)) with
    ⟨z, hz⟩
  exact ⟨hlength, htimes, hdistances, x, y, z, hx, hy, hz,
    hmono _ _ _ _ hx hy (by decide +kernel), hmono _ _ _ _ hy hz (by decide +kernel),
    (hquantities (·.v) (by simp [SpeedSample.quantities])).2⟩

end SpeedSeries

end JerkPlan
