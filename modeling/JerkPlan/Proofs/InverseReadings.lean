import Mathlib.Order.Bounds.Basic
import JerkPlan.Proofs.OrderedReadings

/-!
# Reading by distance

When a vehicle comes to a place, and what it does there.

A series is read by time and by distance in the same way, only that the column which is
searched and the one which is interpolated change their parts. Between two neighbours
that differ in both, the one reading undoes the other: interpolating twice comes to
interpolating once, `lerp_lerp`. So all there is to show is that both readings use the
same neighbours, and `SpeedSeries.Brackets.carry` shows it for any two columns.

Where the vehicle stands, two neighbours have one distance, and many times lead to it.
The search ends at the first sample that is far enough, so the neighbour before it is not
there yet, and no time before the reading is early enough. Only at its very beginning a
series may be read in the middle of a standstill, and then at its first sample.

## Theorems

* `lerp_strictMono`, `lerp_lerp`, `lerp_self`: Interpolation between two samples that
  differ.
* `SpeedSeries.Brackets.unique`, `SpeedSeries.Brackets.bracket_eq`: A reading has one pair
  of neighbours.
* `SpeedSeries.exists_brackets`, `SpeedSeries.Brackets.between_ends`: Readings between the
  ends.
* `SpeedSeries.Brackets.carry`: From one column to another.
* `SpeedSeries.Brackets.arrival`: The time that a reading by distance gives.
* `SpeedSeries.Brackets.earliest`: There is none before it.
* `SpeedSeries.byDistance_inverse`: Readings by distance and by time.
-/

namespace JerkPlan

variable {R : Type} [ExactScalar R]

/-! Interpolation between two samples that differ -/

section Interpolation

variable {x x' t t' u u' w w' : R}

theorem lerp_of_apart (x x' w : R) (h : decimal 1 10 < t' - t) :
    lerp x t x' t' w = x + (w - t) / (t' - t) * (x' - x) := by
  have hpos : 0 < t' - t := (decimal_pos Nat.one_pos 10).trans h
  rw [lerp, magnitude_eq_abs, abs_of_pos hpos, if_neg (not_le.mpr h)]

/-- Interpolation between increasing values increases. -/
theorem lerp_strictMono (hx : x < x') (h : decimal 1 10 < t' - t) (hw : w < w') :
    lerp x t x' t' w < lerp x t x' t' w' := by
  have hpos : 0 < t' - t := (decimal_pos Nat.one_pos 10).trans h
  rw [lerp_of_apart x x' w h, lerp_of_apart x x' w' h]
  have hshare : (w - t) / (t' - t) < (w' - t) / (t' - t) :=
    div_lt_div_of_pos_right (sub_lt_sub_right hw t) hpos
  exact add_lt_add_right (mul_lt_mul_of_pos_right hshare (sub_pos.mpr hx)) x

/-- What is interpolated over a quantity that is interpolated over time, is interpolated
    over time. -/
theorem lerp_lerp (x x' w : R) (ht : decimal 1 10 < t' - t) (hu : decimal 1 10 < u' - u) :
    lerp x u x' u' (lerp u t u' t' w) = lerp x t x' t' w := by
  have hne : u' - u ≠ 0 := ((decimal_pos Nat.one_pos 10).trans hu).ne'
  rw [lerp_of_apart _ _ _ hu, lerp_of_apart _ _ _ ht, lerp_of_apart _ _ _ ht,
    add_sub_cancel_left, mul_div_cancel_right₀ _ hne]

/-- Time itself is interpolated as it is. -/
theorem lerp_self (w : R) (h : decimal 1 10 < t' - t) : lerp t t t' t' w = w := by
  have hne : t' - t ≠ 0 := ((decimal_pos Nat.one_pos 10).trans h).ne'
  rw [lerp_of_apart _ _ _ h, div_mul_cancel₀ _ hne, add_sub_cancel]

end Interpolation

namespace SpeedSeries

variable {d : SpeedSeries R} {key value : SpeedSample R → R} {x : R} {i : Nat}
  {p q first last : SpeedSample R}

/-! Neighbours -/

/-- Values that rise from each sample to the next rise from each to all later ones. -/
theorem pairwise_of_isChain (h : d.samples.IsChain fun p q => value p ≤ value q) :
    d.samples.Pairwise fun p q => value p ≤ value q :=
  haveI : IsTrans (SpeedSample R) fun p q => value p ≤ value q := ⟨fun _ _ _ => le_trans⟩
  h.pairwise

/-- What neighbours have in common with each other, the neighbours of a reading have. -/
theorem Brackets.related {related : SpeedSample R → SpeedSample R → Prop}
    (h : d.Brackets key x i p q) (hchain : d.samples.IsChain related) : related p q := by
  rcases List.getElem?_eq_some_iff.mp h.left with ⟨_, hp⟩
  rcases List.getElem?_eq_some_iff.mp h.right with ⟨hi, hq⟩
  rw [← hp, ← hq]
  exact List.isChain_iff_getElem.mp hchain i hi

/-- A reading uses no other neighbours. -/
theorem Brackets.unique (hkey : d.samples.Pairwise fun p q => key p ≤ key q) {i' : Nat}
    {p' q' : SpeedSample R} (h : d.Brackets key x i p q) (h' : d.Brackets key x i' p' q') :
    i = i' := by
  have hlt := (List.getElem?_eq_some_iff.mp h.right).1
  have hlt' := (List.getElem?_eq_some_iff.mp h'.right).1
  -- Of two pairs the first one would end before the second one begins.
  rcases Nat.lt_trichotomy i i' with hbefore | heq | hafter
  · have hend : x ≤ key q := h.before.resolve_left (by omega)
    have hbegin : key p' < x := h'.after.resolve_left (by omega)
    have hbetween : key q ≤ key p' := rising_getElem? hkey hbefore h.right h'.left
    exact absurd (hend.trans hbetween) (not_le.mpr hbegin)
  · exact heq
  · have hend : x ≤ key q' := h'.before.resolve_left (by omega)
    have hbegin : key p < x := h.after.resolve_left (by omega)
    have hbetween : key q' ≤ key p := rising_getElem? hkey hafter h'.right h.left
    exact absurd (hend.trans hbetween) (not_le.mpr hbegin)

/-- Where a series can be read, the neighbours of the reading are found. -/
theorem Brackets.bracket_eq (hkey : d.samples.Pairwise fun p q => key p ≤ key q)
    (h : d.Brackets key x i p q) (hread : (d.bracket key x).isSome) :
    d.bracket key x = some (p, q) := by
  rcases Option.isSome_iff_exists.mp hread with ⟨⟨p', q'⟩, hbracket⟩
  rcases brackets_of_bracket hkey hbracket with ⟨i', h'⟩
  obtain rfl := h.unique hkey h'
  rw [hbracket, Option.some.inj (h.left.symm.trans h'.left),
    Option.some.inj (h.right.symm.trans h'.right)]

/-- Between its ends a series can be read. -/
theorem bracket_isSome (hlength : 2 ≤ d.samples.length)
    (hfirst : d.samples.head? = some first) (hlast : d.samples.getLast? = some last)
    (hlow : key first ≤ x) (hhigh : x ≤ key last) : (d.bracket key x).isSome := by
  rw [bracket_isSome_iff]
  simp only [hlength, hfirst, hlast, Option.some.injEq, forall_eq', true_and]
  exact ⟨hlow.trans_lt (lt_add_of_pos_right x overhang_pos),
    (sub_lt_self x overhang_pos).trans_le hhigh⟩

/-- In a series in order the neighbours of such a reading are on either side of it. -/
theorem exists_brackets (hlength : 2 ≤ d.samples.length)
    (hkey : d.samples.Pairwise fun p q => key p ≤ key q)
    (hfirst : d.samples.head? = some first) (hlast : d.samples.getLast? = some last)
    (hlow : key first ≤ x) (hhigh : x ≤ key last) :
    ∃ i p q, d.bracket key x = some (p, q) ∧ d.Brackets key x i p q ∧ key p ≤ x ∧ x ≤ key q := by
  rcases Option.isSome_iff_exists.mp (bracket_isSome hlength hfirst hlast hlow hhigh) with
    ⟨⟨p, q⟩, hbracket⟩
  rcases brackets_of_bracket hkey hbracket with ⟨i, h⟩
  refine ⟨i, p, q, hbracket, h, ?_, ?_⟩
  · rcases h.after with rfl | hafter
    · rw [List.head?_eq_getElem?, h.left, Option.some.injEq] at hfirst
      rw [hfirst]
      exact hlow
    · exact hafter.le
  · rcases h.before with hend | hbefore
    · rw [List.getLast?_eq_getElem?, show d.samples.length - 1 = i + 1 by omega, h.right,
        Option.some.injEq] at hlast
      rw [hlast]
      exact hhigh
    · exact hbefore

/-- What rises from sample to sample is interpolated to something between the ends. -/
theorem Brackets.between_ends (hvalue : d.samples.Pairwise fun p q => value p ≤ value q)
    (hfirst : d.samples.head? = some first) (hlast : d.samples.getLast? = some last)
    (h : d.Brackets key x i p q) (hlow : key p ≤ x) (hhigh : x ≤ key q) :
    value first ≤ lerp (value p) (key p) (value q) (key q) x ∧
      lerp (value p) (key p) (value q) (key q) x ≤ value last := by
  have hrise : value p ≤ value q := rising_getElem? hvalue (Nat.le_succ i) h.left h.right
  have hspan : key p ≤ key q := hlow.trans hhigh
  constructor
  · exact (rising_first_le hvalue hfirst (List.mem_of_getElem? h.left)).trans
      (le_lerp hrise hspan hlow)
  · exact (lerp_le hrise hspan hhigh).trans
      (rising_le_last hvalue hlast (List.mem_of_getElem? h.right))

/-! From one column to another -/

/-- Two neighbours that differ in both columns stay the neighbours of a reading when it
    is carried over from the one to the other. -/
theorem Brackets.carry (h : d.Brackets key x i p q) (hapart : decimal 1 10 < key q - key p)
    (hrise : value p < value q) (hend : x ≤ key q) :
    d.Brackets value (lerp (value p) (key p) (value q) (key q) x) i p q := by
  have hkey : key p ≤ key q := (sub_pos.mp ((decimal_pos Nat.one_pos 10).trans hapart)).le
  refine ⟨h.left, h.right, ?_, Or.inr (lerp_le hrise.le hkey hend)⟩
  rcases h.after with hzero | hafter
  · exact Or.inl hzero
  · have hlater := lerp_strictMono hrise hapart hafter
    rw [lerp_start] at hlater
    exact Or.inr hlater

/-- Neighbours of a reading by distance are those of the time at which the vehicle comes
    there, and at that time it is there. -/
theorem Brackets.arrival {s : R} (h : d.Brackets (·.s) s i p q)
    (htime : decimal 1 10 < q.t - p.t) (hplace : p.s = q.s ∨ decimal 1 10 < q.s - p.s)
    (hlow : p.s ≤ s) (hhigh : s ≤ q.s) :
    d.Brackets (·.t) (lerp p.t p.s q.t q.s s) i p q ∧
      lerp p.s p.t q.s q.t (lerp p.t p.s q.t q.s s) = s := by
  have hrise : p.t < q.t := sub_pos.mp ((decimal_pos Nat.one_pos 10).trans htime)
  rcases hplace with hstands | hmoves
  · -- A standstill is read where the series begins.
    have hmeet : s = p.s := le_antisymm (hstands ▸ hhigh) hlow
    have hbegin : i = 0 := h.after.resolve_right (not_lt.mpr hmeet.le)
    subst hmeet
    rw [lerp_start, lerp_start]
    exact ⟨⟨h.left, h.right, Or.inl hbegin, Or.inr hrise.le⟩, rfl⟩
  · refine ⟨h.carry hmoves hrise hhigh, ?_⟩
    rw [lerp_lerp _ _ _ hmoves htime, lerp_self _ hmoves]

/-- Before that time it is not. -/
theorem Brackets.earliest {s t' : R} {i' : Nat} {p' q' : SpeedSample R}
    (htimes : d.samples.Pairwise fun p q => p.t ≤ q.t)
    (hplaces : d.samples.Pairwise fun p q => p.s ≤ q.s)
    (h : d.Brackets (·.s) s i p q) (htime : decimal 1 10 < q.t - p.t)
    (hplace : p.s = q.s ∨ decimal 1 10 < q.s - p.s) (hlow : p.s ≤ s) (hhigh : s ≤ q.s)
    (h' : d.Brackets (·.t) t' i' p' q') (hbegun : p'.t ≤ t')
    (hthere : s ≤ lerp p'.s p'.t q'.s q'.t t') : lerp p.t p.s q.t q.s s ≤ t' := by
  have hlt := (List.getElem?_eq_some_iff.mp h.right).1
  have hlt' := (List.getElem?_eq_some_iff.mp h'.right).1
  have hrise : p.t < q.t := sub_pos.mp ((decimal_pos Nat.one_pos 10).trans htime)
  have hspan : p.s ≤ q.s := hlow.trans hhigh
  rcases h.arrival htime hplace hlow hhigh with ⟨_, hvalue⟩
  rcases Nat.lt_trichotomy i i' with hafter | rfl | hbefore
  · -- Whatever is read later is read after the arrival.
    calc lerp p.t p.s q.t q.s s
        ≤ q.t := lerp_le hrise.le hspan hhigh
      _ ≤ p'.t := rising_getElem? htimes hafter h.right h'.left
      _ ≤ t' := hbegun
  · -- On the same line an earlier time leads less far.
    obtain rfl : p = p' := Option.some.inj (h.left.symm.trans h'.left)
    obtain rfl : q = q' := Option.some.inj (h.right.symm.trans h'.right)
    rcases hplace with hstands | hmoves
    · have hmeet : s = p.s := le_antisymm (hstands ▸ hhigh) hlow
      rw [hmeet, lerp_start]
      exact hbegun
    · by_contra hearly
      have hless := lerp_strictMono (sub_pos.mp ((decimal_pos Nat.one_pos 10).trans hmoves))
        htime (not_le.mp hearly)
      rw [hvalue] at hless
      exact absurd hthere (not_le.mpr hless)
  · -- Whatever is read before the first neighbour has not even come to that.
    have hend : t' ≤ q'.t := h'.before.resolve_left (by omega)
    have hshort : p.s < s := h.after.resolve_left (by omega)
    have hspan' : p'.s ≤ q'.s := rising_getElem? hplaces (Nat.le_succ i') h'.left h'.right
    have hbehind : lerp p'.s p'.t q'.s q'.t t' ≤ p.s :=
      calc lerp p'.s p'.t q'.s q'.t t'
          ≤ q'.s := lerp_le hspan' (hbegun.trans hend) hend
        _ ≤ p.s := rising_getElem? hplaces hbefore h'.right h.left
    exact absurd (hthere.trans hbehind) (not_le.mpr hshort)

/-- Take a series whose times can be told apart and which never goes back, each sample
    being at the place of the one before it or so far on that this can be told. Then every
    place between its ends can be read. The time of the reading is the earliest one at
    which the vehicle has come that far, and read at that time it is there. If it never
    stands still, reading by time and then by the place read gives the same again. -/
theorem byDistance_inverse (hlength : 2 ≤ d.samples.length)
    (htimes : d.samples.IsChain fun p q => decimal 1 10 < q.t - p.t)
    (hplaces : d.samples.IsChain fun p q => p.s = q.s ∨ decimal 1 10 < q.s - p.s) :
    ∃ first last, d.samples.head? = some first ∧ d.samples.getLast? = some last ∧
      (∀ s, first.s ≤ s → s ≤ last.s → ∃ y, d.byDistance s = some y ∧ y.s = s ∧
        IsLeast {t | first.t ≤ t ∧ t ≤ last.t ∧ ∃ x, d.byTime t = some x ∧ s ≤ x.s} y.t ∧
        ∃ x, d.byTime y.t = some x ∧ x.s = s) ∧
      (d.samples.IsChain (fun p q => p.s < q.s) → ∀ t, first.t ≤ t → t ≤ last.t →
        ∃ x, d.byTime t = some x ∧ x.t = t ∧ d.byDistance x.s = some x) := by
  have hpos : (0 : R) < decimal 1 10 := decimal_pos Nat.one_pos 10
  have hbytime : d.samples.Pairwise fun p q => p.t ≤ q.t :=
    pairwise_of_isChain (htimes.imp fun p q h => (sub_pos.mp (hpos.trans h)).le)
  have hbyplace : d.samples.Pairwise fun p q => p.s ≤ q.s := by
    refine pairwise_of_isChain (hplaces.imp fun p q h => ?_)
    rcases h with hstands | hmoves
    · exact hstands.le
    · exact (sub_pos.mp (hpos.trans hmoves)).le
  have hsome : d.samples ≠ [] := List.ne_nil_of_length_pos (by omega)
  have hfirst := List.head?_eq_some_head hsome
  have hlast := List.getLast?_eq_some_getLast hsome
  generalize d.samples.head hsome = first at hfirst
  generalize d.samples.getLast hsome = last at hlast
  refine ⟨first, last, hfirst, hlast, fun s hlow hhigh => ?_, fun hmoving t hlow hhigh => ?_⟩
  · rcases exists_brackets hlength hbyplace hfirst hlast hlow hhigh with
      ⟨i, p, q, hbracket, h, hp, hq⟩
    have htime := h.related htimes
    have hplace := h.related hplaces
    rcases h.arrival htime hplace hp hq with ⟨harrival, hvalue⟩
    rcases h.between_ends hbytime hfirst hlast hp hq with ⟨hbegin, hend⟩
    -- The reading by time uses the same neighbours, so it is at the place again.
    obtain ⟨x, hx, hthere⟩ : ∃ x, d.byTime (lerp p.t p.s q.t q.s s) = some x ∧ x.s = s := by
      have hread : (d.bracket (·.t) (lerp p.t p.s q.t q.s s)).isSome :=
        bracket_isSome hlength hfirst hlast hbegin hend
      exact ⟨_, by rw [byTime, harrival.bracket_eq hbytime hread, Option.map_some], hvalue⟩
    refine ⟨_, by rw [byDistance, hbracket, Option.map_some], rfl, ⟨?_, ?_⟩, x, hx, hthere⟩
    · exact ⟨hbegin, hend, x, hx, hthere.ge⟩
    · rintro t' ⟨hlow', hhigh', x', hx', hfar⟩
      rcases exists_brackets hlength hbytime hfirst hlast hlow' hhigh' with
        ⟨i', p', q', hbracket', h', hp', _⟩
      rw [byTime, hbracket', Option.map_some, Option.some.injEq] at hx'
      rw [← hx'] at hfar
      exact h.earliest hbytime hbyplace htime hplace hp hq h' hp' hfar
  · rcases exists_brackets hlength hbytime hfirst hlast hlow hhigh with
      ⟨i, p, q, hbracket, h, hp, hq⟩
    have htime := h.related htimes
    have hmoves : decimal 1 10 < q.s - p.s :=
      (h.related hplaces).resolve_left (h.related hmoving).ne
    have hback := h.carry htime (h.related hmoving) hq
    rcases h.between_ends hbyplace hfirst hlast hp hq with ⟨hplacelow, hplacehigh⟩
    have hread : (d.bracket (·.s) (lerp p.s p.t q.s q.t t)).isSome :=
      bracket_isSome hlength hfirst hlast hplacelow hplacehigh
    have hsame := hback.bracket_eq hbyplace hread
    refine ⟨_, by rw [byTime, hbracket, Option.map_some], rfl, ?_⟩
    -- Each column over the place is the same column over time.
    rw [byDistance, hsame, Option.map_some]
    simp only [lerp_lerp _ _ _ htime hmoves, lerp_self _ htime]

/-- Standing at the beginning, at the end and for two seconds on the way. -/
def stopAndGo : SpeedSeries Rat :=
  ⟨[⟨0, 0, 0, 0, 0⟩, ⟨0, 1, 0, 1, 1⟩, ⟨3, 2, 0, -1, 0⟩, ⟨3, 4, 0, 1, 0⟩, ⟨7, 6, 0, 0, -1⟩,
    ⟨7, 9, 0, 0, 0⟩]⟩

/-- Moving all the time. -/
def unbrokenMotion : SpeedSeries Rat := ⟨[⟨0, 0, 1, 0, 2⟩, ⟨2, 1, 3, 0, -1⟩, ⟨8, 3, 3, 0, 0⟩]⟩

/-- It is after two seconds that the vehicle comes to its second stop, and what is read on
    the move is read back. -/
theorem byDistance_inverse_stopAndGo : 2 ≤ stopAndGo.samples.length ∧
    stopAndGo.samples.IsChain (fun p q => decimal 1 10 < q.t - p.t) ∧
    stopAndGo.samples.IsChain (fun p q => p.s = q.s ∨ decimal 1 10 < q.s - p.s) ∧
    IsLeast {t | 0 ≤ t ∧ t ≤ 9 ∧ ∃ x, stopAndGo.byTime t = some x ∧ 3 ≤ x.s} 2 ∧
    unbrokenMotion.samples.IsChain (fun p q => p.s < q.s) ∧
    ∃ x, unbrokenMotion.byTime (3 / 2) = some x ∧ x.t = 3 / 2 ∧
      unbrokenMotion.byDistance x.s = some x := by
  have hlength : 2 ≤ stopAndGo.samples.length := by decide
  have htimes : stopAndGo.samples.IsChain fun p q => decimal 1 10 < q.t - p.t := by
    decide +kernel
  have hplaces : stopAndGo.samples.IsChain fun p q => p.s = q.s ∨ decimal 1 10 < q.s - p.s := by
    decide +kernel
  have hmoving : unbrokenMotion.samples.IsChain fun p q => p.s < q.s := by decide +kernel
  rcases byDistance_inverse hlength htimes hplaces with ⟨first, last, hfirst, hlast, hread, _⟩
  rcases byDistance_inverse (d := unbrokenMotion) (by decide) (by decide +kernel)
    (by decide +kernel) with ⟨first', last', hfirst', hlast', _, hback⟩
  obtain rfl : _ = first := Option.some.inj hfirst
  obtain rfl : _ = last := Option.some.inj hlast
  obtain rfl : _ = first' := Option.some.inj hfirst'
  obtain rfl : _ = last' := Option.some.inj hlast'
  rcases hread 3 (by decide +kernel) (by decide +kernel) with ⟨y, hy, _, hleast, _⟩
  have htwo : y.t = 2 := by
    have hvalue : (stopAndGo.byDistance 3).map (·.t) = some 2 := by decide +kernel
    rw [hy, Option.map_some, Option.some.injEq] at hvalue
    exact hvalue
  rw [htwo] at hleast
  exact ⟨hlength, htimes, hplaces, hleast, hmoving,
    hback hmoving (3 / 2) (by decide +kernel) (by decide +kernel)⟩

end SpeedSeries

end JerkPlan
