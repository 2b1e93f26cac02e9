import JerkPlan.Proofs.JoinedCurves
import JerkPlan.CurveTable

/-!
# Tabulated curves

What a table holds of its curve, and what its smooth function takes from it.

A table ends at the place that was asked for, at the end of its curve or a spacing from
zero, whichever is farthest. The spacing is an upper bound only. There are as many steps
as it takes for none of them to be wider, and three at least, and they share the way evenly.
So a short table, or one that does not end at a multiple of the spacing, has narrower steps
than asked for.

The last place is written as the end itself and the others as multiples of a step. Without
rounding that is no exception. `CurveTable.places_eq` is all that has to be known of places,
and `CurveTable.ofCurve_eq` of the count of steps.

A curve goes on beyond its end as its last segment does, and its table does not. There
each value is the one at the end, which is the value in which the last segment ends.

Inside its table the smooth function goes through all the values there, whatever the bends
are. That is `Spline.ofTable_node`; the last place belongs to the cell before it.

## Main definitions

* `CurveTable.EvenGrid`: Places a step apart from zero to an end.
* `CurveTable.sampled`: The table of a curve with a number of steps.
* `CurveTable.Spaced`: A table with a value at each of a number of places.
* `CurveTable.Interpolates`: A function through all values of a table.
* `Spline.Covers`: A place inside the table.

## Theorems

* `CurveTable.places_eq`: Places are the multiples of a step.
* `CurveTable.evenGrid_places`: And so they make an even grid.
* `CurveTable.ofCurve_eq`: How many steps a table has.
* `CurveTable.ofCurve_spaced`: The table of a curve.
* `Spline.ofTable_node`, `Spline.ofTable_interpolates`: A smooth function goes
  through its table.
* `Spline.ofCurve_covers`: A smooth function covers what is in reach.
* `JerkCurve.Joined.eval_length`: At its end a curve has the value of its last segment.
* `JerkCurve.history_tabulated`: The table of any curve that comes about.
-/

namespace JerkPlan

variable {R : Type} [ExactScalar R]

/-! Tables -/

namespace CurveTable

/-- Places that increase from zero to an end, each a step after the one before. -/
structure EvenGrid (step finish : R) (grid : List R) : Prop where
  rising : grid.Pairwise (· < ·)
  first : grid.head? = some 0
  last : grid.getLast? = some finish
  apart : ∀ (i : Nat) (s s' : R), grid[i]? = some s → grid[i + 1]? = some s' → s' = s + step

/-- A table has places a positive spacing apart, `n` steps from zero to its
    end, and a value at each of them. -/
structure Spaced (n : Nat) (t : CurveTable R) : Prop where
  pos : 0 < n
  spacing_pos : 0 < t.spacing
  finish : t.finish = (n : R) * t.spacing
  length_values : t.values.length = n + 1

/-- A function takes the values of a table at its places. -/
def Interpolates (t : CurveTable R) (f : R → R) : Prop :=
  ∀ (i : Nat) y, t.values[i]? = some y → f ((i : R) * t.spacing) = y

/-- The table of a curve up to an end, with a number of steps. -/
def sampled (curve : JerkCurve R) (finish : R) (count : Nat) : CurveTable R :=
  ⟨finish / (count : R), finish,
    (places finish count).map fun s => curve.eval 0 (lesser s curve.length)⟩

theorem finishFor_eq (curve : JerkCurve R) (reach spacing : R) :
    finishFor curve reach spacing = max (max reach curve.length) spacing := by
  rw [finishFor, greater_eq_max, greater_eq_max]

theorem finishFor_pos (curve : JerkCurve R) (reach : R) {spacing : R} (hspacing : 0 < spacing) :
    0 < finishFor curve reach spacing := by
  rw [finishFor_eq]
  exact lt_max_of_lt_right hspacing

section Places

variable {finish : R} {count : Nat}

/-- The end of a table is one more multiple of its step. -/
theorem places_eq (finish : R) (hcount : 0 < count) : places finish count =
    (List.range (count + 1)).map fun (i : Nat) => (i : R) * (finish / (count : R)) := by
  have hne : (count : R) ≠ 0 := Nat.cast_ne_zero.mpr hcount.ne'
  rw [places, List.range_succ, List.map_append, List.map_singleton, mul_div_cancel₀ finish hne]

theorem length_places (finish : R) (count : Nat) : (places finish count).length = count + 1 := by
  rw [places, List.length_append, List.length_map, List.length_range, List.length_singleton]

/-- The places of a table, its end included. -/
theorem getElem?_places (finish : R) (hcount : 0 < count) {i : Nat} (hi : i ≤ count) :
    (places finish count)[i]? = some ((i : R) * (finish / (count : R))) := by
  rw [places_eq finish hcount, List.getElem?_map, List.getElem?_range (Nat.lt_succ_of_le hi),
    Option.map_some]

/-- And the other way round: what is a place of a table is a multiple of its step. -/
theorem eq_of_getElem?_places (hcount : 0 < count) {i : Nat} {s : R}
    (hs : (places finish count)[i]? = some s) : s = (i : R) * (finish / (count : R)) := by
  have hi := (List.getElem?_eq_some_iff.mp hs).1
  rw [length_places] at hi
  rw [getElem?_places finish hcount (Nat.le_of_lt_succ hi), Option.some.injEq] at hs
  exact hs.symm

/-- The places of a table are an even grid. -/
theorem evenGrid_places (hfinish : 0 < finish) (hcount : 0 < count) :
    EvenGrid (finish / (count : R)) finish (places finish count) := by
  have hstep : 0 < finish / (count : R) := div_pos hfinish (Nat.cast_pos.mpr hcount)
  constructor
  · rw [places_eq finish hcount, List.pairwise_map]
    exact List.pairwise_lt_range.imp fun hij => mul_lt_mul_of_pos_right (Nat.cast_lt.mpr hij) hstep
  · rw [List.head?_eq_getElem?, getElem?_places finish hcount (Nat.zero_le count), Nat.cast_zero,
      zero_mul]
  · rw [places, List.getLast?_concat]
  · intro i s s' hs hs'
    rw [eq_of_getElem?_places hcount hs, eq_of_getElem?_places hcount hs', Nat.cast_add,
      Nat.cast_one, add_one_mul]

end Places

/-- The table of a curve has three steps or more, and enough of them for each to be no wider
    than asked for. -/
theorem ofCurve_eq (curve : JerkCurve R) (reach : R) {spacing : R} (hspacing : spacing ≠ 0) :
    ∃ count : Nat, 3 ≤ count ∧ finishFor curve reach spacing / spacing ≤ (count : R) ∧
      ofCurve curve reach spacing = .ok (sampled curve (finishFor curve reach spacing) count) := by
  rcases ceiling_eq (finishFor curve reach spacing / spacing) with ⟨n, hn, hceiling, _⟩
  refine ⟨(max 3 n).toNat, by omega, hceiling.trans ?_, ?_⟩
  · have hle : n ≤ ((max 3 n).toNat : Int) := by omega
    exact_mod_cast (Int.cast_le (R := R)).mpr hle
  · unfold ofCurve
    simp only [same_eq_false hspacing, Bool.false_eq_true, if_false, hn]
    rfl

/-- A value of a table is that of the curve, or of its end beyond that. -/
theorem value_sampled {curve : JerkCurve R} {finish : R} {count i : Nat} {s y : R}
    (hs : (places finish count)[i]? = some s) (hy : (sampled curve finish count).values[i]? = some y) :
    y = curve.eval 0 (min s curve.length) := by
  rw [sampled, List.getElem?_map, hs, Option.map_some, lesser_eq_min, Option.some.injEq] at hy
  exact hy.symm

theorem sampled_spaced (curve : JerkCurve R) {finish : R} (hfinish : 0 < finish) {count : Nat}
    (hcount : 0 < count) : (sampled curve finish count).Spaced count := by
  have hcast : (0 : R) < (count : R) := Nat.cast_pos.mpr hcount
  refine ⟨hcount, div_pos hfinish hcast, (mul_div_cancel₀ finish hcast.ne').symm, ?_⟩
  rw [sampled, List.length_map, length_places]

/-- A curve is tabulated at even places up to the end of the table, with its own
    values as far as it goes and its last one from there on. -/
theorem ofCurve_spaced {curve : JerkCurve R} {reach spacing : R} (hspacing : 0 < spacing)
    {t : CurveTable R} (ht : ofCurve curve reach spacing = .ok t) :
    ∃ n, t.Spaced n ∧ t.finish = finishFor curve reach spacing ∧ ∀ i ≤ n,
      t.values[i]? = some (curve.eval 0 (min ((i : R) * t.spacing) curve.length)) := by
  rcases ofCurve_eq curve reach hspacing.ne' with ⟨count, hthree, _, hcurve⟩
  have hcount : 0 < count := by omega
  obtain rfl := Except.ok.inj (hcurve.symm.trans ht)
  refine ⟨count, sampled_spaced curve (finishFor_pos curve reach hspacing) hcount, rfl,
    fun i hi => ?_⟩
  rw [sampled, List.getElem?_map, getElem?_places _ hcount hi, Option.map_some, lesser_eq_min]

end CurveTable

/-! Smooth functions -/

namespace Spline

/-- A place lies inside the table. -/
structure Covers (f : Spline R) (x : R) : Prop where
  nonneg : 0 ≤ x
  le_finish : x ≤ f.finish

/-- Inside its table a smooth function is the cubic of a cell. -/
theorem Covers.eval {f : Spline R} {x : R} (h : f.Covers x) : f.eval x = (f.jet x).p :=
  if_neg (not_or.mpr ⟨not_lt.mpr h.nonneg, not_lt.mpr h.le_finish⟩)

/-- The cell of a place of the table begins there, but for the last place. -/
theorem cell_node {t : CurveTable R} {n : Nat} (ht : t.Spaced n) (i : Nat) :
    (ofTable t).cell ((i : R) * t.spacing) = min i (n - 1) := by
  have hsize : (ofTable t).values.size - 2 = n - 1 := by
    change t.values.toArray.size - 2 = n - 1
    rw [List.size_toArray, ht.length_values]
    omega
  rcases truncate_of_nonneg (Nat.cast_nonneg (α := R) i) with ⟨m, hm, hle, hlt⟩
  -- A whole number is its own integer part.
  have hwhole : m = i := by
    have hbelow : m ≤ (i : Int) := by exact_mod_cast hle
    have habove : (i : Int) < m + 1 := by exact_mod_cast hlt
    omega
  have htruncate : Scalar.truncate ((i : R) * t.spacing / (ofTable t).spacing) =
      .ok (i : Int) := by
    change Scalar.truncate ((i : R) * t.spacing / t.spacing) = _
    rw [mul_div_cancel_right₀ _ ht.spacing_pos.ne', hm, hwhole]
  simp only [cell, htruncate, hsize, Int.toNat_natCast]

/-- A smooth function goes through the values of its table: the cubic of a cell
    has them at both ends, whatever the bends there are. -/
theorem ofTable_node {t : CurveTable R} {n : Nat} (ht : t.Spaced n) {i : Nat} {y : R}
    (hy : t.values[i]? = some y) : (ofTable t).eval ((i : R) * t.spacing) = y := by
  have hpos := ht.spacing_pos
  have hne := hpos.ne'
  have hi : i ≤ n := by
    have := (List.getElem?_eq_some_iff.mp hy).1
    rw [ht.length_values] at this
    omega
  have hcovers : (ofTable t).Covers ((i : R) * t.spacing) := by
    refine ⟨mul_nonneg (Nat.cast_nonneg i) hpos.le, ?_⟩
    change (i : R) * t.spacing ≤ t.finish
    rw [ht.finish]
    exact mul_le_mul_of_nonneg_right (Nat.cast_le.mpr hi) hpos.le
  have hvalue : (ofTable t).values.getD i 0 = y := by
    simp only [ofTable, Array.getD_eq_getD_getElem?, List.getElem?_toArray, hy, Option.getD_some]
  rw [hcovers.eval]
  unfold jet
  simp only [cell_node ht]
  have hspacing : (ofTable t).spacing = t.spacing := rfl
  rw [hspacing]
  rcases Nat.eq_or_lt_of_le hi with hlast | hlt
  · -- The last place is the right end of the last cell.
    rcases Nat.exists_eq_add_one.mpr ht.pos with ⟨k, rfl⟩
    rw [hlast] at hvalue ⊢
    rw [Nat.add_sub_cancel, Nat.min_eq_right (Nat.le_succ k), hvalue]
    push_cast
    field_simp
    ring
  · rw [show min i (n - 1) = i by omega, hvalue]
    field_simp
    ring

/-- The smooth function through the table of a curve interpolates it. -/
theorem ofTable_interpolates {t : CurveTable R} {n : Nat} (ht : t.Spaced n) :
    t.Interpolates (ofTable t).eval :=
  fun _ _ hy => ofTable_node ht hy

/-- The smooth function of a curve is that of its table. -/
theorem ofCurve_ok {curve : JerkCurve R} {reach spacing : R} {f : Spline R}
    (hf : ofCurve curve reach spacing = .ok f) :
    ∃ t, CurveTable.ofCurve curve reach spacing = .ok t ∧ f = ofTable t := by
  unfold ofCurve at hf
  rcases ht : CurveTable.ofCurve curve reach spacing with e | t
  · rw [ht] at hf
    exact absurd hf (by simp only [Except.map, reduceCtorEq, not_false_eq_true])
  · rw [ht, Except.map, Except.ok.injEq] at hf
    exact ⟨t, rfl, hf.symm⟩

/-- And where there is a table there is a smooth function. -/
theorem ofCurve_of_table {curve : JerkCurve R} {reach spacing : R} {t : CurveTable R}
    (ht : CurveTable.ofCurve curve reach spacing = .ok t) :
    ofCurve curve reach spacing = .ok (ofTable t) := by
  rw [ofCurve, ht, Except.map]

/-- The smooth function of a curve covers everything up to the end that was
    asked for. -/
theorem ofCurve_covers {curve : JerkCurve R} {reach spacing : R} (hspacing : 0 < spacing)
    {f : Spline R} (hf : ofCurve curve reach spacing = .ok f) {x : R} (hnonneg : 0 ≤ x)
    (hreach : x ≤ max reach spacing) : f.Covers x := by
  rcases ofCurve_ok hf with ⟨t, ht, rfl⟩
  rcases CurveTable.ofCurve_spaced hspacing ht with ⟨_, _, hfinish, _⟩
  refine ⟨hnonneg, hreach.trans ?_⟩
  change max reach spacing ≤ t.finish
  rw [hfinish, CurveTable.finishFor_eq]
  exact max_le_max_right _ (le_max_left _ _)

end Spline

/-! Curves -/

namespace JerkCurve

/-- At its end a curve has the value in which its last segment ends. -/
theorem Joined.eval_length {c : JerkCurve R} (h : c.Joined) {g : JerkSegment R}
    (hg : c.segments.getLast? = some g) : c.eval 0 c.length = g.finish.p := by
  have hsome : 0 < c.segments.length :=
    List.length_pos_iff.mpr fun hnone => by rw [hnone] at hg; exact absurd hg (by simp)
  have hfinish : c.finish = g.finish := by rw [JerkCurve.finish, hg, Option.elim_some]
  rw [← hfinish, ← h.motionAt_length hsome, motionAt]

variable (start : Motion R) (calls : List (R × R)) (reach : R) {spacing : R}

/-- Every curve that comes about has a table, however far that has to reach and whichever
    positive spacing is asked for. Its places are four or more, they increase from zero to
    the end in equal steps that are no wider than the spacing, and the end is neither before
    the place that was asked for nor before the end of the curve. At each of them there is
    one value, through which the smooth function goes. Up to the end of the curve it is the
    value of the curve there. From there on it is the one at the end of the curve, where the
    last segment ends. -/
theorem history_tabulated (hspacing : 0 < spacing) : ∃ c t count, history start calls = c ∧
    CurveTable.ofCurve c reach spacing = .ok t ∧
    Spline.ofCurve c reach spacing = .ok (Spline.ofTable t) ∧
    4 ≤ (CurveTable.places t.finish count).length ∧
    CurveTable.EvenGrid t.spacing t.finish (CurveTable.places t.finish count) ∧
    t.spacing ≤ spacing ∧ reach ≤ t.finish ∧ c.length ≤ t.finish ∧
    t.values.length = (CurveTable.places t.finish count).length ∧
    (∀ (i : Nat) s y, (CurveTable.places t.finish count)[i]? = some s → t.values[i]? = some y →
      (Spline.ofTable t).eval s = y ∧ (s ≤ c.length → y = c.eval 0 s) ∧
      (c.length ≤ s → y = c.eval 0 c.length)) ∧
    ∀ g, c.segments.getLast? = some g → c.eval 0 c.length = g.finish.p := by
  have hjoined := joined_history start calls
  generalize history start calls = c at hjoined
  rcases CurveTable.ofCurve_eq c reach hspacing.ne' with ⟨count, hthree, hcover, ht⟩
  have hfinish := CurveTable.finishFor_pos c reach hspacing
  have hends := CurveTable.finishFor_eq c reach spacing
  have hcount : 0 < count := by omega
  generalize CurveTable.finishFor c reach spacing = finish at hcover ht hfinish hends
  have hspaced := CurveTable.sampled_spaced c hfinish hcount
  refine ⟨c, CurveTable.sampled c finish count, count, rfl, ht, Spline.ofCurve_of_table ht, ?_,
    CurveTable.evenGrid_places hfinish hcount, ?_, ?_, ?_, ?_,
    fun i s y hs hy => ⟨?_, fun hbefore => ?_, fun hbeyond => ?_⟩,
    fun g hg => hjoined.eval_length hg⟩
  · rw [CurveTable.length_places]
    omega
  · -- The steps are as many as the spacings that make up the whole way, or more.
    have hwhole : finish ≤ (count : R) * spacing := (div_le_iff₀ hspacing).mp hcover
    exact (div_le_iff₀' (Nat.cast_pos.mpr hcount)).mpr hwhole
  · exact hends ▸ (le_max_left _ _).trans (le_max_left _ _)
  · exact hends ▸ (le_max_right _ _).trans (le_max_left _ _)
  · rw [hspaced.length_values, CurveTable.length_places]
  · rw [CurveTable.eq_of_getElem?_places hcount hs]
    exact Spline.ofTable_node hspaced hy
  · rw [CurveTable.value_sampled hs hy, min_eq_left hbefore]
  · rw [CurveTable.value_sampled hs hy, min_eq_right hbeyond]

/-- A metre of curve, after which a segment was refused, tabulated a little farther. The
    spacing would make do with two steps, and the last of the four places is beyond the
    curve, which would go on rising there. -/
theorem history_tabulated_shortCurve : (0 : Rat) < 1 ∧ ∃ c t count,
    history ⟨0, 1, 0⟩ [((0 : Rat), 1), (5, 0)] = c ∧ CurveTable.ofCurve c (5 / 4) 1 = .ok t ∧
      CurveTable.places t.finish count = [0, 5 / 12, 5 / 6, 5 / 4] ∧
      t.values = [0, 5 / 12, 5 / 6, 1] ∧ c.eval 0 (5 / 4) = 5 / 4 ∧
      CurveTable.EvenGrid t.spacing t.finish (CurveTable.places t.finish count) ∧
      t.spacing ≤ 1 ∧ (Spline.ofTable t).eval (5 / 4) = 1 := by
  have hone : (0 : Rat) < 1 := by decide
  rcases history_tabulated ⟨0, 1, 0⟩ [((0 : Rat), 1), (5, 0)] (5 / 4) hone with
    ⟨c, t, count, hc, ht, _, _, hgrid, hnarrow, _, _, hlength, hvalues, _⟩
  subst hc
  have htable : (CurveTable.ofCurve (history ⟨0, 1, 0⟩ [((0 : Rat), 1), (5, 0)]) (5 / 4)
      1).toOption.map (fun t => (t.finish, t.values)) = some (5 / 4, [0, 5 / 12, 5 / 6, 1]) := by
    decide +kernel
  rw [ht] at htable
  rcases Prod.mk.inj (Option.some.inj htable) with ⟨hfinish, hfour⟩
  rw [hfour, CurveTable.length_places] at hlength
  obtain rfl : count = 3 := (Nat.succ.inj hlength).symm
  have hplaces : CurveTable.places t.finish 3 = [0, 5 / 12, 5 / 6, 5 / 4] := by
    rw [hfinish]
    decide +kernel
  have hlast := hvalues 3 (5 / 4) 1 (by rw [hplaces]; rfl) (by rw [hfour]; rfl)
  exact ⟨hone, _, t, 3, rfl, ht, hplaces, hfour, by decide +kernel, hgrid, hnarrow, hlast.1⟩

end JerkCurve

end JerkPlan
