import JerkPlan.Proofs.KnotRows

/-!
# Constraints over knots

The rows of a problem say exactly what its bounds, its step and its start ask.

Solvers know numbers only, and a bound of magnitude `10 ^ 30` is one that is
not there. `withinRead` reads a row in this way, and `Constraints.Kept` reads
all rows so. On the other side stands `KnotProblem.Asks`, which mentions no
rows and no indices of variables: at each knot three boxes, over each step a
box for the change of the second derivative and the closed forms of constant
jerk, and at the first knot the start.

The two agree for every problem whose numbers a solver can take, the bounds of
the change after they are multiplied by the step. The start is given to the
solver as two equal bounds. As long as it is below `10 ^ 30` these are an
equation; at that very magnitude one of the two would be read as absent, and
only the other is left.

## Main definitions

* `withinRead`: A value between two bounds, as a solver reads them.
* `Constraints.Kept`: All rows, as a solver reads them.
* `Endpoint.Proper`: A pair of ends that a solver can take.
* `Endpoint.Between`: A value between two ends.
* `KnotProblem.InRange`: All numbers are such as a solver can take.
* `KnotProblem.Asks`: What a problem asks of a point.

## Theorems

* `withinRead_clip_iff`: Clipping does not change what a pair of ends asks.
* `withinRead_zero_iff`: A row between zero and zero is an equation.
* `between_self_iff`: Two equal ends are an equation.
* `kept_constraints_iff`: The rows say what the problem asks.
-/

namespace JerkPlan

variable {R : Type} [ExactScalar R]

/-- A value lies between two bounds as a solver reads them: a bound of the
    magnitude that stands for no bound is none. -/
def withinRead (lower upper x : R) : Prop :=
  (lower = -Endpoint.huge ∨ lower ≤ x) ∧ (upper = Endpoint.huge ∨ x ≤ upper)

instance (lower upper x : R) : Decidable (withinRead lower upper x) :=
  inferInstanceAs (Decidable
    ((lower = -Endpoint.huge ∨ lower ≤ x) ∧ (upper = Endpoint.huge ∨ x ≤ upper)))

/-- A point keeps all constraints as a solver reads them. -/
def Constraints.Kept (z : Nat → R) (c : Constraints R) : Prop := c.Each withinRead z

instance (z : Nat → R) (c : Constraints R) : Decidable (c.Kept z) :=
  inferInstanceAs (Decidable (∀ x ∈ (c.rows.map (rowValue z)).zip (c.lower.zip c.upper),
    withinRead x.2.1 x.2.2 x.1))

namespace Endpoint

/-- A pair of ends that a solver can take: each is a number of magnitude at
    most `huge`, or infinite on its own side, where it means no bound. -/
def Proper (b : Endpoint R × Endpoint R) : Prop :=
  (b.1 = .minusInfinity ∨ ∃ x, b.1 = .finite x ∧ |x| ≤ huge) ∧
    (b.2 = .plusInfinity ∨ ∃ x, b.2 = .finite x ∧ |x| ≤ huge)

/-- A value lies between two ends, an end of the magnitude that stands for no
    bound being none. -/
def Between (b : Endpoint R × Endpoint R) (x : R) : Prop :=
  (b.1 = .finite (-huge) ∨ b.1.atLeast x) ∧ (b.2 = .finite huge ∨ b.2.atMost x)

/-- Clipping does not change what a pair of ends asks. -/
theorem withinRead_clip_iff {b : Endpoint R × Endpoint R} (h : Proper b) (x : R) :
    withinRead b.1.clip b.2.clip x ↔ Between b x := by
  rcases b with ⟨l, u⟩
  rcases h with ⟨hl, hu⟩
  -- An infinite end is clipped to the very bound that is read as absent.
  have hlower : (l.clip = -huge ∨ l.clip ≤ x) ↔ (l = .finite (-huge) ∨ l.atLeast x) := by
    rcases hl with rfl | ⟨y, rfl, hy⟩
    · simp only [clip, true_or, atLeast, or_true]
    · rw [clip_finite (neg_le_of_abs_le hy) (le_of_abs_le hy), atLeast, finite.injEq]
  have hupper : (u.clip = huge ∨ x ≤ u.clip) ↔ (u = .finite huge ∨ u.atMost x) := by
    rcases hu with rfl | ⟨y, rfl, hy⟩
    · simp only [clip, true_or, atMost, or_true]
    · rw [clip_finite (neg_le_of_abs_le hy) (le_of_abs_le hy), atMost, finite.injEq]
  exact and_congr hlower hupper

/-- Two equal ends are an equation. -/
theorem between_self_iff {y : R} (h : |y| < huge) (x : R) :
    Between (.finite y, .finite y) x ↔ x = y := by
  have hl : y ≠ -huge := (neg_lt_of_abs_lt h).ne'
  have hu : y ≠ huge := (lt_of_abs_lt h).ne
  simp only [Between, finite.injEq, hl, hu, false_or, atLeast, atMost]
  exact ⟨fun hx => le_antisymm hx.2 hx.1, fun hx => ⟨hx.ge, hx.le⟩⟩

theorem proper_self {y : R} (h : |y| ≤ huge) : Proper (.finite y, .finite y) :=
  ⟨.inr ⟨y, rfl, h⟩, .inr ⟨y, rfl, h⟩⟩

end Endpoint

/-- A row between zero and zero is an equation. -/
theorem withinRead_zero_iff (x : R) : withinRead 0 0 x ↔ x = 0 := by
  have hpos : (0 : R) < Endpoint.huge := Endpoint.huge_pos
  have hl : (0 : R) ≠ -Endpoint.huge := (neg_lt_zero.mpr hpos).ne'
  simp only [withinRead, hl, hpos.ne, false_or]
  exact ⟨fun hx => le_antisymm hx.2 hx.1, fun hx => ⟨hx.ge, hx.le⟩⟩

namespace KnotProblem

/-- All numbers of a problem are such as a solver can take, the bounds of the
    change after they are multiplied by the step. -/
structure InRange (p : KnotProblem R) : Prop where
  values : ∀ b ∈ p.pBounds, Endpoint.Proper b
  slopes : ∀ b ∈ p.vBounds, Endpoint.Proper b
  bends : ∀ b ∈ p.aBounds, Endpoint.Proper b
  changes : Endpoint.Proper (p.jerkBounds.1.scale p.step, p.jerkBounds.2.scale p.step)
  start : ∀ x ∈ p.start, |x| ≤ Endpoint.huge

/-- What a problem asks of a point besides its start: the boxes of every
    knot, and over every step a box for the change of the second derivative
    and the closed forms of constant jerk. -/
structure Asks (p : KnotProblem R) (z : Nat → R) : Prop where
  values : ∀ i < p.knots, ∃ b, p.pBounds[i]? = some b ∧
    Endpoint.Between b (stateAt p.knots z i).p
  slopes : ∀ i < p.knots, ∃ b, p.vBounds[i]? = some b ∧
    Endpoint.Between b (stateAt p.knots z i).v
  bends : ∀ i < p.knots, ∃ b, p.aBounds[i]? = some b ∧
    Endpoint.Between b (stateAt p.knots z i).a
  changes : ∀ i, i + 1 < p.knots →
    Endpoint.Between (p.jerkBounds.1.scale p.step, p.jerkBounds.2.scale p.step)
      ((stateAt p.knots z (i + 1)).a - (stateAt p.knots z i).a)
  linked : ∀ i, i + 1 < p.knots →
    Motion.Linked p.step (stateAt p.knots z i) (stateAt p.knots z (i + 1))

/-- A point starts where the problem does, the start being a box that begins
    where it ends. -/
def StartsFrom (p : KnotProblem R) (z : Nat → R) : Prop :=
  ∃ x v a, p.start = [x, v, a] ∧ Endpoint.Between (.finite x, .finite x) (stateAt p.knots z 0).p ∧
    Endpoint.Between (.finite v, .finite v) (stateAt p.knots z 0).v ∧
    Endpoint.Between (.finite a, .finite a) (stateAt p.knots z 0).a

/-- As long as the start is below the magnitude that stands for no bound, its
    box is an equation. -/
theorem startsFrom_iff {p : KnotProblem R} (hp : p.WellFormed)
    (hs : ∀ x ∈ p.start, |x| < Endpoint.huge) (z : Nat → R) :
    p.StartsFrom z ↔ [(stateAt p.knots z 0).p, (stateAt p.knots z 0).v,
      (stateAt p.knots z 0).a] = p.start := by
  rcases List.length_eq_three.mp hp.length_start with ⟨x, v, a, hstart⟩
  rw [hstart] at hs
  have hx := Endpoint.between_self_iff (hs x (by simp)) (stateAt p.knots z 0).p
  have hv := Endpoint.between_self_iff (hs v (by simp)) (stateAt p.knots z 0).v
  have ha := Endpoint.between_self_iff (hs a (by simp)) (stateAt p.knots z 0).a
  simp only [StartsFrom, hstart, List.cons.injEq, and_true]
  -- Below that magnitude neither end of a box is absent.
  constructor
  · rintro ⟨_, _, _, ⟨rfl, rfl, rfl⟩, hx', hv', ha'⟩
    exact ⟨hx.mp hx', hv.mp hv', ha.mp ha'⟩
  · rintro ⟨hx', hv', ha'⟩
    exact ⟨x, v, a, ⟨rfl, rfl, rfl⟩, hx.mpr hx', hv.mpr hv', ha.mpr ha'⟩

/-- A list of as many bounds as knots bounds every knot. -/
theorem forall_bounds_iff {bounds : List (Endpoint R × Endpoint R)} {n : Nat}
    (hn : bounds.length = n) (hb : ∀ b ∈ bounds, Endpoint.Proper b) (f : Nat → R) :
    (∀ i b, bounds[i]? = some b → withinRead b.1.clip b.2.clip (f i)) ↔
      ∀ i < n, ∃ b, bounds[i]? = some b ∧ Endpoint.Between b (f i) := by
  constructor
  · intro h i hi
    have hget : bounds[i]? = some bounds[i] := List.getElem?_eq_getElem (by omega)
    have hproper := hb bounds[i] (List.getElem_mem _)
    exact ⟨_, hget, (Endpoint.withinRead_clip_iff hproper _).mp (h i _ hget)⟩
  · intro h i b hget
    have hi : i < n := by
      rw [← hn]
      exact (List.getElem?_eq_some_iff.mp hget).1
    rcases h i hi with ⟨c, hc, hbetween⟩
    rw [hget, Option.some.injEq] at hc
    rw [← hc] at hbetween
    exact (Endpoint.withinRead_clip_iff (hb b (List.mem_of_getElem? hget)) _).mpr hbetween

/-- The rows of the start, as a solver reads them. -/
theorem start_kept_iff {p : KnotProblem R} (hp : p.WellFormed)
    (hs : ∀ x ∈ p.start, |x| ≤ Endpoint.huge) (z : Nat → R) :
    (∀ x v a, p.start = [x, v, a] →
      withinRead (Endpoint.finite x).clip (Endpoint.finite x).clip (stateAt p.knots z 0).p ∧
      withinRead (Endpoint.finite v).clip (Endpoint.finite v).clip (stateAt p.knots z 0).v ∧
      withinRead (Endpoint.finite a).clip (Endpoint.finite a).clip (stateAt p.knots z 0).a) ↔
      p.StartsFrom z := by
  rcases List.length_eq_three.mp hp.length_start with ⟨x, v, a, hstart⟩
  rw [hstart] at hs
  have hx := Endpoint.withinRead_clip_iff (Endpoint.proper_self (hs x (by simp)))
    (stateAt p.knots z 0).p
  have hv := Endpoint.withinRead_clip_iff (Endpoint.proper_self (hs v (by simp)))
    (stateAt p.knots z 0).v
  have ha := Endpoint.withinRead_clip_iff (Endpoint.proper_self (hs a (by simp)))
    (stateAt p.knots z 0).a
  simp only [StartsFrom, hstart, List.cons.injEq, and_true, and_imp]
  constructor
  · intro h
    have hread := h x v a rfl rfl rfl
    exact ⟨x, v, a, ⟨rfl, rfl, rfl⟩, hx.mp hread.1, hv.mp hread.2.1, ha.mp hread.2.2⟩
  · rintro ⟨_, _, _, ⟨rfl, rfl, rfl⟩, hx', hv', ha'⟩ _ _ _ rfl rfl rfl
    exact ⟨hx.mpr hx', hv.mpr hv', ha.mpr ha'⟩

/-- The rows of a problem say what the problem asks: there are as many bounds
    of either kind as rows, a point keeps the rows as a solver reads them
    exactly when it meets every box and every link and starts where it must,
    and below the magnitude that stands for no bound this start is the given
    one. -/
theorem kept_constraints_iff {p : KnotProblem R} (hb : p.Built) (hr : p.InRange) (z : Nat → R) :
    p.constraints.Rectangular ∧ (p.constraints.Kept z ↔ p.Asks z ∧ p.StartsFrom z) ∧
      ((∀ x ∈ p.start, |x| < Endpoint.huge) →
        (p.StartsFrom z ↔ [(stateAt p.knots z 0).p, (stateAt p.knots z 0).v,
          (stateAt p.knots z 0).a] = p.start)) := by
  have hp := hb.wellFormed
  have hvalues := forall_bounds_iff hp.length_pBounds hr.values fun i => (stateAt p.knots z i).p
  have hslopes := forall_bounds_iff hp.length_vBounds hr.slopes fun i => (stateAt p.knots z i).v
  have hbends := forall_bounds_iff hp.length_aBounds hr.bends fun i => (stateAt p.knots z i).a
  have hstart := start_kept_iff hp hr.start z
  have hlinked (i : Nat) : withinRead 0 0 (rowValue z (p.slopeRow i)) ∧
      withinRead 0 0 (rowValue z (p.valueRow i)) ↔
        Motion.Linked p.step (stateAt p.knots z i) (stateAt p.knots z (i + 1)) := by
    rw [withinRead_zero_iff, withinRead_zero_iff, linked_iff]
  refine ⟨rectangular_constraints hp, ?_, fun hs => startsFrom_iff hp hs z⟩
  -- Both sides now have the same six parts.
  rw [Constraints.Kept, each_constraints_iff hp]
  constructor
  · intro h
    refine ⟨?_, hstart.mp h.start⟩
    exact
      { values := hvalues.mp h.values
        slopes := hslopes.mp h.slopes
        bends := hbends.mp h.bends
        changes := fun i hi => (Endpoint.withinRead_clip_iff hr.changes _).mp (h.changes i hi)
        linked := fun i hi => (hlinked i).mp (h.links i hi) }
  · intro ⟨h, hs⟩
    exact
      { values := hvalues.mpr h.values
        slopes := hslopes.mpr h.slopes
        bends := hbends.mpr h.bends
        changes := fun i hi => (Endpoint.withinRead_clip_iff hr.changes _).mpr (h.changes i hi)
        links := fun i hi => (hlinked i).mpr (h.linked i hi)
        start := hstart.mpr hs }

theorem cruise_inRange : cruise.InRange := by
  have hsmall (x : Rat) (hx : |x| ≤ 10) : |x| ≤ Endpoint.huge :=
    le_trans hx (by norm_num [Endpoint.huge])
  have hfinite (x y : Rat) (hx : |x| ≤ 10) (hy : |y| ≤ 10) :
      Endpoint.Proper (.finite x, .finite y) :=
    ⟨.inr ⟨x, rfl, hsmall x hx⟩, .inr ⟨y, rfl, hsmall y hy⟩⟩
  constructor
  · simp only [cruise, List.forall_mem_cons, List.not_mem_nil, false_implies, implies_true,
      and_true]
    exact ⟨hfinite 0 10 (by norm_num) (by norm_num), hfinite 0 10 (by norm_num) (by norm_num),
      .inl rfl, .inr ⟨10, rfl, hsmall 10 (by norm_num)⟩⟩
  · intro b hb
    rw [List.eq_of_mem_replicate hb]
    exact ⟨.inr ⟨0, rfl, hsmall 0 (by norm_num)⟩, .inl rfl⟩
  · intro b hb
    rw [List.eq_of_mem_replicate hb]
    exact hfinite (-6) 2 (by norm_num) (by norm_num)
  · exact hfinite _ _ (by norm_num [cruise]) (by norm_num [cruise])
  · intro x hx
    simp only [cruise, List.mem_cons, List.not_mem_nil, or_false] at hx
    rcases hx with rfl | rfl | rfl <;> exact hsmall _ (by norm_num)

/-- Going on at speed one keeps the rows of `cruise`, and so meets what it
    asks. -/
theorem kept_constraints_cruise : cruise.Built ∧ cruise.InRange ∧
    cruise.constraints.Kept cruising.point ∧ cruise.Asks cruising.point ∧
      cruise.StartsFrom cruising.point := by
  have hkept : cruise.constraints.Kept cruising.point := by decide +kernel
  have hiff := (kept_constraints_iff cruise_built cruise_inRange cruising.point).2.1
  exact ⟨cruise_built, cruise_inRange, hkept, hiff.mp hkept⟩

end KnotProblem

end JerkPlan
