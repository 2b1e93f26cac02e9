import JerkPlan.Proofs.KnotShape

/-!
# Rows over knots

What each row of a problem over knots says.

The constraints of a problem are four blocks of rows beside two lists of
bounds, all built apart from each other. A row is paired with its bounds by
position alone, so the first thing to know of a block is that its three lists
are equally long. For such blocks `each_append` splits the rows of a
concatenation, and every block then says one thing for each knot or step.

A solver may read a row in more than one way. `Constraints.Each` therefore
takes the reading as a parameter, a relation between two bounds and the value
of the row, and `each_constraints_iff` translates the rows of a whole problem
for any reading at once.

The two rows of a step are the closed forms of constant jerk. `Motion.Linked`
is what they ask of the states at its ends.

## Main definitions

* `Constraints.Each`: Every row is kept in a given reading.
* `Constraints.Rectangular`: As many bounds as rows.
* `stateAt`: The state at a knot, read off a point.
* `KnotProfile.Shaped`: A profile of as many entries as knots.
* `Motion.Linked`: Constant jerk leads from one state to the next.
* `KnotProblem.EachRow`: What the rows of a problem say, in a given reading.

## Theorems

* `stateAt_point`: The entries of a profile are its coordinates.
* `rowValue_cons`: The value of a row, entry by entry.
* `rowValue_filter`, `rowValue_nonzero`: Entries that may be left out.
* `each_append`: The rows of a concatenation are those of its parts.
* `each_uniform`: Rows that share their bounds.
* `each_boundRows`: The rows of single variables.
* `linked_iff`: The two rows of a step are the closed forms of constant jerk.
* `rectangular_constraints`: A problem has as many bounds as rows.
* `each_constraints_iff`, `hold_constraints_iff`: The rows of a problem, block by
  block.
* `linked_of_hold`: Points that keep the rows move by constant jerk.
-/

namespace JerkPlan

/-- Each row, with its bounds, is kept in the sense of `keeps`. -/
def Constraints.Each {R : Type} [Scalar R] (keeps : R → R → R → Prop) (z : Nat → R)
    (c : Constraints R) : Prop :=
  ∀ x ∈ (c.rows.map (rowValue z)).zip (c.lower.zip c.upper), keeps x.2.1 x.2.2 x.1

instance {R : Type} [Scalar R] (z : Nat → R) (c : Constraints R) : Decidable (c.Hold z) :=
  inferInstanceAs (Decidable (∀ x ∈ (c.rows.map (rowValue z)).zip (c.lower.zip c.upper),
    x.2.1 ≤ x.1 ∧ x.1 ≤ x.2.2))

/-- There are as many bounds of either kind as rows. -/
structure Constraints.Rectangular {R : Type} (c : Constraints R) : Prop where
  lower : c.lower.length = c.rows.length
  upper : c.upper.length = c.rows.length

theorem Constraints.Rectangular.append {R : Type} {c d : Constraints R} (hc : c.Rectangular)
    (hd : d.Rectangular) : (c.append d).Rectangular := by
  constructor
  · simp only [Constraints.append, List.length_append, hc.lower, hd.lower]
  · simp only [Constraints.append, List.length_append, hc.upper, hd.upper]

/-- The state at a knot, of a point whose variables are the values at all `n`
    knots, then the first derivatives, then the second ones. -/
def stateAt {R : Type} (n : Nat) (z : Nat → R) (i : Nat) : Motion R :=
  ⟨z i, z (n + i), z (2 * n + i)⟩

/-- A profile has a value and both derivatives at each of `n` knots. -/
structure KnotProfile.Shaped {R : Type} (n : Nat) (k : KnotProfile R) : Prop where
  values : k.p.length = n
  slopes : k.v.length = n
  bends : k.a.length = n

/-- The coordinates of a profile's point are its entries. -/
theorem stateAt_point {R : Type} [Scalar R] {k : KnotProfile R} {n i : Nat} (hk : k.Shaped n)
    (hi : i < n) : k.p[i]? = some (stateAt n k.point i).p ∧
      k.v[i]? = some (stateAt n k.point i).v ∧ k.a[i]? = some (stateAt n k.point i).a := by
  rcases hk with ⟨hp, hv, ha⟩
  have hpv : (k.p ++ k.v).length = 2 * n := by rw [List.length_append, hp, hv, Nat.two_mul]
  have hgetp : k.p[i]? = some k.p[i] := List.getElem?_eq_getElem (by omega)
  have hgetv : k.v[i]? = some k.v[i] := List.getElem?_eq_getElem (by omega)
  have hgeta : k.a[i]? = some k.a[i] := List.getElem?_eq_getElem (by omega)
  refine ⟨?_, ?_, ?_⟩
  · change k.p[i]? = some (k.point i)
    rw [KnotProfile.point, List.append_assoc, List.getElem?_append_left (by omega), hgetp,
      Option.getD_some]
  · change k.v[i]? = some (k.point (n + i))
    rw [KnotProfile.point, List.getElem?_append_left (by omega),
      List.getElem?_append_right (by omega), hp, Nat.add_sub_cancel_left, hgetv, Option.getD_some]
  · change k.a[i]? = some (k.point (2 * n + i))
    rw [KnotProfile.point, List.getElem?_append_right (by omega), hpv, Nat.add_sub_cancel_left,
      hgeta, Option.getD_some]

variable {R : Type} [ExactScalar R]

/-- Constant jerk leads from one state to the next over a step. -/
structure Motion.Linked (step : R) (m m' : Motion R) : Prop where
  slope : m'.v - m.v = step / 2 * (m.a + m'.a)
  value : m'.p - m.p = step * m.v + step ^ 2 / 3 * m.a + step ^ 2 / 6 * m'.a

/-! Values of rows -/

theorem foldl_row (z : Nat → R) (row : List (Nat × R)) (x : R) :
    row.foldl (fun sum (j, y) => sum + y * z j) x = x + rowValue z row := by
  unfold rowValue
  induction row generalizing x with
  | nil => simp only [List.foldl_nil, add_zero]
  | cons e row ih =>
      simp only [List.foldl_cons]
      rw [ih, ih (0 + e.2 * z e.1)]
      ring

@[simp]
theorem rowValue_nil (z : Nat → R) : rowValue z ([] : List (Nat × R)) = 0 := rfl

@[simp]
theorem rowValue_cons (z : Nat → R) (j : Nat) (x : R) (row : List (Nat × R)) :
    rowValue z ((j, x) :: row) = x * z j + rowValue z row := by
  rw [rowValue, List.foldl_cons, foldl_row]
  change 0 + x * z j + rowValue z row = x * z j + rowValue z row
  rw [zero_add]

theorem rowValue_append (z : Nat → R) (row row' : List (Nat × R)) :
    rowValue z (row ++ row') = rowValue z row + rowValue z row' := by
  rw [rowValue, List.foldl_append, foldl_row, ← rowValue]

/-- Entries that add nothing to the value of a row may be left out. -/
theorem rowValue_filter {z : Nat → R} {keep : Nat × R → Bool} {row : List (Nat × R)}
    (h : ∀ e ∈ row, keep e = false → e.2 * z e.1 = 0) :
    rowValue z (row.filter keep) = rowValue z row := by
  induction row with
  | nil => rfl
  | cons e row ih =>
      rw [List.forall_mem_cons] at h
      rcases e with ⟨j, x⟩
      rcases hkeep : keep (j, x) with _ | _
      · rw [List.filter_cons_of_neg (by simp [hkeep]), ih h.2, rowValue_cons, h.1 hkeep, zero_add]
      · rw [List.filter_cons_of_pos hkeep, rowValue_cons, rowValue_cons, ih h.2]

/-- Entries that are zero add nothing. -/
theorem rowValue_nonzero (z : Nat → R) (row : List (Nat × R)) :
    rowValue z (nonzero row) = rowValue z row := by
  refine rowValue_filter fun e _ he => ?_
  have hzero : e.2 = 0 := (same_iff e.2 0).mp (by simpa using he)
  rw [hzero, zero_mul]

/-! Blocks of rows -/

namespace Constraints

variable {keeps : R → R → R → Prop} {z : Nat → R}

/-- Rows keep their own bounds when constraints are put one after another. -/
theorem each_append {c d : Constraints R} (hc : c.Rectangular) :
    (c.append d).Each keeps z ↔ c.Each keeps z ∧ d.Each keeps z := by
  have hbounds : c.lower.length = c.upper.length := by rw [hc.lower, hc.upper]
  have hrows : (c.rows.map (rowValue z)).length = (c.lower.zip c.upper).length := by
    rw [List.length_map, List.length_zip, hc.lower, hc.upper, Nat.min_self]
  simp only [Each, Constraints.append, List.map_append]
  -- All three lists split at the same place, so the pairs do.
  rw [List.zip_append hbounds, List.zip_append hrows]
  simp only [List.mem_append, or_imp, forall_and]

/-- Rows that share their bounds. -/
theorem each_uniform {c : Constraints R} {l u : R}
    (hl : c.lower = List.replicate c.rows.length l)
    (hu : c.upper = List.replicate c.rows.length u) :
    c.Each keeps z ↔ ∀ row ∈ c.rows, keeps l u (rowValue z row) := by
  rcases c with ⟨rows, lower, upper⟩
  simp only at hl hu
  subst hl hu
  induction rows with
  | nil => simp [Each]
  | cons row rows ih =>
      simp only [Each] at ih ⊢
      simp only [List.length_cons, List.replicate_succ, List.map_cons, List.zip_cons_cons,
        List.forall_mem_cons, ih]

end Constraints

namespace KnotProblem

open Constraints

variable {keeps : R → R → R → Prop} {z : Nat → R}

theorem rectangular_boundRows (j : Nat) (bounds : List (Endpoint R × Endpoint R)) :
    (boundRows j bounds).Rectangular := by
  constructor
  · simp only [boundRows, List.length_map, List.length_zipIdx]
  · simp only [boundRows, List.length_map, List.length_zipIdx]

/-- The bounds of single variables, the first of which has index `j`. -/
theorem each_boundRows (j : Nat) (bounds : List (Endpoint R × Endpoint R)) :
    (boundRows j bounds).Each keeps z ↔
      ∀ i b, bounds[i]? = some b → keeps b.1.clip b.2.clip (z (j + i)) := by
  induction bounds generalizing j with
  | nil => simp [boundRows, Each]
  | cons b bounds ih =>
      -- The first row belongs to variable `j`, the others start from `j + 1`.
      have hsplit : (boundRows j (b :: bounds)).Each keeps z ↔
          keeps b.1.clip b.2.clip (z j) ∧ (boundRows (j + 1) bounds).Each keeps z := by
        simp only [Each, boundRows, List.zipIdx_cons, List.map_cons, List.zip_cons_cons,
          List.forall_mem_cons, rowValue_cons, rowValue_nil, one_mul, add_zero]
      rw [hsplit, ih]
      constructor
      · intro ⟨hhead, htail⟩ i c hc
        cases i with
        | zero =>
            rw [List.getElem?_cons_zero, Option.some.injEq] at hc
            rw [← hc, Nat.add_zero]
            exact hhead
        | succ i =>
            rw [List.getElem?_cons_succ] at hc
            rw [← Nat.add_assoc, Nat.add_right_comm]
            exact htail i c hc
      · intro h
        refine ⟨h 0 b rfl, fun i c hc => ?_⟩
        rw [Nat.add_right_comm, Nat.add_assoc]
        exact h (i + 1) c hc

theorem length_changeRows (p : KnotProblem R) : p.changeRows.rows.length = p.knots - 1 := by
  simp only [changeRows, List.length_map, List.length_range]

theorem rectangular_changeRows (p : KnotProblem R) : p.changeRows.Rectangular := by
  constructor
  · rw [length_changeRows]
    simp only [changeRows, List.length_replicate]
  · rw [length_changeRows]
    simp only [changeRows, List.length_replicate]

/-- The change of the second derivative over each step. -/
theorem each_changeRows (p : KnotProblem R) :
    p.changeRows.Each keeps z ↔ ∀ i, i + 1 < p.knots →
      keeps (p.jerkBounds.1.scale p.step).clip (p.jerkBounds.2.scale p.step).clip
        ((stateAt p.knots z (i + 1)).a - (stateAt p.knots z i).a) := by
  have hvalue (i : Nat) : rowValue z [(2 * p.knots + i, -1), (2 * p.knots + i + 1, 1)] =
      (stateAt p.knots z (i + 1)).a - (stateAt p.knots z i).a := by
    simp only [rowValue_cons, rowValue_nil, stateAt, Nat.add_assoc]
    ring
  rw [each_uniform (by rw [length_changeRows, changeRows])
    (by rw [length_changeRows, changeRows])]
  simp only [changeRows, List.forall_mem_map, List.mem_range, hvalue, Nat.lt_sub_iff_add_lt]

/-- How far the first derivative is from what constant jerk leads to. -/
theorem rowValue_slopeRow (p : KnotProblem R) (i : Nat) :
    rowValue z (p.slopeRow i) =
      (stateAt p.knots z (i + 1)).v - (stateAt p.knots z i).v -
        p.step / 2 * ((stateAt p.knots z i).a + (stateAt p.knots z (i + 1)).a) := by
  simp only [slopeRow, rowValue_nonzero, rowValue_cons, rowValue_nil, stateAt, half_eq,
    Nat.add_assoc]
  ring

/-- How far the value is from what constant jerk leads to. -/
theorem rowValue_valueRow (p : KnotProblem R) (i : Nat) :
    rowValue z (p.valueRow i) =
      (stateAt p.knots z (i + 1)).p - (stateAt p.knots z i).p - p.step * (stateAt p.knots z i).v -
        p.step ^ 2 / 3 * (stateAt p.knots z i).a -
        p.step ^ 2 / 6 * (stateAt p.knots z (i + 1)).a := by
  simp only [valueRow, rowValue_nonzero, rowValue_cons, rowValue_nil, stateAt, Nat.add_assoc,
    Nat.cast_ofNat]
  ring

/-- The two rows of a step are the closed forms of constant jerk. -/
theorem linked_iff (p : KnotProblem R) (i : Nat) :
    rowValue z (p.slopeRow i) = 0 ∧ rowValue z (p.valueRow i) = 0 ↔
      Motion.Linked p.step (stateAt p.knots z i) (stateAt p.knots z (i + 1)) := by
  rw [rowValue_slopeRow, rowValue_valueRow]
  constructor
  · intro ⟨hv, hp⟩
    exact ⟨by linarith, by linarith⟩
  · intro ⟨hv, hp⟩
    exact ⟨by linarith, by linarith⟩

theorem length_continuityRows (p : KnotProblem R) :
    p.continuityRows.rows.length = 2 * (p.knots - 1) := by
  simp only [continuityRows, List.length_flatMap, List.length_cons, List.length_nil,
    List.map_const', List.length_range, List.sum_replicate_nat]
  omega

theorem rectangular_continuityRows (p : KnotProblem R) : p.continuityRows.Rectangular := by
  constructor
  · rw [length_continuityRows]
    simp only [continuityRows, List.length_replicate]
  · rw [length_continuityRows]
    simp only [continuityRows, List.length_replicate]

/-- The two rows of each step. -/
theorem each_continuityRows (p : KnotProblem R) :
    p.continuityRows.Each keeps z ↔ ∀ i, i + 1 < p.knots →
      keeps 0 0 (rowValue z (p.slopeRow i)) ∧ keeps 0 0 (rowValue z (p.valueRow i)) := by
  rw [each_uniform (by rw [length_continuityRows, continuityRows])
    (by rw [length_continuityRows, continuityRows])]
  simp only [continuityRows, List.mem_flatMap, List.mem_range, Nat.lt_sub_iff_add_lt]
  constructor
  · intro h i hi
    exact ⟨h _ ⟨i, hi, List.mem_cons_self⟩,
      h _ ⟨i, hi, List.mem_cons_of_mem _ List.mem_cons_self⟩⟩
  · rintro h row ⟨i, hi, hrow⟩
    rcases List.mem_cons.mp hrow with rfl | hrow
    · exact (h i hi).1
    · rw [List.mem_singleton.mp hrow]
      exact (h i hi).2

/-- The rows of the start fix the state at the first knot. -/
theorem each_startRows {p : KnotProblem R} {x v a : R} (h : p.start = [x, v, a]) :
    p.startRows.Each keeps z ↔
      keeps (Endpoint.finite x).clip (Endpoint.finite x).clip (stateAt p.knots z 0).p ∧
      keeps (Endpoint.finite v).clip (Endpoint.finite v).clip (stateAt p.knots z 0).v ∧
      keeps (Endpoint.finite a).clip (Endpoint.finite a).clip (stateAt p.knots z 0).a := by
  simp only [startRows, h, Each, List.map_cons, List.map_nil, List.zip_cons_cons, List.zip_nil_left,
    List.forall_mem_cons, List.not_mem_nil, false_implies, implies_true, and_true, rowValue_cons,
    rowValue_nil, one_mul, add_zero, stateAt]

theorem rectangular_startRows {p : KnotProblem R} (h : p.start.length = 3) :
    p.startRows.Rectangular := by
  constructor
  · simp only [startRows, List.length_map, h, List.length_cons, List.length_nil]
  · simp only [startRows, List.length_map, h, List.length_cons, List.length_nil]

/-- What the rows of a problem say of a point when each is read by `keeps`. -/
structure EachRow (keeps : R → R → R → Prop) (z : Nat → R) (p : KnotProblem R) : Prop where
  values : ∀ i b, p.pBounds[i]? = some b → keeps b.1.clip b.2.clip (stateAt p.knots z i).p
  slopes : ∀ i b, p.vBounds[i]? = some b → keeps b.1.clip b.2.clip (stateAt p.knots z i).v
  bends : ∀ i b, p.aBounds[i]? = some b → keeps b.1.clip b.2.clip (stateAt p.knots z i).a
  changes : ∀ i, i + 1 < p.knots →
    keeps (p.jerkBounds.1.scale p.step).clip (p.jerkBounds.2.scale p.step).clip
      ((stateAt p.knots z (i + 1)).a - (stateAt p.knots z i).a)
  links : ∀ i, i + 1 < p.knots →
    keeps 0 0 (rowValue z (p.slopeRow i)) ∧ keeps 0 0 (rowValue z (p.valueRow i))
  start : ∀ x v a, p.start = [x, v, a] →
    keeps (Endpoint.finite x).clip (Endpoint.finite x).clip (stateAt p.knots z 0).p ∧
    keeps (Endpoint.finite v).clip (Endpoint.finite v).clip (stateAt p.knots z 0).v ∧
    keeps (Endpoint.finite a).clip (Endpoint.finite a).clip (stateAt p.knots z 0).a

/-- A problem has as many bounds of either kind as rows. -/
theorem rectangular_constraints {p : KnotProblem R} (hp : p.WellFormed) :
    p.constraints.Rectangular :=
  (rectangular_boundRows _ _).append <| (rectangular_boundRows _ _).append <|
    (rectangular_boundRows _ _).append <| p.rectangular_changeRows.append <|
      p.rectangular_continuityRows.append (rectangular_startRows hp.length_start)

/-- The rows of a problem, block by block. -/
theorem each_constraints_iff {p : KnotProblem R} (hp : p.WellFormed) :
    p.constraints.Each keeps z ↔ p.EachRow keeps z := by
  rcases List.length_eq_three.mp hp.length_start with ⟨x, v, a, hstart⟩
  unfold constraints
  rw [each_append (rectangular_boundRows _ _), each_append (rectangular_boundRows _ _),
    each_append (rectangular_boundRows _ _), each_append p.rectangular_changeRows,
    each_append p.rectangular_continuityRows, each_boundRows, each_boundRows, each_boundRows,
    each_changeRows, each_continuityRows, each_startRows hstart]
  simp only [Nat.zero_add]
  constructor
  · -- Any three values the start is made of are the ones it is made of.
    intro ⟨hp, hv, ha, hj, hl, hs⟩
    refine ⟨hp, hv, ha, hj, hl, fun x' v' a' h => ?_⟩
    rw [hstart, List.cons.injEq, List.cons.injEq, List.cons.injEq] at h
    rcases h with ⟨rfl, rfl, rfl, _⟩
    exact hs
  · intro h
    exact ⟨h.values, h.slopes, h.bends, h.changes, h.links, h.start x v a hstart⟩

/-- The same with the rows read as they are. -/
theorem hold_constraints_iff {p : KnotProblem R} (hp : p.WellFormed) :
    p.constraints.Hold z ↔ p.EachRow (fun l u x => l ≤ x ∧ x ≤ u) z := by
  change p.constraints.Each (fun l u x => l ≤ x ∧ x ≤ u) z ↔ _
  exact each_constraints_iff hp

/-- Each state of a point that keeps the constraints follows from the one before
    it by constant jerk. -/
theorem linked_of_hold {p : KnotProblem R} (hp : p.WellFormed) (hz : p.constraints.Hold z) {i : Nat}
    (hi : i + 1 < p.knots) :
    (stateAt p.knots z i).Linked p.step (stateAt p.knots z (i + 1)) := by
  rcases ((hold_constraints_iff hp).mp hz).links i hi with ⟨hslope, hvalue⟩
  -- A row between zero and zero is an equation.
  exact (p.linked_iff i).mp ⟨le_antisymm hslope.2 hslope.1, le_antisymm hvalue.2 hvalue.1⟩

end KnotProblem

end JerkPlan
