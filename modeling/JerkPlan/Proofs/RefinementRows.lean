import JerkPlan.Proofs.CycleLimits
import JerkPlan.Proofs.RefinementOutcomes
import JerkPlan.ProgramLists

/-!
# Rows of a refinement

What the lists that a solver is handed ask of a point.

The lists of a refinement belong together by position. Each of them is found
to be one column of the list of variables with both ends, or of the list of
rows with both ends, so there are as many entries of each kind, and a point
keeps the lists when it is feasible for the program. What the entries say is
read off block by block: `forall_getElem?_append` splits what is asked at all
positions of two lists put one after another.

A row says that a difference lies between two ends. `RefinementProblem.Asks`
says the same of the states at the knots, without rows. `RefinementProblem.Ranges`
is where they begin and which limits they are within, `RefinementProblem.Moves`
how one leads to the next, and both know of slacks. That one neither goes
backwards nor faster than the limit along the path comes apart from these, since
a convex plan has nothing to say about it.

## Main definitions

* `BoundedRow.Kept`: A point keeps a row.
* `ProgramLists.BoundedAt`, `RowLists.KeptAt`: A point keeps the ends at a
  position.
* `ProgramLists.Kept`: A point keeps all ends.
* `ProgramLists.Sized`: How many variables and rows there are.
* `RefinementProblem.Ranges`, `RefinementProblem.Moves`,
  `RefinementProblem.Asks`: What a refinement asks of the states at its knots.

## Theorems

* `RowLists.ofRows_eq`: Rows put down one after another are three columns.
* `RefinementProblem.lists_lower`, `RefinementProblem.lists_upper`: So are the
  ends of the variables.
* `RefinementProblem.kept_lists_iff`: The lists are the program.
* `RefinementProblem.forall_variableBounds`, `RefinementProblem.forall_rows`: The
  entries of the lists, block by block.
* `RefinementProblem.boundedAt_lists_iff`, `RefinementProblem.keptAt_lists_iff`:
  What the ends of the variables ask, and what the rows ask.
* `RefinementProblem.keptAt_lists_of_moves`: The rows that the motion keeps.
* `RefinementProblem.lists_ask`: What the lists ask.
-/

namespace JerkPlan

/-- What is asked at all positions of two lists put one after another. -/
theorem forall_getElem?_append {α : Type} {asked : Nat → α → Prop} (xs ys : List α) :
    (∀ i a, (xs ++ ys)[i]? = some a → asked i a) ↔
      (∀ i a, xs[i]? = some a → asked i a) ∧
        ∀ i a, ys[i]? = some a → asked (xs.length + i) a := by
  constructor
  · intro h
    refine ⟨fun i a ha => ?_, fun i a ha => ?_⟩
    · have hi := (List.getElem?_eq_some_iff.mp ha).1
      exact h i a (by rw [List.getElem?_append_left hi, ha])
    · exact h _ a (by rw [List.getElem?_append_right (by omega), Nat.add_sub_cancel_left, ha])
  · intro ⟨hxs, hys⟩ i a ha
    -- Beyond the first list, positions are those of the second one, shifted.
    by_cases hi : i < xs.length
    · rw [List.getElem?_append_left hi] at ha
      exact hxs i a ha
    · rw [List.getElem?_append_right (by omega)] at ha
      have hasked := hys _ a ha
      rw [Nat.add_sub_cancel' (by omega)] at hasked
      exact hasked

/-- What is asked at all positions of a list of given entries. -/
theorem forall_getElem?_map_range {α : Type} {asked : Nat → α → Prop} (n : Nat) (f : Nat → α) :
    (∀ i a, ((List.range n).map f)[i]? = some a → asked i a) ↔ ∀ i, i < n → asked i (f i) := by
  constructor
  · intro h i hi
    exact h i _ (by rw [List.getElem?_map, List.getElem?_range hi, Option.map_some])
  · intro h i a ha
    have hi := (List.getElem?_eq_some_iff.mp ha).1
    rw [List.length_map, List.length_range] at hi
    rw [List.getElem?_map, List.getElem?_range hi, Option.map_some, Option.some.injEq] at ha
    rw [← ha]
    exact h i hi

/-- What is asked at all positions of a list of one repeated entry. -/
theorem forall_getElem?_replicate {α : Type} {asked : Nat → α → Prop} (n : Nat) (a : α) :
    (∀ i b, (List.replicate n a)[i]? = some b → asked i b) ↔ ∀ i, i < n → asked i a := by
  have hrange : List.replicate n a = (List.range n).map fun _ => a := by
    rw [List.map_const', List.length_range]
  rw [hrange]
  exact forall_getElem?_map_range n fun _ => a

/-- Setting the first entry of each of three equally long blocks. -/
theorem set_firsts {α : Type} {as bs cs : List α} (ds : List α) (x y z : α) {n : Nat} (hn : 0 < n)
    (has : as.length = n) (hbs : bs.length = n) (hcs : cs.length = n) :
    (((as ++ bs ++ cs ++ ds).set 0 x).set n y).set (2 * n) z =
      as.set 0 x ++ bs.set 0 y ++ cs.set 0 z ++ ds := by
  have htwice : 2 * n - n = n := by omega
  simp only [List.append_assoc]
  rw [List.set_append_left 0 _ (by omega)]
  -- The second block starts after the first one, the third after both.
  rw [List.set_append_right n _ (by rw [List.length_set]; omega), List.length_set, has,
    Nat.sub_self, List.set_append_left 0 _ (by omega)]
  rw [List.set_append_right (2 * n) _ (by rw [List.length_set]; omega), List.length_set, has,
    htwice, List.set_append_right n _ (by rw [List.length_set]; omega), List.length_set, hbs,
    Nat.sub_self, List.set_append_left 0 _ (by omega)]

variable {R : Type}

/-! Lists as columns -/

/-- Rows put down one after another are three columns. -/
theorem RowLists.ofRows_eq (rows : List (BoundedRow R)) :
    ofRows rows = ⟨rows.map (·.value), rows.map (·.lower), rows.map (·.upper)⟩ := by
  -- The induction is on the rows still to come, whatever has been put down before.
  have hafter (b : RowLists R) : rows.foldl put b = ⟨b.values ++ rows.map (·.value),
      b.lower ++ rows.map (·.lower), b.upper ++ rows.map (·.upper)⟩ := by
    induction rows generalizing b with
    | nil => simp only [List.foldl_nil, List.map_nil, List.append_nil]
    | cons r rows ih =>
        rw [List.foldl_cons, ih]
        simp only [put, List.map_cons, List.append_assoc, List.singleton_append]
  rw [ofRows, hafter]
  simp only [List.nil_append]

theorem RefinementProblem.fixFirst_eq_set (x : R) (bounds : List (Endpoint R × Endpoint R)) :
    fixFirst x bounds = bounds.set 0 (.finite x, .finite x) := by
  cases bounds with
  | nil => rfl
  | cons b bounds => rfl

/-- There are `m` variables and `n` rows, with ends on both sides for each of
    them. -/
structure ProgramLists.Sized (b : ProgramLists R) (m n : Nat) : Prop where
  lower : b.lower.length = m
  upper : b.upper.length = m
  values : b.rows.values.length = n
  lowerEnds : b.rows.lower.length = n
  upperEnds : b.rows.upper.length = n

variable [Scalar R]

/-- A point keeps a row. -/
def BoundedRow.Kept (r : BoundedRow R) (x : Nat → R) : Prop :=
  r.lower.atLeast (r.value x) ∧ r.upper.atMost (r.value x)

/-- A point keeps the ends of the variable at a position. -/
def ProgramLists.BoundedAt (b : ProgramLists R) (x : Nat → R) (j : Nat) : Prop :=
  ∀ l u, b.lower[j]? = some l → b.upper[j]? = some u → l.atLeast (x j) ∧ u.atMost (x j)

/-- A point keeps the ends of the row at a position. -/
def RowLists.KeptAt (b : RowLists R) (x : Nat → R) (j : Nat) : Prop :=
  ∀ f l u, b.values[j]? = some f → b.lower[j]? = some l → b.upper[j]? = some u →
    l.atLeast (f x) ∧ u.atMost (f x)

/-- A point keeps the ends of all variables and rows. -/
structure ProgramLists.Kept (b : ProgramLists R) (x : Nat → R) : Prop where
  bounds : ∀ j, b.BoundedAt x j
  rows : ∀ j, b.rows.KeptAt x j

/-- A position of three columns is kept when the row there is. -/
theorem RowLists.keptAt_ofRows {rows : List (BoundedRow R)} {x : Nat → R} {j : Nat} :
    (ofRows rows).KeptAt x j ↔ ∀ r, rows[j]? = some r → r.Kept x := by
  rw [ofRows_eq]
  simp only [KeptAt, List.getElem?_map]
  rcases rows[j]? with _ | r
  · simp only [Option.map_none, reduceCtorEq, false_implies, implies_true]
  · simp only [Option.map_some, Option.some.injEq, forall_eq']
    constructor
    · intro h
      exact h _ _ _ rfl rfl rfl
    · rintro h _ _ _ rfl rfl rfl
      exact h

namespace RefinementProblem

variable {p : RefinementProblem R}

/-- The ends of the variables on one side are a column of their bounds. -/
theorem variableEnds_eq (hknots : 0 < p.knots) (hhard : p.hard.length = p.knots)
    (side : Endpoint R × Endpoint R → Endpoint R) (hside : ∀ e, side (e, e) = e)
    (place : R × R → R) (hplace : ∀ b, side (.finite b.1, .finite b.2) = .finite (place b))
    {speed acceleration : R} {slack : Endpoint R}
    (hspeed : side (.finite 0, .finite p.horizon.topSpeed) = .finite speed)
    (hacceleration : side (.finite p.horizon.minAcceleration, .finite p.horizon.maxAcceleration) =
      .finite acceleration) (hslack : side (.finite 0, .plusInfinity) = slack) :
    p.variableEnds (p.hard.map place) speed acceleration slack = p.variableBounds.map side := by
  have hplaces : (p.hard.map place).map Endpoint.finite =
      (p.hard.map fun b => ((.finite b.1 : Endpoint R), (.finite b.2 : Endpoint R))).map side := by
    simp only [List.map_map]
    exact List.map_congr_left fun b _ => (hplace b).symm
  -- Both are four blocks, and the same entry of each is set to the start.
  unfold variableEnds variableBounds
  simp only [fixFirst_eq_set]
  rw [set_firsts _ _ _ _ hknots (by rw [List.length_map, List.length_map, hhard])
    List.length_replicate List.length_replicate]
  simp only [List.map_append, List.map_set, hside, hplaces, List.map_replicate, hspeed,
    hacceleration, hslack, apply_ite (List.map side), List.map_nil]

/-- The lower ends of the variables are the first column of their bounds. -/
theorem lists_lower (hknots : 0 < p.knots) (hhard : p.hard.length = p.knots) (kappa limit : R → R) :
    (p.lists kappa limit).lower = p.variableBounds.map (·.1) :=
  variableEnds_eq hknots hhard (·.1) (fun _ => rfl) (·.1) (fun _ => rfl) rfl rfl rfl

/-- The upper ends of the variables are the second column of their bounds. -/
theorem lists_upper (hknots : 0 < p.knots) (hhard : p.hard.length = p.knots) (kappa limit : R → R) :
    (p.lists kappa limit).upper = p.variableBounds.map (·.2) :=
  variableEnds_eq hknots hhard (·.2) (fun _ => rfl) (·.2) (fun _ => rfl) rfl rfl rfl

/-- A position of the variables is kept when the bounds there are. -/
theorem boundedAt_lists (hknots : 0 < p.knots) (hhard : p.hard.length = p.knots)
    (kappa limit : R → R) {x : Nat → R} {j : Nat} :
    (p.lists kappa limit).BoundedAt x j ↔
      ∀ b, p.variableBounds[j]? = some b → b.1.atLeast (x j) ∧ b.2.atMost (x j) := by
  rw [ProgramLists.BoundedAt, lists_lower hknots hhard, lists_upper hknots hhard]
  simp only [List.getElem?_map]
  rcases p.variableBounds[j]? with _ | b
  · simp only [Option.map_none, reduceCtorEq, false_implies, implies_true]
  · simp only [Option.map_some, Option.some.injEq, forall_eq']
    constructor
    · intro h
      exact h _ _ rfl rfl
    · rintro h _ _ rfl rfl
      exact h

/-- A point keeps the lists when it is feasible for the program. -/
theorem kept_lists_iff (hknots : 0 < p.knots) (hhard : p.hard.length = p.knots)
    (kappa limit : R → R) (x : Nat → R) :
    (p.lists kappa limit).Kept x ↔ (p.programWith kappa limit).Feasible x := by
  constructor
  · intro ⟨hbounds, hrows⟩
    refine ⟨fun b hb => ?_, fun r hr => ?_⟩
    · exact (boundedAt_lists hknots hhard kappa limit).mp (hbounds b.2) b.1
        (List.mk_mem_zipIdx_iff_getElem?.mp hb)
    · rcases List.mem_iff_getElem?.mp hr with ⟨j, hj⟩
      exact RowLists.keptAt_ofRows.mp (hrows j) r hj
  · intro ⟨hbounds, hrows⟩
    refine ⟨fun j => ?_, fun j => ?_⟩
    · exact (boundedAt_lists hknots hhard kappa limit).mpr fun b hb =>
        hbounds (b, j) (List.mk_mem_zipIdx_iff_getElem?.mpr hb)
    · exact RowLists.keptAt_ofRows.mpr fun r hr => hrows r (List.mem_of_getElem? hr)

theorem length_variableBounds (hhard : p.hard.length = p.knots) :
    p.variableBounds.length = (if p.usesSoft then 5 else 3) * p.knots := by
  simp only [variableBounds, List.length_append, length_fixFirst, List.length_map,
    List.length_replicate, hhard]
  by_cases hsoft : p.usesSoft = true
  · rw [if_pos hsoft, if_pos hsoft, List.length_replicate]
    omega
  · rw [if_neg hsoft, if_neg hsoft, List.length_nil]
    omega

theorem length_rows (hsoft : p.soft = [] ∨ p.soft.length = p.knots) (limit : R → R) :
    (p.rows limit).length =
      4 * (p.knots - 1) + p.knots + if p.usesSoft then 2 * p.knots else 0 := by
  have hblock : p.soft.length * 2 = if p.usesSoft then 2 * p.knots else 0 := by
    by_cases hempty : p.soft = []
    · simp [usesSoft, hempty]
    · have huse : p.usesSoft = true := by simp [usesSoft, hempty]
      rw [if_pos huse, hsoft.resolve_left hempty]
      omega
  simp only [rows, List.length_append, List.length_map, List.length_range, List.length_flatMap,
    softRows, List.length_cons, List.length_nil, List.map_const', List.length_zipIdx,
    List.sum_replicate_nat, hblock]
  omega

/-- The lists have the sizes that the variables and rows have. -/
theorem lists_sized (hknots : 0 < p.knots) (hhard : p.hard.length = p.knots)
    (hsoft : p.soft = [] ∨ p.soft.length = p.knots) (kappa limit : R → R) :
    (p.lists kappa limit).Sized ((if p.usesSoft then 5 else 3) * p.knots)
      (4 * (p.knots - 1) + p.knots + if p.usesSoft then 2 * p.knots else 0) := by
  have hrows : (p.lists kappa limit).rows = _ := RowLists.ofRows_eq (p.rows limit)
  constructor
  · rw [lists_lower hknots hhard, List.length_map, length_variableBounds hhard]
  · rw [lists_upper hknots hhard, List.length_map, length_variableBounds hhard]
  · rw [hrows, List.length_map, length_rows hsoft]
  · rw [hrows, List.length_map, length_rows hsoft]
  · rw [hrows, List.length_map, length_rows hsoft]

/-! Block by block -/

/-- What is asked of a block of variables the first of which is fixed. -/
theorem forall_fixFirst {R : Type} {asked : Nat → Endpoint R × Endpoint R → Prop} (x : R)
    {bounds : List (Endpoint R × Endpoint R)} (hbounds : 0 < bounds.length) :
    (∀ i b, (fixFirst x bounds)[i]? = some b → asked i b) ↔
      asked 0 (.finite x, .finite x) ∧ ∀ i b, 0 < i → bounds[i]? = some b → asked i b := by
  constructor
  · intro h
    refine ⟨h 0 _ (getElem?_fixFirst_zero x hbounds), fun i b hi hb => ?_⟩
    rcases Nat.exists_eq_add_one.mpr hi with ⟨k, rfl⟩
    exact h _ b (by rw [getElem?_fixFirst_succ, hb])
  · intro ⟨hfirst, hrest⟩ i b hb
    cases i with
    | zero =>
        rw [getElem?_fixFirst_zero x hbounds, Option.some.injEq] at hb
        rw [← hb]
        exact hfirst
    | succ i =>
        rw [getElem?_fixFirst_succ] at hb
        exact hrest _ b (Nat.succ_pos i) hb

/-- What is asked of a block of variables that share their bounds, but for the
    first one. -/
theorem forall_fixFirst_replicate {R : Type} {asked : Nat → Endpoint R × Endpoint R → Prop} (x : R)
    (b : Endpoint R × Endpoint R) {n : Nat} (hn : 0 < n) :
    (∀ i c, (fixFirst x (List.replicate n b))[i]? = some c → asked i c) ↔
      asked 0 (.finite x, .finite x) ∧ ∀ i, 0 < i → i < n → asked i b := by
  rw [forall_fixFirst x (by rw [List.length_replicate]; exact hn), and_congr_right_iff]
  intro _
  have hrepeated := @forall_getElem?_replicate _ (fun i c => 0 < i → asked i c) n b
  constructor
  · intro h i hi hlt
    exact hrepeated.mp (fun j c hc hj => h j c hj hc) i hlt hi
  · intro h i c hi hc
    exact hrepeated.mpr (fun j hlt hj => h j hj hlt) i c hc hi

/-- What is asked of all variables. -/
theorem forall_variableBounds {asked : Nat → Endpoint R × Endpoint R → Prop}
    (hknots : 0 < p.knots) (hhard : p.hard.length = p.knots) :
    (∀ j b, p.variableBounds[j]? = some b → asked j b) ↔
      (asked 0 (.finite p.horizon.place, .finite p.horizon.place) ∧
        ∀ i b, 0 < i → p.hard[i]? = some b → asked i (.finite b.1, .finite b.2)) ∧
      (asked p.knots (.finite p.horizon.speed, .finite p.horizon.speed) ∧
        ∀ i, 0 < i → i < p.knots → asked (p.knots + i) (.finite 0, .finite p.horizon.topSpeed)) ∧
      (asked (2 * p.knots) (.finite p.horizon.acceleration, .finite p.horizon.acceleration) ∧
        ∀ i, 0 < i → i < p.knots → asked (2 * p.knots + i)
          (.finite p.horizon.minAcceleration, .finite p.horizon.maxAcceleration)) ∧
      (p.usesSoft = true → ∀ i, i < 2 * p.knots →
        asked (3 * p.knots + i) (.finite 0, .plusInfinity)) := by
  have hplaces : (∀ i b, (fixFirst p.horizon.place (p.hard.map fun b =>
      ((.finite b.1 : Endpoint R), (.finite b.2 : Endpoint R))))[i]? = some b → asked i b) ↔
      asked 0 (.finite p.horizon.place, .finite p.horizon.place) ∧
        ∀ i b, 0 < i → p.hard[i]? = some b → asked i (.finite b.1, .finite b.2) := by
    rw [forall_fixFirst _ (by rw [List.length_map, hhard]; exact hknots), and_congr_right_iff]
    intro _
    simp only [List.getElem?_map, Option.map_eq_some_iff]
    constructor
    · intro h i b hi hb
      exact h i _ hi ⟨b, hb, rfl⟩
    · rintro h i _ hi ⟨b, hb, rfl⟩
      exact h i b hi hb
  have hslacks (start : Nat) : (∀ i b, (if p.usesSoft then List.replicate (2 * p.knots)
      ((.finite 0 : Endpoint R), (.plusInfinity : Endpoint R)) else [])[i]? = some b →
        asked (start + i) b) ↔
      (p.usesSoft = true → ∀ i, i < 2 * p.knots →
        asked (start + i) (.finite 0, .plusInfinity)) := by
    by_cases hsoft : p.usesSoft = true
    · rw [if_pos hsoft, forall_getElem?_replicate]
      exact ⟨fun h _ => h, fun h => h hsoft⟩
    · rw [if_neg hsoft]
      simp only [List.getElem?_nil, reduceCtorEq, false_implies, implies_true, hsoft]
  unfold variableBounds
  rw [forall_getElem?_append, forall_getElem?_append, forall_getElem?_append, hplaces, hslacks,
    forall_fixFirst_replicate _ _ hknots, forall_fixFirst_replicate _ _ hknots]
  -- The blocks start at multiples of the number of knots.
  have htwice : p.knots + p.knots = 2 * p.knots := by omega
  have hthrice : 2 * p.knots + p.knots = 3 * p.knots := by omega
  simp only [List.length_append, length_fixFirst, List.length_map, List.length_replicate, hhard,
    htwice, hthrice, Nat.add_zero, and_assoc]

/-- What is asked of all rows. The soft ones are the last block. -/
theorem forall_rows {asked : Nat → BoundedRow R → Prop} (limit : R → R) :
    (∀ j r, (p.rows limit)[j]? = some r → asked j r) ↔
      (∀ i, i < p.knots - 1 → asked i (advanceRow i)) ∧
      (∀ i, i < p.knots - 1 → asked (p.knots - 1 + i) (p.jerkRow i)) ∧
      (∀ i, i < p.knots - 1 → asked (2 * (p.knots - 1) + i) (p.placeRow i)) ∧
      (∀ i, i < p.knots - 1 → asked (3 * (p.knots - 1) + i) (p.speedRow i)) ∧
      (∀ i, i < p.knots → asked (4 * (p.knots - 1) + i) (p.limitRow limit i)) ∧
      ∀ j r, (p.soft.zipIdx.flatMap fun (ends, i) => p.softRows i ends)[j]? = some r →
        asked (4 * (p.knots - 1) + p.knots + j) r := by
  have htwice : p.knots - 1 + (p.knots - 1) = 2 * (p.knots - 1) := by omega
  have hthrice : 2 * (p.knots - 1) + (p.knots - 1) = 3 * (p.knots - 1) := by omega
  have hfour : 3 * (p.knots - 1) + (p.knots - 1) = 4 * (p.knots - 1) := by omega
  unfold rows
  rw [forall_getElem?_append, forall_getElem?_append, forall_getElem?_append,
    forall_getElem?_append, forall_getElem?_append]
  simp only [forall_getElem?_map_range, List.length_append, List.length_map, List.length_range,
    htwice, hthrice, hfour, and_assoc]

end RefinementProblem

/-! In exact arithmetic -/

namespace RefinementProblem

variable {R : Type} [ExactScalar R] {p : RefinementProblem R} {x : Nat → R}

/-- The variables of a point are within their limits. The first knot is at the
    start, whatever the limits. -/
structure Ranges (p : RefinementProblem R) (x : Nat → R) : Prop where
  start : stateAt p.knots x 0 = ⟨p.horizon.place, p.horizon.speed, p.horizon.acceleration⟩
  place : ∀ i b, 0 < i → p.hard[i]? = some b →
    b.1 ≤ (stateAt p.knots x i).p ∧ (stateAt p.knots x i).p ≤ b.2
  speed : ∀ i, 0 < i → i < p.knots →
    0 ≤ (stateAt p.knots x i).v ∧ (stateAt p.knots x i).v ≤ p.horizon.topSpeed
  acceleration : ∀ i, 0 < i → i < p.knots →
    p.horizon.minAcceleration ≤ (stateAt p.knots x i).a ∧
      (stateAt p.knots x i).a ≤ p.horizon.maxAcceleration
  slack : ∀ i b, p.soft[i]? = some b → 0 ≤ x (3 * p.knots + i) ∧ 0 ≤ x (4 * p.knots + i)

/-- Constant jerk within its limits leads from each knot to the next, and each
    knot is in its soft interval but for the slacks. -/
structure Moves (p : RefinementProblem R) (x : Nat → R) : Prop where
  jerk : ∀ i, i + 1 < p.knots →
    p.horizon.minJerk ≤
        ((stateAt p.knots x (i + 1)).a - (stateAt p.knots x i).a) / p.horizon.step ∧
      ((stateAt p.knots x (i + 1)).a - (stateAt p.knots x i).a) / p.horizon.step ≤
        p.horizon.maxJerk
  linked : ∀ i, i + 1 < p.knots →
    (stateAt p.knots x i).Linked p.horizon.step (stateAt p.knots x (i + 1))
  soft : ∀ i b, p.soft[i]? = some b →
    b.1 - x (3 * p.knots + i) ≤ (stateAt p.knots x i).p ∧
      (stateAt p.knots x i).p ≤ b.2 + x (4 * p.knots + i)

/-- All that a refinement asks: besides limits and motion, that one never goes
    backwards, nor faster than the limit at the place where one is. -/
structure Asks (p : RefinementProblem R) (limit : R → R) (x : Nat → R) : Prop where
  ranges : p.Ranges x
  moves : p.Moves x
  advance : ∀ i, i + 1 < p.knots → (stateAt p.knots x i).p ≤ (stateAt p.knots x (i + 1)).p
  limited : ∀ i, i < p.knots → (stateAt p.knots x i).v ≤ limit (stateAt p.knots x i).p

/-- Two equal ends leave one value. -/
theorem between_same_iff {a y : R} :
    (Endpoint.finite a).atLeast y ∧ (Endpoint.finite a).atMost y ↔ y = a := by
  constructor
  · intro ⟨hl, hu⟩
    exact le_antisymm hu hl
  · intro h
    exact ⟨h.ge, h.le⟩

/-- A soft corridor has an interval for each knot. -/
theorem forall_slacks {R : Type} {p : RefinementProblem R}
    (hsoft : p.soft = [] ∨ p.soft.length = p.knots) {asked : Nat → Prop} :
    (p.usesSoft = true → ∀ i, i < p.knots → asked i) ↔ ∀ i b, p.soft[i]? = some b → asked i := by
  rcases hsoft with hnone | hlength
  · simp [usesSoft, hnone]
  · constructor
    · intro h i b hb
      have hi := (List.getElem?_eq_some_iff.mp hb).1
      exact h (by simp [usesSoft, List.ne_nil_of_length_pos (Nat.zero_lt_of_lt hi)]) i (by omega)
    · intro h _ i hi
      exact h i _ (List.getElem?_eq_getElem (by omega))

/-- The ends of the variables ask for their limits. -/
theorem boundedAt_lists_iff (hknots : 0 < p.knots) (hhard : p.hard.length = p.knots)
    (hsoft : p.soft = [] ∨ p.soft.length = p.knots) (kappa limit : R → R) :
    (∀ j, (p.lists kappa limit).BoundedAt x j) ↔ p.Ranges x := by
  simp only [boundedAt_lists hknots hhard]
  rw [forall_variableBounds hknots hhard]
  simp only [between_same_iff]
  constructor
  · intro ⟨⟨hplace, hplaces⟩, ⟨hspeed, hspeeds⟩, ⟨hacceleration, haccelerations⟩, hslacks⟩
    refine ⟨?_, hplaces, hspeeds, haccelerations, (forall_slacks hsoft).mp fun huse i hi => ?_⟩
    · rw [stateAt, Motion.mk.injEq]
      exact ⟨hplace, hspeed, hacceleration⟩
    · -- The slacks of the upper ends follow those of the lower ones.
      have hupper := (hslacks huse (p.knots + i) (by omega)).1
      rw [← Nat.add_assoc, show 3 * p.knots + p.knots = 4 * p.knots by omega] at hupper
      exact ⟨(hslacks huse i (by omega)).1, hupper⟩
  · intro h
    have hstart := h.start
    rw [stateAt, Motion.mk.injEq] at hstart
    refine ⟨⟨hstart.1, h.place⟩, ⟨hstart.2.1, h.speed⟩, ⟨hstart.2.2, h.acceleration⟩,
      fun huse i hi => ⟨?_, trivial⟩⟩
    have hslack := (forall_slacks hsoft).mpr h.slack huse
    by_cases hlower : i < p.knots
    · exact (hslack i hlower).1
    · have hupper := (hslack (i - p.knots) (by omega)).2
      rw [show 4 * p.knots + (i - p.knots) = 3 * p.knots + i by omega] at hupper
      exact hupper

/-! Rows -/

theorem advanceRow_kept {i : Nat} :
    (advanceRow i).Kept x ↔ (stateAt p.knots x i).p ≤ (stateAt p.knots x (i + 1)).p := by
  change 0 ≤ x (i + 1) - x i ∧ True ↔ x i ≤ x (i + 1)
  rw [and_true, sub_nonneg]

theorem jerkRow_kept {i : Nat} :
    (p.jerkRow i).Kept x ↔
      p.horizon.minJerk ≤
          ((stateAt p.knots x (i + 1)).a - (stateAt p.knots x i).a) / p.horizon.step ∧
        ((stateAt p.knots x (i + 1)).a - (stateAt p.knots x i).a) / p.horizon.step ≤
          p.horizon.maxJerk := Iff.rfl

/-- The two rows of a step are the closed forms of constant jerk. -/
theorem stepRows_kept {i : Nat} :
    (p.placeRow i).Kept x ∧ (p.speedRow i).Kept x ↔
      (stateAt p.knots x i).Linked p.horizon.step (stateAt p.knots x (i + 1)) := by
  have hplace : (p.placeRow i).Kept x ↔ (p.placeRow i).value x = 0 := between_same_iff
  have hspeed : (p.speedRow i).Kept x ↔ (p.speedRow i).value x = 0 := between_same_iff
  rw [hplace, hspeed]
  -- What is left of each side is linear in the variables.
  simp only [placeRow, speedRow, half_eq, Nat.cast_ofNat]
  constructor
  · rintro ⟨hp, hv⟩
    constructor
    · simp only [stateAt, ← Nat.add_assoc]
      linear_combination hv
    · simp only [stateAt, ← Nat.add_assoc]
      linear_combination hp
  · rintro ⟨hv, hp⟩
    simp only [stateAt, ← Nat.add_assoc] at hv hp
    exact ⟨by linear_combination hp, by linear_combination hv⟩

theorem limitRow_kept {limit : R → R} {i : Nat} :
    (p.limitRow limit i).Kept x ↔ (stateAt p.knots x i).v ≤ limit (stateAt p.knots x i).p := by
  change True ∧ x (p.knots + i) - limit (x i) ≤ 0 ↔ x (p.knots + i) ≤ limit (x i)
  rw [true_and, sub_nonpos]

theorem softRows_kept {i : Nat} {b : R × R} :
    (∀ r ∈ p.softRows i b, r.Kept x) ↔
      b.1 - x (3 * p.knots + i) ≤ (stateAt p.knots x i).p ∧
        (stateAt p.knots x i).p ≤ b.2 + x (4 * p.knots + i) := by
  simp only [softRows, List.forall_mem_cons, List.not_mem_nil, false_implies, implies_true,
    and_true]
  change (0 ≤ x i - b.1 + x (3 * p.knots + i) ∧ True) ∧
    True ∧ x i - b.2 - x (4 * p.knots + i) ≤ 0 ↔
      b.1 - x (3 * p.knots + i) ≤ x i ∧ x i ≤ b.2 + x (4 * p.knots + i)
  constructor
  · intro ⟨⟨hl, _⟩, _, hu⟩
    exact ⟨by linarith, by linarith⟩
  · intro ⟨hl, hu⟩
    exact ⟨⟨by linarith, trivial⟩, trivial, by linarith⟩

/-- The rows of all soft intervals. -/
theorem forall_softRows {asked : BoundedRow R → Prop} :
    (∀ r ∈ p.soft.zipIdx.flatMap fun (ends, i) => p.softRows i ends, asked r) ↔
      ∀ i b, p.soft[i]? = some b → ∀ r ∈ p.softRows i b, asked r := by
  simp only [List.mem_flatMap]
  constructor
  · intro h i b hb r hr
    exact h r ⟨(b, i), List.mk_mem_zipIdx_iff_getElem?.mpr hb, hr⟩
  · rintro h r ⟨⟨b, i⟩, hb, hr⟩
    exact h i b (List.mk_mem_zipIdx_iff_getElem?.mp hb) r hr

/-- The rows ask for the motion, for advancing and for the speed limit. -/
theorem keptAt_lists_iff (kappa limit : R → R) :
    (∀ j, (p.lists kappa limit).rows.KeptAt x j) ↔ p.Moves x ∧
      (∀ i, i + 1 < p.knots → (stateAt p.knots x i).p ≤ (stateAt p.knots x (i + 1)).p) ∧
      ∀ i, i < p.knots → (stateAt p.knots x i).v ≤ limit (stateAt p.knots x i).p := by
  have hsoft : (∀ (j : Nat) (r : BoundedRow R),
      (p.soft.zipIdx.flatMap fun (ends, i) => p.softRows i ends)[j]? = some r → r.Kept x) ↔
        ∀ i b, p.soft[i]? = some b → b.1 - x (3 * p.knots + i) ≤ (stateAt p.knots x i).p ∧
        (stateAt p.knots x i).p ≤ b.2 + x (4 * p.knots + i) := by
    -- Being kept has nothing to do with the position, so only membership is left.
    simp only [← softRows_kept]
    rw [← forall_softRows]
    simp only [List.mem_iff_getElem?, forall_exists_index]
    exact forall_comm
  change (∀ j, (RowLists.ofRows (p.rows limit)).KeptAt x j) ↔ _
  simp only [RowLists.keptAt_ofRows]
  rw [forall_rows, hsoft]
  simp only [advanceRow_kept (p := p), jerkRow_kept, limitRow_kept, Nat.lt_sub_iff_add_lt]
  constructor
  · intro ⟨hadvance, hjerk, hplace, hspeed, hlimited, heased⟩
    exact ⟨⟨hjerk, fun i hi => stepRows_kept.mp ⟨hplace i hi, hspeed i hi⟩, heased⟩, hadvance,
      hlimited⟩
  · intro ⟨⟨hjerk, hlinked, heased⟩, hadvance, hlimited⟩
    exact ⟨hadvance, hjerk, fun i hi => (stepRows_kept.mpr (hlinked i hi)).1,
      fun i hi => (stepRows_kept.mpr (hlinked i hi)).2, hlimited, heased⟩

/-- A problem with a corridor and both curves has lists. -/
theorem build_total {curvature limit : JerkCurve R} (hcurvature : p.curvature = some curvature)
    (hlimit : p.limit = some limit) (hhard : p.hard ≠ []) :
    ∃ kappa bound : Spline R, p.build = .ok (p.lists kappa.eval bound.eval) := by
  rcases splines_total hcurvature hlimit hhard with ⟨kappa, bound, hsplines⟩
  exact ⟨kappa, bound, bind_eq_ok_iff.mpr ⟨_, hsplines, rfl⟩⟩

/-- The motion keeps all rows but those for advancing, which come first, and
    those for the speed limit, which come after the four rows of each step. -/
theorem keptAt_lists_of_moves (kappa limit : R → R) (hx : p.Moves x) {j : Nat}
    (hfirst : p.knots - 1 ≤ j)
    (hlimit : j < 4 * (p.knots - 1) ∨ 4 * (p.knots - 1) + p.knots ≤ j) :
    (p.lists kappa limit).rows.KeptAt x j := by
  -- Two of the six blocks lie outside the positions that are asked about.
  have hall : ∀ j r, (p.rows limit)[j]? = some r → p.knots - 1 ≤ j →
      (j < 4 * (p.knots - 1) ∨ 4 * (p.knots - 1) + p.knots ≤ j) → r.Kept x := by
    refine (forall_rows limit).mpr ⟨?_, ?_, ?_, ?_, ?_, ?_⟩
    · intro i hi hfirst
      omega
    · intro i hi _ _
      exact jerkRow_kept.mpr (hx.jerk i (by omega))
    · intro i hi _ _
      exact (stepRows_kept.mpr (hx.linked i (by omega))).1
    · intro i hi _ _
      exact (stepRows_kept.mpr (hx.linked i (by omega))).2
    · intro i hi _ hlimit
      omega
    · intro j r hr _ _
      exact forall_softRows.mpr (fun i b hb => softRows_kept.mpr (hx.soft i b hb)) r
        (List.mem_of_getElem? hr)
  exact RowLists.keptAt_ofRows.mpr fun r hr => hall j r hr hfirst hlimit

/-- A problem with both curves has lists, and there are as many entries of each
    kind as there are variables or rows. A point keeps them when it is what the
    refinement asks for. -/
theorem lists_ask (hknots : 0 < p.knots) (hhard : p.hard.length = p.knots)
    (hsoft : p.soft = [] ∨ p.soft.length = p.knots) :
    (∀ curvature limit, p.curvature = some curvature → p.limit = some limit →
      ∃ kappa bound : Spline R, p.build = .ok (p.lists kappa.eval bound.eval)) ∧
    ∀ kappa limit : R → R,
      (p.lists kappa limit).Sized ((if p.usesSoft then 5 else 3) * p.knots)
        (4 * (p.knots - 1) + p.knots + if p.usesSoft then 2 * p.knots else 0) ∧
      ∀ x, (p.lists kappa limit).Kept x ↔ p.Asks limit x := by
  refine ⟨fun curvature limit hcurvature hlimit => ?_, fun kappa limit =>
    ⟨lists_sized hknots hhard hsoft kappa limit, fun x => ?_⟩⟩
  · exact build_total hcurvature hlimit (List.ne_nil_of_length_pos (by omega))
  · constructor
    · intro ⟨hbounds, hrows⟩
      rcases (keptAt_lists_iff kappa limit).mp hrows with ⟨hmoves, hadvance, hlimited⟩
      exact ⟨(boundedAt_lists_iff hknots hhard hsoft kappa limit).mp hbounds, hmoves, hadvance,
        hlimited⟩
    · intro h
      exact ⟨(boundedAt_lists_iff hknots hhard hsoft kappa limit).mpr h.ranges,
        (keptAt_lists_iff kappa limit).mpr ⟨h.moves, h.advance, h.limited⟩⟩

/-! Coming too near -/

/-- Two knots a second apart, and somebody ahead to whom one would like to keep
    more distance than one must. -/
def crowded : Horizon Rat where
  place := 0
  speed := 1
  acceleration := 0
  step := 1
  knots := 2
  length := 10
  time := 1
  legalSpeed := 5
  topSpeed := 5
  minAcceleration := -6
  maxAcceleration := 2
  minJerk := -4
  maxJerk := 2
  corridor := ⟨[(0, 6), (0, 6)], [(0, 1), (0, 1)]⟩
  cruiseSpeed := 5

/-- The refinement, on a straight road with a limit of five. -/
def tooNear : RefinementProblem Rat :=
  { RefinementProblem.ofHorizon crowded with
    hard := crowded.corridor.hard
    soft := crowded.corridor.soft
    curvature := some (.ofStart ⟨0, 0, 0⟩)
    limit := some (.ofStart ⟨5, 0, 0⟩) }

/-- Speeding up a little leads beyond the soft end, and the last slack makes up
    for it. -/
def speedingUp : Nat → Rat := fun j => ([0, 7 / 6, 1, 3 / 2, 0, 1, 0, 0, 0, 1 / 6][j]?).getD 0

theorem lists_ask_tooNear : 0 < tooNear.knots ∧ tooNear.hard.length = tooNear.knots ∧
    tooNear.soft.length = tooNear.knots ∧ tooNear.usesSoft = true ∧
    (∃ b, tooNear.build = .ok b) ∧ (tooNear.lists (fun _ => 0) fun _ => 5).Sized 10 10 ∧
    (tooNear.lists (fun _ => 0) fun _ => 5).Kept speedingUp ∧
    tooNear.Asks (fun _ => 5) speedingUp := by
  have hknots : 0 < tooNear.knots := by decide
  have hkept : (tooNear.lists (fun _ => 0) fun _ => 5).Kept speedingUp :=
    (kept_lists_iff hknots rfl _ _ _).mpr (by decide +kernel)
  rcases lists_ask hknots rfl (.inr rfl) with ⟨hbuild, hlists⟩
  rcases hbuild _ _ rfl rfl with ⟨kappa, bound, hb⟩
  rcases hlists (fun _ => 0) (fun _ => 5) with ⟨hsized, hasks⟩
  exact ⟨hknots, rfl, rfl, rfl, ⟨_, hb⟩, hsized, hkept, (hasks speedingUp).mp hkept⟩

end RefinementProblem

end JerkPlan
