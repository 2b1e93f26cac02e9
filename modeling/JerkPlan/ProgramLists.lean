import JerkPlan.Refinement

/-!
# Lists of a program

What a solver is handed of a refinement.

A solver knows of rows and variables by their position only. It takes one list
of all values of rows and, beside it, one list for their ends on either side,
and two lists for the ends of the variables. A row is put down by adding to
three lists at once. The variables of a block are bounded alike, and then the
first one of each block is fixed.

## Main definitions

* `RowLists`: Rows as three lists.
* `ProgramLists`: All lists that a solver takes, and the cost.
* `RowLists.put`: One more row.
* `RefinementProblem.variableEnds`: The ends of all variables on one side.
* `RefinementProblem.lists`: The lists for given curve functions.
* `RefinementProblem.build`: The lists, its curves made smooth functions.
-/

namespace JerkPlan

/-- The values of rows and their ends on either side. -/
structure RowLists (R : Type) where
  values : List ((Nat → R) → R)
  lower : List (Endpoint R)
  upper : List (Endpoint R)

/-- The ends of the variables on either side, the rows, and the cost of a
    point. -/
structure ProgramLists (R : Type) where
  lower : List (Endpoint R)
  upper : List (Endpoint R)
  rows : RowLists R
  cost : (Nat → R) → R

namespace RowLists

variable {R : Type}

/-- Put down one more row. -/
def put (b : RowLists R) (r : BoundedRow R) : RowLists R :=
  ⟨b.values ++ [r.value], b.lower ++ [r.lower], b.upper ++ [r.upper]⟩

/-- Rows put down one after another. -/
def ofRows (rows : List (BoundedRow R)) : RowLists R := rows.foldl put ⟨[], [], []⟩

end RowLists

namespace RefinementProblem

variable {R : Type} [Scalar R]

/-- The ends of all variables on one side, given those of the distances, the
    end of all speeds, of all accelerations, and of all slacks. -/
def variableEnds (p : RefinementProblem R) (places : List R) (speed acceleration : R)
    (slack : Endpoint R) : List (Endpoint R) :=
  let n := p.knots
  let h := p.horizon
  let ends := places.map .finite ++ List.replicate n (.finite speed) ++
    List.replicate n (.finite acceleration) ++
    if p.usesSoft then List.replicate (2 * n) slack else []
  ((ends.set 0 (.finite h.place)).set n (.finite h.speed)).set (2 * n) (.finite h.acceleration)

/-- The lists for given functions of curvature and speed limit. -/
def lists (p : RefinementProblem R) (kappa limit : R → R) : ProgramLists R where
  lower := p.variableEnds (p.hard.map (·.1)) 0 p.horizon.minAcceleration (.finite 0)
  upper := p.variableEnds (p.hard.map (·.2)) p.horizon.topSpeed p.horizon.maxAcceleration
    .plusInfinity
  rows := .ofRows (p.rows limit)
  cost := p.cost kappa

/-- The lists of the problem. -/
def build (p : RefinementProblem R) : Except (Failure R) (ProgramLists R) := do
  let (kappa, limit) ← p.splines
  pure (p.lists kappa.eval limit.eval)

end RefinementProblem

end JerkPlan
