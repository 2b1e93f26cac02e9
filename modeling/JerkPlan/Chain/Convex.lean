import JerkPlan.Chain.Interior
import JerkPlan.KnotProblem

/-!
# Solving problems over knots

A problem over knots is a chain: its continuity constraints say that the jerk
is constant over each step, its start is that of the chain, and every other
constraint bounds one coordinate of one knot. So the chain solver answers it.

A problem whose bounds cross, or hold a value that compares with nothing, is
refused, and after that a budget that allows no iteration. Progress is
inspected every twenty-five iterations, so a smaller budget ends before the
first inspection. With enough of a budget, the answer is either the optimum or
the finding that the bounds cannot be kept together.

## Main definitions

* `solveConvex`: The solver of problems over knots.
-/

namespace JerkPlan

namespace Chain

/-- The magnitude from which on a bound counts as none. -/
def unbounded : Float := 1e26

/-- The rows that keep a linear form between two bounds. -/
def rangeRows (form : Vec) (lower upper price : Float) : List Row :=
  (if lower > -unbounded then [⟨form, lower, price⟩] else []) ++
    (if upper < unbounded then [⟨form.scale (-1.0), -upper, price⟩] else [])

/-- The bounds of a knot's value, by index. -/
def boundRows (form : Vec) (bounds : List (Endpoint Float × Endpoint Float)) (i : Nat)
    (price : Float) : List Row :=
  (bounds[i]?).elim [] fun b => rangeRows form b.1.clip b.2.clip price

/-- The rows of all knots, with one price for each. -/
def problemRows (p : KnotProblem Float) (price : Float) : List (List Row) :=
  let jerk := rangeRows ⟨0.0, 0.0, 0.0, 1.0⟩ (p.jerkBounds.1.scale p.step).clip
    (p.jerkBounds.2.scale p.step).clip price
  (List.range p.knots).map fun i =>
    boundRows ⟨1.0, 0.0, 0.0, 0.0⟩ p.pBounds i price ++
      boundRows ⟨0.0, 1.0, 0.0, 0.0⟩ p.vBounds i price ++
      boundRows ⟨0.0, 0.0, 1.0, 0.0⟩ p.aBounds i price ++
      if i + 1 < p.knots then jerk else []

/-- The costs of all knots. -/
def problemCosts (p : KnotProblem Float) : List Cost :=
  let change := 2.0 * p.jerkWeight / (p.step * p.step)
  let offset := (p.offset.toOption.getD []).toArray
  let n := p.knots
  (List.range n).map fun i =>
    ⟨Sym.diagonal ⟨2.0 * p.pSquare i, 2.0 * p.vSquare i, 2.0 * p.aSquare i,
        if i + 1 < n then change else 0.0⟩,
      ⟨offset.getD i 0.0, offset.getD (n + i) 0.0, offset.getD (2 * n + i) 0.0, 0.0⟩⟩

/-- The total miss from which on bounds count as incompatible. -/
def tolerance : Float := 1e-6

/-- A price that no cost of the given size can be worth. -/
def forbidding (size : Float) : Float := 1e6 * max 1.0 size

/-- The chain of a problem at its optimum, or `none` if its bounds cannot be
    kept together. -/
def optimum (p : KnotProblem Float) : Option (List Vec) :=
  let start : Vec := ⟨p.start.getD 0 0.0, p.start.getD 1 0.0, p.start.getD 2 0.0, 0.0⟩
  if shortfall p.step start (problemRows p 1.0) > tolerance then none
  else
    let costs := problemCosts p
    let points := rollout p.step start (List.replicate (p.knots - 1) 0.0)
    let size := (costs.zip points).foldl (fun m (c, w) => max m (c.slopeAt w).size) 1.0
    let rows := problemRows p (forbidding size)
    let knots : List Knot := (costs.zip rows).map fun (c, rs) => ⟨c, rs⟩
    some ((solve p.step 200 knots points).map (·.point))

/-- After how many iterations progress is inspected. -/
def inspection : Int := 25

end Chain

open Chain in
/-- The solver of problems over knots. -/
def solveConvex : ConvexSolver Float := fun budget p =>
  let c := p.constraints
  if (c.lower.zip c.upper).any fun (l, u) => !(l ≤ u) then .error .bounds
  else if budget ≤ 0 then .error .budget
  else if budget < inspection then .ok ⟨.exhausted, budget, [], [], []⟩
  else
    match optimum p with
    | none => .ok ⟨.infeasible, inspection, [], [], []⟩
    | some ws => .ok ⟨.solved, inspection, ws.map (·.s), ws.map (·.v), ws.map (·.a)⟩

end JerkPlan
