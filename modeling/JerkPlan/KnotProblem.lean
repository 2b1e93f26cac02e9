import JerkPlan.Endpoint
import JerkPlan.JerkCurve
import JerkPlan.Outcome

/-!
# Problems over knots

A quantity at knots a fixed step apart, with its first two derivatives, and
the third one constant in between: the best such sequence from a given start
is the answer to a quadratic program. This module holds the description of
the problem and the program made of it.

The variables of the program are the values at all knots, then all first
derivatives, then all second ones. Its constraints come in this order: the
bounds of each variable; the change of the second derivative over each step;
for each step, the first derivative and then the value that constant jerk
leads to; the start. The cost is half the kernel's quadratic form plus the
offset's linear form, and differs from the sum of the weighted squares by what
does not depend on the variables.

Rows are kept as lists of the entries that are not zero, in order of their
columns, and bounds as numbers of magnitude at most `10 ^ 30`.

## Main definitions

* `KnotProblem`: Bounds, weights and references at knots.
* `Constraints`: Sparse rows between bounds.
* `QuadraticProgram`: Kernel, offset and constraints.
* `KnotProblem.program`: The program of a problem.
* `ConvexSolver`: Whatever answers such a program.
-/

namespace JerkPlan

/-- Values at the knots with their first and second derivatives. -/
structure KnotProfile (R : Type) where
  p : List R
  v : List R
  a : List R

/-- The problem of finding values at knots: their bounds and those of the
    derivatives, weights, and references to stay close to. -/
structure KnotProblem (R : Type) where
  kind : ProblemKind
  knots : Nat
  step : R
  /-- The values at the first knot: the value and its derivatives in order. -/
  start : List R
  pBounds : List (Endpoint R × Endpoint R)
  vBounds : List (Endpoint R × Endpoint R)
  aBounds : List (Endpoint R × Endpoint R)
  jerkBounds : Endpoint R × Endpoint R
  pWeight : R
  vWeight : R
  aWeight : R
  jerkWeight : R
  /-- A weight and a target for the value at each knot. -/
  reference : Option (List R × List R)
  /-- Weights and targets for the last knot. -/
  finalReference : Option (Motion R × Motion R)
  /-- A weight and a target for the first derivative at every knot. -/
  slopeReference : Option (R × R)

/-- Sparse rows and the bounds between which their values must lie. -/
structure Constraints (R : Type) where
  rows : List (List (Nat × R))
  lower : List R
  upper : List R

/-- Half a quadratic form plus a linear form, under constraints. The kernel
    is given by its rows, one for each variable. -/
structure QuadraticProgram (R : Type) where
  kernel : List (List (Nat × R))
  offset : List R
  constraints : Constraints R

variable {R : Type} [Scalar R]

/-- The entries of a row that are not zero. -/
def nonzero (row : List (Nat × R)) : List (Nat × R) := row.filter fun (_, x) => !same x 0

/-- The value of a sparse row at a point. -/
def rowValue (z : Nat → R) (row : List (Nat × R)) : R :=
  row.foldl (fun sum (j, x) => sum + x * z j) 0

/-- A point keeps all constraints: the value of each row lies between its
    bounds. -/
def Constraints.Hold (z : Nat → R) (c : Constraints R) : Prop :=
  ∀ x ∈ (c.rows.map (rowValue z)).zip (c.lower.zip c.upper), x.2.1 ≤ x.1 ∧ x.1 ≤ x.2.2

/-- The constraints of two lists, one after the other. -/
def Constraints.append (c d : Constraints R) : Constraints R :=
  ⟨c.rows ++ d.rows, c.lower ++ d.lower, c.upper ++ d.upper⟩

/-- The point with the given coordinates, zero elsewhere. -/
def KnotProfile.point (k : KnotProfile R) (j : Nat) : R := ((k.p ++ k.v ++ k.a)[j]?).getD 0

/-- How bounds are given: the same two ends for every knot, or a pair for
    each. Lists of other shapes do not fit. -/
inductive BoundsSpec (R : Type)
  | uniform (ends : List R)
  | perKnot (rows : List (List R))

/-- The bounds of each knot. -/
def BoundsSpec.settle (knots : Nat) : BoundsSpec R → Except (Failure R) (List (R × R))
  | uniform [l, u] => .ok (List.replicate knots (l, u))
  | uniform ends => .error (.invalid (.boundsShape knots ends.length knots))
  | perKnot [] => .error (.invalid (.boundsShape knots 0 knots))
  | perKnot (r :: rs) =>
    let pairs := (r :: rs).filterMap fun
      | [l, u] => some (l, u)
      | _ => none
    if pairs.length = rs.length + 1 ∧ pairs.length = knots then .ok pairs
    else .error (.invalid (.boundsShape (rs.length + 1) r.length knots))

namespace KnotProblem

/-- A pair of finite ends. -/
def finitePair (b : R × R) : Endpoint R × Endpoint R := (.finite b.1, .finite b.2)

/-- The problem without bounds, weights or references. It takes two knots and
    a positive step. -/
def make (kind : ProblemKind) (knots : Int) (step : R) (start : List R) :
    Except (Failure R) (KnotProblem R) :=
  if knots < 2 then .error (.invalid (.fewKnots knots))
  else if step ≤ 0 then .error (.invalid (.notPositive "delta" (some step)))
  else
    let free : List (Endpoint R × Endpoint R) :=
      List.replicate knots.toNat (.minusInfinity, .plusInfinity)
    .ok ⟨kind, knots.toNat, step, start, free, free, free, (.minusInfinity, .plusInfinity),
      0, 0, 0, 0, none, none, none⟩

/-- The weights of the knots. A single one counts for all of them, and else
    there is one for each. -/
def knotWeights (knots : Nat) : List R → Except (Failure R) (List R)
  | [w] => .ok (List.replicate knots w)
  | ws =>
    if ws.length ≠ knots then .error (.invalid (.weightCount ws.length knots)) else .ok ws

/-- Stay close to a target at every knot. -/
def withReference (p : KnotProblem R) (weights targets : List R) :
    Except (Failure R) (KnotProblem R) :=
  if targets.length ≠ p.knots then .error (.invalid (.referenceSize targets.length p.knots))
  else (knotWeights p.knots weights).map fun ws => { p with reference := some (ws, targets) }

/-- Stay close to a first derivative, which only a motion has. -/
def withSlope (p : KnotProblem R) (weight target : R) : Except (Failure R) (KnotProblem R) :=
  match p.kind with
  | .motion => .ok { p with slopeReference := some (weight, target) }
  | k => .error (.noSlopeReference k)

/-- Two, as a scalar. -/
def two : R := ((2 : Nat) : R)

/-- The weight of the squared change of the second derivative over a step. -/
def changeWeight (p : KnotProblem R) : Except (Failure R) R :=
  let square := p.step * p.step
  if same square 0 then .error .divisionByZero
  else if isFinite p.step && !isFinite square then .error .overflow
  else .ok (p.jerkWeight / square)

/-- A weight, with the one of the last knot's target added there. -/
def withFinal (p : KnotProblem R) (part : Motion R → R) (i : Nat) (w : R) : R :=
  match p.finalReference with
  | some (weights, _) => if i + 1 = p.knots then w + part weights else w
  | none => w

/-- The weight of the squared value at a knot. -/
def pSquare (p : KnotProblem R) (i : Nat) : R :=
  p.withFinal (·.p) i (p.pWeight + (p.reference.elim 0 fun r => (r.1[i]?).getD 0))

/-- The weight of the squared first derivative at a knot. -/
def vSquare (p : KnotProblem R) (i : Nat) : R :=
  p.withFinal (·.v) i (p.slopeReference.elim p.vWeight fun r => p.vWeight + r.1)

/-- The weight of the squared second derivative at a knot. -/
def aSquare (p : KnotProblem R) (i : Nat) : R := p.withFinal (·.a) i p.aWeight

/-- The row of the kernel that belongs to a knot's second derivative, given
    the weight of its changes. -/
def aRow (p : KnotProblem R) (w : R) (i : Nat) : List (Nat × R) :=
  let n := p.knots
  let j := 2 * n + i
  let change : R := two * w
  let own : R :=
    if i = 0 ∨ i + 1 = n then 0 + change else 0 + change + change
  (if 0 < i then [(j - 1, 0 - change)] else []) ++ [(j, two * p.aSquare i + own)] ++
    (if i + 1 < n then [(j + 1, 0 - change)] else [])

/-- The kernel, row by row. -/
def kernel (p : KnotProblem R) : Except (Failure R) (List (List (Nat × R))) := do
  if let .bare := p.kind then .error .noObjective
  let w ← p.changeWeight
  let n := p.knots
  let knots := List.range n
  pure ((knots.map fun i => nonzero [(i, two * p.pSquare i)]) ++
    (knots.map fun i => nonzero [(n + i, two * p.vSquare i)]) ++
    (knots.map fun i => nonzero (p.aRow w i)))

/-- The pull of the last knot's target, added at that knot. -/
def withFinalPull (p : KnotProblem R) (part : Motion R → R) (i : Nat) (x : R) : R :=
  match p.finalReference with
  | some (weights, targets) =>
    if i + 1 = p.knots then x + -two * part weights * part targets else x
  | none => x

/-- The offset. -/
def offset (p : KnotProblem R) : Except (Failure R) (List R) := do
  if let .bare := p.kind then .error .noObjective
  let knots := List.range p.knots
  pure ((knots.map fun i => p.withFinalPull (·.p) i
      (p.reference.elim 0 fun r => -two * (r.1[i]?).getD 0 * (r.2[i]?).getD 0)) ++
    (knots.map fun i => p.withFinalPull (·.v) i
      (p.slopeReference.elim 0 fun r => -two * r.1 * r.2)) ++
    (knots.map fun i => p.withFinalPull (·.a) i 0))

/-- The bounds of single variables, the first of which has index `j`. -/
def boundRows (j : Nat) (bounds : List (Endpoint R × Endpoint R)) : Constraints R :=
  ⟨(bounds.zipIdx j).map fun (_, k) => [(k, 1)], bounds.map (·.1.clip), bounds.map (·.2.clip)⟩

/-- The bounds of the change over each step. -/
def changeRows (p : KnotProblem R) : Constraints R :=
  let n := p.knots
  ⟨(List.range (n - 1)).map fun i => [(2 * n + i, -1), (2 * n + i + 1, 1)],
    List.replicate (n - 1) (p.jerkBounds.1.scale p.step).clip,
    List.replicate (n - 1) (p.jerkBounds.2.scale p.step).clip⟩

/-- The first derivative that constant jerk leads to over a step. -/
def slopeRow (p : KnotProblem R) (i : Nat) : List (Nat × R) :=
  let n := p.knots
  let c : R := -decimal 5 1 * p.step
  nonzero [(n + i, -1), (n + i + 1, 1), (2 * n + i, c), (2 * n + i + 1, c)]

/-- The value that constant jerk leads to over a step. -/
def valueRow (p : KnotProblem R) (i : Nat) : List (Nat × R) :=
  let n := p.knots
  let square := p.step * p.step
  nonzero [(i, -1), (i + 1, 1), (n + i, -p.step), (2 * n + i, -square / ((3 : Nat) : R)),
    (2 * n + i + 1, -square / ((6 : Nat) : R))]

/-- First derivative and value follow from constant jerk over each step. -/
def continuityRows (p : KnotProblem R) : Constraints R :=
  ⟨(List.range (p.knots - 1)).flatMap fun i => [p.slopeRow i, p.valueRow i],
    List.replicate (2 * (p.knots - 1)) 0, List.replicate (2 * (p.knots - 1)) 0⟩

/-- The values at the first knot. -/
def startRows (p : KnotProblem R) : Constraints R :=
  let values := p.start.map fun x => (Endpoint.finite x).clip
  ⟨[[(0, 1)], [(p.knots, 1)], [(2 * p.knots, 1)]], values, values⟩

/-- All constraints, in order. -/
def constraints (p : KnotProblem R) : Constraints R :=
  (boundRows 0 p.pBounds).append <| (boundRows p.knots p.vBounds).append <|
    (boundRows (2 * p.knots) p.aBounds).append <| p.changeRows.append <|
      p.continuityRows.append p.startRows

/-- The program of the problem. -/
def program (p : KnotProblem R) : Except (Failure R) (QuadraticProgram R) := do
  let k ← p.kernel
  let o ← p.offset
  pure ⟨k, o, p.constraints⟩

/-- A profile keeps all constraints of the problem. -/
def Feasible (p : KnotProblem R) (k : KnotProfile R) : Prop :=
  p.constraints.Hold k.point

end KnotProblem

/-- How a solver leaves a program. -/
inductive ConvexStatus
  | solved
  | inaccurate
  | infeasible
  | exhausted
  | other (name : String)

namespace ConvexStatus

/-- Whether the answer is taken. -/
def accepted : ConvexStatus → Bool
  | solved | inaccurate => true
  | _ => false

/-- The name of a status. -/
def name : ConvexStatus → String
  | solved => "solved"
  | inaccurate => "solved inaccurate"
  | infeasible => "primal infeasible"
  | exhausted => "maximum iterations reached"
  | other n => n

end ConvexStatus

/-- A solver's answer: how it ended, after how many iterations, and where. -/
structure ConvexAnswer (R : Type) where
  status : ConvexStatus
  iterations : Int
  profile : KnotProfile R

/-- Whatever answers a problem within a budget of iterations, or refuses it. -/
def ConvexSolver (R : Type) := Int → KnotProblem R → Except Refusal (ConvexAnswer R)

namespace KnotProblem

/-- Ask a solver. The program must exist to be solved; an answer that is not
    accepted leaves a notice. -/
def optimize (solve : ConvexSolver R) (budget : Int) (p : KnotProblem R) :
    Outcome R (ConvexAnswer R) := do
  let _ ← Outcome.of p.program
  match solve budget p with
  | .error r => Outcome.fail (.refused r)
  | .ok answer =>
    if answer.status.accepted then pure answer
    else
      Outcome.tell (.unsolved answer.status.name answer.iterations)
      pure answer

end KnotProblem

end JerkPlan
