import JerkPlan.Chain.Convex
import JerkPlan.Refinement

/-!
# Solving refinements

A refinement is a chain with a cost that is not quadratic and one row per knot
that is not linear, the speed limit. Everything else is linear, and every
chain considered here keeps it.

The solver first asks whether the linear rows can be kept together at all and
moves the start to the nearest chain that keeps them. Then it replaces, again
and again, the cost by its second-order expansion and the speed limit by its
tangent, and goes towards the optimum of the quadratic problem that results.
The speed limit has a price in these problems, which is raised for as long as
it is worth breaking the limit. How far to go is decided by the merit of a
chain, its cost and the price of what it breaks: where a full step loses
merit, the step is repeated with the limit as found at its end, and then
halved. When merit no longer tells chains apart, a few full steps end the
search.

The expansion uses the exact curvature of the cost wherever that bends upwards
along the chain as a whole; elsewhere the downward directions of each knot are
left out.

## Main definitions

* `solveRefinement`: The solver of refinements.
-/

namespace JerkPlan

namespace Chain

/-- What the solver needs of a refinement: the problem, its start, and its two
    curves. -/
structure Scene where
  problem : RefinementProblem Float
  start : Vec
  kappa : Spline Float
  limit : Spline Float

namespace Scene

/-- The step between knots. -/
def step (z : Scene) : Float := z.problem.horizon.step

/-- The rows of a knot that never change, with their price. -/
def fixedRows (z : Scene) (price : Float) (i : Nat) : List Row :=
  let h := z.problem.horizon
  let δ := z.step
  let inside :=
    if i = 0 then []
    else
      ((z.problem.hard[i]?).elim [] fun b => rangeRows ⟨1.0, 0.0, 0.0, 0.0⟩ b.1 b.2 price) ++
        rangeRows ⟨0.0, 1.0, 0.0, 0.0⟩ 0.0 h.topSpeed price ++
        rangeRows ⟨0.0, 0.0, 1.0, 0.0⟩ h.minAcceleration h.maxAcceleration price
  let leaving :=
    if i + 1 < z.problem.knots then
      rangeRows ⟨0.0, 0.0, 0.0, 1.0⟩ (h.minJerk * δ) (h.maxJerk * δ) price ++
        [⟨⟨0.0, δ, δ * δ / 2.0, δ * δ / 6.0⟩, 0.0, price⟩]
    else []
  inside ++ leaving

/-- The rows of the soft corridor at a knot. -/
def softRows (z : Scene) (i : Nat) : List Row :=
  match z.problem.soft[i]? with
  | some b =>
    if z.problem.softWeight > 0.0 then
      rangeRows ⟨1.0, 0.0, 0.0, 0.0⟩ b.1 b.2 z.problem.softWeight
    else []
  | none => []

/-- A place within the reach of the curves. -/
def within (z : Scene) (s : Float) : Float := max 0.0 (min s z.limit.finish)

/-- The row that the speed limit becomes at a place, met at another place
    `s'` for the height of the limit. -/
def limitRow (z : Scene) (price s s' : Float) : Row :=
  let slope := (z.limit.jet (z.within s)).v
  let height := (z.limit.jet (z.within s')).p
  ⟨⟨slope, -1.0, 0.0, 0.0⟩, slope * s' - height, price⟩

/-- By how much a point is too fast. -/
def excess (z : Scene) (p : Vec) : Float := max 0.0 (p.v - (z.limit.jet (z.within p.s)).p)

/-- The distance to aim at. -/
def aim (z : Scene) (i : Nat) : Float :=
  z.problem.reference.elim z.problem.horizon.length fun r => r.getD i 0.0

/-- The cost of a knot, without what it breaks. -/
def value (z : Scene) (i : Nat) (p : Vec) : Float :=
  let q := z.problem
  let sq (x : Float) : Float := x * x
  q.referenceWeight * sq (p.s - z.aim i) + q.cruiseWeight * sq (p.v - q.cruiseSpeed) +
    q.accelerationWeight * sq p.a + q.lateralWeight * sq (sq p.v * (z.kappa.jet (z.within p.s)).p) +
    if i + 1 < q.knots then q.jerkWeight * sq (p.u / z.step) else 0.0

/-- The slope of a knot's cost. -/
def slope (z : Scene) (i : Nat) (p : Vec) : Vec :=
  let q := z.problem
  let k := z.kappa.jet (z.within p.s)
  let w := q.lateralWeight
  let v3 := p.v * p.v * p.v
  ⟨2.0 * q.referenceWeight * (p.s - z.aim i) + 2.0 * w * v3 * p.v * k.p * k.v,
    2.0 * q.cruiseWeight * (p.v - q.cruiseSpeed) + 4.0 * w * v3 * k.p * k.p,
    2.0 * q.accelerationWeight * p.a,
    if i + 1 < q.knots then 2.0 * q.jerkWeight * p.u / (z.step * z.step) else 0.0⟩

/-- The curvature of a knot's cost, less that of the limit under a force. -/
def curvature (z : Scene) (i : Nat) (force : Float) (p : Vec) : Sym :=
  let q := z.problem
  let k := z.kappa.jet (z.within p.s)
  let w := q.lateralWeight
  let v2 := p.v * p.v
  let diagonal := Sym.diagonal
    ⟨2.0 * q.referenceWeight + 2.0 * w * v2 * v2 * (k.v * k.v + k.p * k.a) -
        force * (z.limit.jet (z.within p.s)).a,
      2.0 * q.cruiseWeight + 12.0 * w * v2 * k.p * k.p, 2.0 * q.accelerationWeight,
      if i + 1 < q.knots then 2.0 * q.jerkWeight / (z.step * z.step) else 0.0⟩
  { diagonal with sv := 8.0 * w * v2 * p.v * k.p * k.v }

end Scene

/-- A form without its downward directions in distance and speed. -/
def Sym.upward (m : Sym) : Sym :=
  let mean := 0.5 * (m.ss + m.vv)
  let half := 0.5 * (m.ss - m.vv)
  let radius := (half * half + m.sv * m.sv).sqrt
  if mean - radius ≥ 0.0 then m
  else if mean + radius ≤ 0.0 then { m with ss := 0.0, sv := 0.0, vv := 0.0 }
  else
    -- The one upward direction, weighed by its own curvature.
    let top := mean + radius
    let c := if radius > 0.0 then half / radius else 1.0
    let s := if radius > 0.0 then m.sv / radius else 0.0
    { m with ss := top * 0.5 * (1.0 + c), sv := top * 0.5 * s, vv := top * 0.5 * (1.0 - c) }

/-- A quadratic problem at a chain: the expansion of the cost there, in terms
    of the chain to be found. -/
def expansion (z : Scene) (forces : List Float) (ws : List Vec) : List Cost :=
  let build (shape : Sym → Sym) : List Cost :=
    (ws.zip forces).zipIdx.map fun ((w, f), i) =>
      let h := shape (z.curvature i f w)
      ⟨h, (z.slope i w).sub (h.apply w)⟩
  let exact := build id
  match backward z.step exact with
  | some _ => exact
  | none => build Sym.upward

/-- The rows of the quadratic problem at a chain, the limit as found at the
    chain `at'`. -/
def tangentRows (z : Scene) (hard price : Float) (ws at' : List Vec) : List (List Row) :=
  (ws.zip at').zipIdx.map fun ((w, w'), i) =>
    z.limitRow price w.s w'.s :: z.softRows i ++ z.fixedRows hard i

/-- The merit lost by a chain: its cost and the price of what it breaks. -/
def merit (z : Scene) (price : Float) (ws : List Vec) : Float :=
  ws.zipIdx.foldl (fun sum (w, i) =>
    sum + z.value i w + price * z.excess w +
      (z.softRows i).foldl (fun m r => m + r.price * r.miss w) 0.0) 0.0

/-- The merit that a quadratic problem promises for a chain. -/
def promise (costs : List Cost) (rows : List (List Row)) (hard : Float) (ws : List Vec) : Float :=
  (costs.zip (rows.zip ws)).foldl (fun sum (c, rs, w) =>
    sum + c.value w +
      rs.foldl (fun m r => if r.price < hard then m + r.price * r.miss w else m) 0.0) 0.0

/-- A chain part of the way from one to another. -/
def towards (α : Float) (ws vs : List Vec) : List Vec :=
  (ws.zip vs).map fun (w, v) => w.add ((v.sub w).scale α)

/-- The largest coordinate of the difference of two chains. -/
def separation (ws vs : List Vec) : Float :=
  (ws.zip vs).foldl (fun m (w, v) => max m (w.sub v).size) 0.0

/-- The forces of the limit rows, the first row of each knot. -/
def limitForces (xs : List Site) : List Float := xs.map fun x => (x.slacks.head?.elim 0.0 (·.force))

/-- A quadratic problem at a chain, with the price of the rows that never
    change, and its optimum. -/
structure Tangent where
  costs : List Cost
  rows : List (List Row)
  hard : Float
  optimum : List Site

namespace Tangent

/-- The chain of the optimum. -/
def chain (q : Tangent) : List Vec := q.optimum.map (·.point)

/-- The merit that the optimum promises to gain over a chain. -/
def gain (q : Tangent) (ws : List Vec) : Float :=
  promise q.costs q.rows q.hard ws - promise q.costs q.rows q.hard q.chain

end Tangent

/-- The optimum of quadratic costs under rows, looked for from a chain. -/
def optimumUnder (z : Scene) (costs : List Cost) (rows : List (List Row)) (ws : List Vec) :
    List Site :=
  let knots : List Knot := (costs.zip rows).map fun (c, rs) => ⟨c, rs⟩
  solve z.step 100 knots ws

/-- The quadratic problem at a chain. -/
def tangent (z : Scene) (price : Float) (forces : List Float) (ws : List Vec) : Tangent :=
  let costs := expansion z forces ws
  let size := (costs.zip ws).foldl (fun m (c, w) => max m (c.slopeAt w).size) 1.0
  let hard := forbidding (max size (max price z.problem.softWeight))
  let rows := tangentRows z hard price ws ws
  ⟨costs, rows, hard, optimumUnder z costs rows ws⟩

/-- The total by which a chain is too fast. -/
def tooFast (z : Scene) (ws : List Vec) : Float := ws.foldl (fun m w => m + z.excess w) 0.0

/-- The first of halved steps with enough merit, if there is one. -/
def halve (z : Scene) (price gain old : Float) (ws vs : List Vec) :
    Nat → Float → Option (List Vec)
  | 0, _ => none
  | fuel + 1, α =>
    let candidate := towards α ws vs
    if merit z price candidate ≤ old - 1e-4 * α * gain then some candidate
    else halve z price gain old ws vs fuel (0.5 * α)

/-- Full steps for as long as each is less than half as long as the one
    before. They end a search whose chains merit no longer tells apart. -/
def polish (z : Scene) (price : Float) : (fuel : Nat) → (forces : List Float) →
    (length : Float) → (ws : List Vec) → List Vec
  | 0, _, _, ws => ws
  | fuel + 1, forces, length, ws =>
    let q := tangent z price forces ws
    let length' := separation ws q.chain
    if length' < 0.5 * length then polish z price fuel (limitForces q.optimum) length' q.chain
    else ws

/-- The length of a step that counts as none. -/
def still : Float := 1e-10

/-- The relative gain of merit that rounding hides. -/
def imperceptible : Float := 1e-13

/-- The highest price of the speed limit. -/
def highestPrice : Float := 1e10

/-- Expand and step until the steps vanish; the chain and the number of
    steps. -/
def refineFrom (z : Scene) : (fuel : Nat) → (count : Nat) → (price : Float) →
    (forces : List Float) → (ws : List Vec) → List Vec × Nat
  | 0, count, _, _, ws => (ws, count)
  | fuel + 1, count, price, forces, ws =>
    let q := tangent z price forces ws
    let vs := q.chain
    let forces' := limitForces q.optimum
    let length := separation ws vs
    let wanting := forces'.any fun f => f > 0.5 * price
    if wanting && tooFast z vs > 1e-9 && price < highestPrice then
      refineFrom z fuel (count + 1) (price * 10.0) forces ws
    else
      let gain := q.gain ws
      let old := merit z price ws
      if length ≤ still || gain ≤ imperceptible * (1.0 + old.abs) then
        (polish z price 10 forces' length vs, count + 1)
      else if merit z price vs ≤ old - 1e-4 * gain then
        refineFrom z fuel (count + 1) price forces' vs
      else
        let again :=
          (optimumUnder z q.costs (tangentRows z q.hard price ws vs) ws).map (·.point)
        if merit z price again ≤ old - 1e-4 * gain then
          refineFrom z fuel (count + 1) price forces' again
        else
          match halve z price gain old ws vs 40 0.5 with
          | some next => refineFrom z fuel (count + 1) price forces' next
          | none => (polish z price 10 forces' length vs, count + 1)

/-- The chain nearest to a starting point that keeps the rows. -/
def project (z : Scene) (ws : List Vec) : List Vec :=
  let costs : List Cost := ws.map fun w =>
    ⟨Sym.diagonal ⟨1.0, 1.0, 1.0, 1e-6⟩, ⟨-w.s, -w.v, -w.a, 0.0⟩⟩
  let size := ws.foldl (fun m w => max m w.size) 1.0
  let rows := (List.range ws.length).map fun i => z.fixedRows (forbidding size) i
  let resting := rollout z.step z.start (List.replicate (ws.length - 1) 0.0)
  (optimumUnder z costs rows resting).map (·.point)

/-- The profile of a chain. -/
def profileOf (ws : List Vec) : KnotProfile Float := ⟨ws.map (·.s), ws.map (·.v), ws.map (·.a)⟩

/-- The answer for a refinement whose curves are known. -/
def Scene.answer (z : Scene) (point : List Float) : RefinementAnswer Float :=
  let n := z.problem.knots
  let p := point.toArray
  let begin := (List.range n).map fun i =>
    (⟨p.getD i 0.0, p.getD (n + i) 0.0, p.getD (2 * n + i) 0.0, 0.0⟩ : Vec)
  let rows := (List.range n).map fun i => z.fixedRows 1.0 i
  if shortfall z.step z.start rows > tolerance || z.excess z.start > tolerance then
    .ended (.status .infeasible) 0 0.0 ⟨[], [], []⟩
  else
    let (ws, count) := refineFrom z 300 0 1e3 (List.replicate n 0.0) (project z begin)
    if tooFast z ws > tolerance then .ended (.status .infeasible) count 0.0 ⟨[], [], []⟩
    else .ended (.status .succeeded) count (merit z 0.0 ws) (profileOf ws)

/-- The least budget of a refinement. One iteration proves nothing. -/
def refinementMinimum : Int := 2

end Chain

open Chain in
/-- The solver of refinements. Bounds that leave no number make it break
    down. -/
def solveRefinement : RefinementSolver Float := fun budget p =>
  let crossed (lower upper : Endpoint Float) : Bool :=
    match lower, upper with
    | .finite l, .finite u => !(l ≤ u) || (l.isInf && l > 0.0) || (u.isInf && u < 0.0)
    | _, _ => false
  match p.splines, p.startingPoint with
  | .ok (kappa, limit), .ok point =>
    let program := p.programWith kappa.eval limit.eval
    if program.bounds.any (fun b => crossed b.1 b.2) ||
        program.rows.any (fun r => crossed r.lower r.upper) then
      .brokeDown "Ill-posed problem detected"
    else if budget < refinementMinimum then
      .ended (.status .iterationLimit) budget.toNat 0.0 ⟨[], [], []⟩
    else
      let h := p.horizon
      Scene.answer ⟨p, ⟨h.place, h.speed, h.acceleration, 0.0⟩, kappa, limit⟩ point
  | _, _ => .brokeDown "Ill-posed problem detected"

end JerkPlan
