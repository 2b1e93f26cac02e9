import JerkPlan.Recording

/-!
# Charts

What a picture of a recording shows: on the left the free stretch of road and
the recorded series over time, on the right their speeds and the fitted speed
limit over distance. Of several graphs one is chosen, the last one or the last
one of a given name. An empty recording makes no picture.

## Main definitions

* `Axes`: Titles, lines and filled areas of one diagram.
* `Recording.chart`: The diagrams of a recording.
-/

namespace JerkPlan

/-- A line with its label. -/
structure Line (R : Type) where
  label : String
  points : List (R × R)

/-- One diagram. -/
structure Axes (R : Type) where
  title : String
  xLabel : String
  yLabel : String
  lines : List (Line R)
  fills : List (List (R × R))

variable {R : Type} [Scalar R]

/-- A polygon that ends where it starts. One that already does stays as it
    is. -/
def closePolygon (points : List (R × R)) : List (R × R) :=
  match points with
  | [] => []
  | p :: rest =>
    match rest.getLast? with
    | none => [p, p]
    | some q => if same p.1 q.1 && same p.2 q.2 then points else points ++ [p]

namespace Recording

/-- The last graph, or the last one of a name. -/
def chosenGraph (r : Recording R) (name : Option String) : Option (GraphRecord R) :=
  (r.graphs.filter fun g => name.elim true (g.name == ·)).getLast?

/-- The diagram over time. -/
def timeAxes (r : Recording R) (graph : Option (GraphRecord R)) : Axes R :=
  let outlines := (graph.elim [] (·.outlines)).filter fun o => !o.points.isEmpty
  let closed := outlines.map fun o => (⟨o.name, o.points ++ o.points.take 1⟩ : Line R)
  let plans := r.plans.filter fun p => !p.samples.isEmpty
  { title := "(a) ST drive boundary"
    xLabel := "Time (s)"
    yLabel := "Distance (m)"
    lines := closed ++ plans.map fun p => ⟨p.name, p.samples.map fun q => (q.t, q.s)⟩
    fills := closed.map fun l => closePolygon l.points }

/-- The diagram over distance. -/
def distanceAxes (r : Recording R) (graph : Option (GraphRecord R)) : Axes R :=
  let plans := r.plans.filter fun p => !p.samples.isEmpty
  let limit := graph.elim [] (·.limit)
  { title := "(b) Speed profile"
    xLabel := "Distance (m)"
    yLabel := "Speed (m/s)"
    lines := (plans.map fun p => ⟨p.name, p.samples.map fun q => (q.s, q.v)⟩) ++
      if limit.isEmpty then [] else [⟨"smoothed speed limit", limit⟩]
    fills := [] }

/-- The two diagrams of a recording, with the graph of the given name. -/
def chart (r : Recording R) (name : Option String) : Outcome R (List (Axes R)) :=
  if r.isEmpty then do
    Outcome.tell (.plain .warning "No diagnostics recorded, nothing to plot")
    pure []
  else
    let graph := r.chosenGraph name
    pure [r.timeAxes graph, r.distanceAxes graph]

end Recording

end JerkPlan
