import JerkPlan.Planner

/-!
# Cycles

One cycle of planning: from the buffer's rough motion, a path and the
surroundings, to the motion left in the buffer. It makes the convex plan and
then tries to refine it. What goes wrong before there is a convex plan ends
the cycle, and a failure of a stage empties the buffer; what goes wrong in the
refinement, as far as it can be recovered from, leaves the convex plan in
force. Without a buffer, without a path, and at the end of the journey nothing
is planned and the buffer stays as it is.

A cycle is a function of all that goes into it, and `CycleReport` is all that
comes out: the buffer, the recording, the notices, what happened to the lock,
and the result or failure.

## Main definitions

* `CycleStage`: The stages a cycle goes through.
* `CycleResult`: What a cycle that ends well tells.
* `CycleReport`: All that comes out of a cycle.
* `Planner.firstPlan`: From the horizon to the convex plan.
* `Planner.secondPlan`: The refinement.
* `Planner.run`: A cycle that is not refused.
* `Planner.cycle`: A whole cycle.
-/

namespace JerkPlan

/-- The stages a cycle goes through. -/
inductive CycleStage
  | start
  | boundsBuilt
  | convexSolved
  | refinementAttempted
  | refinementSkipped
  | done
  | failed
deriving DecidableEq

/-- The name of a stage. -/
def CycleStage.name : CycleStage → String
  | start => "init"
  | boundsBuilt => "bounds_built"
  | convexSolved => "qp_solved"
  | refinementAttempted => "nlp_attempted"
  | refinementSkipped => "nlp_skipped"
  | done => "done"
  | failed => "failed"

/-- The stages of a cycle, whether its refinement was taken, why not, and the
    horizon it planned for. -/
structure CycleResult (R : Type) where
  stages : List CycleStage
  upgraded : Bool
  reason : Option String
  horizon : Option (Horizon R)

/-- A part of a cycle: its result, the notices issued, what happened to the
    lock, and the recording as it is afterwards. -/
structure CyclePart (R α : Type) where
  notices : List (Notice R)
  lock : List LockEvent
  recording : Option (Recording R)
  result : Except (Failure R) α

/-- All that comes out of a cycle. -/
structure CycleReport (R : Type) where
  notices : List (Notice R)
  lock : List LockEvent
  recording : Option (Recording R)
  buffer : Option (SpeedSeries R)
  result : Except (Failure R) (CycleResult R)

variable {R : Type} [Scalar R]

namespace CyclePart

variable {α β : Type}

/-- A part that records nothing and leaves the lock alone. -/
def ofOutcome (recording : Option (Recording R)) (x : Outcome R α) : CyclePart R α :=
  ⟨x.notices, [], recording, x.result⟩

/-- Go on after a part. -/
def andThen (x : CyclePart R α) (f : Option (Recording R) → α → CyclePart R β) :
    CyclePart R β :=
  match x.result with
  | .ok a =>
    let y := f x.recording a
    ⟨x.notices ++ y.notices, x.lock ++ y.lock, y.recording, y.result⟩
  | .error e => ⟨x.notices, x.lock, x.recording, .error e⟩

end CyclePart

namespace Planner

/-- The notice of a stage that ends a cycle, after the last stage reached. -/
def failureNotice (reached : CycleStage) : Failure R → List (Notice R)
  | .stage c =>
    [.plain .error ("speed optimization failed at " ++ reached.name ++ ": " ++ c.reason)]
  | _ => []

/-- From the horizon to the convex plan, the corridor recorded in between. A
    stage that fails is noted with the last stage reached. -/
def firstPlan (p : Planner R) (s : Stages R) (rough : SpeedSeries R) (x : Surroundings R)
    (recording : Option (Recording R)) : CyclePart R (Horizon R × KnotProfile R) :=
  let h := p.horizon rough x
  match h.result with
  | .error e => ⟨h.notices ++ failureNotice .start e, [], recording, .error e⟩
  | .ok horizon =>
    let recording := recording.map (·.recordCorridor Planner.name horizon x.brake)
    let plan := s.convex horizon rough
    match plan.result with
    | .error e =>
      ⟨h.notices ++ plan.notices ++ failureNotice .boundsBuilt e, [], recording, .error e⟩
    | .ok k => ⟨h.notices ++ plan.notices, [], recording, .ok (horizon, k)⟩

/-- The refined profile: both curves, the limit recorded, the problem, and the
    solver under its lock. -/
def refinedProfile (p : Planner R) (s : Stages R) (path : Path R) (h : Horizon R)
    (limit : SpeedLimit R) (plan : KnotProfile R) (recording : Option (Recording R)) :
    CyclePart R (KnotProfile R) :=
  (CyclePart.ofOutcome recording (s.curvature path)).andThen fun recording kappa =>
    (CyclePart.ofOutcome recording (s.limit limit)).andThen fun recording bound =>
      let recording := recording.map (·.recordLimit limit bound)
      (CyclePart.ofOutcome recording (p.refinement h plan kappa bound)).andThen
        fun recording problem =>
          let (lock, refined) := s.refine problem
          ⟨refined.notices, lock, recording, refined.result⟩

/-- The refinement of a checkpoint. A failure that can be recovered from keeps
    the profile there is. -/
def secondPlan (p : Planner R) (s : Stages R) (path : Path R) (h : Horizon R)
    (limit : SpeedLimit R) (c : Checkpoint R) (recording : Option (Recording R)) :
    CyclePart R (Checkpoint R) :=
  let x := p.refinedProfile s path h limit c.profile recording
  match x.result with
  | .ok k => { x with result := .ok (c.upgrade k "nlp") }
  | .error (.stage e) =>
    if e.recoverable then
      { x with
        notices := x.notices ++
          [.plain .error ("nlp speed optimizer fail, keep qp result: " ++ e.reason)]
        result := .ok (c.keep e.reason) }
    else { x with result := .error (.stage e) }
  | .error e => { x with result := .error e }

/-- The decision whether to refine, and the refinement where it is tried. -/
def improve (p : Planner R) (s : Stages R) (path : Path R) (h : Horizon R)
    (limit : SpeedLimit R) (c : Checkpoint R) (recording : Option (Recording R)) :
    CyclePart R (CycleStage × Checkpoint R) :=
  if !p.comfort.refine then
    ⟨[], [], recording,
      .ok (.refinementSkipped, c.keep "nonlinear speed optimization disabled")⟩
  else
    (CyclePart.ofOutcome recording (startsWithinLimit h limit)).andThen fun recording within =>
      if within then
        (p.secondPlan s path h limit c recording).andThen fun recording c =>
          ⟨[], [], recording, .ok (.refinementAttempted, c)⟩
      else
        ⟨[], [], recording,
          .ok (.refinementSkipped, c.keep "speed limit at start below initial speed")⟩

/-- What follows the convex plan: it is recorded, and improved if possible. -/
def finalPlan (p : Planner R) (s : Stages R) (path : Path R) (h : Horizon R)
    (limit : SpeedLimit R) (k : KnotProfile R) (recording : Option (Recording R)) :
    CyclePart R (CycleStage × Checkpoint R) :=
  let recorded : Except (Failure R) (Option (Recording R)) :=
    match recording with
    | none => .ok none
    | some r => (r.recordConvex k h.step).map some
  match recorded with
  | .error e => ⟨[], [], recording, .error e⟩
  | .ok recording => p.improve s path h limit { profile := k, stage := "qp" } recording

/-- The buffer with a checkpoint's profile, continued for as long as comfort
    demands, and what went wrong if it is not complete. -/
def fillBuffer (p : Planner R) (h : Horizon R) (c : Checkpoint R) :
    SpeedSeries R × Option (Failure R) :=
  match publish c.profile h.step with
  | (d, some e) => (d, some e)
  | (d, none) =>
    match d.fill p.comfort.publishTime p.comfort.publishUnit with
    | .ok d => (d, none)
    | .error e => (d, some e)

/-- The buffer after a cycle that ends before its convex plan: emptied by a
    stage that fails, untouched by anything else. -/
def bufferAfter (before : SpeedSeries R) : Failure R → SpeedSeries R
  | .stage _ => .empty
  | _ => before

/-- A cycle with a buffer and a path, on the way to somewhere. -/
def run (p : Planner R) (s : Stages R) (path : Path R) (before : SpeedSeries R)
    (x : Surroundings R) (recording : Option (Recording R)) : CycleReport R :=
  let first := p.firstPlan s before.copy x recording
  match first.result with
  | .error e =>
    ⟨first.notices, first.lock, first.recording, some (bufferAfter before e), .error e⟩
  | .ok (h, k) =>
    let final := p.finalPlan s path h x.limit k first.recording
    let report := CycleReport.mk (first.notices ++ final.notices) (first.lock ++ final.lock)
      final.recording
    match final.result with
    | .error e => report (some before) (.error e)
    | .ok (stage, c) =>
      match p.fillBuffer h c with
      | (d, some e) => report (some d) (.error e)
      | (d, none) =>
        report (some d)
          (.ok ⟨[.start, .boundsBuilt, .convexSolved, stage, .done], c.upgraded, c.reason, some h⟩)

/-- A cycle that does not begin. -/
def refuse (buffer : Option (SpeedSeries R)) (recording : Option (Recording R))
    (words : String) : CycleReport R :=
  ⟨[.plain .error words], [], recording, buffer, .error (.stage (.input words))⟩

/-- A whole cycle. -/
def cycle (p : Planner R) (s : Stages R) (path : Option (Path R))
    (buffer : Option (SpeedSeries R)) (x : Surroundings R)
    (recording : Option (Recording R)) : CycleReport R :=
  match buffer, path with
  | none, _ => refuse buffer recording "Null speed_data pointer"
  | some _, none | some _, some ⟨[]⟩ =>
    refuse buffer recording "Speed Optimizer receives empty path data"
  | some before, some path =>
    if x.arrived then
      ⟨[], [], recording, buffer, .ok ⟨[.start, .done], false, none, none⟩⟩
    else p.run s path before x recording

end Planner

end JerkPlan
