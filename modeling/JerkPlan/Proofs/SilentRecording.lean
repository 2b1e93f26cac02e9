import JerkPlan.Proofs.CycleCompletes

/-!
# Recording in silence

Looking at a cycle does not change it.

Two runs of a cycle are compared that differ in nothing but their recordings:
one may have none, and what the recordings hold from earlier cycles may be
anything. Every part of a cycle hands its recording on to the next, and the
parts that record do so in the middle of those that can fail, so that it has to
be said of each part that its two runs are alike. `CyclePart.Alike.andThen` is
what makes this a matter of the parts alone.

Of all that is recorded only the convex plan asks for a computation that may
fail, a division by the step. The check of the settings has seen to that, in
rounded arithmetic as in exact arithmetic.

## Main definitions

* `CyclePart.Alike`, `CycleReport.Alike`: The same but for the recordings.

## Theorems

* `CyclePart.Alike.andThen`: Sequences of parts that are alike.
* `Planner.firstPlan_alike`, `Planner.refinedProfile_alike`,
  `Planner.secondPlan_alike`, `Planner.improve_alike`,
  `Planner.finalPlan_alike`, `Planner.run_alike`: The parts of a cycle.
* `Planner.cycle_alike`: A whole cycle.
-/

namespace JerkPlan

/-- Two parts with the same notices, the same use of the lock and the same
    result, whatever they record. -/
structure CyclePart.Alike {R α : Type} (x y : CyclePart R α) : Prop where
  notices : x.notices = y.notices
  lock : x.lock = y.lock
  result : x.result = y.result

/-- Two cycles with the same notices, the same use of the lock, the same buffer
    and the same result, whatever they record. -/
structure CycleReport.Alike {R : Type} (x y : CycleReport R) : Prop where
  notices : x.notices = y.notices
  lock : x.lock = y.lock
  buffer : x.buffer = y.buffer
  result : x.result = y.result

namespace CyclePart

variable {R α β : Type}

/-- A step that does not record is the same for all recordings. -/
theorem alike_ofOutcome (x : Outcome R α) (recording recording' : Option (Recording R)) :
    (ofOutcome recording x).Alike (ofOutcome recording' x) := ⟨rfl, rfl, rfl⟩

/-- Sequences are alike if their parts are, the second ones for any two
    recordings. -/
theorem Alike.andThen {x y : CyclePart R α} (h : x.Alike y)
    {f : Option (Recording R) → α → CyclePart R β}
    (hf : ∀ recording recording' a, (f recording a).Alike (f recording' a)) :
    (x.andThen f).Alike (y.andThen f) := by
  unfold CyclePart.andThen
  rw [h.notices, h.lock, h.result]
  rcases y.result with e | a
  · exact ⟨rfl, rfl, rfl⟩
  · have ha := hf x.recording y.recording a
    exact ⟨congrArg (y.notices ++ ·) ha.notices, congrArg (y.lock ++ ·) ha.lock, ha.result⟩

end CyclePart

variable {R : Type} [Scalar R]

namespace Planner

variable {p : Planner R} {s : Stages R} {path : Path R} {h : Horizon R} {limit : SpeedLimit R}
  {x : Surroundings R}

/-- The corridor is recorded after everything that leads to it. -/
theorem firstPlan_alike (rough : SpeedSeries R) (recording recording' : Option (Recording R)) :
    (p.firstPlan s rough x recording).Alike (p.firstPlan s rough x recording') := by
  unfold firstPlan
  rcases hh : (p.horizon rough x).result with e | h
  · simp only [hh]
    exact ⟨rfl, rfl, rfl⟩
  rcases hk : (s.convex h rough).result with e | k
  · simp only [hh, hk]
    exact ⟨rfl, rfl, rfl⟩
  · simp only [hh, hk]
    exact ⟨rfl, rfl, rfl⟩

theorem refinedProfile_alike (k : KnotProfile R) (recording recording' : Option (Recording R)) :
    (p.refinedProfile s path h limit k recording).Alike
      (p.refinedProfile s path h limit k recording') := by
  refine (CyclePart.alike_ofOutcome _ _ _).andThen fun _ _ kappa => ?_
  refine (CyclePart.alike_ofOutcome _ _ _).andThen fun _ _ bound => ?_
  refine (CyclePart.alike_ofOutcome _ _ _).andThen fun _ _ problem => ?_
  exact ⟨rfl, rfl, rfl⟩

/-- A failure is recovered from with and without a recording. -/
theorem secondPlan_alike (c : Checkpoint R) (recording recording' : Option (Recording R)) :
    (p.secondPlan s path h limit c recording).Alike
      (p.secondPlan s path h limit c recording') := by
  have hsame : (p.refinedProfile s path h limit c.profile recording).Alike
      (p.refinedProfile s path h limit c.profile recording') := refinedProfile_alike _ _ _
  unfold secondPlan
  simp only [hsame.notices, hsame.lock, hsame.result]
  split
  · exact ⟨rfl, rfl, rfl⟩
  · split
    · exact ⟨rfl, rfl, rfl⟩
    · exact ⟨rfl, rfl, rfl⟩
  · exact ⟨rfl, rfl, rfl⟩

theorem improve_alike (c : Checkpoint R) (recording recording' : Option (Recording R)) :
    (p.improve s path h limit c recording).Alike (p.improve s path h limit c recording') := by
  unfold improve
  split
  · exact ⟨rfl, rfl, rfl⟩
  refine (CyclePart.alike_ofOutcome _ _ _).andThen fun _ _ within => ?_
  split
  · exact (secondPlan_alike _ _ _).andThen fun _ _ c => ⟨rfl, rfl, rfl⟩
  · exact ⟨rfl, rfl, rfl⟩

/-- Recording the convex plan cannot fail, so that it goes on in the same way
    without. -/
theorem finalPlan_alike (hstep : same h.step 0 = false) (k : KnotProfile R)
    (recording recording' : Option (Recording R)) :
    (p.finalPlan s path h limit k recording).Alike
      (p.finalPlan s path h limit k recording') := by
  have hsame : ∃ samples, ∀ recording : Option (Recording R),
      p.finalPlan s path h limit k recording = p.improve s path h limit _
        (recording.map (·.addPlan "qp_speed" samples)) := finalPlan_eq hstep k
  rcases hsame with ⟨samples, hrecorded⟩
  rw [hrecorded, hrecorded]
  exact improve_alike _ _ _

theorem run_alike (hp : p.settings.checked = .ok p.settings) (before : SpeedSeries R)
    (recording recording' : Option (Recording R)) :
    (p.run s path before x recording).Alike (p.run s path before x recording') := by
  have hfirst : (p.firstPlan s before.copy x recording).Alike
      (p.firstPlan s before.copy x recording') := firstPlan_alike _ _ _
  unfold run
  rcases hplan : (p.firstPlan s before.copy x recording').result with e | ⟨h, k⟩
  · simp only [hfirst.result, hplan]
    exact ⟨hfirst.notices, hfirst.lock, rfl, rfl⟩
  have hstep := horizon_step hp (firstPlan_ok hplan).1
  have hfinal : (p.finalPlan s path h x.limit k
      (p.firstPlan s before.copy x recording).recording).Alike
      (p.finalPlan s path h x.limit k (p.firstPlan s before.copy x recording').recording) :=
    finalPlan_alike hstep _ _ _
  simp only [hfirst.notices, hfirst.lock, hfirst.result, hplan, hfinal.notices, hfinal.lock,
    hfinal.result]
  -- Only what is published is left, and that depends on the checkpoint alone.
  split
  · exact ⟨rfl, rfl, rfl, rfl⟩
  · split
    · exact ⟨rfl, rfl, rfl, rfl⟩
    · exact ⟨rfl, rfl, rfl, rfl⟩

/-- A cycle with checked settings ends in the same way for any two recordings,
    none included: with the same result or the same failure, the same buffer,
    the same notices and the same use of the lock, whatever its solvers
    answer. -/
theorem cycle_alike (hp : p.settings.checked = .ok p.settings) (s : Stages R)
    (path : Option (Path R)) (buffer : Option (SpeedSeries R)) (x : Surroundings R)
    (recording recording' : Option (Recording R)) :
    (p.cycle s path buffer x recording).Alike (p.cycle s path buffer x recording') := by
  unfold cycle
  split
  · exact ⟨rfl, rfl, rfl, rfl⟩
  · exact ⟨rfl, rfl, rfl, rfl⟩
  · exact ⟨rfl, rfl, rfl, rfl⟩
  · split
    · exact ⟨rfl, rfl, rfl, rfl⟩
    · exact run_alike hp _ _ _

end Planner

/-! A ride that is watched -/

/-- The ride on an empty road, into a recording. -/
def watchedRide (recording : Option (Recording Rat)) : Call Rat where
  stages :=
    { rider.stages (.knowing ⟨[0, 1], [1, 1], [0, 0]⟩)
        (.knowing fun j => ([0, 7 / 6, 1, 3 / 2, 0, 1][j]?).getD 0) with
      curvature := fun _ => pure (.ofStart ⟨0, 0, 0⟩)
      limit := fun _ => pure (.ofStart ⟨5, 0, 0⟩) }
  path := some ⟨[⟨0, 0, 0, 0, 0, 0, 0⟩]⟩
  buffer := some ⟨[⟨0, 0, 1, 0, 0⟩, ⟨10, 10, 1, 0, 0⟩]⟩
  surroundings := openRoad
  recording := recording

/-- A recording with a graph in it changes in a ride, and the ride does not. -/
theorem Planner.cycle_alike_ride :
    ((rider.answer (watchedRide (some ⟨[], [⟨"earlier", [], []⟩]⟩))).recording.map fun r =>
        (r.plans.map (·.name), r.graphs.map (·.limit))) =
      some (["qp_speed"], [[(0, 5), (10, 5)]]) ∧
    (rider.answer (watchedRide (some ⟨[], [⟨"earlier", [], []⟩]⟩))).Alike ride :=
  ⟨by decide +kernel, cycle_alike rider_checked.settings _ _ _ _ _ _⟩

end JerkPlan
