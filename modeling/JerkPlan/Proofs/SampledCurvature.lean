import JerkPlan.Proofs.FittedLimits
import JerkPlan.Proofs.InverseReadings

/-!
# Sampled curvature

How much of a path is seen when its curvature is sampled, and what is seen of it.

Sampling goes on until a spacing past the last point, so that the last stretch of a path
is sampled whether or not its length is a multiple of the spacing. One sample is at the
last point or less than a spacing beyond it, and it is the last one. A curve through the
samples has a segment between each two of them, hence it is as long as the path.

What is seen is read off the path, where a halving search leads to a point. `Path.Reads`
says without the search what a quantity is at a distance. Beyond the ends it is that of
the end points. On a path in order of distance only one pair of neighbours has a distance
in between, and the quantity is on the straight line from the one to the other. A sample
is therefore never outside of what the points say.

## Main definitions

* `PathPoint.quantities`: What a point tells.
* `Path.Reads`: What a quantity is at a distance.

## Theorems

* `Path.reads_lerp`: Interpolation between two neighbours is such a reading.
* `Path.pointAt_reads`: All quantities of the point that the search leads to are.
* `Path.Reads.among`: A reading is not outside of what the points say.
* `fitCurvature_of_answer`: A curve through the samples is rebuilt from an accepted answer.
* `sampleCurvature_covers`: Samples of the curvature, and how far a curve through them goes.
-/

namespace JerkPlan

variable {R : Type} [ExactScalar R]

/-! Readings of a path -/

/-- What a point of a path tells of its place. -/
def PathPoint.quantities : List (PathPoint R → R) :=
  [(·.x), (·.y), (·.theta), (·.kappa), (·.dkappa), (·.ddkappa)]

namespace Path

/-- What a quantity of a path is at a distance: up to the first point that of the first
    point, and beyond the last point that of the last. Every other distance comes after
    one point and not after the next. There the quantity is on the straight line from the
    one to the other, or that of the first if the two are practically at one place. -/
inductive Reads (path : Path R) (value : PathPoint R → R) (s : R) : R → Prop
  | front {p : PathPoint R} (hp : path.points.head? = some p) (hs : s ≤ p.s) :
      Reads path value s (value p)
  | inside {i : Nat} {p q : PathPoint R} (hp : path.points[i]? = some p)
      (hq : path.points[i + 1]? = some q) (hafter : p.s < s) (hbefore : s ≤ q.s)
      (hapart : decimal 1 10 < q.s - p.s) :
      Reads path value s (value p + (s - p.s) / (q.s - p.s) * (value q - value p))
  | close {i : Nat} {p q : PathPoint R} (hp : path.points[i]? = some p)
      (hq : path.points[i + 1]? = some q) (hafter : p.s < s) (hbefore : s ≤ q.s)
      (hclose : q.s - p.s ≤ decimal 1 10) : Reads path value s (value p)
  | beyond {p : PathPoint R} (hp : path.points.getLast? = some p) (hs : p.s < s) :
      Reads path value s (value p)

variable {path : Path R} {value : PathPoint R → R} {s x : R}

/-- Interpolation between the neighbours of a distance is what is read there. -/
theorem reads_lerp {i : Nat} {p q : PathPoint R} (hp : path.points[i]? = some p)
    (hq : path.points[i + 1]? = some q) (hafter : p.s < s) (hbefore : s ≤ q.s) :
    path.Reads value s (lerp (value p) p.s (value q) q.s s) := by
  by_cases hapart : decimal 1 10 < q.s - p.s
  · rw [lerp_of_apart _ _ _ hapart]
    exact .inside hp hq hafter hbefore hapart
  · have hclose : q.s - p.s ≤ decimal 1 10 := not_lt.mp hapart
    have hnear : magnitude (q.s - p.s) ≤ decimal 1 10 := by
      rw [magnitude_eq_abs, abs_of_pos (sub_pos.mpr (hafter.trans_le hbefore))]
      exact hclose
    rw [lerp, if_pos hnear]
    exact .close hp hq hafter hbefore hclose

/-- All quantities of a point between two others are interpolated alike. -/
theorem between_quantity (hvalue : value ∈ PathPoint.quantities) (p q : PathPoint R) (s : R) :
    value (between p q s) = lerp (value p) p.s (value q) q.s s := by
  simp only [PathPoint.quantities, List.mem_cons, List.not_mem_nil, or_false] at hvalue
  rcases hvalue with rfl | rfl | rfl | rfl | rfl | rfl
  all_goals rfl

/-- On a path in order of distance the search leads to a point with the quantities that
    are read there. -/
theorem pointAt_reads (hpath : path.points ≠ [])
    (horder : path.points.Pairwise fun p q => p.s ≤ q.s) (s : R) :
    ∃ q, path.pointAt s = .ok q ∧
      ∀ value ∈ PathPoint.quantities, path.Reads value s (value q) := by
  have hpos : 0 < path.points.length := List.length_pos_iff.mpr hpath
  have hsorted : (path.points.map (·.s)).Pairwise (· ≤ ·) := List.pairwise_map.mpr horder
  have hsearch (j : Nat) (p : PathPoint R) (hp : path.points[j]? = some p) :
      p.s < s ↔ j < lowerIndex (path.points.map (·.s)) s :=
    lowerIndex_lt_iff hsorted s (by rw [List.getElem?_map, hp, Option.map_some])
  have hle := lowerIndex_le (path.points.map (·.s)) s
  rw [List.length_map] at hle
  have hget (j : Nat) (hj : j < path.points.length) :
      path.points[j]? = some path.points[j] := List.getElem?_eq_getElem hj
  unfold pointAt
  simp only
  generalize lowerIndex (path.points.map (·.s)) s = i at hsearch hle
  rcases Nat.eq_zero_or_pos i with rfl | hi
  · -- The search stays where it begins if the first point is not before the distance.
    have hfirst : path.points.head? = some path.points[0] := by
      rw [List.head?_eq_getElem?, hget 0 hpos]
    have hnot : ¬ path.points[0].s < s := by
      rw [hsearch 0 _ (hget 0 hpos)]
      omega
    simp only [Nat.zero_sub, hget 0 hpos, if_true]
    exact ⟨_, rfl, fun _ _ => .front hfirst (not_lt.mp hnot)⟩
  · have hbefore : path.points[i - 1].s < s := by
      rw [hsearch (i - 1) _ (hget (i - 1) (by omega))]
      omega
    rcases Nat.lt_or_eq_of_le hle with hinside | hend
    · have hnot : ¬ path.points[i].s < s := by
        rw [hsearch i _ (hget i hinside)]
        omega
      have hnext : path.points[i - 1 + 1]? = some path.points[i] := by
        rw [Nat.sub_add_cancel hi, hget i hinside]
      simp only [hget (i - 1) (by omega), hget i hinside, if_neg hi.ne']
      refine ⟨_, rfl, fun value hvalue => ?_⟩
      rw [between_quantity hvalue]
      exact reads_lerp (hget (i - 1) (by omega)) hnext hbefore (not_lt.mp hnot)
    · -- It goes to the end if all points are before the distance.
      have hnone : path.points[i]? = none := List.getElem?_eq_none hend.ge
      have hlast : path.points.getLast? = some path.points[i - 1] := by
        rw [List.getLast?_eq_getElem?, show path.points.length - 1 = i - 1 by omega,
          hget (i - 1) (by omega)]
      simp only [hget (i - 1) (by omega), hnone]
      exact ⟨_, rfl, fun _ _ => .beyond hlast hbefore⟩

/-- A reading of a path is not outside of what its points say. -/
theorem Reads.among (h : path.Reads value s x) :
    (∃ p ∈ path.points, value p ≤ x) ∧ ∃ p ∈ path.points, x ≤ value p := by
  cases h with
  | front hp hs =>
      have hmem := List.mem_of_head? hp
      exact ⟨⟨_, hmem, le_rfl⟩, _, hmem, le_rfl⟩
  | inside hp hq hafter hbefore hapart =>
      rw [← lerp_of_apart _ _ _ hapart]
      exact lerp_among (List.mem_of_getElem? hp) (List.mem_of_getElem? hq) value hafter.le hbefore
  | close hp hq hafter hbefore hclose =>
      have hmem := List.mem_of_getElem? hp
      exact ⟨⟨_, hmem, le_rfl⟩, _, hmem, le_rfl⟩
  | beyond hp hs =>
      have hmem := List.mem_of_getLast? hp
      exact ⟨⟨_, hmem, le_rfl⟩, _, hmem, le_rfl⟩

/-- The length of a path is the way from its first point to its last. -/
theorem length_eq {first last : PathPoint R} (hfirst : path.points.head? = some first)
    (hlast : path.points.getLast? = some last) : path.length = last.s - first.s := by
  rw [length, hfirst, hlast]

end Path

/-! The curve of the samples -/

/-- The curve of a path's curvature is rebuilt from any accepted answer, with a segment for
    each two neighbouring samples. -/
theorem fitCurvature_of_answer {solve : ConvexSolver R} (hsolve : solve.Sized) {path : Path R}
    {f : FitSettings R} {samples : List R} (hsamples : sampleCurvature path f.spacing = .ok samples)
    {first : PathPoint R} (hfirst : path.front = .ok first) (hmany : 2 ≤ samples.length)
    {q : KnotProblem R}
    (hq : fitProblem samples ⟨first.kappa, first.dkappa, first.ddkappa⟩ f = .ok q)
    {answer : ConvexAnswer R} (hanswer : solve f.budget q = .ok answer)
    (haccepted : answer.status.accepted = true) :
    ∃ c, (fitCurvature solve path f).result = .ok c ∧ c.Even f.spacing ∧
      c.segments.length + 1 = samples.length := by
  have hfor := fitProblem_for hq
  have hknots := hfor.two_le_knots
  rcases rebuild_even (hfor.step ▸ hfor.step_pos) (by omega : 0 < q.knots)
    (hsolve _ _ _ hanswer haccepted) with ⟨c, hc, heven, hlength, _⟩
  refine ⟨c, ?_, heven, hlength.trans hfor.knots⟩
  exact Outcome.bind_ok_iff.mpr ⟨samples, hsamples, Outcome.bind_ok_iff.mpr ⟨first, hfirst,
    fitCurve_of_answer "path curvature" hmany hq hanswer haccepted hc⟩⟩

/-- Along a path in order of distance there is a sample of the curvature at the first point
    and after each spacing, up to the first one that is not before the last point. Each is
    the curvature that is read off the path there, on the line between two points or that
    of the last point for a sample beyond it, and none is outside of what the points say.
    With two samples or more
    there is a problem to fit a curve, and any answer to it that is accepted leads to a
    curve that is as long as the path or longer. -/
theorem sampleCurvature_covers {path : Path R} (hpath : path.points ≠ [])
    (horder : path.points.Pairwise fun p q => p.s ≤ q.s) {spacing : R} (hspacing : 0 < spacing) :
    ∃ first last samples, path.front = .ok first ∧ path.back = .ok last ∧
      sampleCurvature path spacing = .ok samples ∧ 1 ≤ samples.length ∧
      last.s ≤ first.s + ((samples.length - 1 : Nat) : R) * spacing ∧
      first.s + ((samples.length - 1 : Nat) : R) * spacing < last.s + spacing ∧
      (∀ (i : Nat) kappa, samples[i]? = some kappa →
        (∃ q, path.pointAt (first.s + (i : R) * spacing) = .ok q ∧ q.kappa = kappa) ∧
        path.Reads (·.kappa) (first.s + (i : R) * spacing) kappa ∧
        (∃ p ∈ path.points, p.kappa ≤ kappa) ∧ ∃ p ∈ path.points, kappa ≤ p.kappa) ∧
      ∀ f : FitSettings R, f.spacing = spacing → 2 ≤ samples.length →
        ∃ q, fitProblem samples ⟨first.kappa, first.dkappa, first.ddkappa⟩ f = .ok q ∧
          ∀ (solve : ConvexSolver R) answer, solve.Sized → solve f.budget q = .ok answer →
            answer.status.accepted = true → ∃ c, (fitCurvature solve path f).result = .ok c ∧
              c.length = ((samples.length - 1 : Nat) : R) * spacing ∧ path.length ≤ c.length := by
  rcases Path.ends hpath with ⟨first, last, hfront, hback, hfirst, hlast⟩
  rcases sampleCurvature_eq hpath hfront hback hspacing with
    ⟨samples, hsamples, hbefore, hcovers, hentries⟩
  have hforward : first.s ≤ last.s :=
    rising_first_le horder hfirst (List.mem_of_getLast? hlast)
  -- The first place is before the end of the loop, so there is a sample.
  rcases hlength : samples.length with _ | n
  · rw [hlength, Nat.cast_zero, zero_mul, add_zero] at hcovers
    exact absurd hcovers (not_le.mpr (hforward.trans_lt (lt_add_of_pos_right _ hspacing)))
  have hreach : last.s ≤ first.s + (n : R) * spacing := by
    rw [hlength, Nat.cast_add, Nat.cast_one] at hcovers
    linarith
  refine ⟨first, last, samples, hfront, hback, hsamples, ?_⟩
  rw [hlength, Nat.add_sub_cancel]
  refine ⟨Nat.le_add_left 1 n, hreach, hbefore n (by omega), fun i kappa hi => ?_,
    fun f hf hmany => ?_⟩
  · rcases hentries i kappa hi with ⟨q, hq, rfl⟩
    rcases Path.pointAt_reads hpath horder (first.s + (i : R) * spacing) with ⟨q', hq', hreads⟩
    obtain rfl : q = q' := Except.ok.inj (hq.symm.trans hq')
    have hkappa := hreads (·.kappa) (by simp [PathPoint.quantities])
    exact ⟨⟨q, hq, rfl⟩, hkappa, hkappa.among⟩
  · -- One segment less than there are samples reaches from the first place to the last.
    subst hf
    rcases fitProblem_total (⟨first.kappa, first.dkappa, first.ddkappa⟩ : Motion R)
      (hlength ▸ hmany) hspacing with ⟨q, hq⟩
    refine ⟨q, hq, fun solve answer hsolve hanswer haccepted => ?_⟩
    rcases fitCurvature_of_answer hsolve hsamples hfront (hlength ▸ hmany) hq hanswer haccepted
      with ⟨c, hc, heven, hsegments⟩
    have hwhole : c.length = (n : R) * f.spacing := by
      rw [heven.length_eq, show c.segments.length = n by omega]
    refine ⟨c, hc, hwhole, ?_⟩
    rw [Path.length_eq hfirst hlast, hwhole]
    linarith

/-- A path of three metres and a half with a kink at two points of one distance. -/
def kinkedPath : Path Rat :=
  ⟨[⟨0, 0, 0, 0, 0, 0, 1⟩, ⟨2, 0, 0, 2, 0, 0, 3⟩, ⟨2, 0, 1, 4, 0, 0, 3⟩,
    ⟨3, 1, 1, 1, 0, 0, 9 / 2⟩]⟩

/-- Samples a metre and a half apart. The second one and the third one are between two
    points, three quarters and two thirds of the way to the next, and the last one is a
    metre beyond the path. -/
theorem sampleCurvature_covers_kinkedPath : kinkedPath.points ≠ [] ∧
    kinkedPath.points.Pairwise (fun p q => p.s ≤ q.s) ∧ (0 : Rat) < 3 / 2 ∧
    ∃ samples, sampleCurvature kinkedPath (3 / 2) = .ok samples ∧ samples = [0, 3 / 2, 2, 1] ∧
      kinkedPath.Reads (·.kappa) (1 + ((1 : Nat) : Rat) * (3 / 2)) (0 + 3 / 4 * (2 - 0)) ∧
      kinkedPath.Reads (·.kappa) (1 + ((2 : Nat) : Rat) * (3 / 2)) (4 + 2 / 3 * (1 - 4)) ∧
      ∃ c, (fitCurvature .level kinkedPath { FitSettings.curvature with spacing := 3 / 2 }).result =
        .ok c ∧ kinkedPath.length ≤ c.length := by
  have hpath : kinkedPath.points ≠ [] := List.cons_ne_nil _ _
  have horder : kinkedPath.points.Pairwise fun p q => p.s ≤ q.s := by decide +kernel
  have hspacing : (0 : Rat) < 3 / 2 := by decide +kernel
  rcases sampleCurvature_covers hpath horder hspacing with
    ⟨first, last, samples, hfirst, hlast, hsamples, _, _, _, hreads, hcurve⟩
  have hfour : (sampleCurvature kinkedPath (3 / 2)).toOption = some [0, 3 / 2, 2, 1] := by
    decide +kernel
  rw [hsamples] at hfour
  have hvalues : samples = [0, 3 / 2, 2, 1] := Option.some.inj hfour
  have hstart : first.s = 1 := by rw [← Except.ok.inj hfirst]
  rw [hstart] at hreads
  have hsecond := (hreads 1 (0 + 3 / 4 * (2 - 0)) (by rw [hvalues]; norm_num)).2.1
  have hthird := (hreads 2 (4 + 2 / 3 * (1 - 4)) (by rw [hvalues]; norm_num)).2.1
  have hmany : 2 ≤ samples.length := by
    rw [hvalues]
    decide
  rcases hcurve { FitSettings.curvature with spacing := 3 / 2 } rfl hmany with ⟨q, hq, hfit⟩
  rcases hfit .level _ ConvexSolver.dependable_level.shaped (if_neg (by decide)) rfl with
    ⟨c, hc, _, hreach⟩
  exact ⟨hpath, horder, hspacing, samples, hsamples, hvalues, hsecond, hthird, c, hc, hreach⟩

end JerkPlan
