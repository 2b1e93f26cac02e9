import JerkPlan.Proofs.SilentRecording

/-!
# Earlier records

What cycles that share a recording leave of each other's records.

A cycle adds to its recording: the emergency stop and a graph of the corridor
before there is a plan, the convex plan, and later the fitted limit. The limit
goes into the latest graph, and that is the cycle's own only if the cycle has
added one. A cycle without an emergency stop adds none. If it gets as far as
the fits, its limit ends up in the graph of a cycle before it.

`answer_records` says once what a cycle can do to its recording. From it
follows which cycles keep all earlier records, namely all but those of
`Planner.Rewrites`, and what even those keep. A whole history is then an
induction on its cycles, and what is kept can be composed.

## Main definitions

* `Surroundings.Stops`: There is an emergency stop to leave room for.
* `Recording.Extends`: All records are kept, and others follow.
* `GraphRecord.Continues`, `GraphRecord.followedBy`: A graph whose limit goes on.
* `Recording.Retains`: What is kept in any case.
* `Planner.Rewrites`: A call that writes into the graph of an earlier one.
* `Planner.History`: Calls that share a recording.

## Theorems

* `Recording.Extends.trans`, `Recording.Retains.trans`: What is kept twice is kept.
* `Recording.graphs_recordLimit`: The limit goes into the latest graph.
* `Planner.answer_records`: What a call does to its recording.
* `Planner.answer_extends_iff`: When it keeps all records, and what it does to
  them otherwise.
* `Planner.history_records`: What a history keeps.
* `Planner.history_rewritten`: A record that is changed.
-/

namespace JerkPlan

variable {R : Type}

/-- There is an emergency stop to leave room for. -/
def Surroundings.Stops (x : Surroundings R) : Prop := ∃ b, x.brake = some b ∧ b.samples ≠ []

/-- A graph with the same outlines, whose limit begins with that of another. -/
structure GraphRecord.Continues (g g' : GraphRecord R) : Prop where
  name : g'.name = g.name
  outlines : g'.outlines = g.outlines
  limit : g.limit <+: g'.limit

namespace GraphRecord.Continues

theorem refl (g : GraphRecord R) : g.Continues g := ⟨rfl, rfl, List.prefix_refl _⟩

theorem trans {g g' g'' : GraphRecord R} (h : g.Continues g') (h' : g'.Continues g'') :
    g.Continues g'' :=
  ⟨h'.name.trans h.name, h'.outlines.trans h.outlines, h.limit.trans h'.limit⟩

end GraphRecord.Continues

/-- A graph whose limit goes on with a fitted limit, taken at the points of the
    legal one. -/
def GraphRecord.followedBy [Scalar R] (g : GraphRecord R) (limit : SpeedLimit R) (curve : JerkCurve R) :
    GraphRecord R :=
  { g with limit := g.limit ++ limit.points.map fun b => (b.1, curve.eval 0 b.1) }

theorem GraphRecord.continues_followedBy [Scalar R] (g : GraphRecord R) (limit : SpeedLimit R)
    (curve : JerkCurve R) : g.Continues (g.followedBy limit curve) :=
  ⟨rfl, rfl, List.prefix_append _ _⟩

namespace Recording

/-- All series and graphs are kept as they are, in the places where they are. -/
structure Extends (r r' : Recording R) : Prop where
  plans : r.plans <+: r'.plans
  graphs : r.graphs <+: r'.graphs

/-- All series are kept, and all graphs but the latest, whose limit may go on. -/
structure Retains (r r' : Recording R) : Prop where
  plans : r.plans <+: r'.plans
  earlier : r.graphs.dropLast <+: r'.graphs
  graphs : ∀ (i : Nat) g, r.graphs[i]? = some g →
    ∃ g', r'.graphs[i]? = some g' ∧ g.Continues g'

namespace Extends

theorem refl (r : Recording R) : r.Extends r := ⟨List.prefix_refl _, List.prefix_refl _⟩

theorem trans {r r' r'' : Recording R} (h : r.Extends r') (h' : r'.Extends r'') :
    r.Extends r'' := ⟨h.plans.trans h'.plans, h.graphs.trans h'.graphs⟩

/-- What is kept as it is, is kept. -/
theorem retains {r r' : Recording R} (h : r.Extends r') : r.Retains r' := by
  have hearlier := List.dropLast_prefix r.graphs
  refine ⟨h.plans, hearlier.trans h.graphs, fun i g hg => ⟨g, ?_, .refl g⟩⟩
  rcases h.graphs with ⟨later, hlater⟩
  rw [← hlater, List.getElem?_append_left (List.getElem?_eq_some_iff.mp hg).1]
  exact hg

end Extends

theorem extends_addPlan (r : Recording R) (name : String) (samples : List (SpeedSample R)) :
    r.Extends (r.addPlan name samples) := ⟨List.prefix_append _ _, List.prefix_refl _⟩

theorem extends_addGraph (r : Recording R) (g : GraphRecord R) : r.Extends (r.addGraph g) :=
  ⟨List.prefix_refl _, List.prefix_append _ _⟩

namespace Retains

/-- No graph gets lost. -/
theorem length_le {r r' : Recording R} (h : r.Retains r') :
    r.graphs.length ≤ r'.graphs.length := by
  rcases Nat.eq_zero_or_pos r.graphs.length with hempty | hpos
  · omega
  have hlast : r.graphs.length - 1 < r.graphs.length := by omega
  rcases h.graphs _ _ (List.getElem?_eq_getElem hlast) with ⟨g', hg', _⟩
  have hlt := (List.getElem?_eq_some_iff.mp hg').1
  omega

theorem trans {r r' r'' : Recording R} (h : r.Retains r') (h' : r'.Retains r'') :
    r.Retains r'' := by
  refine ⟨h.plans.trans h'.plans, ?_, ?_⟩
  · -- All but the latest of few graphs are among all but the latest of more.
    have hshort : r.graphs.dropLast <+: r'.graphs.dropLast := by
      have hearlier := List.dropLast_prefix r'.graphs
      refine List.prefix_of_prefix_length_le h.earlier hearlier ?_
      rw [List.length_dropLast, List.length_dropLast]
      exact Nat.sub_le_sub_right h.length_le 1
    exact hshort.trans h'.earlier
  · intro i g hg
    rcases h.graphs i g hg with ⟨g', hg', hcontinues⟩
    rcases h'.graphs i g' hg' with ⟨g'', hg'', hcontinues'⟩
    exact ⟨g'', hg'', hcontinues.trans hcontinues'⟩

end Retains

variable [Scalar R]

/-- A cycle that leaves room for a stop adds a graph of its corridor. -/
theorem recordCorridor_of_stops {x : Surroundings R} (hstops : x.Stops) (r : Recording R)
    (name : String) (h : Horizon R) : ∃ samples g,
      r.recordCorridor name h x.brake = (r.addPlan "minimum_jerk_speed_profile" samples).addGraph g := by
  rcases hstops with ⟨⟨samples⟩, hbrake, hsamples⟩
  rw [hbrake]
  cases samples with
  | nil => exact absurd rfl hsamples
  | cons sample samples => exact ⟨_, _, rfl⟩

/-- Any other cycle adds nothing to begin with. -/
theorem recordCorridor_of_not_stops {x : Surroundings R} (hstops : ¬ x.Stops) (r : Recording R)
    (name : String) (h : Horizon R) : r.recordCorridor name h x.brake = r := by
  unfold recordCorridor
  split
  · rfl
  · rfl
  · next b hempty hbrake =>
      refine absurd ⟨b, hbrake, fun hsamples => ?_⟩ hstops
      rcases b with ⟨samples⟩
      exact hempty (congrArg SpeedSeries.mk hsamples)

theorem extends_recordCorridor (r : Recording R) (name : String) (h : Horizon R)
    (x : Surroundings R) : r.Extends (r.recordCorridor name h x.brake) := by
  by_cases hstops : x.Stops
  · rcases recordCorridor_of_stops hstops r name h with ⟨samples, g, hadded⟩
    rw [hadded]
    exact (r.extends_addPlan _ _).trans (extends_addGraph _ g)
  · rw [recordCorridor_of_not_stops hstops]
    exact .refl r

theorem extends_planned (r : Recording R) (h : Horizon R) (x : Surroundings R)
    (samples : List (SpeedSample R)) : r.Extends (r.planned h x.brake samples) :=
  (r.extends_recordCorridor _ h x).trans (extends_addPlan _ _ _)

theorem plans_recordLimit (r : Recording R) (limit : SpeedLimit R) (curve : JerkCurve R) :
    (r.recordLimit limit curve).plans = r.plans := by
  unfold recordLimit
  split
  · rfl
  · rfl

/-- Without a graph the limit is not recorded. -/
theorem recordLimit_of_nil {r : Recording R} (hgraphs : r.graphs = []) (limit : SpeedLimit R)
    (curve : JerkCurve R) : r.recordLimit limit curve = r := by
  simp only [recordLimit, hgraphs, List.reverse_nil]

/-- The limit goes into the latest graph, whoever has added it. -/
theorem graphs_recordLimit {r : Recording R} {earlier : List (GraphRecord R)} {g : GraphRecord R}
    (hgraphs : r.graphs = earlier ++ [g]) (limit : SpeedLimit R) (curve : JerkCurve R) :
    (r.recordLimit limit curve).graphs = earlier ++ [g.followedBy limit curve] := by
  simp only [recordLimit, hgraphs, List.reverse_append, List.reverse_cons, List.reverse_nil,
    List.nil_append, List.singleton_append, List.reverse_reverse, GraphRecord.followedBy]

/-- Recording a limit keeps what is kept in any case. -/
theorem retains_recordLimit (r : Recording R) (limit : SpeedLimit R) (curve : JerkCurve R) :
    r.Retains (r.recordLimit limit curve) := by
  rcases List.eq_nil_or_concat' r.graphs with hempty | ⟨earlier, g, hgraphs⟩
  · rw [recordLimit_of_nil hempty]
    exact (Extends.refl r).retains
  refine ⟨?_, ?_, ?_⟩
  · rw [plans_recordLimit]
  · rw [graphs_recordLimit hgraphs, hgraphs, List.dropLast_concat]
    exact List.prefix_append _ _
  · rw [graphs_recordLimit hgraphs, hgraphs]
    intro i g' hg'
    by_cases hi : i < earlier.length
    · rw [List.getElem?_append_left hi] at hg' ⊢
      exact ⟨g', hg', .refl g'⟩
    · rw [List.getElem?_append_right (by omega)] at hg' ⊢
      rw [List.getElem?_singleton] at hg' ⊢
      by_cases hlast : i - earlier.length = 0
      · rw [if_pos hlast, Option.some.injEq] at hg'
        rw [if_pos hlast, ← hg']
        exact ⟨_, rfl, g.continues_followedBy _ _⟩
      · rw [if_neg hlast] at hg'
        exact absurd hg' (by simp only [reduceCtorEq, not_false_eq_true])

/-- A limit of some points changes the latest graph. -/
theorem graphs_recordLimit_changed {r : Recording R} (hgraphs : r.graphs ≠ [])
    {limit : SpeedLimit R} (hlimit : limit.points ≠ []) (curve : JerkCurve R) :
    ¬ r.graphs <+: (r.recordLimit limit curve).graphs := by
  intro hbegins
  rcases List.eq_nil_or_concat' r.graphs with hempty | ⟨earlier, g, hlast⟩
  · exact hgraphs hempty
  rw [graphs_recordLimit hlast, hlast] at hbegins
  -- Lists of one length, one of which begins the other, are the same list.
  have hsame := hbegins.eq_of_length (by simp only [List.length_append, List.length_singleton])
  rw [List.append_right_inj, List.singleton_inj] at hsame
  have hpoints := congrArg GraphRecord.limit hsame
  simp only [GraphRecord.followedBy, List.self_eq_append_right, List.map_eq_nil_iff] at hpoints
  exact hlimit hpoints

end Recording

namespace Planner

variable [Scalar R]

/-- A call that writes into the graph of an earlier one. It gets as far as the
    fitted limit, adds no graph of its own, and finds one in its recording. -/
structure Rewrites (p : Planner R) (c : Call R) (r : Recording R) : Prop where
  attempts : p.attempts (c.into r) = true
  fitted : c.fitted = true
  withoutStop : ¬ c.surroundings.Stops
  graphs : r.graphs ≠ []

/-- Calls that share a recording, one after the other, and what it holds before
    and afterwards. -/
inductive History (p : Planner R) : List (Call R) → Recording R → Recording R → Prop
  | nil (r : Recording R) : History p [] r r
  | cons {c : Call R} {calls : List (Call R)} {r r' r'' : Recording R}
      (hfirst : (p.answer (c.into r)).recording = some r') (hrest : History p calls r' r'') :
      History p (c :: calls) r r''

variable {p : Planner R} {c : Call R} {r : Recording R}

/-- A call that gets no further than its convex plan, or whose fits fail, only
    adds to its recording. Any other call adds its corridor, if there is a stop,
    and its convex plan, and then writes its limit. -/
theorem answer_records (hp : p.settings.checked = .ok p.settings) (c : Call R)
    (r : Recording R) :
    (¬ (p.attempts (c.into r) = true ∧ c.fitted = true) ∧
        ∃ r', (p.answer (c.into r)).recording = some r' ∧ r.Extends r') ∨
      ((p.attempts (c.into r) = true ∧ c.fitted = true) ∧ c.surroundings.limit.points ≠ [] ∧
        ∃ h samples bound, (c.stages.limit c.surroundings.limit).result = .ok bound ∧
          (p.answer (c.into r)).recording = some
            ((r.planned h c.surroundings.brake samples).recordLimit c.surroundings.limit bound)) := by
  rcases hfirst : p.first? (c.into r) with _ | ⟨h, k⟩
  · -- Without a convex plan there is no refinement to try.
    rcases answer_of_first?_none hfirst with ⟨hidle, _, hsame | ⟨h, hcorridor⟩⟩
    · exact Or.inl ⟨fun htried => hidle htried.1, r, hsame, .refl r⟩
    · exact Or.inl ⟨fun htried => hidle htried.1, _, hcorridor,
        r.extends_recordCorridor _ h c.surroundings⟩
  rcases answer_of_first? hfirst with ⟨_, _, _, _, hh, _, _⟩
  rcases answer_traces hfirst (horizon_step hp hh) with
    ⟨samples, ⟨hidle, htraces⟩ | ⟨htried, kappa, bound, hbound, htraces⟩⟩
  · exact Or.inl ⟨hidle, _, congrArg Prod.snd htraces, r.extends_planned h _ samples⟩
  · have hpoints : c.surroundings.limit.points ≠ [] := by
      have htwo : 2 ≤ c.surroundings.limit.points.length := (horizon_parts hh).2.1
      exact List.ne_nil_of_length_pos (by omega)
    exact Or.inr ⟨htried, hpoints, h, samples, bound, hbound, congrArg Prod.snd htraces⟩

/-- A call keeps all earlier records unless it writes into one of them, and even
    then nothing is lost: the latest graph has the limit of the call behind its
    own, and everything else is as it was. -/
theorem answer_extends_iff (hp : p.settings.checked = .ok p.settings) (c : Call R)
    (r : Recording R) :
    ∃ r', (p.answer (c.into r)).recording = some r' ∧ r.Retains r' ∧
      (r.Extends r' ↔ ¬ p.Rewrites c r) ∧
      (p.Rewrites c r → ∃ earlier g bound, r.graphs = earlier ++ [g] ∧
        (c.stages.limit c.surroundings.limit).result = .ok bound ∧
        r'.graphs = earlier ++ [g.followedBy c.surroundings.limit bound]) := by
  rcases answer_records hp c r with
    ⟨hidle, r', hr', hextends⟩ | ⟨htried, hlimit, h, samples, bound, hbound, hr'⟩
  · have hkeeps (hrewrites : p.Rewrites c r) : False :=
      hidle ⟨hrewrites.attempts, hrewrites.fitted⟩
    exact ⟨r', hr', hextends.retains, ⟨fun _ => hkeeps, fun _ => hextends⟩,
      fun hrewrites => absurd hrewrites hkeeps⟩
  have hplanned := r.extends_planned h c.surroundings samples
  refine ⟨_, hr', hplanned.retains.trans (Recording.retains_recordLimit _ _ _), ?_⟩
  by_cases hstops : c.surroundings.Stops
  · -- The latest graph is the call's own.
    rcases Recording.recordCorridor_of_stops hstops r Planner.name h with ⟨brake, g, hadded⟩
    have hgraphs : (r.planned h c.surroundings.brake samples).graphs = r.graphs ++ [g] := by
      rw [Recording.planned, hadded]
      rfl
    have hextends : r.Extends ((r.planned h c.surroundings.brake samples).recordLimit
        c.surroundings.limit bound) := by
      constructor
      · rw [Recording.plans_recordLimit]
        exact hplanned.plans
      · rw [Recording.graphs_recordLimit hgraphs]
        exact List.prefix_append _ _
    exact ⟨⟨fun _ hrewrites => hrewrites.withoutStop hstops, fun _ => hextends⟩,
      fun hrewrites => absurd hstops hrewrites.withoutStop⟩
  have hgraphs : (r.planned h c.surroundings.brake samples).graphs = r.graphs := by
    rw [Recording.planned, Recording.recordCorridor_of_not_stops hstops]
    rfl
  rcases List.eq_nil_or_concat' r.graphs with hempty | ⟨earlier, g, hlast⟩
  · -- There is no graph to write into.
    rw [Recording.recordLimit_of_nil (hgraphs.trans hempty)]
    exact ⟨⟨fun _ hrewrites => hrewrites.graphs hempty, fun _ => hplanned⟩,
      fun hrewrites => absurd hempty hrewrites.graphs⟩
  · have hsome : r.graphs ≠ [] := by
      rw [hlast]
      exact List.append_ne_nil_of_right_ne_nil _ (List.cons_ne_nil _ _)
    have hrewrites : p.Rewrites c r := ⟨htried.1, htried.2, hstops, hsome⟩
    refine ⟨⟨fun hextends => ?_, fun hnot => absurd hrewrites hnot⟩, fun _ => ?_⟩
    · have hbegins := hextends.graphs
      rw [← hgraphs] at hbegins
      exact absurd hbegins
        (Recording.graphs_recordLimit_changed (by rw [hgraphs]; exact hsome) hlimit bound)
    · exact ⟨earlier, g, bound, hlast, hbound,
        Recording.graphs_recordLimit (hgraphs.trans hlast) _ _⟩

/-- Calls that share a recording have a history, however they end. It keeps all
    series, and all graphs but for what is added to the limit of the latest one;
    and if none of its calls writes into an earlier graph, it keeps everything as
    it is. At each place in it a call keeps all that it finds, unless it gets as
    far as its limit, makes no room for a stop and finds a graph: then the graph
    has the limit of the call behind its own. -/
theorem history_records (hp : p.settings.checked = .ok p.settings) (calls : List (Call R)) :
    ∀ r : Recording R, ∃ r', p.History calls r r' ∧ r.Retains r' ∧
      ((∀ earlier c later before, calls = earlier ++ c :: later → p.History earlier r before →
        ¬ p.Rewrites c before) → r.Extends r') ∧
      ∀ earlier c later, calls = earlier ++ c :: later → ∃ before after,
        p.History earlier r before ∧ (p.answer (c.into before)).recording = some after ∧
          p.History later after r' ∧ (before.Extends after ↔ ¬ p.Rewrites c before) ∧
          (p.Rewrites c before → ∃ graphs g bound, before.graphs = graphs ++ [g] ∧
            (c.stages.limit c.surroundings.limit).result = .ok bound ∧
            after.graphs = graphs ++ [g.followedBy c.surroundings.limit bound]) := by
  induction calls with
  | nil =>
      intro r
      refine ⟨r, .nil r, (Recording.Extends.refl r).retains, fun _ => .refl r, ?_⟩
      intro earlier c later hcalls
      exact absurd hcalls.symm (List.append_ne_nil_of_right_ne_nil _ (List.cons_ne_nil _ _))
  | cons c calls ih =>
      intro r
      rcases answer_extends_iff hp c r with ⟨r₁, hr₁, hkept, hiff, hwritten⟩
      rcases ih r₁ with ⟨r', hhistory, hretains, hextends, hplaces⟩
      refine ⟨r', .cons hr₁ hhistory, hkept.trans hretains, fun hnone => ?_, ?_⟩
      · have hfirst := hiff.mpr (hnone [] c calls r rfl (.nil r))
        refine hfirst.trans (hextends fun earlier d later before hcalls hbefore => ?_)
        exact hnone (c :: earlier) d later before (by rw [hcalls, List.cons_append])
          (.cons hr₁ hbefore)
      · intro earlier d later hcalls
        cases earlier with
        | nil =>
            rw [List.nil_append, List.cons.injEq] at hcalls
            rcases hcalls with ⟨rfl, rfl⟩
            exact ⟨r, r₁, .nil r, hr₁, hhistory, hiff, hwritten⟩
        | cons e earlier =>
            rw [List.cons_append, List.cons.injEq] at hcalls
            rcases hcalls with ⟨rfl, hcalls⟩
            rcases hplaces earlier d later hcalls with
              ⟨before, after, hbefore, hafter, hlater, hkeeps, hwrites⟩
            exact ⟨before, after, .cons hr₁ hbefore, hafter, hlater, hkeeps, hwrites⟩

end Planner

/-! A ride after another one -/

/-- The ride with an emergency stop to leave room for. -/
def carefulRide : Call Rat :=
  { watchedRide none with
    surroundings := { openRoad with brake := some ⟨[⟨0, 0, 1, 0, 0⟩, ⟨1, 2, 0, 0, 0⟩]⟩ } }

/-- The recording of the careful ride. -/
def carefulRecording : Option (Recording Rat) :=
  (rider.answer (carefulRide.into .empty)).recording

/-- The limits in the graphs of a recording. -/
def Recording.limits (r : Recording R) : List (List (R × R)) := r.graphs.map (·.limit)

theorem carefulRecording_limits {r : Recording Rat} (hr : carefulRecording = some r) :
    r.limits = [[(0, 5), (10, 5)]] := by
  have hlimits : carefulRecording.map (·.limits) = some [[(0, 5), (10, 5)]] := by decide +kernel
  rw [hr] at hlimits
  exact Option.some.inj hlimits

/-- The careful ride has a graph with its limit. After the other ride the same
    graph holds the limits of both, so that the record of the careful ride is no
    longer what it was. -/
theorem Planner.history_rewritten : ∃ r r',
    (rider.answer (carefulRide.into .empty)).recording = some r ∧
    (rider.answer ((watchedRide none).into r)).recording = some r' ∧
    r.limits = [[(0, 5), (10, 5)]] ∧ r'.limits = [[(0, 5), (10, 5), (0, 5), (10, 5)]] ∧
    ¬ r.Extends r' := by
  have hboth : (carefulRecording.bind fun r =>
      (rider.answer ((watchedRide none).into r)).recording.map (·.limits)) =
      some [[(0, 5), (10, 5), (0, 5), (10, 5)]] := by decide +kernel
  rcases Option.bind_eq_some_iff.mp hboth with ⟨r, hr, hmap⟩
  rcases Option.map_eq_some_iff.mp hmap with ⟨r', hr', hlimits'⟩
  have hlimits := carefulRecording_limits hr
  refine ⟨r, r', hr, hr', hlimits, hlimits', fun hextends => ?_⟩
  -- A graph that was kept would have its limit still.
  have hbegins := hextends.graphs.map (·.limit)
  change r.limits <+: r'.limits at hbegins
  rw [hlimits, hlimits'] at hbegins
  exact absurd hbegins (by decide)

/-- In the history of the two rides the second one writes into the graph of the
    first. -/
theorem Planner.history_records_rides : ∃ before after r,
    rider.History [carefulRide] .empty before ∧
    (rider.answer ((watchedRide none).into before)).recording = some after ∧
    rider.Rewrites (watchedRide none) before ∧ ¬ before.Extends after ∧
    rider.History [carefulRide, watchedRide none] .empty r ∧ Recording.empty.Retains r := by
  rcases history_records rider_checked.settings [carefulRide, watchedRide none] .empty with
    ⟨r, hhistory, hretains, _, hplaces⟩
  rcases hplaces [carefulRide] (watchedRide none) [] rfl with
    ⟨before, after, hbefore, hafter, _, hiff, _⟩
  have hcareful : carefulRecording = some before := by
    rcases hbefore with _ | ⟨hfirst, hnil⟩
    cases hnil
    exact hfirst
  have hattempts : (carefulRecording.map fun r => rider.attempts ((watchedRide none).into r)) =
      some true := by decide +kernel
  rw [hcareful] at hattempts
  have hrewrites : rider.Rewrites (watchedRide none) before := by
    refine ⟨Option.some.inj hattempts, by decide +kernel, fun hstops => ?_, fun hempty => ?_⟩
    · rcases hstops with ⟨b, hb, _⟩
      exact absurd hb (by simp only [watchedRide, openRoad, reduceCtorEq, not_false_eq_true])
    · have hlimits := carefulRecording_limits hcareful
      rw [Recording.limits, hempty] at hlimits
      exact absurd hlimits (by simp only [List.map_nil, List.nil_eq, reduceCtorEq,
        not_false_eq_true])
  exact ⟨before, after, r, hbefore, hafter, hrewrites, fun hextends => hiff.mp hextends hrewrites,
    hhistory, hretains⟩

end JerkPlan
