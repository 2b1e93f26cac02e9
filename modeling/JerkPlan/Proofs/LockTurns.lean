import JerkPlan.Proofs.SilentRecording

/-!
# Turns of the lock

The lock of the refinement is taken for refinements and for nothing else.

Planners share a lock, and a cycle that fails while it holds the lock would
stop all the others. Whether that can happen is a question about all ways out
of a cycle at once, for any history of cycles. It is answered in three steps.

An event of the lock is in order or not, depending on whether the lock is held:
`LockEvent.next` is the machine that says so, and a run of it tells for every
event of a history whether the lock was held at that time. A refinement under
the lock is in order, however it ends. And of the parts of a cycle only the
refinement touches the lock, once, if the cycle gets there at all; both fits
must give a curve, and then the problem can always be put together, since the
convex plan has the sizes it needs.

What is asked of the solvers is that the convex one gives an entry for each
knot of an answer that it calls accepted. The fits may answer in any way, and
so may the solver of the refinement.

## Main definitions

* `LockEvent.next`, `LockEvent.run`: Which events are in order.
* `LockEvent.Orderly`: Events in order, after which the lock is free again.
* `Planner.Employs`: The stages of a planner with such a solver.

## Theorems

* `LockEvent.run_append`, `LockEvent.count_of_run`: Runs of the machine.
* `LockEvent.Orderly.held`: Work is done only while the lock is held.
* `orderly_refineLocked`: A refinement under the lock is in order.
* `planConvex_sized`: What a convex plan tells of its horizon.
* `Planner.answer_lock`: What a call does to the lock.
* `Planner.lock_turns`: What a history of calls does to it.
-/

namespace JerkPlan

namespace LockEvent

/-- An event of the work that the lock is for. -/
def Works (e : LockEvent) : Prop := e = .building ∨ e = .solving

/-- Whether the lock is held after an event, if the event is in order: only a
    free lock is entered, and only one that is held is left or worked under. -/
def next (held : Bool) : LockEvent → Option Bool
  | entered => if held then none else some true
  | building | solving => if held then some true else none
  | left => if held then some false else none

/-- Whether the lock is held after some events, if all of them are in order. -/
def run (held : Bool) (es : List LockEvent) : Option Bool := es.foldlM next held

/-- Events in order, before and after which the lock is free. -/
def Orderly (es : List LockEvent) : Prop := run false es = some false

theorem run_append (held : Bool) (es fs : List LockEvent) :
    run held (es ++ fs) = (run held es).bind fun held' => run held' fs := by
  rw [run, List.foldlM_append]
  rfl

theorem run_cons (held : Bool) (e : LockEvent) (es : List LockEvent) :
    run held (e :: es) = (next held e).bind fun held' => run held' es := by
  rw [run, List.foldlM_cons]
  rfl

/-- Work changes nothing about a lock that is held. -/
theorem run_work {work : List LockEvent} (hwork : ∀ e ∈ work, e.Works) :
    run true work = some true := by
  induction work with
  | nil => rfl
  | cons e work ih =>
      have hnext : next true e = some true := by
        rcases hwork e List.mem_cons_self with rfl | rfl <;> rfl
      rw [run_cons, hnext]
      exact ih fun e he => hwork e (List.mem_cons_of_mem _ he)

/-- An event that enters or leaves the lock changes whether it is held. -/
theorem count_of_next {held held' : Bool} {e : LockEvent} (h : next held e = some held') :
    held.toNat + [e].count .entered = held'.toNat + [e].count .left := by
  revert h
  cases e <;> cases held <;> cases held' <;> decide

/-- A lock is entered as often as it is left, and once more while it is held. -/
theorem count_of_run (es : List LockEvent) :
    ∀ held held', run held es = some held' →
      held.toNat + es.count .entered = held'.toNat + es.count .left := by
  induction es with
  | nil =>
      intro held held' h
      rw [run, List.foldlM_nil] at h
      rw [Option.some.inj h, List.count_nil, List.count_nil]
  | cons e es ih =>
      intro held held' h
      rw [run_cons] at h
      rcases Option.bind_eq_some_iff.mp h with ⟨held₁, hnext, hrest⟩
      have hfirst := count_of_next hnext
      have hcount := ih held₁ held' hrest
      rw [← List.singleton_append, List.count_append, List.count_append]
      omega

namespace Orderly

theorem nil : Orderly [] := rfl

theorem append {es fs : List LockEvent} (hes : Orderly es) (hfs : Orderly fs) :
    Orderly (es ++ fs) := by
  rw [Orderly, run_append, hes]
  exact hfs

/-- A turn is in order: the lock is entered, some work is done, and it is left. -/
theorem turn {work : List LockEvent} (hwork : ∀ e ∈ work, e.Works) :
    Orderly (.entered :: (work ++ [.left])) := by
  have hheld : run false (.entered :: (work ++ [.left])) = run true (work ++ [.left]) := rfl
  rw [Orderly, hheld, run_append, run_work hwork]
  rfl

/-- In the end a lock was left as often as it was entered. -/
theorem count_left {es : List LockEvent} (h : Orderly es) :
    es.count .left = es.count .entered := by
  have hcount := count_of_run es false false h
  omega

/-- Whenever there is work, the lock is held: it was entered once more than it was
    left. -/
theorem held {before after : List LockEvent} {e : LockEvent} (h : Orderly (before ++ e :: after))
    (he : e.Works) : before.count .entered = before.count .left + 1 := by
  rw [Orderly, run_append] at h
  rcases Option.bind_eq_some_iff.mp h with ⟨held, hbefore, h⟩
  rw [run_cons] at h
  rcases Option.bind_eq_some_iff.mp h with ⟨_, hnext, _⟩
  have hheld : held = true := by
    cases held with
    | true => rfl
    | false =>
        rcases he with rfl | rfl <;>
          exact absurd hnext (by simp only [next, Bool.false_eq_true, if_false, reduceCtorEq,
            not_false_eq_true])
  have hcount := count_of_run before false held hbefore
  rw [hheld, Bool.toNat_false, Bool.toNat_true] at hcount
  omega

end Orderly

end LockEvent

variable {R : Type} [Scalar R]

/-- What a refinement does to its problem is work. -/
theorem RefinementProblem.of_work {r : RefinementProblem R} {e : LockEvent} (he : e ∈ r.work) :
    e.Works := by
  unfold RefinementProblem.work at he
  split at he
  · rcases List.mem_cons.mp he with rfl | he
    · exact Or.inl rfl
    · exact Or.inr (List.mem_singleton.mp he)
  · exact Or.inl (List.mem_singleton.mp he)

/-- The problem of a convex plan has two knots or more, as many as its horizon,
    and a step other than zero. -/
theorem convexProblem_size {h : Horizon R} {rough : SpeedSeries R} {p : PlanSettings R}
    {q : KnotProblem R} (hq : (convexProblem h rough p).result = .ok q) :
    2 ≤ h.knots ∧ same h.step 0 = false ∧ q.knots = h.knots.toNat := by
  unfold convexProblem at hq
  rcases Outcome.bind_ok_iff.mp hq with ⟨q₀, hmake, hq⟩
  rcases Outcome.bind_ok_iff.mp hq with ⟨bounds, _, hq⟩
  rw [Outcome.result_of, KnotProblem.make] at hmake
  rcases ite_error_ok hmake with ⟨hknots, hmake⟩
  rcases ite_error_ok hmake with ⟨hstep, hmake⟩
  have hcount : q₀.knots = h.knots.toNat := by rw [← Except.ok.inj hmake]
  refine ⟨by omega, same_zero_of_not_le hstep, ?_⟩
  -- A reference, if there is one, changes nothing about the size.
  split at hq
  · rcases Outcome.bind_ok_iff.mp hq with ⟨targets, _, hq⟩
    rw [Outcome.result_of] at hq
    rcases KnotProblem.withReference_eq hq with ⟨_, rfl⟩
    exact hcount
  · rcases Outcome.bind_ok_iff.mp hq with ⟨_, _, hq⟩
    rw [Outcome.result_pure, Except.ok.injEq] at hq
    rw [← hq]
    exact hcount

/-- A convex plan has an entry for each of at least two knots. -/
theorem planConvex_sized {solve : ConvexSolver R} (hsolve : solve.Sized) {h : Horizon R}
    {rough : SpeedSeries R} {p : PlanSettings R} {k : KnotProfile R}
    (hk : (planConvex solve h rough p).result = .ok k) :
    2 ≤ h.knots ∧ same h.step 0 = false ∧ k.Shaped h.knots.toNat := by
  rcases planConvex_ok hk with ⟨q, answer, hq, hanswer, haccepted, rfl⟩
  rcases convexProblem_size hq with ⟨htwo, hstep, hcount⟩
  refine ⟨htwo, hstep, ?_⟩
  rw [← hcount]
  exact hsolve _ q answer hanswer haccepted

namespace Planner

/-- Stages whose convex plan comes from a solver of the right sizes, and whose
    refinement runs under the lock. The fits may be anything, and so may the
    solver of the refinement. -/
structure Employs (p : Planner R) (s : Stages R) : Prop where
  convex : ∃ solve : ConvexSolver R, solve.Sized ∧
    ∀ h rough, s.convex h rough = planConvex solve h rough p.settings
  refine : ∃ solve : RefinementSolver R,
    ∀ r, s.refine r = refineLocked solve p.settings.refinementBudget r

variable {p : Planner R}

/-- A call takes its turn with the lock if it tries a refinement and both fits
    give a curve, and does not touch the lock otherwise. -/
theorem answer_lock {c : Call R} (hc : p.Employs c.stages) :
    (¬ (p.attempts c = true ∧ c.fitted = true) ∧ (p.answer c).lock = []) ∨
      ((p.attempts c = true ∧ c.fitted = true) ∧ ∃ work : List LockEvent,
        (∀ e ∈ work, e.Works) ∧ (p.answer c).lock = .entered :: (work ++ [.left])) := by
  rcases hfirst : p.first? c with _ | ⟨h, k⟩
  · rcases answer_of_first?_none hfirst with ⟨hidle, hlock, _⟩
    exact Or.inl ⟨fun htried => hidle htried.1, hlock⟩
  rcases answer_of_first? hfirst with ⟨_, before, _, _, hh, hk, _⟩
  rcases hc.convex with ⟨solve, hsolve, hconvex⟩
  rw [hconvex] at hk
  rcases planConvex_sized hsolve hk with ⟨htwo, hstep, hshaped⟩
  rcases answer_traces hfirst hstep with
    ⟨_, ⟨hidle, htraces⟩ | ⟨htried, kappa, bound, _, htraces⟩⟩
  · exact Or.inl ⟨hidle, congrArg Prod.fst htraces⟩
  · -- With both curves there is a problem, and it is solved under the lock.
    rcases refinement_total (p := p) (horizon_fits hh htwo) hshaped kappa bound with ⟨r, hr, _⟩
    rcases hc.refine with ⟨nonlinear, hrefine⟩
    rw [hr] at htraces
    refine Or.inr ⟨htried, r.work, fun e he => RefinementProblem.of_work he, ?_⟩
    have hlock := congrArg Prod.fst htraces
    simp only [Except.toOption, Option.elim_some, hrefine] at hlock
    exact hlock

/-- In any history of calls the events of the lock are in order, so that every
    entry has its exit, within the same call. The lock is entered once for each
    call that tries a refinement and whose fits both give a curve, and by no
    other. Programs are built and solved only while it is held. A call that gives
    a result tells whether it tried. -/
theorem lock_turns {calls : List (Call R)} (hcalls : ∀ c ∈ calls, p.Employs c.stages) :
    LockEvent.Orderly (calls.flatMap fun c => (p.answer c).lock) ∧
    (calls.flatMap fun c => (p.answer c).lock).count .entered =
      calls.countP (fun c => p.attempts c && c.fitted) ∧
    (∀ c ∈ calls, LockEvent.Orderly (p.answer c).lock ∧
      (p.answer c).lock.count .left = (p.answer c).lock.count .entered ∧
      ∀ res, (p.answer c).result = .ok res →
        (CycleStage.refinementAttempted ∈ res.stages ↔ p.attempts c = true)) ∧
    ∀ before e after, (calls.flatMap fun c => (p.answer c).lock) = before ++ e :: after →
      e.Works → before.count .entered = before.count .left + 1 := by
  have heach : ∀ c ∈ calls, LockEvent.Orderly (p.answer c).lock ∧
      (p.answer c).lock.count .entered = if p.attempts c && c.fitted then 1 else 0 := by
    intro c hc
    rcases answer_lock (hcalls c hc) with ⟨hidle, hlock⟩ | ⟨htried, work, hwork, hlock⟩
    · rw [hlock, if_neg (by rw [Bool.and_eq_true]; exact hidle)]
      exact ⟨.nil, rfl⟩
    · have hnone : work.count .entered = 0 := by
        refine List.count_eq_zero.mpr fun hmem => ?_
        rcases hwork _ hmem with h | h <;> exact absurd h (by decide)
      rw [hlock, if_pos (by rw [Bool.and_eq_true]; exact htried)]
      refine ⟨.turn hwork, ?_⟩
      rw [List.count_cons_self, List.count_append, hnone]
      rfl
  -- What one call does to the lock adds up over the history.
  have hall : LockEvent.Orderly (calls.flatMap fun c => (p.answer c).lock) ∧
      (calls.flatMap fun c => (p.answer c).lock).count .entered =
        calls.countP (fun c => p.attempts c && c.fitted) := by
    clear hcalls
    induction calls with
    | nil => exact ⟨.nil, rfl⟩
    | cons c calls ih =>
        rcases heach c List.mem_cons_self with ⟨horderly, hcount⟩
        rcases ih fun d hd => heach d (List.mem_cons_of_mem c hd) with ⟨hrest, hcounts⟩
        rw [List.flatMap_cons]
        refine ⟨horderly.append hrest, ?_⟩
        rw [List.count_append, hcount, hcounts, List.countP_cons, Nat.add_comm]
  refine ⟨hall.1, hall.2, fun c hc => ?_, fun before e after htrace he => ?_⟩
  · have horderly := (heach c hc).1
    exact ⟨horderly, horderly.count_left, fun res hres => attempted_iff hres⟩
  · have horderly := hall.1
    rw [htrace] at horderly
    exact horderly.held he

end Planner

/-! Three rides -/

theorem ConvexSolver.sized_knowing {R : Type} [ExactScalar R] (k : KnotProfile R) :
    (ConvexSolver.knowing k).Sized :=
  fun _ _ _ hanswer haccepted => (of_knowing hanswer haccepted).1

/-- The ride, its refinement stalled. -/
def stalledCall : Call Rat :=
  { watchedRide none with
    stages := { (watchedRide none).stages with
      refine := refineLocked (fun _ _ => .brokeDown "stalled") rider.settings.refinementBudget } }

/-- The ride, its limit without a fit. -/
def unfittedCall : Call Rat :=
  { watchedRide none with
    stages := { (watchedRide none).stages with
      limit := fun _ => .fail (.stage (.input "no limit")) } }

/-- Of three rides two get as far as the lock, a refinement that succeeds and one
    that does not. Each leaves the lock before the next begins. -/
theorem Planner.lock_turns_rides :
    LockEvent.Orderly ([stalledCall, unfittedCall, watchedRide none].flatMap fun c =>
      (rider.answer c).lock) ∧
    ([stalledCall, unfittedCall, watchedRide none].flatMap fun c =>
      (rider.answer c).lock).count .entered = 2 := by
  have hcalls : ∀ c ∈ [stalledCall, unfittedCall, watchedRide none], rider.Employs c.stages := by
    intro c hc
    simp only [List.mem_cons, List.not_mem_nil, or_false] at hc
    rcases hc with rfl | rfl | rfl
    · exact ⟨⟨_, ConvexSolver.sized_knowing _, fun _ _ => rfl⟩, _, fun _ => rfl⟩
    · exact ⟨⟨_, ConvexSolver.sized_knowing _, fun _ _ => rfl⟩, _, fun _ => rfl⟩
    · exact ⟨⟨_, ConvexSolver.sized_knowing _, fun _ _ => rfl⟩, _, fun _ => rfl⟩
  rcases lock_turns hcalls with ⟨horderly, hcount, _⟩
  refine ⟨horderly, ?_⟩
  rw [hcount]
  decide +kernel

end JerkPlan
