import JerkPlan.Outcome

/-!
# Results of sequences

A sequence of steps gives a result exactly when every step on the way does.

Most of what is known of a plan is known because the steps that made it did
not fail. These lemmas take a successful sequence apart, one step at a time.

A sequence that fails does so in one of its steps, and the failure is that of
the step. Which failures a sequence can end with is therefore known step by
step as well, for sequences of any length by induction on it.

## Main definitions

* `FailsOnly`: A computation all of whose failures are of one kind.

## Theorems

* `bind_eq_ok_iff`, `ite_error_iff`, `ite_error_eq`: Two steps that may fail, and
  a step behind a check.
* `bind_eq_error_iff`: The failure of two steps is that of one of them.
* `exists_of_toOption_map`: What is known of a result, if it is known.
* `foldlM_eq_error`, `mapM_eq_error`: The failure of a run over a list is that
  of one of its steps.
* `foldlM_eq_ok`, `mapM_entry`: A run that ends well has taken all of its
  steps.
* `foldlM_total`, `mapM_total`: A run over a list whose steps cannot fail.
* `foldlM_keeps`: A run keeps what each of its steps keeps.
* `foldlM_stays`, `foldlM_idle`: A run of steps that change nothing, and a run
  without such a step.
* `foldlM_perm`: A run whose steps commute does not depend on their order.
* `Outcome.bind_ok_iff`, `Outcome.bind_total`, `Outcome.bind_error_iff`,
  `Outcome.ite_fail_ok`, `Outcome.result_closing`: The same with notices.
* `Outcome.bind_of_error`, `Outcome.notices_bind_pure`,
  `Outcome.notices_prefix_bind`: The notices of two steps.
* `FailsOnly.bind`, `FailsOnly.mapM`: A sequence fails in the ways its steps do.
-/

namespace JerkPlan

variable {ε α β : Type}

/-- Two steps give a result when both do. -/
theorem bind_eq_ok_iff {x : Except ε α} {f : α → Except ε β} {b : β} :
    (x >>= f) = .ok b ↔ ∃ a, x = .ok a ∧ f a = .ok b := by
  cases x with
  | error e =>
      constructor
      · intro h
        exact absurd h (by simp [bind, Except.bind])
      · rintro ⟨a, ha, _⟩
        exact absurd ha (by simp only [reduceCtorEq, not_false_eq_true])
  | ok a =>
      constructor
      · intro h
        exact ⟨a, rfl, h⟩
      · rintro ⟨a', ha, hb⟩
        rw [Except.ok.injEq] at ha
        rw [ha]
        exact hb

/-- Something that is known of a result says that there is one. -/
theorem exists_of_toOption_map {x : Except ε α} {f : α → β} {b : β}
    (h : x.toOption.map f = some b) : ∃ a, x = .ok a ∧ f a = b := by
  cases x with
  | error e => exact absurd h (by simp only [Except.toOption, Option.map_none, reduceCtorEq,
      not_false_eq_true])
  | ok a =>
      rw [Except.toOption, Option.map_some, Option.some.injEq] at h
      exact ⟨a, rfl, h⟩

/-- Two steps fail when one of them does. -/
theorem bind_eq_error_iff {x : Except ε α} {f : α → Except ε β} {e : ε} :
    (x >>= f) = .error e ↔ x = .error e ∨ ∃ a, x = .ok a ∧ f a = .error e := by
  cases x with
  | error e' =>
      have hfirst : ((.error e' : Except ε α) >>= f) = .error e' := rfl
      rw [hfirst, Except.error.injEq, Except.error.injEq]
      constructor
      · exact Or.inl
      · rintro (h | ⟨a, ha, _⟩)
        · exact h
        · exact absurd ha (by simp only [reduceCtorEq, not_false_eq_true])
  | ok a =>
      constructor
      · intro h
        exact Or.inr ⟨a, rfl, h⟩
      · rintro (h | ⟨a', ha, he⟩)
        · exact absurd h (by simp only [reduceCtorEq, not_false_eq_true])
        · rw [Except.ok.injEq] at ha
          rw [ha]
          exact he

theorem foldlM_eq_error {f : β → α → Except ε β} {e : ε} (xs : List α) :
    ∀ b, xs.foldlM f b = .error e → ∃ c x, x ∈ xs ∧ f c x = .error e := by
  induction xs with
  | nil =>
      intro b h
      exact absurd h (by simp [pure, Except.pure])
  | cons x xs ih =>
      intro b h
      rw [List.foldlM_cons] at h
      rcases bind_eq_error_iff.mp h with hx | ⟨c, _, hxs⟩
      · exact ⟨b, x, List.mem_cons_self, hx⟩
      · rcases ih c hxs with ⟨c', y, hy, he⟩
        exact ⟨c', y, List.mem_cons_of_mem x hy, he⟩

/-- A run over a list that ends well has taken a step at each of its elements. -/
theorem foldlM_eq_ok {f : β → α → Except ε β} (xs : List α) :
    ∀ b c, xs.foldlM f b = .ok c → ∀ x ∈ xs, ∃ d e, f d x = .ok e := by
  induction xs with
  | nil => exact fun b c _ x hx => absurd hx List.not_mem_nil
  | cons x xs ih =>
      intro b c h y hy
      rw [List.foldlM_cons] at h
      rcases bind_eq_ok_iff.mp h with ⟨d, hd, h⟩
      rcases List.mem_cons.mp hy with rfl | hy
      · exact ⟨b, d, hd⟩
      · exact ih d c h y hy

/-- A run over a list ends well when no step can fail. -/
theorem foldlM_total {f : β → α → Except ε β} (xs : List α)
    (h : ∀ x ∈ xs, ∀ b, ∃ c, f b x = .ok c) : ∀ b, ∃ c, xs.foldlM f b = .ok c := by
  induction xs with
  | nil => exact fun b => ⟨b, rfl⟩
  | cons x xs ih =>
      intro b
      rcases h x List.mem_cons_self b with ⟨c, hc⟩
      rw [List.foldlM_cons, hc]
      exact ih (fun y hy => h y (List.mem_cons_of_mem x hy)) c

/-- A run keeps what each of its steps keeps. -/
theorem foldlM_keeps {f : β → α → Except ε β} {holds : β → Prop} (xs : List α)
    (h : ∀ x ∈ xs, ∀ b c, holds b → f b x = .ok c → holds c) :
    ∀ b c, holds b → xs.foldlM f b = .ok c → holds c := by
  induction xs with
  | nil =>
      intro b c hb hc
      rw [← Except.ok.inj hc]
      exact hb
  | cons x xs ih =>
      intro b c hb hc
      rw [List.foldlM_cons] at hc
      rcases bind_eq_ok_iff.mp hc with ⟨d, hd, hc⟩
      exact ih (fun y hy => h y (List.mem_cons_of_mem x hy)) d c
        (h x List.mem_cons_self b d hb hd) hc

/-- A run whose steps change nothing ends where it began. -/
theorem foldlM_stays {f : β → α → Except ε β} {b : β} (xs : List α)
    (h : ∀ x ∈ xs, f b x = .ok b) : xs.foldlM f b = .ok b := by
  induction xs with
  | nil => rfl
  | cons x xs ih =>
      rw [List.foldlM_cons, h x List.mem_cons_self]
      exact ih fun y hy => h y (List.mem_cons_of_mem x hy)

/-- A step that changes nothing can be left out of a run, wherever it stands. -/
theorem foldlM_idle {f : β → α → Except ε β} {x : α} (h : ∀ b, f b x = .ok b) (xs ys : List α)
    (b : β) : (xs ++ x :: ys).foldlM f b = (xs ++ ys).foldlM f b := by
  rw [List.foldlM_append, List.foldlM_append]
  refine bind_congr fun c => ?_
  rw [List.foldlM_cons, h]
  rfl

/-- A run whose steps commute, failures included, does not depend on their
    order. -/
theorem foldlM_perm {f : β → α → Except ε β} {xs ys : List α} (h : xs.Perm ys)
    (hcomm : ∀ x ∈ xs, ∀ y ∈ xs, ∀ b, (f b x >>= (f · y)) = (f b y >>= (f · x))) :
    ∀ b, xs.foldlM f b = ys.foldlM f b := by
  induction h with
  | nil => exact fun b => rfl
  | cons x _ ih =>
      intro b
      rw [List.foldlM_cons, List.foldlM_cons]
      refine bind_congr fun c => ih (fun y hy z hz => ?_) c
      exact hcomm y (List.mem_cons_of_mem x hy) z (List.mem_cons_of_mem x hz)
  | swap x y xs =>
      -- The first two steps are exchanged, and the rest goes on from the same value.
      intro b
      simp only [List.foldlM_cons, ← bind_assoc]
      rw [hcomm y List.mem_cons_self x (List.mem_cons_of_mem y List.mem_cons_self)]
  | trans hxs _ ih ih' =>
      intro b
      rw [ih hcomm]
      exact ih' (fun x hx y hy => hcomm x (hxs.mem_iff.mpr hx) y (hxs.mem_iff.mpr hy)) b

theorem mapM_eq_error {f : α → Except ε β} {e : ε} (xs : List α) :
    xs.mapM f = .error e → ∃ x ∈ xs, f x = .error e := by
  induction xs with
  | nil =>
      intro h
      exact absurd h (by simp [pure, Except.pure])
  | cons x xs ih =>
      intro h
      rw [List.mapM_cons] at h
      rcases bind_eq_error_iff.mp h with hx | ⟨y, _, h⟩
      · exact ⟨x, List.mem_cons_self, hx⟩
      rcases bind_eq_error_iff.mp h with hxs | ⟨ys, _, h⟩
      · rcases ih hxs with ⟨y, hy, he⟩
        exact ⟨y, List.mem_cons_of_mem x hy, he⟩
      · exact absurd h (by simp [pure, Except.pure])

/-- A run over a list gives as many results as steps when no step can fail. -/
theorem mapM_total {f : α → Except ε β} (xs : List α) (h : ∀ x ∈ xs, ∃ y, f x = .ok y) :
    ∃ ys, xs.mapM f = .ok ys ∧ ys.length = xs.length := by
  induction xs with
  | nil => exact ⟨[], rfl, rfl⟩
  | cons x xs ih =>
      rcases h x List.mem_cons_self with ⟨y, hy⟩
      rcases ih fun x' hx' => h x' (List.mem_cons_of_mem x hx') with ⟨ys, hys, hlength⟩
      refine ⟨y :: ys, ?_, by rw [List.length_cons, List.length_cons, hlength]⟩
      rw [List.mapM_cons, hy, hys]
      rfl

/-- The results of steps that all succeeded, entry by entry. -/
theorem mapM_entry {f : α → Except ε β} (xs : List α) :
    ∀ {ys}, xs.mapM f = .ok ys →
      ∀ (i : Nat) x y, xs[i]? = some x → ys[i]? = some y → f x = .ok y := by
  induction xs with
  | nil =>
      intro ys _ i x y hx
      exact absurd hx (by simp only [List.getElem?_nil, reduceCtorEq, not_false_eq_true])
  | cons x xs ih =>
      intro ys h i x' y' hx hy
      rw [List.mapM_cons] at h
      rcases bind_eq_ok_iff.mp h with ⟨y, hfirst, h⟩
      rcases bind_eq_ok_iff.mp h with ⟨rest, hrest, h⟩
      rw [← Except.ok.inj h] at hy
      cases i with
      | zero =>
          rw [List.getElem?_cons_zero, Option.some.injEq] at hx hy
          rw [← hx, ← hy]
          exact hfirst
      | succ i =>
          rw [List.getElem?_cons_succ] at hx hy
          exact ih hrest i x' y' hx hy

/-- A step behind a check gives a result when the check does not fail. -/
theorem ite_error_iff {c : Prop} [Decidable c] {e : ε} {x : Except ε α} {a : α} :
    (if c then .error e else x) = .ok a ↔ ¬ c ∧ x = .ok a := by
  by_cases hc : c
  · rw [if_pos hc]
    exact ⟨fun h => absurd h (by simp only [reduceCtorEq, not_false_eq_true]),
      fun h => absurd hc h.1⟩
  · rw [if_neg hc]
    exact ⟨fun h => ⟨hc, h⟩, fun h => h.2⟩

/-- A step behind a check that fails otherwise. -/
theorem ite_error_ok {c : Prop} [Decidable c] {e : ε} {x : Except ε α} {a : α}
    (h : (if c then .error e else x) = .ok a) : ¬ c ∧ x = .ok a :=
  ite_error_iff.mp h

/-- The failure of a check is its own. -/
theorem ite_error_eq {c : Prop} [Decidable c] {e e' : ε} {a : α}
    (h : (if c then .error e else .ok a) = (.error e' : Except ε α)) : c ∧ e' = e := by
  by_cases hc : c
  · rw [if_pos hc, Except.error.injEq] at h
    exact ⟨hc, h.symm⟩
  · rw [if_neg hc] at h
    exact absurd h (by simp only [reduceCtorEq, not_false_eq_true])

/-- Two steps with notices give a result when both do. -/
theorem Outcome.bind_ok_iff {R : Type} {x : Outcome R α} {f : α → Outcome R β} {b : β} :
    (x >>= f).result = .ok b ↔ ∃ a, x.result = .ok a ∧ (f a).result = .ok b := by
  rw [result_bind, bind_eq_ok_iff]

/-- Two steps with notices give some result when the second one does. -/
theorem Outcome.bind_total {R : Type} {x : Outcome R α} {f : α → Outcome R β} {a : α}
    (hx : x.result = .ok a) (hf : ∃ b, (f a).result = .ok b) :
    ∃ b, (x >>= f).result = .ok b := by
  rcases hf with ⟨b, hb⟩
  exact ⟨b, bind_ok_iff.mpr ⟨a, hx, hb⟩⟩

/-- Two steps with notices fail when one of them does. -/
theorem Outcome.bind_error_iff {R : Type} {x : Outcome R α} {f : α → Outcome R β}
    {e : Failure R} :
    (x >>= f).result = .error e ↔
      x.result = .error e ∨ ∃ a, x.result = .ok a ∧ (f a).result = .error e := by
  rw [result_bind, bind_eq_error_iff]

/-- A step with notices behind a check that fails otherwise. -/
theorem Outcome.ite_fail_ok {R : Type} {c : Prop} [Decidable c] {e : Failure R}
    {x : Outcome R α} {a : α} (h : (if c then fail e else x).result = .ok a) :
    ¬ c ∧ x.result = .ok a := by
  by_cases hc : c
  · rw [if_pos hc, result_fail] at h
    exact absurd h (by simp only [reduceCtorEq, not_false_eq_true])
  · rw [if_neg hc] at h
    exact ⟨hc, h⟩

/-- Notices aside, a check at the end is a choice between two results. -/
theorem Outcome.result_closing {R : Type} {c : Prop} [Decidable c] (n n' : Notice R)
    (e : Failure R) (a : α) :
    (if c then do
        tell n
        fail e
      else do
        tell n'
        pure a : Outcome R α).result = if c then .error e else .ok a := by
  by_cases hc : c
  · rw [if_pos hc, if_pos hc]
    rfl
  · rw [if_neg hc, if_neg hc]
    rfl

/-- The notices of two steps are put one after the other, so of three steps either
    two can be taken together. -/
instance {R : Type} : LawfulMonad (Outcome R) := by
  refine LawfulMonad.mk' _ (fun x => ?_) (fun a f => rfl) fun x f g => ?_
  · rcases x with ⟨notices, _ | a⟩
    · rfl
    · exact congrArg (Outcome.mk · _) notices.append_nil
  · change (x.andThen f).andThen g = x.andThen fun a => (f a).andThen g
    rcases x with ⟨notices, _ | a⟩
    · rfl
    · simp only [Outcome.andThen]
      cases (f a).result with
      | error e => rfl
      | ok b => simp only [List.append_assoc]

/-- After a step that fails nothing is done and nothing is said. -/
theorem Outcome.bind_of_error {R : Type} {x : Outcome R α} {e : Failure R}
    (h : x.result = .error e) (f : α → Outcome R β) : x >>= f = ⟨x.notices, .error e⟩ := by
  change x.andThen f = _
  simp only [andThen, h]

theorem Outcome.notices_bind_pure {R : Type} (x : Outcome R α) (f : α → β) :
    (x >>= fun a => pure (f a)).notices = x.notices := by
  rcases hresult : x.result with e | a
  · rw [notices_bind_of_error hresult]
  · rw [notices_bind_of_ok hresult]
    exact x.notices.append_nil

/-- What a step has said is said before anything that follows. -/
theorem Outcome.notices_prefix_bind {R : Type} (x : Outcome R α) (f : α → Outcome R β) :
    x.notices <+: (x >>= f).notices := by
  rcases hresult : x.result with e | a
  · exact ⟨[], by rw [notices_bind_of_error hresult, List.append_nil]⟩
  · exact ⟨_, (notices_bind_of_ok hresult f).symm⟩

/-! Failures of one kind -/

/-- A computation all of whose failures are of one kind. -/
def FailsOnly (kind : ε → Prop) (x : Except ε α) : Prop := ∀ e, x = .error e → kind e

namespace FailsOnly

variable {kind : ε → Prop}

@[simp]
theorem ok (a : α) : FailsOnly kind (.ok a) := by
  intro e h
  exact absurd h (by simp only [reduceCtorEq, not_false_eq_true])

@[simp]
theorem error_iff {e : ε} : FailsOnly kind (.error e : Except ε α) ↔ kind e := by
  constructor
  · intro h
    exact h e rfl
  · intro h e' he
    rw [← Except.error.inj he]
    exact h

@[simp]
theorem ite_iff {c : Prop} [Decidable c] {x y : Except ε α} :
    FailsOnly kind (if c then x else y) ↔
      (c → FailsOnly kind x) ∧ (¬ c → FailsOnly kind y) := by
  by_cases hc : c
  · simp only [hc, if_true, true_implies, not_true_eq_false, false_implies, and_true]
  · simp only [hc, if_false, true_implies, not_false_eq_true, false_implies, true_and]

theorem mono {kind' : ε → Prop} {x : Except ε α} (h : FailsOnly kind x)
    (hkind : ∀ e, kind e → kind' e) : FailsOnly kind' x := fun e he => hkind e (h e he)

/-- Two steps fail in one way when each does. -/
theorem bind {x : Except ε α} {f : α → Except ε β} (hx : FailsOnly kind x)
    (hf : ∀ a, x = .ok a → FailsOnly kind (f a)) : FailsOnly kind (x >>= f) := by
  intro e h
  rcases bind_eq_error_iff.mp h with he | ⟨a, ha, he⟩
  · exact hx e he
  · exact hf a ha e he

/-- Two steps with notices fail in one way when each does. -/
theorem bind_outcome {R : Type} {kind : Failure R → Prop} {x : Outcome R α} {f : α → Outcome R β}
    (hx : FailsOnly kind x.result) (hf : ∀ a, x.result = .ok a → FailsOnly kind (f a).result) :
    FailsOnly kind (x >>= f).result := by
  rw [Outcome.result_bind]
  exact hx.bind hf

theorem mapM {f : α → Except ε β} {xs : List α} (h : ∀ x ∈ xs, FailsOnly kind (f x)) :
    FailsOnly kind (xs.mapM f) := by
  intro e he
  rcases mapM_eq_error xs he with ⟨x, hx, hfx⟩
  exact h x hx e hfx

theorem map {x : Except ε α} {f : α → β} (h : FailsOnly kind x) : FailsOnly kind (x.map f) := by
  cases x with
  | error e => exact error_iff.mpr (error_iff.mp h)
  | ok a => exact ok (f a)

/-- A computation with a result has no failures. -/
theorem of_total {x : Except ε α} (h : ∃ a, x = .ok a) : FailsOnly kind x := by
  rcases h with ⟨a, rfl⟩
  exact ok a

end FailsOnly

end JerkPlan
