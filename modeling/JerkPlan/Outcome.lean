import JerkPlan.Failure

/-!
# Outcomes with notices

A planning step gives a result or fails, and either way it may have issued
notices on the way. `Outcome` keeps the two apart: `result` is what the step
computes, `notices` is what it has to say about it. Nothing reads a notice
back, and sequencing two steps sequences their results exactly as if there
were no notices, which `result_bind` states.

A notice keeps the numbers it is about. Its wording is fixed by
`Notice.text`.

## Main definitions

* `Notice`: Something worth telling, with its level.
* `Outcome`: A result or a failure, and the notices on the way.

## Theorems

* `Outcome.result_pure`: A pure step gives its value.
* `Outcome.result_bind`: Results are sequenced regardless of notices.
* `Outcome.notices_bind_of_ok`, `Outcome.notices_bind_of_error`: Notices are
  kept in order, up to the step that fails.
-/

namespace JerkPlan

/-- How serious a notice is. -/
inductive Level
  | debug
  | warning
  | error

/-- Something worth telling. -/
inductive Notice (R : Type)
  /-- The bounds found for a knot: time, hard ends and soft ends. -/
  | knotBounds (t lower upper softLower softUpper : R)
  /-- The ends of a knot's bounds cross. -/
  | crossedBounds (t lower upper : R)
  /-- The size of the problem of a cycle. -/
  | horizon (knots : Int) (time length speed acceleration topSpeed : R)
  /-- The limit at the start is below the initial speed. -/
  | slowLimit (limit speed : R)
  /-- A quadratic solver ended without a solution. -/
  | unsolved (status : String) (iterations : Int)
  /-- A refinement was solved. -/
  | refined (iterations : Nat) (objective : R)
  /-- Words alone. -/
  | plain (level : Level) (words : String)

namespace Notice

/-- The level of a notice. -/
def level {R : Type} : Notice R → Level
  | knotBounds .. | horizon .. | refined .. => .debug
  | slowLimit .. => .warning
  | crossedBounds .. | unsolved .. => .error
  | plain l _ => l

open Decimal in
/-- The wording of a notice. -/
def text : Notice Float → String
  | knotBounds t l u sl su =>
    "t=" ++ fixedText 2 t ++ " lower=" ++ fixedText 3 l ++ " upper=" ++ fixedText 3 u ++
      " soft=[" ++ fixedText 3 sl ++ ", " ++ fixedText 3 su ++ "]"
  | crossedBounds t l u =>
    "s_lower_bound larger than s_upper_bound on STGraph (t=" ++ fixedText 2 t ++ "s, lower=" ++
      fixedText 3 l ++ ", upper=" ++ fixedText 3 u ++ ")"
  | horizon k t l v a m =>
    "knots: " ++ toString k ++ ", total_time: " ++ Decimal.text t ++ ", total_length: " ++
      Decimal.text l ++ ", v_init: " ++ Decimal.text v ++ ", a_init: " ++ Decimal.text a ++
      ", s_dot_max: " ++ Decimal.text m
  | slowLimit l v =>
    "speed limit [" ++ Decimal.text l ++ "] lower than initial speed [" ++ Decimal.text v ++ "]"
  | unsolved s n => "failed optimization status:\t" ++ s ++ " (" ++ toString n ++ " iterations)"
  | refined n f =>
    "*** The problem solved in " ++ toString n ++ " iterations, objective " ++ fixedText 4 f
  | plain _ w => w

end Notice

/-- A result or a failure, and the notices issued on the way, in order. -/
structure Outcome (R α : Type) where
  notices : List (Notice R)
  result : Except (Failure R) α

namespace Outcome

variable {R α β : Type}

/-- Go on with the result, if there is one. -/
def andThen (x : Outcome R α) (f : α → Outcome R β) : Outcome R β :=
  match x.result with
  | .ok a => ⟨x.notices ++ (f a).notices, (f a).result⟩
  | .error e => ⟨x.notices, .error e⟩

instance : Monad (Outcome R) where
  pure a := ⟨[], .ok a⟩
  bind := andThen

/-- A computation without notices. -/
def of (x : Except (Failure R) α) : Outcome R α := ⟨[], x⟩

/-- A failure. -/
def fail (e : Failure R) : Outcome R α := ⟨[], .error e⟩

/-- A notice and nothing else. -/
def tell (n : Notice R) : Outcome R Unit := ⟨[n], .ok ()⟩

/-- An error in words, and the failure that comes of it. -/
def complain (words : String) (e : Failure R) : Outcome R α :=
  ⟨[.plain .error words], .error e⟩

@[simp]
theorem result_pure (a : α) : (pure a : Outcome R α).result = .ok a := rfl

@[simp]
theorem result_bind (x : Outcome R α) (f : α → Outcome R β) :
    (x >>= f).result = x.result >>= fun a => (f a).result := by
  change (x.andThen f).result = _
  unfold andThen
  cases x.result <;> rfl

@[simp]
theorem result_of (x : Except (Failure R) α) : (of x).result = x := rfl

@[simp]
theorem result_fail (e : Failure R) : (fail e : Outcome R α).result = .error e := rfl

@[simp]
theorem result_tell (n : Notice R) : (tell n).result = .ok () := rfl

@[simp]
theorem result_complain (words : String) (e : Failure R) :
    (complain words e : Outcome R α).result = .error e := rfl

theorem notices_bind_of_ok {x : Outcome R α} {a : α} (h : x.result = .ok a)
    (f : α → Outcome R β) : (x >>= f).notices = x.notices ++ (f a).notices := by
  change (x.andThen f).notices = _
  simp only [andThen, h]

theorem notices_bind_of_error {x : Outcome R α} {e : Failure R} (h : x.result = .error e)
    (f : α → Outcome R β) : (x >>= f).notices = x.notices := by
  change (x.andThen f).notices = _
  simp only [andThen, h]

end Outcome

end JerkPlan
