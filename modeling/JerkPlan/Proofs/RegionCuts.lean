import JerkPlan.Proofs.Exact
import JerkPlan.Proofs.CorridorKnots

/-!
# What regions cut off

The order in which regions come makes no difference to a corridor.

Whatever a region asks for at a time, it does one of three things to an
opening: it leaves the opening as it is, it lowers both ceilings, or it raises
both floors. `Opening.Move` lists the three, and `cut_move` finds the one that
belongs to a region whose manoeuvre is known. The simple mode makes the same
moves, of which only the hard interval is looked at. A ceiling that is lowered
twice ends up at the lower of the two, floors likewise, and ceilings and floors
do not touch each other, so any two moves commute. Everything that follows the
cuts reads nothing of the regions but whether there are any.

None of this needs exact arithmetic. Where an edge is and how far one stays
away from it may be rounded in any way; it is the same for a region wherever it
stands in the list. All that is asked of the scalars is that they compare with
each other, as `OrderedScalar` says.

## Main definitions

* `Region.Known`: A region that somebody knows how to deal with.
* `Region.StaysBelow`: A region that one stays below.
* `Opening.Move`: What a region can do to an opening.
* `Opening.hard`: The hard interval of an opening.

## Theorems

* `Opening.Move.comm`: Moves commute.
* `cut_move`, `simpleCut_move`: What a known region does in either mode.
* `cut_below`: A region that one stays below lowers ceilings only.
* `cuts_total`: Known regions make all of their cuts.
* `softOpening_perm`, `simpleInterval_perm`: The opening of a knot.
* `softOpening_failure`, `simpleInterval_failure`: How it can fail.
* `compile_perm`: The corridor of permuted regions.
-/

namespace JerkPlan

namespace Region

variable {R : Type}

/-- Somebody knows how to deal with a region. -/
def Known (r : Region R) : Prop := ∀ name, r.manoeuvre ≠ .other name

/-- One stays below a region: one stops, yields or follows. -/
def StaysBelow (r : Region R) : Prop :=
  r.manoeuvre = .stop ∨ r.manoeuvre = .yield ∨ r.manoeuvre = .follow

end Region

namespace Opening

/-- What a region can do to an opening. -/
inductive Move {R : Type} [Scalar R] : (Opening R → Opening R) → Prop
  | stay : Move id
  | cap (hard soft : R) : Move (·.cap hard soft)
  | raise (hard soft : R) : Move (·.raise hard soft)

/-- The hard interval of an opening. -/
def hard {R : Type} (o : Opening R) : R × R := (o.lower, o.upper)

section Ordered

variable {R : Type} [OrderedScalar R]

theorem lesser_right_comm (a b c : R) : lesser (lesser a b) c = lesser (lesser a c) b := by
  simp only [lesser_eq_min, min_right_comm a b c]

theorem greater_right_comm (a b c : R) : greater (greater a b) c = greater (greater a c) b := by
  simp only [greater_eq_max, max_right_comm a b c]

/-- Any two moves commute. -/
theorem Move.comm {m m' : Opening R → Opening R} (hm : Move m) (hm' : Move m') (o : Opening R) :
    m (m' o) = m' (m o) := by
  cases hm with
  | stay => rfl
  | cap hard soft =>
      cases hm' with
      | stay => rfl
      | cap hard' soft' =>
          simp only [Opening.cap, lesser_right_comm o.upper hard hard',
            lesser_right_comm o.softUpper soft soft']
      | raise hard' soft' => rfl
  | raise hard soft =>
      cases hm' with
      | stay => rfl
      | cap hard' soft' => rfl
      | raise hard' soft' =>
          simp only [Opening.raise, greater_right_comm o.lower hard hard',
            greater_right_comm o.softLower soft soft']

end Ordered

end Opening

namespace Corridor

section Cuts

variable {R : Type} [Scalar R] {c : Comfort R} {p : PlanSettings R} {t : R} {r : Region R}

/-- A region that somebody knows how to deal with makes a move, the same for
    every opening. -/
theorem cut_move (hr : r.Known) (c : Comfort R) (p : PlanSettings R) (t speed : R) :
    ∃ m, Opening.Move m ∧ ∀ o, cut c p t speed o r = .ok (m o) := by
  unfold cut
  rcases r.passage t with _ | passage
  · exact ⟨id, .stay, fun o => rfl⟩
  -- A passage on the other side than the manoeuvre's leaves the opening alone.
  cases hkind : r.manoeuvre with
  | stop =>
      cases passage with
      | below ceiling => exact ⟨_, .cap ceiling ceiling, fun o => rfl⟩
      | above floor => exact ⟨id, .stay, fun o => rfl⟩
  | yield =>
      cases passage with
      | below ceiling => exact ⟨_, .cap (ceiling - r.gap t) ceiling, fun o => rfl⟩
      | above floor => exact ⟨id, .stay, fun o => rfl⟩
  | follow =>
      cases passage with
      | below ceiling =>
          exact ⟨_, .cap (ceiling - r.gap t) (ceiling - followDistance speed (r.gap t) c),
            fun o => rfl⟩
      | above floor => exact ⟨id, .stay, fun o => rfl⟩
  | overtake =>
      cases passage with
      | below ceiling => exact ⟨id, .stay, fun o => rfl⟩
      | above floor => exact ⟨_, .raise floor (floor + p.overtakeMargin), fun o => rfl⟩
  | other name => exact absurd hkind (hr name)

/-- In the simple mode a known region makes one of the same moves, of which the
    hard interval is kept. -/
theorem simpleCut_move (hr : r.Known) (p : PlanSettings R) (t : R) :
    ∃ m, Opening.Move m ∧ ∀ o, simpleCut p t o.hard r = .ok (m o).hard := by
  unfold simpleCut
  rcases r.passage t with _ | passage
  · exact ⟨id, .stay, fun o => rfl⟩
  cases hkind : r.manoeuvre with
  | stop | yield =>
      cases passage with
      | below ceiling => exact ⟨_, .cap ceiling ceiling, fun o => rfl⟩
      | above floor => exact ⟨id, .stay, fun o => rfl⟩
  | follow =>
      cases passage with
      | below ceiling =>
          exact ⟨_, .cap (ceiling - p.followMargin) (ceiling - p.followMargin), fun o => rfl⟩
      | above floor => exact ⟨id, .stay, fun o => rfl⟩
  | overtake =>
      cases passage with
      | below ceiling => exact ⟨id, .stay, fun o => rfl⟩
      | above floor => exact ⟨_, .raise floor floor, fun o => rfl⟩
  | other name => exact absurd hkind (hr name)

/-- A region that one stays below leaves both floors where they are. -/
theorem cut_below {speed : R} {o o' : Opening R} (hr : r.StaysBelow)
    (h : cut c p t speed o r = .ok o') :
    o'.lower = o.lower ∧ o'.softLower = o.softLower := by
  unfold cut at h
  rcases hpassage : r.passage t with _ | passage
  · rw [hpassage] at h
    rw [← Except.ok.inj h]
    exact ⟨rfl, rfl⟩
  rw [hpassage] at h
  rcases hr with hkind | hkind | hkind
  all_goals
    rw [hkind] at h
    cases passage with
    | below ceiling =>
        rw [← Except.ok.inj h]
        exact ⟨rfl, rfl⟩
    | above floor =>
        rw [← Except.ok.inj h]
        exact ⟨rfl, rfl⟩

/-- Known regions make all of their cuts. -/
theorem cuts_total {regions : List (Region R)} (hknown : ∀ r ∈ regions, r.Known) (c : Comfort R)
    (p : PlanSettings R) (t speed : R) (o : Opening R) :
    ∃ o', regions.foldlM (cut c p t speed) o = .ok o' := by
  refine foldlM_total regions (fun r hr b => ?_) o
  rcases cut_move (hknown r hr) c p t speed with ⟨m, _, hm⟩
  exact ⟨m b, hm b⟩

/-- With known regions only, an opening of the soft mode lacks a speed to
    expect or has closed. -/
theorem softOpening_failure {regions : List (Region R)} {length : R} {rough : SpeedSeries R}
    {brake : Option (SpeedSeries R)} {knot : Nat} {e : Failure R}
    (hknown : ∀ r ∈ regions, r.Known)
    (h : (softOpening regions length rough brake c p knot t).result = .error e) :
    e = .stage (.input noSpeed) ∨ e = .stage (.corridor crossed (some knot)) := by
  rw [softOpening_result] at h
  rcases bind_eq_error_iff.mp h with hspeed | ⟨speed, _, h⟩
  · exact Or.inl (expectedSpeed_error hspeed).1
  rcases cuts_total hknown c p t speed (Opening.whole length) with ⟨o, ho⟩
  rw [ho] at h
  exact Or.inr (ite_error_eq h).2

/-- In the simple mode it has closed. -/
theorem simpleInterval_failure {regions : List (Region R)} {length : R} {knot : Nat}
    {e : Failure R} (hknown : ∀ r ∈ regions, r.Known)
    (h : (simpleInterval regions length p knot t).result = .error e) :
    e = .stage (.corridor crossed (some knot)) := by
  rw [simpleInterval_result] at h
  rcases bind_eq_error_iff.mp h with hcut | ⟨b, _, h⟩
  · rcases foldlM_eq_error regions _ hcut with ⟨b, r, hr, hcut⟩
    rcases simpleCut_move (hknown r hr) p t with ⟨m, _, hm⟩
    have hmoved := hm ⟨b.1, b.2, b.1, b.2⟩
    rw [Opening.hard, hcut] at hmoved
    exact absurd hmoved (by simp only [reduceCtorEq, not_false_eq_true])
  · exact (ite_error_eq h).2

end Cuts

section Ordered

variable {R : Type} [OrderedScalar R] {regions regions' : List (Region R)}

/-- The opening of a knot does not depend on the order of the regions. -/
theorem softOpening_perm (h : regions.Perm regions') (hknown : ∀ r ∈ regions, r.Known)
    (length : R) (rough : SpeedSeries R) (brake : Option (SpeedSeries R)) (c : Comfort R)
    (p : PlanSettings R) :
    softOpening regions' length rough brake c p = softOpening regions length rough brake c p := by
  funext knot t
  have hsome : regions'.isEmpty = regions.isEmpty := by
    rw [Bool.eq_iff_iff, List.isEmpty_iff, List.isEmpty_iff]
    exact ⟨fun hnil => (hnil ▸ h).eq_nil, fun hnil => (hnil ▸ h).symm.eq_nil⟩
  have hcuts (speed : R) : regions'.foldlM (cut c p t speed) (Opening.whole length) =
      regions.foldlM (cut c p t speed) (Opening.whole length) := by
    refine (foldlM_perm h (fun r hr r' hr' o => ?_) _).symm
    rcases cut_move (hknown r hr) c p t speed with ⟨m, hmove, hm⟩
    rcases cut_move (hknown r' hr') c p t speed with ⟨m', hmove', hm'⟩
    rw [hm, hm']
    change cut c p t speed (m o) r' = cut c p t speed (m' o) r
    rw [hm', hm, hmove.comm hmove']
  simp only [softOpening, hsome, hcuts]

/-- In the simple mode neither. -/
theorem simpleInterval_perm (h : regions.Perm regions') (hknown : ∀ r ∈ regions, r.Known)
    (length : R) (p : PlanSettings R) :
    simpleInterval regions' length p = simpleInterval regions length p := by
  funext knot t
  have hcuts : regions'.foldlM (simpleCut p t) (0, length) =
      regions.foldlM (simpleCut p t) (0, length) := by
    refine (foldlM_perm h (fun r hr r' hr' b => ?_) _).symm
    rcases simpleCut_move (hknown r hr) p t with ⟨m, hmove, hm⟩
    rcases simpleCut_move (hknown r' hr') p t with ⟨m', hmove', hm'⟩
    -- Any two ends are the hard interval of some opening.
    have hb : b = (⟨b.1, b.2, b.1, b.2⟩ : Opening R).hard := rfl
    rw [hb, hm, hm']
    change simpleCut p t (m _).hard r' = simpleCut p t (m' _).hard r
    rw [hm', hm, hmove.comm hmove']
  simp only [simpleInterval, hcuts]

/-- A corridor does not depend on the order of its regions, as long as somebody
    knows how to deal with each of them. Permuted regions lead to the same
    intervals and the same notices, or to the same failure: the rough plan says
    nothing about some knot, or the corridor has closed at the same one. -/
theorem compile_perm (h : regions.Perm regions') (hknown : ∀ r ∈ regions, r.Known) (knots : Int)
    (step length : R) (rough : SpeedSeries R) (brake : Option (SpeedSeries R)) (c : Comfort R)
    (p : PlanSettings R) :
    compile regions' knots step length rough brake c p =
        compile regions knots step length rough brake c p ∧
      ∀ e, (compile regions knots step length rough brake c p).result = .error e →
        e = .stage (.input noSpeed) ∨
          ∃ i : Nat, i < knots.toNat ∧ e = .stage (.corridor crossed (some i)) := by
  constructor
  · unfold compile withSoft simple
    rw [softOpening_perm h hknown, simpleInterval_perm h hknown]
  · intro e he
    unfold compile at he
    split at he
    · rcases Outcome.bind_error_iff.mp he with he | ⟨os, _, he⟩
      · rcases openings_error _ 0 he with ⟨x, hx, hknot⟩
        have hi := (mem_knotTimes.mp hx).1
        exact (softOpening_failure hknown hknot).imp_right fun he => ⟨x.2, hi, he⟩
      · exact absurd he (by simp only [Outcome.result_pure, reduceCtorEq, not_false_eq_true])
    · rcases Outcome.bind_error_iff.mp he with he | ⟨os, _, he⟩
      · rcases openings_error _ 0 he with ⟨x, hx, hknot⟩
        have hi := (mem_knotTimes.mp hx).1
        exact Or.inr ⟨x.2, hi, simpleInterval_failure hknown hknot⟩
      · exact absurd he (by simp only [Outcome.result_pure, reduceCtorEq, not_false_eq_true])

end Ordered

/-! A convoy -/

/-- Somebody to stop for, to yield to, to follow and to overtake, the last one
    soon further ahead than the first. -/
def convoy : List (Region Rat) :=
  [⟨.stop, [(0, 20), (9, 20)], [(0, 25), (9, 25)], 0, none⟩,
    ⟨.yield, [(0, 30), (2, 26)], [(0, 40), (2, 36)], 3, some (2, 8)⟩,
    ⟨.follow, [(0, 24), (9, 33)], [(0, 28), (9, 37)], 5, none⟩,
    ⟨.overtake, [(0, 2), (9, 83)], [(0, 6), (9, 87)], 0, none⟩]

/-- The corridor of a convoy over three knots a second apart. -/
def convoyCorridor (soft : Bool) (regions : List (Region Rat)) : Outcome Rat (Corridor Rat) :=
  compile regions 3 1 50 ⟨[⟨0, 0, 3, 0, 0⟩, ⟨27, 9, 3, 0, 0⟩]⟩ none
    { Comfort.usual with softBounds := soft } .usual

/-- Met in the opposite order, the convoy leaves the same corridor, and closes
    at the same knot in the simple mode. -/
theorem compile_perm_convoy :
    convoy.Perm convoy.reverse ∧ (∀ r ∈ convoy, r.Known) ∧
      convoyCorridor true convoy.reverse = convoyCorridor true convoy ∧
      convoyCorridor false convoy.reverse = convoyCorridor false convoy ∧
      ((convoyCorridor true convoy.reverse).result.toOption.map (·.hard)) =
        some [(6, 19), (15, 20), (179 / 10, 18)] ∧
      (convoyCorridor false convoy.reverse).result.toOption.isNone := by
  have hknown : ∀ r ∈ convoy, r.Known := by
    intro r hr name hname
    simp only [convoy, List.mem_cons, List.not_mem_nil, or_false] at hr
    rcases hr with rfl | rfl | rfl | rfl
    all_goals exact absurd hname (by simp only [reduceCtorEq, not_false_eq_true])
  have hperm : convoy.Perm convoy.reverse := convoy.reverse_perm.symm
  exact ⟨hperm, hknown, (compile_perm hperm hknown _ _ _ _ _ _ _).1,
    (compile_perm hperm hknown _ _ _ _ _ _ _).1, by decide +kernel, by decide +kernel⟩

end Corridor

end JerkPlan
