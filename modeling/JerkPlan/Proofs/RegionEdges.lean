import Mathlib.Data.Prod.Lex
import JerkPlan.Proofs.Arranging
import JerkPlan.Proofs.CorridorEnds
import JerkPlan.Proofs.Readings

/-!
# Steps in the edges of a region

What a region leaves free at the time of a point of its edges.

The points of an edge can be given in any order, and several of them can be of one
time. Then the edge has a step there. Points are sorted by time first and by
distance where times are the same, and the search by time ends at the first point
of a time. That is the lowest one, `edgeAt_isLeast`: at a step every edge is read
at its lower end.

For a region that one stays below this is the safe end, whatever the step leads to.
For one that is to be overtaken it is the other way round. Its floor is at the
lower end of the step, and the higher points of that time are inside of what is
left free: `make_passage_step` for all regions, `make_passage_cuts` for one of them.

## Main definitions

* `Region.TimesApart`: An edge with times that interpolation can tell apart.

## Theorems

* `pairBelow_iff`, `pairBelow_ranks`: Pairs are sorted by a linear order.
* `Region.edgeAt_eq`: Reading an edge at the point that the search ends at.
* `Region.edgeAt_isLeast`: Reading an edge at a step.
* `Region.make_ok`: What a region is made of.
* `Region.make_passage_step`: What a region leaves free at a step.
* `Region.make_passage_cuts`: A floor inside of a region.
-/

namespace JerkPlan

variable {R : Type} [ExactScalar R]

/-! The order of pairs -/

/-- Pairs are in the lexicographic order. -/
theorem pairBelow_iff (p q : R × R) : pairBelow p q = true ↔ toLex p < toLex q := by
  rw [Prod.Lex.toLex_lt_toLex, pairBelow]
  by_cases hsame : p.1 = q.1
  · rw [if_pos ((same_iff _ _).mpr hsame), decide_eq_true_eq, hsame]
    simp only [lt_irrefl, true_and, false_or]
  · rw [if_neg (by rw [same_iff]; exact hsame), decide_eq_true_eq]
    simp only [hsame, false_and, or_false]

theorem pairBelow_eq_false_iff (p q : R × R) : pairBelow q p = false ↔ toLex p ≤ toLex q := by
  rw [← Bool.not_eq_true, pairBelow_iff, not_lt]

theorem pairBelow_ranks : Ranks (pairBelow : R × R → R × R → Bool) := by
  constructor
  · intro p q h
    rw [pairBelow_eq_false_iff]
    exact ((pairBelow_iff p q).mp h).le
  · intro p q u hpq hqu
    rw [pairBelow_eq_false_iff] at hpq hqu ⊢
    exact hpq.trans hqu

namespace Region

variable {edge : List (R × R)} {t s : R}

/-! Reading an edge -/

/-- Points of an edge are of one time, or so far apart that interpolation can tell. -/
def TimesApart (edge : List (R × R)) : Prop :=
  ∀ p ∈ edge, ∀ q ∈ edge, p.1 = q.1 ∨ decimal 1 10 < |p.1 - q.1|

/-- The order in which points are given does not matter. -/
theorem TimesApart.perm {edge' : List (R × R)} (h : TimesApart edge) (hperm : edge'.Perm edge) :
    TimesApart edge' :=
  fun p hp q hq => h p (hperm.mem_iff.mp hp) q (hperm.mem_iff.mp hq)

/-- An edge is read at the point that the search ends at, if this is of the time that is
    read for. -/
theorem edgeAt_eq (hapart : TimesApart edge)
    (hpoint : edge[lowerIndex (edge.map (·.1)) t]? = some (t, s)) : edgeAt edge t = s := by
  have hbefore := (lowerIndex_between (edge.map (·.1)) t).1
  unfold edgeAt
  simp only
  generalize lowerIndex (edge.map (·.1)) t = i at hpoint hbefore
  have hi := (List.getElem?_eq_some_iff.mp hpoint).1
  have hprevious : edge[i - 1]? = some edge[i - 1] := List.getElem?_eq_getElem (by omega)
  rw [hpoint, hprevious]
  rcases Nat.eq_zero_or_pos i with hfirst | hlater
  · simp only [if_pos hfirst]
  · -- The point before it is of an earlier time, and hence far enough away.
    have hearlier : edge[i - 1].1 < t :=
      hbefore _ hlater (by rw [List.getElem?_map, hprevious, Option.map_some])
    simp only [if_neg (Nat.ne_of_gt hlater)]
    refine lerp_end ?_
    rw [abs_sub_comm]
    exact (hapart _ (List.getElem_mem _) _ (List.mem_of_getElem? hpoint)).resolve_left hearlier.ne

/-- In an edge in order, the search for the time of some point ends at a point of this
    time that is no higher. -/
theorem lowerIndex_point (hedge : InOrder pairBelow edge) (hpoint : (t, s) ∈ edge) :
    ∃ lowest, edge[lowerIndex (edge.map (·.1)) t]? = some (t, lowest) ∧ lowest ≤ s := by
  have hlex : edge.Pairwise fun p q => toLex p ≤ toLex q :=
    hedge.imp fun hpq => (pairBelow_eq_false_iff _ _).mp hpq
  have hkeys : (edge.map (·.1)).Pairwise (· ≤ ·) :=
    List.pairwise_map.mpr (hlex.imp fun hpq => Prod.Lex.monotone_fst _ _ hpq)
  have hkey {i : Nat} {p : R × R} (hp : edge[i]? = some p) :
      (edge.map (·.1))[i]? = some p.1 := by
    rw [List.getElem?_map, hp, Option.map_some]
  rcases List.mem_iff_getElem?.mp hpoint with ⟨k, hk⟩
  rcases List.getElem?_eq_some_iff.mp hk with ⟨hlength, hget⟩
  -- The search ends at this point or before, since its time is not below itself.
  have hle : lowerIndex (edge.map (·.1)) t ≤ k :=
    Nat.not_lt.mp fun hlt => lt_irrefl t ((lowerIndex_lt_iff hkeys t (hkey hk)).mpr hlt)
  have hfound := List.getElem?_eq_getElem (Nat.lt_of_le_of_lt hle hlength)
  have hlate := (lowerIndex_between (edge.map (·.1)) t).2 _ (hkey hfound)
  have hlow : toLex edge[lowerIndex (edge.map (·.1)) t] ≤ toLex (t, s) := by
    rw [← hget]
    rcases Nat.eq_or_lt_of_le hle with heq | hlt
    · simp only [heq, le_refl]
    · exact List.pairwise_iff_getElem.mp hlex _ _ _ hlength hlt
  rcases Prod.Lex.toLex_le_toLex.mp hlow with hearly | ⟨hsame, hlowest⟩
  · exact absurd hearly hlate
  · refine ⟨_, ?_, hlowest⟩
    rw [hfound]
    exact congrArg some (Prod.ext hsame rfl)

/-- At the time of some point, an edge in order is read at the lowest of all points of
    this time. -/
theorem edgeAt_isLeast (hedge : InOrder pairBelow edge) (hapart : TimesApart edge)
    (hpoint : (t, s) ∈ edge) : IsLeast {x | (t, x) ∈ edge} (edgeAt edge t) := by
  constructor
  · rcases lowerIndex_point hedge hpoint with ⟨lowest, hfound, _⟩
    rw [edgeAt_eq hapart hfound]
    exact List.mem_of_getElem? hfound
  · intro x hx
    rcases lowerIndex_point hedge hx with ⟨lowest, hfound, hle⟩
    rw [edgeAt_eq hapart hfound]
    exact hle

/-- So it is for points in any order, once they have been sorted. -/
theorem edgeAt_arrange_isLeast (hapart : TimesApart edge) (hpoint : (t, s) ∈ edge) :
    IsLeast {x | (t, x) ∈ edge} (edgeAt (arrange pairBelow edge) t) := by
  have hperm : (arrange pairBelow edge).Perm edge := arrange_perm edge
  have hleast := edgeAt_isLeast (arrange_inOrder pairBelow_ranks edge) (hapart.perm hperm)
    (hperm.mem_iff.mpr hpoint)
  simp only [hperm.mem_iff] at hleast
  exact hleast

/-! What is left free -/

variable {manoeuvre : Manoeuvre} {lower upper : List (R × R)} {clearance : R}
  {ending : Option (R × R)} {r : Region R}

/-- A region is made of what is given, with its edges sorted. -/
theorem make_ok (h : make manoeuvre lower upper clearance ending = .ok r) :
    r = ⟨manoeuvre, arrange pairBelow lower, arrange pairBelow upper, clearance, ending⟩ :=
  (Except.ok.inj (ite_error_ok h).2).symm

/-- What a region leaves free at a time at which its edges may have steps. The ceiling of
    a region that one stays below is at or below all points of this time. The floor of one
    that is to be overtaken is at or above exactly those that are not ahead of the start
    or that no other point of this time is below. -/
theorem make_passage_step (hmake : make manoeuvre lower upper clearance ending = .ok r)
    (hlower : TimesApart lower) (hupper : TimesApart upper) (hactive : r.ActiveAt t) :
    (r.StaysBelow → ∃ ceiling, r.passage t = some (.below ceiling) ∧
      ∀ s, (t, s) ∈ lower → ceiling ≤ s) ∧
    (r.manoeuvre = .overtake → ∃ floor, r.passage t = some (.above floor) ∧
      ∀ s, (t, s) ∈ upper → (s ≤ floor ↔ s ≤ 0 ∨ ∀ s', (t, s') ∈ upper → s ≤ s')) := by
  have hpassage := passage_active hactive
  rw [make_ok hmake] at hpassage ⊢
  constructor
  · intro hbelow
    refine ⟨edgeAt (arrange pairBelow lower) t, ?_,
      fun s hs => (edgeAt_arrange_isLeast hlower hs).2 hs⟩
    rw [hpassage]
    rcases hbelow with hstop | hyield | hfollow
    · rw [hstop]
    · rw [hyield]
    · rw [hfollow]
  · intro hovertake
    refine ⟨max 0 (edgeAt (arrange pairBelow upper) t), ?_, fun s hs => ?_⟩
    · rw [hpassage, hovertake]
    · have hleast := edgeAt_arrange_isLeast hupper hs
      rw [le_max_iff]
      exact or_congr_right ⟨fun hle s' hs' => hle.trans (hleast.2 hs'), fun hall => hall _ hleast.1⟩

/-! An edge with a step -/

/-- An edge that is raised from five to ten a second after the start, with its points out
    of order. -/
def raised : List (Rat × Rat) := [(1, 10), (0, 5), (2, 10), (1, 5)]

/-- An edge of as many points that stays where it is. -/
def level (s : Rat) : List (Rat × Rat) := [(0, s), (1, s), (1, s), (2, s)]

theorem raised_timesApart : TimesApart raised := by
  norm_num [TimesApart, raised, decimal_eq]

theorem level_timesApart (s : Rat) : TimesApart (level s) := by
  norm_num [TimesApart, level, decimal_eq]

/-- The two points at the time of the step. -/
theorem mem_raised (s : Rat) : (1, s) ∈ raised ↔ s = 10 ∨ s = 5 := by
  simp [raised]

theorem top_mem_raised : (1, 10) ∈ raised := (mem_raised 10).mpr (Or.inl rfl)

theorem foot_mem_raised : (1, 5) ∈ raised := (mem_raised 5).mpr (Or.inr rfl)

/-- Somebody ahead who moves off at the step, and to whom one yields. -/
def movingOff : Region Rat :=
  ⟨.yield, arrange pairBelow raised, arrange pairBelow (level 20), 0, none⟩

/-- Somebody behind who closes up at the step, and whom one overtakes. -/
def closingUp : Region Rat :=
  ⟨.overtake, arrange pairBelow (level 0), arrange pairBelow raised, 0, none⟩

theorem movingOff_make : make .yield raised (level 20) 0 none = .ok movingOff := rfl

theorem closingUp_make : make .overtake (level 0) raised 0 none = .ok closingUp := rfl

theorem movingOff_active : movingOff.ActiveAt 1 := by
  unfold ActiveAt
  decide

theorem closingUp_active : closingUp.ActiveAt 1 := by
  unfold ActiveAt
  decide

/-- If one yields, the ceiling is below both ends of the step. If one overtakes, the floor
    is above the lower end, but not above the upper one. -/
theorem make_passage_step_raised :
    (∃ ceiling, movingOff.passage 1 = some (.below ceiling) ∧ ceiling ≤ 5 ∧ ceiling ≤ 10) ∧
    ∃ floor, closingUp.passage 1 = some (.above floor) ∧ 5 ≤ floor ∧ ¬ 10 ≤ floor := by
  constructor
  · rcases (make_passage_step movingOff_make raised_timesApart (level_timesApart 20)
      movingOff_active).1 (Or.inr (Or.inl rfl)) with ⟨ceiling, hpassage, hbelow⟩
    exact ⟨ceiling, hpassage, hbelow 5 foot_mem_raised, hbelow 10 top_mem_raised⟩
  · rcases (make_passage_step closingUp_make (level_timesApart 0) raised_timesApart
      closingUp_active).2 rfl with ⟨floor, hpassage, habove⟩
    have hlowest : ∀ s', (1, s') ∈ raised → (5 : Rat) ≤ s' := by
      intro s' hs'
      rcases (mem_raised s').mp hs' with rfl | rfl
      · norm_num
      · exact le_rfl
    refine ⟨floor, hpassage, (habove 5 foot_mem_raised).mpr (Or.inr hlowest), ?_⟩
    rw [habove 10 top_mem_raised, not_or]
    exact ⟨by norm_num, fun hall => absurd (hall 5 foot_mem_raised) (by norm_num)⟩

/-- So what is left free when one overtakes can cut into the obstacle at a step. -/
theorem make_passage_cuts :
    ¬ ∀ (manoeuvre : Manoeuvre) (lower upper : List (Rat × Rat)) (clearance : Rat)
      (ending : Option (Rat × Rat)) (r : Region Rat) (t : Rat),
      make manoeuvre lower upper clearance ending = .ok r →
      TimesApart lower → TimesApart upper → r.ActiveAt t →
      (r.StaysBelow → ∃ ceiling, r.passage t = some (.below ceiling) ∧
        ∀ s, (t, s) ∈ lower → ceiling ≤ s) ∧
      (r.manoeuvre = .overtake → ∃ floor, r.passage t = some (.above floor) ∧
        ∀ s, (t, s) ∈ upper → s ≤ floor) := by
  intro hall
  rcases (hall .overtake (level 0) raised 0 none closingUp 1 closingUp_make (level_timesApart 0)
    raised_timesApart closingUp_active).2 rfl with ⟨floor, hpassage, habove⟩
  have hfloor : max 0 (edgeAt closingUp.upper 1) = 5 := by decide +kernel
  rw [passage_active closingUp_active] at hpassage
  have heq : max 0 (edgeAt closingUp.upper 1) = floor :=
    Passage.above.inj (Option.some.inj hpassage)
  have hcut := habove 10 top_mem_raised
  rw [← heq, hfloor] at hcut
  exact absurd hcut (by norm_num)

end Region

end JerkPlan
