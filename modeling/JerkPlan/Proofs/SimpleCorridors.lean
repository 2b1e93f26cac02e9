import JerkPlan.Proofs.CorridorOutcomes

/-!
# Corridors of the simple mode

What the simple mode has in common with the soft one, and what one more region
does to it.

Nothing is opened again in the simple mode, so a corridor is what the regions
leave and nothing else. Two things follow.

More regions leave less. A further region raises the floors or lowers the
ceilings, and at a knot where all of them leave something, those that were there
before leave at least as much. So a corridor that comes about with the further
region comes about without it, and a walk through the knots that stops without
it stops with it, at the same knot or at an earlier one: `simple_further`.

And where the two modes read the same edges off all regions, the hard intervals
of the soft mode are cut to the same ends. These are opened again only where they
have closed. Ends that meet have closed for the soft mode and not for the simple
one, and so has an interval that ends at the start. If there is neither, both
modes agree: `withSoft_of_simple`.

## Main definitions

* `Region.Agrees`: Both modes read the same edges off a region.
* `Corridor.StopsAt`: The knot at which the walk of the simple mode stops, and why.
* `Corridor.Shrunk`: The interval of a knot with one more region.

## Theorems

* `Corridor.simpleCut_error_iff`: When a region cannot be cut off.
* `Corridor.simpleInterval_further`: A knot with one more region.
* `Corridor.simple_error_iff`: A corridor fails at the knot at which the walk stops.
* `Corridor.simple_further`: A corridor with one more region.
* `Corridor.softOpening_of_simple`: A knot at which both modes read the same.
* `Corridor.withSoft_of_simple`: The two modes agree.
-/

namespace JerkPlan

namespace Corridor

section Further

variable {R : Type} [OrderedScalar R] {regions regions' : List (Region R)} {r : Region R}
  {knots : Int} {step length t : R} {p : PlanSettings R}

/-- In the simple mode a region cannot be cut off when it is active and nobody
    knows how to deal with it, whatever is left of the interval. -/
theorem simpleCut_error_iff {b : R × R} {e : Failure R} :
    simpleCut p t b r = .error e ↔
      r.ActiveAt t ∧ ∃ name, r.manoeuvre = .other name ∧ e = .invalid (.regionKind name) := by
  unfold simpleCut
  by_cases hactive : r.ActiveAt t
  · rw [Region.passage_active hactive]
    cases r.manoeuvre with
    | stop | yield | follow | overtake =>
        simp only [reduceCtorEq, false_and, exists_false, and_false]
    | other name =>
        simp only [Except.error.injEq, Manoeuvre.other.injEq, exists_eq_left', hactive, true_and]
        exact eq_comm
  · rw [Region.passage_idle hactive]
    simp only [reduceCtorEq, hactive, false_and]

/-- A region that can be cut off an interval can be cut off any. -/
theorem simpleCut_total {b b' : R × R} (h : simpleCut p t b r = .ok b') (a : R × R) :
    ∃ a', simpleCut p t a r = .ok a' := by
  rcases hcut : simpleCut p t a r with e | a'
  · rw [simpleCut_error_iff.mpr (simpleCut_error_iff.mp hcut)] at h
    exact absurd h (by simp only [reduceCtorEq, not_false_eq_true])
  · exact ⟨a', rfl⟩

/-- The interval of a knot with one more region. Its floor is not lower and its
    ceiling not higher. A region to overtake leaves the ceiling where it is, and
    one that one stays below leaves the floor. -/
structure Shrunk (r : Region R) (b b' : R × R) : Prop where
  floor : b.1 ≤ b'.1
  ceiling : b'.2 ≤ b.2
  above : r.manoeuvre = .overtake → b'.2 = b.2
  below : r.StaysBelow → b'.1 = b.1

/-- What one more region does to the interval that is left. -/
theorem CutBy.shrunk (hperm : regions'.Perm (r :: regions)) {a b b' : R × R}
    (h : CutBy t (Region.simpleCeiling p t) (Region.hardFloor t) regions a b)
    (h' : CutBy t (Region.simpleCeiling p t) (Region.hardFloor t) regions' a b') :
    Shrunk r b b' := by
  rcases h.narrows (subset_of_perm_cons hperm) h' with ⟨hfloor, hceiling⟩
  refine ⟨hfloor, hceiling, fun hover => ?_, fun hbelow => ?_⟩
  · -- A region to overtake has no ceiling.
    exact h.upper_eq hperm (by simp only [Region.simpleCeiling, hover]) h'
  · -- The others have no floor.
    have hsilent : r.hardFloor t = none := by
      rcases hbelow with hkind | hkind | hkind
      all_goals simp only [Region.hardFloor, hkind]
    exact h.lower_eq hperm hsilent h'

/-- A knot that has an interval with one more region has one without it. -/
theorem simpleInterval_further (hperm : regions'.Perm (r :: regions)) {knot : Nat} {b' : R × R}
    (h' : (simpleInterval regions' length p knot t).result = .ok b') :
    ∃ b, (simpleInterval regions length p knot t).result = .ok b ∧ Shrunk r b b' := by
  have hcuts' := simpleInterval_cutBy h'
  rw [simpleInterval_result] at h'
  rcases bind_eq_ok_iff.mp h' with ⟨a', hrun', h'⟩
  rcases ite_error_iff.mp h' with ⟨hopen, ha'⟩
  rw [Except.ok.inj ha'] at hopen
  -- All of the regions have been cut off the whole path, so some of them can be.
  have hmade := foldlM_eq_ok regions' _ _ hrun'
  rcases foldlM_total (f := simpleCut p t) regions (fun x hx a => by
    rcases hmade x (subset_of_perm_cons hperm hx) with ⟨_, _, hcut⟩
    exact simpleCut_total hcut a) (0, length) with ⟨b, hrun⟩
  have hshrunk := CutBy.shrunk hperm (CutBy.run (fun _ _ _ => simpleCut_cutBy) regions _ _ hrun)
    hcuts'
  refine ⟨b, ?_, hshrunk⟩
  rw [simpleInterval_result, hrun]
  refine ite_error_iff.mpr ⟨?_, rfl⟩
  -- The ends are no closer to each other than those that have not crossed.
  rw [not_lt] at hopen ⊢
  exact hshrunk.floor.trans (hopen.trans hshrunk.ceiling)

/-- The walk of the simple mode through the knots stops at a knot, which is the
    first one without an interval. What the regions leave there has crossed, or one
    of them is active and nobody knows how to deal with it. -/
structure StopsAt (regions : List (Region R)) (knots : Int) (step length : R) (p : PlanSettings R)
    (k : Nat) (e : Failure R) : Prop where
  knot : k < knots.toNat
  before : ∀ i : Nat, i < k → ∃ b, (simpleInterval regions length p i ((i : R) * step)).result =
    .ok b
  failure : (simpleInterval regions length p k ((k : R) * step)).result = .error e
  reason : e = .stage (.corridor crossed (some k)) ∨ ∃ r ∈ regions, ∃ name,
    r.ActiveAt ((k : R) * step) ∧ r.manoeuvre = .other name ∧ e = .invalid (.regionKind name)

/-- Why a knot has no interval. -/
theorem simpleInterval_error {knot : Nat} {e : Failure R}
    (h : (simpleInterval regions length p knot t).result = .error e) :
    e = .stage (.corridor crossed (some knot)) ∨ ∃ r ∈ regions, ∃ name,
      r.ActiveAt t ∧ r.manoeuvre = .other name ∧ e = .invalid (.regionKind name) := by
  rw [simpleInterval_result] at h
  rcases bind_eq_error_iff.mp h with hcut | ⟨b, _, h⟩
  · rcases foldlM_eq_error regions _ hcut with ⟨b, r, hr, hcut⟩
    rcases simpleCut_error_iff.mp hcut with ⟨hactive, name, hname, he⟩
    exact Or.inr ⟨r, hr, name, hactive, hname, he⟩
  · exact Or.inl (ite_error_eq h).2

/-- Of the knots without an interval one is the first, and the walk stops there. -/
theorem stopsAt_first {k : Nat} {e : Failure R} (hk : k < knots.toNat)
    (he : (simpleInterval regions length p k ((k : R) * step)).result = .error e) :
    ∃ j e', j ≤ k ∧ StopsAt regions knots step length p j e' := by
  classical
  have hsome : ∃ j : Nat, ∃ e', (simpleInterval regions length p j ((j : R) * step)).result =
      .error e' := ⟨k, e, he⟩
  have hle : Nat.find hsome ≤ k := Nat.find_min' hsome ⟨e, he⟩
  rcases Nat.find_spec hsome with ⟨e', he'⟩
  refine ⟨Nat.find hsome, e', hle, ⟨by omega, fun i hi => ?_, he', simpleInterval_error he'⟩⟩
  rcases hresult : (simpleInterval regions length p i ((i : R) * step)).result with e | b
  · exact absurd ⟨e, hresult⟩ (Nat.find_min hsome hi)
  · exact ⟨b, rfl⟩

/-- A corridor fails as the knot does at which the walk stops. -/
theorem simple_error_iff {e : Failure R} :
    (simple regions knots step length p).result = .error e ↔
      ∃ k, StopsAt regions knots step length p k e := by
  have hresult {k : Nat} {e : Failure R} (hstop : StopsAt regions knots step length p k e) :
      (simple regions knots step length p).result = .error e :=
    Outcome.bind_error_iff.mpr (Or.inl (openings_eq_error hstop.knot hstop.before hstop.failure))
  constructor
  · intro h
    rcases Outcome.bind_error_iff.mp h with hwalk | ⟨os, _, hos⟩
    · rcases openings_error _ 0 hwalk with ⟨x, hx, hknot⟩
      rcases mem_knotTimes.mp hx with ⟨hi, ht⟩
      rw [ht] at hknot
      rcases stopsAt_first hi hknot with ⟨k, e', _, hstop⟩
      -- The walk stops at one knot, so this is the failure that is known.
      rw [hresult hstop] at h
      rw [Except.error.inj h] at hstop
      exact ⟨k, hstop⟩
    · exact absurd hos (by simp only [Outcome.result_pure, reduceCtorEq, not_false_eq_true])
  · rintro ⟨k, hstop⟩
    exact hresult hstop

/-- What one more region does to a corridor of the simple mode, wherever it stands
    in the list. If a corridor comes about with it, one comes about without it, and
    the intervals of all knots shrink. If none comes about without it, none does
    with it, and the walk through the knots stops no later. -/
theorem simple_further (hperm : regions'.Perm (r :: regions)) (knots : Int) (step length : R)
    (p : PlanSettings R) :
    (∀ corridor', (simple regions' knots step length p).result = .ok corridor' →
      ∃ corridor, (simple regions knots step length p).result = .ok corridor ∧
        corridor.hard.length = knots.toNat ∧ corridor'.hard.length = knots.toNat ∧
        List.Forall₂ (Shrunk r) corridor.hard corridor'.hard) ∧
    ∀ e, (simple regions knots step length p).result = .error e →
      ∃ k j e', StopsAt regions knots step length p k e ∧ j ≤ k ∧
        StopsAt regions' knots step length p j e' ∧
        (simple regions' knots step length p).result = .error e' := by
  constructor
  · intro corridor' h'
    rcases Outcome.bind_ok_iff.mp h' with ⟨bs', hbs', h'⟩
    have htotal : ∃ bs, (openings (simpleInterval regions length p) 0
        (knotTimes knots step)).result = .ok bs := by
      refine openings_total fun i hi => ?_
      rcases openings_entry hbs' hi with ⟨b', _, hb'⟩
      rcases simpleInterval_further hperm hb' with ⟨b, hb, _⟩
      exact ⟨b, hb⟩
    rcases htotal with ⟨bs, hbs⟩
    refine ⟨⟨bs, []⟩, Outcome.bind_ok_iff.mpr ⟨bs, hbs, rfl⟩, ?_⟩
    rw [← Except.ok.inj h']
    refine ⟨(length_openings hbs).trans (length_knotTimes knots step),
      (length_openings hbs').trans (length_knotTimes knots step), ?_⟩
    refine openings_related (fun i t b b' hb hb' => ?_) _ 0 bs bs' hbs hbs'
    rcases simpleInterval_further hperm hb' with ⟨a, ha, hshrunk⟩
    rw [Except.ok.inj (ha.symm.trans hb)] at hshrunk
    exact hshrunk
  · intro e h
    rcases simple_error_iff.mp h with ⟨k, hstop⟩
    -- An interval at this knot with the further region would leave one without it.
    rcases hknot : (simpleInterval regions' length p k ((k : R) * step)).result with e' | b'
    · rcases stopsAt_first hstop.knot hknot with ⟨j, e', hj, hstop'⟩
      exact ⟨k, j, e', hstop, hj, hstop', simple_error_iff.mpr ⟨j, hstop'⟩⟩
    · rcases simpleInterval_further hperm hknot with ⟨b, hb, _⟩
      rw [hstop.failure] at hb
      exact absurd hb (by simp only [reduceCtorEq, not_false_eq_true])

/-- The walk stops at the knot that the failure names, if it names one. -/
theorem StopsAt.eq_of_failedAt {k j : Nat} {e : Failure R}
    (hstop : StopsAt regions knots step length p k e)
    (h : failedAt (simple regions knots step length p).result = some j) : k = j := by
  rw [simple_error_iff.mpr ⟨k, hstop⟩] at h
  rcases hstop.reason with he | ⟨r, _, name, _, _, he⟩
  · rw [he] at h
    exact Int.ofNat_inj.mp (Option.some.inj h)
  · rw [he] at h
    exact absurd h (Option.some_ne_none _).symm

end Further

/-! The gap that closes, with a stop in it -/

/-- A stop in the gap leaves less of it at the first knot. After two seconds the gap
    has closed, and with the stop it has closed after one. -/
theorem simple_further_closingGap :
    (closingGap ++ [still .stop 10 12]).Perm (still .stop 10 12 :: closingGap) ∧
      (simple (closingGap ++ [still .stop 10 12]) 1 1 50 .usual).result = .ok ⟨[(8, 10)], []⟩ ∧
      (∃ corridor, (simple closingGap 1 1 50 .usual).result = .ok corridor ∧
        List.Forall₂ (Shrunk (still .stop 10 12)) corridor.hard [(8, 10)]) ∧
      ∃ e e', (simple closingGap 4 1 50 .usual).result = .error e ∧
        StopsAt closingGap 4 1 50 .usual 2 e ∧
        StopsAt (closingGap ++ [still .stop 10 12]) 4 1 50 .usual 1 e' := by
  have hperm : (closingGap ++ [still .stop 10 12]).Perm (still .stop 10 12 :: closingGap) :=
    List.perm_append_singleton _ _
  have h' : (simple (closingGap ++ [still .stop 10 12]) 1 1 50 .usual).result =
      .ok ⟨[(8, 10)], []⟩ := result_of_intervals (by decide +kernel)
  rcases (simple_further hperm 1 1 50 .usual).1 _ h' with ⟨corridor, h, _, _, hshrunk⟩
  refine ⟨hperm, h', ⟨corridor, h, hshrunk⟩, ?_⟩
  have hthird : failedAt (simple closingGap 4 1 50 .usual).result = some 2 := by decide +kernel
  have hsecond : failedAt (simple (closingGap ++ [still .stop 10 12]) 4 1 50 .usual).result =
      some 1 := by decide +kernel
  rcases hresult : (simple closingGap 4 1 50 .usual).result with e | corridor
  · rcases (simple_further hperm 4 1 50 .usual).2 e hresult with ⟨k, j, e', hstop, _, hstop', _⟩
    rw [hstop.eq_of_failedAt hthird] at hstop
    rw [hstop'.eq_of_failedAt hsecond] at hstop'
    exact ⟨e, e', rfl, hstop, hstop'⟩
  · rw [hresult] at hthird
    exact absurd hthird (Option.some_ne_none _).symm

end Corridor

section Agreeing

variable {R : Type} [RoundedScalar R]

namespace Region

/-- Both modes read the same edges off a region at a time. One yields without a
    gap, and the gap behind others is the fixed margin. -/
def Agrees (p : PlanSettings R) (t : R) (r : Region R) : Prop :=
  match r.manoeuvre with
  | .stop | .overtake => True
  | .yield => r.gap t = 0
  | .follow => r.gap t = p.followMargin
  | .other _ => False

variable {p : PlanSettings R} {t : R} {r : Region R}

theorem Agrees.known (h : r.Agrees p t) : r.Known := by
  intro name hname
  simp only [Agrees, hname] at h

theorem Agrees.hardCeiling_eq (h : r.Agrees p t) : r.hardCeiling t = r.simpleCeiling p t := by
  unfold Agrees at h
  cases hkind : r.manoeuvre with
  | stop | overtake => simp only [hardCeiling, simpleCeiling, hkind]
  | yield =>
      -- No gap is taken away from the edge.
      rw [hkind] at h
      simp only [hardCeiling, simpleCeiling, hkind, h, RoundedScalar.sub_zero]
  | follow =>
      rw [hkind] at h
      simp only [hardCeiling, simpleCeiling, hkind, h]
  | other name =>
      rw [hkind] at h
      exact h.elim

end Region

namespace Corridor

variable {regions : List (Region R)} {knots : Int} {step length : R} {rough : SpeedSeries R}
  {p : PlanSettings R}

/-- Where both modes read the same edges off all regions, the hard interval of a
    knot is that of the simple mode, if this is open ahead of the start. -/
theorem softOpening_of_simple {knot : Nat} {t : R} {b : R × R}
    (hagree : ∀ r ∈ regions, r.Agrees p t) (hrough : (rough.byTime t).isSome)
    (h : (simpleInterval regions length p knot t).result = .ok b) (hopen : b.1 < b.2)
    (hahead : 0 < b.2) (c : Comfort R) :
    ∃ o, (softOpening regions length rough none c p knot t).result = .ok o ∧ o.hard = b := by
  rcases expectedSpeed_total hrough regions with ⟨speed, hspeed⟩
  rcases cuts_total (fun r hr => (hagree r hr).known) c p t speed (Opening.whole length) with
    ⟨o, hcuts⟩
  -- Regions that are read alike leave the same interval of the whole path.
  have hhard : o.hard = b := by
    have hleft := CutBy.run (fun _ _ _ hcut => (cut_cutBy hcut).1) regions _ _ hcuts
    exact (hleft.congr (fun r hr => (hagree r hr).hardCeiling_eq) fun _ _ => rfl).unique
      (simpleInterval_cutBy h)
  have hsettled : (o.settle p.boundMargin).hard = b := by
    rw [← hhard] at hopen hahead ⊢
    exact (clampPair_eq_reopen o.hard p.boundMargin).trans (reopen_of_open hopen hahead _)
  refine ⟨o.settle p.boundMargin, ?_, hsettled⟩
  rw [softOpening_result, stopPlace_none]
  refine bind_eq_ok_iff.mpr ⟨speed, hspeed, bind_eq_ok_iff.mpr ⟨o, hcuts, ?_⟩⟩
  refine ite_error_iff.mpr ⟨not_lt.mpr ?_, rfl⟩
  rw [← hsettled] at hopen
  exact hopen.le

/-- The two modes agree where their rules do. Let both read the same edges off all
    regions at every knot, without an emergency stop and with a rough plan that can
    be read there. If the simple mode has a corridor, and all of its intervals are
    open ahead of the start, the soft mode has one with the same hard intervals. -/
theorem withSoft_of_simple {corridor : Corridor R}
    (hagree : ∀ r ∈ regions, ∀ i : Nat, i < knots.toNat → r.Agrees p ((i : R) * step))
    (hrough : ∀ i : Nat, i < knots.toNat → (rough.byTime ((i : R) * step)).isSome)
    (h : (simple regions knots step length p).result = .ok corridor)
    (hopen : ∀ b ∈ corridor.hard, b.1 < b.2 ∧ 0 < b.2) (c : Comfort R) :
    ∃ corridor', (withSoft regions knots step length rough none c p).result = .ok corridor' ∧
      corridor'.hard = corridor.hard := by
  rcases Outcome.bind_ok_iff.mp h with ⟨bs, hbs, h⟩
  rw [← Except.ok.inj h] at hopen ⊢
  have hagreed (i : Nat) (hi : i < knots.toNat) (b : R × R)
      (hb : (simpleInterval regions length p i ((i : R) * step)).result = .ok b) :
      ∃ o, (softOpening regions length rough none c p i ((i : R) * step)).result = .ok o ∧
        o.hard = b := by
    -- The interval is one of those that are known to be open.
    rcases openings_entry hbs hi with ⟨b', hentry, hb'⟩
    rw [Except.ok.inj (hb'.symm.trans hb)] at hentry
    rcases hopen b (List.mem_of_getElem? hentry) with ⟨hless, hahead⟩
    exact softOpening_of_simple (fun r hr => hagree r hr i hi) (hrough i hi) hb hless hahead c
  rcases openings_follow (fun _ b (o : Opening R) => o.hard = b) hbs hagreed with ⟨os, hos, hknot⟩
  refine ⟨_, Outcome.bind_ok_iff.mpr ⟨os, hos, rfl⟩, ?_⟩
  exact (openings_map_eq hbs hos hknot).trans (List.map_id bs)

end Corridor

end Agreeing

namespace Corridor

/-! Traffic without gaps -/

/-- Somebody to stop for, to yield to, to follow and to overtake. One keeps eight
    behind others and yields without a gap, but for half a second after the start. -/
def closeTraffic : List (Region Rat) :=
  [⟨.stop, [(0, 15), (9, 15)], [(0, 20), (9, 20)], 0, none⟩,
    ⟨.yield, [(0, 18), (2, 14)], [(0, 40), (2, 36)], 0, some (1 / 2, 5)⟩,
    ⟨.follow, [(0, 22), (9, 40)], [(0, 28), (9, 46)], 8, none⟩,
    ⟨.overtake, [(0, 2), (9, 11)], [(0, 6), (9, 15)], 0, none⟩]

theorem closeTraffic_agrees : ∀ r ∈ closeTraffic, ∀ i : Nat, i < (3 : Int).toNat →
    r.Agrees .usual ((i : Rat) * 1) := by
  intro r hr
  simp only [closeTraffic, List.mem_cons, List.not_mem_nil, or_false] at hr
  rcases hr with rfl | rfl | rfl | rfl
  · exact fun _ _ => trivial
  · change ∀ i : Nat, i < (3 : Int).toNat → Region.gap _ ((i : Rat) * 1) = 0
    decide +kernel
  · have hgap : (8 : Rat) = PlanSettings.usual.followMargin := by decide +kernel
    exact fun _ _ => hgap
  · exact fun _ _ => trivial

/-- At the three knots one follows, stops and yields, in this order. -/
theorem withSoft_of_simple_closeTraffic :
    (∀ r ∈ closeTraffic, ∀ i : Nat, i < (3 : Int).toNat → r.Agrees .usual ((i : Rat) * 1)) ∧
      (∀ i : Nat, i < (3 : Int).toNat → (convoyPlan.byTime ((i : Rat) * 1)).isSome) ∧
      (simple closeTraffic 3 1 50 .usual).result = .ok ⟨[(6, 14), (7, 15), (8, 14)], []⟩ ∧
      (∀ b ∈ [((6 : Rat), (14 : Rat)), (7, 15), (8, 14)], b.1 < b.2 ∧ 0 < b.2) ∧
      ∃ corridor', (withSoft closeTraffic 3 1 50 convoyPlan none .usual .usual).result =
          .ok corridor' ∧ corridor'.hard = [(6, 14), (7, 15), (8, 14)] := by
  have hrough : ∀ i : Nat, i < (3 : Int).toNat → (convoyPlan.byTime ((i : Rat) * 1)).isSome := by
    decide +kernel
  have h : (simple closeTraffic 3 1 50 .usual).result = .ok ⟨[(6, 14), (7, 15), (8, 14)], []⟩ :=
    result_of_intervals (by decide +kernel)
  have hopen : ∀ b ∈ [((6 : Rat), (14 : Rat)), (7, 15), (8, 14)], b.1 < b.2 ∧ 0 < b.2 := by
    decide +kernel
  exact ⟨closeTraffic_agrees, hrough, h, hopen,
    withSoft_of_simple closeTraffic_agrees hrough h hopen .usual⟩

end Corridor

end JerkPlan
