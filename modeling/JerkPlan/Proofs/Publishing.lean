import JerkPlan.Proofs.KnotRows
import JerkPlan.Publication

/-!
# What is published

The samples of a published profile, and what is appended to them.

Publishing can lose knots in two places. The samples of a profile end before
the first knot with a negative speed, and a series takes a sample only if its
time is not before the last one. The second never happens, since the knots are
in order of time, and the first knot is always there: `publish_kept` gives the
samples of any profile in closed form. A profile that never goes backwards loses
nothing, which is `publish_eq`. What a series is continued by stands still
where the series ends, which `of_fill` says of every continuation, however
long.

## Main definitions

* `KnotProfile.Shown`, `SpeedSeries.Shows`: A series that shows a profile and then
  stands still.
* `knotSample`: The sample of a knot.

## Theorems

* `KnotProfile.shaped_of_valid`, `KnotProfile.Shaped.valid`: What makes a
  profile valid.
* `profileSamples_shown`, `appendAll_ok`, `of_standing`, `of_fill`,
  `shows_of_publish`: What is published and continued, in any arithmetic.
* `samplesAfter_range'`: The samples of the knots after one.
* `profileSamples_kept`, `profileSamples_eq`: The samples of a profile.
* `appendAll_eq`: A series takes samples in order of time.
* `publish_kept`, `publish_eq`: A published profile in closed form.
-/

namespace JerkPlan

/-- A profile that is valid has as many entries of each kind as its size. -/
theorem KnotProfile.shaped_of_valid {R : Type} {k : KnotProfile R} (h : k.valid = true) :
    k.Shaped k.size := by
  simp only [valid, Bool.and_eq_true, beq_iff_eq] at h
  exact ⟨rfl, h.1.2.symm, (h.1.2.trans h.2).symm⟩

/-- A profile with entries of each kind for some knots is valid. -/
theorem KnotProfile.Shaped.valid {R : Type} {k : KnotProfile R} {n : Nat} (hk : k.Shaped n)
    (hn : 0 < n) : k.valid = true := by
  simp only [KnotProfile.valid, hk.values, hk.slopes, hk.bends, hn, decide_true,
    beq_self_eq_true, Bool.and_self]

/-- The knots of a profile: distance, speed and acceleration. -/
def KnotProfile.knots {R : Type} (k : KnotProfile R) : List (R × R × R) := k.p.zip (k.v.zip k.a)

theorem KnotProfile.length_knots {R : Type} {k : KnotProfile R} (h : k.valid = true) :
    k.knots.length = k.size := by
  have hk := shaped_of_valid h
  rw [knots, List.length_zip, List.length_zip, hk.values, hk.slopes, hk.bends, Nat.min_self,
    Nat.min_self]

/-- The knot that a sample shows. -/
def SpeedSample.knot {R : Type} (q : SpeedSample R) : R × R × R := (q.s, q.v, q.a)

section AnyArithmetic

variable {R : Type} [Scalar R]

/-- Samples that show the knots of a profile, and what stands behind them. The
    knots come in order and without a gap, from the first one up to the end of
    the profile or to one that would lead backwards. An invalid profile has
    none, and what follows stands still where they end. -/
structure KnotProfile.Shown (k : KnotProfile R) (samples rest : List (SpeedSample R)) : Prop where
  first : samples ≠ [] ↔ k.valid = true
  knots : samples.map (·.knot) <+: k.knots
  forward : ∀ q ∈ samples.tail, ¬ q.v < 0
  ends : k.valid = true → samples.length = k.size ∨
    ∃ b, k.knots[samples.length]? = some b ∧ b.2.1 < 0
  standing : ∀ q ∈ rest, ∃ last, samples.getLast? = some last ∧ q.s = last.s ∧ q.v = 0 ∧ q.a = 0

/-- A series that shows a profile and then stands still. -/
def SpeedSeries.Shows (d : SpeedSeries R) (k : KnotProfile R) : Prop :=
  ∃ samples rest, d.samples = samples ++ rest ∧ k.Shown samples rest

/-- The samples of the knots after one are these knots, up to the first that would
    lead backwards. -/
theorem samplesAfter_knots {step : R} (knots : List (R × R × R)) :
    ∀ a i samples, samplesAfter step true a i knots = .ok samples →
      samples.map (·.knot) <+: knots ∧ (∀ q ∈ samples, ¬ q.v < 0) ∧
        (samples.length = knots.length ∨ ∃ b, knots[samples.length]? = some b ∧ b.2.1 < 0) := by
  induction knots with
  | nil =>
      intro a i samples h
      rw [samplesAfter, Except.ok.injEq] at h
      rw [← h]
      exact ⟨List.prefix_refl _, fun q hq => absurd hq List.not_mem_nil, Or.inl rfl⟩
  | cons knot knots ih =>
      intro a i samples h
      rw [samplesAfter] at h
      by_cases hstop : true = true ∧ knot.2.1 < 0
      · rw [if_pos hstop, Except.ok.injEq] at h
        rw [← h]
        refine ⟨?_, fun q hq => absurd hq List.not_mem_nil, Or.inr ⟨knot, rfl, hstop.2⟩⟩
        exact List.nil_prefix
      · rw [if_neg hstop] at h
        rcases ite_error_ok h with ⟨_, h⟩
        rcases bind_eq_ok_iff.mp h with ⟨more, hmore, h⟩
        rcases ih _ _ more hmore with ⟨hknots, hforward, hend⟩
        rw [← Except.ok.inj h]
        refine ⟨?_, ?_, ?_⟩
        · exact List.cons_prefix_cons.mpr ⟨rfl, hknots⟩
        · intro q hq
          rcases List.mem_cons.mp hq with rfl | hq
          · exact fun hv => hstop ⟨rfl, hv⟩
          · exact hforward q hq
        · simpa only [List.length_cons, Nat.add_right_cancel_iff, List.getElem?_cons_succ]
            using hend

/-- The samples of a profile show it. -/
theorem profileSamples_shown {k : KnotProfile R} {step : R} {samples : List (SpeedSample R)}
    (h : profileSamples k step true = .ok samples) : k.Shown samples [] := by
  unfold profileSamples at h
  split at h
  · next hinvalid =>
      rw [Except.ok.injEq] at h
      rw [← h]
      rw [Bool.not_eq_true'] at hinvalid
      have hnot : ¬ k.valid = true := by rw [hinvalid]; exact Bool.false_ne_true
      exact ⟨⟨fun hne => absurd rfl hne, fun hvalid => absurd hvalid hnot⟩, List.nil_prefix,
        fun q hq => absurd hq List.not_mem_nil, fun hvalid => absurd hvalid hnot,
        fun q hq => absurd hq List.not_mem_nil⟩
  next hvalid =>
  rw [Bool.not_eq_true, Bool.not_eq_false'] at hvalid
  have hlength := KnotProfile.length_knots hvalid
  split at h
  · -- A valid profile has a knot to begin with.
    next hempty =>
      rw [KnotProfile.knots, hempty, List.length_nil] at hlength
      simp only [KnotProfile.valid, Bool.and_eq_true, decide_eq_true_eq] at hvalid
      rw [KnotProfile.size] at hlength
      omega
  next p v a rest hknots =>
  rcases bind_eq_ok_iff.mp h with ⟨more, hmore, h⟩
  rcases samplesAfter_knots rest _ _ more hmore with ⟨hbegins, hforward, hend⟩
  rw [← Except.ok.inj h]
  have hall : k.knots = (p, v, a) :: rest := hknots
  constructor
  · exact ⟨fun _ => hvalid, fun _ => List.cons_ne_nil _ _⟩
  · rw [hall]
    exact List.cons_prefix_cons.mpr ⟨rfl, hbegins⟩
  · exact hforward
  · intro _
    rw [← hlength, hall]
    simpa only [List.length_cons, Nat.add_right_cancel_iff, List.getElem?_cons_succ] using hend
  · exact fun q hq => absurd hq List.not_mem_nil

/-- A series that has taken all samples has them at its end. -/
theorem appendAll_ok (ps : List (SpeedSample R)) :
    ∀ d e : SpeedSeries R, appendAll ps d = (e, none) → e.samples = d.samples ++ ps := by
  induction ps with
  | nil =>
      intro d e h
      rw [appendAll, Prod.mk.injEq] at h
      rw [← h.1, List.append_nil]
  | cons p ps ih =>
      intro d e h
      rw [appendAll] at h
      rcases hp : d.append p with failure | d'
      · rw [hp] at h
        exact absurd h (by simp only [Prod.mk.injEq, reduceCtorEq, and_false, not_false_eq_true])
      rw [hp] at h
      have hd' : d'.samples = d.samples ++ [p] := by
        unfold SpeedSeries.append at hp
        split at hp
        · rw [← Except.ok.inj (ite_error_ok hp).2]
        · next hlast =>
            rw [← Except.ok.inj hp, List.getLast?_eq_none_iff.mp hlast]
            rfl
      rw [ih d' e h, hd', List.append_assoc, List.singleton_append]

/-- Standing samples are all at one distance, without speed. -/
theorem of_standing {s unit finish : R} {q : SpeedSample R} (fuel : Nat) :
    ∀ t, q ∈ SpeedSeries.standing s unit finish fuel t → q.s = s ∧ q.v = 0 ∧ q.a = 0 := by
  induction fuel with
  | zero =>
      intro t hq
      exact absurd hq (by simp [SpeedSeries.standing])
  | succ fuel ih =>
      intro t hq
      rw [SpeedSeries.standing] at hq
      by_cases ht : t < finish
      · rw [if_pos ht, List.mem_cons] at hq
        rcases hq with rfl | hq
        · exact ⟨rfl, rfl, rfl⟩
        · exact ih _ hq
      · rw [if_neg ht] at hq
        exact absurd hq List.not_mem_nil

/-- A series is continued standing still where it ends. -/
theorem of_fill {d e : SpeedSeries R} {finish unit : R} (h : d.fill finish unit = .ok e) :
    ∃ rest, e.samples = d.samples ++ rest ∧
      ∀ q ∈ rest, ∃ last, d.samples.getLast? = some last ∧ q.s = last.s ∧ q.v = 0 ∧ q.a = 0 := by
  have hsame (heq : (.ok d : Except (Failure R) (SpeedSeries R)) = .ok e) :
      ∃ rest, e.samples = d.samples ++ rest ∧
        ∀ q ∈ rest, ∃ last, d.samples.getLast? = some last ∧ q.s = last.s ∧ q.v = 0 ∧ q.a = 0 := by
    rw [Except.ok.injEq] at heq
    refine ⟨[], ?_, fun q hq => absurd hq List.not_mem_nil⟩
    rw [← heq, List.append_nil]
  -- Nothing is appended to an empty series, nor to one that lasts long enough.
  unfold SpeedSeries.fill at h
  rcases hlast : d.samples.getLast? with _ | last
  · simp only [hlast] at h
    rw [← hlast]
    exact hsame h
  simp only [hlast] at h
  split at h
  · rw [← hlast]
    exact hsame h
  split at h
  · exact absurd h (by simp only [reduceCtorEq, not_false_eq_true])
  · rw [Except.ok.injEq] at h
    rw [← h]
    exact ⟨_, rfl, fun q hq => ⟨last, rfl, of_standing _ _ hq⟩⟩

/-- A profile that is published and continued is shown. -/
theorem shows_of_publish {k : KnotProfile R} {step finish unit : R} {d e : SpeedSeries R}
    (he : publish k step = (e, none)) (hd : e.fill finish unit = .ok d) : d.Shows k := by
  unfold publish at he
  rcases hsamples : profileSamples k step true with failure | samples
  · rw [hsamples] at he
    exact absurd he (by simp only [Prod.mk.injEq, reduceCtorEq, and_false, not_false_eq_true])
  rw [hsamples] at he
  have hall := appendAll_ok samples _ e he
  have hshown := profileSamples_shown hsamples
  rcases of_fill hd with ⟨rest, hrest, hstanding⟩
  rw [SpeedSeries.empty, List.nil_append] at hall
  rw [hall] at hrest hstanding
  exact ⟨samples, rest, hrest, { hshown with standing := hstanding }⟩

end AnyArithmetic

variable {R : Type} [ExactScalar R]

/-- The sample of a knot, given the states at all knots. Its jerk is the
    change of acceleration since the knot before. -/
def knotSample (step : R) (s : Nat → Motion R) (i : Nat) : SpeedSample R :=
  ⟨(s i).p, (i : R) * step, (s i).v, (s i).a,
    if i = 0 then 0 else ((s i).a - (s (i - 1)).a) / step⟩

/-- The samples of the knots after one, by induction on how many there are.
    With `stopping` they end before the first negative speed, and else none is
    left out. -/
theorem samplesAfter_range' {step : R} (hstep : 0 < step) (stopping : Bool) (s : Nat → Motion R)
    (m : Nat) :
    ∀ i, ∃ l ≤ m, samplesAfter step stopping (s i).a (i + 1)
          ((List.range' (i + 1) m).map fun j => ((s j).p, (s j).v, (s j).a)) =
        .ok ((List.range' (i + 1) l).map (knotSample step s)) ∧
      (stopping = true → ∀ j, i < j → j ≤ i + l → 0 ≤ (s j).v) ∧
      (l = m ∨ stopping = true ∧ (s (i + l + 1)).v < 0) := by
  induction m with
  | zero =>
      intro i
      exact ⟨0, Nat.le_refl 0, rfl, fun _ j hj hm => absurd hm (by omega), Or.inl rfl⟩
  | succ m ih =>
      intro i
      rw [List.range'_succ, List.map_cons]
      by_cases hstop : stopping = true ∧ (s (i + 1)).v < 0
      · refine ⟨0, Nat.zero_le _, ?_, fun _ j hj hm => absurd hm (by omega), Or.inr hstop⟩
        rw [samplesAfter, if_pos hstop, List.range'_zero, List.map_nil]
      rcases ih (i + 1) with ⟨l, hl, hmore, hspeeds, hend⟩
      have hsample : (⟨(s (i + 1)).p, step * ((i + 1 : Nat) : R), (s (i + 1)).v, (s (i + 1)).a,
          ((s (i + 1)).a - (s i).a) / step⟩ : SpeedSample R) = knotSample step s (i + 1) := by
        rw [knotSample, if_neg (Nat.succ_ne_zero i), Nat.add_sub_cancel, mul_comm]
      refine ⟨l + 1, by omega, ?_, fun hstopping j hj hm => ?_, ?_⟩
      · -- The knot is not left out and the step is not zero, so it has a sample.
        rw [List.range'_succ, List.map_cons]
        simp only [samplesAfter, if_neg hstop, same_eq_false hstep.ne', Bool.false_eq_true,
          if_false, hmore, hsample]
        rfl
      · rcases Nat.eq_or_lt_of_le (Nat.succ_le_of_lt hj) with rfl | hj
        · exact not_lt.mp fun hv => hstop ⟨hstopping, hv⟩
        · exact hspeeds hstopping j hj (by omega)
      · rw [← Nat.add_assoc, Nat.add_right_comm i l 1]
        exact hend.imp_left fun hm => by rw [hm]

/-- The knots of a profile, one by one. -/
theorem zip_eq_map_range {k : KnotProfile R} {n : Nat} (hk : k.Shaped n) :
    k.p.zip (k.v.zip k.a) = (List.range n).map fun i =>
      ((stateAt n k.point i).p, (stateAt n k.point i).v, (stateAt n k.point i).a) := by
  apply List.ext_getElem?
  intro i
  by_cases hi : i < n
  · rcases stateAt_point hk hi with ⟨hp, hv, ha⟩
    have hva : (k.v.zip k.a)[i]? =
        some ((stateAt n k.point i).v, (stateAt n k.point i).a) :=
      List.getElem?_zip_eq_some.mpr ⟨hv, ha⟩
    have hpva : (k.p.zip (k.v.zip k.a))[i]? =
        some ((stateAt n k.point i).p, (stateAt n k.point i).v, (stateAt n k.point i).a) :=
      List.getElem?_zip_eq_some.mpr ⟨hp, hva⟩
    rw [hpva, List.getElem?_map, List.getElem?_range hi, Option.map_some]
  · have hlength : (k.p.zip (k.v.zip k.a)).length = n := by
      rw [List.length_zip, List.length_zip, hk.values, hk.slopes, hk.bends, Nat.min_self,
        Nat.min_self]
    rw [List.getElem?_eq_none (by omega), List.getElem?_eq_none (by simp; omega)]

/-- The samples of a profile: those of its first knots, at least of one. -/
theorem profileSamples_kept {step : R} (hstep : 0 < step) (stopping : Bool) {k : KnotProfile R}
    {n : Nat} (hn : 0 < n) (hk : k.Shaped n) :
    ∃ m, 0 < m ∧ m ≤ n ∧ profileSamples k step stopping =
        .ok ((List.range m).map (knotSample step (stateAt n k.point))) ∧
      (stopping = true → ∀ i, 0 < i → i < m → 0 ≤ (stateAt n k.point i).v) ∧
      (m = n ∨ stopping = true ∧ (stateAt n k.point m).v < 0) := by
  rcases n with _ | n
  · exact absurd hn (Nat.lt_irrefl 0)
  have hvalid := hk.valid hn
  have hfirst : (⟨(stateAt (n + 1) k.point 0).p, 0, (stateAt (n + 1) k.point 0).v,
      (stateAt (n + 1) k.point 0).a, 0⟩ : SpeedSample R) =
      knotSample step (stateAt (n + 1) k.point) 0 := by
    rw [knotSample, if_pos rfl, Nat.cast_zero, zero_mul]
  rcases samplesAfter_range' hstep stopping (stateAt (n + 1) k.point) n 0 with
    ⟨l, hl, hrest, hspeeds, hend⟩
  rw [Nat.zero_add] at hrest
  refine ⟨l + 1, by omega, by omega, ?_, fun hstopping i hi hm => ?_, ?_⟩
  · simp only [profileSamples, hvalid, Bool.not_true, Bool.false_eq_true, if_false,
      zip_eq_map_range hk, List.range_eq_range', List.range'_succ, List.map_cons, Nat.zero_add,
      hrest, hfirst]
    rfl
  · exact hspeeds hstopping i hi (by omega)
  · rw [Nat.zero_add] at hend
    exact hend.imp_left fun hm => by rw [hm]

/-- A profile that never goes backwards loses no knot. -/
theorem profileSamples_eq {step : R} (hstep : 0 < step) {k : KnotProfile R} {n : Nat}
    (hk : k.Shaped n) (hv : ∀ i, i < n → 0 ≤ (stateAt n k.point i).v) :
    profileSamples k step true =
      .ok ((List.range n).map (knotSample step (stateAt n k.point))) := by
  rcases Nat.eq_zero_or_pos n with rfl | hn
  · have hinvalid : k.valid = false := by simp [KnotProfile.valid, hk.values]
    simp only [profileSamples, hinvalid, Bool.not_false, if_true, List.range_zero, List.map_nil]
  · rcases profileSamples_kept hstep true hn hk with ⟨m, _, hm, hsamples, _, hend⟩
    rcases hend with rfl | ⟨_, hnegative⟩
    · exact hsamples
    · rcases Nat.eq_or_lt_of_le hm with rfl | hlt
      · exact hsamples
      · exact absurd hnegative (not_lt.mpr (hv m hlt))

/-- A series takes samples in order of time. -/
theorem appendAll_eq (ps : List (SpeedSample R)) :
    ∀ d : SpeedSeries R, (d.samples ++ ps).Pairwise (fun p q => p.t ≤ q.t) →
      appendAll ps d = (⟨d.samples ++ ps⟩, none) := by
  induction ps with
  | nil =>
      intro d _
      rw [appendAll, List.append_nil]
  | cons p ps ih =>
      intro d h
      have happend : d.append p = .ok ⟨d.samples ++ [p]⟩ := by
        unfold SpeedSeries.append
        rcases hlast : d.samples.getLast? with _ | last
        · rw [List.getLast?_eq_none_iff.mp hlast, List.nil_append]
        · -- The last sample comes before all that are appended.
          have hmem : last ∈ d.samples := List.mem_of_getLast? hlast
          have horder : last.t ≤ p.t :=
            (List.pairwise_append.mp h).2.2 last hmem p List.mem_cons_self
          simp only [not_lt.mpr horder, if_false]
      have hrest : ((⟨d.samples ++ [p]⟩ : SpeedSeries R).samples ++ ps).Pairwise
          (fun p q => p.t ≤ q.t) := by
        rw [List.append_assoc, List.singleton_append]
        exact h
      rw [appendAll, happend]
      simp only [ih _ hrest, List.append_assoc, List.singleton_append]

/-- The samples of knots are in order of time. -/
theorem pairwise_knotSample {step : R} (hstep : 0 < step) (s : Nat → Motion R) (n : Nat) :
    ((List.range n).map (knotSample step s)).Pairwise (fun p q => p.t ≤ q.t) := by
  rw [List.pairwise_map]
  refine List.pairwise_lt_range.imp fun {i j} hij => ?_
  exact mul_le_mul_of_nonneg_right (Nat.cast_le.mpr hij.le) hstep.le

/-- A published profile that never goes backwards is there completely: one
    sample for each knot. -/
theorem publish_eq {step : R} (hstep : 0 < step) {k : KnotProfile R} {n : Nat} (hk : k.Shaped n)
    (hv : ∀ i, i < n → 0 ≤ (stateAt n k.point i).v) :
    publish k step =
      (⟨(List.range n).map (knotSample step (stateAt n k.point))⟩, none) := by
  rw [publish, profileSamples_eq hstep hk hv]
  exact appendAll_eq _ .empty (pairwise_knotSample hstep _ n)

/-- Any profile with knots is published up to the first of them, after its
    start, at which it goes backwards. -/
theorem publish_kept {step : R} (hstep : 0 < step) {k : KnotProfile R} {n : Nat} (hn : 0 < n)
    (hk : k.Shaped n) :
    ∃ m, 0 < m ∧ m ≤ n ∧ publish k step =
        (⟨(List.range m).map (knotSample step (stateAt n k.point))⟩, none) ∧
      (∀ i, 0 < i → i < m → 0 ≤ (stateAt n k.point i).v) ∧
      (m = n ∨ (stateAt n k.point m).v < 0) := by
  rcases profileSamples_kept hstep true hn hk with ⟨m, hpos, hm, hsamples, hspeeds, hend⟩
  refine ⟨m, hpos, hm, ?_, hspeeds rfl, hend.imp_right And.right⟩
  rw [publish, hsamples]
  exact appendAll_eq _ .empty (pairwise_knotSample hstep _ m)

end JerkPlan
