import SparkTrail.Proofs.Curve.Order
import SparkTrail.Proofs.Scalar.Difference

/-!
# Values between keyframes

A time inside a curve in order has two neighbours: the last keyframe up to it and the one behind
that, which is later. So there is always a value, and never a division by an empty span. Where the
values of the keyframes rise, so does the curve: two times between the same neighbours are on one
rising piece, and between two pieces there is a keyframe.
-/
namespace SparkTrail.Curve

open Scalar

variable {α : Type} [Scalar α] {c : Curve α} {first last earlier later k l : Keyframe α} {s t : α}
  {i j : ℕ} {interpolation : Interpolation}

/-- The keyframe at `i` is the last one up to `t`, and the one behind it is later. -/
structure Neighbours (c : Curve α) (t : α) (i : ℕ) (earlier later : Keyframe α) : Prop where
  earlier_eq : c.keyframes[i]? = some earlier
  later_eq : c.keyframes[i + 1]? = some later
  time_le_iff : ∀ j k, c.keyframes[j]? = some k → (k.time ≤ t ↔ j ≤ i)
  lt_time : t < later.time
  /-- Halving finds the later one. -/
  place_eq : c.place t = i + 1

theorem Neighbours.time_le (h : c.Neighbours t i earlier later) : earlier.time ≤ t :=
  (h.time_le_iff i earlier h.earlier_eq).mpr le_rfl

/-- The value between two keyframes that are not at one time. -/
def onSegment (interpolation : Interpolation) (earlier later : Keyframe α) (t : α) : α :=
  match interpolation with
  | .step => earlier.value
  | .linear =>
    earlier.value +
      (later.value - earlier.value) * ((t - earlier.time) / (later.time - earlier.time))

/-- What the value of a curve from `first` to `last` is at `t`. -/
structure SampledAt (c : Curve α) (first last : Keyframe α) (t : α) : Prop where
  isSome : (c.sample? t).isSome
  before : t ≤ first.time → c.sample? t = some first.value
  behind : first.time < t → last.time ≤ t → c.sample? t = some last.value
  inside : first.time < t → t < last.time → ∃ i earlier later,
    c.Neighbours t i earlier later ∧ ¬ later.time - earlier.time ≤ 0 ∧
      c.sample? t = some (onSegment c.interpolation earlier later t)

theorem between_eq (h : ¬ later.time - earlier.time ≤ 0) :
    between interpolation earlier later t = onSegment interpolation earlier later t := by
  cases interpolation with
  | linear => exact if_neg h
  | step => rfl

section Ends

variable (hfirst : c.keyframes.head? = some first) (hlast : c.keyframes.getLast? = some last)

include hfirst hlast

theorem sample?_first (h : t ≤ first.time) : c.sample? t = some first.value := by
  rw [sample?, hfirst, hlast]
  exact if_pos h

variable [Ordered α]

theorem sample?_last (h : first.time < t) (h' : last.time ≤ t) :
    c.sample? t = some last.value := by
  rw [sample?, hfirst, hlast]
  exact (if_neg (Ordered.not_le_of_lt h)).trans (if_pos h')

theorem sample?_between (h : first.time < t) (h' : t < last.time)
    (hearlier : (c.upTo t).getLast? = some earlier) (hlater : (c.after t).head? = some later) :
    c.sample? t = some (between c.interpolation earlier later t) := by
  rw [sample?, hfirst, hlast, hearlier, hlater]
  exact (if_neg (Ordered.not_le_of_lt h)).trans (if_neg (Ordered.not_le_of_lt h'))

/-- A time inside the curve has neighbours, and these are what the curve is divided at. -/
theorem InOrder.exists_neighbours (hc : c.InOrder) (ht : IsNumber t) (h : first.time < t)
    (h' : t < last.time) : ∃ i earlier later, c.Neighbours t i earlier later ∧
      (c.upTo t).getLast? = some earlier ∧ (c.after t).head? = some later := by
  rw [List.head?_eq_getElem?] at hfirst
  rw [List.getLast?_eq_getElem?] at hlast
  have hpos := (hc.time_le_iff ht hfirst).mp (Ordered.le_of_lt h)
  have hlen := mt (hc.time_le_iff ht hlast).mpr (Ordered.not_le_of_lt h')
  obtain ⟨i, hi⟩ := Nat.exists_eq_add_one.mpr hpos
  have hbound : i + 1 < c.keyframes.length := by omega
  have hearlier := List.getElem?_eq_getElem (show i < c.keyframes.length by omega)
  have hlater := List.getElem?_eq_getElem hbound
  refine ⟨i, _, _, ⟨hearlier, hlater, ?_, ?_, ?_⟩, ?_, ?_⟩
  · intro j k hk
    rw [hc.time_le_iff ht hk, hi, Nat.lt_succ_iff]
  · have hnot := mt (hc.time_le_iff ht hlater).mp (by omega)
    exact Ordered.lt_of_not_le (hc.isNumber _ (List.mem_of_getElem? hlater)) ht hnot
  · rw [hc.place_eq ht, hi]
  · rw [← hearlier, ← upTo_append_after c t, List.getElem?_append_left (by omega),
      List.getLast?_eq_getElem?, hi, Nat.add_sub_cancel]
  · rw [← hlater, ← upTo_append_after c t, List.getElem?_append_right (by omega), hi,
      Nat.sub_self, List.head?_eq_getElem?]

variable (hspan : ∀ a b : α, a < b → 0 < b - a)

include hspan

/-- Strictly inside a curve in order there are neighbours at different times, and the value is that
of the segment between them. -/
theorem InOrder.sample?_inside (hc : c.InOrder) (ht : IsNumber t) (h : first.time < t)
    (h' : t < last.time) : ∃ i earlier later, c.Neighbours t i earlier later ∧
      ¬ later.time - earlier.time ≤ 0 ∧
      c.sample? t = some (onSegment c.interpolation earlier later t) := by
  obtain ⟨i, earlier, later, hn, hearlier, hlater⟩ := hc.exists_neighbours hfirst hlast ht h h'
  have hpos := hspan _ _ (Ordered.lt_of_le_of_lt hn.time_le hn.lt_time)
  have hne := Ordered.not_le_of_lt hpos
  refine ⟨i, earlier, later, hn, hne, ?_⟩
  rw [sample?_between hfirst hlast h h' hearlier hlater, between_eq hne]

/-- A time is up to the first keyframe, from the last one on, or between neighbours. -/
theorem InOrder.sample?_cases (hc : c.InOrder) (ht : IsNumber t) :
    (t ≤ first.time ∧ c.sample? t = some first.value) ∨
    (first.time < t ∧ last.time ≤ t ∧ c.sample? t = some last.value) ∨
    (first.time < t ∧ ∃ i earlier later, c.Neighbours t i earlier later ∧
      c.sample? t = some (onSegment c.interpolation earlier later t)) := by
  by_cases h : t ≤ first.time
  · exact .inl ⟨h, sample?_first hfirst hlast h⟩
  have h := Ordered.lt_of_not_le ht (hc.isNumber first (List.mem_of_mem_head? hfirst)) h
  by_cases h' : last.time ≤ t
  · exact .inr (.inl ⟨h, h', sample?_last hfirst hlast h h'⟩)
  have h' := Ordered.lt_of_not_le (hc.isNumber last (List.mem_of_mem_getLast? hlast)) ht h'
  obtain ⟨i, earlier, later, hn, -, hsample⟩ := hc.sample?_inside hfirst hlast hspan ht h h'
  exact .inr (.inr ⟨h, i, earlier, later, hn, hsample⟩)

/-- All values of a curve in order, for scalars whose differences can be told from zero. -/
theorem InOrder.sampledAt (hc : c.InOrder) (ht : IsNumber t) : c.SampledAt first last t := by
  refine ⟨?_, sample?_first hfirst hlast, sample?_last hfirst hlast,
    hc.sample?_inside hfirst hlast hspan ht⟩
  rcases hc.sample?_cases hfirst hlast hspan ht with
    ⟨-, hsample⟩ | ⟨-, -, hsample⟩ | ⟨-, _, _, _, -, hsample⟩
  all_goals
    rw [hsample]
    rfl

end Ends

/-! ## Rising values -/

structure Rising (c : Curve α) : Prop where
  sorted : c.keyframes.Pairwise fun k l => k.value ≤ l.value
  isNumber : ∀ k ∈ c.keyframes, IsNumber k.value

/-- No keyframe further on has a smaller value. -/
theorem Rising.value_le (h : c.Rising) (hk : c.keyframes[i]? = some k)
    (hl : c.keyframes[j]? = some l) (hij : i ≤ j) : k.value ≤ l.value := by
  rcases hij.eq_or_lt with rfl | hlt
  · obtain rfl := Option.some.inj (hk.symm.trans hl)
    exact h.isNumber k (List.mem_of_getElem? hk)
  · obtain ⟨hi, rfl⟩ := List.getElem?_eq_some_iff.mp hk
    obtain ⟨hj, rfl⟩ := List.getElem?_eq_some_iff.mp hl
    exact List.pairwise_iff_getElem.mp h.sorted i j hi hj hlt

/-- Between two keyframes whose values rise, the values rise from the earlier to the later. -/
structure RisesBetween (α : Type) [Scalar α] (interpolation : Interpolation) : Prop where
  earlier_le : ∀ {earlier later : Keyframe α} {t : α}, earlier.value ≤ later.value →
    earlier.time ≤ t → t < later.time → earlier.value ≤ onSegment interpolation earlier later t
  le_later : ∀ {earlier later : Keyframe α} {t : α}, earlier.value ≤ later.value →
    earlier.time ≤ t → t < later.time → onSegment interpolation earlier later t ≤ later.value
  mono : ∀ {earlier later : Keyframe α} {s t : α}, earlier.value ≤ later.value →
    earlier.time ≤ s → s ≤ t → t < later.time →
      onSegment interpolation earlier later s ≤ onSegment interpolation earlier later t

theorem risesBetween_step [Ordered α] : RisesBetween α .step where
  earlier_le h _ _ := (Ordered.isNumber_of_le h).1
  le_later h _ _ := h
  mono h _ _ _ := (Ordered.isNumber_of_le h).1

theorem sample_eq {v : α} (h : c.sample? t = some v) : c.sample t = v := by
  rw [sample, h]
  rfl

section Rising

variable [Ordered α] (hc : c.InOrder) (hv : c.Rising) (hb : RisesBetween α c.interpolation)
  (hspan : ∀ a b : α, a < b → 0 < b - a) (hfirst : c.keyframes.head? = some first)
  (hlast : c.keyframes.getLast? = some last)

include hc hv hb hspan hfirst hlast

/-- Where the values rise, a curve starts with its least value. -/
theorem InOrder.first_le_sample (ht : IsNumber t) : first.value ≤ c.sample t := by
  have hzero := List.head?_eq_getElem?.symm.trans hfirst
  rcases hc.sample?_cases hfirst hlast hspan ht with
    ⟨-, hsample⟩ | ⟨-, -, hsample⟩ | ⟨-, i, earlier, later, hn, hsample⟩
  · rw [sample_eq hsample]
    exact hv.value_le hzero hzero le_rfl
  · rw [sample_eq hsample]
    exact hv.value_le hzero (List.getLast?_eq_getElem?.symm.trans hlast) (Nat.zero_le _)
  · rw [sample_eq hsample]
    have hstart := hv.value_le hzero hn.earlier_eq (Nat.zero_le _)
    have hrise := hv.value_le hn.earlier_eq hn.later_eq (Nat.le_add_right i 1)
    exact Ordered.le_trans hstart (hb.earlier_le hrise hn.time_le hn.lt_time)

/-- Where the values of the keyframes rise, so does the curve. -/
theorem InOrder.sample_le_sample (hst : s ≤ t) : c.sample s ≤ c.sample t := by
  obtain ⟨hs, ht⟩ := Ordered.isNumber_of_le hst
  rcases hc.sample?_cases hfirst hlast hspan hs with
    ⟨-, hsample⟩ | ⟨hafter, hbehind, hsample⟩ | ⟨hafter, i, earlier, later, hn, hsample⟩
  case inl =>
    rw [sample_eq hsample]
    exact hc.first_le_sample hv hb hspan hfirst hlast ht
  case inr.inl =>
    have hsample' := sample?_last hfirst hlast (Ordered.lt_of_lt_of_le hafter hst)
      (Ordered.le_trans hbehind hst)
    rw [sample_eq hsample, sample_eq hsample']
    exact hv.isNumber last (List.mem_of_mem_getLast? hlast)
  case inr.inr =>
    have hrise := hv.value_le hn.earlier_eq hn.later_eq (Nat.le_add_right i 1)
    have hend := hb.le_later hrise hn.time_le hn.lt_time
    rw [sample_eq hsample]
    rcases hc.sample?_cases hfirst hlast hspan ht with
      ⟨hbefore, -⟩ | ⟨-, -, hsample'⟩ | ⟨-, j, earlier', later', hn', hsample'⟩
    case inl => exact absurd (Ordered.le_trans hst hbefore) (Ordered.not_le_of_lt hafter)
    case inr.inl =>
      have hlen := List.getLast?_eq_getElem?.symm.trans hlast
      obtain ⟨hlt, -⟩ := List.getElem?_eq_some_iff.mp hn.later_eq
      rw [sample_eq hsample']
      exact Ordered.le_trans hend (hv.value_le hn.later_eq hlen (by omega))
    case inr.inr =>
      rw [sample_eq hsample']
      have hij : i ≤ j := (hn'.time_le_iff i earlier hn.earlier_eq).mp
        (Ordered.le_trans hn.time_le hst)
      rcases hij.eq_or_lt with rfl | hlt
      · obtain rfl := Option.some.inj (hn.earlier_eq.symm.trans hn'.earlier_eq)
        obtain rfl := Option.some.inj (hn.later_eq.symm.trans hn'.later_eq)
        exact hb.mono hrise hn.time_le hst hn'.lt_time
      · -- the pieces are not the same, so the later end of one is not behind the start of the other
        have hjoin := hv.value_le hn.later_eq hn'.earlier_eq hlt
        have hrise' := hv.value_le hn'.earlier_eq hn'.later_eq (Nat.le_add_right j 1)
        have hstart := hb.earlier_le hrise' hn'.time_le hn'.lt_time
        exact Ordered.le_trans hend (Ordered.le_trans hjoin hstart)

end Rising

/-! ## Before rounding -/

section Exact

variable {c : Curve ℝ} {first last earlier later : Keyframe ℝ} {s t : ℝ}

theorem onSegment_time (interpolation : Interpolation) (earlier later : Keyframe ℝ) :
    onSegment interpolation earlier later earlier.time = earlier.value := by
  cases interpolation with
  | linear => rw [onSegment, sub_self, zero_div, mul_zero, add_zero]
  | step => rfl

theorem fraction_mem (h : earlier.time ≤ t) (h' : t < later.time) :
    (t - earlier.time) / (later.time - earlier.time) ∈ Set.Icc 0 1 := by
  have hspan : 0 < later.time - earlier.time := sub_pos.mpr (h.trans_lt h')
  refine ⟨div_nonneg (sub_nonneg.mpr h) hspan.le, (div_le_one hspan).mpr ?_⟩
  linarith

/-- Between two keyframes there are only values between theirs. -/
theorem onSegment_mem (interpolation : Interpolation) (h : earlier.time ≤ t)
    (h' : t < later.time) :
    onSegment interpolation earlier later t ∈ Set.uIcc earlier.value later.value := by
  cases interpolation with
  | linear =>
    rw [← segment_eq_uIcc, segment_eq_image']
    exact ⟨_, fraction_mem h h', congrArg (earlier.value + ·) (mul_comm _ _)⟩
  | step => exact Set.left_mem_uIcc

/-- Before rounding, both interpolations rise between values that rise. -/
theorem risesBetween_exact (interpolation : Interpolation) : RisesBetween ℝ interpolation where
  earlier_le hrise h h' := by
    have hmem := onSegment_mem interpolation h h'
    rw [Set.uIcc_of_le hrise] at hmem
    exact hmem.1
  le_later hrise h h' := by
    have hmem := onSegment_mem interpolation h h'
    rw [Set.uIcc_of_le hrise] at hmem
    exact hmem.2
  mono {earlier later s t} hrise hs hst ht := by
    cases interpolation with
    | linear =>
      have hspan : 0 < later.time - earlier.time := by linarith
      have hfraction : (s - earlier.time) / (later.time - earlier.time) ≤
          (t - earlier.time) / (later.time - earlier.time) := by gcongr
      have hvalue : 0 ≤ later.value - earlier.value := sub_nonneg.mpr hrise
      exact add_le_add_right (mul_le_mul_of_nonneg_left hfraction hvalue) earlier.value
    | step => exact le_refl earlier.value

end Exact

/-! ## Every curve in order -/

/-- Rounding does not matter for where a value is taken from, nor for the values of steps. Before
rounding the values between two keyframes are between theirs, and a curve through rising values
rises, in steps or in lines. -/
theorem samples_in_order :
    (∀ (c : Curve Float32) (first last : Keyframe Float32) (t : Float32), c.InOrder →
      c.keyframes.head? = some first → c.keyframes.getLast? = some last → t.isNaN = false →
      c.SampledAt first last t) ∧
    (∀ (c : Curve Float32) (s t : Float32), c.InOrder → c.keyframes ≠ [] →
      c.interpolation = .step → c.Rising → s ≤ t → c.sample s ≤ c.sample t) ∧
    (∀ (c : Curve ℝ) (first last : Keyframe ℝ) (t : ℝ), c.InOrder →
      c.keyframes.head? = some first → c.keyframes.getLast? = some last →
      c.SampledAt first last t ∧
      ∀ i earlier later, c.Neighbours t i earlier later →
        onSegment c.interpolation earlier later t ∈ Set.uIcc earlier.value later.value ∧
        (t = earlier.time → onSegment c.interpolation earlier later t = earlier.value)) ∧
    ∀ (c : Curve ℝ) (s t : ℝ), c.InOrder → c.keyframes ≠ [] → c.Rising → s ≤ t →
      c.sample s ≤ c.sample t := by
  refine ⟨?_, ?_, ?_, ?_⟩
  · intro c first last t hc hfirst hlast ht
    exact hc.sampledAt hfirst hlast (fun _ _ => Single.sub_pos_of_lt)
      (Single.isNumber_iff.mpr ht)
  · intro c s t hc hne hstep hv hst
    have hb : RisesBetween Float32 c.interpolation := hstep ▸ risesBetween_step
    exact hc.sample_le_sample hv hb (fun _ _ => Single.sub_pos_of_lt)
      (List.head?_eq_some_head hne) (List.getLast?_eq_some_getLast hne) hst
  · intro c first last t hc hfirst hlast
    refine ⟨hc.sampledAt hfirst hlast (fun _ _ => sub_pos.mpr) (le_refl t), ?_⟩
    intro i earlier later hn
    refine ⟨onSegment_mem c.interpolation hn.time_le hn.lt_time, ?_⟩
    rintro rfl
    exact onSegment_time c.interpolation earlier later
  · intro c s t hc hne hv hst
    exact hc.sample_le_sample hv (risesBetween_exact c.interpolation) (fun _ _ => sub_pos.mpr)
      (List.head?_eq_some_head hne) (List.getLast?_eq_some_getLast hne) hst

/-- A curve that jumps where two keyframes have one time has the value of the second one there. -/
theorem samples_in_order_jump :
    let c : Curve Float32 := ⟨[⟨0, 1⟩, ⟨0.5, 2⟩, ⟨0.5, 4⟩, ⟨1, 5⟩], .step⟩
    let d : Curve ℝ := ⟨[⟨0, 1⟩, ⟨1, 2⟩, ⟨1, 4⟩], .linear⟩
    c.SampledAt ⟨0, 1⟩ ⟨1, 5⟩ 0.5 ∧ c.sample 0.5 = 4 ∧ c.sample 0.25 ≤ c.sample 0.5 ∧
      d.SampledAt ⟨0, 1⟩ ⟨1, 4⟩ (1 / 2) ∧ d.sample (1 / 2) ≤ d.sample 1 := by
  intro c d
  have hc : c.InOrder := ⟨by decide, by decide⟩
  have hd : d.InOrder := ⟨by norm_num [d], fun k _ => le_refl k.time⟩
  have hrising : d.Rising := ⟨by norm_num [d], fun k _ => le_refl k.value⟩
  obtain ⟨hsingle, hsteps, hexact, hrise⟩ := samples_in_order
  refine ⟨hsingle c _ _ 0.5 hc rfl rfl (by decide), by decide, ?_, ?_, ?_⟩
  · exact hsteps c 0.25 0.5 hc (List.cons_ne_nil _ _) rfl ⟨by decide, by decide⟩ (by decide)
  · exact (hexact d _ _ (1 / 2) hd rfl rfl).1
  · exact hrise d (1 / 2) 1 hd (List.cons_ne_nil _ _) hrising (by norm_num)

/-- A curve whose keyframes are all at one time cannot start with the first value there and end with
the last one: it has the first one. And a straight line can overshoot the value that it ends with,
for rounding, so that it falls to that value in the end. -/
theorem sample_one_time_and_overshoot :
    (¬ ∀ (c : Curve Float32) (first last : Keyframe Float32) (t : Float32), c.InOrder →
      c.keyframes.head? = some first → c.keyframes.getLast? = some last →
      (t ≤ first.time → c.sample? t = some first.value) ∧
      (last.time ≤ t → c.sample? t = some last.value)) ∧
    ¬ ∀ (c : Curve Float32) (s t : Float32), c.InOrder → c.keyframes ≠ [] → c.Rising → s ≤ t →
      c.sample s ≤ c.sample t := by
  constructor
  · intro h
    have hvalues := h ⟨[⟨0, 1⟩, ⟨0, 2⟩], .linear⟩ ⟨0, 1⟩ ⟨0, 2⟩ 0 ⟨by decide, by decide⟩ rfl rfl
    exact absurd (hvalues.2 (by decide)) (by decide)
  · intro h
    have hvalues := h ⟨[⟨-1, -1⟩, ⟨1e-10, 9e-8⟩], .linear⟩ 0 1e-10 ⟨by decide, by decide⟩
      (List.cons_ne_nil _ _) ⟨by decide, by decide⟩ (by decide)
    exact absurd hvalues (by decide)

end SparkTrail.Curve
