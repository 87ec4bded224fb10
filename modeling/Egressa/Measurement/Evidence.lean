import Egressa.Measurement.Differential

/-!
# What more evidence does to a decision

The bounds of `DecideMigration` (`internal/measurement/decide.go`) widen what has been measured by what it is worth: a
segment with more samples, or more trusted ones, has closer bounds.  The numbers are the extended reals.
-/

namespace Egressa.Measurement

open Extended (real)

noncomputable section

/-! ## The reals behind the bounds -/

/-- The cost of a loss rate over the reals. -/
def penalty (p weight : ℝ) : ℝ := -Real.log (1 - p) * weight

theorem penalty_mono {p q weight : ℝ} (h : p ≤ q) (below : q < 1) (nonneg : 0 ≤ weight) :
    penalty p weight ≤ penalty q weight := by
  have log := Real.log_le_log (by linarith : (0 : ℝ) < 1 - q) (by linarith : 1 - q ≤ 1 - p)
  unfold penalty
  exact mul_le_mul_of_nonneg_right (by linarith) nonneg

namespace SegmentStats

variable (s : SegmentStats ℝ) (w : CostWeights ℝ) (z : ℝ)

def latency : ℝ :=
  s.p50Micros + w.tailWeight * (if s.p95Micros - s.p50Micros < 0 then 0 else s.p95Micros - s.p50Micros)

/-- The cost of a segment over the reals. -/
def cost : ℝ := s.latency w + penalty s.lossRate w.lossWeight

def error (variance : ℝ) : ℝ := √(variance / s.n.toNat) / √s.confidence

/-- How far the latency may be off. -/
def latencySpread : ℝ := z * s.error s.varianceMicros2 * (1 + w.tailWeight)

def lossSpread : ℝ := z * s.error (s.lossRate * (1 - s.lossRate))

/-- A segment whose bounds are finite. -/
structure Trusted : Prop where
  measured : s.n ≠ 0
  confident : 0 < s.confidence
  bounded : s.lossRate + s.lossSpread z < 1

def lowerSpread : ℝ :=
  s.latencySpread w z + (penalty s.lossRate w.lossWeight - penalty (max 0 (s.lossRate - s.lossSpread z)) w.lossWeight)

def upperSpread : ℝ :=
  s.latencySpread w z + (penalty (s.lossRate + s.lossSpread z) w.lossWeight - penalty s.lossRate w.lossWeight)

end SegmentStats

structure CostWeights.Sound (w : CostWeights ℝ) : Prop where
  tailWeight : 0 ≤ w.tailWeight
  lossWeight : 0 ≤ w.lossWeight

/-- Measurements that can have been made of a segment that does not lose everything. -/
structure SegmentStats.Sound (s : SegmentStats ℝ) : Prop where
  variance : 0 ≤ s.varianceMicros2
  loss : 0 ≤ s.lossRate
  below : s.lossRate < 1

section

variable {s : SegmentStats ℝ} {w : CostWeights ℝ} {z : ℝ}

theorem error_nonneg (variance : ℝ) : 0 ≤ s.error variance := by
  unfold SegmentStats.error
  positivity

theorem latencySpread_nonneg (hw : w.Sound) (hz : 0 ≤ z) : 0 ≤ s.latencySpread w z := by
  have := hw.tailWeight
  have := error_nonneg (s := s) s.varianceMicros2
  unfold SegmentStats.latencySpread
  positivity

theorem lossSpread_nonneg (hz : 0 ≤ z) : 0 ≤ s.lossSpread z := mul_nonneg hz (error_nonneg _)

theorem lowerSpread_nonneg (hw : w.Sound) (hz : 0 ≤ z) (hs : s.Sound) : 0 ≤ s.lowerSpread w z := by
  have latency := latencySpread_nonneg (s := s) hw hz
  have loss := lossSpread_nonneg (s := s) hz
  have low : max 0 (s.lossRate - s.lossSpread z) ≤ s.lossRate := max_le hs.loss (by linarith)
  have := penalty_mono low hs.below hw.lossWeight
  unfold SegmentStats.lowerSpread
  linarith

theorem upperSpread_nonneg (hw : w.Sound) (hz : 0 ≤ z) (trusted : s.Trusted z) : 0 ≤ s.upperSpread w z := by
  have latency := latencySpread_nonneg (s := s) hw hz
  have loss := lossSpread_nonneg (s := s) hz
  have := penalty_mono (by linarith : s.lossRate ≤ s.lossRate + s.lossSpread z) trusted.bounded hw.lossWeight
  unfold SegmentStats.upperSpread
  linarith

end

/-! ## The bounds of a segment -/

section

variable {s : SegmentStats ℝ} {w : CostWeights ℝ} {z : ℝ}

theorem ofUInt64_eq (n : UInt64) : (Arith.ofUInt64 n : Extended) = real n.toNat := rfl

theorem lossPenalty_of_below (weight : ℝ) {p : ℝ} (below : p < 1) :
    lossPenalty (real p) (real weight) = real (penalty p weight) := by
  have small : ¬ (1 : ℝ) ≤ p := not_le.2 below
  rw [lossPenalty, Extended.one_eq, Extended.le_real, if_neg (by simpa using small), Extended.real_sub,
    Extended.log_real (by linarith), Extended.neg_real, Extended.real_mul]
  rfl

theorem lossPenalty_one (weight : ℝ) : lossPenalty (real 1) (real weight) = Arith.inf := by
  rw [lossPenalty, Extended.one_eq, Extended.le_real, if_pos (by simp)]

theorem tailPremium_eq (s : SegmentStats ℝ) : tailPremium (s.map real) =
    real (if s.p95Micros - s.p50Micros < 0 then 0 else s.p95Micros - s.p50Micros) := by
  simp only [tailPremium, SegmentStats.map, Extended.real_sub, Extended.zero_eq, Extended.lt_real, decide_eq_true_eq]
  split_ifs <;> rfl

theorem latency_eq (s : SegmentStats ℝ) (w : CostWeights ℝ) :
    (s.map real).p50Micros + (w.map real).tailWeight * tailPremium (s.map real) = real (s.latency w) := by
  rw [tailPremium_eq]
  simp [SegmentStats.map, CostWeights.map, SegmentStats.latency]

theorem segmentCost_eq (w : CostWeights ℝ) (below : s.lossRate < 1) :
    segmentCost (s.map real) (w.map real) = real (s.cost w) := by
  have loss := lossPenalty_of_below w.lossWeight below
  rw [segmentCost, latency_eq, SegmentStats.cost, ← Extended.real_add, ← loss]
  rfl

theorem clamp01_eq (x : ℝ) : clamp01 (real x) = real (max 0 (min x 1)) := by
  simp only [clamp01, Extended.zero_eq, Extended.one_eq, Extended.lt_real, decide_eq_true_eq]
  split_ifs with low high
  · rw [max_eq_left (min_le_of_left_le low.le)]
  · rw [min_eq_right high.le, max_eq_right zero_le_one]
  · rw [min_eq_left (not_lt.1 high), max_eq_right (not_lt.1 low)]

theorem error_eq (measured : s.n ≠ 0) (confident : 0 < s.confidence) {variance : ℝ} (nonneg : 0 ≤ variance) :
    Arith.sqrt (real variance / Arith.ofUInt64 s.n) / Arith.sqrt (real s.confidence) = real (s.error variance) := by
  have n : (s.n.toNat : ℝ) ≠ 0 := by
    exact_mod_cast fun zero => measured (UInt64.toNat_inj.1 zero)
  rw [ofUInt64_eq, Extended.real_div n, Extended.sqrt_real (by positivity), Extended.sqrt_real confident.le,
    Extended.real_div (Real.sqrt_pos.2 confident).ne']
  rfl

theorem segmentCostBound_eq (w : CostWeights ℝ) (z : ℝ) (hs : s.Sound) (measured : s.n ≠ 0)
    (confident : 0 < s.confidence) :
    segmentCostBound (s.map real) (w.map real) (real z) =
      let lower := real (s.latency w - s.latencySpread w z) +
        lossPenalty (real (max 0 (min (s.lossRate - s.lossSpread z) 1))) (real w.lossWeight)
      let upper := real (s.latency w + s.latencySpread w z) +
        lossPenalty (real (max 0 (min (s.lossRate + s.lossSpread z) 1))) (real w.lossWeight)
      ⟨real (s.cost w), if Arith.lt (real (s.cost w)) lower then real (s.cost w) else lower,
        if Arith.lt upper (real (s.cost w)) then real (s.cost w) else upper⟩ := by
  have unmeasured : ¬ (decide ((s.map real).n = 0) || Arith.le (s.map real).confidence 0) = true := by
    simp [SegmentStats.map, Extended.zero_eq, measured, confident]
  have loss : clamp01 (real s.lossRate) = real s.lossRate := by
    rw [clamp01_eq, min_eq_left hs.below.le, max_eq_right hs.loss]
  have variance := error_eq measured confident hs.variance
  have lossVariance := error_eq measured confident (mul_nonneg hs.loss (sub_nonneg.2 hs.below.le))
  rw [segmentCostBound, if_neg unmeasured, segmentCost_eq w hs.below, latency_eq]
  simp only [SegmentStats.map, CostWeights.map, loss, variance, Extended.one_eq, Extended.real_sub, Extended.real_mul,
    Extended.real_add, lossVariance, clamp01_eq, SegmentStats.latencySpread, SegmentStats.lossSpread]
  rfl

theorem segmentCostBound_trusted (hw : w.Sound) (hz : 0 ≤ z) (hs : s.Sound) (trusted : s.Trusted z) :
    segmentCostBound (s.map real) (w.map real) (real z) =
      ⟨real (s.cost w), real (s.cost w - s.lowerSpread w z), real (s.cost w + s.upperSpread w z)⟩ := by
  have spread := lossSpread_nonneg (s := s) hz
  have low : max 0 (min (s.lossRate - s.lossSpread z) 1) = max 0 (s.lossRate - s.lossSpread z) := by
    rw [min_eq_left (by linarith [hs.below])]
  have high : max 0 (min (s.lossRate + s.lossSpread z) 1) = s.lossRate + s.lossSpread z := by
    rw [min_eq_left trusted.bounded.le, max_eq_right (by linarith [hs.loss])]
  have lower : s.latency w - s.latencySpread w z + penalty (max 0 (s.lossRate - s.lossSpread z)) w.lossWeight =
      s.cost w - s.lowerSpread w z := by
    unfold SegmentStats.cost SegmentStats.lowerSpread
    ring
  have upper : s.latency w + s.latencySpread w z + penalty (s.lossRate + s.lossSpread z) w.lossWeight =
      s.cost w + s.upperSpread w z := by
    unfold SegmentStats.cost SegmentStats.upperSpread
    ring
  have below : max 0 (s.lossRate - s.lossSpread z) < 1 := max_lt zero_lt_one (by linarith [hs.below])
  have lowerNonneg := lowerSpread_nonneg hw hz hs
  have upperNonneg := upperSpread_nonneg hw hz trusted
  rw [segmentCostBound_eq w z hs trusted.measured trusted.confident]
  dsimp only
  rw [low, high, lossPenalty_of_below _ below, lossPenalty_of_below _ trusted.bounded, Extended.real_add,
    Extended.real_add, lower, upper, Extended.lt_real, Extended.lt_real, if_neg (by simpa using lowerNonneg),
    if_neg (by simpa using upperNonneg)]

theorem segmentCostBound_untrusted (w : CostWeights ℝ) (hs : s.Sound) (untrusted : ¬ s.Trusted z) :
    (isNegInf (segmentCostBound (s.map real) (w.map real) (real z)).lower ||
      isPosInf (segmentCostBound (s.map real) (w.map real) (real z)).upper) = true := by
  by_cases measured : s.n ≠ 0 ∧ 0 < s.confidence
  · have unbounded : 1 ≤ s.lossRate + s.lossSpread z :=
      not_lt.1 fun bounded => untrusted ⟨measured.1, measured.2, bounded⟩
    rw [segmentCostBound_eq w z hs measured.1 measured.2]
    dsimp only
    rw [min_eq_right unbounded, max_eq_right zero_le_one, lossPenalty_one, Extended.real_add_inf]
    simp only [Extended.inf_lt_real, Bool.false_eq_true, if_false, Extended.isPosInf_inf, Bool.or_true]
  · have unmeasured : (decide ((s.map real).n = 0) || Arith.le (s.map real).confidence 0) = true := by
      rw [not_and_or, not_not, not_lt] at measured
      rcases measured with zero | low
      · simp [SegmentStats.map, zero]
      · simp [SegmentStats.map, Extended.zero_eq, low]
    rw [segmentCostBound, if_pos unmeasured]
    dsimp only
    rw [Extended.isPosInf_inf, Bool.or_true]

end

/-! ## The bounds of a path -/

section

variable {segs : List (SegmentStats ℝ)} {w : CostWeights ℝ} {z : ℝ}

def pathCost (w : CostWeights ℝ) (segs : List (SegmentStats ℝ)) : ℝ := (segs.map (·.cost w)).sum

/-- Independent errors add up in squares. -/
def spread (each : SegmentStats ℝ → ℝ) (segs : List (SegmentStats ℝ)) : ℝ := √(segs.map fun s => each s * each s).sum

theorem fold_trusted (hw : w.Sound) (hz : 0 ≤ z) (hsegs : ∀ s ∈ segs, s.Sound) (trusted : ∀ s ∈ segs, s.Trusted z)
    (point lower upper : ℝ) :
    (segs.map (SegmentStats.map real)).foldl (aggregateSegment (w.map real) (real z))
        ⟨real point, real lower, real upper, false⟩ =
      ⟨real (point + pathCost w segs), real (lower + (segs.map fun s => s.lowerSpread w z * s.lowerSpread w z).sum),
        real (upper + (segs.map fun s => s.upperSpread w z * s.upperSpread w z).sum), false⟩ := by
  induction segs generalizing point lower upper with
  | nil => simp [pathCost]
  | cons s segs ih =>
    obtain ⟨hs, hsegs⟩ := List.forall_mem_cons.1 hsegs
    obtain ⟨ts, trusted⟩ := List.forall_mem_cons.1 trusted
    have here : aggregateSegment (w.map real) (real z) ⟨real point, real lower, real upper, false⟩ (s.map real) =
        ⟨real (point + s.cost w), real (lower + s.lowerSpread w z * s.lowerSpread w z),
          real (upper + s.upperSpread w z * s.upperSpread w z), false⟩ := by
      simp only [aggregateSegment, segmentCostBound_trusted hw hz hs ts, Extended.real_eq_negInf,
        Extended.real_eq_inf, Bool.or_self, Bool.false_eq_true, if_false, Extended.real_add, Extended.real_sub,
        Extended.real_mul, sub_sub_cancel, add_sub_cancel_left]
    rw [List.map_cons, List.foldl_cons, here, ih hsegs trusted]
    simp only [pathCost, List.map_cons, List.sum_cons, add_assoc]

theorem fold_untrusted (hsegs : ∀ s ∈ segs, s.Sound) (a : Aggregate Extended)
    (untrusted : a.untrusted = true ∨ ¬ ∀ s ∈ segs, s.Trusted z) :
    ((segs.map (SegmentStats.map real)).foldl (aggregateSegment (w.map real) (real z)) a).untrusted = true := by
  induction segs generalizing a with
  | nil => exact untrusted.resolve_right (by simp)
  | cons s segs ih =>
    obtain ⟨hs, hsegs⟩ := List.forall_mem_cons.1 hsegs
    rw [List.map_cons, List.foldl_cons]
    refine ih hsegs _ ?_
    rw [List.forall_mem_cons, not_and_or] at untrusted
    unfold aggregateSegment
    dsimp only
    rcases untrusted with already | here | later
    · left
      split_ifs
      · rfl
      · exact already
    · left
      rw [if_pos (segmentCostBound_untrusted w hs here)]
    · exact Or.inr later

theorem aggregateBounds_trusted (hw : w.Sound) (hz : 0 ≤ z) (hsegs : ∀ s ∈ segs, s.Sound)
    (trusted : ∀ s ∈ segs, s.Trusted z) :
    aggregateBounds (segs.map (SegmentStats.map real)) (w.map real) (real z) =
      ⟨real (pathCost w segs), real (pathCost w segs - spread (·.lowerSpread w z) segs),
        real (pathCost w segs + spread (·.upperSpread w z) segs)⟩ := by
  have squares : ∀ each : SegmentStats ℝ → ℝ, 0 ≤ (segs.map fun s => each s * each s).sum :=
    fun each => List.sum_nonneg (by simp [mul_self_nonneg])
  unfold aggregateBounds
  rw [Extended.zero_eq, fold_trusted hw hz hsegs trusted]
  simp only [zero_add, Bool.false_eq_true, if_false, Extended.sqrt_real (squares _), Extended.real_sub,
    Extended.real_add]
  rfl

theorem costSum_eq (w : CostWeights ℝ) (below : ∀ s ∈ segs, s.lossRate < 1) :
    costSum (w.map real) (segs.map (SegmentStats.map real)) = real (pathCost w segs) := by
  have fold : ∀ t : ℝ, (segs.map (SegmentStats.map real)).foldl
      (fun total seg => total + segmentCost seg (w.map real)) (real t) = real (t + pathCost w segs) := by
    induction segs with
    | nil => simp [pathCost]
    | cons s segs ih =>
      intro t
      obtain ⟨hs, hsegs⟩ := List.forall_mem_cons.1 below
      rw [List.map_cons, List.foldl_cons, segmentCost_eq w hs, Extended.real_add, ih hsegs]
      simp only [pathCost, List.map_cons, List.sum_cons, add_assoc]
  rw [costSum, Extended.zero_eq, fold, zero_add]

theorem aggregateBounds_untrusted (w : CostWeights ℝ) (hsegs : ∀ s ∈ segs, s.Sound)
    (untrusted : ¬ ∀ s ∈ segs, s.Trusted z) :
    aggregateBounds (segs.map (SegmentStats.map real)) (w.map real) (real z) =
      ⟨real (pathCost w segs), -Arith.inf, Arith.inf⟩ := by
  have point := point_aggregateBounds (segs.map (SegmentStats.map real)) (w.map real) (real z)
  rw [costSum_eq w fun s hs => (hsegs s hs).below] at point
  rw [← point]
  unfold aggregateBounds
  dsimp only
  rw [if_pos (fold_untrusted hsegs _ (.inr untrusted))]

end

/-! ## More evidence -/

/-- The same measurement from more samples. -/
structure MoreEvidence (s s' : SegmentStats ℝ) : Prop where
  same : s' = { s with n := s'.n, confidence := s'.confidence }
  samples : s.n ≤ s'.n
  confidence : s.confidence ≤ s'.confidence

namespace MoreEvidence

variable {s s' : SegmentStats ℝ} {w : CostWeights ℝ} {z : ℝ} (h : MoreEvidence s s')

include h

theorem p50Micros : s'.p50Micros = s.p50Micros := by rw [h.same]

theorem p95Micros : s'.p95Micros = s.p95Micros := by rw [h.same]

theorem lossRate : s'.lossRate = s.lossRate := by rw [h.same]

theorem varianceMicros2 : s'.varianceMicros2 = s.varianceMicros2 := by rw [h.same]

theorem sound (hs : s.Sound) : s'.Sound :=
  ⟨by rw [h.varianceMicros2]; exact hs.variance, by rw [h.lossRate]; exact hs.loss, by rw [h.lossRate]; exact hs.below⟩

theorem cost (w : CostWeights ℝ) : s'.cost w = s.cost w := by
  simp only [SegmentStats.cost, SegmentStats.latency, h.p50Micros, h.p95Micros, h.lossRate]

theorem error_le (measured : s.n ≠ 0) (confident : 0 < s.confidence) {variance : ℝ} (nonneg : 0 ≤ variance) :
    s'.error variance ≤ s.error variance := by
  have samples : (s.n.toNat : ℝ) ≤ s'.n.toNat := by exact_mod_cast UInt64.le_iff_toNat_le.1 h.samples
  have some_ : (0 : ℝ) < s.n.toNat := by
    exact_mod_cast Nat.pos_of_ne_zero fun zero => measured (UInt64.toNat_inj.1 zero)
  have confidence := h.confidence
  unfold SegmentStats.error
  gcongr

theorem latencySpread_le (hw : w.Sound) (hz : 0 ≤ z) (hs : s.Sound) (measured : s.n ≠ 0)
    (confident : 0 < s.confidence) :
    s'.latencySpread w z ≤ s.latencySpread w z := by
  have tail := hw.tailWeight
  have error := h.error_le measured confident hs.variance
  unfold SegmentStats.latencySpread
  rw [h.varianceMicros2]
  gcongr

theorem lossSpread_le (hz : 0 ≤ z) (hs : s.Sound) (measured : s.n ≠ 0) (confident : 0 < s.confidence) :
    s'.lossSpread z ≤ s.lossSpread z := by
  have error := h.error_le measured confident (mul_nonneg hs.loss (sub_nonneg.2 hs.below.le))
  unfold SegmentStats.lossSpread
  rw [h.lossRate]
  gcongr

theorem trusted (hz : 0 ≤ z) (hs : s.Sound) (trusted : s.Trusted z) : s'.Trusted z where
  measured zero := by
    have samples := UInt64.le_iff_toNat_le.1 h.samples
    rw [zero] at samples
    exact trusted.measured (UInt64.toNat_inj.1 (Nat.le_zero.1 samples))
  confident := trusted.confident.trans_le h.confidence
  bounded := by
    rw [h.lossRate]
    linarith [trusted.bounded, h.lossSpread_le hz hs trusted.measured trusted.confident]

theorem lowerSpread_le (hw : w.Sound) (hz : 0 ≤ z) (hs : s.Sound) (trusted : s.Trusted z) :
    s'.lowerSpread w z ≤ s.lowerSpread w z := by
  have latency := h.latencySpread_le hw hz hs trusted.measured trusted.confident
  have loss := h.lossSpread_le hz hs trusted.measured trusted.confident
  have nonneg := lossSpread_nonneg (s := s') hz
  have low : max 0 (s.lossRate - s.lossSpread z) ≤ max 0 (s.lossRate - s'.lossSpread z) := by gcongr
  have := penalty_mono low (max_lt zero_lt_one (by linarith [hs.below])) hw.lossWeight
  unfold SegmentStats.lowerSpread
  rw [h.lossRate]
  linarith

theorem upperSpread_le (hw : w.Sound) (hz : 0 ≤ z) (hs : s.Sound) (trusted : s.Trusted z) :
    s'.upperSpread w z ≤ s.upperSpread w z := by
  have latency := h.latencySpread_le hw hz hs trusted.measured trusted.confident
  have loss := h.lossSpread_le hz hs trusted.measured trusted.confident
  have := penalty_mono (by linarith : s.lossRate + s'.lossSpread z ≤ s.lossRate + s.lossSpread z) trusted.bounded
    hw.lossWeight
  unfold SegmentStats.upperSpread
  rw [h.lossRate]
  linarith

end MoreEvidence

section

variable {segs segs' : List (SegmentStats ℝ)} {w : CostWeights ℝ} {z : ℝ}

theorem pathCost_congr (h : List.Forall₂ MoreEvidence segs segs') (w : CostWeights ℝ) :
    pathCost w segs' = pathCost w segs := by
  induction h with
  | nil => rfl
  | cons here _ ih =>
    simp only [pathCost, List.map_cons, List.sum_cons] at ih ⊢
    rw [here.cost w, ih]

theorem spread_le {each each' : SegmentStats ℝ → ℝ} (h : List.Forall₂ MoreEvidence segs segs')
    (le : ∀ s ∈ segs, ∀ s', MoreEvidence s s' → 0 ≤ each' s' ∧ each' s' ≤ each s) :
    spread each' segs' ≤ spread each segs := by
  unfold spread
  refine Real.sqrt_le_sqrt ?_
  induction h with
  | nil => exact le_refl _
  | @cons s s' segs segs' here _ ih =>
    obtain ⟨first, rest⟩ := List.forall_mem_cons.1 le
    obtain ⟨nonneg, hle⟩ := first s' here
    simp only [List.map_cons, List.sum_cons]
    exact add_le_add (mul_self_le_mul_self nonneg hle) (ih rest)

theorem trusted_of_more (hz : 0 ≤ z) (h : List.Forall₂ MoreEvidence segs segs') (hsegs : ∀ s ∈ segs, s.Sound)
    (trusted : ∀ s ∈ segs, s.Trusted z) : ∀ s ∈ segs', s.Trusted z := by
  induction h with
  | nil => simp
  | cons here _ ih =>
    obtain ⟨hs, hsegs⟩ := List.forall_mem_cons.1 hsegs
    obtain ⟨ts, trusted⟩ := List.forall_mem_cons.1 trusted
    exact List.forall_mem_cons.2 ⟨here.trusted hz hs ts, ih hsegs trusted⟩

end

/-! ## Decisions -/

open Classical in
/-- The difference of two paths with its bounds. -/
def estimate (w : CostWeights ℝ) (z : ℝ) (as bs : List (SegmentStats ℝ)) : DeltaEstimate Extended :=
  let point := pathCost w as - pathCost w bs
  if ∀ s ∈ as ++ bs, s.Trusted z then
    ⟨real point, real (point - (spread (·.lowerSpread w z) as + spread (·.upperSpread w z) bs)),
      real (point + (spread (·.upperSpread w z) as + spread (·.lowerSpread w z) bs))⟩
  else ⟨real point, -Arith.inf, Arith.inf⟩

section

variable {w : CostWeights ℝ} {z : ℝ} {as bs : List (SegmentStats ℝ)}

theorem estimate_eq (hw : w.Sound) (hz : 0 ≤ z) (ha : ∀ s ∈ as, s.Sound) (hb : ∀ s ∈ bs, s.Sound) :
    let a := aggregateBounds (as.map (SegmentStats.map real)) (w.map real) (real z)
    let b := aggregateBounds (bs.map (SegmentStats.map real)) (w.map real) (real z)
    (⟨a.point - b.point, a.lower - b.upper, a.upper - b.lower⟩ : DeltaEstimate Extended) = estimate w z as bs := by
  intro a b
  unfold estimate
  by_cases ta : ∀ s ∈ as, s.Trusted z
  · have trustedA : a = _ := aggregateBounds_trusted hw hz ha ta
    by_cases tb : ∀ s ∈ bs, s.Trusted z
    · have trustedB : b = _ := aggregateBounds_trusted hw hz hb tb
      rw [if_pos (List.forall_mem_append.2 ⟨ta, tb⟩), trustedA, trustedB]
      simp only [Extended.real_sub, DeltaEstimate.mk.injEq, true_and]
      constructor
      · congr 1
        ring
      · congr 1
        ring
    · have untrustedB : b = _ := aggregateBounds_untrusted w hb tb
      rw [if_neg fun t => tb (List.forall_mem_append.1 t).2, trustedA, untrustedB]
      simp
  · have untrustedA : a = _ := aggregateBounds_untrusted w ha ta
    rw [if_neg fun t => ta (List.forall_mem_append.1 t).1, untrustedA]
    by_cases tb : ∀ s ∈ bs, s.Trusted z
    · have trustedB : b = _ := aggregateBounds_trusted hw hz hb tb
      rw [trustedB]
      simp
    · have untrustedB : b = _ := aggregateBounds_untrusted w hb tb
      rw [untrustedB]
      simp

theorem estimate_ordered (w : CostWeights ℝ) (z : ℝ) (as bs : List (SegmentStats ℝ)) :
    Arith.le (estimate w z as bs).lower (estimate w z as bs).point = true ∧
      Arith.le (estimate w z as bs).point (estimate w z as bs).upper = true := by
  have nonneg : ∀ each segs, 0 ≤ spread each segs := fun _ _ => Real.sqrt_nonneg _
  unfold estimate
  dsimp only
  split_ifs
  · have lower := add_nonneg (nonneg (·.lowerSpread w z) as) (nonneg (·.upperSpread w z) bs)
    have upper := add_nonneg (nonneg (·.upperSpread w z) as) (nonneg (·.lowerSpread w z) bs)
    simp only [Extended.le_real, decide_eq_true_eq]
    constructor <;> linarith
  · exact ⟨Extended.negInf_le _, Extended.le_inf _⟩

theorem estimate_mono (hw : w.Sound) (hz : 0 ≤ z) (ha : ∀ s ∈ as, s.Sound) (hb : ∀ s ∈ bs, s.Sound)
    {as' bs' : List (SegmentStats ℝ)} (ma : List.Forall₂ MoreEvidence as as') (mb : List.Forall₂ MoreEvidence bs bs') :
    Arith.le (estimate w z as bs).lower (estimate w z as' bs').lower = true ∧
      Arith.le (estimate w z as' bs').upper (estimate w z as bs).upper = true ∧
      (estimate w z as' bs').point = (estimate w z as bs).point := by
  unfold estimate
  dsimp only
  rw [pathCost_congr ma, pathCost_congr mb]
  by_cases trusted : ∀ s ∈ as ++ bs, s.Trusted z
  · obtain ⟨ta, tb⟩ := List.forall_mem_append.1 trusted
    have trusted' : ∀ s ∈ as' ++ bs', s.Trusted z :=
      List.forall_mem_append.2 ⟨trusted_of_more hz ma ha ta, trusted_of_more hz mb hb tb⟩
    have lower : ∀ {segs segs'}, List.Forall₂ MoreEvidence segs segs' → (∀ s ∈ segs, s.Sound) →
        (∀ s ∈ segs, s.Trusted z) → spread (·.lowerSpread w z) segs' ≤ spread (·.lowerSpread w z) segs :=
      fun more sound trusted => spread_le more fun s hs s' h =>
        ⟨lowerSpread_nonneg hw hz (h.sound (sound s hs)), h.lowerSpread_le hw hz (sound s hs) (trusted s hs)⟩
    have upper : ∀ {segs segs'}, List.Forall₂ MoreEvidence segs segs' → (∀ s ∈ segs, s.Sound) →
        (∀ s ∈ segs, s.Trusted z) → spread (·.upperSpread w z) segs' ≤ spread (·.upperSpread w z) segs :=
      fun more sound trusted => spread_le more fun s hs s' h =>
        ⟨upperSpread_nonneg hw hz (h.trusted hz (sound s hs) (trusted s hs)),
          h.upperSpread_le hw hz (sound s hs) (trusted s hs)⟩
    rw [if_pos trusted, if_pos trusted']
    simp only [Extended.le_real, decide_eq_true_eq, and_true]
    constructor
    · linarith [lower ma ha ta, upper mb hb tb]
    · linarith [upper ma ha ta, lower mb hb tb]
  · rw [if_neg trusted]
    split_ifs
    · exact ⟨Extended.negInf_le _, Extended.le_inf _, rfl⟩
    · exact ⟨Extended.negInf_le _, Extended.le_inf _, rfl⟩

theorem estimate_unmeasured {s : SegmentStats ℝ} (hs : s ∈ as ++ bs) (none_ : s.n = 0 ∨ s.confidence ≤ 0) :
    (estimate w z as bs).lower = -Arith.inf := by
  have untrusted : ¬ ∀ s ∈ as ++ bs, s.Trusted z := by
    intro trusted
    rcases none_ with zero | low
    · exact (trusted s hs).measured zero
    · exact absurd (trusted s hs).confident (not_lt.2 low)
  unfold estimate
  dsimp only
  rw [if_neg untrusted]

end

def DecisionWeights.map {F G : Type} (f : F → G) (dw : DecisionWeights F) : DecisionWeights G :=
  ⟨f dw.z, f dw.migrationCost, f dw.safetyMargin⟩

def PathCandidate.differing (c : PathCandidate ℝ) (k : ℤ) : List (SegmentStats ℝ) :=
  c.segments.take (c.segments.length - k.toNat)

/-- Paths to one egress, both with a suffix of `k` segments. -/
structure Comparable (k : ℤ) (a b : PathCandidate ℝ) : Prop where
  egressID : a.egressID = b.egressID
  nonneg : 0 ≤ k
  left : k ≤ a.segments.length
  right : k ≤ b.segments.length

/-- What is asked of weights and paths. -/
structure Sensible (w : CostWeights ℝ) (dw : DecisionWeights ℝ) (a b : PathCandidate ℝ) : Prop where
  z : 0 ≤ dw.z
  weights : w.Sound
  gate : w.lossGate ≤ 1
  measured : ∀ s ∈ a.segments ++ b.segments, 0 ≤ s.varianceMicros2 ∧ 0 ≤ s.lossRate ∧ s.lossRate ≤ 1
  left : Ungated (w.map real) (a.map real)
  right : Ungated (w.map real) (b.map real)

section

variable {w : CostWeights ℝ} {dw : DecisionWeights ℝ} {a b : PathCandidate ℝ}

theorem Sensible.sound (h : Sensible w dw a b) (k : ℤ) :
    (∀ s ∈ a.differing k, s.Sound) ∧ ∀ s ∈ b.differing k, s.Sound := by
  have below : ∀ c : PathCandidate ℝ, Ungated (w.map real) (c.map real) → ∀ s ∈ c.segments, s.lossRate < 1 :=
    fun c hc => below_of_ungated (F := Extended) h.gate hc
  constructor
  · intro s hs
    have hs := List.mem_of_mem_take hs
    obtain ⟨variance, loss, -⟩ := h.measured s (by simp [hs])
    exact ⟨variance, loss, below a h.left s hs⟩
  · intro s hs
    have hs := List.mem_of_mem_take hs
    obtain ⟨variance, loss, -⟩ := h.measured s (by simp [hs])
    exact ⟨variance, loss, below b h.right s hs⟩

theorem decideMigration_eq (h : Sensible w dw a b) {k : ℤ} (hk : Comparable k a b) :
    decideMigration (a.map real) (b.map real) k (w.map real) (dw.map real) =
      .ok ⟨Arith.lt (real (dw.migrationCost + dw.safetyMargin)) (estimate w dw.z (a.differing k) (b.differing k)).lower,
        estimate w dw.z (a.differing k) (b.differing k), real (dw.migrationCost + dw.safetyMargin)⟩ := by
  obtain ⟨n, rfl⟩ := Int.eq_ofNat_of_zero_le hk.nonneg
  have taken : ∀ c : PathCandidate ℝ, (c.map real).segments.take ((c.map real).segments.length - n) =
      (c.differing n).map (SegmentStats.map real) := by
    intro c
    rw [PathCandidate.map, List.length_map, ← List.map_take, PathCandidate.differing, Int.toNat_natCast]
  have length : ∀ c : PathCandidate ℝ, (c.map real).segments.length = c.segments.length := fun c => List.length_map ..
  have same : (a.map real).egressID = (b.map real).egressID := hk.egressID
  have valid := validateDifferential_ok (k := n) same h.left h.right (by rw [length]; exact_mod_cast hk.left)
    (by rw [length]; exact_mod_cast hk.right)
  have bounds : ∀ c : PathCandidate ℝ, Ungated (w.map real) (c.map real) →
      differingBounds ((c.differing n).map (SegmentStats.map real)) (w.map real) (dw.map real).z =
        aggregateBounds ((c.differing n).map (SegmentStats.map real)) (w.map real) (real dw.z) := by
    intro c hc
    rw [differingBounds, ← taken, if_neg (by simp [segmentsGated_take hc.segments])]
    rfl
  obtain ⟨soundA, soundB⟩ := h.sound n
  rw [taken, taken] at valid
  rw [decideMigration, valid]
  simp only [bounds a h.left, bounds b h.right, ← estimate_eq h.weights h.z soundA soundB]
  have threshold : (dw.map real).migrationCost + (dw.map real).safetyMargin =
      real (dw.migrationCost + dw.safetyMargin) := Extended.real_add _ _
  rw [threshold]

end

theorem Comparable.of_decided {k : ℤ} {w : CostWeights ℝ} {dw : DecisionWeights ℝ} {a b : PathCandidate ℝ}
    {decision : MigrationDecision Extended}
    (h : decideMigration (a.map real) (b.map real) k (w.map real) (dw.map real) = .ok decision) : Comparable k a b := by
  have length : ∀ c : PathCandidate ℝ, (c.map real).segments.length = c.segments.length := fun c => List.length_map ..
  unfold decideMigration validateDifferential at h
  rw [length, length] at h
  by_cases egress : (a.map real).egressID = (b.map real).egressID
  · by_cases negative : k < 0
    · simp [egress, negative] at h
    · by_cases long : (a.segments.length : ℤ) < k ∨ (b.segments.length : ℤ) < k
      · simp [egress, negative, long] at h
      · exact ⟨egress, by omega, by omega, by omega⟩
  · simp [egress] at h

/-- The same path with more evidence. -/
structure Observed (c c' : PathCandidate ℝ) : Prop where
  egressID : c'.egressID = c.egressID
  capacityFraction : c'.capacityFraction = c.capacityFraction
  segments : List.Forall₂ MoreEvidence c.segments c'.segments

namespace Observed

variable {w : CostWeights ℝ} {c c' : PathCandidate ℝ}

theorem differing (h : Observed c c') (k : ℤ) : List.Forall₂ MoreEvidence (c.differing k) (c'.differing k) := by
  unfold PathCandidate.differing
  rw [← h.segments.length_eq]
  exact List.forall₂_take _ h.segments

theorem forall_segments {P : SegmentStats ℝ → Prop} (h : Observed c c') (keep : ∀ s s', MoreEvidence s s' → P s → P s')
    (hc : ∀ s ∈ c.segments, P s) : ∀ s ∈ c'.segments, P s := by
  have all := h.segments
  generalize c.segments = segs, c'.segments = segs' at all hc
  induction all with
  | nil => simp
  | cons here _ ih =>
    obtain ⟨first, rest⟩ := List.forall_mem_cons.1 hc
    exact List.forall_mem_cons.2 ⟨keep _ _ here first, ih rest⟩

theorem ungated (h : Observed c c') (hc : Ungated (w.map real) (c.map real)) : Ungated (w.map real) (c'.map real) where
  capacity := by
    have capacity := hc.capacity
    rwa [PathCandidate.map, ← h.capacityFraction] at capacity
  segments := by
    have segments := hc.segments
    simp only [segmentsGated, PathCandidate.map, List.any_map, List.any_eq_false] at segments ⊢
    refine h.forall_segments (fun s s' more below => ?_) segments
    simpa only [Function.comp, SegmentStats.map, more.lossRate] using below

end Observed

section

variable {w : CostWeights ℝ} {dw : DecisionWeights ℝ} {a b a' b' : PathCandidate ℝ} {k : ℤ}

theorem Sensible.observed (h : Sensible w dw a b) (ha : Observed a a') (hb : Observed b b') : Sensible w dw a' b' where
  z := h.z
  weights := h.weights
  gate := h.gate
  measured := by
    have keep : ∀ s s' : SegmentStats ℝ, MoreEvidence s s' → (0 ≤ s.varianceMicros2 ∧ 0 ≤ s.lossRate ∧ s.lossRate ≤ 1) →
        0 ≤ s'.varianceMicros2 ∧ 0 ≤ s'.lossRate ∧ s'.lossRate ≤ 1 := by
      intro s s' more hs
      rwa [more.varianceMicros2, more.lossRate]
    obtain ⟨left, right⟩ := List.forall_mem_append.1 h.measured
    exact List.forall_mem_append.2 ⟨ha.forall_segments keep left, hb.forall_segments keep right⟩
  left := ha.ungated h.left
  right := hb.ungated h.right

theorem Comparable.observed (h : Comparable k a b) (ha : Observed a a') (hb : Observed b b') : Comparable k a' b' where
  egressID := by rw [ha.egressID, hb.egressID, h.egressID]
  nonneg := h.nonneg
  left := by rw [← ha.segments.length_eq]; exact h.left
  right := by rw [← hb.segments.length_eq]; exact h.right

/-- For sensible paths to one egress: the bounds are on their sides of the point, a move is worth more than it costs,
more evidence brings the bounds closer and takes no move back, and without evidence for a segment that is not shared
there is no move. -/
theorem evidence_never_hurts (h : Sensible w dw a b) (k : ℤ) :
    let decide (a b : PathCandidate ℝ) := decideMigration (a.map real) (b.map real) k (w.map real) (dw.map real)
    ((∃ d, decide a b = .ok d) ↔ Comparable k a b) ∧
    ∀ d, decide a b = .ok d →
      (Arith.le d.delta.lower d.delta.point = true ∧ Arith.le d.delta.point d.delta.upper = true) ∧
      (d.migrate = true → Arith.lt (real (dw.migrationCost + dw.safetyMargin)) d.delta.point = true) ∧
      (∀ a' b', Observed a a' → Observed b b' → ∃ d', decide a' b' = .ok d' ∧
        Arith.le d.delta.lower d'.delta.lower = true ∧ Arith.le d'.delta.upper d.delta.upper = true ∧
        d'.delta.point = d.delta.point ∧ (d.migrate = true → d'.migrate = true)) ∧
      ((∃ s ∈ a.differing k ++ b.differing k, s.n = 0 ∨ s.confidence ≤ 0) → d.migrate = false) := by
  intro decide
  refine ⟨⟨fun ⟨_, decided⟩ => .of_decided decided, fun hk => ⟨_, decideMigration_eq h hk⟩⟩, fun d decided => ?_⟩
  have hk := Comparable.of_decided decided
  obtain rfl : _ = d := Except.ok.inj ((decideMigration_eq h hk).symm.trans decided)
  obtain ⟨lower, upper⟩ := estimate_ordered w dw.z (a.differing k) (b.differing k)
  refine ⟨⟨lower, upper⟩, fun migrate => Extended.lt_of_lt_of_le migrate lower, ?_, ?_⟩
  · intro a' b' ha hb
    obtain ⟨soundA, soundB⟩ := h.sound k
    obtain ⟨closer, closer', point⟩ := estimate_mono h.weights h.z soundA soundB (ha.differing k) (hb.differing k)
    exact ⟨_, decideMigration_eq (h.observed ha hb) (hk.observed ha hb), closer, closer', point,
      fun migrate => Extended.lt_of_lt_of_le migrate closer⟩
  · rintro ⟨s, hs, unmeasured⟩
    simp only [estimate_unmeasured hs unmeasured, Extended.lt_negInf]

end

namespace Sample

def behind (micros : ℝ) : PathCandidate ℝ := ⟨"fr", [hop micros, ⟨5, 5, 0, 0, 0, 1⟩], 0⟩

def decision : DecisionWeights ℝ := ⟨1, 0, 0⟩

theorem behind_ungated (micros : ℝ) : Ungated (weights.map real) ((behind micros).map real) := by
  have below : Arith.le (real 1) (real 0) = false := by simp
  exact ⟨below, by simp [segmentsGated, behind, hop, weights, PathCandidate.map, SegmentStats.map, CostWeights.map]⟩

theorem behind_sensible (x y : ℝ) : Sensible weights decision (behind x) (behind y) where
  z := zero_le_one
  weights := ⟨zero_le_one, zero_le_one⟩
  gate := le_refl 1
  measured := by simp [behind, hop]
  left := behind_ungated x
  right := behind_ungated y

theorem behind_comparable (x y : ℝ) : Comparable 1 (behind x) (behind y) :=
  ⟨rfl, by simp, by simp [behind], by simp [behind]⟩

theorem hop_error (micros : ℝ) : (hop micros).error 0 = 0 := by simp [SegmentStats.error]

theorem hop_lossSpread (micros z : ℝ) : (hop micros).lossSpread z = 0 := by
  have none_ : (hop micros).lossRate * (1 - (hop micros).lossRate) = 0 := by simp [hop]
  rw [SegmentStats.lossSpread, none_, hop_error, mul_zero]

theorem hop_trusted (micros z : ℝ) : (hop micros).Trusted z :=
  ⟨by simp [hop], by simp [hop], by rw [hop_lossSpread]; simp [hop]⟩

theorem hop_spread (micros z : ℝ) (w : CostWeights ℝ) :
    (hop micros).lowerSpread w z = 0 ∧ (hop micros).upperSpread w z = 0 := by
  have latency : (hop micros).latencySpread w z = 0 := by
    rw [SegmentStats.latencySpread, show (hop micros).varianceMicros2 = 0 from rfl, hop_error, mul_zero, zero_mul]
  have lossless : (hop micros).lossRate = 0 := rfl
  constructor
  · rw [SegmentStats.lowerSpread, latency, hop_lossSpread, lossless]
    simp
  · rw [SegmentStats.upperSpread, latency, hop_lossSpread, lossless]
    simp

theorem hop_cost (micros : ℝ) : (hop micros).cost weights = micros := by
  simp [SegmentStats.cost, SegmentStats.latency, hop, weights, penalty]

end Sample

open Sample

theorem evidence_never_hurts_behind : Sensible weights decision (behind 100) (behind 10) ∧
    ∃ d, decideMigration ((behind 100).map real) ((behind 10).map real) 1 (weights.map real)
      (decision.map real) = .ok d :=
  ⟨behind_sensible 100 10, (evidence_never_hurts (behind_sensible 100 10) 1).1.2 (behind_comparable 100 10)⟩

/-- A segment that has never been measured stops no migration while it is shared. -/
theorem unmeasured_suffix_ignored : Sensible weights decision (behind 100) (behind 10) ∧
    (∃ s ∈ (behind 100).segments, s.n = 0) ∧
    ∃ d, decideMigration ((behind 100).map real) ((behind 10).map real) 1 (weights.map real)
      (decision.map real) = .ok d ∧ d.migrate = true := by
  refine ⟨behind_sensible 100 10, ⟨_, List.mem_cons_of_mem _ (List.mem_singleton_self _), rfl⟩,
    _, decideMigration_eq (behind_sensible 100 10) (behind_comparable 100 10), ?_⟩
  have trusted : ∀ s ∈ (behind 100).differing 1 ++ (behind 10).differing 1, s.Trusted decision.z := by
    change ∀ s ∈ [hop 100] ++ [hop 10], _
    simp [hop_trusted]
  have differing : ∀ micros, (behind micros).differing 1 = [hop micros] := fun _ => rfl
  dsimp only [estimate]
  rw [if_pos trusted, Extended.lt_real, differing, differing]
  simp only [pathCost, spread, List.map_cons, List.map_nil, List.sum_cons, List.sum_nil, hop_spread, hop_cost]
  norm_num [decision]

/-- As long as the measurements stay, decisions lead to ever cheaper paths, each time by more than a migration costs,
and so never back. -/
theorem migrations_never_cycle {w : CostWeights ℝ} {dw : DecisionWeights ℝ}
    (worth : 0 ≤ dw.migrationCost + dw.safetyMargin) {paths : List (PathCandidate ℝ)}
    (moves : paths.IsChain fun a b => Sensible w dw a b ∧
      ∃ d, decideMigration (a.map real) (b.map real) 0 (w.map real) (dw.map real) = .ok d ∧ d.migrate = true) :
    paths.Pairwise fun a b =>
      pathCost w b.segments + (dw.migrationCost + dw.safetyMargin) < pathCost w a.segments := by
  have : IsTrans (PathCandidate ℝ) fun a b =>
      pathCost w b.segments + (dw.migrationCost + dw.safetyMargin) < pathCost w a.segments :=
    ⟨fun a b c ab bc => by linarith⟩
  refine List.isChain_iff_pairwise.1 (moves.imp fun a b ⟨h, d, decided, migrate⟩ => ?_)
  obtain rfl := Except.ok.inj ((decideMigration_eq h (.of_decided decided)).symm.trans decided)
  have gain := Extended.lt_of_lt_of_le migrate (estimate_ordered w dw.z _ _).1
  have whole : ∀ c : PathCandidate ℝ, c.differing 0 = c.segments := fun c => by simp [PathCandidate.differing]
  have point : (estimate w dw.z (a.differing 0) (b.differing 0)).point =
      real (pathCost w a.segments - pathCost w b.segments) := by
    rw [whole, whole, estimate]
    split_ifs <;> rfl
  rw [point, Extended.lt_real, decide_eq_true_eq] at gain
  linarith

def Sample.direct (micros : ℝ) : PathCandidate ℝ := ⟨"fr", [hop micros], 0⟩

theorem migrations_never_cycle_direct :
    [direct 100, direct 10].Pairwise fun a b => pathCost weights b.segments + 0 < pathCost weights a.segments := by
  have ungated : ∀ x, Ungated (weights.map real) ((direct x).map real) := fun x =>
    ⟨(behind_ungated x).capacity, by simp [segmentsGated, direct, hop, weights, PathCandidate.map, SegmentStats.map,
      CostWeights.map]⟩
  have sensible : Sensible weights decision (direct 100) (direct 10) :=
    { behind_sensible 100 10 with measured := by simp [direct, hop], left := ungated 100, right := ungated 10 }
  have decided := decideMigration_eq sensible (k := 0) ⟨rfl, le_rfl, by simp, by simp⟩
  have differing : ∀ micros, (direct micros).differing 0 = [hop micros] := fun _ => rfl
  have cheaper : [direct 100, direct 10].Pairwise _ := migrations_never_cycle (by norm_num [decision])
    (List.isChain_pair.2 ⟨sensible, _, decided, by
      rw [differing, differing, estimate, if_pos (by simp [hop_trusted])]
      simp only [Extended.lt_real, pathCost, spread, List.map_cons, List.map_nil, List.sum_cons,
        List.sum_nil, hop_spread,
        hop_cost]
      norm_num [decision]⟩)
  simpa [decision] using cheaper

end

end Egressa.Measurement
