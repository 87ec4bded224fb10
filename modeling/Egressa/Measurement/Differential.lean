import Egressa.Measurement.Cost
import Egressa.Measurement.Extended

/-!
# Paths that share a suffix

`PathDifferential` (`internal/measurement/cost.go`) compares two paths to one egress by the segments in which they
differ.  With exact numbers that is the difference of their scores, however much of what they share is left out
(`suffix_cancels`), and it is what `DecideMigration` estimates.
-/

namespace Egressa.Measurement

section

variable {F : Type} [Arith F]

/-- The loop of `PathDifferential`. -/
def differingCost (w : CostWeights F) (total : F) : List (SegmentStats F) → F
  | [] => total
  | seg :: segs =>
    if Arith.le w.lossGate seg.lossRate then Arith.inf else differingCost w (total + segmentCost seg w) segs

def pathDifferential (a b : PathCandidate F) (sharedSuffixLen : ℤ) (w : CostWeights F) :
    Except (DifferentialError F) F :=
  match validateDifferential a b sharedSuffixLen w with
  | .error e => .error e
  | .ok (differingA, differingB) => .ok (differingCost w 0 differingA - differingCost w 0 differingB)

/-! ## One sum -/

/-- The costs of the segments, summed up as the code does. -/
def costSum (w : CostWeights F) (segs : List (SegmentStats F)) : F :=
  segs.foldl (fun total seg => total + segmentCost seg w) 0

variable {w : CostWeights F} {segs : List (SegmentStats F)}

theorem differingCost_of_ungated (ungated : segmentsGated segs w = false) :
    differingCost w 0 segs = costSum w segs := by
  unfold costSum
  generalize (0 : F) = total
  induction segs generalizing total with
  | nil => rfl
  | cons seg segs ih =>
    rw [segmentsGated, List.any_cons, Bool.or_eq_false_iff] at ungated
    rw [differingCost, if_neg (by simp [ungated.1]), ih ungated.2, List.foldl_cons]

theorem scoreSegments_of_ungated (ungated : segmentsGated segs w = false) :
    (scoreSegments w 0 0 segs).cost = costSum w segs := by
  unfold costSum
  generalize (0 : F) = total
  generalize 0 = i
  induction segs generalizing total i with
  | nil => rfl
  | cons seg segs ih =>
    rw [segmentsGated, List.any_cons, Bool.or_eq_false_iff] at ungated
    rw [scoreSegments, if_neg (by simp [ungated.1]), ih ungated.2, List.foldl_cons]

theorem point_segmentCostBound (s : SegmentStats F) (w : CostWeights F) (z : F) :
    (segmentCostBound s w z).point = segmentCost s w := by
  unfold segmentCostBound
  split_ifs <;> rfl

theorem point_aggregateBounds (segs : List (SegmentStats F)) (w : CostWeights F) (z : F) :
    (aggregateBounds segs w z).point = costSum w segs := by
  have fold : ∀ a : Aggregate F, (segs.foldl (aggregateSegment w z) a).point =
      segs.foldl (fun total seg => total + segmentCost seg w) a.point := by
    induction segs with
    | nil => exact fun _ => rfl
    | cons seg segs ih =>
      intro a
      have here : (aggregateSegment w z a seg).point = a.point + segmentCost seg w := by
        rw [← point_segmentCostBound seg w z]
        unfold aggregateSegment
        dsimp only
        split_ifs <;> rfl
      rw [List.foldl_cons, List.foldl_cons, ih, here]
  unfold aggregateBounds costSum
  dsimp only
  split_ifs
  · exact fold _
  · exact fold _

/-- A path that can be used: its egress has room, and none of its segments loses too much. -/
structure Ungated (w : CostWeights F) (c : PathCandidate F) : Prop where
  capacity : Arith.le w.maxCapacityFraction c.capacityFraction = false
  segments : segmentsGated c.segments w = false

theorem Ungated.score {c : PathCandidate F} (h : Ungated w c) : (scorePath c w).cost = costSum w c.segments := by
  rw [scorePath, if_neg (by simp [h.capacity]), scoreSegments_of_ungated h.segments]

theorem validateDifferential_ok {a b : PathCandidate F} {k : ℕ} (egress : a.egressID = b.egressID) (ha : Ungated w a)
    (hb : Ungated w b) (ka : k ≤ a.segments.length) (kb : k ≤ b.segments.length) :
    validateDifferential a b k w =
      .ok (a.segments.take (a.segments.length - k), b.segments.take (b.segments.length - k)) := by
  have suffix : ((a.segments.drop (a.segments.length - k)).find? fun seg => Arith.le w.lossGate seg.lossRate)
      = none := by
    refine List.find?_eq_none.2 fun seg hseg => ?_
    have gated := ha.segments
    rw [segmentsGated, List.any_eq_false] at gated
    exact gated seg (List.mem_of_mem_drop hseg)
  have short : ¬ (a.segments.length < k ∨ b.segments.length < k) := by omega
  have nonneg : ¬ (k : ℤ) < 0 := by omega
  unfold validateDifferential
  simp [egress, nonneg, short, suffix, ha.capacity, hb.capacity]

theorem segmentsGated_take {n : ℕ} (ungated : segmentsGated segs w = false) :
    segmentsGated (segs.take n) w = false := by
  rw [segmentsGated, List.any_eq_false] at ungated ⊢
  exact fun seg hseg => ungated seg (List.mem_of_mem_take hseg)

end

/-! ## Exact numbers -/

/-- Numbers among which the reals are computed with exactly.  All that is known of the logarithm is that it is finite
where its argument is positive. -/
class Exact (F : Type) [Arith F] where
  real : ℝ → F
  zero_eq : (0 : F) = real 0
  one_eq : (1 : F) = real 1
  add_real (x y : ℝ) : real x + real y = real (x + y)
  sub_real (x y : ℝ) : real x - real y = real (x - y)
  mul_real (x y : ℝ) : real x * real y = real (x * y)
  neg_real (x : ℝ) : -real x = real (-x)
  lt_real (x y : ℝ) : Arith.lt (real x) (real y) = true ↔ x < y
  le_real (x y : ℝ) : Arith.le (real x) (real y) = true ↔ x ≤ y
  log_real (x : ℝ) : 0 < x → ∃ y, Arith.log (real x) = real y

noncomputable instance : Exact Extended where
  real := Extended.real
  zero_eq := rfl
  one_eq := rfl
  add_real := Extended.real_add
  sub_real := Extended.real_sub
  mul_real := Extended.real_mul
  neg_real := Extended.neg_real
  lt_real := by simp
  le_real := by simp
  log_real x hx := ⟨Real.log x, Extended.log_real hx⟩

section

variable {F G : Type}

/-- Maps the measurements into another arithmetic. -/
def SegmentStats.map (f : F → G) (s : SegmentStats F) : SegmentStats G :=
  ⟨f s.p50Micros, f s.p95Micros, f s.lossRate, f s.varianceMicros2, s.n, f s.confidence⟩

def CostWeights.map (f : F → G) (w : CostWeights F) : CostWeights G :=
  ⟨f w.tailWeight, f w.lossWeight, f w.lossGate, f w.maxCapacityFraction⟩

def PathCandidate.map (f : F → G) (c : PathCandidate F) : PathCandidate G :=
  ⟨c.egressID, c.segments.map (SegmentStats.map f), f c.capacityFraction⟩

end

section

open Exact

variable {F : Type} [Arith F] [Exact F]

theorem lossPenalty_real (weight : ℝ) {p : ℝ} (below : p < 1) :
    ∃ x : ℝ, lossPenalty (real p : F) (real weight) = real x := by
  obtain ⟨y, hy⟩ := log_real (F := F) (1 - p) (by linarith)
  refine ⟨-y * weight, ?_⟩
  have small : ¬ Arith.le (1 : F) (real p) = true := by
    rw [one_eq, le_real]
    linarith
  rw [lossPenalty, if_neg small, one_eq, sub_real, hy, neg_real, mul_real]

theorem tailPremium_real (s : SegmentStats ℝ) : ∃ x : ℝ, tailPremium (s.map real : SegmentStats F) = real x := by
  unfold tailPremium
  split_ifs
  · exact ⟨0, zero_eq⟩
  · exact ⟨_, sub_real _ _⟩

theorem segmentCost_real (w : CostWeights ℝ) {s : SegmentStats ℝ} (below : s.lossRate < 1) :
    ∃ x : ℝ, segmentCost (s.map real : SegmentStats F) (w.map real) = real x := by
  obtain ⟨tail, htail⟩ := tailPremium_real (F := F) s
  obtain ⟨loss, hloss⟩ := lossPenalty_real (F := F) w.lossWeight below
  refine ⟨s.p50Micros + w.tailWeight * tail + loss, ?_⟩
  rw [← add_real, ← add_real, ← mul_real, ← htail, ← hloss]
  rfl

theorem costSum_real (w : CostWeights ℝ) : ∃ cost : SegmentStats ℝ → ℝ, ∀ segs : List (SegmentStats ℝ),
    (∀ s ∈ segs, s.lossRate < 1) →
      costSum (w.map real : CostWeights F) (segs.map (SegmentStats.map real)) = real (segs.map cost).sum := by
  have each : ∀ s : SegmentStats ℝ, ∃ x : ℝ, s.lossRate < 1 →
      segmentCost (s.map real : SegmentStats F) (w.map real) = real x := by
    intro s
    by_cases below : s.lossRate < 1
    · obtain ⟨x, hx⟩ := segmentCost_real (F := F) w below
      exact ⟨x, fun _ => hx⟩
    · exact ⟨0, fun h => absurd h below⟩
  choose cost hcost using each
  refine ⟨cost, fun segs below => ?_⟩
  have fold : ∀ t : ℝ, (segs.map (SegmentStats.map real)).foldl
      (fun total seg => total + segmentCost seg (w.map real : CostWeights F)) (real t) =
        real (t + (segs.map cost).sum) := by
    induction segs with
    | nil => simp
    | cons s segs ih =>
      intro t
      obtain ⟨hs, hsegs⟩ := List.forall_mem_cons.1 below
      rw [List.map_cons, List.foldl_cons, hcost s hs, add_real, ih hsegs, List.map_cons, List.sum_cons, add_assoc]
  unfold costSum
  rw [zero_eq, fold, zero_add]

/-! ## The suffix -/

variable {w : CostWeights ℝ}

theorem below_of_ungated (gate : w.lossGate ≤ 1) {c : PathCandidate ℝ}
    (h : Ungated (w.map real : CostWeights F) (c.map real)) : ∀ s ∈ c.segments, s.lossRate < 1 := by
  intro s hs
  have gated := h.segments
  rw [segmentsGated, List.any_eq_false] at gated
  have below := gated (s.map real) (List.mem_map_of_mem hs)
  rw [SegmentStats.map, CostWeights.map, le_real] at below
  linarith

/-- Two paths with `k` segments in common at their ends. -/
structure Shares (k : ℕ) (a b : PathCandidate ℝ) : Prop where
  left : k ≤ a.segments.length
  right : k ≤ b.segments.length
  same : a.segments.drop (a.segments.length - k) = b.segments.drop (b.segments.length - k)

variable {a b : PathCandidate ℝ}

theorem Shares.symm {k : ℕ} (h : Shares k a b) : Shares k b a := ⟨h.right, h.left, h.same.symm⟩

theorem exists_cost (gate : w.lossGate ≤ 1) : ∃ cost : SegmentStats ℝ → ℝ,
    ∀ c : PathCandidate ℝ, Ungated (w.map real : CostWeights F) (c.map real) →
      (scorePath (c.map real) (w.map real : CostWeights F)).cost = real (c.segments.map cost).sum ∧
      ∀ n, costSum (w.map real : CostWeights F) ((c.map real).segments.take n) =
        real ((c.segments.take n).map cost).sum := by
  obtain ⟨cost, hcost⟩ := costSum_real (F := F) w
  refine ⟨cost, fun c h => ⟨h.score.trans (hcost _ (below_of_ungated gate h)), fun n => ?_⟩⟩
  rw [PathCandidate.map, ← List.map_take]
  exact hcost _ fun s hs => below_of_ungated gate h s (List.mem_of_mem_take hs)

theorem Shares.sum_sub {k : ℕ} (h : Shares k a b) (cost : SegmentStats ℝ → ℝ) :
    ((a.segments.take (a.segments.length - k)).map cost).sum -
        ((b.segments.take (b.segments.length - k)).map cost).sum =
      (a.segments.map cost).sum - (b.segments.map cost).sum := by
  have split : ∀ c : PathCandidate ℝ, (c.segments.map cost).sum =
      ((c.segments.take (c.segments.length - k)).map cost).sum +
        ((c.segments.drop (c.segments.length - k)).map cost).sum := by
    intro c
    rw [← List.sum_append, ← List.map_append, List.take_append_drop]
  rw [split a, split b, h.same]
  ring

theorem pathDifferential_eq (gate : w.lossGate ≤ 1)
    (egress : a.egressID = b.egressID) (ha : Ungated (w.map real : CostWeights F) (a.map real))
    (hb : Ungated (w.map real : CostWeights F) (b.map real)) {k : ℕ} (shares : Shares k a b) :
    pathDifferential (a.map real : PathCandidate F) (b.map real) k (w.map real) =
      .ok ((scorePath (a.map real) (w.map real)).cost - (scorePath (b.map real) (w.map real)).cost) ∧
    ∀ dw, ∃ dec, decideMigration (a.map real : PathCandidate F) (b.map real) k (w.map real) dw = .ok dec ∧
      dec.delta.point = (scorePath (a.map real) (w.map real)).cost - (scorePath (b.map real) (w.map real)).cost := by
  obtain ⟨cost, hcost⟩ := exists_cost (F := F) gate
  obtain ⟨scoreA, takeA⟩ := hcost a ha
  obtain ⟨scoreB, takeB⟩ := hcost b hb
  have lengths : ∀ c : PathCandidate ℝ, (c.map real : PathCandidate F).segments.length = c.segments.length :=
    fun c => List.length_map ..
  have same : (a.map real : PathCandidate F).egressID = (b.map real : PathCandidate F).egressID := egress
  have valid := validateDifferential_ok same ha hb (shares.left.trans_eq (lengths a).symm)
    (shares.right.trans_eq (lengths b).symm)
  rw [lengths, lengths] at valid
  have gatedA := segmentsGated_take (n := a.segments.length - k) ha.segments
  have gatedB := segmentsGated_take (n := b.segments.length - k) hb.segments
  rw [scoreA, scoreB, sub_real, ← shares.sum_sub cost, ← sub_real, ← takeA, ← takeB]
  refine ⟨?_, fun dw => ⟨_, by rw [decideMigration, valid], ?_⟩⟩
  · rw [pathDifferential, valid]
    simp only [differingCost_of_ungated gatedA, differingCost_of_ungated gatedB]
  · simp only [differingBounds, gatedA, gatedB, Bool.false_eq_true, if_false, point_aggregateBounds]

/-- However much of what two paths share is left out, their differential is the difference of their scores and the point
of the estimate; it changes its sign with their order, and adds up over three paths. -/
theorem suffix_cancels {w : CostWeights ℝ} (gate : w.lossGate ≤ 1) {a b c : PathCandidate ℝ}
    (ha : Ungated (w.map real : CostWeights F) (a.map real)) (hb : Ungated (w.map real : CostWeights F) (b.map real))
    (hc : Ungated (w.map real : CostWeights F) (c.map real)) (egress : a.egressID = b.egressID)
    (egress' : b.egressID = c.egressID) {k l m : ℕ} (hk : Shares k a b) (hl : Shares l b c) (hm : Shares m a c) :
    let score (x : PathCandidate ℝ) : F := (scorePath (x.map real) (w.map real)).cost
    let differential (x y : PathCandidate ℝ) (n : ℕ) := pathDifferential (x.map real : PathCandidate F) (y.map real) n
      (w.map real)
    differential a b k = .ok (score a - score b) ∧
    (∀ dw, ∃ dec, decideMigration (a.map real) (b.map real) k (w.map real) dw = .ok dec ∧
      dec.delta.point = score a - score b) ∧
    differential b a k = .ok (-(score a - score b)) ∧
    differential b c l = .ok (score b - score c) ∧
    differential a c m = .ok ((score a - score b) + (score b - score c)) := by
  intro score differential
  obtain ⟨cost, hcost⟩ := exists_cost (F := F) gate
  have reals : ∀ x, Ungated (w.map real : CostWeights F) (x.map real) → score x = real (x.segments.map cost).sum :=
    fun x hx => (hcost x hx).1
  have negated : score b - score a = -(score a - score b) := by
    rw [reals a ha, reals b hb, sub_real, sub_real, neg_real, neg_sub]
  have added : score a - score c = (score a - score b) + (score b - score c) := by
    rw [reals a ha, reals b hb, reals c hc, sub_real, sub_real, sub_real, add_real, sub_add_sub_cancel]
  obtain ⟨ab, point⟩ := pathDifferential_eq gate egress ha hb hk
  refine ⟨ab, point, ?_, (pathDifferential_eq gate egress' hb hc hl).1, ?_⟩
  · rw [← negated]
    exact (pathDifferential_eq gate egress.symm hb ha hk.symm).1
  · rw [← added]
    exact (pathDifferential_eq gate (egress.trans egress') ha hc hm).1

end

namespace Sample

def hop (micros : ℝ) : SegmentStats ℝ := ⟨micros, micros, 0, 0, 1, 1⟩

local instance atLeastTwo_5 : Nat.AtLeastTwo 5 := ⟨by decide⟩

def via (micros : ℝ) : PathCandidate ℝ := ⟨"fr", [hop micros, hop 5], 0⟩

def weights : CostWeights ℝ := ⟨1, 1, 1, 1⟩

theorem via_ungated (micros : ℝ) :
    Ungated (weights.map Exact.real : CostWeights Extended) ((via micros).map Exact.real) := by
  have below : Arith.le (Exact.real 1 : Extended) (Exact.real 0) = false := by
    rw [← Bool.not_eq_true, Exact.le_real]
    norm_num
  exact ⟨below, by simp [segmentsGated, via, hop, weights, PathCandidate.map, SegmentStats.map, CostWeights.map, below]⟩

theorem via_shares (x y : ℝ) : Shares 1 (via x) (via y) := ⟨by simp [via], by simp [via], rfl⟩

end Sample

open Sample

theorem suffix_cancels_via :
    pathDifferential ((via 30).map Exact.real : PathCandidate Extended) ((via 10).map Exact.real) 1
        (weights.map Exact.real) =
      .ok ((scorePath ((via 30).map Exact.real) (weights.map Exact.real)).cost -
        (scorePath ((via 10).map Exact.real) (weights.map Exact.real)).cost) :=
  (suffix_cancels (le_refl 1) (via_ungated 30) (via_ungated 10) (via_ungated 20) rfl rfl
    (via_shares 30 10) (via_shares 10 20) (via_shares 30 20)).1

end Egressa.Measurement
