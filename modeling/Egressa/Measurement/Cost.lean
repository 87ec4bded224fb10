import Egressa.Measurement.Arith

/-!
# The cost of a path

`ScorePath` (`internal/measurement/cost.go`) adds up the cost of the segments of a path, and `DecideMigration`
(`internal/measurement/decide.go`) compares two paths to the same egress.
-/

namespace Egressa.Measurement

variable {F : Type} [Arith F]

/-- What has been measured of a segment; its age is not read here. -/
structure SegmentStats (F : Type) where
  p50Micros : F
  p95Micros : F
  lossRate : F
  varianceMicros2 : F
  n : UInt64
  confidence : F

structure CostWeights (F : Type) where
  tailWeight : F
  lossWeight : F
  lossGate : F
  maxCapacityFraction : F

def defaultCostWeights : CostWeights Float := ⟨1, 995033, 0.20, 0.90⟩

/-- The cost of a loss rate: `-log(1-p)`, weighted. -/
def lossPenalty (p weight : F) : F :=
  if Arith.le 1 p then Arith.inf else -Arith.log (1 - p) * weight

/-- What the tail adds to the median. -/
def tailPremium (s : SegmentStats F) : F :=
  if Arith.lt (s.p95Micros - s.p50Micros) 0 then 0 else s.p95Micros - s.p50Micros

/-- The cost of a segment in microseconds. -/
def segmentCost (s : SegmentStats F) (w : CostWeights F) : F :=
  s.p50Micros + w.tailWeight * tailPremium s + lossPenalty s.lossRate w.lossWeight

/-- Why a path is out of the question. -/
inductive GateReason
  | none
  | loss
  | capacity
  deriving DecidableEq, Repr

/-- A path to an egress, segment by segment. -/
structure PathCandidate (F : Type) where
  egressID : String
  segments : List (SegmentStats F)
  capacityFraction : F

structure PathScore (F : Type) where
  cost : F
  gate : GateReason
  gatedSegment : ℤ

/-- The loop of `ScorePath`, from segment `i` on. -/
def scoreSegments (w : CostWeights F) (i : ℕ) (total : F) : List (SegmentStats F) → PathScore F
  | [] => ⟨total, .none, -1⟩
  | seg :: segs =>
    if Arith.le w.lossGate seg.lossRate then ⟨Arith.inf, .loss, i⟩
    else scoreSegments w (i + 1) (total + segmentCost seg w) segs

/-- The cost of a path, infinite if it is gated. -/
def scorePath (c : PathCandidate F) (w : CostWeights F) : PathScore F :=
  if Arith.le w.maxCapacityFraction c.capacityFraction then ⟨Arith.inf, .capacity, -1⟩
  else scoreSegments w 0 0 c.segments

/-- A segment loses more than the gate allows. -/
def segmentsGated (segs : List (SegmentStats F)) (w : CostWeights F) : Bool :=
  segs.any fun s => Arith.le w.lossGate s.lossRate

/-! ## Comparing two paths -/

/-- Why two paths cannot be compared. -/
inductive DifferentialError (F : Type)
  | differentEgress (a b : String)
  | negativeSuffix (sharedSuffixLen : ℤ)
  | suffixTooLong (sharedSuffixLen : ℤ) (a b : ℕ)
  | suffixGated (loss gate : F)
  | overCapacity

/-- The segments in which two paths differ. -/
def validateDifferential (a b : PathCandidate F) (sharedSuffixLen : ℤ) (w : CostWeights F) :
    Except (DifferentialError F) (List (SegmentStats F) × List (SegmentStats F)) :=
  if a.egressID ≠ b.egressID then .error (.differentEgress a.egressID b.egressID)
  else if sharedSuffixLen < 0 then .error (.negativeSuffix sharedSuffixLen)
  else if (a.segments.length : ℤ) < sharedSuffixLen ∨ (b.segments.length : ℤ) < sharedSuffixLen then
    .error (.suffixTooLong sharedSuffixLen a.segments.length b.segments.length)
  else
    let keepA := a.segments.length - sharedSuffixLen.toNat
    let keepB := b.segments.length - sharedSuffixLen.toNat
    match (a.segments.drop keepA).find? fun seg => Arith.le w.lossGate seg.lossRate with
    | some seg => .error (.suffixGated seg.lossRate w.lossGate)
    | none =>
      if Arith.le w.maxCapacityFraction a.capacityFraction ||
          Arith.le w.maxCapacityFraction b.capacityFraction then .error .overCapacity
      else .ok (a.segments.take keepA, b.segments.take keepB)

structure DecisionWeights (F : Type) where
  z : F
  migrationCost : F
  safetyMargin : F

def defaultDecisionWeights : DecisionWeights Float := ⟨1.645, 0, 0⟩

/-- An estimate with its confidence bounds. -/
structure DeltaEstimate (F : Type) where
  point : F
  lower : F
  upper : F

structure MigrationDecision (F : Type) where
  migrate : Bool
  delta : DeltaEstimate F
  threshold : F

/-- Clamps to the unit interval. -/
def clamp01 (x : F) : F :=
  if Arith.lt x 0 then 0 else if Arith.lt 1 x then 1 else x

/-- The cost of a segment with its confidence bounds. -/
def segmentCostBound (s : SegmentStats F) (w : CostWeights F) (z : F) : DeltaEstimate F :=
  let point := segmentCost s w
  if s.n = 0 || Arith.le s.confidence 0 then ⟨point, -Arith.inf, Arith.inf⟩
  else
    let latencyPoint := s.p50Micros + w.tailWeight * tailPremium s
    let confidenceInflation := Arith.sqrt s.confidence
    let se := Arith.sqrt (s.varianceMicros2 / Arith.ofUInt64 s.n) / confidenceInflation
    let latencySpread := z * se * (1 + w.tailWeight)
    let p := clamp01 s.lossRate
    let lossSE := Arith.sqrt (p * (1 - p) / Arith.ofUInt64 s.n) / confidenceInflation
    let pLow := clamp01 (p - z * lossSE)
    let pHigh := clamp01 (p + z * lossSE)
    let lower := (latencyPoint - latencySpread) + lossPenalty pLow w.lossWeight
    let upper := (latencyPoint + latencySpread) + lossPenalty pHigh w.lossWeight
    ⟨point, if Arith.lt point lower then point else lower,
      if Arith.lt upper point then point else upper⟩

/-- The sums the loop of `aggregateBounds` keeps. -/
structure Aggregate (F : Type) where
  point : F
  lowerSpreadSq : F
  upperSpreadSq : F
  untrusted : Bool

/-- One turn of the sum over the segments. -/
def aggregateSegment (w : CostWeights F) (z : F) (a : Aggregate F) (s : SegmentStats F) :
    Aggregate F :=
  let b := segmentCostBound s w z
  if isNegInf b.lower || isPosInf b.upper then { a with point := a.point + b.point, untrusted := true }
  else
    { a with
      point := a.point + b.point
      upperSpreadSq := a.upperSpreadSq + (b.upper - b.point) * (b.upper - b.point)
      lowerSpreadSq := a.lowerSpreadSq + (b.point - b.lower) * (b.point - b.lower) }

/-- The cost of all segments, with its bounds. -/
def aggregateBounds (segs : List (SegmentStats F)) (w : CostWeights F) (z : F) : DeltaEstimate F :=
  let a := segs.foldl (aggregateSegment w z) ⟨0, 0, 0, false⟩
  if a.untrusted then ⟨a.point, -Arith.inf, Arith.inf⟩
  else ⟨a.point, a.point - Arith.sqrt a.lowerSpreadSq, a.point + Arith.sqrt a.upperSpreadSq⟩

/-- The cost of the segments in which paths differ. -/
def differingBounds (segs : List (SegmentStats F)) (w : CostWeights F) (z : F) : DeltaEstimate F :=
  if segmentsGated segs w then ⟨Arith.inf, Arith.inf, Arith.inf⟩ else aggregateBounds segs w z

/-- Migrates if the lower bound of the gain beats the threshold. -/
def decideMigration (current candidate : PathCandidate F) (sharedSuffixLen : ℤ) (cw : CostWeights F)
    (dw : DecisionWeights F) : Except (DifferentialError F) (MigrationDecision F) :=
  match validateDifferential current candidate sharedSuffixLen cw with
  | .error e => .error e
  | .ok (differingA, differingB) =>
    let a := differingBounds differingA cw dw.z
    let b := differingBounds differingB cw dw.z
    let delta : DeltaEstimate F := ⟨a.point - b.point, a.lower - b.upper, a.upper - b.lower⟩
    let threshold := dw.migrationCost + dw.safetyMargin
    .ok ⟨Arith.lt threshold delta.lower, delta, threshold⟩

theorem scoreSegments_gate (w : CostWeights F) (i : ℕ) (total : F) (segs : List (SegmentStats F)) :
    (scoreSegments w i total segs).gate = if segmentsGated segs w then .loss else .none := by
  induction segs generalizing i total with
  | nil => rfl
  | cons seg segs ih =>
    cases h : Arith.le w.lossGate seg.lossRate with
    | true => simp [scoreSegments, segmentsGated, h]
    | false =>
      have hrest := ih (i + 1) (total + segmentCost seg w)
      simpa [scoreSegments, segmentsGated, h] using hrest

theorem decideMigration_ok {a b : PathCandidate F} {cw : CostWeights F} {dw : DecisionWeights F}
    {dec : MigrationDecision F} (h : decideMigration a b 0 cw dw = .ok dec) :
    Arith.le cw.maxCapacityFraction b.capacityFraction = false ∧
    dec.delta.lower = (differingBounds a.segments cw dw.z).lower - (differingBounds b.segments cw dw.z).upper ∧
    dec.migrate = Arith.lt (dw.migrationCost + dw.safetyMargin) dec.delta.lower := by
  unfold decideMigration at h
  cases hv : validateDifferential a b 0 cw with
  | error e =>
    rw [hv] at h
    cases h
  | ok segs =>
    rw [hv] at h
    cases h
    unfold validateDifferential at hv
    simp only [lt_irrefl, if_false, Int.toNat_zero, Nat.sub_zero, List.drop_length, List.find?_nil,
      List.take_length] at hv
    split_ifs at hv with hegress hlen hcap
    cases hv
    simp only [Bool.or_eq_true, not_or, Bool.not_eq_true] at hcap
    exact ⟨hcap.2, rfl, rfl⟩

theorem decideMigration_exists (dw : DecisionWeights F) {a b : PathCandidate F} {cw : CostWeights F}
    (egress : a.egressID = b.egressID)
    (ha : Arith.le cw.maxCapacityFraction a.capacityFraction = false)
    (hb : Arith.le cw.maxCapacityFraction b.capacityFraction = false) :
    ∃ dec, decideMigration a b 0 cw dw = .ok dec := by
  have hlen : ¬ ((a.segments.length : ℤ) < 0 ∨ (b.segments.length : ℤ) < 0) := by omega
  unfold decideMigration validateDifferential
  simp [egress, ha, hb, hlen]

end Egressa.Measurement
