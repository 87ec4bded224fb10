import Egressa.Measurement.Cost
import Egressa.Measurement.FlapGuard

/-!
# The decider

A `Decider` (`internal/client/decide.go`) looks at every known path once per tick and says whether the session should
move.  From a dead path it moves at once.  Otherwise it picks the candidate to the same egress that is surest to be
better, reports to the flap guard whether that one qualifies, and moves when the guard approves.
-/

namespace Egressa.Client

open Measurement

variable {F : Type} [Arith F]

/-- The weights the controller publishes. -/
structure PolicyDocument (F : Type) where
  cost : CostWeights F
  decision : DecisionWeights F
  flapGuard : FlapGuardConfig

def defaultPolicyDocument : PolicyDocument Float :=
  ⟨defaultCostWeights, defaultDecisionWeights, defaultFlapGuardConfig⟩

/-- A path the agent can take. -/
structure Path (F : Type) where
  access : String
  egress : String
  segments : List (SegmentStats F)
  reachable : Bool

def Path.candidate (p : Path F) : PathCandidate F := ⟨p.egress, p.segments, 0⟩

inductive Outcome
  | stay
  | confirming
  | migrate
  | noAlternative
  deriving DecidableEq, Repr

inductive Cause
  | betterPath
  | accessDead
  | egressChange
  deriving DecidableEq, Repr

/-- The reasons of a decision, without their texts. -/
inductive Reason (F : Type)
  | accessStopped (access : String)
  | changingEgress (egress : String)
  | noOtherPath
  | notMeasured
  | confirming (access : String)
  | better (access : String) (lower : F)

structure PathEval (F : Type) where
  access : String
  egress : String
  cost : F
  delta : Option (DeltaEstimate F)

structure Decision (F : Type) where
  migrate : Bool := false
  access : String := ""
  egress : String := ""
  reason : Option (Reason F) := none
  outcome : Option Outcome := none
  cause : Option Cause := none
  threshold : F
  evals : List (PathEval F)

/-- What a decision is made from. -/
structure Tick (F : Type) where
  now : ℤ
  access : String
  egress : String
  paths : List (Path F)
  currentDead : Bool

namespace Tick

/-- Another access gateway to the same egress. -/
def other (t : Tick F) (p : Path F) : Bool := p.egress == t.egress && p.access != t.access

def current? (t : Tick F) : Option (Path F) := t.paths.find? fun p => p.access == t.access && p.egress == t.egress

end Tick

/-- What the loop over the paths has found. -/
structure Scan (F : Type) where
  best : Option (Path F × MigrationDecision F)
  evals : List (PathEval F)

namespace PolicyDocument

def pathCost (policy : PolicyDocument F) (p : Path F) : F := (scorePath p.candidate policy.cost).cost

/-- One turn of `cheapest`. -/
def cheaper (policy : PolicyDocument F) (keep : Path F → Bool) (best : Option (Path F) × F)
    (p : Path F) : Option (Path F) × F :=
  if !p.reachable || !keep p then best
  else if Arith.lt (policy.pathCost p) best.2 then (some p, policy.pathCost p)
  else best

/-- The cheapest reachable path of a kind. -/
def cheapest (policy : PolicyDocument F) (paths : List (Path F)) (keep : Path F → Bool) : Option (Path F) :=
  (paths.foldl (policy.cheaper keep) (none, Arith.inf)).1

def evals (policy : PolicyDocument F) (paths : List (Path F)) : List (PathEval F) :=
  paths.map fun p => ⟨p.access, p.egress, policy.pathCost p, none⟩

/-- One turn of the loop over the candidates: of those that can be compared with the current path,
the one with the highest lower bound is kept. -/
def consider (policy : PolicyDocument F) (t : Tick F) (current : Path F) (s : Scan F)
    (pe : Path F × PathEval F) : Scan F :=
  if !pe.1.reachable || !t.other pe.1 then { s with evals := s.evals ++ [pe.2] }
  else match decideMigration current.candidate pe.1.candidate 0 policy.cost policy.decision with
    | .error _ => { s with evals := s.evals ++ [pe.2] }
    | .ok dec =>
      let evals := s.evals ++ [{ pe.2 with delta := some dec.delta }]
      match s.best with
      | none => ⟨some (pe.1, dec), evals⟩
      | some best =>
        if Arith.lt best.2.delta.lower dec.delta.lower then ⟨some (pe.1, dec), evals⟩
        else ⟨some best, evals⟩

/-- The loop over the paths. -/
def scan (policy : PolicyDocument F) (t : Tick F) (current : Path F) : Scan F :=
  (t.paths.zip (policy.evals t.paths)).foldl (policy.consider t current) ⟨none, []⟩

end PolicyDocument

/-- A dead gateway is left at once. -/
def shouldCutover (flap : FlapGuard) (deadGateway : Bool) (now : ℤ) (qualifies : Bool)
    (candidateID : String) : Bool × FlapGuard :=
  if deadGateway then (true, flap) else flap.evaluate now qualifies candidateID

structure Decider (F : Type) where
  policy : PolicyDocument F
  flap : FlapGuard

def newDecider (policy : PolicyDocument F) (now : ℤ) : Decider F := ⟨policy, newFlapGuard policy.flapGuard now⟩

namespace Decider

def reset (d : Decider F) (now : ℤ) : Decider F := { d with flap := newFlapGuard d.policy.flapGuard now }

def threshold (d : Decider F) : F := d.policy.decision.migrationCost + d.policy.decision.safetyMargin

/-- `decide` when the current path is dead and no other path to its egress works. -/
def changeEgress (d : Decider F) (t : Tick F) : Decision F × Decider F :=
  let evals := d.policy.evals t.paths
  match d.policy.cheapest t.paths fun p => p.egress != t.egress with
  | some p =>
    ({ migrate := true, access := p.access, egress := p.egress, reason := some (.changingEgress t.egress),
       cause := some .egressChange, threshold := d.threshold, evals }, d)
  | none =>
    ({ reason := some .noOtherPath, outcome := some .noAlternative, threshold := d.threshold, evals }, d)

/-- `decide` when the current path is dead. -/
def leaveDead (d : Decider F) (t : Tick F) : Decision F × Decider F :=
  match d.policy.cheapest t.paths t.other with
  | none => d.changeEgress t
  | some p =>
    match shouldCutover d.flap true t.now true p.access with
    | (true, flap) =>
      ({ migrate := true, access := p.access, egress := p.egress,
         reason := some (.accessStopped t.access), cause := some .accessDead,
         threshold := d.threshold, evals := d.policy.evals t.paths }, { d with flap })
    | (false, flap) => { d with flap }.changeEgress t

/-- `decide` when the current path answers. -/
def seekBetter (d : Decider F) (t : Tick F) : Decision F × Decider F :=
  let keep : Decider F := { d with flap := (d.flap.evaluate t.now false "").2 }
  match t.current? with
  | none =>
    ({ reason := some .notMeasured, threshold := d.threshold, evals := d.policy.evals t.paths }, keep)
  | some current =>
    let scan := d.policy.scan t current
    match scan.best with
    | none =>
      ({ outcome := some .noAlternative, threshold := d.threshold, evals := scan.evals }, keep)
    | some (best, bestDec) =>
      if !bestDec.migrate then ({ threshold := d.threshold, evals := scan.evals }, keep)
      else match shouldCutover d.flap false t.now true best.access with
        | (false, flap) =>
          ({ reason := some (.confirming best.access), outcome := some .confirming,
             threshold := d.threshold, evals := scan.evals }, { d with flap })
        | (true, flap) =>
          ({ migrate := true, access := best.access, egress := best.egress,
             reason := some (.better best.access bestDec.delta.lower), cause := some .betterPath,
             threshold := d.threshold, evals := scan.evals }, { d with flap })

def finish (dec : Decision F) : Decision F :=
  { dec with outcome := if dec.migrate then some .migrate else some (dec.outcome.getD .stay) }

def decide (d : Decider F) (t : Tick F) : Decision F × Decider F :=
  let answer := if t.currentDead then d.leaveDead t else d.seekBetter t
  (finish answer.1, answer.2)

end Decider

/-! ## What the flap guard learns -/

/-- The path a decision proposes. -/
def PolicyDocument.nominee (policy : PolicyDocument F) (t : Tick F) : Option (Path F) :=
  t.current?.bind fun current =>
    (policy.scan t current).best.bind fun best => if best.2.migrate then some best.1 else none

/-- What a tick reports to the flap guard, if anything. -/
def PolicyDocument.report (policy : PolicyDocument F) (t : Tick F) : Option (Bool × String) :=
  if t.currentDead then none
  else match policy.nominee t with
    | none => some (false, "")
    | some p => some (true, p.access)

/-- The decision migrates to a better path. -/
def Decision.BetterPath (dec : Decision F) (access : String) : Prop :=
  dec.migrate = true ∧ dec.cause = some .betterPath ∧ dec.access = access

theorem PolicyDocument.nominee_of_report {policy : PolicyDocument F} {t : Tick F} {b : String}
    (h : policy.report t = some (true, b)) :
    t.currentDead = false ∧ ∃ p, policy.nominee t = some p ∧ p.access = b := by
  unfold report at h
  cases hdead : t.currentDead with
  | true => simp [hdead] at h
  | false =>
    cases hn : policy.nominee t with
    | none => simp [hdead, hn] at h
    | some p =>
      simp only [hdead, hn] at h
      simp only [Bool.false_eq_true, if_false, Option.some.injEq, Prod.mk.injEq, true_and] at h
      exact ⟨rfl, p, rfl, h⟩

namespace Decider

section

variable (d : Decider F)

theorem changeEgress_spec (t : Tick F) :
    (d.changeEgress t).2 = d ∧ (d.changeEgress t).1.cause ≠ some .betterPath := by
  unfold changeEgress
  dsimp only
  split <;> simp

theorem leaveDead_spec (t : Tick F) : (d.leaveDead t).2 = d ∧ (d.leaveDead t).1.cause ≠ some .betterPath := by
  unfold leaveDead shouldCutover
  split
  · exact changeEgress_spec d t
  · simp

theorem seekBetter_spec (t : Tick F) : (d.policy.nominee t = none ∧ (d.seekBetter t).1.migrate = false ∧
      (d.seekBetter t).2 = { d with flap := (d.flap.evaluate t.now false "").2 }) ∨
    (∃ p, d.policy.nominee t = some p ∧ (d.seekBetter t).1.migrate = (d.flap.evaluate t.now true p.access).1 ∧
      ((d.seekBetter t).1.migrate = true → (d.seekBetter t).1.cause = some .betterPath ∧
        (d.seekBetter t).1.access = p.access) ∧
      (d.seekBetter t).2 = { d with flap := (d.flap.evaluate t.now true p.access).2 }) := by
  unfold seekBetter PolicyDocument.nominee
  cases hcur : t.current? with
  | none => exact Or.inl ⟨rfl, rfl, rfl⟩
  | some current =>
    cases hbest : (d.policy.scan t current).best with
    | none => simp [hbest]
    | some best =>
      obtain ⟨best, bestDec⟩ := best
      cases hmig : bestDec.migrate with
      | false => simp [hbest, hmig]
      | true =>
        right
        refine ⟨best, by simp [hbest, hmig], ?_⟩
        cases hev : d.flap.evaluate t.now true best.access with
        | mk go flap => cases go <;> simp [hbest, hmig, shouldCutover, hev]

theorem policy_decide (t : Tick F) : (d.decide t).2.policy = d.policy := by
  unfold decide
  cases t.currentDead with
  | true => simp [(leaveDead_spec d t).1]
  | false =>
    rcases seekBetter_spec d t with ⟨-, -, h⟩ | ⟨p, -, -, -, h⟩
    · simp [h]
    · simp [h]

theorem flap_decide (t : Tick F) : (d.decide t).2.flap =
      match d.policy.report t with
      | none => d.flap
      | some (qualifies, candidateID) => (d.flap.evaluate t.now qualifies candidateID).2 := by
  unfold decide PolicyDocument.report
  cases t.currentDead with
  | true => simp [(leaveDead_spec d t).1]
  | false =>
    rcases seekBetter_spec d t with ⟨hn, -, h⟩ | ⟨p, hn, -, -, h⟩
    · simp [h, hn]
    · simp [h, hn]

/-- A better-path migration is one the guard approves for the candidate the tick reports. -/
theorem betterPath_iff (t : Tick F) (b : String) : (d.decide t).1.BetterPath b ↔
      d.policy.report t = some (true, b) ∧ (d.flap.evaluate t.now true b).1 = true := by
  unfold decide PolicyDocument.report Decision.BetterPath finish
  cases t.currentDead with
  | true => simp [(leaveDead_spec d t).2]
  | false =>
    rcases seekBetter_spec d t with ⟨hn, hm, -⟩ | ⟨p, hn, hm, ha, -⟩
    · simp [hn, hm]
    · constructor
      · rintro ⟨hmig, -, hacc⟩
        obtain rfl := (ha hmig).2.symm.trans hacc
        exact ⟨by simp [hn], hm.symm.trans hmig⟩
      · rintro ⟨hrep, hev⟩
        obtain rfl : p.access = b := by simpa [hn] using hrep
        have hmig := hm.trans hev
        exact ⟨hmig, (ha hmig).1, (ha hmig).2⟩

end

end Decider

end Egressa.Client
