import Egressa.Client.Nominee
import Egressa.Client.Paths

/-!
# Where a decision may lead

A migration leads to another path that is listed, reachable and not gated.  It changes the egress only if the path in
use is dead and no other path to its egress can be used, and from a dead path it leads to the cheapest one there is.
-/

namespace Egressa.Client

open Measurement Select

variable {F : Type} [Arith F]

namespace PolicyDocument

/-- A path that is out of the question. -/
def Gated (policy : PolicyDocument F) (p : Path F) : Prop := (scorePath p.candidate policy.cost).gate ≠ .none

def costsLess (policy : PolicyDocument F) (p q : Path F) : Bool := Arith.lt (policy.pathCost q) (policy.pathCost p)

/-- A path `cheapest` may return. -/
def affordable (policy : PolicyDocument F) (keep : Path F → Bool) (p : Path F) : Bool :=
  p.reachable && keep p && Arith.lt (policy.pathCost p) Arith.inf

theorem cost_of_gated {policy : PolicyDocument F} {p : Path F} (h : policy.Gated p) :
    policy.pathCost p = Arith.inf := by
  have gated : ∀ (i : ℕ) (total : F) (segs : List (SegmentStats F)),
      (scoreSegments policy.cost i total segs).gate ≠ .none →
        (scoreSegments policy.cost i total segs).cost = Arith.inf := by
    intro i total segs h
    induction segs generalizing i total with
    | nil => exact absurd rfl h
    | cons seg segs ih =>
      unfold scoreSegments at h ⊢
      split_ifs at h ⊢
      · rfl
      · exact ih _ _ h
  unfold Gated scorePath at h
  unfold pathCost scorePath
  split_ifs at h ⊢
  · rfl
  · exact gated _ _ _ h

variable [IEEE F] {policy : PolicyDocument F}

theorem not_gated_of_lt {p : Path F} {x : F} (h : Arith.lt (policy.pathCost p) x = true) : ¬ policy.Gated p := by
  intro gated
  rw [cost_of_gated gated, IEEE.inf_lt] at h
  cases h

def kept (policy : PolicyDocument F) : Option (Path F) → Option (Path F) × F
  | none => (none, Arith.inf)
  | some p => (some p, policy.pathCost p)

theorem cheaper_kept {keep : Path F → Bool} (best : Option (Path F))
    (hbest : ∀ b ∈ best, Arith.lt (policy.pathCost b) Arith.inf = true) (p : Path F) :
    policy.cheaper keep (policy.kept best) p =
      policy.kept (if policy.affordable keep p then keepBetter policy.costsLess best p else best) := by
  unfold cheaper affordable
  cases hreach : p.reachable with
  | false => simp
  | true =>
    cases hkeep : keep p with
    | false => simp
    | true =>
      cases best with
      | none =>
        cases hlt : Arith.lt (policy.pathCost p) Arith.inf with
        | false => simp [kept, hlt]
        | true => simp [kept, hlt]
      | some b =>
        have hb := hbest b rfl
        cases hlt : Arith.lt (policy.pathCost p) (policy.pathCost b) with
        | false => simp [kept, keepBetter, costsLess, hlt]
        | true => simp [kept, keepBetter, costsLess, hlt, IEEE.lt_trans _ _ _ hlt hb]

theorem cheapest_eq (paths : List (Path F)) (keep : Path F → Bool) :
    policy.cheapest paths keep = select policy.costsLess (paths.filter (policy.affordable keep)) := by
  have loop : ∀ (best : Option (Path F)), (∀ b ∈ best, Arith.lt (policy.pathCost b) Arith.inf = true) →
      paths.foldl (policy.cheaper keep) (policy.kept best) =
        policy.kept ((paths.filter (policy.affordable keep)).foldl (keepBetter policy.costsLess) best) := by
    induction paths with
    | nil => exact fun _ _ => rfl
    | cons p paths ih =>
      intro best hbest
      rw [List.foldl_cons, cheaper_kept best hbest, List.filter_cons]
      cases hp : policy.affordable keep p with
      | false => exact ih best hbest
      | true =>
        refine ih _ fun b hb => ?_
        have hcost : Arith.lt (policy.pathCost p) Arith.inf = true := by
          unfold affordable at hp
          simp only [Bool.and_eq_true] at hp
          exact hp.2
        cases best with
        | none =>
          cases hb
          exact hcost
        | some c =>
          rw [if_pos rfl, keepBetter_some] at hb
          split_ifs at hb
          · cases hb
            exact hcost
          · exact hbest b hb
  unfold cheapest
  rw [show ((none, Arith.inf) : Option (Path F) × F) = policy.kept none from rfl, loop none (fun _ hb => by cases hb)]
  change (policy.kept (select policy.costsLess _)).1 = _
  cases select policy.costsLess (paths.filter (policy.affordable keep)) with
  | none => rfl
  | some p => rfl

theorem costsLess_irrefl (p : Path F) : policy.costsLess p p = false := IEEE.lt_irrefl _

theorem costsLess_trans (p q r : Path F) (hpq : policy.costsLess p q = true)
    (hqr : policy.costsLess q r = true) : policy.costsLess p r = true := IEEE.lt_trans _ _ _ hqr hpq

omit [IEEE F] in
theorem mem_affordable {paths : List (Path F)} {keep : Path F → Bool} {p : Path F} :
    p ∈ paths.filter (policy.affordable keep) ↔ p ∈ paths ∧ p.reachable = true ∧ keep p = true ∧
      Arith.lt (policy.pathCost p) Arith.inf = true := by
  unfold affordable
  simp only [List.mem_filter, Bool.and_eq_true, and_assoc]

theorem cheapest_eq_some {paths : List (Path F)} {keep : Path F → Bool} {p : Path F}
    (h : policy.cheapest paths keep = some p) :
    p ∈ paths ∧ p.reachable = true ∧ keep p = true ∧ ¬ policy.Gated p ∧
      ∀ q ∈ paths, q.reachable = true → keep q = true →
        Arith.le (policy.pathCost p) (policy.pathCost q) = true ∨ isNaN (policy.pathCost q) = true := by
  rw [cheapest_eq] at h
  obtain ⟨hp, hleast⟩ := mem_of_select costsLess_irrefl costsLess_trans h
  obtain ⟨hmem, hreach, hkeep, hcost⟩ := mem_affordable.1 hp
  refine ⟨hmem, hreach, hkeep, not_gated_of_lt hcost, fun q hq hqreach hqkeep => ?_⟩
  cases hnan : isNaN (policy.pathCost q) with
  | true => exact Or.inr rfl
  | false =>
    left
    have hp : isNaN (policy.pathCost p) = false := by
      by_contra hnum
      rw [IEEE.nan_lt _ _ (by simpa using hnum)] at hcost
      cases hcost
    refine IEEE.le_of_not_lt _ _ hp hnan ?_
    by_contra hlt
    rw [Bool.not_eq_false] at hlt
    -- a path that costs less is one `cheapest` may choose
    have haff := mem_affordable.2 ⟨hq, hqreach, hqkeep, IEEE.lt_trans _ _ _ hlt hcost⟩
    have := hleast q haff
    rw [show policy.costsLess p q = true from hlt] at this
    cases this

theorem cheapest_eq_none {paths : List (Path F)} {keep : Path F → Bool}
    (h : policy.cheapest paths keep = none) {q : Path F} (hq : q ∈ paths) (hkeep : keep q = true) :
    q.reachable = false ∨ Arith.lt (policy.pathCost q) Arith.inf = false := by
  rw [cheapest_eq, select_eq_none] at h
  by_contra hq'
  simp only [not_or, Bool.not_eq_false] at hq'
  have := mem_affordable.2 ⟨hq, hq'.1, hkeep, hq'.2⟩
  rw [h] at this
  cases this

theorem not_gated_of_migrate {current p : Path F} {dec : MigrationDecision F}
    (compared : decideMigration current.candidate p.candidate 0 policy.cost policy.decision = .ok dec)
    (migrate : dec.migrate = true) : ¬ policy.Gated p := by
  obtain ⟨hcap, hlower, hmig⟩ := decideMigration_ok compared
  intro gated
  unfold Gated scorePath at gated
  rw [if_neg (by simp [hcap]), scoreSegments_gate] at gated
  have hgated : segmentsGated p.candidate.segments policy.cost = true := by
    by_contra hno
    simp [hno] at gated
  rw [hmig, hlower] at migrate
  unfold differingBounds at migrate
  rw [hgated, if_pos rfl, IEEE.lt_sub_inf] at migrate
  cases migrate

end PolicyDocument

/-- The paths a decision compares `p` with. -/
def Tick.group (t : Tick F) (p q : Path F) : Bool :=
  if p.egress = t.egress then t.other q else q.egress != t.egress

/-- What is known of a path a decision goes to. -/
structure PolicyDocument.SafeTarget (policy : PolicyDocument F) (t : Tick F) (p : Path F) : Prop where
  listed : p ∈ t.paths
  reachable : p.reachable = true
  ungated : ¬ policy.Gated p
  moves : ¬ (p.access = t.access ∧ p.egress = t.egress)
  stays : p.egress ≠ t.egress → t.currentDead = true ∧ ∀ q ∈ t.paths, t.other q = true →
    q.reachable = false ∨ policy.Gated q ∨ Arith.lt (policy.pathCost q) Arith.inf = false
  cheapest : t.currentDead = true → ∀ q ∈ t.paths, t.group p q = true → q.reachable = true → ¬ policy.Gated q →
      Arith.le (policy.pathCost p) (policy.pathCost q) = true ∨ isNaN (policy.pathCost q) = true

namespace Decider

omit [Arith F] in
theorem other_iff {t : Tick F} {p : Path F} : t.other p = true ↔ p.egress = t.egress ∧ p.access ≠ t.access := by
  simp [Tick.other]

variable [IEEE F] {d : Decider F} {t : Tick F}

theorem leaveDead_safe (dead : t.currentDead = true) (h : (d.leaveDead t).1.migrate = true) :
    ∃ p, d.policy.SafeTarget t p ∧ (d.leaveDead t).1.access = p.access ∧ (d.leaveDead t).1.egress = p.egress := by
  unfold leaveDead at h ⊢
  cases hother : d.policy.cheapest t.paths t.other with
  | some p =>
    obtain ⟨hmem, hreach, hkeep, hgate, hleast⟩ := PolicyDocument.cheapest_eq_some hother
    obtain ⟨hegress, haccess⟩ := other_iff.1 hkeep
    refine ⟨p, ⟨hmem, hreach, hgate, fun same => haccess same.1, fun hne => absurd hegress hne, ?_⟩, rfl, rfl⟩
    intro _ q hq hgroup hqreach _
    rw [Tick.group, if_pos hegress] at hgroup
    exact hleast q hq hqreach hgroup
  | none =>
    rw [hother] at h
    dsimp only at h ⊢
    unfold changeEgress at h ⊢
    cases hfar : d.policy.cheapest t.paths fun p => p.egress != t.egress with
    | none => simp [hfar] at h
    | some p =>
      obtain ⟨hmem, hreach, hkeep, hgate, hleast⟩ := PolicyDocument.cheapest_eq_some hfar
      have hegress : p.egress ≠ t.egress := by simpa using hkeep
      refine ⟨p, ⟨hmem, hreach, hgate, fun same => hegress same.2, fun _ => ⟨dead, ?_⟩, ?_⟩, rfl, rfl⟩
      · intro q hq hqother
        exact (PolicyDocument.cheapest_eq_none hother hq hqother).imp_right Or.inr
      · intro _ q hq hgroup hqreach _
        rw [Tick.group, if_neg hegress] at hgroup
        exact hleast q hq hqreach hgroup

theorem seekBetter_safe (alive : t.currentDead = false) (h : (d.seekBetter t).1.migrate = true) :
    ∃ p, d.policy.SafeTarget t p ∧ (d.seekBetter t).1.access = p.access ∧ (d.seekBetter t).1.egress = p.egress := by
  unfold seekBetter at h ⊢
  cases hcur : t.current? with
  | none => simp [hcur] at h
  | some current =>
    cases hbest : (d.policy.scan t current).best with
    | none => simp [hcur, hbest] at h
    | some best =>
      obtain ⟨best, bestDec⟩ := best
      cases hmig : bestDec.migrate with
      | false => simp [hcur, hbest, hmig] at h
      | true =>
        have hmem : (best, bestDec) ∈ d.policy.candidates t current := by
          rw [PolicyDocument.best_scan] at hbest
          exact (mem_of_select PolicyDocument.surer_irrefl PolicyDocument.surer_trans hbest).1
        obtain ⟨hlisted, hreach, hother, hcompared⟩ := PolicyDocument.mem_candidates.1 hmem
        obtain ⟨hegress, haccess⟩ := other_iff.1 hother
        refine ⟨best, ⟨hlisted, hreach, PolicyDocument.not_gated_of_migrate hcompared hmig,
          fun same => haccess same.1, fun hne => absurd hegress hne,
          fun dead => absurd (alive.symm.trans dead) (by decide)⟩, ?_⟩
        cases hev : shouldCutover d.flap false t.now true best.access with
        | mk go flap =>
          cases go with
          | false => simp [hcur, hbest, hmig, hev] at h
          | true => simp [hbest, hmig, hev]

end Decider

/-- Where a migration leads; and from a path that `paths` has found dead, it leads through another
access gateway. -/
theorem migrates_safely [IEEE F] {d : Decider F} {t : Tick F} (migrates : (d.decide t).1.migrate = true) :
    ∃ p, d.policy.SafeTarget t p ∧ (d.decide t).1.access = p.access ∧ (d.decide t).1.egress = p.egress ∧
      ∀ decay cfg probe now (k : Knowledge F), t = k.tick decay cfg probe now →
        t.currentDead = true → p.access ≠ k.session.access := by
  obtain ⟨p, safe, haccess, hegress⟩ : ∃ p, d.policy.SafeTarget t p ∧
      (d.decide t).1.access = p.access ∧ (d.decide t).1.egress = p.egress := by
    unfold Decider.decide at migrates ⊢
    cases hdead : t.currentDead with
    | true =>
      rw [hdead] at migrates
      exact Decider.leaveDead_safe hdead migrates
    | false =>
      rw [hdead] at migrates
      exact Decider.seekBetter_safe hdead migrates
  refine ⟨p, safe, haccess, hegress, fun decay cfg probe now k ht dead hsame => ?_⟩
  subst ht
  have := Knowledge.unreachable_of_dead dead safe.listed hsame
  rw [safe.reachable] at this
  cases this

namespace Sample

def calm : SegmentStats Float := ⟨50000, 50000, 0, 0, 40, 1⟩

def jittery : SegmentStats Float := ⟨20000, 30000, 0, 0, 40, 1⟩

def stopped : Tick Float where
  now := 0
  access := "sg"
  egress := "fr"
  paths := [⟨"sg", "fr", [calm], false⟩, ⟨"hk", "fr", [jittery], true⟩, ⟨"hk", "jp", [calm], true⟩]
  currentDead := true

def watching : Knowledge Float where
  session := { access := "sg", egress := "fr" }
  since := 0
  gateways := [{ id := "sg", roles := roleAccess }, { id := "hk", roles := roleAccess },
    { id := "fr", roles := roleEgress, alive := true }]
  links := linkMap [⟨"sg", "fr", calm, 0⟩, ⟨"hk", "fr", jittery, 0⟩]

def replies (gateway : String) : Probed Float := ⟨calm, if gateway = "hk" then 9 * second else 2 * second, true⟩

def asked : Tick Float := watching.tick (fun _ => 1) ⟨backendWireGuard, .ofInt (3 * second)⟩ replies (10 * second)

def strict : PolicyDocument Float :=
  { defaultPolicyDocument with cost := { defaultCostWeights with tailWeight := 1e308 } }

end Sample

open Sample in
theorem migrates_safely_stopped :
    ∃ p, defaultPolicyDocument.SafeTarget asked p ∧ p.egress = "fr" ∧ p.access ≠ "sg" := by
  have migrates : ((newDecider defaultPolicyDocument 0).decide asked).1.migrate = true := by
    decide +kernel
  obtain ⟨p, safe, -, hegress, hleaves⟩ := migrates_safely migrates
  have hfr : ((newDecider defaultPolicyDocument 0).decide asked).1.egress = "fr" := by decide +kernel
  exact ⟨p, safe, hegress.symm.trans hfr, hleaves _ _ _ _ watching rfl (by decide +kernel)⟩

open Sample in
/-- The egress is changed although another path to it is reachable and not gated. -/
theorem egress_changed_past_usable_path : Arith.le strict.cost.lossGate 1 = true ∧
    ((newDecider strict 0).decide stopped).1.migrate = true ∧
    ((newDecider strict 0).decide stopped).1.egress ≠ stopped.egress ∧
    ∃ q ∈ stopped.paths, stopped.other q = true ∧ q.reachable = true ∧ ¬ strict.Gated q := by
  refine ⟨by decide +kernel, by decide +kernel, by decide +kernel,
    ⟨"hk", "fr", [jittery], true⟩, by simp [stopped], by decide, rfl, ?_⟩
  unfold PolicyDocument.Gated
  decide +kernel

end Egressa.Client
