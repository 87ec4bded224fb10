import Egressa.Client.Decide
import Egressa.Measurement.Extended
import Egressa.Select

/-!
# The candidate of a tick

While the current path answers, `decide` looks for the alternative with the highest lower bound on the improvement.
The difference of two infinite bounds is not a number, and nothing is higher than that.
-/

namespace Egressa.Client

open Measurement Select

section Candidates

variable {F : Type} [Arith F]

namespace PolicyDocument

/-- The comparison the loop makes for a path. -/
def compare? (policy : PolicyDocument F) (t : Tick F) (current p : Path F) : Option (MigrationDecision F) :=
  if !p.reachable || !t.other p then none
  else match decideMigration current.candidate p.candidate 0 policy.cost policy.decision with
    | .error _ => none
    | .ok dec => some dec

/-- The paths that are compared, with the result. -/
def candidates (policy : PolicyDocument F) (t : Tick F) (current : Path F) : List (Path F × MigrationDecision F) :=
  t.paths.filterMap fun p => (policy.compare? t current p).map (Prod.mk p)

/-- The lower bound of the gain is larger. -/
def surer (a b : Path F × MigrationDecision F) : Bool := Arith.lt a.2.delta.lower b.2.delta.lower

theorem best_consider (policy : PolicyDocument F) (t : Tick F) (current : Path F) (s : Scan F)
    (pe : Path F × PathEval F) :
    (policy.consider t current s pe).best =
      (((policy.compare? t current pe.1).map (Prod.mk pe.1)).toList).foldl (keepBetter surer) s.best := by
  unfold consider compare?
  cases hskip : !pe.1.reachable || !t.other pe.1 with
  | true => rfl
  | false =>
    cases decideMigration current.candidate pe.1.candidate 0 policy.cost policy.decision with
    | error e => rfl
    | ok dec =>
      cases hbest : s.best with
      | none => simp
      | some best =>
        by_cases h : Arith.lt best.2.delta.lower dec.delta.lower = true
        · simp [keepBetter, surer, h]
        · simp [keepBetter, surer, h]

theorem best_foldl (policy : PolicyDocument F) (t : Tick F) (current : Path F) (s : Scan F)
    (pes : List (Path F × PathEval F)) :
    (pes.foldl (policy.consider t current) s).best =
      ((pes.map Prod.fst).filterMap fun p => (policy.compare? t current p).map (Prod.mk p)).foldl
        (keepBetter surer) s.best := by
  induction pes generalizing s with
  | nil => rfl
  | cons pe pes ih =>
    rw [List.foldl_cons, ih, best_consider, List.map_cons, List.filterMap_cons]
    cases (policy.compare? t current pe.1).map (Prod.mk pe.1) with
    | none => rfl
    | some c => rfl

theorem best_scan (policy : PolicyDocument F) (t : Tick F) (current : Path F) :
    (policy.scan t current).best = select surer (policy.candidates t current) := by
  unfold scan
  rw [best_foldl, List.map_fst_zip]
  · rfl
  · simp [evals]

variable {current : Path F}

theorem nominee_eq (policy : PolicyDocument F) (t : Tick F) (listed : t.current? = some current) :
    policy.nominee t = (select surer (policy.candidates t current)).bind fun best =>
      if best.2.migrate then some best.1 else none := by
  unfold nominee
  rw [listed, ← best_scan]
  rfl

theorem mem_candidates {policy : PolicyDocument F} {t : Tick F} {c : Path F × MigrationDecision F} :
    c ∈ policy.candidates t current ↔ c.1 ∈ t.paths ∧ c.1.reachable = true ∧ t.other c.1 = true ∧
      decideMigration current.candidate c.1.candidate 0 policy.cost policy.decision = .ok c.2 := by
  obtain ⟨p, dec⟩ := c
  unfold candidates compare?
  rw [List.mem_filterMap]
  constructor
  · rintro ⟨q, hq, h⟩
    cases hskip : !q.reachable || !t.other q with
    | true => simp [hskip] at h
    | false =>
      cases hd : decideMigration current.candidate q.candidate 0 policy.cost policy.decision with
      | error e => simp [hskip, hd] at h
      | ok d =>
        simp only [hskip, hd, Bool.false_eq_true, if_false, Option.map_some, Option.some.injEq, Prod.mk.injEq] at h
        obtain ⟨rfl, rfl⟩ := h
        simp only [Bool.or_eq_false_iff, Bool.not_eq_false'] at hskip
        exact ⟨hq, hskip.1, hskip.2, hd⟩
  · rintro ⟨hp, hreach, hother, hd⟩
    dsimp only at hp hreach hother hd
    exact ⟨p, hp, by simp [hreach, hother, hd]⟩

theorem migrate_of_mem {policy : PolicyDocument F} {t : Tick F}
    {c : Path F × MigrationDecision F} (h : c ∈ policy.candidates t current) :
    c.2.migrate = Arith.lt (policy.decision.migrationCost + policy.decision.safetyMargin) c.2.delta.lower :=
  (decideMigration_ok (mem_candidates.1 h).2.2.2).2.2

/-- The tick reports an alternative that qualifies, and no other that does has a higher bound. -/
def Reports (policy : PolicyDocument F) (t : Tick F) (current : Path F) : Prop :=
  ∃ best ∈ policy.candidates t current, best.2.migrate = true ∧
    (∀ c ∈ policy.candidates t current, c.2.migrate = true → Arith.le c.2.delta.lower best.2.delta.lower = true) ∧
    policy.report t = some (true, best.1.access) ∧
    ∀ flap, ((⟨policy, flap⟩ : Decider F).decide t).2.flap = (flap.evaluate t.now true best.1.access).2

/-- Some candidate is worth a migration. -/
def Qualifies (policy : PolicyDocument F) (t : Tick F) (current : Path F) : Prop :=
  ∃ c ∈ policy.candidates t current, c.2.migrate = true

variable [IEEE F] {policy : PolicyDocument F} {t : Tick F} {current : Path F}

theorem surer_irrefl (a : Path F × MigrationDecision F) : surer a a = false := IEEE.lt_irrefl _

theorem surer_trans (a b c : Path F × MigrationDecision F) (hab : surer a b = true)
    (hbc : surer b c = true) : surer a c = true := IEEE.lt_trans _ _ _ hab hbc

theorem isNaN_select {first best : Path F × MigrationDecision F}
    {rest : List (Path F × MigrationDecision F)} (hfirst : isNaN first.2.delta.lower = false)
    (h : select surer (first :: rest) = some best) : isNaN best.2.delta.lower = false := by
  obtain ⟨hbest, -⟩ := foldl_spec surer_irrefl surer_trans h
  rcases hbest with rfl | ⟨hlt, -⟩
  · exact hfirst
  · by_contra hnan
    have := IEEE.lt_nan first.2.delta.lower best.2.delta.lower (by simpa using hnan)
    rw [show Arith.lt first.2.delta.lower best.2.delta.lower = true from hlt] at this
    cases this

theorem reports_of_number (alive : t.currentDead = false) (listed : t.current? = some current)
    (qualifies : policy.Qualifies t current)
    (first : ∀ c, (policy.candidates t current).head? = some c → isNaN c.2.delta.lower = false) :
    policy.Reports t current := by
  obtain ⟨c, hc, hmig⟩ := qualifies
  obtain ⟨a, rest, hcands⟩ := List.exists_cons_of_ne_nil (List.ne_nil_of_mem hc)
  obtain ⟨best, hselect⟩ := foldl_some surer a rest
  have hselect : select surer (policy.candidates t current) = some best := by
    rw [hcands]
    exact hselect
  have hnum : isNaN best.2.delta.lower = false := isNaN_select (first a (by rw [hcands]; rfl)) (hcands ▸ hselect)
  obtain ⟨hmem, hbest⟩ := mem_of_select surer_irrefl surer_trans hselect
  have highest : ∀ c ∈ policy.candidates t current, c.2.migrate = true →
      Arith.le c.2.delta.lower best.2.delta.lower = true := by
    intro c hc hmig
    rw [migrate_of_mem hc] at hmig
    refine IEEE.le_of_not_lt _ _ ?_ hnum (hbest c hc)
    by_contra hnan
    rw [IEEE.lt_nan _ _ (by simpa using hnan)] at hmig
    cases hmig
  have hbestMig : best.2.migrate = true := by
    rw [migrate_of_mem hmem]
    rw [migrate_of_mem hc] at hmig
    exact IEEE.lt_of_lt_of_le _ _ _ hmig (highest c hc (by rw [migrate_of_mem hc, hmig]))
  have hreport : policy.report t = some (true, best.1.access) := by
    unfold report
    rw [nominee_eq policy t listed, hselect]
    simp [alive, hbestMig]
  refine ⟨best, hmem, hbestMig, highest, hreport, fun flap => ?_⟩
  rw [Decider.flap_decide]
  simp only [hreport]

theorem not_reports_of_nan (alive : t.currentDead = false) (listed : t.current? = some current)
    {first : Path F × MigrationDecision F}
    (head : (policy.candidates t current).head? = some first)
    (nan : isNaN first.2.delta.lower = true) : ¬ policy.Reports t current := by
  obtain ⟨rest, hcands⟩ : ∃ rest, policy.candidates t current = first :: rest := List.head?_eq_some_iff.1 head
  have hstuck : ∀ x, surer first x = false := fun x => IEEE.nan_lt _ _ nan
  have hselect : select surer (policy.candidates t current) = some first := by
    rw [hcands]
    exact foldl_stuck hstuck rest
  have hstay : first.2.migrate = false := by
    have hmem : first ∈ policy.candidates t current := by
      rw [hcands]
      exact List.mem_cons_self
    rw [migrate_of_mem hmem]
    exact IEEE.lt_nan _ _ nan
  rintro ⟨best, -, -, -, hreport, -⟩
  unfold report at hreport
  rw [nominee_eq policy t listed, hselect] at hreport
  simp [alive, hstay] at hreport

end PolicyDocument

def Tick.first? (t : Tick F) : Option (Path F) := t.paths.find? fun p => p.reachable && t.other p

def PolicyDocument.bounds (policy : PolicyDocument F) (p : Path F) : DeltaEstimate F :=
  differingBounds p.segments policy.cost policy.decision.z

omit [Arith F] in
theorem Tick.egress_of_current {t : Tick F} {current : Path F} (h : t.current? = some current) :
    current.egress = t.egress := by
  have := List.find?_some h
  simp only [Bool.and_eq_true, beq_iff_eq] at this
  exact this.2

theorem PolicyDocument.head_candidates {policy : PolicyDocument F} {t : Tick F}
    {current first : Path F} (listed : t.current? = some current)
    (compared : policy.candidates t current ≠ []) (hfirst : t.first? = some first) :
    ∃ dec, (policy.candidates t current).head? = some (first, dec) ∧
      dec.delta.lower = (policy.bounds current).lower - (policy.bounds first).upper := by
  obtain ⟨c, hc⟩ := List.exists_mem_of_ne_nil _ compared
  have hcap : Arith.le policy.cost.maxCapacityFraction (0 : F) = false :=
    (decideMigration_ok (mem_candidates.1 hc).2.2.2).1
  obtain ⟨hp, before, after, hpaths, hbefore⟩ := List.find?_eq_some_iff_append.1 hfirst
  simp only [Bool.and_eq_true] at hp
  have hegress : current.candidate.egressID = first.candidate.egressID := by
    have := hp.2
    unfold Tick.other at this
    simp only [Bool.and_eq_true, beq_iff_eq] at this
    exact (t.egress_of_current listed).trans this.1.symm
  obtain ⟨dec, hdec⟩ := decideMigration_exists policy.decision hegress hcap hcap
  refine ⟨dec, ?_, (decideMigration_ok hdec).2.1⟩
  unfold candidates
  rw [List.head?_filterMap, hpaths, List.findSome?_append]
  have hnone : before.findSome? (fun p => (policy.compare? t current p).map (Prod.mk p)) = none := by
    rw [List.findSome?_eq_none_iff]
    intro q hq
    have := hbefore q hq
    unfold compare?
    cases hr : q.reachable <;> simp_all
  rw [hnone]
  simp [compare?, hp.1, hp.2, hdec]

end Candidates

section Extended

open Extended

/-- An alternative qualifies, but the first one hides it: its upper bound cannot be subtracted from the
lower bound of the current path. -/
def PolicyDocument.Overlooks (policy : PolicyDocument Extended) (t : Tick Extended) : Prop :=
  t.currentDead = false ∧ ∃ current first, t.current? = some current ∧ t.first? = some first ∧
    policy.Qualifies t current ∧ Clash (policy.bounds current).lower (policy.bounds first).upper

/-- Every tick with an alternative that qualifies reports one, except those in which the first
alternative hides it. -/
theorem reports_iff_not_overlooks (policy : PolicyDocument Extended) (t : Tick Extended) :
    (∀ current, t.currentDead = false → t.current? = some current → policy.Qualifies t current →
      policy.Reports t current) ↔ ¬ policy.Overlooks t := by
  constructor
  · rintro reports ⟨alive, current, first, listed, hfirst, qualifies, clash⟩
    obtain ⟨c, hc, -⟩ := id qualifies
    obtain ⟨dec, head, hlower⟩ := PolicyDocument.head_candidates listed (List.ne_nil_of_mem hc) hfirst
    have nan : isNaN dec.delta.lower = true := by
      rw [hlower]
      exact isNaN_sub_iff.2 clash
    exact PolicyDocument.not_reports_of_nan alive listed head nan (reports current alive listed qualifies)
  · intro clear current alive listed qualifies
    obtain ⟨c, hc, -⟩ := id qualifies
    refine PolicyDocument.reports_of_number alive listed qualifies fun a head => ?_
    obtain ⟨hmem, hreach, hother, -⟩ := PolicyDocument.mem_candidates.1 hc
    obtain ⟨first, hfirst⟩ : ∃ first, t.first? = some first := by
      rw [← Option.isSome_iff_exists]
      unfold Tick.first?
      rw [List.find?_isSome]
      exact ⟨c.1, hmem, by simp [hreach, hother]⟩
    obtain ⟨dec, head', hlower⟩ := PolicyDocument.head_candidates listed (List.ne_nil_of_mem hc) hfirst
    cases head.symm.trans head'
    by_contra hnan
    rw [Bool.not_eq_false, hlower] at hnan
    exact clear ⟨alive, current, first, listed, hfirst, qualifies, isNaN_sub_iff.1 hnan⟩

namespace Sample

noncomputable def exact : PolicyDocument Extended := ⟨⟨0, 0, 1, 1⟩, ⟨0, 0, 0⟩, defaultFlapGuardConfig⟩

noncomputable def lossy : SegmentStats Extended := ⟨1, 1, 1, 0, 1, 1⟩

noncomputable def lossless : SegmentStats Extended := ⟨1, 1, 0, 0, 1, 1⟩

noncomputable def shaded : Tick Extended where
  now := 0
  access := "sg"
  egress := "fr"
  paths := [⟨"sg", "fr", [lossy], true⟩, ⟨"hk", "fr", [lossy], true⟩, ⟨"jp", "fr", [lossless], true⟩]
  currentDead := false

theorem bounds_lossy (access egress : String) :
    exact.bounds ⟨access, egress, [lossy], true⟩ = ⟨Arith.inf, Arith.inf, Arith.inf⟩ := by
  simp [PolicyDocument.bounds, differingBounds, segmentsGated, exact, lossy, one_eq]

theorem segmentCostBound_lossless :
    segmentCostBound lossless exact.cost exact.decision.z = ⟨real 1, real 1, real 1⟩ := by
  have hn : (Arith.ofUInt64 1 : Extended) = real 1 := by
    simp [Arith.ofUInt64, real]
  have hle : ¬ (1 : ℝ) ≤ 0 := by norm_num
  have hlt : ¬ (1 : ℝ) < 0 := by norm_num
  simp [segmentCostBound, segmentCost, tailPremium, lossPenalty, clamp01, exact, lossless, one_eq,
    zero_eq, hn, hle, hlt, real_div, sqrt_real, log_real]

theorem bounds_lossless (access egress : String) :
    exact.bounds ⟨access, egress, [lossless], true⟩ = ⟨real 1, real 1, real 1⟩ := by
  have hgate : segmentsGated [lossless] exact.cost = false := by
    have hle : ¬ (1 : ℝ) ≤ 0 := by norm_num
    simp [segmentsGated, exact, lossless, one_eq, zero_eq, hle]
  simp [PolicyDocument.bounds, differingBounds, hgate, aggregateBounds, aggregateSegment,
    segmentCostBound_lossless, zero_eq, sqrt_real]

end Sample

open Sample in
/-- The tick reports that nothing qualifies, while the second alternative does. -/
theorem qualifying_path_overlooked : shaded.currentDead = false ∧ ∃ current, shaded.current? = some current ∧
      exact.Qualifies shaded current ∧ ¬ exact.Reports shaded current := by
  have listed : shaded.current? = some ⟨"sg", "fr", [lossy], true⟩ := rfl
  have hcap : Arith.le exact.cost.maxCapacityFraction (0 : Extended) = false := by
    have hle : ¬ (1 : ℝ) ≤ 0 := by norm_num
    simp [exact, one_eq, zero_eq, hle]
  obtain ⟨dec, hdec⟩ := decideMigration_exists exact.decision (a := Path.candidate ⟨"sg", "fr", [lossy], true⟩)
    (b := Path.candidate ⟨"jp", "fr", [lossless], true⟩) rfl hcap hcap
  obtain ⟨-, hlower, hmig⟩ := decideMigration_ok hdec
  have hmem : (⟨"jp", "fr", [lossless], true⟩, dec) ∈ exact.candidates shaded ⟨"sg", "fr", [lossy], true⟩ :=
    PolicyDocument.mem_candidates.2 ⟨by simp [shaded], rfl, rfl, hdec⟩
  have qualifies : dec.migrate = true := by
    change dec.delta.lower = (exact.bounds ⟨"sg", "fr", [lossy], true⟩).lower -
      (exact.bounds ⟨"jp", "fr", [lossless], true⟩).upper at hlower
    rw [hmig, hlower, bounds_lossy, bounds_lossless]
    simp [exact, zero_eq]
  have hfirst : shaded.first? = some ⟨"hk", "fr", [lossy], true⟩ := rfl
  obtain ⟨first, head, hfirst⟩ := PolicyDocument.head_candidates listed (List.ne_nil_of_mem hmem) hfirst
  have nan : isNaN first.delta.lower = true := by
    rw [hfirst, bounds_lossy, bounds_lossy, isNaN_sub_iff]
    exact Or.inr (Or.inr (Or.inl ⟨rfl, rfl⟩))
  exact ⟨rfl, _, listed, ⟨_, hmem, qualifies⟩, PolicyDocument.not_reports_of_nan rfl listed head nan⟩

end Extended

end Egressa.Client
