import Egressa.Maps
import Egressa.Measurement.ProbeBudget

/-!
# Probers

A `Prober` (`internal/measurement/probe.go`) sends numbered probes, and waits for each until it is answered or too
old.  The smoothed round-trip time is left out.
-/

namespace Egressa.Measurement

open Maps

/-- `ProberConfig`; the callbacks are inputs of the steps. -/
structure ProberConfig where
  /-- Whether `Send` and `Budget` are set. -/
  hasSend : Bool := true
  hasBudget : Bool := true
  probeSize : ℤ
  timeout : Duration
  fastInterval : Duration
  steadyInterval : Duration
  rampSamples : Int64
  /-- `Duration.String`. -/
  text : Duration → String

/-- The check of one of the durations. -/
def ProberConfig.positive (cfg : ProberConfig) (field : String) (d : Duration) : Option String :=
  if d ≤ 0 then some ("measurement: ProberConfig." ++ field ++ " must be positive, got " ++ cfg.text d) else none

/-- `validate`: the error of the first check that fails. -/
def ProberConfig.validate (cfg : ProberConfig) : Option String :=
  if !cfg.hasSend then some "measurement: ProberConfig.Send is required"
  else if !cfg.hasBudget then some "measurement: ProberConfig.Budget is required"
  else if cfg.probeSize ≤ 0 then
    some ("measurement: ProberConfig.ProbeSize must be positive, got " ++ toString cfg.probeSize)
  else cfg.positive "Timeout" cfg.timeout <|> cfg.positive "FastInterval" cfg.fastInterval <|>
    cfg.positive "SteadyInterval" cfg.steadyInterval

/-- `NextInterval`. -/
def ProberConfig.nextInterval (cfg : ProberConfig) (sent : ℕ) : Duration :=
  if sent < cfg.rampSamples.toUInt64.toNat then cfg.fastInterval else cfg.steadyInterval

structure Prober where
  nextProbeID : UInt32
  outstanding : Map UInt32 ℤ
  /-- `lastSent`, if `haveSent`. -/
  lastSent : Option ℤ
  sent : ℕ
  replied : ℕ
  lost : ℕ

namespace Prober

def new : Prober := ⟨0, ∅, none, 0, 0, 0⟩

/-- `MaybeProbe` up to the call of `Send`, with the probe to send.  The budget reads the clock by itself. -/
def maybeProbe (cfg : ProberConfig) (p : Prober) (b : ProbeBudget) (now paid : ℤ) :
    Option UInt32 × Prober × ProbeBudget :=
  if p.lastSent.any fun t => Time.sub now t < (cfg.nextInterval p.sent).toInt then (none, p, b)
  else match b.tryTake paid cfg.probeSize with
    | (false, b) => (none, p, b)
    | (true, b) => (some p.nextProbeID, { p with
        nextProbeID := p.nextProbeID + 1
        outstanding := p.outstanding.insert p.nextProbeID now
        lastSent := some now
        sent := p.sent + 1 }, b)

/-- A reply to a probe that is waited for counts. -/
def onReply (p : Prober) (id : UInt32) : Prober :=
  if id ∈ p.outstanding then { p with outstanding := p.outstanding.erase id, replied := p.replied + 1 } else p

/-- One turn of `expireTimeouts`. -/
def expire (timeout : Duration) (now : ℤ) (p : Prober) (e : Entry UInt32 ℤ) : Prober :=
  if timeout.toInt ≤ Time.sub now e.2 then { p with outstanding := p.outstanding.erase e.1, lost := p.lost + 1 } else p

/-- A probe that is late counts as lost. -/
def expireTimeouts (p : Prober) (timeout : Duration) (now : ℤ) : Prober :=
  p.outstanding.entries.foldl (expire timeout now) p

/-- Every probe is counted once. -/
structure Balanced (p : Prober) : Prop where
  next : p.nextProbeID = .ofNat p.sent
  drawn : ∀ id ∈ p.outstanding, id.toNat < p.sent
  sum : p.sent = p.replied + p.lost + p.outstanding.keys.length

variable {p : Prober}

theorem Balanced.erase (h : p.Balanced) {id : UInt32} (out : id ∈ p.outstanding) {q : Prober}
    (next : q.nextProbeID = p.nextProbeID) (sent : q.sent = p.sent) (rest : q.outstanding = p.outstanding.erase id)
    (more : q.replied + q.lost = p.replied + p.lost + 1) : q.Balanced where
  next := by rw [next, sent, h.next]
  drawn id' h' := by
    rw [rest, AList.mem_erase] at h'
    exact sent ▸ h.drawn id' h'.2
  sum := by
    have pos := List.length_pos_of_mem (AList.mem_keys.1 out)
    have len := List.length_erase_of_mem (AList.mem_keys.1 out)
    rw [sent, rest, AList.keys_erase, h.sum]
    omega

theorem Balanced.onReply (h : p.Balanced) (id : UInt32) : (p.onReply id).Balanced := by
  unfold Prober.onReply
  split_ifs with out
  · refine h.erase out rfl rfl rfl ?_
    dsimp only
    omega
  · exact h

theorem sweeps_expire (timeout : Duration) (now : ℤ) :
    Sweeps Prober.outstanding (fun e => ¬ timeout.toInt ≤ Time.sub now e.2) (expire timeout now) where
  kept p e h := by rw [expire, if_neg h]
  dropped p e h := by rw [expire, if_pos (not_not.1 h)]

theorem Balanced.expireTimeouts (h : p.Balanced) (timeout : Duration) (now : ℤ) :
    (p.expireTimeouts timeout now).Balanced ∧ (p.expireTimeouts timeout now).sent = p.sent := by
  refine ((sweeps_expire timeout now).foldl (P := fun q => q.Balanced ∧ q.sent = p.sent) ?_ (.refl _) ⟨h, rfl⟩).1
  intro q e here hq
  unfold expire
  split_ifs
  · refine ⟨hq.1.erase (mem_of_lookup here) rfl rfl rfl ?_, hq.2⟩
    dsimp only
    omega
  · exact hq

theorem maybeProbe_cases (h : p.Balanced) (few : p.sent < 2 ^ 32) (cfg : ProberConfig) (b : ProbeBudget)
    (now paid : ℤ) : (∃ b', p.maybeProbe cfg b now paid = (none, p, b')) ∨
      ∃ q b', p.maybeProbe cfg b now paid = (some (.ofNat p.sent), q, b') ∧ q.Balanced ∧ q.sent = p.sent + 1 := by
  unfold maybeProbe
  split_ifs
  · exact Or.inl ⟨b, rfl⟩
  rcases b.tryTake paid cfg.probeSize with ⟨_ | _, b'⟩
  · exact Or.inl ⟨b', rfl⟩
  have number : (UInt32.ofNat p.sent).toNat = p.sent := UInt32.toNat_ofNat_of_lt' few
  have fresh : UInt32.ofNat p.sent ∉ p.outstanding := fun out => (number ▸ h.drawn _ out).false
  refine Or.inr ⟨_, b', by rw [← h.next], ⟨?_, fun id out => ?_, ?_⟩, rfl⟩
  · rw [h.next, UInt32.ofNat_add]
    rfl
  · rw [h.next, AList.mem_insert] at out
    rcases out with rfl | out
    · exact number.trans_lt (Nat.lt_succ_self _)
    · exact Nat.lt_succ_of_lt (h.drawn id out)
  · have same := List.erase_of_not_mem (mt AList.mem_keys.2 fresh)
    have sum := h.sum
    rw [AList.keys_insert, h.next, same, List.length_cons]
    dsimp only
    omega

end Prober

end Egressa.Measurement
