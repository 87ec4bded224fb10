import Egressa.Gateway.Apply

/-!
# Client traffic does not leak out of the access gateway

A policy rule sends the traffic of a virtual IP to the table of its egress.  The blackhole there prevents that it
leaves from the access gateway's own uplink.  `indexLocked` installs it when it gives a gateway its index, and nothing
takes it away; but it records the index first.
-/

namespace Egressa

open Maps Run

/-- A table that a rule leads to has a blackhole. -/
def Host.NoLeak (h : Host) : Prop :=
  ∀ vip n, h.rules vip (egressTableBase + n) = true → h.blackhole (egressTableBase + n) = true

/-- The two commands that prepare the table of a new index do not fail; `ipIgnore` makes up for a
flush that finds nothing. -/
structure HostFate.Prepares (f : HostFate) : Prop where
  flush : ∀ clock table err, f.fails clock (.flushTable table) = some err → benign err = true
  blackhole : ∀ clock table, f.fails clock (.blackhole table) = none

def HostCmd.Quiet : HostCmd → Prop
  | .flushTable _ => False
  | .blackhole _ => False
  | .addRule _ _ => False
  | _ => True

/-- The table of every index, and every table of an egress that a rule leads to, has its
blackhole. -/
structure Sealed (ix : Indices) (h : Host) : Prop where
  index : ∀ id n, ix.index.lookup id = some n → n < ix.next ∧ h.blackhole (egressTableBase + n) = true
  rule : ∀ vip n, h.rules vip (egressTableBase + n) = true → n < ix.next ∧ h.blackhole (egressTableBase + n) = true

namespace Sealed

variable {ix : Indices} {h : Host}

section

variable (hs : Sealed ix h)
include hs

theorem noLeak : h.NoLeak := fun vip n hr => (hs.rule vip n hr).2

theorem of_used {h' : Host} (rules : ∀ vip t, h'.rules vip t = true → h.rules vip t = true)
    (used : ∀ n < ix.next, h'.blackhole (egressTableBase + n) = h.blackhole (egressTableBase + n)) :
    Sealed ix h' := by
  constructor
  · intro id n hn
    obtain ⟨hlt, hb⟩ := hs.index id n hn
    exact ⟨hlt, (used n hlt).trans hb⟩
  · intro vip n hr
    obtain ⟨hlt, hb⟩ := hs.rule vip n (rules vip _ hr)
    exact ⟨hlt, (used n hlt).trans hb⟩

theorem quiet {c : HostCmd} (hc : c.Quiet) : Sealed ix (h.exec c) := by
  cases c with
  | flushTable _ => exact absurd hc id
  | blackhole _ => exact absurd hc id
  | addRule _ _ => exact absurd hc id
  | delRule vip table =>
    refine hs.of_used (fun vip' t hr => ?_) fun _ _ => rfl
    rw [Host.exec, Host.rules_setRule] at hr
    split_ifs at hr
    exact hr
  | _ => exact hs.of_used (fun _ _ hr => hr) fun _ _ => rfl

theorem onTable {c : HostCmd} (hc : c.OnTable (egressTableBase + ix.next)) : Sealed ix (h.exec c) := by
  have other : ∀ n, n < ix.next → egressTableBase + n ≠ egressTableBase + ix.next := by omega
  cases c with
  | flushTable t =>
    obtain rfl : t = _ := hc
    exact hs.of_used (fun _ _ hr => hr) fun n hn => Function.update_of_ne (other n hn) _ _
  | blackhole t =>
    obtain rfl : t = _ := hc
    exact hs.of_used (fun _ _ hr => hr) fun n hn => Function.update_of_ne (other n hn) _ _
  | _ => exact absurd hc id

theorem insert (id : String) (hb : h.blackhole (egressTableBase + ix.next) = true) :
    Sealed ⟨ix.index.insert id ix.next, ix.next + 1⟩ h where
  index id' n hn := by
    rw [lookup_insert_eq] at hn
    split_ifs at hn
    · cases hn
      exact ⟨Nat.lt_succ_self _, hb⟩
    · obtain ⟨hlt, hb⟩ := hs.index id' n hn
      exact ⟨Nat.lt_succ_of_lt hlt, hb⟩
  rule vip n hr := by
    obtain ⟨hlt, hb⟩ := hs.rule vip n hr
    exact ⟨Nat.lt_succ_of_lt hlt, hb⟩

theorem addRule {id : String} {n : ℕ} (hn : ix.index.lookup id = some n)
    (vip : Addr) : Sealed ix (h.exec (.addRule vip (egressTableBase + n))) where
  index := hs.index
  rule vip' m hr := by
    rw [Host.exec, Host.rules_setRule] at hr
    split_ifs at hr with heq
    · obtain rfl : m = n := Nat.add_left_cancel heq.2
      exact hs.index id m hn
    · exact hs.rule vip' m hr

end

end Sealed

/-! ## Runs -/

/-- No leak now, and none on the way. -/
def Safe (ix : Indices) (r : Run) : Prop := Sealed ix r.host ∧ ∀ h ∈ r.past, h.NoLeak

namespace Safe

variable {cfg : GatewayConfig} {f : HostFate} {ix : Indices} {r r' : Run}

theorem quiet (hs : Safe ix r) (h : Issues HostCmd.Quiet r r') : Safe ix r' :=
  h.invariant (fun _ hc _ hs => hs.quiet hc) (fun _ hs => hs.noLeak) hs.1 hs.2

theorem indexLocked (hs : Safe ix r) (hf : f.Prepares) (id : String) :
    ∃ n ix' r', Egressa.indexLocked f id ix r = (n, none, ix', r') ∧ ix'.index.lookup id = some n ∧ Safe ix' r' := by
  rcases indexLocked_cases f id ix r with ⟨n, hn, heq⟩ | ⟨hnone, err, r', heq, issues, prepared⟩
  · exact ⟨n, ix, r, heq, hn, hs⟩
  · have ok : err = none := by
      have hflush : (r.ipIgnore f (.flushTable (egressTableBase + ix.next))).1 = none := by
        rcases issueUnless_cases benign f (.flushTable (egressTableBase + ix.next)) r with
          ⟨err, hfail, h⟩ | ⟨-, h⟩
        · rw [ipIgnore, h, if_pos (hf.flush _ _ _ hfail)]
        · rw [ipIgnore, h]
      have herr : (Egressa.indexLocked f id ix r).2.1 = none := by
        simp only [Egressa.indexLocked, hnone]
        cases hx : r.ipIgnore f (.flushTable (egressTableBase + ix.next)) with
        | mk o r₁ =>
          rw [hx] at hflush
          obtain rfl : o = none := hflush
          simp only [andThen, issue, issueUnless_of_not_fails (hf.blackhole _ _)]
      rwa [heq] at herr
    subst ok
    obtain ⟨now, past⟩ := issues.invariant (I := Sealed ix) (fun _ hc _ hs => hs.onTable hc)
      (fun _ hs => hs.noLeak) hs.1 hs.2
    exact ⟨_, _, r', heq, AList.lookup_insert _, now.insert id (prepared rfl), past⟩

theorem applyBackbone (hf : f.Prepares) {want : Map String Backbone} {s : Wiring} {id : String}
    (hs : Safe s.indices s.run) :
    Safe (Egressa.applyBackbone cfg f want s id).indices (Egressa.applyBackbone cfg f want s id).run := by
  have opened : Safe (openBackbone f id s).2.indices (openBackbone f id s).2.run := by
    unfold openBackbone
    cases s.backbones.lookup id with
    | some b => exact hs
    | none =>
      obtain ⟨n, ix, r, heq, -, hs⟩ := hs.indexLocked hf id
      have device := hs.quiet ((openDevice_issues f n r).mono fun c hc => by cases c <;> simp_all
        [HostCmd.OnDevice, HostCmd.Quiet])
      simp only [heq]
      split
      · next h => rwa [h] at device
      · next h => rwa [h] at device
  unfold Egressa.applyBackbone applyBackboneLocked
  generalize (want.lookup id).getD default = b
  cases hopen : openBackbone f id s with
  | mk res s' =>
    rw [hopen] at opened
    cases res with
    | error err => exact opened.quiet (Issues.refl.fail _)
    | ok w =>
      have set := opened.quiet ((setBackbone_issues cfg f id b w (s'.backbones, s'.run)).mono
        fun c hc => by cases c <;> simp_all [HostCmd.OnWire, HostCmd.Quiet])
      dsimp only
      split
      · next h =>
        rw [Prod.mk.injEq] at h
        obtain ⟨-, rfl⟩ := h
        exact set.quiet (Issues.refl.fail _)
      · next h =>
        rw [Prod.mk.injEq] at h
        obtain ⟨-, rfl⟩ := h
        exact set

theorem forwardTo (hf : f.Prepares) {s : Forwarding} {e : Entry Addr String} (hs : Safe s.indices s.run) :
    Safe (Egressa.forwardTo f s e).indices (Egressa.forwardTo f s e).run := by
  unfold Egressa.forwardTo
  split_ifs
  · exact hs
  obtain ⟨n, ix, r, heq, hn, hs⟩ := hs.indexLocked hf e.2
  have added : Safe ix (r.ipIgnore f (.addRule e.1 (egressTableBase + n))).2 := by
    rcases issueUnless_cases benign f (.addRule e.1 (egressTableBase + n)) r with
      ⟨err, -, h⟩ | ⟨-, h⟩
    · rw [ipIgnore, h]
      exact hs
    · rw [ipIgnore, h]
      refine ⟨hs.1.addRule hn e.1, fun h hh => ?_⟩
      rcases List.mem_cons.1 hh with rfl | hh
      · exact hs.1.noLeak
      · exact hs.2 h hh
  simp only [heq]
  split
  · next h =>
    rw [h] at added
    exact added.quiet (Issues.refl.fail _)
  · next h => rwa [h] at added

theorem applyBackbones (hf : f.Prepares) (p : Plan) {a : HostAgent} (hs : Safe a.indices r) :
    Safe (Egressa.applyBackbones cfg f p a r).1.indices (Egressa.applyBackbones cfg f p a r).2 := by
  have closed := hs.quiet ((closeBackbones_issues f p.backbones (a.backbones, r)).mono
    fun c hc => by cases c <;> simp_all [HostCmd.Closes, HostCmd.Quiet])
  exact List.foldlRecOn (motive := fun s : Wiring => Safe s.indices s.run) _ _ closed
    fun s hs id _ => hs.applyBackbone hf

theorem applyForward (hf : f.Prepares) (p : Plan) {a : HostAgent} (hs : Safe a.indices r) :
    Safe (Egressa.applyForward f p a r).1.indices (Egressa.applyForward f p a r).2 := by
  have dropped := hs.quiet ((dropRules_issues f a.indices p.forward (a.forward, r)).mono
    fun c hc => by cases c <;> simp_all [HostCmd.DropsRule, HostCmd.Quiet])
  exact List.foldlRecOn (motive := fun s : Forwarding => Safe s.indices s.run) _ _ dropped
    fun s hs e _ => hs.forwardTo hf

theorem onMain (hs : Safe ix r) (h : Issues HostCmd.OnMain r r') : Safe ix r' :=
  hs.quiet (h.mono fun c hc => by cases c <;> simp_all [HostCmd.OnMain, HostCmd.Quiet])

theorem onIPsec (hs : Safe ix r) (h : Issues HostCmd.OnIPsec r r') : Safe ix r' :=
  hs.quiet (h.mono fun c hc => by cases c <;> simp_all [HostCmd.OnIPsec, HostCmd.Quiet])

theorem apply (hf : f.Prepares) (p : Plan) {a : HostAgent} (hs : Safe a.indices r) :
    Safe (HostAgent.apply cfg f p a r).1.indices (HostAgent.apply cfg f p a r).2 := by
  have wired : Safe (Egressa.applyBackbones cfg f p a r).1.indices
      (Egressa.applyBackbones cfg f p a r).2 := hs.applyBackbones hf p
  unfold HostAgent.apply
  generalize Egressa.applyBackbones cfg f p a r = s at wired ⊢
  have peers := wired.quiet ((applyPeers_issues cfg f p s.1 s.2).mono
    fun c hc => by cases c <;> simp_all [HostCmd.OnClients, HostCmd.Quiet])
  have forwarded := applyForward (a := applyEpochs p (applyPeers cfg f p s.1 s.2).1) hf p peers
  dsimp only
  generalize Egressa.applyForward f p (applyEpochs p (applyPeers cfg f p s.1 s.2).1)
    (applyPeers cfg f p s.1 s.2).2 = s at forwarded ⊢
  by_cases hon : cfg.ipsecOn = true
  · simp only [if_pos hon]
    have removed := (forwarded.onIPsec (dropConns_issues f p.ipsec (s.1.ipsecConns, s.2))).onMain
      (dropHeres_issues f p.ipsecHere (s.1.ipsecHere, _))
    have returned := removed.onMain
      (applyReturn_issues f p (removeIPsecLocked f p s.1 s.2).1 (removeIPsecLocked f p s.1 s.2).2)
    exact (returned.onIPsec (addConns_issues cfg f p.ipsec (_, _))).onMain (addHeres_issues f p.ipsecHere (_, _))
  · simp only [if_neg hon]
    exact forwarded.onMain (applyReturn_issues f p s.1 s.2)

end Safe

/-- After any `apply` calls in which any command may fail, but for the two that prepare the table of a new index: in
every host the run passes through, a rule that leads to the table of an egress finds the blackhole there. -/
theorem no_leak (cfg : GatewayConfig) (h : Host) (clear : ∀ vip t, h.rules vip t = false)
    (calls : List (HostFate × Plan)) (prepares : ∀ call ∈ calls, call.1.Prepares) :
    let s := HostAgent.applyAll cfg calls {} { host := h }
    ∀ h' ∈ s.2.host :: s.2.past, h'.NoLeak := by
  have start : Safe ({} : HostAgent).indices ({ host := h } : Run) := by
    refine ⟨⟨fun id n hn => ?_, fun vip n hr => ?_⟩, by simp⟩
    · simp at hn
    · rw [clear] at hr
      cases hr
  have safe : Safe (HostAgent.applyAll cfg calls {} { host := h }).1.indices
      (HostAgent.applyAll cfg calls {} { host := h }).2 :=
    List.foldlRecOn (motive := fun s : HostAgent × Run => Safe s.1.indices s.2) _ _ start
      fun s hs call hcall => Safe.apply (prepares call hcall) call.2 (r := { s.2 with errs := [] }) hs
  intro s h' hh
  rcases List.mem_cons.1 hh with rfl | hh
  · exact safe.1.noLeak
  · exact safe.2 h' hh

theorem no_leak_forwarding :
    let calls := [(HostFate.steady, Trial.planAt [Trial.detour]), (.steady, Trial.planAt [])]
    let s := HostAgent.applyAll Trial.gatewayConfig calls {} { host := .bare }
    (∃ h ∈ s.2.past, h.rules Trial.detour.virtualIP egressTableBase = true) ∧
      ∀ h' ∈ s.2.host :: s.2.past, h'.NoLeak := by
  refine ⟨by decide, no_leak Trial.gatewayConfig .bare (fun _ _ => rfl) _ fun call hcall => ?_⟩
  have steady : HostFate.steady.Prepares := ⟨fun _ _ _ h => (by cases h), fun _ _ => rfl⟩
  fin_cases hcall
  · exact steady
  · exact steady

def Trial.noBlackhole : HostFate :=
  { HostFate.steady with
    fails := fun _ c => if c = .blackhole egressTableBase then some "exit status 2" else none }

/-- One command of one `apply` fails: the backbone gets no device, and the rule leads to a table without any default
route. -/
theorem leak_without_blackhole :
    let s := HostAgent.apply Trial.gatewayConfig Trial.noBlackhole
      (Trial.planAt [Trial.detour]) {} { host := .bare }
    s.2.host.rules Trial.detour.virtualIP egressTableBase = true ∧
      s.2.host.blackhole egressTableBase = false ∧ s.2.host.default egressTableBase = none ∧
      s.2.errs = ["backbone to hk: exit status 2"] := by
  decide

end Egressa
