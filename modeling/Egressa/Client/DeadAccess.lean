import Egressa.Client.Confirmation
import Egressa.Client.Paths
import Egressa.Pathmon

/-!
# Leaving a dead access gateway

Two goroutines of the client agent (`internal/client/agent.go`) share its session.  `update` takes in a state under the
lock, sets the targets of the monitor, and adopts the session of the state.  `decideOnce` finds out whether the path in
use is dead in one critical section, and decides in another, for the session there is then.
-/

namespace Egressa.Client

open Measurement Maps Pathmon

variable {F : Type}

/-- `api.ClientState`, as far as it is used here. -/
structure State (F : Type) where
  gateways : List Gateway
  links : List (Link F)
  policy : PolicyDocument F
  policyVersion : UInt64
  session : Session
  probePort : UInt16

/-- Where `update` is: with targets to set, and then with a session to adopt. -/
inductive Polling
  | idle
  | unlocked (targets : Map String AddrPort) (session : Session)
  | targetsSet (session : Session)

/-- Where `decideOnce` is. -/
inductive Pass (F : Type)
  | idle
  | began (now : ℤ)
  | looked (now : ℤ) (paths : List (Path F)) (dead : Bool)
  | asking

/-- The path in use has been found dead. -/
def Pass.condemns : Pass F → Bool
  | .looked _ _ dead => dead
  | _ => false

/-- A migration that was asked for, and since when its session has had its access gateway. -/
structure Asked where
  now : ℤ
  session : Session
  since : ℤ
  access : String
  egress : String
  cause : Option Cause

/-- The access gateway was left as dead. -/
def Asked.abandons (r : Asked) : Bool := r.cause == some .accessDead || r.cause == some .egressChange

/-- The agent, and in the last four fields what has happened so far. -/
structure Agent (F : Type) where
  known : Knowledge F
  decider : Decider F
  policyVersion : UInt64
  mon : Monitor
  polling : Polling
  pass : Pass F
  clock : ℤ
  accessSince : ℤ
  /-- The replies that have arrived: from whom, and when. -/
  heard : List (String × ℤ)
  /-- The probes that no reply has answered yet. -/
  flying : List Probe
  asked : List Asked

/-- The steps of the agent and the network. -/
inductive AgentStep (F : Type)
  | wait (d : ℕ)
  | send (target : String) (id : UInt32)
  | expire
  /-- A reply arrives, to the probe of this index and ID. -/
  | receive (sender : String) (index id : UInt32)
  /-- A state has come from the controller; `update` up to where it gives up the lock. -/
  | poll (st : State F)
  | setTargets
  | adoptPolled
  /-- `decideOnce`, up to `paths`. -/
  | begin
  /-- `paths`, given what the windows hold, and what the monitor answers about the other gateways. -/
  | look (probe : String → Probed F)
  /-- The section in which `decideOnce` decides. -/
  | decide
  | answer (next : Option Session)

namespace Agent

/-- The agent after its session has been opened. -/
def start (session : Session) (policy : PolicyDocument F) (policyVersion : UInt64) (now : ℤ) : Agent F where
  known := ⟨session, now, [], ∅⟩
  decider := newDecider policy now
  policyVersion := policyVersion
  mon := .new
  polling := .idle
  pass := .idle
  clock := now
  accessSince := now
  heard := []
  flying := []
  asked := []

/-- Takes a newer session. -/
def adopt (a : Agent F) (sess : Session) : Agent F :=
  if sess.epoch ≤ a.known.session.epoch then a
  else
    { a with
      known := { a.known with session := sess, since := a.clock }
      decider := a.decider.reset a.clock
      accessSince := if sess.access = a.known.session.access then a.accessSince else a.clock }

variable [Arith F] (cfg : AgentConfig) (probing : ProberConfig) (decay : Duration → F)

/-- The targets that `update` sets. -/
def targets (st : State F) : Map String AddrPort :=
  collect (fun g => if cfg.usableAccess g then some (g.id, (g.nodeIP, st.probePort)) else none) st.gateways

/-- `update`, up to where it gives up the lock. -/
def refresh (a : Agent F) (st : State F) : Agent F :=
  { a with
    known := { a.known with gateways := st.gateways, links := linkMap st.links }
    decider := if st.policyVersion = a.policyVersion then a.decider else newDecider st.policy a.clock
    policyVersion := st.policyVersion
    polling := .unlocked (targets cfg st) st.session }

/-- What the monitor answers about the access gateway is what it has heard. -/
def answers (a : Agent F) (probe : String → Probed F) (name : String) : Probed F :=
  if name = a.known.session.access then
    { probe name with lastReply := a.mon.lastReply name, known := (a.mon.targets.lookup name).isSome }
  else probe name

/-- The first section of `decideOnce`. -/
def lookNow (a : Agent F) (probe : String → Probed F) (now : ℤ) : Agent F :=
  let seen := a.known.paths decay cfg (a.answers probe) now
  { a with pass := .looked now seen.1 seen.2 }

/-- The second section of `decideOnce`. -/
def decideNow (a : Agent F) (now : ℤ) (paths : List (Path F)) (dead : Bool) : Agent F :=
  let sess := a.known.session
  let dec := a.decider.decide ⟨now, sess.access, sess.egress, paths, dead⟩
  if dec.1.migrate then
    { a with
      decider := dec.2
      pass := .asking
      asked := a.asked ++ [⟨now, sess, a.accessSince, dec.1.access, dec.1.egress, dec.1.cause⟩] }
  else { a with decider := dec.2, pass := .idle }

/-- One step. -/
def step? (a : Agent F) : AgentStep F → Option (Agent F)
  | .wait d => some { a with clock := a.clock + d }
  | .send target id => some { a with
      mon := a.mon.send a.clock target id
      flying := a.flying ++ ((a.mon.targets.lookup target).map fun t => ⟨target, t.index, id, a.clock⟩).toList }
  | .expire => some { a with mon := a.mon.tick probing.timeout a.clock }
  | .receive sender index id => some { a with
      mon := a.mon.receive a.clock index id
      heard := a.heard ++ [(sender, a.clock)]
      flying := a.flying.filter fun p => p.index ≠ index ∨ p.id ≠ id }
  | .poll st => match a.polling with
    | .idle => some (a.refresh cfg st)
    | _ => none
  | .setTargets => match a.polling with
    | .unlocked targets session => some { a with mon := (a.mon.set probing targets).2, polling := .targetsSet session }
    | _ => none
  | .adoptPolled => match a.polling with
    | .targetsSet session => some { a.adopt session with polling := .idle }
    | _ => none
  | .begin => match a.pass with
    | .idle => some { a with pass := .began a.clock }
    | _ => none
  | .look probe => match a.pass with
    | .began now => some (a.lookNow cfg decay probe now)
    | _ => none
  | .decide => match a.pass with
    | .looked now paths dead => some (a.decideNow now paths dead)
    | _ => none
  | .answer next => match a.pass with
    | .asking => some { next.elim a a.adopt with pass := .idle }
    | _ => none

/-- A reply of the session's access gateway answers a probe that was sent to its present target less than a timeout ago,
and that nothing has answered.  The access gateway stays a target, of whom fewer than `2^32` are ever made; and no
session with another one is adopted between finding the path dead and deciding what to do. -/
def orderly (a : Agent F) : AgentStep F → Bool
  | .receive sender index id => sender != a.known.session.access || (a.mon.indexOf sender == some index &&
      a.flying.any fun p => p.target == sender && p.index == index && p.id == id &&
        decide (a.clock - p.time < probing.timeout.toInt))
  | .setTargets => match a.polling with
    | .unlocked targets _ => decide (a.mon.Keeps targets a.known.session.access) &&
        decide (a.mon.nextIndex.toNat + targets.entries.length < 2 ^ 32)
    | _ => true
  | .adoptPolled => match a.polling with
    | .targetsSet sess => decide (sess.epoch ≤ a.known.session.epoch) ||
        sess.access == a.known.session.access || !a.pass.condemns
    | _ => true
  | _ => true

abbrev Runs : Agent F → Agent F → Prop :=
  Conc.Runs (fun a e => a.step? cfg probing decay e) fun a e => a.orderly probing e = true

end Agent

/-- At the time `now`, no reply of the gateway `x` had arrived for long, nor had it become the access gateway lately. -/
structure Dead (cfg : AgentConfig) (heard : List (String × ℤ)) (now : ℤ) (x : String) (since : ℤ) : Prop where
  silent : ∀ τ, (x, τ) ∈ heard → τ < now → cfg.deadAfter.toInt < now - τ
  settled : cfg.deadAfter.toInt < now - since

theorem Dead.hear {cfg : AgentConfig} {heard : List (String × ℤ)} {now since clock : ℤ} {x : String}
    (h : Dead cfg heard now x since) (past : now ≤ clock) (sender : String) :
    Dead cfg (heard ++ [(sender, clock)]) now x since := by
  refine ⟨fun τ hτ hlt => ?_, h.settled⟩
  rcases List.mem_append.1 hτ with hτ | hτ
  · exact h.silent τ hτ hlt
  · cases List.mem_singleton.1 hτ
    omega

/-- What holds in an orderly run. -/
structure Watched (cfg : AgentConfig) (timeout : Duration) (a : Agent F) : Prop where
  indexed : a.mon.Indexed
  awaits : ∀ p ∈ a.flying, p.time ≤ a.clock ∧ a.mon.Awaits timeout a.clock p
  heard_le : ∀ e ∈ a.heard, e.2 ≤ a.clock
  since_le : a.known.since ≤ a.clock
  accessSince_le : a.accessSince ≤ a.known.since
  remembers : ∀ τ, (a.known.session.access, τ) ∈ a.heard →
    τ ≤ max (a.mon.lastReply a.known.session.access) a.known.since
  began_le : ∀ now, a.pass = .began now → now ≤ a.clock
  looked : ∀ now paths dead, a.pass = .looked now paths dead → now ≤ a.clock ∧
    (dead = true → Dead cfg a.heard now a.known.session.access a.accessSince)
  asked : ∀ r ∈ a.asked, r.now ≤ a.clock ∧ (r.abandons = true → Dead cfg a.heard r.now r.session.access r.since)

namespace Watched

variable {cfg : AgentConfig} {timeout : Duration} {a : Agent F}

theorem start (session : Session) (policy : PolicyDocument F) (policyVersion : UInt64) (now : ℤ) :
    Watched cfg timeout (.start session policy policyVersion now) where
  indexed := ⟨fun _ _ => by simp [Agent.start, Monitor.new, Monitor.indexOf], fun _ _ h => by cases h⟩
  awaits p hp := by cases hp
  heard_le e he := by cases he
  since_le := le_refl _
  accessSince_le := le_refl _
  remembers τ hτ := by cases hτ
  began_le _ h := by cases h
  looked _ _ _ h := by cases h
  asked r hr := by cases hr

section

variable (h : Watched cfg timeout a)
include h

theorem wait (d : ℕ) : Watched cfg timeout { a with clock := a.clock + d } where
  indexed := h.indexed
  awaits p hp := ⟨(h.awaits p hp).1.trans (by simp), (h.awaits p hp).2.later (by simp)⟩
  heard_le e he := (h.heard_le e he).trans (by simp)
  since_le := h.since_le.trans (by simp)
  accessSince_le := h.accessSince_le
  remembers := h.remembers
  began_le now hnow := (h.began_le now hnow).trans (by simp)
  looked now paths dead hp := ⟨(h.looked now paths dead hp).1.trans (by simp), (h.looked now paths dead hp).2⟩
  asked r hr := ⟨(h.asked r hr).1.trans (by simp), (h.asked r hr).2⟩

theorem onMonitor {mon : Monitor} {flying : List Probe}
    (same : mon.lastReply a.known.session.access = a.mon.lastReply a.known.session.access) (indexed : mon.Indexed)
    (awaits : ∀ p ∈ flying, p.time ≤ a.clock ∧ mon.Awaits timeout a.clock p) :
    Watched cfg timeout { a with mon, flying } := by
  refine { h with indexed := indexed, awaits := awaits, remembers := fun τ hτ => ?_ }
  change τ ≤ max (mon.lastReply a.known.session.access) a.known.since
  rw [same]
  exact h.remembers τ hτ

theorem send (target : String) (id : UInt32) : Watched cfg timeout { a with
      mon := a.mon.send a.clock target id
      flying := a.flying ++ ((a.mon.targets.lookup target).map fun t => ⟨target, t.index, id, a.clock⟩).toList } := by
  refine h.onMonitor (Monitor.lastReply_send ..) (h.indexed.send ..) (List.forall_mem_append.2 ⟨fun p hp => ?_, ?_⟩)
  · exact ⟨(h.awaits p hp).1, (h.awaits p hp).2.send (h.awaits p hp).1 target id⟩
  · cases ht : a.mon.targets.lookup target with
    | none => simp
    | some t => exact List.forall_mem_singleton.2 ⟨le_rfl, .new h.indexed ht timeout a.clock id⟩

/-- A reply that arrives in time is remembered by the monitor. -/
theorem lastReply_receive {sender : String} {index id : UInt32} (access : sender = a.known.session.access)
    (here : a.mon.indexOf sender = some index) {p : Probe} (hp : p ∈ a.flying) (target : p.target = sender)
    (hindex : p.index = index) (hid : p.id = id) (young : a.clock - p.time < timeout.toInt) :
    (a.mon.receive a.clock index id).lastReply a.known.session.access = a.clock := by
  subst target hindex hid
  rw [← access]
  exact Monitor.lastReply_receive h.indexed (h.awaits p hp).2 young here

theorem receive {sender : String} {index id : UInt32} (remembered : sender = a.known.session.access →
      (a.mon.receive a.clock index id).lastReply a.known.session.access = a.clock) :
    Watched cfg timeout { a with
      mon := a.mon.receive a.clock index id
      heard := a.heard ++ [(sender, a.clock)]
      flying := a.flying.filter fun p => p.index ≠ index ∨ p.id ≠ id } := by
  have hle : ∀ e ∈ a.heard ++ [(sender, a.clock)], e.2 ≤ a.clock :=
    List.forall_mem_append.2 ⟨h.heard_le, List.forall_mem_singleton.2 le_rfl⟩
  refine ⟨h.indexed.receive .., fun p hp => ?_, hle, h.since_le, h.accessSince_le, fun τ hτ => ?_, h.began_le,
    fun now paths dead hp => ?_, fun r hr => ?_⟩
  · obtain ⟨hp, other⟩ := List.mem_filter.1 hp
    exact ⟨(h.awaits p hp).1, (h.awaits p hp).2.receive h.indexed (not_and_or.2 (of_decide_eq_true other))⟩
  · change τ ≤ max ((a.mon.receive a.clock index id).lastReply a.known.session.access) a.known.since
    rcases List.mem_append.1 hτ with old | new
    · rcases a.mon.receive_cases a.clock index id with same | ⟨name, t, -, -, taken⟩
      · rw [same]
        exact h.remembers τ old
      · rw [taken, Monitor.lastReply_put]
        split_ifs
        · exact (hle _ hτ).trans (le_max_left _ _)
        · exact h.remembers τ old
    · obtain ⟨access, rfl⟩ := Prod.mk.inj (List.mem_singleton.1 new)
      exact (remembered access.symm).ge.trans (le_max_left _ _)
  · obtain ⟨past, dead⟩ := h.looked now paths dead hp
    exact ⟨past, fun hd => (dead hd).hear past sender⟩
  · obtain ⟨past, dead⟩ := h.asked r hr
    exact ⟨past, fun hd => (dead hd).hear past sender⟩

theorem refresh (st : State F) : Watched cfg timeout (a.refresh cfg st) :=
  ⟨h.indexed, h.awaits, h.heard_le, h.since_le, h.accessSince_le, h.remembers, h.began_le, h.looked, h.asked⟩

theorem adopt {sess : Session} (fair : a.known.session.epoch < sess.epoch → sess.access ≠ a.known.session.access →
      a.pass.condemns = false) : Watched cfg timeout (a.adopt sess) := by
  unfold Agent.adopt
  by_cases hepoch : sess.epoch ≤ a.known.session.epoch
  · rwa [if_pos hepoch]
  rw [if_neg hepoch]
  by_cases haccess : sess.access = a.known.session.access
  · rw [if_pos haccess]
    refine ⟨h.indexed, h.awaits, h.heard_le, le_refl _, h.accessSince_le.trans h.since_le,
      fun τ hτ => (h.heard_le _ hτ).trans (le_max_right _ _), h.began_le, ?_, h.asked⟩
    change ∀ now paths dead, _ → _ ∧ (_ → Dead cfg a.heard now sess.access a.accessSince)
    rw [haccess]
    exact h.looked
  · rw [if_neg haccess]
    refine ⟨h.indexed, h.awaits, h.heard_le, le_refl _, le_refl _,
      fun τ hτ => (h.heard_le _ hτ).trans (le_max_right _ _), h.began_le, ?_, h.asked⟩
    intro now paths dead hp
    refine ⟨(h.looked now paths dead hp).1, fun hdead => ?_⟩
    have := fair (UInt64.not_le.1 hepoch) haccess
    rw [show a.pass = _ from hp, hdead] at this
    cases this

theorem look [Arith F] {decay : Duration → F} (probe : String → Probed F) {now : ℤ} (hbegan : a.pass = .began now) :
    Watched cfg timeout (a.lookNow cfg decay probe now) := by
  unfold Agent.lookNow
  refine { h with
    began_le := fun _ hp => by cases hp
    looked := fun _ _ _ hp => ?_ }
  cases hp
  refine ⟨h.began_le now hbegan, fun hdead => ?_⟩
  change Dead cfg a.heard now a.known.session.access a.accessSince
  have hlate := Knowledge.judged_paths.dead hdead
  have hlast : (a.answers probe a.known.session.access).lastReply = a.mon.lastReply a.known.session.access := by
    simp [Agent.answers]
  rw [hlast] at hlate
  have hlate := Time.lt_of_lt_sub hlate
  have hsettled := h.accessSince_le
  refine ⟨fun τ hτ _ => ?_, by omega⟩
  have := h.remembers τ hτ
  omega

end

end Watched

variable [Arith F]

theorem Decider.dead_of_cause {d : Decider F} {t : Tick F}
    (h : (d.decide t).1.cause = some .accessDead ∨ (d.decide t).1.cause = some .egressChange) :
    t.currentDead = true := by
  by_contra hlive
  rw [Bool.not_eq_true] at hlive
  have hcause : (d.decide t).1.cause = (d.seekBetter t).1.cause := by
    unfold Decider.decide Decider.finish
    rw [hlive]
    rfl
  have hbetter : (d.seekBetter t).1.cause = none ∨ (d.seekBetter t).1.cause = some .betterPath := by
    unfold Decider.seekBetter
    cases t.current? with
    | none => exact Or.inl rfl
    | some current =>
      dsimp only
      cases (d.policy.scan t current).best with
      | none => exact Or.inl rfl
      | some best =>
        dsimp only
        split_ifs
        · exact Or.inl rfl
        · split
          · exact Or.inl rfl
          · exact Or.inr rfl
  rw [hcause] at h
  rcases hbetter with hb | hb <;> rcases h with h | h <;> rw [hb] at h <;> cases h

namespace Watched

variable {cfg : AgentConfig} {timeout : Duration} {probing : ProberConfig} {decay : Duration → F} {a : Agent F}

theorem decideNow (h : Watched cfg timeout a) {now : ℤ} {paths : List (Path F)} {dead : Bool}
    (hlooked : a.pass = .looked now paths dead) : Watched cfg timeout (a.decideNow now paths dead) := by
  obtain ⟨past, hdead⟩ := h.looked now paths dead hlooked
  unfold Agent.decideNow
  dsimp only
  split_ifs with hmigrate
  · refine { h with
      began_le := fun _ hp => by cases hp
      looked := fun _ _ _ hp => by cases hp
      asked := List.forall_mem_append.2 ⟨h.asked, List.forall_mem_singleton.2 ⟨past, fun habandons => hdead ?_⟩⟩ }
    unfold Asked.abandons at habandons
    simp only [Bool.or_eq_true, beq_iff_eq] at habandons
    exact Decider.dead_of_cause habandons
  · exact { h with
      began_le := fun _ hp => by cases hp
      looked := fun _ _ _ hp => by cases hp }

/-- One orderly step. -/
theorem step (h : Watched cfg probing.timeout a) {e : AgentStep F} (orderly : a.orderly probing e = true) {a' : Agent F}
    (step : a.step? cfg probing decay e = some a') : Watched cfg probing.timeout a' := by
  cases e with
  | wait d =>
    cases step
    exact h.wait d
  | send target id =>
    cases step
    exact h.send target id
  | expire =>
    cases step
    exact h.onMonitor (Monitor.lastReply_tick ..) (h.indexed.tick ..) fun p hp => (h.awaits p hp).imp_right .tick
  | receive sender index id =>
    cases step
    refine h.receive fun access => ?_
    simp only [Agent.orderly, access, bne_self_eq_false, Bool.false_or, Bool.and_eq_true, beq_iff_eq, List.any_eq_true,
      decide_eq_true_eq] at orderly
    obtain ⟨here, p, hp, ⟨⟨target, hindex⟩, hid⟩, young⟩ := orderly
    exact h.lastReply_receive rfl here hp target hindex hid young
  | poll st =>
    unfold Agent.step? at step
    cases hp : a.polling with
    | idle =>
      simp only [hp] at step
      cases step
      exact h.refresh st
    | unlocked targets sess => simp [hp] at step
    | targetsSet sess => simp [hp] at step
  | setTargets =>
    unfold Agent.step? at step
    unfold Agent.orderly at orderly
    cases hp : a.polling with
    | idle => simp [hp] at step
    | unlocked targets sess =>
      simp only [hp, Bool.and_eq_true, decide_eq_true_eq] at step orderly
      cases step
      have grows := h.indexed.set probing orderly.2
      exact { h.onMonitor (Monitor.lastReply_set probing orderly.1) grows.indexed
        fun p hp => (h.awaits p hp).imp_right (·.set grows) with }
    | targetsSet sess => simp [hp] at step
  | adoptPolled =>
    unfold Agent.step? at step
    unfold Agent.orderly at orderly
    cases hp : a.polling with
    | idle => simp [hp] at step
    | unlocked targets sess => simp [hp] at step
    | targetsSet sess =>
      simp only [hp, Bool.or_eq_true, decide_eq_true_eq, beq_iff_eq, Bool.not_eq_true'] at step orderly
      cases step
      refine { h.adopt fun hepoch haccess => ?_ with }
      rcases orderly with (hold | hsame) | hfair
      · exact absurd hepoch (UInt64.not_lt.2 hold)
      · exact absurd hsame haccess
      · exact hfair
  | begin =>
    unfold Agent.step? at step
    cases hp : a.pass with
    | idle =>
      simp only [hp] at step
      cases step
      exact { h with
        began_le := fun now hnow => by
          cases hnow
          exact le_refl _
        looked := fun _ _ _ hp => by cases hp }
    | began now => simp [hp] at step
    | looked now paths dead => simp [hp] at step
    | asking => simp [hp] at step
  | look probe =>
    unfold Agent.step? at step
    cases hp : a.pass with
    | began now =>
      simp only [hp] at step
      cases step
      exact h.look probe hp
    | idle => simp [hp] at step
    | looked now paths dead => simp [hp] at step
    | asking => simp [hp] at step
  | decide =>
    unfold Agent.step? at step
    cases hp : a.pass with
    | looked now paths dead =>
      simp only [hp] at step
      cases step
      exact h.decideNow hp
    | idle => simp [hp] at step
    | began now => simp [hp] at step
    | asking => simp [hp] at step
  | answer next =>
    unfold Agent.step? at step
    cases hp : a.pass with
    | asking =>
      simp only [hp] at step
      cases step
      have hadopt : Watched cfg probing.timeout (next.elim a a.adopt) := by
        cases next with
        | none => exact h
        | some sess => exact h.adopt fun _ _ => by rw [hp]; rfl
      exact { hadopt with
        began_le := fun _ hp => by cases hp
        looked := fun _ _ _ hp => by cases hp }
    | idle => simp [hp] at step
    | began now => simp [hp] at step
    | looked now paths dead => simp [hp] at step

end Watched

variable {cfg : AgentConfig} {probing : ProberConfig} {decay : Duration → F}

/-- A session that leaves its access gateway as dead, in an orderly run, has had it for long, and no reply of the
gateway has arrived for long. -/
theorem abandoned_access_dead {session : Session} {policy : PolicyDocument F} {policyVersion : UInt64}
    {now : ℤ} {a : Agent F} (run : Agent.Runs cfg probing decay (.start session policy policyVersion now) a)
    {r : Asked} (hr : r ∈ a.asked) (abandons : r.abandons = true) :
    Dead cfg a.heard r.now r.session.access r.since := by
  have watched : Watched cfg probing.timeout a :=
    run.invariant (fun _ _ _ h orderly step => h.step orderly step) (Watched.start session policy policyVersion now)
  exact (watched.asked r hr).2 abandons

/-- A gateway has been left as dead although a reply of it had arrived lately. -/
def Agent.wrongs (cfg : AgentConfig) (a : Agent F) : Bool :=
  a.asked.any fun r => r.abandons && a.heard.any fun e =>
    e.1 == r.session.access && decide (e.2 < r.now) && decide (r.now - e.2 ≤ cfg.deadAfter.toInt)

omit [Arith F] in
theorem Agent.exists_of_wrongs {a : Agent F} (h : a.wrongs cfg = true) :
    ∃ r ∈ a.asked, r.abandons = true ∧ ¬ Dead cfg a.heard r.now r.session.access r.since := by
  unfold Agent.wrongs at h
  simp only [List.any_eq_true, Bool.and_eq_true, beq_iff_eq, decide_eq_true_eq] at h
  obtain ⟨r, hr, habandons, ⟨x, τ⟩, he, ⟨hx, hbefore⟩, hlate⟩ := h
  dsimp only at hx hbefore hlate
  refine ⟨r, hr, habandons, fun dead => ?_⟩
  have := dead.silent τ (hx ▸ he) hbefore
  omega

namespace Sample

def threeSeconds : AgentConfig := ⟨backendWireGuard, .ofInt (3 * second)⟩

def viaSg : Session := { id := "1", access := "sg", egress := "fr", epoch := 1 }

def viaHk : Session := { viaSg with access := "hk", epoch := 2 }

def threeWays (sg : Addr) (session : Session) : State Float where
  gateways := [{ id := "sg", roles := roleAccess, nodeIP := sg },
    { id := "hk", roles := roleAccess, nodeIP := .v4 0x0ac80003 },
    { id := "jp", roles := roleAccess, nodeIP := .v4 0x0ac80004 },
    { id := "fr", roles := roleEgress, nodeIP := .v4 0x0ac80005, alive := true }]
  links := [⟨"sg", "fr", steady 20000, 0⟩, ⟨"hk", "fr", steady 20000, 0⟩, ⟨"jp", "fr", steady 20000, 0⟩]
  policy := defaultPolicyDocument
  policyVersion := 1
  session := session
  probePort := 7000

def booted : Agent Float := .start viaSg defaultPolicyDocument 1 0

def lately (_ : String) : Probed Float := ⟨steady 30000, 9 * second, true⟩

def takeIn (st : State Float) : List (AgentStep Float) := [.poll st, .setTargets, .adoptPolled]

def hearFrom (name : String) (index : UInt32) : List (AgentStep Float) :=
  [.wait (9 * second).toNat, .send name 0, .receive name index 0, .wait second.toNat]

/-- A reply that takes a second and a half. -/
def hearLate (name : String) (index : UInt32) : List (AgentStep Float) :=
  [.wait (8 * second).toNat, .send name 0, .wait second.toNat, .expire, .wait (second / 2).toNat, .receive name index 0,
    .wait (second / 2).toNat]

def usual : ProberConfig := Pathmon.defaultConfig fun _ => "1s"

abbrev run (steps : List (AgentStep Float)) : Option (Agent Float) :=
  steps.foldlM (fun a e => a.step? threeSeconds usual (fun _ => 1) e) booted

end Sample

open Sample in
theorem abandoned_access_dead_sg : ∃ (a : Agent Float) (r : Asked), r ∈ a.asked ∧ r.session.access = "sg" ∧
    Dead threeSeconds a.heard r.now r.session.access r.since := by
  obtain ⟨a, run, ha⟩ := Conc.Runs.exists_of_checked
    (fun a e => a.step? threeSeconds usual (fun _ => 1) e) (fun a e => a.orderly usual e = true)
    booted (takeIn (threeWays (.v4 0x0ac80002) viaSg) ++ hearFrom "hk" 1 ++ [.begin, .look lately, .decide])
    (fun a => a.asked.map fun r => (r.abandons, r.session.access)) (b := [(true, "sg")])
    (by decide +kernel)
  obtain ⟨r, hr⟩ : ∃ r, a.asked = [r] := List.length_eq_one_iff.1 (by
    have := congrArg List.length ha
    simpa using this)
  rw [hr] at ha
  simp only [List.map_cons, List.map_nil, List.cons.injEq, Prod.mk.injEq, and_true] at ha
  have hmem : r ∈ a.asked := by rw [hr]; exact List.mem_cons_self
  exact ⟨a, r, hmem, ha.2, abandoned_access_dead run hmem ha.1⟩

open Sample in
/-- The session has moved to `hk` between the two sections; `sg` has a new address; and the reply of `sg` is late. -/
theorem healthy_access_abandoned :
    (∃ a, run (takeIn (threeWays (.v4 0x0ac80002) viaSg) ++ hearFrom "hk" 1 ++ [.begin, .look lately] ++
        takeIn (threeWays (.v4 0x0ac80002) viaHk) ++ [.decide]) = some a ∧
      ∃ r ∈ a.asked, r.abandons = true ∧ ¬ Dead threeSeconds a.heard r.now r.session.access r.since) ∧
    (∃ a, run (takeIn (threeWays (.v4 0x0ac80002) viaSg) ++ hearFrom "sg" 2 ++
        takeIn (threeWays (.v4 0x0ac80006) viaSg) ++ [.begin, .look lately, .decide]) = some a ∧
      ∃ r ∈ a.asked, r.abandons = true ∧ ¬ Dead threeSeconds a.heard r.now r.session.access r.since) ∧
    (∃ a, run (takeIn (threeWays (.v4 0x0ac80002) viaSg) ++ hearLate "sg" 2 ++ [.begin, .look lately, .decide])
        = some a ∧
      ∃ r ∈ a.asked, r.abandons = true ∧ ¬ Dead threeSeconds a.heard r.now r.session.access r.since) := by
  have wrongs : ∀ steps, (run steps).map (Agent.wrongs threeSeconds) = some true →
      ∃ a, run steps = some a ∧ ∃ r ∈ a.asked, r.abandons = true ∧
        ¬ Dead threeSeconds a.heard r.now r.session.access r.since := by
    intro steps h
    obtain ⟨a, ha, hwrongs⟩ := Option.map_eq_some_iff.1 h
    exact ⟨a, ha, Agent.exists_of_wrongs hwrongs⟩
  exact ⟨wrongs _ (by decide +kernel), wrongs _ (by decide +kernel), wrongs _ (by decide +kernel)⟩

end Egressa.Client
