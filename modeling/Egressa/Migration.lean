import Egressa.Client.Agent
import Egressa.Controller.Requests

/-!
# Migration

The migration protocol as a whole: controllers that share a store, and the agents of clients
(`internal/client/agent.go`), which adopt what the answers name.  Every answer ever given may reach an agent at any
later time, any number of times or never, and in any order; so may a request.
-/

namespace Egressa

open Conc
open Function (update update_of_ne update_self)

section Protocol

variable {κ ι γ : Type}

/-- The controllers and the clients. -/
structure Protocol (κ ι γ : Type) where
  controllers : Config ι (HandlerSig κ) (ServerState κ ι) Answer
  agents : γ → Option ClientAgent

/-- The request was answered so. -/
def Said (w : ServerWorld κ ι) (i : ι) (a : Answer) : Prop :=
  ∃ e ∈ w.hist, e.tid = i ∧ ∃ k, answers e.op = some (k, a)

def Request.session? : Request → Option String
  | .clientState _ id _ => some id
  | .migrate _ id _ => some id
  | _ => none

namespace Protocol

abbrev world (s : Protocol κ ι γ) : ServerWorld κ ι := s.controllers.world

/-- The session was in an answer, or is that of an agent. -/
def Names (s : Protocol κ ι γ) (sess : Session) : Prop :=
  (∃ i a, Said s.world i a ∧ sess ∈ a.sessions) ∨ ∃ g a, s.agents g = some a ∧ a.session = sess

variable [DecidableEq κ] [DecidableEq ι] [DecidableEq γ]

/-- A step of a controller, or of a client that hears an answer. -/
inductive Step (d : Deployment κ ι) : Protocol κ ι γ → Protocol κ ι γ → Prop
  | controller {s : Protocol κ ι γ} {c'} (step : s.controllers.Step (serverPool κ ι) c') :
      Step d s { s with controllers := c' }
  /-- `Run` after `open`; an agent that is restarted is another agent. -/
  | connect {s : Protocol κ ι γ} {g : γ} {i : ι} {sess secret network ipsec a}
      (idle : s.agents g = none) (said : Said s.world i (.created sess secret network))
      (connected : ClientAgent.connect sess ipsec = some a) :
      Step d s { s with agents := update s.agents g (some a) }
  /-- `update` or `decideOnce`: an answer to a request about the agent's session arrives. -/
  | adopt {s : Protocol κ ι γ} {g : γ} {a : ClientAgent} {i : ι} {ans sess}
      (agent : s.agents g = some a) (mine : (d.requests i).2.session? = some a.session.id)
      (said : Said s.world i ans) (named : sess ∈ ans.sessions) :
      Step d s { s with agents := update s.agents g (some (a.adopt sess)) }

def Reaches (d : Deployment κ ι) : Protocol κ ι γ → Protocol κ ι γ → Prop := Relation.ReflTransGen (Step d)

def start (d : Deployment κ ι) : Protocol κ ι γ := ⟨d.start, fun _ => none⟩

end Protocol

end Protocol

/-! ## The invariant -/

section Invariant

variable {κ ι γ : Type} {d : Deployment κ ι}

theorem Inv.named_of_said {w : ServerWorld κ ι} (inv : Inv d w) {i : ι} {a : Answer}
    (said : Said w i a) {sess : Session} (hs : sess ∈ a.sessions) : Named d w sess := by
  obtain ⟨e, he, -, k, ha⟩ := said
  exact (inv.answered e he k a ha).1 sess hs

theorem Inv.path_eq {w : ServerWorld κ ι} (inv : Inv d w) {sess sess' : Session}
    (h : Named d w sess) (h' : Named d w sess') (id : sess.id = sess'.id)
    (epoch : sess.epoch = sess'.epoch) : (sess.access, sess.egress) = (sess'.access, sess'.egress) := by
  obtain ⟨r, hr, ha, he, hep⟩ := h
  obtain ⟨r', hr', ha', he', hep'⟩ := h'
  rw [← id] at hr'
  have : r = r' := inv.ledger.eq_of_epoch hr hr' (by rw [hep, hep', epoch])
  rw [← ha, ← he, ← ha', ← he', this]

variable [DecidableEq κ] [DecidableEq ι] [DecidableEq γ] {s s' : Protocol κ ι γ}

namespace Protocol

/-- What is known of a reachable state. -/
structure Valid (d : Deployment κ ι) (s : Protocol κ ι γ) : Prop where
  reaches : d.start.Reaches (serverPool κ ι) s.controllers
  agents : ∀ g a, s.agents g = some a → Named d s.world a.session

omit [DecidableEq γ] in
theorem Valid.inv (h : Valid d s) : Inv d s.world := d.inv_of_reaches h.reaches

theorem Valid.update (h : Valid d s) (g : γ) {a : ClientAgent} (ha : Named d s.world a.session) :
    Valid d { s with agents := update s.agents g (some a) } := by
  refine ⟨h.reaches, fun g' a' ha' => ?_⟩
  by_cases hg : g' = g
  · subst hg
    simp only [update_self, Option.some.injEq] at ha'
    subst ha'
    exact ha
  · simp only [update_of_ne hg] at ha'
    exact h.agents g' a' ha'

theorem Valid.step (h : Valid d s) (step : Step d s s') : Valid d s' := by
  cases step with
  | controller step =>
    exact ⟨h.reaches.tail step, fun g a ha => (persistent_named _).step step (h.agents g a ha)⟩
  | @connect g i sess secret network ipsec a idle said connected =>
    refine h.update g ?_
    rw [ClientAgent.session_connect connected]
    exact h.inv.named_of_said said (by simp [Answer.sessions])
  | @adopt g a i ans sess agent mine said named =>
    refine h.update g ?_
    rcases ClientAgent.session_adopt a sess with held | moved
    · rw [held]
      exact h.agents g a agent
    · rw [moved]
      exact h.inv.named_of_said said named

/-- What is known of every reachable state. -/
theorem Valid.of_reaches (h : Valid d s) (run : Reaches d s s') : Valid d s' := by
  induction run with
  | refl => exact h
  | tail _ step ih => exact ih.step step

omit [DecidableEq γ] in
theorem valid_start : Valid d (start d : Protocol κ ι γ) := ⟨Relation.ReflTransGen.refl, fun g a ha => by cases ha⟩

omit [DecidableEq γ] in
theorem Valid.named (h : Valid d s) {sess : Session} (hs : s.Names sess) : Named d s.world sess := by
  rcases hs with ⟨i, a, said, hmem⟩ | ⟨g, a, ha, rfl⟩
  · exact h.inv.named_of_said said hmem
  · exact h.agents g a ha

theorem named_of_reaches (run : Reaches d s s') {sess : Session} (h : Named d s.world sess) :
    Named d s'.world sess := by
  induction run with
  | refl => exact h
  | tail _ step ih =>
    cases step with
    | controller step => exact (persistent_named sess).step step ih
    | connect => exact ih
    | adopt => exact ih

theorem agent_of_reaches (run : Reaches d s s') {g : γ} {a : ClientAgent} (h : s.agents g = some a) :
    ∃ a', s'.agents g = some a' ∧ a.session.epoch ≤ a'.session.epoch := by
  induction run with
  | refl => exact ⟨a, h, UInt64.le_refl _⟩
  | tail _ step ih =>
    obtain ⟨b, hb, hle⟩ := ih
    cases step with
    | controller => exact ⟨b, hb, hle⟩
    | @connect g' _ _ _ _ _ _ idle =>
      have hg : g ≠ g' := by
        rintro rfl
        rw [hb] at idle
        cases idle
      exact ⟨b, by simp only [update_of_ne hg, hb], hle⟩
    | @adopt g' b' _ _ sess agent =>
      by_cases hg : g = g'
      · subst hg
        cases hb.symm.trans agent
        refine ⟨b.adopt sess, by simp only [update_self], ?_⟩
        exact UInt64.le_trans hle (b.epoch_le_adopt sess)
      · exact ⟨b, by simp only [update_of_ne hg, hb], hle⟩

end Protocol

end Invariant

/-! ## Agreement -/

section Agreement

variable {κ ι γ : Type} {d : Deployment κ ι} {w : ServerWorld κ ι}

theorem migrated_committed (inv : Inv d w) {i : ι} {sess : Session} (said : Said w i (.migrated sess)) :
    ∃ bearer id req, (d.requests i).2 = .migrate bearer id (.ok req) ∧
      (WellFormed d.store → sess.id = id) ∧ sess.epoch = req.epoch + 1 ∧
      ∀ r, (r ∈ ledger d.store w.hist sess.id ∧ r.epoch = req.epoch + 1) ↔
        r = ⟨sess.id, req.access, req.egress, req.epoch + 1⟩ := by
  obtain ⟨e, he, rfl, k, ha⟩ := said
  obtain ⟨bearer, id, req, hreq, hid, -, -, hep, c, hc, -, hcommit⟩ := (inv.answered e he k _ ha).2
  refine ⟨bearer, id, req, hreq, hid, hep, fun r => ⟨fun ⟨hr, hep⟩ => ?_, ?_⟩⟩
  · exact inv.ledger.eq_of_epoch hr (mem_ledger_of_commits hc hcommit) hep
  · rintro rfl
    exact ⟨mem_ledger_of_commits hc hcommit, rfl⟩

theorem migrated_unique (inv : Inv d w) {i j : ι} {sess sess' : Session}
    (hi : Said w i (.migrated sess)) (hj : Said w j (.migrated sess')) (id : sess.id = sess'.id)
    (epoch : sess.epoch = sess'.epoch) : i = j := by
  obtain ⟨e, he, rfl, k, ha⟩ := hi
  obtain ⟨e', he', rfl, k', ha'⟩ := hj
  obtain ⟨-, -, req, -, -, -, -, hep, c, hc, hti, hcommit⟩ := (inv.answered e he k _ ha).2
  obtain ⟨-, -, req', -, -, -, -, hep', c', hc', htj, hcommit'⟩ := (inv.answered e' he' k' _ ha').2
  rw [← id] at hcommit'
  have : c = c' := inv.ledger.commit_unique hc hc' hcommit hcommit' (by rw [← hep, ← hep', epoch])
  rw [← hti, ← htj, this]

variable [DecidableEq κ] [DecidableEq ι] [DecidableEq γ]

/-- Epoch agreement, at any two moments `s` and then `s'` of any run: the epochs of the records of a
session rise; whoever names an epoch of it, in an answer or as the session an agent holds, names the
same path; no agent goes back; and a migration is answered only if it is the record of the next
epoch, and no other is. -/
theorem epoch_agreement (d : Deployment κ ι) {s s' : Protocol κ ι γ}
    (run : Protocol.Reaches d (.start d) s) (run' : Protocol.Reaches d s s') :
    (∀ sid, (ledger d.store s'.world.hist sid).Pairwise fun r r' => r.epoch < r'.epoch) ∧
    (∀ sess sess', s.Names sess → s'.Names sess' → sess.id = sess'.id → sess.epoch = sess'.epoch →
      (sess.access, sess.egress) = (sess'.access, sess'.egress)) ∧
    (∀ g a, s.agents g = some a → ∃ a', s'.agents g = some a' ∧ a.session.epoch ≤ a'.session.epoch) ∧
    (∀ i sess, Said s'.world i (.migrated sess) → ∃ bearer id req, (d.requests i).2 = .migrate bearer id (.ok req) ∧
        (WellFormed d.store → sess.id = id) ∧ sess.epoch = req.epoch + 1 ∧
        (∀ r, (r ∈ ledger d.store s'.world.hist sess.id ∧ r.epoch = req.epoch + 1) ↔
          r = ⟨sess.id, req.access, req.egress, req.epoch + 1⟩) ∧
        ∀ j sess', Said s'.world j (.migrated sess') → sess'.id = sess.id → sess'.epoch = sess.epoch → j = i) := by
  have valid : Protocol.Valid d s := Protocol.valid_start.of_reaches run
  have valid' : Protocol.Valid d s' := valid.of_reaches run'
  refine ⟨valid'.inv.ledger.rising, fun sess sess' hs hs' => ?_,
    fun g a ha => Protocol.agent_of_reaches run' ha, fun i sess said => ?_⟩
  · exact valid'.inv.path_eq (Protocol.named_of_reaches run' (valid.named hs)) (valid'.named hs')
  · obtain ⟨bearer, id, req, hreq, hid, hep, hr⟩ := migrated_committed valid'.inv said
    exact ⟨bearer, id, req, hreq, hid, hep, hr, fun j sess' hj hid hep => migrated_unique valid'.inv hj said hid hep⟩

theorem Protocol.reaches_of_controllers {s : Protocol κ ι γ} {c : Config ι (HandlerSig κ) (ServerState κ ι) Answer}
    (run : s.controllers.Reaches (serverPool κ ι) c) :
    Protocol.Reaches d s { s with controllers := c } := by
  induction run with
  | refl => exact Relation.ReflTransGen.refl
  | tail _ step ih => exact ih.tail (.controller step)

end Agreement

def heard {κ ι : Type} (w : ServerWorld κ ι) : List (ι × Answer) :=
  w.hist.filterMap fun e => (answers e.op).map fun p => (e.tid, p.2)

theorem said_of_mem {κ ι : Type} {w : ServerWorld κ ι} {i : ι} {a : Answer} (h : (i, a) ∈ heard w) :
    Said w i a := by
  obtain ⟨e, he, h⟩ := List.mem_filterMap.1 h
  obtain ⟨⟨k, a⟩, ha, h⟩ := Option.map_eq_some_iff.1 h
  cases h
  exact ⟨e, he, rfl, k, ha⟩

namespace Trial

def race : Deployment Bool (Fin 3) where
  cfg _ := config
  store := store
  requests
    | 0 => (true, .createSession "" (.ok { publicKey, secret := "secret" }))
    | 1 => (true, .migrate "secret" "7" (.ok ⟨1, "b", "a"⟩))
    | 2 => (false, .migrate "secret" "7" (.ok ⟨1, "b", "b"⟩))

def opened : Session := sessionOf config client ⟨"7", "a", "a", 1⟩
def moved : Session := sessionOf config client ⟨"7", "b", "a", 2⟩

end Trial

open Trial in
theorem epoch_agreement_race : ∃ s : Protocol Bool (Fin 3) Unit, Protocol.Reaches race (.start race) s ∧
      (∃ a, s.agents () = some a ∧ a.session = moved) ∧
      ∀ j sess, Said s.world j (.migrated sess) → sess.id = "7" → sess.epoch = 2 → j = 1 := by
  obtain ⟨c, reach, said⟩ := Config.reaches_of_run_any (serverPool Bool (Fin 3))
    (turns [(0, 5), (1, 4), (2, 4), (1, 7), (2, 6)]) race.start
    (fun c => heard c.world = [(0, .created opened "secret" config.network), (1, .migrated moved),
      (2, .error 409 "the session is at another epoch" (some moved))])
    (by decide)
  have told₀ : Said c.world 0 (.created opened "secret" config.network) := said_of_mem (by simp [said])
  have told₁ : Said c.world 1 (.migrated moved) := said_of_mem (by simp [said])
  have told₂ : Said c.world 2 (.error 409 "the session is at another epoch" (some moved)) :=
    said_of_mem (by simp [said])
  let a : ClientAgent := ⟨opened, some (Tunnel.newSessionBind 7 1)⟩
  let s : Protocol Bool (Fin 3) Unit := ⟨c, fun _ => none⟩
  let s₁ : Protocol Bool (Fin 3) Unit := ⟨c, update s.agents () (some a)⟩
  let s₂ : Protocol Bool (Fin 3) Unit := ⟨c, update s₁.agents () (some (a.adopt moved))⟩
  have run : Protocol.Reaches race (.start race) s := Protocol.reaches_of_controllers reach
  have connect : Protocol.Step race s s₁ := .connect rfl told₀ (by decide : ClientAgent.connect opened false = some a)
  have adopt : Protocol.Step race s₁ s₂ := .adopt (by simp [s₁]) rfl told₂ (by simp [Answer.sessions])
  have run₂ := (run.tail connect).tail adopt
  refine ⟨s₂, run₂, ⟨a.adopt moved, by simp [s₂], by decide⟩, fun j sess hj hid hep => ?_⟩
  obtain ⟨-, -, -, -, -, -, -, unique⟩ := (epoch_agreement race run₂ Relation.ReflTransGen.refl).2.2.2 1 moved told₁
  exact unique j sess hj hid hep

end Egressa
