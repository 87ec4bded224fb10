import Egressa.Control.SetIfNewer
import Egressa.Controller.Server

/-!
# What the controllers promise each other

A `Deployment` is any number of controllers over one `MemStore`, each thread of which handles one request.  `Inv` is
what holds of every history: the ledger tells the store, every client record has an ownership record, a request
changes things only inside its critical section, and an answer is put together from what its request read.
-/

namespace Egressa

open Conc

abbrev ServerWorld (κ ι : Type) := World ι (HandlerSig κ) (ServerState κ ι)
abbrev ServerEntry (κ ι : Type) := Entry ι (HandlerSig κ) (ServerState κ ι)

/-- Servers over one store, and the requests they get. -/
structure Deployment (κ ι : Type) where
  cfg : κ → ServerConfig
  store : MemStore
  requests : ι → κ × Request

/-! ## Operations -/

section Operations

variable {κ : Type}

/-- The operations that make news. -/
def changes : (o : (HandlerSig κ).Op) → (HandlerSig κ).Res o → Bool
  | .inr (_, .setAlive _ _), _ => true
  | o, r => (written o r).isSome

def bumps : (HandlerSig κ).Op → Bool
  | .inr (_, .bump) => true
  | _ => false

def unlocks : (HandlerSig κ).Op → Bool
  | .inr (_, .unlock) => true
  | _ => false

def readsVersion : (o : (HandlerSig κ).Op) → (HandlerSig κ).Res o → Option (κ × ℕ)
  | .inr (k, .version), (v : ℕ) => some (k, v)
  | _, _ => none

def answers : (HandlerSig κ).Op → Option (κ × Answer)
  | .inr (k, .respond a) => some (k, a)
  | _ => none

end Operations

/-! ## The invariant -/

section Invariant

variable {κ ι : Type}

/-- The state was so at some moment from `N` on. -/
def Seen (w : ServerWorld κ ι) (N : ℕ) (φ : ServerState κ ι → Prop) : Prop :=
  ∃ n e, N ≤ n ∧ w.hist[n]? = some e ∧ φ e.pre

/-- The session is one that was stored. -/
def Named (d : Deployment κ ι) (w : ServerWorld κ ι) (sess : Session) : Prop :=
  ∃ r ∈ ledger d.store w.hist sess.id, r.access = sess.access ∧ r.egress = sess.egress ∧ r.epoch = sess.epoch

def Owned (d : Deployment κ ι) (w : ServerWorld κ ι) (id : String) : Prop := ledger d.store w.hist id ≠ []

def GatewaysFrom (w : ServerWorld κ ι) (k : κ) (N : ℕ) (gws : List Gateway) : Prop :=
  ∃ stored alive, Seen w N (fun s => decodeGateways (s.1.mem.list gatewayKeyPrefix) = .ok stored) ∧
    Seen w N (fun s => (s.2 k).alive = alive) ∧
    gws = stored.map fun g => { g with alive := aliveIn alive g.id }

def SessionFrom (cfg : ServerConfig) (w : ServerWorld κ ι) (N : ℕ) (c : ClientRecord) (sess : Session) : Prop :=
  ∃ own, Seen w N (fun s => ownershipIn s.1.mem c.id = some own) ∧ sess = sessionOf cfg c own

def VersionRead (w : ServerWorld κ ι) (i : ι) (k : κ) (p v : ℕ) : Prop :=
  ∃ e, w.hist[p]? = some e ∧ e.tid = i ∧ readsVersion e.op e.res = some (k, v)

def LookedUp (w : ServerWorld κ ι) (i : ι) (p : ℕ) (id : String) (c : ClientRecord) : Prop :=
  ∃ n e, n < p ∧ w.hist[n]? = some e ∧ e.tid = i ∧ got e.op e.res = some (clientKey id, some (.client c))

/-- The answer of `handleGatewayState` is from after the version was read. -/
def GatewayStateOK (d : Deployment κ ι) (w : ServerWorld κ ι) (i : ι) (k : κ) (st : GatewayState) :
    Prop :=
  ∃ p, VersionRead w i k p st.version ∧ GatewaysFrom w k (p + 1) st.gateways ∧
    ∃ cs, Seen w (p + 1) (fun s => decodeClients (s.1.mem.list clientKeyPrefix) = .ok cs) ∧
      (WellFormed d.store → List.Forall₂ (SessionFrom (d.cfg k) w (p + 1)) cs st.sessions)

def ClientStateOK (d : Deployment κ ι) (w : ServerWorld κ ι) (i : ι) (k : κ) (st : ClientState) :
    Prop :=
  ∃ p bearer id after c, (d.requests i).2 = .clientState bearer id after ∧
    (WellFormed d.store → c.id = id) ∧ LookedUp w i p id c ∧
    VersionRead w i k p st.version ∧ GatewaysFrom w k (p + 1) st.gateways ∧
    SessionFrom (d.cfg k) w (p + 1) c st.session

/-- The answer of `handleMigrate` is the owner it stored. -/
def MigratedOK (d : Deployment κ ι) (w : ServerWorld κ ι) (i : ι) (sess : Session) : Prop :=
  ∃ bearer id req, (d.requests i).2 = .migrate bearer id (.ok req) ∧
    (WellFormed d.store → sess.id = id) ∧ sess.access = req.access ∧ sess.egress = req.egress ∧
      sess.epoch = req.epoch + 1 ∧
    ∃ e ∈ w.hist, e.tid = i ∧ commits sess.id e = some ⟨sess.id, req.access, req.egress, req.epoch + 1⟩

/-- What every answer of the API satisfies. -/
def AnswerOK (d : Deployment κ ι) (w : ServerWorld κ ι) (i : ι) (k : κ) (a : Answer) : Prop :=
  (∀ sess ∈ a.sessions, Named d w sess) ∧ match a with
    | .gatewayState st => GatewayStateOK d w i k st
    | .clientState st => ClientStateOK d w i k st
    | .migrated sess => MigratedOK d w i sess
    | _ => True

/-- The thread is in its critical section. -/
def Holding (d : Deployment κ ι) (i : ι) (w : ServerWorld κ ι) : Prop :=
  (w.st.2 (d.requests i).1).mu = some i ∧ ∀ u ∈ w.hist, u.tid = i → unlocks u.op = false

/-- The invariant of the servers. -/
structure Inv (d : Deployment κ ι) (w : ServerWorld κ ι) : Prop where
  ledger : Ledger d.store w
  wellFormed : WellFormed d.store → WellFormed w.st.1.mem
  inside : ∀ e ∈ w.hist, (changes e.op e.res || bumps e.op) = true →
    (w.st.2 (d.requests e.tid).1).mu = some e.tid ∨ ∃ u ∈ w.hist, u.tid = e.tid ∧ unlocks u.op = true
  final : w.hist.Pairwise fun u e => u.tid = e.tid → unlocks u.op = true → (changes e.op e.res || bumps e.op) = false
  answered : ∀ e ∈ w.hist, ∀ k a, answers e.op = some (k, a) → AnswerOK d w e.tid k a

def serverContract (d : Deployment κ ι) : Contract ι (HandlerSig κ) (ServerState κ ι) where
  inv := Inv d
  guar _ _ _ := True

abbrev Handles [DecidableEq κ] [DecidableEq ι] (d : Deployment κ ι) (i : ι) {α : Type}
    (P : ServerWorld κ ι → Prop) (p : Handler κ α) (Q : α → ServerWorld κ ι → Prop) : Prop :=
  Triple (serverContract d) (serverPool κ ι) i P p Q

end Invariant

/-! ## Facts that persist -/

section Persistent

variable {κ ι : Type} {d : Deployment κ ι} {w : ServerWorld κ ι}

theorem hist_push {n : ℕ} {e : ServerEntry κ ι} (h : w.hist[n]? = some e)
    (j : ι) (o : (HandlerSig κ).Op) (r : (HandlerSig κ).Res o)
    (s' : ServerState κ ι) : (w.push j o r s').hist[n]? = some e := by
  rw [World.push_hist, List.getElem?_append_left (List.getElem?_eq_some_iff.1 h).1]
  exact h

theorem hist_push_self (w : ServerWorld κ ι) (j : ι) (o : (HandlerSig κ).Op)
    (r : (HandlerSig κ).Res o) (s' : ServerState κ ι) :
    (w.push j o r s').hist[w.hist.length]? = some ⟨j, o, r, w.st, s'⟩ := by
  rw [World.push_hist, List.getElem?_concat_length]

theorem length_hist_push (w : ServerWorld κ ι) (j : ι) (o : (HandlerSig κ).Op)
    (r : (HandlerSig κ).Res o) (s' : ServerState κ ι) :
    (w.push j o r s').hist.length = w.hist.length + 1 := by
  rw [World.push_hist, List.length_append, List.length_singleton]

theorem persistent_seen (N : ℕ) (φ : ServerState κ ι → Prop) : Persistent fun w : ServerWorld κ ι => Seen w N φ := by
  rintro w j o r s' ⟨n, e, hN, he, hφ⟩
  exact ⟨n, e, hN, hist_push he j o r s', hφ⟩

theorem persistent_named (sess : Session) : Persistent fun w : ServerWorld κ ι => Named d w sess := by
  rintro w j o r s' ⟨rec, hmem, h⟩
  exact ⟨rec, mem_ledger_push hmem j o r s', h⟩

theorem persistent_owned (id : String) : Persistent fun w : ServerWorld κ ι => Owned d w id := by
  intro w j o r s' h
  rw [Owned, ledger_push]
  exact fun hnil => h (List.append_eq_nil_iff.1 hnil).1

theorem Ledger.isSome_of_owned (h : Ledger d.store w) {id : String}
    (owned : Owned d w id) : (ownershipIn w.st.1.mem id).isSome := by
  rw [h.stored]
  obtain ⟨x, l, hl⟩ := List.exists_cons_of_ne_nil owned
  simp [hl]

theorem Ledger.owned_of_isSome (h : Ledger d.store w) {id : String}
    (hs : (ownershipIn w.st.1.mem id).isSome) : Owned d w id := by
  intro hnil
  rw [h.stored, hnil] at hs
  cases hs

theorem persistent_gatewaysFrom (k : κ) (N : ℕ) (gws : List Gateway) :
    Persistent fun w : ServerWorld κ ι => GatewaysFrom w k N gws := by
  rintro w j o r s' ⟨stored, alive, hs, ha, hg⟩
  exact ⟨stored, alive, persistent_seen _ _ w j o r s' hs, persistent_seen _ _ w j o r s' ha, hg⟩

theorem persistent_sessionFrom (cfg : ServerConfig) (N : ℕ) (c : ClientRecord) (sess : Session) :
    Persistent fun w : ServerWorld κ ι => SessionFrom cfg w N c sess := by
  rintro w j o r s' ⟨own, hs, h⟩
  exact ⟨own, persistent_seen _ _ w j o r s' hs, h⟩

theorem persistent_versionRead (i : ι) (k : κ) (p v : ℕ) :
    Persistent fun w : ServerWorld κ ι => VersionRead w i k p v := by
  rintro w j o r s' ⟨e, he, h⟩
  exact ⟨e, hist_push he j o r s', h⟩

theorem persistent_lookedUp (i : ι) (p : ℕ) (id : String) (c : ClientRecord) :
    Persistent fun w : ServerWorld κ ι => LookedUp w i p id c := by
  rintro w j o r s' ⟨n, e, hn, he, h⟩
  exact ⟨n, e, hn, hist_push he j o r s', h⟩

theorem persistent_answerOK (i : ι) (k : κ) (a : Answer) :
    Persistent fun w : ServerWorld κ ι => AnswerOK d w i k a := by
  rintro w j o r s' ⟨named, h⟩
  refine ⟨fun sess hs => persistent_named sess w j o r s' (named sess hs), ?_⟩
  cases a with
  | gatewayState st =>
    obtain ⟨p, hv, hg, cs, hcs, hss⟩ := h
    refine ⟨p, persistent_versionRead i k p st.version w j o r s' hv,
      persistent_gatewaysFrom k _ _ w j o r s' hg, cs, persistent_seen _ _ w j o r s' hcs, fun hwf => ?_⟩
    exact (hss hwf).imp fun c sess => persistent_sessionFrom _ _ c sess w j o r s'
  | clientState st =>
    obtain ⟨p, bearer, id, after, c, hreq, hid, hl, hv, hg, hs⟩ := h
    exact ⟨p, bearer, id, after, c, hreq, hid, persistent_lookedUp i p id c w j o r s' hl,
      persistent_versionRead i k p st.version w j o r s' hv,
      persistent_gatewaysFrom k _ _ w j o r s' hg, persistent_sessionFrom _ _ c _ w j o r s' hs⟩
  | migrated sess =>
    obtain ⟨bearer, id, req, hreq, hid, ha, he, hep, e, hmem, h⟩ := h
    exact ⟨bearer, id, req, hreq, hid, ha, he, hep, e, List.mem_append_left _ hmem, h⟩
  | _ => trivial

end Persistent

/-! ## Keeping the invariant -/

section Push

variable {κ ι : Type} [DecidableEq κ] [DecidableEq ι] {d : Deployment κ ι} {w : ServerWorld κ ι}
  {ω : Choice} {i : ι} {o : (HandlerSig κ).Op} {r : (HandlerSig κ).Res o}
  {s' : ServerState κ ι}

theorem exec_server {s : ServerState κ ι} {k : κ} {o : ServerOp} {r : o.Res}
    (hex : (serverPool κ ι).exec ω i (.inr (k, o)) s = some (r, s')) :
    ∃ x, (s.2 k).exec ω i o = some (r, x) ∧ s' = (s.1, Function.update s.2 k x) := by
  obtain ⟨p, hp, hp'⟩ := Option.map_eq_some_iff.1 hex
  obtain ⟨hr, rfl⟩ := Prod.mk.inj hp'
  obtain ⟨⟨q, x⟩, hx, rfl⟩ := Option.map_eq_some_iff.1 hp
  obtain rfl : q = r := hr
  exact ⟨x, hx, rfl⟩

theorem exec_mu {s : ServerState κ ι} (hex : (serverPool κ ι).exec ω i o s = some (r, s')) {k : κ}
    {j : ι} (h : (s.2 k).mu = some j) :
    (s'.2 k).mu = some j ∨ (j = i ∧ unlocks o = true) := by
  cases o with
  | inl o =>
    obtain ⟨p, -, hp⟩ := Option.map_eq_some_iff.1 hex
    cases hp
    exact Or.inl h
  | inr o =>
    obtain ⟨k', o⟩ := o
    obtain ⟨x, hx, rfl⟩ := exec_server hex
    by_cases hk : k = k'
    · subst hk
      simp only [Function.update_self]
      cases o with
      | lock | poll | version | aliveFlags =>
        simp only [Server.exec, h, reduceCtorEq, if_false] at hx
      | unlock =>
        simp only [Server.exec] at hx
        split_ifs at hx with hi
        exact Or.inr ⟨Option.some.inj (h.symm.trans hi), rfl⟩
      | select v =>
        simp only [Server.exec] at hx
        split_ifs at hx
        · cases hx
          exact Or.inl h
        · cases hx
          exact Or.inl h
      | _ =>
        cases hx
        exact Or.inl h
    · simp only [Function.update_of_ne hk]
      exact Or.inl h

/-- One operation of any thread. -/
theorem Inv.push (inv : Inv d w) (hex : (serverPool κ ι).exec ω i o w.st = some (r, s'))
    (hledger : Ledger d.store (w.push i o r s'))
    (hwf : WellFormed d.store → WellFormed s'.1.mem)
    (hold : (changes o r || bumps o) = true → Holding d i w)
    (ok : ∀ k a, answers o = some (k, a) → AnswerOK d (w.push i o r s') i k a) :
    Inv d (w.push i o r s') := by
  refine ⟨hledger, hwf, ?_, ?_, ?_⟩
  · intro e he hm
    have kept : ∀ j, (w.st.2 (d.requests j).1).mu = some j → ((w.push i o r s').st.2 (d.requests j).1).mu = some j ∨
          ∃ u ∈ (w.push i o r s').hist, u.tid = j ∧ unlocks u.op = true := by
      intro j hj
      rcases exec_mu hex hj with h | ⟨rfl, hu⟩
      · exact Or.inl h
      · exact Or.inr ⟨_, List.mem_append_right _ (List.mem_singleton_self _), rfl, hu⟩
    rcases List.mem_append.1 he with he | he
    · rcases inv.inside e he hm with hmu | ⟨u, hu, h⟩
      · exact kept e.tid hmu
      · exact Or.inr ⟨u, List.mem_append_left _ hu, h⟩
    · obtain rfl := List.mem_singleton.1 he
      exact kept i (hold hm).1
  · rw [World.push_hist, List.pairwise_append]
    refine ⟨inv.final, List.pairwise_singleton _ _, fun u hu e he ht hun => ?_⟩
    obtain rfl := List.mem_singleton.1 he
    rw [Bool.eq_false_iff]
    intro hm
    have := (hold hm).2 u hu ht
    rw [hun] at this
    cases this
  · exact List.forall_mem_append.2 ⟨fun e he k a ha => persistent_answerOK e.tid k a w i o r s'
      (inv.answered e he k a ha), List.forall_mem_singleton.2 ok⟩

theorem Inv.push_silent (inv : Inv d w) (hex : (serverPool κ ι).exec ω i o w.st = some (r, s'))
    (hw : written o r = none) (hold : (changes o r || bumps o) = true → Holding d i w)
    (ok : ∀ k a, answers o = some (k, a) → AnswerOK d (w.push i o r s') i k a) :
    Inv d (w.push i o r s') := by
  refine inv.push hex (inv.ledger.push_other hex fun p sid hp => by simp [hw] at hp) ?_ hold ok
  have hm := exec_mem hex
  rw [hw] at hm
  rw [hm]
  exact inv.wellFormed

theorem Inv.push_gateway (inv : Inv d w) (hex : (serverPool κ ι).exec ω i o w.st = some (r, s'))
    {id : String} {value : Doc} (hw : written o r = some (gatewayKey id, value))
    (hold : Holding d i w) (ha : answers o = none) : Inv d (w.push i o r s') := by
  have other : ∀ p sid, written o r = some p → p.1 ≠ sessionKey sid := by
    intro p sid hp
    cases hw.symm.trans hp
    exact (sessionKey_ne_gatewayKey sid id).symm
  refine inv.push hex (inv.ledger.push_other hex other) (fun hwf => ?_) (fun _ => hold)
    (fun k a h => by simp [ha] at h)
  have hm := exec_mem hex
  simp only [hw] at hm
  rw [hm]
  exact (inv.wellFormed hwf).put_gateway id value

theorem Inv.push_client (inv : Inv d w) (hex : (serverPool κ ι).exec ω i o w.st = some (r, s'))
    {c : ClientRecord} (hw : written o r = some (clientKey c.id, .client c))
    (owned : WellFormed d.store → Owned d w c.id)
    (hold : Holding d i w) (ha : answers o = none) : Inv d (w.push i o r s') := by
  have other : ∀ p sid, written o r = some p → p.1 ≠ sessionKey sid := by
    intro p sid hp
    cases hw.symm.trans hp
    exact (sessionKey_ne_clientKey sid c.id).symm
  refine inv.push hex (inv.ledger.push_other hex other) (fun hwf => ?_) (fun _ => hold)
    (fun k a h => by simp [ha] at h)
  have hm := exec_mem hex
  simp only [hw] at hm
  rw [hm]
  exact (inv.wellFormed hwf).put_client (inv.ledger.isSome_of_owned (owned hwf))

theorem Inv.push_commit (inv : Inv d w) (hex : (serverPool κ ι).exec ω i o w.st = some (r, s'))
    {rec : OwnershipRecord} (hw : written o r = some (sessionKey rec.session, .ownership rec))
    (hv : rec.validate = .ok ()) (hs : Supersedes rec w.st.1.mem) (hold : Holding d i w)
    (ha : answers o = none) : Inv d (w.push i o r s') := by
  refine inv.push hex (inv.ledger.push_commit hex hw hv hs) (fun hwf => ?_) (fun _ => hold)
    (fun k a h => by simp [ha] at h)
  have hm := exec_mem hex
  simp only [hw] at hm
  rw [hm]
  exact (inv.wellFormed hwf).put_owner hv

end Push

/-! ## Assertions of one thread -/

section Local

variable {κ ι : Type} [DecidableEq κ] [DecidableEq ι] {d : Deployment κ ι} {i : ι}

/-- A fact that stays until the lock is given up. -/
structure Local (d : Deployment κ ι) (i : ι) (P : ServerWorld κ ι → Prop) : Prop where
  stable : Stable (serverContract d) (serverPool κ ι) i P
  own : ∀ w ω o r s', (serverPool κ ι).exec ω i o w.st = some (r, s') → unlocks o = false → P w → P (w.push i o r s')

theorem Local.learn {P F : ServerWorld κ ι → Prop} (h : Local d i P) (hF : Persistent F) :
    Local d i fun w => P w ∧ F w :=
  ⟨h.stable.and hF.stable, fun w ω o r s' hex hu hP => ⟨h.own w ω o r s' hex hu hP.1, hF w i o r s' hP.2⟩⟩

theorem Local.give {P : ServerWorld κ ι → Prop} (h : Local d i P) {α : Type} (a : α) :
    Handles d i P (.ret a) (fun _ => P) := Triple.ret h.stable fun _ _ h => h

theorem local_holding : Local d i (Holding d i) := by
  constructor
  · rintro w w' ⟨j, hji, ⟨ω, o, r, s', hex, rfl⟩, -⟩ ⟨hmu, hun⟩
    exact ⟨(exec_mu hex hmu).resolve_right fun h => hji h.1.symm,
      List.forall_mem_append.2 ⟨hun, List.forall_mem_singleton.2 fun ht => absurd ht hji⟩⟩
  · intro w ω o r s' hex hu ⟨hmu, hun⟩
    exact ⟨(exec_mu hex hmu).resolve_right fun h => by simp [hu] at h,
      List.forall_mem_append.2 ⟨hun, List.forall_mem_singleton.2 fun _ => hu⟩⟩

def Held (d : Deployment κ ι) (i : ι) (F : ServerWorld κ ι → Prop) (w : ServerWorld κ ι) : Prop := Holding d i w ∧ F w

theorem local_held {F : ServerWorld κ ι → Prop} (h : Persistent F) : Local d i (Held d i F) :=
  local_holding.learn h

end Local

end Egressa
