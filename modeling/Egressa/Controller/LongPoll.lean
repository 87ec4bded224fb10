import Egressa.Migration

/-!
# Long polls

Once a change is made, `bumpLocked` raises the version, and a poll that asks for more than the version it knows is
answered.  An answer of version `v` must not miss the changes that were announced by a version of `v` or less; it may
well have others (`Reflects`).
-/

namespace Egressa

open Conc

/-! ## Announced changes -/

section Announced

variable {ι : Type}

/-- A change of thread `j` was announced by a version of at most `v`. -/
def Announced (w : ServerWorld Unit ι) (j : ι) (v : ℕ) : Prop :=
  ∃ b ∈ w.hist, b.tid = j ∧ bumps b.op = true ∧ (b.post.2 ()).version ≤ v

/-- All changes announced by a version of at most `v` come before position `n`. -/
def Behind (w : ServerWorld Unit ι) (v n : ℕ) : Prop :=
  ∀ (m : ℕ) (c : ServerEntry Unit ι), w.hist[m]? = some c → changes c.op c.res = true → Announced w c.tid v → m < n

/-- `φ` held of a state in which no change announced by a version of at most `v` was missing. -/
def Reflects (w : ServerWorld Unit ι) (v : ℕ) (φ : ServerState Unit ι → Prop) : Prop :=
  ∃ n e, w.hist[n]? = some e ∧ Behind w v n ∧ φ e.pre

variable [DecidableEq ι] {d : Deployment Unit ι} {i : ι} {o : (HandlerSig Unit).Op} {r : (HandlerSig Unit).Res o}

theorem exec_version {ω : Choice} {s s' : ServerState Unit ι}
    (hex : (serverPool Unit ι).exec ω i o s = some (r, s')) :
    (s'.2 ()).version = (s.2 ()).version + if bumps o then 1 else 0 := by
  cases o with
  | inl o =>
    obtain ⟨p, -, hp⟩ := Option.map_eq_some_iff.1 hex
    cases hp
    rfl
  | inr o =>
    obtain ⟨k, o⟩ := o
    obtain ⟨x, hx, rfl⟩ := exec_server hex
    have self : Function.update s.2 k x () = x := Function.update_self k x s.2
    change (Function.update s.2 k x ()).version = _
    rw [self]
    cases o with
    | lock | unlock | poll | version | aliveFlags =>
      simp only [Server.exec] at hx
      split_ifs at hx
      cases hx
      rfl
    | select v =>
      simp only [Server.exec] at hx
      split_ifs at hx
      · cases hx
        rfl
      · cases hx
        rfl
    | _ =>
      cases hx
      rfl

theorem version_le_of_mem {c : Config ι (HandlerSig Unit) (ServerState Unit ι) Answer}
    (reach : d.start.Reaches (serverPool Unit ι) c) {e : ServerEntry Unit ι} (he : e ∈ c.world.hist) :
    (e.post.2 ()).version ≤ (c.world.st.2 ()).version := by
  induction reach with
  | refl => cases he
  | @tail c c' _ step ih =>
    rcases Config.step_cases step with ⟨j, o, k, ω, r, s', -, hex, rfl⟩ | ⟨j, β, γ, body, b, k, -, rfl⟩
    · rcases List.mem_append.1 he with he | he
      · have := exec_version hex
        exact (ih he).trans (by rw [World.push_st, this]; omega)
      · obtain rfl := List.mem_singleton.1 he
        exact le_rfl
    · exact ih he

variable {c : Config ι (HandlerSig Unit) (ServerState Unit ι) Answer}

omit [DecidableEq ι] in
theorem eq_version_of_readsVersion {v : ℕ} (h : readsVersion o r = some ((), v)) :
    (⟨o, r⟩ : Sigma (HandlerSig Unit).Res) = ⟨.inr ((), .version), v⟩ := by
  cases o with
  | inl o => cases h
  | inr o =>
    obtain ⟨⟨⟩, o⟩ := o
    cases o with
    | version =>
      cases h
      rfl
    | _ => cases h

theorem exec_readsVersion {ω : Choice} {s s' : ServerState Unit ι} {v : ℕ}
    (hex : (serverPool Unit ι).exec ω i o s = some (r, s')) (h : readsVersion o r = some ((), v)) :
    (s.2 ()).mu = none ∧ (s.2 ()).version = v ∧ bumps o = false := by
  obtain ⟨rfl, hr⟩ := Sigma.mk.inj (eq_version_of_readsVersion h)
  obtain rfl := eq_of_heq hr
  obtain ⟨x, hx, -⟩ := exec_server hex
  simp only [Server.exec] at hx
  split_ifs at hx with hmu
  exact ⟨hmu, (Prod.mk.inj (Option.some.inj hx)).1, rfl⟩

variable {c : Config ι (HandlerSig Unit) (ServerState Unit ι) Answer}

section

variable (reach : d.start.Reaches (serverPool Unit ι) c)
include reach

theorem unlocked_of_announced {i j : ι} {p v : ℕ}
    (read : VersionRead c.world i () p v) (announced : Announced c.world j v) :
    ∃ u ∈ c.world.hist.take p, u.tid = j ∧ unlocks u.op = true := by
  obtain ⟨q, hq, -, hread⟩ := read
  obtain ⟨c₁, reach₁, hw₁, ω, hex⟩ := reach.past rfl hq
  obtain ⟨hmu, hv, hnb⟩ := exec_readsVersion hex hread
  have inv : Inv d ⟨q.pre, c.world.hist.take p⟩ := hw₁ ▸ d.inv_of_reaches reach₁
  obtain ⟨b, hb, rfl, hbump, hle⟩ := announced
  obtain ⟨n, hn, rfl⟩ := List.mem_iff_getElem.1 hb
  have hget : c.world.hist[n]? = some c.world.hist[n] := List.getElem?_eq_getElem hn
  -- a bump at or after position `p` would make the version more than `v`
  have before : n < p := by
    by_contra hnp
    obtain ⟨c₂, reach₂, hw₂, ω₂, hex₂⟩ := reach.past rfl hget
    have step := exec_version hex₂
    rw [hbump, if_pos rfl] at step
    rcases Nat.lt_or_eq_of_le (Nat.not_lt.1 hnp) with hlt | rfl
    · have hq₂ : q ∈ c₂.world.hist := by
        rw [hw₂]
        exact List.mem_of_getElem? (by rw [List.getElem?_take_of_lt hlt, hq])
      have mono := version_le_of_mem reach₂ hq₂
      have hpost := exec_version hex
      rw [hw₂] at mono
      change (q.post.2 ()).version ≤ (c.world.hist[n].pre.2 ()).version at mono
      omega
    · cases hget.symm.trans hq
      rw [hbump] at hnb
      cases hnb
  have hmem : c.world.hist[n] ∈ c.world.hist.take p :=
    List.mem_of_getElem? (by rw [List.getElem?_take_of_lt before, hget])
  rcases inv.inside _ hmem (by rw [hbump, Bool.or_true]) with held | released
  · rw [hmu] at held
    cases held
  · exact released

theorem behind_of_versionRead {p v : ℕ} (read : VersionRead c.world i () p v) : Behind c.world v p := by
  intro m e he hchange announced
  obtain ⟨u, hu, htid, hunlock⟩ := unlocked_of_announced reach read announced
  obtain ⟨n, hn⟩ := List.mem_iff_getElem?.1 hu
  have hnp : n < p := by
    have := (List.getElem?_eq_some_iff.1 hn).1
    rw [List.length_take] at this
    omega
  rw [List.getElem?_take_of_lt hnp] at hn
  by_contra hmp
  have final := (d.inv_of_reaches reach).final
  obtain ⟨hnl, rfl⟩ := List.getElem?_eq_some_iff.1 hn
  obtain ⟨hml, rfl⟩ := List.getElem?_eq_some_iff.1 he
  have := List.pairwise_iff_getElem.1 final n m hnl hml (by omega) htid hunlock
  rw [hchange] at this
  cases this

theorem Seen.reflects {p v : ℕ} (read : VersionRead c.world i () p v) {φ : ServerState Unit ι → Prop}
    (seen : Seen c.world (p + 1) φ) : Reflects c.world v φ := by
  obtain ⟨n, e, hn, he, hφ⟩ := seen
  refine ⟨n, e, he, fun m e' he' hchange announced => ?_, hφ⟩
  exact (behind_of_versionRead reach read m e' he' hchange announced).trans_le (by omega)

end

end Announced

/-! ## Gateways -/

section Polls

variable {ι : Type}

/-- The gateways of an answer of version `v`: listed, and alive, as they should be by then. -/
def GatewaysReflect (w : ServerWorld Unit ι) (v : ℕ) (gws : List Gateway) : Prop :=
  ∃ stored alive, Reflects w v (fun s => decodeGateways (s.1.mem.list gatewayKeyPrefix) = .ok stored) ∧
    Reflects w v (fun s => (s.2 ()).alive = alive) ∧
    gws = stored.map fun g => { g with alive := aliveIn alive g.id }

/-- The session as it was at the version, or later. -/
def SessionReflects (cfg : ServerConfig) (w : ServerWorld Unit ι) (v : ℕ) (c : ClientRecord)
    (sess : Session) : Prop :=
  ∃ own, Reflects w v (fun s => ownershipIn s.1.mem c.id = some own) ∧ sess = sessionOf cfg c own

variable [DecidableEq ι] {d : Deployment Unit ι} {c : Config ι (HandlerSig Unit) (ServerState Unit ι) Answer}

theorem GatewaysFrom.reflect (reach : d.start.Reaches (serverPool Unit ι) c) {i : ι} {p v : ℕ}
    (read : VersionRead c.world i () p v) {gws : List Gateway}
    (h : GatewaysFrom c.world () (p + 1) gws) : GatewaysReflect c.world v gws := by
  obtain ⟨stored, alive, hstored, halive, hgws⟩ := h
  exact ⟨stored, alive, hstored.reflects reach read, halive.reflects reach read, hgws⟩

/-- No long poll of a gateway misses a change or a session. -/
theorem gatewayState_reflects (d : Deployment Unit ι) (stored : WellFormed d.store)
    (reach : d.start.Reaches (serverPool Unit ι) c) {i : ι} {st : GatewayState}
    (said : Said c.world i (.gatewayState st)) :
    GatewaysReflect c.world st.version st.gateways ∧
    ∃ cs, Reflects c.world st.version (fun s => decodeClients (s.1.mem.list clientKeyPrefix) = .ok cs) ∧
      List.Forall₂ (SessionReflects (d.cfg ()) c.world st.version) cs st.sessions := by
  obtain ⟨e, he, rfl, ⟨⟩, ha⟩ := said
  obtain ⟨p, read, hgws, cs, hcs, hss⟩ := ((d.inv_of_reaches reach).answered e he () _ ha).2
  refine ⟨hgws.reflect reach read, cs, hcs.reflects reach read, (hss stored).imp ?_⟩
  rintro cl sess ⟨own, hown, hsess⟩
  exact ⟨own, hown.reflects reach read, hsess⟩

namespace Trial

def polls : Deployment Unit (Fin 3) where
  cfg _ := config
  store := store
  requests
    | 0 => ((), .gatewayState "" 0)
    | 1 => ((), .migrate "secret" "7" (.ok ⟨1, "b", "a"⟩))
    | 2 => ((), .clientState "secret" "7" 0)

def listed : List Gateway := [gateway "a" true, gateway "b" false]

end Trial

omit [DecidableEq ι] in
open Trial in
theorem gatewayState_reflects_moved : ∃ c, polls.start.Reaches (serverPool Unit (Fin 3)) c ∧
      Said c.world 0 (.gatewayState ⟨2, config.network, listed, [moved]⟩) ∧
      GatewaysReflect c.world 2 listed := by
  obtain ⟨c, reach, said⟩ := Config.reaches_of_run_any (serverPool Unit (Fin 3)) (turns [(1, 11), (0, 8)]) polls.start
    (fun c => heard c.world = [(1, .migrated moved), (0, .gatewayState ⟨2, config.network, listed, [moved]⟩)])
    (by decide)
  have told : Said c.world 0 (.gatewayState ⟨2, config.network, listed, [moved]⟩) := said_of_mem (by simp [said])
  exact ⟨c, reach, told, (gatewayState_reflects polls wellFormed_store reach told).1⟩

/-! ## Clients -/

/-- What an answer to the client of session `id` must not miss. -/
structure ClientStateReflects (d : Deployment Unit ι) (w : ServerWorld Unit ι) (id : String)
    (st : ClientState) : Prop where
  gateways : GatewaysReflect w st.version st.gateways
  session : ∃ c own, Reflects w st.version (fun s => s.1.mem.get (clientKey id) = some (.client c)) ∧
    Reflects w st.version (fun s => ownershipIn s.1.mem id = some own) ∧
    let sess := sessionOf (d.cfg ()) c own
    st.session.access = sess.access ∧ st.session.egress = sess.egress ∧
      st.session.epoch = sess.epoch ∧ st.session.backend = sess.backend ∧
      st.session.ipsecPSK = sess.ipsecPSK

/-- When `snapshot` reads the version, a client that its request has looked up still has its
backend. -/
def BackendKept (w : ServerWorld Unit ι) : Prop :=
  ∀ (p n : ℕ) (q l : ServerEntry Unit ι) (v : ℕ) (id : String) (c : ClientRecord),
    w.hist[p]? = some q → readsVersion q.op q.res = some ((), v) → n < p → w.hist[n]? = some l →
    l.tid = q.tid → got l.op l.res = some (clientKey id, some (.client c)) →
    ∃ c', q.pre.1.mem.get (clientKey id) = some (.client c') ∧ (c'.backend = backendIPsec ↔ c.backend = backendIPsec)

theorem sessionOf_backend_congr {cfg : ServerConfig} {c c' : ClientRecord} (id : c.id = c'.id)
    (h : c.backend = backendIPsec ↔ c'.backend = backendIPsec) (own : OwnershipRecord) :
    (sessionOf cfg c own).backend = (sessionOf cfg c' own).backend ∧
      (sessionOf cfg c own).ipsecPSK = (sessionOf cfg c' own).ipsecPSK := by
  by_cases hc : c.backend = backendIPsec
  · simp [sessionOf, hc, h.1 hc, id]
  · simp [sessionOf, hc, mt h.2 hc]

/-- No long poll of a client misses a change, as long as no backend is switched between the lookup
of a client and the version read of the same request. -/
theorem clientState_reflects (d : Deployment Unit ι) (stored : WellFormed d.store)
    (reach : d.start.Reaches (serverPool Unit ι) c) (kept : BackendKept c.world) {i : ι}
    {bearer id : String} {after : ℕ} (hreq : (d.requests i).2 = .clientState bearer id after)
    {st : ClientState} (said : Said c.world i (.clientState st)) :
    ClientStateReflects d c.world id st := by
  obtain ⟨e, he, rfl, ⟨⟩, ha⟩ := said
  obtain ⟨p, bearer', id', after', cl, hreq', hid, lookedUp, read, hgws, own, hown, hsess⟩ :=
    ((d.inv_of_reaches reach).answered e he () _ ha).2
  obtain ⟨-, rfl, -⟩ := Request.clientState.inj (hreq.symm.trans hreq')
  have hid := hid stored
  have path : Reflects c.world st.version fun s => ownershipIn s.1.mem id = some own := by
    rw [← hid]
    exact hown.reflects reach read
  obtain ⟨n, l, hn, hl, htid, hgot⟩ := lookedUp
  have behind := behind_of_versionRead reach read
  refine ⟨hgws.reflect reach read, ?_⟩
  obtain ⟨q, hq, hqt, hread⟩ := read
  obtain ⟨cl', hget, hb⟩ := kept p n q l _ id cl hq hread hn hl (htid.trans hqt.symm) hgot
  -- the store was well formed when the version was read
  obtain ⟨c₁, reach₁, hw₁, -⟩ := reach.past rfl hq
  have wf : WellFormed q.pre.1.mem := by
    have := (d.inv_of_reaches reach₁).wellFormed stored
    rwa [hw₁] at this
  obtain ⟨_, hdoc, hid', -⟩ := wf id _ hget
  cases hdoc
  refine ⟨cl', own, ⟨p, q, hq, behind, hget⟩, path, ?_⟩
  rw [hsess]
  exact ⟨rfl, rfl, rfl, sessionOf_backend_congr (hid.trans hid'.symm) hb.symm own⟩

end Polls

open Trial in
theorem clientState_reflects_moved : ∃ c, polls.start.Reaches (serverPool Unit (Fin 3)) c ∧
      ClientStateReflects polls c.world "7" ⟨2, config.network, moved, listed, {}⟩ := by
  obtain ⟨c, reach, said, same⟩ := Config.reaches_of_run_any (serverPool Unit (Fin 3))
    (turns [(2, 1), (1, 11), (2, 8)]) polls.start
    (fun c => heard c.world = [(1, .migrated moved), (2, .clientState ⟨2, config.network, moved, listed, {}⟩)] ∧
      ∀ q ∈ c.world.hist, ∀ l ∈ c.world.hist, l.tid = q.tid → ∀ x ∈ (got l.op l.res).toList,
        (readsVersion q.op q.res).isSome = true → q.pre.1.mem.get x.1 = x.2)
    (by decide)
  have kept : BackendKept c.world := by
    intro p n q l v id cl hq hread _ hl htid hgot
    refine ⟨cl, ?_, Iff.rfl⟩
    exact same q (List.mem_of_getElem? hq) l (List.mem_of_getElem? hl) htid
      (clientKey id, some (.client cl)) (by simp [hgot]) (by simp [hread])
  have told : Said c.world 2 (.clientState ⟨2, config.network, moved, listed, {}⟩) := said_of_mem (by simp [said])
  exact ⟨c, reach, clientState_reflects polls wellFormed_store reach kept (i := 2) rfl told⟩

namespace Trial

def switch : Deployment Unit (Fin 2) where
  cfg _ := config
  store := store
  requests
    | 0 => ((), .clientState "secret" "7" 1)
    | 1 => ((), .createSession "" (.ok { publicKey, secret := "secret", backend := backendIPsec }))

end Trial

open Trial in
/-- The poll is answered with the version of the switch and the backend from before it. -/
theorem clientState_misses_switch : WellFormed switch.store ∧ ∃ c, switch.start.Reaches (serverPool Unit (Fin 2)) c ∧
      Said c.world 0 (.clientState ⟨2, config.network, opened, listed, {}⟩) ∧
      ¬ ClientStateReflects switch c.world "7" ⟨2, config.network, opened, listed, {}⟩ := by
  obtain ⟨c, reach, said, put, bump, after⟩ := Config.reaches_of_run_any (serverPool Unit (Fin 2))
    (turns [(0, 1), (1, 9), (0, 8)]) switch.start
    (fun c => (0, Answer.clientState ⟨2, config.network, opened, listed, {}⟩) ∈ heard c.world ∧
      (∃ e ∈ (c.world.hist[5]? : Option (ServerEntry Unit (Fin 2))).toList, e.tid = 1 ∧ changes e.op e.res = true) ∧
      (∃ b ∈ c.world.hist, b.tid = 1 ∧ bumps b.op = true ∧ (b.post.2 ()).version ≤ 2) ∧
      ∀ e ∈ c.world.hist.drop 6,
        e.pre.1.mem.get (clientKey "7") = some (.client { client with backend := backendIPsec }))
    (by decide)
  refine ⟨wellFormed_store, c, reach, said_of_mem said, fun reflects => ?_⟩
  obtain ⟨cl, own, ⟨n, e, he, behind, hget⟩, -, -, -, -, hbackend, -⟩ := reflects.session
  obtain ⟨e', he', htid, hchange⟩ := put
  -- the state the answer's backend is from has the switch
  have hn : 5 < n := behind 5 e' (Option.mem_toList.1 he') hchange (htid ▸ bump)
  have hmem : e ∈ c.world.hist.drop 6 := by
    refine List.mem_of_getElem? (i := n - 6) ?_
    rw [List.getElem?_drop, Nat.add_sub_cancel' hn, he]
  obtain rfl := Doc.client.inj (Option.some.inj (hget.symm.trans (after e hmem)))
  change backendWireGuard = backendIPsec at hbackend
  exact absurd hbackend (by decide)

end Egressa
