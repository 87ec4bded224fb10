import Egressa.Controller.Handlers

/-!
# Every request keeps the contract

The handlers of `Server`, one triple each; `serve_triple` is their sum, and `inv_of_reaches` what
follows for every run of a deployment.
-/

namespace Egressa

open Conc

section Requests

variable {κ ι : Type} [DecidableEq κ] [DecidableEq ι] {d : Deployment κ ι} {i : ι}
  {P : ServerWorld κ ι → Prop} {k : κ}

omit [DecidableEq κ] [DecidableEq ι] in
theorem persistent_allOwned (cs : List ClientRecord) :
    Persistent fun w : ServerWorld κ ι => WellFormed d.store → ∀ c ∈ cs, Owned d w c.id :=
  fun w j o r s' h hwf c hc => persistent_owned c.id w j o r s' (h hwf c hc)

section Bodies

variable (hP : Local d i P) (hold : ∀ w, P w → Holding d i w)

include hP

theorem gatewaysLocked_triple : Handles d i P (gateways memStore) (fun _ => P) :=
  (gateways_triple hP (N := 0) fun _ _ => Nat.zero_le _).fst

include hold

theorem answer_triple {a : Answer} (ok : ∀ w, Inv d w → P w → AnswerOK d w i k a) :
    Handles d i P (.ret a) (Answered d i k) :=
  Triple.ret hP.stable fun w inv hw => ⟨hold w hw, ok w inv hw⟩

theorem fail_triple (code : ℕ) (text : String) : Handles d i P (.ret (.error code text none)) (Answered d i k) :=
  answer_triple hP hold fun w _ _ => answerOK_error w k code text

/-! ## Gateways -/

theorem registerGatewayBody_triple (cfg : ServerConfig) (id : String) (req : RegisterGatewayRequest) :
    Handles d i P (registerGatewayBody cfg memStore k id req) (Answered d i k) := by
  have registered : ∀ nodeIP, Handles d i P
      (do seenLocked k id; return .registered nodeIP cfg.network) (Answered d i k) := fun nodeIP =>
    Triple.bind (seenLocked_triple hP hold k id) fun _ =>
      answer_triple hP hold fun w _ _ => ⟨by simp [Answer.sessions], trivial⟩
  refine Triple.bind (gatewaysLocked_triple hP) fun res => ?_
  rcases res with e | gws
  · exact fail_triple hP hold 500 e
  · dsimp only
    split
    · exact fail_triple hP hold 503 _
    · split_ifs
      · refine Triple.bind (putGateway_triple hP hold id _) fun res => ?_
        have hP' : Local d i fun w => P w ∧ res = none := hP.learn fun _ _ _ _ _ h => h
        cases res with
        | some e => exact fail_triple hP' (fun w h => hold w h.1) 500 e
        | none =>
          refine Triple.pre (Triple.bind (triple_field hP hold (by simp) (by simp)) fun _ => ?_) fun _ _ h => h.1
          exact registered _
      · exact registered _

theorem sweepGateways_triple (cfg : ServerConfig) (time : ℕ) (lastSeen : AList fun _ : String => ℕ)
    (l : List (Sigma fun _ : String => Bool)) :
    Handles d i P (sweepGateways cfg k time lastSeen l) (fun _ => P) := by
  induction l with
  | nil => exact hP.give _
  | cons p rest ih =>
    obtain ⟨id, alive⟩ := p
    rw [sweepGateways]
    split_ifs
    · refine Triple.bind (triple_field hP hold (by simp) (by simp)) fun _ => ?_
      exact Triple.bind (triple_field hP hold (by simp) (by simp)) fun _ => ih
    · exact ih

/-! ## Sessions -/

section

variable (cfg : ServerConfig)

theorem moveToBackend_triple (gws : List Gateway) (c : ClientRecord) (cur : Session) (backend : String) :
    Handles d i P (moveToBackend cfg memStore k gws c cur backend) (fun _ => P) := by
  rw [moveToBackend]
  split_ifs
  · refine Triple.bind (triple_field hP hold (by simp) (by simp)) fun q => ?_
    dsimp only
    split
    · exact hP.give _
    · refine Triple.bind (setIfNewer_triple hP hold _) fun res => ?_
      exact (hP.give _).left
  · exact hP.give _

theorem switchBackendLocked_triple (c : ClientRecord) (backend : String)
    (owned : ∀ w, P w → WellFormed d.store → Owned d w c.id) :
    Handles d i P (switchBackendLocked cfg memStore k c backend) (fun _ => P) := by
  have give (e : Option String) : Handles d i P (.ret e) (fun _ => P) := hP.give _
  refine Triple.bind ((session_triple hP (N := 0) (fun _ _ => Nat.zero_le _) cfg c (O := False)
    fun _ _ h => h.elim).fst) fun res => ?_
  rcases res with e | cur
  · exact give e
  refine Triple.bind (gatewaysLocked_triple hP) fun res => ?_
  rcases res with e | gws
  · exact give e
  refine Triple.bind (moveToBackend_triple hP hold cfg gws c cur backend) fun err => ?_
  rcases err with _ | e
  · refine Triple.bind ((putClient_triple hP hold { c with backend } owned).fst) fun err => ?_
    rcases err with _ | e
    · exact Triple.bind (triple_field hP hold (by simp) (by simp)) fun _ => give none
    · exact give e
  · exact give e

theorem answerCreated_triple (c : ClientRecord) (secret : String) :
    Handles d i P (answerCreated cfg memStore c secret) (Answered d i k) := by
  refine Triple.bind (session_triple hP (N := 0) (fun _ _ => Nat.zero_le _) cfg c (O := False)
    fun _ _ h => h.elim) fun res => ?_
  rcases res with e | sess
  · exact (fail_triple hP hold 500 e).left
  · refine (answer_triple (hP.learn (persistent_named (d := d) sess))
      (fun w h => hold w h.1) fun w _ h => ⟨?_, trivial⟩).pre fun w _ h => ⟨h.1, (h.2.1 sess rfl).2⟩
    simpa [Answer.sessions] using h.2

theorem reopenSession_triple (req : CreateSessionRequest) (backend : String)
    (c : ClientRecord) (owned : ∀ w, P w → WellFormed d.store → Owned d w c.id) :
    Handles d i P (reopenSession cfg memStore k req backend c) (Answered d i k) := by
  rw [reopenSession]
  split_ifs
  · exact fail_triple hP hold 409 _
  · refine Triple.bind (switchBackendLocked_triple hP hold cfg c backend owned) fun err => ?_
    rcases err with _ | e
    · exact answerCreated_triple hP hold cfg _ req.secret
    · exact fail_triple hP hold 503 e
  · exact answerCreated_triple hP hold cfg _ req.secret

theorem openSession_triple (req : CreateSessionRequest) (backend : String) (cs : List ClientRecord) :
    Handles d i P (openSession cfg memStore k req backend cs) (Answered d i k) := by
  refine Triple.bind (gatewaysLocked_triple hP) fun res => ?_
  rcases res with e | gws
  · exact fail_triple hP hold 500 e
  refine Triple.bind (triple_field hP hold (by simp) (by simp)) fun q => ?_
  obtain ⟨alive, seen⟩ := q
  dsimp only
  generalize pickPath cfg.quote gws alive req.egress backend = path
  rcases path with e | ⟨access, egress⟩
  · exact fail_triple hP hold 503 e
  generalize allocate cfg.network.clientSubnet (cs.map ClientRecord.virtualIP) = vip
  rcases vip with e | vip
  · exact fail_triple hP hold 503 e
  refine Triple.bind (triple_field hP hold (by simp) (by simp)) fun res => ?_
  rcases res with e | id
  · exact fail_triple hP hold 500 e
  refine Triple.bind (triple_field hP hold (by simp) (by simp)) fun res => ?_
  rcases res with e | secret
  · exact fail_triple hP hold 500 e
  refine Triple.bind (setIfNewer_triple hP hold ⟨id, access, egress, 1⟩) fun res => ?_
  rcases res with ⟨applied, _ | e⟩
  · have hP' := hP.learn (persistent_owned (d := d) id)
    let c : ClientRecord := ⟨id, req.publicKey, vip, cfg.hashSecret secret, backend⟩
    refine Triple.pre (Triple.bind (putClient_triple hP' (fun w h => hold w h.1) c
      fun w h _ => h.2) fun err => ?_) fun w _ h => ⟨h.1, h.2.1 rfl⟩
    rcases err with _ | e
    · refine Triple.pre (Triple.bind (triple_field hP hold (by simp) (by simp)) fun _ => ?_) fun w _ h => h.1.1
      exact answerCreated_triple hP hold cfg c secret
    · exact (fail_triple hP hold 500 e).left.left
  · exact (fail_triple hP hold 500 e).left

theorem createSessionBody_triple (req : CreateSessionRequest) (backend : String) :
    Handles d i P (createSessionBody cfg memStore k req backend) (Answered d i k) := by
  refine Triple.bind (clients_triple hP (N := 0) fun _ _ => Nat.zero_le _) fun res => ?_
  rcases res with e | cs
  · exact (fail_triple hP hold 500 e).left
  have hP' := hP.learn (persistent_allOwned (d := d) cs)
  refine Triple.pre ?_ fun w _ h => (⟨h.1, fun hwf => h.2.2 hwf cs rfl⟩ : P w ∧ _)
  dsimp only
  split
  · rename_i c hc
    exact reopenSession_triple hP' (fun w h => hold w h.1) cfg req backend c
      fun w h hwf => h.2 hwf c (List.mem_of_find?_eq_some hc)
  · exact (openSession_triple hP hold cfg req backend cs).left

theorem migrateBody_triple {bearer id : String} {req : MigrateRequest}
    (hreq : (d.requests i).2 = .migrate bearer id (.ok req)) {c : ClientRecord}
    (hid : WellFormed d.store → c.id = id) :
    Handles d i P (migrateBody cfg memStore k req c) (Answered d i k) := by
  have now : Handles d i P (session cfg memStore c)
      (fun res w => P w ∧ ∀ sess, res = .ok sess → sess.id = c.id ∧ Named d w sess) := by
    refine (session_triple hP (N := 0) (fun _ _ => Nat.zero_le _) cfg c (O := False)
      fun _ _ h => h.elim).post fun res w _ h => ⟨h.1, fun sess hs => ?_⟩
    obtain ⟨⟨own, -, rfl⟩, named⟩ := h.2.1 sess hs
    exact ⟨rfl, named⟩
  have conflict (sess : Session) : Handles d i (fun w => P w ∧ Named d w sess)
      (.ret (.error 409 "the session is at another epoch" (some sess))) (Answered d i k) :=
    answer_triple (hP.learn (persistent_named sess)) (fun w h => hold w h.1)
      fun w _ h => answerOK_conflict k 409 _ h.2
  refine Triple.bind (gatewaysLocked_triple hP) fun res => ?_
  rcases res with e | gws
  · exact fail_triple hP hold 500 e
  dsimp only
  split_ifs
  · exact fail_triple hP hold 400 _
  · exact fail_triple hP hold 400 _
  refine Triple.bind now fun res => ?_
  rcases res with e | cur
  · exact (fail_triple hP hold 500 e).left
  dsimp only
  split_ifs with hep
  · exact (conflict cur).pre fun w _ h => ⟨h.1, (h.2 cur rfl).2⟩
  intro w inv hw
  have hcur : cur.id = c.id := (hw.2 cur rfl).1
  have hep : req.epoch = cur.epoch := not_not.1 hep
  refine Triple.bind (setIfNewer_triple hP hold ⟨c.id, req.access, req.egress, cur.epoch + 1⟩)
    (fun res => ?_) w inv hw.1
  rcases res with ⟨applied, _ | e⟩
  · cases applied with
    | false =>
      refine Triple.pre (Triple.bind now fun res => ?_) fun w _ h => h.1
      rcases res with e | sess
      · exact (fail_triple hP hold 409 _).left
      · exact (conflict sess).pre fun w _ h => ⟨h.1, (h.2 sess rfl).2⟩
    | true =>
      let mine (w : ServerWorld κ ι) : Prop := ∃ e ∈ w.hist, e.tid = i ∧
        commits c.id e = some ⟨c.id, req.access, req.egress, cur.epoch + 1⟩
      have hmine : Persistent mine := by
        rintro w j o r s' ⟨e, he, h⟩
        exact ⟨e, List.mem_append_left _ he, h⟩
      have hP' := hP.learn hmine
      have hold' : ∀ w, P w ∧ mine w → Holding d i w := fun w h => hold w h.1
      refine Triple.pre (Triple.bind (triple_field hP' hold' (by simp) (by simp)) fun _ => ?_)
        fun w _ h => ⟨h.1, h.2.2 rfl⟩
      refine answer_triple hP' hold' fun w inv h => ⟨?_, bearer, id, req, hreq, ?_, rfl, rfl, ?_, ?_⟩
      · obtain ⟨e, he, -, hc⟩ := h.2
        intro sess hs
        obtain rfl := List.mem_singleton.1 hs
        have hc : commits cur.id e = some ⟨c.id, req.access, req.egress, cur.epoch + 1⟩ := by rw [hcur, hc]
        exact ⟨_, List.mem_append_right _ (List.mem_filterMap.2 ⟨e, he, hc⟩), rfl, rfl, rfl⟩
      · exact fun hwf => hcur.trans (hid hwf)
      · rw [hep]
      · rw [hep, hcur]
        exact h.2
  · exact (fail_triple hP hold 500 e).left

end

end Bodies

/-! ## Long polls -/

theorem waitVersion_triple (hP : Local d i P) (after : ℕ) : Handles d i P (waitVersion k after) (fun _ => P) := by
  refine Triple.iterate hP.stable (fun _ => hP.stable) fun _ => ?_
  refine Triple.bind (triple_read_any (fun _ => ⟨rfl, rfl, rfl, rfl⟩) hP) fun v => ?_
  split_ifs
  · exact Triple.ret hP.stable fun _ _ h => h
  · refine Triple.bind (triple_read_any (fun _ => ⟨rfl, rfl, rfl, rfl⟩) hP) fun woken => ?_
    split_ifs <;> exact Triple.ret hP.stable fun _ _ h => h

def ReadAt (i : ι) (k : κ) (v p : ℕ) (w : ServerWorld κ ι) : Prop := VersionRead w i k p v ∧ p + 1 ≤ w.hist.length

omit [DecidableEq κ] [DecidableEq ι] in
theorem persistent_readAt (i : ι) (k : κ) (v p : ℕ) : Persistent fun w : ServerWorld κ ι => ReadAt i k v p w := by
  intro w j o r s' h
  refine ⟨persistent_versionRead i k p v w j o r s' h.1, ?_⟩
  rw [length_hist_push]
  exact Nat.le_succ_of_le h.2

theorem snapshot_triple (hP : Local d i P) {G : ℕ → ServerWorld κ ι → Prop}
    (hG : ∀ p, Persistent (G p)) (now : ∀ w, P w → G w.hist.length w) :
    Handles d i P (snapshot memStore k) (fun res w => P w ∧ ∀ v gws, res = .ok (v, gws) →
        ∃ p, (ReadAt i k v p w ∧ G p w) ∧ GatewaysFrom w k (p + 1) gws) := by
  have read : Handles d i P (readVersion k) (fun v w => P w ∧ ∃ p, ReadAt i k v p w ∧ G p w) := by
    refine triple_read (o := .inr (k, .version)) (f := fun v : ℕ => v) (fun _ => ⟨rfl, rfl, rfl, rfl⟩) hP ?_ ?_
    · rintro v w j o r s' ⟨p, h, hGp⟩
      exact ⟨p, persistent_readAt i k v p w j o r s' h, hG p w j o r s' hGp⟩
    · intro w ω v s' _ hw _
      refine ⟨w.hist.length, ⟨⟨_, hist_push_self w i _ v s', rfl, rfl⟩, ?_⟩, hG _ w i _ _ _ (now w hw)⟩
      exact (length_hist_push w i _ v s').ge
  refine Triple.bind read fun v => ?_
  refine Triple.pre (R := fun w => ∃ p, P w ∧ ReadAt i k v p w ∧ G p w) (Triple.exists fun p => ?_)
    fun w _ ⟨hw, p, h⟩ => ⟨p, hw, h⟩
  have hP' : Local d i fun w => P w ∧ ReadAt i k v p w ∧ G p w :=
    hP.learn ((persistent_readAt i k v p).and (hG p))
  refine Triple.bind (gateways_triple hP' (N := p + 1) fun w h => h.2.1.2) fun res => ?_
  rcases res with e | stored
  · exact Triple.ret (hP'.stable.and (persistent_seen _ _).stable) fun w _ h => ⟨h.1.1, by simp⟩
  · have hP'' := hP'.learn (persistent_seen (p + 1)
      fun s : ServerState κ ι => decodeGateways (s.1.mem.list gatewayKeyPrefix) = .ok stored)
    refine Triple.bind (aliveFlags_triple hP'' (N := p + 1) (fun w h => h.1.2.1.2) k) fun alive => ?_
    refine Triple.ret (hP''.stable.and (persistent_seen _ _).stable) fun w _ h => ⟨h.1.1.1, ?_⟩
    intro v' gws hres
    cases hres
    exact ⟨p, h.1.1.2, stored, alive, h.1.2, h.2, rfl⟩

theorem listGateways_triple (hP : Local d i P) : Handles d i P (listGateways memStore k) (fun _ _ => True) := by
  refine Triple.bind ((snapshot_triple hP (G := fun _ _ => True) (fun _ _ _ _ _ _ h => h)
    fun _ _ => trivial).fst) fun res => ?_
  rcases res with e | ⟨v, gws⟩
  · exact error_triple hP k 500 e
  · exact (respond_triple hP fun w _ _ => ⟨by simp [Answer.sessions], trivial⟩).post fun _ _ _ _ => trivial

omit [DecidableEq κ] [DecidableEq ι] in
theorem persistent_allSessions (cfg : ServerConfig) (N : ℕ) (cs : List ClientRecord) (ss : List Session) :
    Persistent fun w : ServerWorld κ ι => (∀ sess ∈ ss, Named d w sess) ∧
      (WellFormed d.store → List.Forall₂ (SessionFrom cfg w N) cs ss) := by
  intro w j o r s' h
  refine ⟨fun sess hs => persistent_named sess w j o r s' (h.1 sess hs), fun hwf => ?_⟩
  exact (h.2 hwf).imp fun c sess => persistent_sessionFrom cfg N c sess w j o r s'

theorem sessions_triple (cfg : ServerConfig) {N : ℕ} (cs : List ClientRecord) (hP : Local d i P)
    (hN : ∀ w, P w → N ≤ w.hist.length)
    (owned : ∀ w, P w → WellFormed d.store → ∀ c ∈ cs, Owned d w c.id) :
    Handles d i P (sessions cfg memStore cs) (fun ss w => P w ∧ (∀ sess ∈ ss, Named d w sess) ∧
        (WellFormed d.store → List.Forall₂ (SessionFrom cfg w N) cs ss)) := by
  induction cs generalizing P with
  | nil => exact Triple.ret hP.stable fun w _ h => ⟨h, by simp, fun _ => .nil⟩
  | cons c cs ih =>
    let first (res : Except String Session) (w : ServerWorld κ ι) : Prop :=
      (∀ sess, res = .ok sess → SessionFrom cfg w N c sess ∧ Named d w sess) ∧
        (WellFormed d.store → ∃ sess, res = .ok sess)
    have hfirst : ∀ res, Persistent (first res) := by
      intro res w j o r s' h
      refine ⟨fun sess hs => ?_, h.2⟩
      exact ⟨persistent_sessionFrom cfg N c sess w j o r s' (h.1 sess hs).1,
        persistent_named sess w j o r s' (h.1 sess hs).2⟩
    refine Triple.bind (session_triple hP hN cfg c fun w hw hwf => owned w hw hwf c (by simp)) fun res => ?_
    have hP' : Local d i fun w => P w ∧ first res w := hP.learn (hfirst res)
    refine Triple.bind (ih hP' (fun w h => hN w h.1)
      fun w h hwf c' hc' => owned w h.1 hwf c' (by simp [hc'])) fun ss => ?_
    refine Triple.ret (hP'.stable.and (persistent_allSessions cfg N cs ss).stable) fun w _ h => ⟨h.1.1, ?_⟩
    cases res with
    | error e =>
      refine ⟨h.2.1, fun hwf => ?_⟩
      obtain ⟨sess, hs⟩ := h.1.2.2 hwf
      cases hs
    | ok sess =>
      obtain ⟨hfrom, hnamed⟩ := h.1.2.1 sess rfl
      refine ⟨fun s hs => ?_, fun hwf => .cons hfrom (h.2.2 hwf)⟩
      rcases List.mem_cons.1 hs with rfl | hs
      · exact hnamed
      · exact h.2.1 s hs

theorem gatewayState_triple (hP : Local d i P) (after : ℕ) : Handles d i P (gatewayState (d.cfg k) memStore k after)
      (fun _ _ => True) := by
  refine Triple.bind (waitVersion_triple hP after) fun _ => ?_
  refine Triple.bind (snapshot_triple hP (G := fun _ _ => True) (fun _ _ _ _ _ _ h => h)
    fun _ _ => trivial) fun res => ?_
  rcases res with e | ⟨v, gws⟩
  · exact (error_triple hP k 500 e).left
  refine Triple.pre (R := fun w => ∃ p, P w ∧ ReadAt i k v p w ∧ GatewaysFrom w k (p + 1) gws)
    (Triple.exists fun p => ?_) fun w _ h => (h.2 v gws rfl).imp fun p hp => ⟨h.1, hp.1.1, hp.2⟩
  have hP' := hP.learn ((persistent_readAt i k v p).and (persistent_gatewaysFrom k (p + 1) gws))
  refine Triple.bind (clients_triple hP' (N := p + 1) fun w h => h.2.1.2) fun res => ?_
  rcases res with e | cs
  · exact (error_triple hP k 500 e).left.left
  have hcs := (persistent_seen (p + 1)
    fun s : ServerState κ ι => decodeClients (s.1.mem.list clientKeyPrefix) = .ok cs).and
    (persistent_allOwned (d := d) cs)
  have hP'' := hP'.learn hcs
  refine Triple.pre (Triple.bind (sessions_triple (d.cfg k) cs hP'' (N := p + 1)
    (fun w h => h.1.2.1.2) fun w h => h.2.2) fun ss => ?_)
    fun w _ h => ⟨h.1, h.2.1, fun hwf => h.2.2 hwf cs rfl⟩
  refine (respond_triple (hP''.learn (persistent_allSessions (d.cfg k) (p + 1) cs ss))
    fun w _ h => ?_).post fun _ _ _ _ => trivial
  exact ⟨h.2.1, p, h.1.1.2.1.1, h.1.1.2.2, cs, h.1.2.1, h.2.2⟩

/-! ## Requests of a session -/

omit [DecidableEq κ] [DecidableEq ι] in
theorem persistent_lookedUp_now (i : ι) (id : String) (c : ClientRecord) :
    Persistent fun w : ServerWorld κ ι => LookedUp w i w.hist.length id c := by
  intro w j o r s' h
  obtain ⟨n, e, hn, h⟩ := persistent_lookedUp i _ id c w j o r s' h
  exact ⟨n, e, hn.trans_le ((length_hist_push w j o r s').symm ▸ Nat.le_succ _), h⟩

theorem sessionAuth_triple (hP : Local d i P) (cfg : ServerConfig) (id bearer : String)
    {h : ClientRecord → Handler κ Answer}
    (hh : ∀ c, (WellFormed d.store → c.id = id) → Handles d i
      (fun w => P w ∧ LookedUp w i w.hist.length id c) (h c) (fun _ _ => True)) :
    Handles d i P (sessionAuth cfg memStore k id bearer h) (fun _ _ => True) := by
  have lookup : Handles d i P (clientByID memStore id) (fun res w => P w ∧ ∀ c, res = .ok (some c) →
        (WellFormed d.store → c.id = id) ∧ LookedUp w i w.hist.length id c) := by
    refine triple_read (f := decodeClient) (o := .inl (.memGet (clientKey id)))
      (fun _ => ⟨rfl, rfl, rfl, rfl⟩) hP ?_ ?_
    · intro res w j o r s' h c hc
      exact ⟨(h c hc).1, persistent_lookedUp_now i id c w j o r s' (h c hc).2⟩
    · intro w ω r s' inv hw hex c hc
      cases hex
      have hget := get_of_decodeClient hc
      refine ⟨fun hwf => ?_, w.hist.length, _, ?_, hist_push_self w i _ _ _, rfl, ?_⟩
      · obtain ⟨c', hc', hid, -⟩ := inv.wellFormed hwf id _ hget
        rw [Doc.client.inj hc', hid]
      · exact (length_hist_push w i _ _ _).symm ▸ Nat.lt_succ_self _
      · exact congrArg (fun doc => some (clientKey id, doc)) hget
  refine Triple.bind lookup fun res => ?_
  rcases res with e | _ | c
  · exact (error_triple hP k 500 e).left
  · exact (error_triple hP k 401 _).left
  · dsimp only
    split_ifs
    · exact (error_triple hP k 401 _).left
    · exact fun w inv hw => hh c (hw.2 c rfl).1 w inv ⟨hw.1, (hw.2 c rfl).2⟩

theorem clientState_triple (hP : Local d i P) {bearer id : String} {after : ℕ}
    (hreq : (d.requests i).2 = .clientState bearer id after) {c : ClientRecord}
    (hid : WellFormed d.store → c.id = id) :
    Handles d i (fun w => P w ∧ LookedUp w i w.hist.length id c)
      (clientState (d.cfg k) memStore k after c) (fun _ _ => True) := by
  have hPl := hP.learn (persistent_lookedUp_now i id c)
  refine Triple.bind (waitVersion_triple hPl after) fun _ => ?_
  refine Triple.bind (snapshot_triple hPl (G := fun p w => LookedUp w i p id c)
    (fun p => persistent_lookedUp i p id c) fun w h => h.2) fun res => ?_
  rcases res with e | ⟨v, gws⟩
  · exact (error_triple hP k 500 e).left.left
  refine Triple.pre (R := fun w => ∃ p, P w ∧ (ReadAt i k v p w ∧ LookedUp w i p id c) ∧
    GatewaysFrom w k (p + 1) gws) (Triple.exists fun p => ?_)
    fun w _ h => (h.2 v gws rfl).imp fun p hp => ⟨h.1.1, hp⟩
  have hP' := hP.learn (((persistent_readAt i k v p).and (persistent_lookedUp i p id c)).and
    (persistent_gatewaysFrom k (p + 1) gws))
  refine Triple.bind (session_triple hP' (N := p + 1) (fun w h => h.2.1.1.2) (d.cfg k) c (O := False)
    fun _ _ h => h.elim) fun res => ?_
  rcases res with e | sess
  · exact (error_triple hP k 500 e).left.left
  have hP'' := hP'.learn ((persistent_sessionFrom (d.cfg k) (p + 1) c sess).and
    (persistent_named (d := d) sess))
  refine Triple.pre (Triple.bind (policyGet_triple hP'' (N := p + 1) fun w h => h.1.2.1.1.2) fun res => ?_)
    fun w _ h => ⟨h.1, h.2.1 sess rfl⟩
  rcases res with e | pol
  · exact error_triple hP'' k 500 e
  refine (respond_triple hP'' fun w _ h => ?_).post fun _ _ _ _ => trivial
  exact ⟨by simpa [Answer.sessions] using h.2.2, p, bearer, id, after, c, hreq, hid, h.1.2.1.2,
    h.1.2.1.1.1, h.1.2.2, h.2.1⟩

/-! ## Every request -/

section

variable (hk : (d.requests i).1 = k)
include hk

theorem locked_fresh_triple {body : Handler κ Answer} (h : Handles d i (Holding d i) body (Answered d i k)) :
    Handles d i (Fresh i) (locked k body) (fun _ _ => True) :=
  (locked_triple hk (F := fun _ => True) (fun _ _ _ _ _ h => h) (h.left)).pre
    fun _ _ h => ⟨h, trivial⟩

theorem registerGateway_triple (cfg : ServerConfig) (id : String) (body : Except String RegisterGatewayRequest) :
    Handles d i (Fresh i) (registerGateway cfg memStore k id body) (fun _ _ => True) := by
  unfold registerGateway
  split_ifs
  · exact error_triple local_fresh k 400 _
  rcases body with e | req
  · exact error_triple local_fresh k 400 _
  dsimp only
  split_ifs
  · exact error_triple local_fresh k 400 _
  · exact error_triple local_fresh k 400 _
  · exact error_triple local_fresh k 400 _
  · exact locked_fresh_triple hk (registerGatewayBody_triple local_holding (fun _ h => h) cfg id req)

theorem reportLinks_triple (id : String) (body : Except String Unit) :
    Handles d i (Fresh i) (reportLinks memStore k id body) (fun _ _ => True) := by
  rcases body with e | ⟨⟩
  · exact error_triple local_fresh k 400 _
  refine locked_fresh_triple hk ?_
  refine Triple.bind ((triple_get local_holding (N := 0) (fun _ _ => Nat.zero_le _) (gatewayKey id)
    fun doc => (.ok doc : Except String (Option Doc))).fst) fun res => ?_
  rcases res with e | _ | doc
  · exact fail_triple local_holding (fun _ h => h) 404 _
  · exact fail_triple local_holding (fun _ h => h) 404 _
  · refine Triple.bind (seenLocked_triple local_holding (fun _ h => h) k id) fun _ => ?_
    exact answer_triple local_holding (fun _ h => h) fun w _ _ => ⟨by simp [Answer.sessions], trivial⟩

theorem createSession_triple (cfg : ServerConfig) (bearer : String) (body : Except String CreateSessionRequest) :
    Handles d i (Fresh i) (createSession cfg memStore k bearer body) (fun _ _ => True) := by
  unfold createSession
  split_ifs
  · exact error_triple local_fresh k 401 _
  rcases body with e | req
  · exact error_triple local_fresh k 400 _
  dsimp only
  split_ifs
  · exact error_triple local_fresh k 400 _
  · exact error_triple local_fresh k 400 _
  · exact error_triple local_fresh k 400 _
  · exact locked_fresh_triple hk (createSessionBody_triple local_holding (fun _ h => h) cfg req _)

theorem migrate_triple (cfg : ServerConfig) {bearer id : String}
    {body : Except String MigrateRequest} (hreq : (d.requests i).2 = .migrate bearer id body)
    {c : ClientRecord} (hid : WellFormed d.store → c.id = id) :
    Handles d i (Fresh i) (migrate cfg memStore k body c) (fun _ _ => True) := by
  rcases body with e | req
  · exact error_triple local_fresh k 400 _
  · exact locked_fresh_triple hk (migrateBody_triple local_holding (fun _ h => h) cfg hreq hid)

theorem sweep_triple (cfg : ServerConfig) : Handles d i (Fresh i) (sweep cfg k) (fun _ _ => True) := by
  have held : Local d i (Holding d i) := local_holding
  refine Triple.bind (((lock_triple hk (F := fun _ => True) (fun _ _ _ _ _ h => h)).pre
    fun _ _ h => ⟨h, trivial⟩).fst) fun _ => ?_
  refine Triple.bind (triple_field held (fun _ h => h) (by simp) (by simp)) fun time => ?_
  refine Triple.bind (triple_field held (fun _ h => h) (by simp) (by simp)) fun q => ?_
  obtain ⟨alive, lastSeen⟩ := q
  refine Triple.bind (sweepGateways_triple held (fun _ h => h) cfg time lastSeen alive.entries) fun _ => ?_
  exact unlock_triple held k

end

theorem serve_triple : Handles d i (Fresh i)
      (serve (d.cfg (d.requests i).1) memStore (d.requests i).1 (d.requests i).2) (fun _ _ => True) := by
  rcases hreq : (d.requests i).2 with ⟨bearer, id, body⟩ | ⟨bearer, id, body⟩ | ⟨bearer, after⟩ |
    bearer | ⟨bearer, body⟩ | ⟨bearer, id, after⟩ | ⟨bearer, id, body⟩ | _
  · rw [serve, gatewayAuth]
    split_ifs
    · exact error_triple local_fresh _ 401 _
    · exact registerGateway_triple rfl _ id body
  · rw [serve, gatewayAuth]
    split_ifs
    · exact error_triple local_fresh _ 401 _
    · exact reportLinks_triple rfl id body
  · rw [serve, gatewayAuth]
    split_ifs
    · exact error_triple local_fresh _ 401 _
    · exact gatewayState_triple local_fresh after
  · rw [serve, clientAuth]
    split_ifs
    · exact error_triple local_fresh _ 401 _
    · exact listGateways_triple local_fresh
  · exact createSession_triple rfl _ bearer body
  · exact sessionAuth_triple local_fresh _ id bearer fun c hid => clientState_triple local_fresh hreq hid
  · exact sessionAuth_triple local_fresh _ id bearer fun c hid =>
      (migrate_triple rfl _ hreq hid).left
  · exact Triple.bind (sweep_triple rfl _) fun _ =>
      Triple.done _

end Requests

/-! ## Runs -/

section Runs

variable {κ ι : Type} [DecidableEq κ] [DecidableEq ι]

def Deployment.start (d : Deployment κ ι) : Config ι (HandlerSig κ) (ServerState κ ι) Answer where
  pool i := serve (d.cfg (d.requests i).1) memStore (d.requests i).1 (d.requests i).2
  world := ⟨({ mem := d.store }, fun _ => {}), []⟩

/-- The invariant along every run. -/
theorem Deployment.inv_of_reaches (d : Deployment κ ι) {c : Config ι (HandlerSig κ) (ServerState κ ι) Answer}
    (h : d.start.Reaches (serverPool κ ι) c) : Inv d c.world := by
  have start : Inv d d.start.world := by
    refine ⟨Ledger.init d.start.world.st, fun h => h, ?_, .nil, ?_⟩
    · exact fun e he => absurd he List.not_mem_nil
    · exact fun e he => absurd he List.not_mem_nil
  have fresh (i : ι) : Fresh i d.start.world := fun e he => absurd he List.not_mem_nil
  have sound : Sound (serverContract d) (serverPool κ ι) (fun _ _ _ => True) d.start :=
    ⟨start, fun i => serve_triple d.start.world start (fresh i)⟩
  exact (sound.reaches h).inv

end Runs

end Egressa
