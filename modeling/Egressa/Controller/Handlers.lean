import Egressa.Controller.Contract

/-!
# The handlers keep the contract

One triple for each operation a handler is made of, then one for each handler.  An assertion `P` of the thread is
carried along (`Local`), and every read adds what was read, with a bound on its position.
-/

namespace Egressa

open Conc

section Quiet

variable {κ : Type}

/-- An operation that neither writes nor makes news. -/
structure Quiet (o : (HandlerSig κ).Op) (r : (HandlerSig κ).Res o) : Prop where
  written : written o r = none
  marks : (changes o r || bumps o) = false
  unlocks : unlocks o = false
  answers : answers o = none

theorem Peeks.quiet {key : String} {o : (HandlerSig κ).Op}
    {r : (HandlerSig κ).Res o} (h : Peeks key o r) : Quiet o r := by
  have hw := h.written_eq
  cases o with
  | inr x => cases h
  | inl o => exact ⟨hw, by simp [changes, bumps, hw], rfl, rfl⟩

theorem quiet_of_written {o : (HandlerSig κ).Op}
    {r : (HandlerSig κ).Res o} {p : String × Doc} (h : written o r = some p) :
    unlocks o = false ∧ answers o = none := by
  cases o with
  | inr x => cases h
  | inl o => exact ⟨rfl, rfl⟩

end Quiet

section Rules

variable {κ ι : Type} [DecidableEq κ] [DecidableEq ι] {d : Deployment κ ι} {i : ι} {P : ServerWorld κ ι → Prop}

variable {o : (HandlerSig κ).Op}

theorem Inv.push_quiet {w : ServerWorld κ ι} (inv : Inv d w) {ω : Choice} {r : (HandlerSig κ).Res o}
    {s' : ServerState κ ι} (hex : (serverPool κ ι).exec ω i o w.st = some (r, s')) (q : Quiet o r) :
    Inv d (w.push i o r s') :=
  inv.push_silent hex q.written (fun h => by simp [q.marks] at h) (fun k a h => by simp [q.answers] at h)

theorem triple_read (q : ∀ r, Quiet o r) (hP : Local d i P)
    {α : Type} {f : (HandlerSig κ).Res o → α} {F : α → ServerWorld κ ι → Prop} (hF : ∀ a, Persistent (F a))
    (learn : ∀ w ω r s', Inv d w → P w → (serverPool κ ι).exec ω i o w.st = some (r, s') →
      F (f r) (w.push i o r s')) :
    Handles d i P (.op o fun r => .ret (f r)) (fun a w => P w ∧ F a w) := by
  refine Triple.op hP.stable (R := fun r w => P w ∧ F (f r) w) ?_ fun r => ?_
  · intro w ω r s' inv hw hex
    exact ⟨trivial, inv.push_quiet hex (q r), hP.own w ω o r s' hex (q r).unlocks hw, learn w ω r s' inv hw hex⟩
  · exact Triple.ret (hP.stable.and (hF (f r)).stable) fun _ _ h => h

theorem triple_read_any (q : ∀ r, Quiet o r) (hP : Local d i P) {α : Type} {f : (HandlerSig κ).Res o → α} :
    Handles d i P (.op o fun r => .ret (f r)) (fun _ => P) :=
  (triple_read q hP (F := fun _ _ => True) (fun _ _ _ _ _ _ h => h) fun _ _ _ _ _ _ _ => trivial).fst

omit [DecidableEq κ] [DecidableEq ι] in
theorem seen_push (w : ServerWorld κ ι) {N : ℕ} (hN : N ≤ w.hist.length)
    (o : (HandlerSig κ).Op) (r : (HandlerSig κ).Res o)
    (s' : ServerState κ ι) {φ : ServerState κ ι → Prop} (h : φ w.st) : Seen (w.push i o r s') N φ :=
  ⟨w.hist.length, ⟨i, o, r, w.st, s'⟩, hN, hist_push_self w i o r s', h⟩

section Reads

variable {N : ℕ} (hP : Local d i P) (hN : ∀ w, P w → N ≤ w.hist.length)

include hP hN

theorem triple_list {α : Type} (pfx : String) (f : List (String × Doc) → α) :
    Handles d i P (.op (.inl (.memList pfx)) fun r => .ret (f r))
      (fun a w => P w ∧ Seen w N fun s => f (s.1.mem.list pfx) = a) := by
  refine triple_read (fun _ => ⟨rfl, rfl, rfl, rfl⟩) hP (fun a => persistent_seen _ _) ?_
  intro w ω r s' _ hw hex
  cases hex
  exact seen_push w (hN w hw) _ _ _ rfl

theorem triple_get {α : Type} (key : String) (f : Option Doc → α) :
    Handles d i P (.op (.inl (.memGet key)) fun r => .ret (f r))
      (fun a w => P w ∧ Seen w N fun s => f (s.1.mem.get key) = a) := by
  refine triple_read (fun _ => ⟨rfl, rfl, rfl, rfl⟩) hP (fun a => persistent_seen _ _) ?_
  intro w ω r s' _ hw hex
  cases hex
  exact seen_push w (hN w hw) _ _ _ rfl

theorem gateways_triple : Handles d i P (gateways memStore)
      (fun res w => P w ∧ Seen w N fun s => decodeGateways (s.1.mem.list gatewayKeyPrefix) = res) :=
  triple_list hP hN gatewayKeyPrefix decodeGateways

theorem clients_triple : Handles d i P (clients memStore)
      (fun res w => P w ∧ (Seen w N fun s => decodeClients (s.1.mem.list clientKeyPrefix) = res) ∧
        (WellFormed d.store → ∀ cs, res = .ok cs → ∀ c ∈ cs, Owned d w c.id)) := by
  refine triple_read (f := decodeClients) (o := .inl (.memList clientKeyPrefix))
    (fun _ => ⟨rfl, rfl, rfl, rfl⟩) hP (fun res => (persistent_seen _ _).and ?_) ?_
  · intro w j o r s' h hwf cs hcs c hc
    exact persistent_owned c.id w j o r s' (h hwf cs hcs c hc)
  · intro w ω r s' inv hw hex
    cases hex
    refine ⟨seen_push w (hN w hw) _ _ _ rfl, fun hwf cs hcs c hc => ?_⟩
    obtain ⟨id, hget⟩ := (mem_clients hcs c).1 hc
    obtain ⟨c', hc', rfl, owned⟩ := inv.wellFormed hwf id _ hget
    cases hc'
    exact persistent_owned c.id w i _ _ _ (inv.ledger.owned_of_isSome owned)

theorem aliveFlags_triple (k : κ) : Handles d i P (aliveFlags k)
      (fun alive w => P w ∧ Seen w N fun s => (s.2 k).alive = alive) := by
  refine triple_read (o := .inr (k, .aliveFlags)) (f := fun alive : AliveMap => alive)
    (fun _ => ⟨rfl, rfl, rfl, rfl⟩) hP (fun alive => persistent_seen _ _) ?_
  intro w ω alive s' _ hw hex
  obtain ⟨x, hx, -⟩ := exec_server hex
  simp only [Server.exec] at hx
  split_ifs at hx
  cases hx
  exact seen_push w (hN w hw) _ _ _ rfl

theorem policyGet_triple : Handles d i P (policyGet memStore) (fun _ => P) :=
  (triple_get hP hN policyKey decodePolicy).fst

theorem session_triple (cfg : ServerConfig) (c : ClientRecord) {O : Prop} (owned : ∀ w, P w → O → Owned d w c.id) :
    Handles d i P (session cfg memStore c)
      (fun res w => P w ∧ (∀ sess, res = .ok sess → SessionFrom cfg w N c sess ∧ Named d w sess) ∧
        (O → ∃ sess, res = .ok sess)) := by
  let found (res : Except String (Option OwnershipRecord)) (w : ServerWorld κ ι) : Prop :=
    (∀ own, res = .ok (some own) →
      Seen w N (fun s => ownershipIn s.1.mem c.id = some own) ∧ own ∈ ledger d.store w.hist c.id) ∧
    (O → ∃ own, res = .ok (some own))
  have get : Handles d i P (ownershipGet memStore c.id) (fun res w => P w ∧ found res w) := by
    rw [memStore, ownershipGet_storeThen]
    refine triple_read (fun _ => ⟨rfl, rfl, rfl, rfl⟩) hP ?_ ?_
    · intro res w j o r s' h
      exact ⟨fun own hown => ⟨persistent_seen _ _ w j o r s' (h.1 own hown).1,
        mem_ledger_push (h.1 own hown).2 j o r s'⟩, h.2⟩
    · intro w ω r s' inv hw hex
      cases hex
      refine ⟨fun own hown => ?_, fun hO => ?_⟩
      · have stored := decodeOwnership_eq_some.1 hown
        exact ⟨seen_push w (hN w hw) _ _ _ stored,
          mem_ledger_push (List.mem_of_getLast? ((inv.ledger.stored c.id).symm.trans stored)) i _ _ _⟩
      · obtain ⟨own, hown⟩ := Option.isSome_iff_exists.1 (inv.ledger.isSome_of_owned (owned w hw hO))
        exact ⟨own, decodeOwnership_eq_some.2 hown⟩
  have stable : ∀ res, Stable (serverContract d) (serverPool κ ι) i fun w => P w ∧ found res w := by
    intro res
    refine hP.stable.and (Persistent.stable fun w j o r s' h => ?_)
    exact ⟨fun own hown => ⟨persistent_seen _ _ w j o r s' (h.1 own hown).1,
      mem_ledger_push (h.1 own hown).2 j o r s'⟩, h.2⟩
  refine Triple.bind get fun res => ?_
  rcases res with e | _ | own
  · exact Triple.ret (stable _) fun w _ h => ⟨h.1, by simp, fun hO => by simpa using h.2.2 hO⟩
  · exact Triple.ret (stable _) fun w _ h => ⟨h.1, by simp, fun hO => by simpa using h.2.2 hO⟩
  · refine Triple.ret (stable _) fun w _ h => ⟨h.1, fun sess hsess => ?_, fun _ => ⟨_, rfl⟩⟩
    cases hsess
    obtain ⟨hseen, hmem⟩ := h.2.1 own rfl
    exact ⟨⟨own, hseen, rfl⟩, own, hmem, rfl, rfl, rfl⟩

end Reads

/-! ## Writing -/

section Writes

variable (hP : Local d i P) (hold : ∀ w, P w → Holding d i w)

include hP hold

theorem setIfNewer_triple (rec : OwnershipRecord) : Handles d i P (setIfNewer memStore rec)
      (fun res w => P w ∧ (res.2 = none → Owned d w rec.session) ∧
        (res = (true, none) → ∃ e ∈ w.hist, e.tid = i ∧ commits rec.session e = some rec)) := by
  intro w₀ _ hw₀
  have persistent : ∀ res : Bool × Option String, Persistent fun w : ServerWorld κ ι =>
      (res.2 = none → Owned d w rec.session) ∧
      (res = (true, none) → ∃ e ∈ w.hist, e.tid = i ∧ commits rec.session e = some rec) := by
    intro res w j o r s' h
    refine ⟨fun hr => persistent_owned _ w j o r s' (h.1 hr), fun hr => ?_⟩
    obtain ⟨e, he, h⟩ := h.2 hr
    exact ⟨e, List.mem_append_left _ he, h⟩
  have stable : ∀ res, Stable (serverContract d) (serverPool κ ι) i fun w : ServerWorld κ ι =>
      P w ∧ ((res : Bool × Option String).2 = none → Owned d w rec.session) ∧
      (res = (true, none) → ∃ e ∈ w.hist, e.tid = i ∧ commits rec.session e = some rec) :=
    fun res => hP.stable.and (persistent res).stable
  refine wp_setIfNewer hP.stable stable ?_ ?_ ?_ ?_ hw₀
  · intro w ω o r s' inv hw peeks hex
    have q := peeks.quiet
    exact ⟨trivial, Inv.push_quiet inv hex q, hP.own w ω o r s' hex q.unlocks hw⟩
  · intro w ω o r s' inv hw hv sup hwr hex
    obtain ⟨hu, ha⟩ := quiet_of_written hwr
    have inv' := Inv.push_commit inv hex hwr hv sup (hold w hw) ha
    refine ⟨trivial, inv', fun w' env _ => (stable (true, none)).env env ?_⟩
    have mine : commits rec.session ⟨i, o, r, w.st, s'⟩ = some rec := by simp [commits, hwr]
    refine ⟨hP.own w ω o r s' hex hu hw, fun _ => ?_, fun _ =>
      ⟨_, List.mem_append_right _ (List.mem_singleton_self _), rfl, mine⟩⟩
    rw [Owned, ledger_push, mine]
    simp
  · intro w cur inv hw hcur _
    have owned : Owned d w rec.session := Ledger.owned_of_isSome (Inv.ledger inv) (by simp [hcur])
    have hex : (serverPool κ ι).exec {} i (.inl (.memGet (sessionKey rec.session))) w.st =
        some ((some (.ownership cur) : Option Doc), w.st) := by
      have hget := (ownershipIn_eq_some.1 hcur).1
      simp only [System.sum, storeSystem, hget]
      rfl
    exact ⟨hP.own w {} _ _ _ hex rfl hw, fun _ => persistent_owned _ w i _ _ _ owned, by simp⟩
  · exact fun w e _ hw => ⟨hw, by simp, by simp⟩

theorem putClient_triple (c : ClientRecord) (owned : ∀ w, P w → WellFormed d.store → Owned d w c.id) :
    Handles d i P (memStore.put (clientKey c.id) (.client c)) (fun res w => P w ∧ res = none) := by
  refine Triple.op hP.stable (R := fun _ => P) ?_ fun r => ?_
  · intro w ω r s' inv hw hex
    exact ⟨trivial, Inv.push_client inv hex rfl (owned w hw) (hold w hw) rfl, hP.own w ω _ r s' hex rfl hw⟩
  · exact Triple.ret hP.stable fun w _ h => ⟨h, rfl⟩

theorem putGateway_triple (id : String) (value : Doc) : Handles d i P (memStore.put (gatewayKey id) value)
      (fun res w => P w ∧ res = none) := by
  refine Triple.op hP.stable (R := fun _ => P) ?_ fun r => ?_
  · intro w ω r s' inv hw hex
    exact ⟨trivial, Inv.push_gateway inv hex rfl (hold w hw) rfl, hP.own w ω _ r s' hex rfl hw⟩
  · exact Triple.ret hP.stable fun w _ h => ⟨h, rfl⟩

theorem triple_field {k : κ} {o : ServerOp} (hu : o ≠ .unlock) (ha : ∀ a, o ≠ .respond a) :
    Handles d i P (onServer k o) (fun _ => P) := by
  have unlocks : unlocks (.inr (k, o)) = false := by cases o <;> first | rfl | exact absurd rfl hu
  have answers : answers (.inr (k, o)) = none := by
    cases o <;> first | rfl | exact absurd rfl (ha _)
  refine Triple.op hP.stable (R := fun _ => P) ?_ fun r => hP.give _
  intro w ω r s' inv hw hex
  exact ⟨trivial, Inv.push_silent inv hex rfl (fun _ => hold w hw) (fun k a h => by simp [answers] at h),
    hP.own w ω _ r s' hex unlocks hw⟩

theorem seenLocked_triple (k : κ) (id : String) : Handles d i P (seenLocked k id) (fun _ => P) := by
  refine Triple.bind (triple_field hP hold (by simp) (by simp)) fun time => ?_
  refine Triple.bind (triple_field hP hold (by simp) (by simp)) fun _ => ?_
  refine Triple.bind (triple_field hP hold (by simp) (by simp)) fun q => ?_
  obtain ⟨alive, seen⟩ := q
  dsimp only
  split_ifs
  · refine Triple.bind (triple_field hP hold (by simp) (by simp)) fun _ => ?_
    exact triple_field hP hold (by simp) (by simp)
  · exact hP.give _

end Writes

/-! ## Answering -/

omit [DecidableEq κ] [DecidableEq ι] in
theorem answerOK_error (w : ServerWorld κ ι) (k : κ) (code : ℕ) (text : String) :
    AnswerOK d w i k (.error code text none) := ⟨by simp [Answer.sessions], trivial⟩

omit [DecidableEq κ] [DecidableEq ι] in
theorem answerOK_conflict {w : ServerWorld κ ι} (k : κ) (code : ℕ) (text : String) {sess : Session}
    (h : Named d w sess) : AnswerOK d w i k (.error code text (some sess)) :=
  ⟨by simpa [Answer.sessions] using h, trivial⟩

theorem respond_triple (hP : Local d i P) {k : κ} {a : Answer} (ok : ∀ w, Inv d w → P w → AnswerOK d w i k a) :
    Handles d i P (respond k a) (fun _ => P) := by
  refine Triple.op hP.stable (R := fun _ => P) ?_ fun r => hP.give _
  intro w ω r s' inv hw hex
  refine ⟨trivial, Inv.push_silent inv hex rfl (fun h => by simp [changes, bumps, written] at h) ?_,
    hP.own w ω _ r s' hex rfl hw⟩
  intro k' a' h
  cases h
  exact persistent_answerOK i k a w i _ r s' (ok w inv hw)

theorem error_triple (hP : Local d i P) (k : κ) (code : ℕ) (text : String) :
    Handles d i P (respond k (.error code text none)) (fun _ _ => True) :=
  (respond_triple hP fun w _ _ => answerOK_error w k code text).post fun _ _ _ _ => trivial

def Fresh (i : ι) (w : ServerWorld κ ι) : Prop := ∀ u ∈ w.hist, u.tid = i → unlocks u.op = false

theorem local_fresh : Local d i (Fresh i) := by
  constructor
  · rintro w w' ⟨j, hji, ⟨ω, o, r, s', -, rfl⟩, -⟩ h
    exact List.forall_mem_append.2 ⟨h, List.forall_mem_singleton.2 fun ht => absurd ht hji⟩
  · intro w ω o r s' _ hun h
    exact List.forall_mem_append.2 ⟨h, List.forall_mem_singleton.2 fun _ => hun⟩

def Answered (d : Deployment κ ι) (i : ι) (k : κ) (a : Answer) (w : ServerWorld κ ι) : Prop :=
  Held d i (fun w => AnswerOK d w i k a) w

theorem lock_triple {k : κ} (hk : (d.requests i).1 = k) {F : ServerWorld κ ι → Prop} (hF : Persistent F) :
    Handles d i (fun w => Fresh i w ∧ F w) (onServer k .lock) (fun _ => Held d i F) := by
  have pre : Local d i fun w => Fresh i w ∧ F w := local_fresh.learn hF
  refine Triple.op pre.stable (R := fun _ => Held d i F) ?_ fun r => Triple.ret (local_held hF).stable fun w _ h => h
  intro w ω r s' inv hw hex
  have inv' : Inv d (w.push i (.inr (k, .lock)) r s') := Inv.push_quiet inv hex ⟨rfl, rfl, rfl, rfl⟩
  obtain ⟨fresh, hF'⟩ := pre.own w ω _ r s' hex rfl hw
  refine ⟨trivial, inv', ⟨?_, fresh⟩, hF'⟩
  obtain ⟨x, hx, rfl⟩ := exec_server hex
  simp only [Server.exec] at hx
  split_ifs at hx
  cases hx
  change (Function.update w.st.2 k _ (d.requests i).1).mu = some i
  rw [hk, Function.update_self]

theorem unlock_triple (hP : Local d i P) (k : κ) : Handles d i P (onServer k .unlock) (fun _ _ => True) := by
  refine Triple.op hP.stable (R := fun _ _ => True) ?_ fun r => Triple.done _
  intro w ω r s' inv _ hex
  exact ⟨trivial, Inv.push_silent inv hex rfl (fun h => by simp [changes, bumps, written] at h)
    (fun k a h => by cases h), trivial⟩

theorem locked_triple {k : κ} (hk : (d.requests i).1 = k) {F : ServerWorld κ ι → Prop}
    (hF : Persistent F) {body : Handler κ Answer}
    (h : Handles d i (Held d i F) body (Answered d i k)) :
    Handles d i (fun w => Fresh i w ∧ F w) (locked k body) (fun _ _ => True) := by
  refine Triple.bind (lock_triple hk hF) fun _ => Triple.bind h fun a => ?_
  have hheld : Local d i (Answered d i k a) := local_held (persistent_answerOK i k a)
  refine Triple.bind (respond_triple hheld fun w _ h => h.2) fun _ => ?_
  exact Triple.bind (unlock_triple hheld k) fun _ => Triple.done _

end Rules

end Egressa
