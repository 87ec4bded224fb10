import Egressa.Conc.Machine
import Egressa.Controller.Effects

/-!
# Backends and access gateways

A session with the IPsec backend needs an access gateway that accepts IPsec clients.  `migrate` asks the client record
that `sessionAuth` has looked up before the mutex was taken.  A `Desk` is one controller over a `MemStore`, with the
`migrate` requests that have been looked up and wait for the mutex.
-/

namespace Egressa

open Conc

/-- Every session is at an access gateway that supports its backend. -/
def Supports (gws : List Gateway) (m : MemStore) : Prop :=
  ∀ id c, m.get (clientKey id) = some (.client c) → ∃ own, ownershipIn m id = some own ∧
      canAccess (gatewayOrZero gws own.access) (normBackend c.backend) = true

/-! ## Steps -/

/-- A controller with the migrations it has looked the client up for. -/
structure Desk where
  state : ServerState Unit Unit
  waiting : List (MigrateRequest × ClientRecord) := []

abbrev Desk.mem (d : Desk) : MemStore := d.state.1.mem

/-- The steps of the controller. -/
inductive Event where
  | lookup (id bearer : String) (req : MigrateRequest)
  | migrate (n : ℕ)
  | createSession (ω : Choice) (bearer : String) (body : Except String CreateSessionRequest)
  | report (alive : AliveMap)

def Desk.step? (cfg : ServerConfig) (d : Desk) : Event → Option Desk
  | .lookup id bearer req => match alone {} () (clientByID memStore id) d.state with
    | some (.ok (some c), s) =>
      if c.secretHash != cfg.hashSecret bearer then none else some ⟨s, d.waiting ++ [(req, c)]⟩
    | _ => none
  | .migrate n => match d.waiting[n]? with
    | none => none
    | some (req, c) => (alone {} () (migrate cfg memStore () (.ok req) c) d.state).map fun p =>
        ⟨p.2, d.waiting.eraseIdx n⟩
  | .createSession ω bearer body =>
    (alone ω () (createSession cfg memStore () bearer body) d.state).map fun p => { d with state := p.2 }
  | .report alive => some { d with state := (d.state.1, fun k => { d.state.2 k with alive }) }

/-- What an event writes. -/
def Desk.writes (cfg : ServerConfig) (d : Desk) : Event → List (String × Doc)
  | .migrate n => (d.waiting[n]?).elim [] fun p => (planMigrate cfg d.mem p.1 p.2).writes
  | .createSession ω bearer body =>
    (planCreateSession cfg d.mem (d.state.2 ()).alive ω bearer body).writes
  | _ => []

section Steps

variable {κ ι : Type} [DecidableEq κ]

theorem commit_return (d : Disk ι) (l : List (String × Doc)) :
    commit (writeThen fun d => (none, d)) d l = (none, { d with mem := d.mem.puts l }) := by
  induction l generalizing d with
  | nil => rfl
  | cons p l ih =>
    rw [commit]
    exact ih _

theorem Transaction.run_return (k : κ) (t : Transaction) (s : ServerState κ ι) :
    t.run (writeThen fun d => (none, d)) k s =
      (t.answer, { s.1 with mem := s.1.mem.puts t.writes }, Function.update s.2 k (t.fields (s.2 k))) := by
  rw [Transaction.run, commit_return]

theorem Desk.step?_mem {cfg : ServerConfig} {d d' : Desk} {e : Event} (idle : Idle () d.state)
    (h : d.step? cfg e = some d') : Idle () d'.state ∧ d'.mem = d.mem.puts (d.writes cfg e) := by
  cases e with
  | lookup id bearer req =>
    have read : alone {} () (clientByID memStore id) d.state = _ := backed_memStore.alone_clientByID d.state id
    rw [step?, read] at h
    split at h
    · rename_i c s hs
      obtain ⟨-, rfl⟩ := Prod.mk.inj (Option.some.inj hs)
      split_ifs at h
      cases h
      exact ⟨idle, rfl⟩
    · cases h
  | migrate n =>
    rw [step?] at h
    rw [writes]
    cases hn : d.waiting[n]? with
    | none => simp [hn] at h
    | some p =>
      rw [hn] at h
      have run := backed_memStore.alone_migrate (ω := {}) (i := ()) () cfg idle (.ok p.1) p.2
      simp only [run, Option.map_some, Option.some.injEq] at h
      subst h
      exact ⟨idle.run backed_memStore () _, by rw [Transaction.run_return]; rfl⟩
  | createSession ω bearer body =>
    have run := backed_memStore.alone_createSession (ω := ω) (i := ()) () cfg idle bearer body
    simp only [step?, run, Option.map_some, Option.some.injEq] at h
    subst h
    exact ⟨idle.run backed_memStore () _, by rw [Transaction.run_return]; rfl⟩
  | report alive =>
    cases h
    exact ⟨⟨idle.mu, idle.saveMu⟩, rfl⟩

theorem Desk.writes_cases (cfg : ServerConfig) (d : Desk) (e : Event) : d.writes cfg e = [] ∨
      (∃ n req c gws own, e = .migrate n ∧ d.waiting[n]? = some (req, c) ∧
        d.writes cfg e = (planMigrate cfg d.mem req c).writes ∧
        Moves cfg d.mem req c gws own (planMigrate cfg d.mem req c)) ∨
      ∃ ω bearer req t, e = .createSession ω bearer (.ok req) ∧ d.writes cfg e = t.writes ∧
        Creates cfg d.mem (d.state.2 ()).alive ω req (normBackend req.backend) t := by
  cases e with
  | migrate n =>
    rw [writes]
    cases hn : d.waiting[n]? with
    | none => exact Or.inl rfl
    | some p =>
      rcases planMigrate_cases cfg d.mem p.1 p.2 with ⟨a, h⟩ | ⟨gws, own, h⟩
      · exact Or.inl (congrArg Transaction.writes h)
      · exact Or.inr (Or.inl ⟨n, p.1, p.2, gws, own, rfl, hn, rfl, h⟩)
  | createSession ω bearer body =>
    rw [writes]
    rcases planCreateSession_cases cfg d.mem (d.state.2 ()).alive ω bearer body with
      ⟨_, _, -, h⟩ | ⟨req, rfl, h⟩ <;> rw [h]
    · exact Or.inl rfl
    rcases planCreate_cases cfg d.mem (d.state.2 ()).alive ω req (normBackend req.backend) with ⟨a, -, h⟩ | h
    · exact Or.inl (congrArg Transaction.writes h)
    · exact Or.inr (Or.inr ⟨ω, bearer, req, _, rfl, rfl, h⟩)
  | _ => exact Or.inl rfl

end Steps

/-! ## Support -/

section Support

variable {gws : List Gateway} {m m' : MemStore}

theorem Supports.frame (h : Supports gws m) (sid : String) {writes : List (String × Doc)}
    (keys : ∀ w ∈ writes, w.1 = sessionKey sid ∨ w.1 = clientKey sid)
    (new : ∀ c, (m.puts writes).get (clientKey sid) = some (.client c) →
      ∃ own, ownershipIn (m.puts writes) sid = some own ∧
        canAccess (gatewayOrZero gws own.access) (normBackend c.backend) = true) :
    Supports gws (m.puts writes) := by
  intro id c hc
  by_cases hid : id = sid
  · subst hid
    exact new c hc
  · have client : (m.puts writes).get (clientKey id) = m.get (clientKey id) := by
      refine m.get_puts_ne fun w hw heq => ?_
      rcases keys w hw with h | h <;> rw [h] at heq
      · exact sessionKey_ne_clientKey _ _ heq.symm
      · exact hid (clientKey_inj.1 heq)
    have owner : (m.puts writes).get (sessionKey id) = m.get (sessionKey id) := by
      refine m.get_puts_ne fun w hw heq => ?_
      rcases keys w hw with h | h <;> rw [h] at heq
      · exact hid (sessionKey_inj.1 heq)
      · exact sessionKey_ne_clientKey _ _ heq
    rw [client] at hc
    rw [ownershipIn, owner]
    exact h id c hc

theorem Supports.openWrites {rec : OwnershipRecord} {c : ClientRecord} {writes : List (String × Doc)}
    (h : Supports gws m) (hw : openWrites m rec c = .ok writes) (session : rec.session = c.id)
    (new : canAccess (gatewayOrZero gws rec.access) (normBackend c.backend) = true)
    (old : ∀ own, ownershipIn m rec.session = some own → ¬ own.epoch < rec.epoch →
      canAccess (gatewayOrZero gws own.access) (normBackend c.backend) = true) :
    Supports gws (m.puts writes) := by
  have frame {own : OwnershipRecord} (front : List (String × Doc))
      (keys : ∀ w ∈ front, w.1 = sessionKey c.id) (howned : ownershipIn (m.puts front) c.id = some own)
      (can : canAccess (gatewayOrZero gws own.access) (normBackend c.backend) = true) :
      Supports gws (m.puts (front ++ [(clientKey c.id, .client c)])) := by
    refine h.frame c.id (fun w hw => ?_) fun c' hc' => ⟨own, ?_, ?_⟩
    · rcases List.mem_append.1 hw with hw | hw
      · exact Or.inl (keys w hw)
      · exact Or.inr (by rw [List.mem_singleton.1 hw])
    · rw [MemStore.puts_append]
      exact (ownershipIn_put_ne _ _ (sessionKey_ne_clientKey _ _)).trans howned
    · rw [MemStore.puts_append] at hc'
      obtain rfl := Doc.client.inj (Option.some.inj ((MemStore.get_put_self _ _ _).symm.trans hc'))
      exact can
  obtain ⟨valid, ⟨-, rfl⟩ | ⟨⟨own, hown, hnot⟩, rfl⟩⟩ := openWrites_cases hw
  · refine frame [(sessionKey rec.session, .ownership rec)] ?_ ?_ new
    · rw [session]
      simp
    · rw [← session]
      exact ownershipIn_put_self m valid
  · exact frame [] (by simp) (session ▸ hown) (old own hown hnot)

theorem lt_succ_of_ne {e : UInt64} (h : e + 1 ≠ 0) : e < e + 1 := by
  have bound := e.toNat_lt
  have pos : (e + 1).toNat ≠ 0 := fun h0 => h (UInt64.toNat_inj.1 h0)
  rw [UInt64.lt_iff_toNat_lt]
  rw [UInt64.toNat_add, show (1 : UInt64).toNat = 1 from rfl] at pos ⊢
  omega

/-! ## Runs -/

/-- The backend of the session has not become IPsec since the lookup. -/
def NotSwitched (m : MemStore) (c : ClientRecord) : Prop :=
  ∀ c', m.get (clientKey c.id) = some (.client c') → normBackend c'.backend = backendIPsec →
    normBackend c.backend = backendIPsec

def FreshNumber (m : MemStore) (ω : Choice) : Prop :=
  ∀ n, ω.number = .ok n → m.get (sessionKey (formatUint n.1)) = none

/-- A session that has to move for the requested backend is not at the last epoch. -/
def EpochLeft (gws : List Gateway) (m : MemStore) (req : CreateSessionRequest) : Prop :=
  ∀ id c own, m.get (clientKey id) = some (.client c) → c.publicKey = req.publicKey → ownershipIn m id = some own →
    canAccess (gatewayOrZero gws own.access) (normBackend req.backend) = true ∨ own.epoch + 1 ≠ 0

/-- The condition under which an event keeps sessions served. -/
def Desk.Meets (gws : List Gateway) (d : Desk) : Event → Prop
  | .migrate n => ∀ p ∈ d.waiting[n]?, NotSwitched d.mem p.2
  | .createSession ω _ (.ok req) => FreshNumber d.mem ω ∧ EpochLeft gws d.mem req
  | _ => True

/-- The invariant of the runs. -/
structure Desk.Good (gws : List Gateway) (d : Desk) : Prop where
  idle : Idle () d.state
  gateways : decodeGateways (d.mem.list gatewayKeyPrefix) = .ok gws
  tidy : Tidy d.mem
  supports : Supports gws d.mem

variable {cfg : ServerConfig}

theorem Moves.supports {req : MigrateRequest} {c : ClientRecord}
    {own : OwnershipRecord} {t : Transaction} (h : Moves cfg m req c gws own t) (supports : Supports gws m)
    (kept : NotSwitched m c) : Supports gws (m.puts t.writes) := by
  rw [h.writes]
  refine supports.frame c.id (by simp) fun c' hc' => ⟨_, ownershipIn_put_self m h.valid, ?_⟩
  have hc : m.get (clientKey c.id) = some (.client c') :=
    (m.get_put_ne _ (sessionKey_ne_clientKey _ _).symm).symm.trans hc'
  have can := h.access
  rw [gatewayOrZero]
  cases hf : findGateway gws req.access with
  | none => simp [hf] at can
  | some g =>
    simp only [hf, Option.any_some, canAccess, Bool.and_eq_true, Bool.or_eq_true, bne_iff_ne, ne_eq] at can
    simp only [Option.getD_some, canAccess, Bool.and_eq_true, Bool.or_eq_true, bne_iff_ne, ne_eq]
    refine ⟨can.1, ?_⟩
    by_cases hi : normBackend c'.backend = backendIPsec
    · exact Or.inr (can.2.resolve_left (not_not.2 (kept c' hc hi)))
    · exact Or.inl hi

theorem Creates.supports {alive : AliveMap} {ω : Choice} {req : CreateSessionRequest}
    {t : Transaction} (h : Creates cfg m alive ω req (normBackend req.backend) t)
    (gateways : decodeGateways (m.list gatewayKeyPrefix) = .ok gws) (tidy : Tidy m)
    (supports : Supports gws m) (fresh : FreshNumber m ω) (left : EpochLeft gws m req) :
    Supports gws (m.puts t.writes) := by
  have ids := tidy.nodup_gateways gateways
  cases h with
  | @kept c gws' own reopens switched gateways' owned access writes hw =>
    cases gateways'.symm.trans gateways
    subst hw
    refine supports.frame c.id (by simp) fun c' hc' =>
      ⟨own, (ownershipIn_put_ne m _ (sessionKey_ne_clientKey _ _)).trans owned, ?_⟩
    obtain rfl := Doc.client.inj (Option.some.inj ((m.get_put_self _ _).symm.trans hc'))
    dsimp only
    rw [normBackend_norm]
    exact access
  | @moved c gws' own access egress reopens switched gateways' owned path writes hw =>
    cases gateways'.symm.trans gateways
    have norm := normBackend_norm req.backend
    refine supports.openWrites hw rfl ?_ fun own' hown' hnot => ?_
    · rw [norm]
      exact pickPath_access ids path
    · cases hown'.symm.trans owned
      rw [norm]
      exact (left _ c _ (reopens.stored tidy) reopens.key owned).resolve_right fun hne => hnot (lt_succ_of_ne hne)
  | @opened cs gws' access egress vip n secret clients unknown gateways' path _ number c hc writes hw =>
    cases gateways'.symm.trans gateways
    refine supports.openWrites hw rfl ?_ fun own hown _ => ?_
    · rw [hc]
      dsimp only
      rw [normBackend_norm]
      exact pickPath_access ids path
    · have none := fresh n number
      rw [show formatUint n.1 = c.id by rw [hc]] at none
      rw [(ownershipIn_eq_some.1 hown).1] at none
      cases none

theorem list_gateways_puts (sid : String) {writes : List (String × Doc)}
    (keys : ∀ w ∈ writes, w.1 = sessionKey sid ∨ w.1 = clientKey sid) :
    (m.puts writes).list gatewayKeyPrefix = m.list gatewayKeyPrefix := by
  refine m.list_puts_other fun w hw => ?_
  rcases keys w hw with h | h <;> rw [h]
  · exact not_hasPrefix_of_ne sid (by decide)
  · exact not_hasPrefix_of_ne sid (by decide)

/-- One event, under the condition. -/
theorem Desk.Good.step {d d' : Desk} {e : Event} (good : d.Good gws)
    (meets : d.Meets gws e) (h : d.step? cfg e = some d') : d'.Good gws := by
  obtain ⟨idle, mem⟩ := step?_mem good.idle h
  rcases d.writes_cases cfg e with none | ⟨n, req, c, gws', own, rfl, hn, hw, moves⟩ |
    ⟨ω, bearer, req, t, rfl, hw, creates⟩
  · rw [none] at mem
    refine ⟨idle, ?_, ?_, ?_⟩ <;> rw [mem]
    · exact good.gateways
    · exact good.tidy
    · exact good.supports
  · cases moves.gateways.symm.trans good.gateways
    rw [hw] at mem
    refine ⟨idle, ?_, ?_, ?_⟩ <;> rw [mem]
    · rw [list_gateways_puts c.id (by simp [moves.writes])]
      exact good.gateways
    · exact good.tidy.puts moves.orderly List.prefix_rfl
    · exact moves.supports good.supports (meets (req, c) hn)
  · obtain ⟨sid, keys⟩ := creates.keys
    rw [hw] at mem
    refine ⟨idle, ?_, ?_, ?_⟩ <;> rw [mem]
    · rw [list_gateways_puts sid keys]
      exact good.gateways
    · exact good.tidy.puts creates.orderly List.prefix_rfl
    · exact creates.supports good.gateways good.tidy good.supports meets.1 meets.2

end Support

/-- In a run without a switch to IPsec between a lookup and its body, every session has an access
gateway that can carry its backend. -/
theorem access_supports_backend {cfg : ServerConfig} {gws : List Gateway} {d d' : Desk} (good : d.Good gws)
    (run : Runs (Desk.step? cfg) (Desk.Meets gws) d d') : Supports gws d'.mem :=
  (run.invariant (fun _ _ _ good meets h => good.step meets h) good).supports

/-! ### On the small network -/

namespace Trial

def desk : Desk := { state := controller [] }

def listing : List Gateway := [gateway "a" true, gateway "b" false]

theorem good_desk : desk.Good listing := by
  refine ⟨⟨rfl, rfl⟩, by decide, tidy_store, fun id c hc => ?_⟩
  obtain ⟨rfl, heq⟩ := get_client hc
  cases heq
  exact ⟨⟨"7", "a", "a", 1⟩, by decide, by decide⟩

def lookup : Event := .lookup "7" "secret" ⟨1, "b", "a"⟩

def reopen : Event := .createSession {} "" (.ok { publicKey, secret := "secret", backend := backendIPsec })

end Trial

open Trial in
theorem access_supports_backend_moved :
    ∃ d, Runs (Desk.step? config) (Desk.Meets listing) desk d ∧ Supports listing d.mem := by
  obtain ⟨d, hd⟩ := Option.isSome_iff_exists.1 (show (desk.step? config lookup).isSome by decide)
  have waiting : (desk.step? config lookup).map Desk.waiting = some [(⟨1, "b", "a"⟩, client)] := by decide
  have moves : ((desk.step? config lookup).bind fun d => d.step? config (.migrate 0)).isSome := by decide
  rw [hd] at waiting moves
  obtain ⟨d', hd'⟩ := Option.isSome_iff_exists.1 moves
  have kept : d.Meets listing (.migrate 0) := by
    intro p hp c hc hi
    rw [Option.some.inj waiting] at hp
    cases hp
    rw [(Desk.step?_mem good_desk.idle hd).2] at hc
    obtain rfl := Doc.client.inj (get_client hc).2
    exact hi
  have run : Runs (Desk.step? config) (Desk.Meets listing) desk d' := (Runs.refl.tail trivial hd).tail kept hd'
  exact ⟨d', run, access_supports_backend good_desk run⟩

open Trial in
/-- The client is switched to IPsec while it waits to be moved, and ends up at gateway b, which accepts
no IPsec clients. -/
theorem access_unsupported : desk.Good listing ∧
    ∃ d, Runs (Desk.step? config) (fun _ _ => True) desk d ∧ ¬ Supports listing d.mem := by
  obtain ⟨d, run, h⟩ := Runs.exists_of_foldlM (Desk.step? config) desk [lookup, reopen, .migrate 0]
    (fun d => (d.mem.get (clientKey "7"), ownershipIn d.mem "7"))
    (b := (some (.client { client with backend := backendIPsec }), some ⟨"7", "b", "a", 2⟩)) (by decide)
  obtain ⟨hclient, howner⟩ := Prod.mk.inj h
  refine ⟨good_desk, d, run, fun supports => ?_⟩
  obtain ⟨own, hown, can⟩ := supports "7" _ hclient
  cases howner.symm.trans hown
  exact absurd can (by decide)

end Egressa
