import Egressa.Controller.Transaction

/-!
# What a transaction writes

A transaction of `migrate` or `createSession` writes nothing, or it moves a session, or it opens or reopens one.  The
lemmas here say what then held of the store and of the request.
-/

namespace Egressa

variable {cfg : ServerConfig} {m : MemStore}

/-! ## Sessions -/

variable {c : ClientRecord}

theorem sessionIn_eq_ok {sess : Session} :
    sessionIn cfg m c = .ok sess ↔ ∃ own, ownershipIn m c.id = some own ∧ sess = sessionOf cfg c own := by
  simp only [← decodeOwnership_eq_some, sessionIn]
  cases decodeOwnership (m.get (sessionKey c.id)) with
  | error e => simp
  | ok own => cases own <;> simp [eq_comm]

variable (cfg) in
theorem createdIn_of_owned (h : (ownershipIn m c.id).isSome) (secret : String) :
    ∃ sess, createdIn cfg m c secret = .created sess secret cfg.network := by
  obtain ⟨own, hown⟩ := Option.isSome_iff_exists.1 h
  refine ⟨sessionOf cfg c own, ?_⟩
  rw [createdIn, sessionIn_eq_ok.2 ⟨own, hown, rfl⟩]

variable {rec : OwnershipRecord}

theorem supersedes_eq_ok {applied : Bool} (h : supersedes m rec = .ok applied) : rec.validate = .ok () ∧
      (if applied then ∀ own, ownershipIn m rec.session = some own → own.epoch < rec.epoch
      else ∃ own, ownershipIn m rec.session = some own ∧ ¬ own.epoch < rec.epoch) := by
  unfold supersedes at h
  cases hv : rec.validate with
  | error e => simp [hv] at h
  | ok u =>
    refine ⟨rfl, ?_⟩
    rw [hv] at h
    simp only [ownershipIn]
    cases hget : m.get (sessionKey rec.session) with
    | none =>
      simp only [hget, Except.ok.injEq] at h
      subst h
      simp [unmarshalOwnership, Except.toOption]
    | some data =>
      simp only [hget] at h
      cases hd : unmarshalOwnership (some data) with
      | error e => simp [hd, Except.map] at h
      | ok cur =>
        simp only [hd, Except.map, Except.ok.injEq] at h
        subst h
        simp [Except.toOption, OwnershipRecord.newer]

theorem get_ne_of_newer (hv : rec.validate = .ok ())
    (h : ∀ own, ownershipIn m rec.session = some own → own.epoch < rec.epoch) :
    m.get (sessionKey rec.session) ≠ some (.ownership rec) := by
  intro hget
  exact UInt64.lt_irrefl _ (h rec (ownershipIn_eq_some.2 ⟨hget, hv⟩))

/-! ## Registrations -/

/-- A transaction that stores gateway `g`. -/
structure Registers (cfg : ServerConfig) (m : MemStore) (id : String) (gws : List Gateway) (g : Gateway)
    (t : Transaction) : Prop where
  gateways : decodeGateways (m.list gatewayKeyPrefix) = .ok gws
  named : g.id = id
  address : nodeIPOf cfg gws id = .ok g.nodeIP
  differs : (findGateway gws id).all (fun old => !gatewayEqual old g) = true
  writes : t.writes = [(gatewayKey id, .gateway g)]
  answer : ∃ nodeIP network, t.answer = .registered nodeIP network
  failure : t.failure = 500
  bumps : t.bumps = true

variable (cfg m) in
theorem planRegister_cases (time : ℕ) (id : String) (req : RegisterGatewayRequest) :
    (planRegister cfg m time id req).writes = [] ∨
      ∃ gws g, Registers cfg m id gws g (planRegister cfg m time id req) := by
  unfold planRegister
  cases hgws : decodeGateways (m.list gatewayKeyPrefix) with
  | error e => exact Or.inl rfl
  | ok gws =>
    dsimp only
    cases address : nodeIPOf cfg gws id with
    | error e => exact Or.inl rfl
    | ok nodeIP =>
      dsimp only
      split_ifs with differs
      · exact Or.inr ⟨gws, _, hgws, rfl, address, differs, rfl, ⟨_, _, rfl⟩, rfl, rfl⟩
      · exact Or.inl rfl

/-! ## Migrations -/

/-- A transaction that moves the session of `c` to the owner `own`. -/
structure Moves (cfg : ServerConfig) (m : MemStore) (req : MigrateRequest) (c : ClientRecord)
    (gws : List Gateway) (own : OwnershipRecord) (t : Transaction) : Prop where
  gateways : decodeGateways (m.list gatewayKeyPrefix) = .ok gws
  access : (findGateway gws req.access).any (canAccess · (normBackend c.backend)) = true
  owned : ownershipIn m c.id = some own
  valid : OwnershipRecord.validate ⟨c.id, req.access, req.egress, own.epoch + 1⟩ = .ok ()
  newer : own.epoch < own.epoch + 1
  writes : t.writes = [(sessionKey c.id, .ownership ⟨c.id, req.access, req.egress, own.epoch + 1⟩)]
  answer : ∃ sess, t.answer = .migrated sess
  failure : t.failure = 500
  bumps : t.bumps = true

variable (cfg m) in
theorem planMigrate_cases (req : MigrateRequest) (c : ClientRecord) :
    (∃ a, planMigrate cfg m req c = { answer := a }) ∨
      ∃ gws own, Moves cfg m req c gws own (planMigrate cfg m req c) := by
  unfold planMigrate
  cases hgws : decodeGateways (m.list gatewayKeyPrefix) with
  | error e => exact Or.inl ⟨_, rfl⟩
  | ok gws =>
    dsimp only
    split_ifs with hacc hegr
    · exact Or.inl ⟨_, rfl⟩
    · exact Or.inl ⟨_, rfl⟩
    cases hsess : sessionIn cfg m c with
    | error e => exact Or.inl ⟨_, rfl⟩
    | ok cur =>
      obtain ⟨own, hown, rfl⟩ := sessionIn_eq_ok.1 hsess
      dsimp only
      split_ifs
      · exact Or.inl ⟨_, rfl⟩
      cases hsup : supersedes m ⟨c.id, req.access, req.egress, (sessionOf cfg c own).epoch + 1⟩ with
      | error e => exact Or.inl ⟨_, rfl⟩
      | ok applied =>
        cases applied with
        | false => exact Or.inl ⟨_, rfl⟩
        | true =>
          obtain ⟨valid, newer⟩ := supersedes_eq_ok hsup
          exact Or.inr ⟨gws, own, hgws, by simpa using hacc, hown, valid, newer own hown, rfl, ⟨_, rfl⟩, rfl, rfl⟩

/-! ## Opening and reopening -/

section

variable {writes : List (String × Doc)} (h : openWrites m rec c = .ok writes)
include h

theorem openWrites_cases : rec.validate = .ok () ∧
      ((∀ own, ownershipIn m rec.session = some own → own.epoch < rec.epoch) ∧
        writes = [(sessionKey rec.session, .ownership rec), (clientKey c.id, .client c)] ∨
      (∃ own, ownershipIn m rec.session = some own ∧ ¬ own.epoch < rec.epoch) ∧
        writes = [(clientKey c.id, .client c)]) := by
  unfold openWrites at h
  cases hsup : supersedes m rec with
  | error e => simp [hsup, Except.map] at h
  | ok applied =>
    rw [hsup] at h
    cases h
    obtain ⟨valid, newer⟩ := supersedes_eq_ok hsup
    cases applied with
    | false => exact ⟨valid, Or.inr ⟨newer, rfl⟩⟩
    | true => exact ⟨valid, Or.inl ⟨newer, rfl⟩⟩

theorem openWrites_keys (session : rec.session = c.id) :
    ∀ w ∈ writes, w.1 = sessionKey c.id ∨ w.1 = clientKey c.id := by
  obtain ⟨-, ⟨-, rfl⟩ | ⟨-, rfl⟩⟩ := openWrites_cases h <;> simp [session]

theorem openWrites_client : (∀ key c', (key, Doc.client c') ∈ writes → c' = c) ∧
      (m.puts writes).get (clientKey c.id) = some (.client c) := by
  obtain ⟨-, ⟨-, rfl⟩ | ⟨-, rfl⟩⟩ := openWrites_cases h
  · exact ⟨by simp, MemStore.get_put_self _ _ _⟩
  · exact ⟨by simp, MemStore.get_put_self _ _ _⟩

theorem owned_openWrites (session : rec.session = c.id) : (ownershipIn (m.puts writes) c.id).isSome := by
  have last (m : MemStore) : ownershipIn (m.put (clientKey c.id) (.client c)) rec.session =
      ownershipIn m rec.session := ownershipIn_put_ne m _ (sessionKey_ne_clientKey _ _)
  rw [← session]
  obtain ⟨valid, ⟨-, rfl⟩ | ⟨⟨own, hown, -⟩, rfl⟩⟩ := openWrites_cases h
  · exact Option.isSome_iff_exists.2 ⟨rec, (last _).trans (ownershipIn_put_self m valid)⟩
  · exact Option.isSome_iff_exists.2 ⟨own, (last m).trans hown⟩

end

/-- The request opens the session of `c` again. -/
structure Reopens (cfg : ServerConfig) (m : MemStore) (req : CreateSessionRequest) (c : ClientRecord) : Prop where
  found : ∃ cs, decodeClients (m.list clientKeyPrefix) = .ok cs ∧ c ∈ cs
  key : c.publicKey = req.publicKey
  secret : c.secretHash = cfg.hashSecret req.secret

/-- The answers that store nothing. -/
inductive Replies (cfg : ServerConfig) (m : MemStore) (req : CreateSessionRequest) : Answer → Prop
  /-- The key has a session, of which the request does not know the secret. -/
  | taken {cs : List ClientRecord} {c : ClientRecord}
    (clients : decodeClients (m.list clientKeyPrefix) = .ok cs) (hc : c ∈ cs)
    (key : c.publicKey = req.publicKey) (secret : c.secretHash ≠ cfg.hashSecret req.secret) :
    Replies cfg m req keyTaken
  | failed {code : ℕ} {text : String} (h : code = 500 ∨ code = 503) : Replies cfg m req (.error code text none)
  | unchanged {c : ClientRecord} {sess : Session} (reopens : Reopens cfg m req c) :
    Replies cfg m req (.created sess req.secret cfg.network)

/-- What a transaction of `handleCreateSession` is. -/
inductive Creates (cfg : ServerConfig) (m : MemStore) (alive : AliveMap) (ω : Choice)
    (req : CreateSessionRequest) (backend : String) : Transaction → Prop
  /-- The session's access gateway can carry the new backend. -/
  | kept {c : ClientRecord} {gws : List Gateway} {own : OwnershipRecord}
    (reopens : Reopens cfg m req c) (switched : normBackend c.backend ≠ backend)
    (gateways : decodeGateways (m.list gatewayKeyPrefix) = .ok gws) (owned : ownershipIn m c.id = some own)
    (access : canAccess (gatewayOrZero gws own.access) backend = true)
    {writes : List (String × Doc)} (hw : writes = [(clientKey c.id, .client { c with backend })]) :
    Creates cfg m alive ω req backend
      { writes, failure := 503, answer := createdIn cfg (m.puts writes) { c with backend } req.secret,
        bumps := true }
  /-- The session moves to a gateway that can. -/
  | moved {c : ClientRecord} {gws : List Gateway} {own : OwnershipRecord} {access egress : String}
    (reopens : Reopens cfg m req c) (switched : normBackend c.backend ≠ backend)
    (gateways : decodeGateways (m.list gatewayKeyPrefix) = .ok gws) (owned : ownershipIn m c.id = some own)
    (path : pickPath cfg.quote gws alive own.egress backend = .ok (access, egress))
    {writes : List (String × Doc)}
    (hw : openWrites m ⟨c.id, access, own.egress, own.epoch + 1⟩ { c with backend } = .ok writes) :
    Creates cfg m alive ω req backend
      { writes, failure := 503, answer := createdIn cfg (m.puts writes) { c with backend } req.secret,
        bumps := true }
  /-- The key has no session, and gets one. -/
  | opened {cs : List ClientRecord} {gws : List Gateway} {access egress : String} {vip : Addr}
    {n : { n : UInt64 // n ≠ 0 }} {secret : String}
    (clients : decodeClients (m.list clientKeyPrefix) = .ok cs)
    (unknown : ∀ c ∈ cs, c.publicKey ≠ req.publicKey)
    (gateways : decodeGateways (m.list gatewayKeyPrefix) = .ok gws)
    (path : pickPath cfg.quote gws alive req.egress backend = .ok (access, egress))
    (address : allocate cfg.network.clientSubnet (cs.map ClientRecord.virtualIP) = .ok vip)
    (number : ω.number = .ok n) {c : ClientRecord}
    (hc : c = ⟨formatUint n.1, req.publicKey, vip, cfg.hashSecret secret, backend⟩)
    {writes : List (String × Doc)} (hw : openWrites m ⟨c.id, access, egress, 1⟩ c = .ok writes) :
    Creates cfg m alive ω req backend { writes, answer := createdIn cfg (m.puts writes) c secret, bumps := true }

variable {alive : AliveMap} {ω : Choice} {req : CreateSessionRequest} {backend : String} {t : Transaction}

theorem Creates.keys (h : Creates cfg m alive ω req backend t) :
    ∃ sid, ∀ w ∈ t.writes, w.1 = sessionKey sid ∨ w.1 = clientKey sid := by
  cases h with
  | @kept c _ _ _ _ _ _ _ _ hw => exact ⟨c.id, by simp [hw]⟩
  | moved _ _ _ _ _ hw => exact ⟨_, openWrites_keys hw rfl⟩
  | opened _ _ _ _ _ _ _ hw => exact ⟨_, openWrites_keys hw rfl⟩

/-- The key has a client record. -/
def Holds (m : MemStore) (key : String) : Prop := ∃ id c, m.get (clientKey id) = some (.client c) ∧ c.publicKey = key

/-- A transaction that stores the client of the request. -/
structure Stores (cfg : ServerConfig) (m : MemStore) (req : CreateSessionRequest) (t : Transaction)
    (c : ClientRecord) (secret : String) : Prop where
  only : ∀ key c', (key, Doc.client c') ∈ t.writes → c' = c
  stored : (m.puts t.writes).get (clientKey c.id) = some (.client c)
  key : c.publicKey = req.publicKey
  hash : c.secretHash = cfg.hashSecret secret
  answer : ∃ sess, t.answer = .created sess secret cfg.network
  failure : t.failure = 500 ∨ t.failure = 503
  known : secret = req.secret ∧ Holds m req.publicKey ∨ ¬ Holds m req.publicKey

theorem Reopens.holds (h : Reopens cfg m req c) : Holds m req.publicKey := by
  obtain ⟨cs, hcs, hc⟩ := h.found
  obtain ⟨id, hget⟩ := (mem_clients hcs c).1 hc
  exact ⟨id, c, hget, h.key⟩

theorem Creates.stores (h : Creates cfg m alive ω req backend t) : ∃ c secret, Stores cfg m req t c secret := by
  cases h with
  | @kept c _ own reopens _ _ owned _ _ hw =>
    have howned : ownershipIn (m.put (clientKey c.id) (.client { c with backend })) c.id = some own :=
      (ownershipIn_put_ne m _ (sessionKey_ne_clientKey _ _)).trans owned
    subst hw
    exact ⟨{ c with backend }, req.secret, by simp, m.get_put_self _ _, reopens.key, reopens.secret,
      createdIn_of_owned cfg (by rw [MemStore.puts]; exact howned ▸ rfl) _, Or.inr rfl,
      Or.inl ⟨rfl, reopens.holds⟩⟩
  | moved reopens _ _ _ _ hw =>
    obtain ⟨only, stored⟩ := openWrites_client hw
    exact ⟨_, req.secret, only, stored, reopens.key, reopens.secret,
      createdIn_of_owned cfg (owned_openWrites hw rfl) _, Or.inr rfl, Or.inl ⟨rfl, reopens.holds⟩⟩
  | @opened _ _ _ _ _ _ secret clients unknown _ _ _ _ _ hc _ hw =>
    obtain ⟨only, stored⟩ := openWrites_client hw
    refine ⟨_, secret, only, stored, by rw [hc], by rw [hc],
      createdIn_of_owned cfg (owned_openWrites hw rfl) _, Or.inl rfl, Or.inr ?_⟩
    rintro ⟨id, c, hget, key⟩
    exact unknown c ((mem_clients clients c).2 ⟨id, hget⟩) key

theorem planReopen_cases {cs : List ClientRecord} (hcs : decodeClients (m.list clientKeyPrefix) = .ok cs)
    (hc : cs.find? (·.publicKey == req.publicKey) = some c) :
    (∃ a, Replies cfg m req a ∧ planReopen cfg m alive req backend c = { answer := a }) ∨
      Creates cfg m alive ω req backend (planReopen cfg m alive req backend c) := by
  unfold planReopen
  have hmem := List.mem_of_find?_eq_some hc
  have key : c.publicKey = req.publicKey := by simpa using List.find?_some hc
  split_ifs with hsecret hback
  · exact Or.inl ⟨_, .taken hcs hmem key (by simpa using hsecret), rfl⟩
  · have reopens : Reopens cfg m req c := ⟨⟨cs, hcs, hmem⟩, key, by simpa using hsecret⟩
    have switched : normBackend c.backend ≠ backend := by simpa using hback
    unfold switchWrites
    cases hsess : sessionIn cfg m c with
    | error e => exact Or.inl ⟨_, .failed (by simp), rfl⟩
    | ok cur =>
      obtain ⟨own, hown, rfl⟩ := sessionIn_eq_ok.1 hsess
      cases hgws : decodeGateways (m.list gatewayKeyPrefix) with
      | error e => exact Or.inl ⟨_, .failed (by simp), rfl⟩
      | ok gws =>
        dsimp only
        split_ifs with hacc
        · cases hpath : pickPath cfg.quote gws alive (sessionOf cfg c own).egress backend with
          | error e => exact Or.inl ⟨_, .failed (by simp), rfl⟩
          | ok path =>
            dsimp only
            cases hw : openWrites m ⟨c.id, path.1, (sessionOf cfg c own).egress,
                (sessionOf cfg c own).epoch + 1⟩ { c with backend } with
            | error e => exact Or.inl ⟨_, .failed (by simp), rfl⟩
            | ok writes => exact Or.inr (.moved reopens switched hgws hown hpath hw)
        · exact Or.inr (.kept reopens switched hgws hown (by simpa [sessionOf] using hacc) rfl)
  · refine Or.inl ⟨_, ?_, rfl⟩
    rw [createdIn]
    cases sessionIn cfg m c with
    | error e => exact .failed (Or.inl rfl)
    | ok sess => exact .unchanged ⟨⟨cs, hcs, hmem⟩, key, by simpa using hsecret⟩

theorem planOpen_cases {cs : List ClientRecord} (hcs : decodeClients (m.list clientKeyPrefix) = .ok cs)
    (unknown : cs.find? (·.publicKey == req.publicKey) = none) :
    (∃ a, Replies cfg m req a ∧ planOpen cfg m alive ω req backend cs = { answer := a }) ∨
      Creates cfg m alive ω req backend (planOpen cfg m alive ω req backend cs) := by
  unfold planOpen
  cases hgws : decodeGateways (m.list gatewayKeyPrefix) with
  | error e => exact Or.inl ⟨_, .failed (by simp), rfl⟩
  | ok gws =>
    cases hpath : pickPath cfg.quote gws alive req.egress backend with
    | error e => exact Or.inl ⟨_, .failed (Or.inr rfl), by simp only [hpath]; rfl⟩
    | ok path =>
      cases hvip : allocate cfg.network.clientSubnet (cs.map ClientRecord.virtualIP) with
      | error e => exact Or.inl ⟨_, .failed (Or.inr rfl), by simp only [hpath]; rfl⟩
      | ok vip =>
        cases hn : ω.number with
        | error e => exact Or.inl ⟨_, .failed (Or.inl rfl), by simp only [hpath]; rfl⟩
        | ok n =>
          cases hs : ω.secret with
          | error e => exact Or.inl ⟨_, .failed (Or.inl rfl), by simp only [hpath]; rfl⟩
          | ok secret =>
            simp only [hpath]
            cases hw : openWrites m ⟨formatUint n.1, path.1, path.2, 1⟩
                ⟨formatUint n.1, req.publicKey, vip, cfg.hashSecret secret, backend⟩ with
            | error e => exact Or.inl ⟨_, .failed (by simp), rfl⟩
            | ok writes =>
              exact Or.inr (.opened hcs (by simpa using unknown) hgws hpath hvip hn rfl hw)

variable (cfg m) in
theorem planCreate_cases (alive : AliveMap) (ω : Choice) (req : CreateSessionRequest) (backend : String) :
    (∃ a, Replies cfg m req a ∧ planCreate cfg m alive ω req backend = { answer := a }) ∨
      Creates cfg m alive ω req backend (planCreate cfg m alive ω req backend) := by
  unfold planCreate
  cases hcs : decodeClients (m.list clientKeyPrefix) with
  | error e => exact Or.inl ⟨_, .failed (by simp), rfl⟩
  | ok cs =>
    dsimp only
    cases hc : cs.find? (·.publicKey == req.publicKey) with
    | none => exact planOpen_cases hcs hc
    | some c => exact planReopen_cases hcs hc

/-! ## Whole requests -/

variable (cfg m) in
theorem planRegisterGateway_cases (time : ℕ) (id : String) (body : Except String RegisterGatewayRequest) :
    (∃ code text, planRegisterGateway cfg m time id body = .refuse code text) ∨
      ∃ req, planRegisterGateway cfg m time id body = planRegister cfg m time id req := by
  unfold planRegisterGateway
  cases body with
  | error e =>
    split_ifs
    · exact Or.inl ⟨_, _, rfl⟩
    · exact Or.inl ⟨_, _, rfl⟩
  | ok req =>
    dsimp only
    split_ifs
    · exact Or.inl ⟨_, _, rfl⟩
    · exact Or.inl ⟨_, _, rfl⟩
    · exact Or.inl ⟨_, _, rfl⟩
    · exact Or.inl ⟨_, _, rfl⟩
    · exact Or.inr ⟨req, rfl⟩

variable (cfg m) in
theorem planCreateSession_cases (alive : AliveMap) (ω : Choice) (bearer : String)
    (body : Except String CreateSessionRequest) :
    (∃ code text, (code = 400 ∨ code = 401) ∧ planCreateSession cfg m alive ω bearer body = .refuse code text) ∨
      ∃ req, body = .ok req ∧
        planCreateSession cfg m alive ω bearer body = planCreate cfg m alive ω req (normBackend req.backend) := by
  unfold planCreateSession
  cases body with
  | error e =>
    split_ifs
    · exact Or.inl ⟨_, _, Or.inr rfl, rfl⟩
    · exact Or.inl ⟨_, _, Or.inl rfl, rfl⟩
  | ok req =>
    dsimp only
    split_ifs
    · exact Or.inl ⟨_, _, Or.inr rfl, rfl⟩
    · exact Or.inl ⟨_, _, Or.inl rfl, rfl⟩
    · exact Or.inl ⟨_, _, Or.inl rfl, rfl⟩
    · exact Or.inl ⟨_, _, Or.inl rfl, rfl⟩
    · exact Or.inr ⟨req, rfl, rfl⟩

def Request.mutates : Request → Bool
  | .registerGateway _ _ _ => true
  | .createSession _ _ => true
  | .migrate _ _ _ => true
  | _ => false

variable {r : Request}

theorem isSome_plan (cfg : ServerConfig) (m : MemStore) (alive : AliveMap) (ω : Choice)
    (hr : r.mutates = true) : (plan cfg m alive ω r).isSome := by
  cases r with
  | registerGateway bearer id body =>
    rw [plan]
    split_ifs <;> rfl
  | createSession bearer body => rfl
  | migrate bearer id body =>
    rw [plan]
    cases decodeClient (m.get (clientKey id)) with
    | error e => rfl
    | ok found =>
      cases found with
      | none => rfl
      | some c =>
        dsimp only
        split_ifs <;> rfl
  | _ => cases hr

/-- What the transaction of a request is. -/
inductive Planned (cfg : ServerConfig) (m : MemStore) (alive : AliveMap) (ω : Choice) : Request → Transaction → Prop
  | quiet {r : Request} {t : Transaction} (h : t.writes = []) : Planned cfg m alive ω r t
  | registers {bearer id : String} {body : Except String RegisterGatewayRequest} {gws : List Gateway}
    {g : Gateway} {t : Transaction} (h : Registers cfg m id gws g t) :
    Planned cfg m alive ω (.registerGateway bearer id body) t
  | moves {bearer id : String} {req : MigrateRequest} {c : ClientRecord} {gws : List Gateway}
    {own : OwnershipRecord} {t : Transaction} (hc : m.get (clientKey id) = some (.client c))
    (h : Moves cfg m req c gws own t) : Planned cfg m alive ω (.migrate bearer id (.ok req)) t
  | creates {bearer : String} {req : CreateSessionRequest} {t : Transaction}
    (h : Creates cfg m alive ω req (normBackend req.backend) t) :
    Planned cfg m alive ω (.createSession bearer (.ok req)) t

theorem plan_cases (h : plan cfg m alive ω r = some t) : Planned cfg m alive ω r t := by
  cases r with
  | registerGateway bearer id body =>
    rw [plan] at h
    split_ifs at h <;> cases h
    · exact .quiet rfl
    rcases planRegisterGateway_cases cfg m ω.time id body with ⟨_, _, h⟩ | ⟨req, h⟩ <;> rw [h]
    · exact .quiet rfl
    rcases planRegister_cases cfg m ω.time id req with h | ⟨gws, g, h⟩
    · exact .quiet h
    · exact .registers h
  | createSession bearer body =>
    rw [plan, Option.some.injEq] at h
    subst h
    rcases planCreateSession_cases cfg m alive ω bearer body with ⟨_, _, -, h⟩ | ⟨req, rfl, h⟩ <;> rw [h]
    · exact .quiet rfl
    rcases planCreate_cases cfg m alive ω req (normBackend req.backend) with ⟨a, -, h⟩ | h
    · rw [h]
      exact .quiet rfl
    · exact .creates h
  | migrate bearer id body =>
    rw [plan] at h
    cases hc : decodeClient (m.get (clientKey id)) with
    | error e =>
      rw [hc] at h
      cases h
      exact .quiet rfl
    | ok found =>
      rw [hc] at h
      cases found with
      | none =>
        cases h
        exact .quiet rfl
      | some c =>
        dsimp only at h
        split_ifs at h <;> cases h
        · exact .quiet rfl
        cases body with
        | error e => exact .quiet rfl
        | ok req =>
          rw [planMigrateWith]
          rcases planMigrate_cases cfg m req c with ⟨a, h⟩ | ⟨gws, own, h⟩
          · rw [h]
            exact .quiet rfl
          · exact .moves (get_of_decodeClient hc) h
  | _ => cases h

theorem Planned.client (h : Planned cfg m alive ω r t) {key : String} (hc : (key, Doc.client c) ∈ t.writes) :
    ∃ bearer req, r = .createSession bearer (.ok req) ∧ c.publicKey = req.publicKey := by
  cases h with
  | quiet h => simp [h] at hc
  | registers h => simp [h.writes] at hc
  | moves _ h => simp [h.writes] at hc
  | @creates bearer req _ h =>
    obtain ⟨c', _, stores⟩ := h.stores
    obtain rfl := stores.only key c hc
    exact ⟨bearer, req, rfl, stores.key⟩

theorem Backed.serve_cases {κ ι : Type} [DecidableEq κ] [DecidableEq ι]
    {store : KVStore (HandlerSig κ)} {write : Disk ι → String → Doc → Option String × Disk ι}
    (hk : Backed store write) {k : κ} {i : ι} {s s' : ServerState κ ι} {a : Answer}
    (hr : r.mutates = true) (idle : Idle k s) (h : alone ω i (serve cfg store k r) s = some (a, s')) :
    ∃ t done, plan cfg s.1.mem (s.2 k).alive ω r = some t ∧ Idle k s' ∧ done <+: t.writes ∧
      s'.1.mem = s.1.mem.puts done ∧ (a = t.answer ∧ done = t.writes ∨ ∃ e, a = .error t.failure e none) := by
  obtain ⟨t, ht⟩ := Option.isSome_iff_exists.1 (isSome_plan cfg s.1.mem (s.2 k).alive ω hr)
  have run := (hk.alone_serve (ω := ω) (i := i) k cfg idle ht).symm.trans h
  obtain rfl : (t.run write k s).1 = a := congrArg Prod.fst (Option.some.inj run)
  obtain rfl : (t.run write k s).2 = s' := congrArg Prod.snd (Option.some.inj run)
  obtain ⟨done, hd, mem, answer⟩ := t.run_cases hk k s
  exact ⟨t, done, ht, idle.run hk k t, hd, mem, answer⟩

/-! ## Order -/

/-- Documents are stored under their own keys. -/
structure Tidy (m : MemStore) : Prop where
  gateways : ∀ id doc, m.get (gatewayKey id) = some doc → ∃ g, doc = .gateway g ∧ g.id = id
  clients : WellFormed m

theorem Tidy.nodup_gateways (tidy : Tidy m) {gws : List Gateway}
    (h : decodeGateways (m.list gatewayKeyPrefix) = .ok gws) : (gws.map Gateway.id).Nodup := by
  unfold decodeGateways at h
  cases hm : (m.list gatewayKeyPrefix).mapM fun p => unmarshalGateway p.2 with
  | error e => simp [hm, Except.map] at h
  | ok l =>
    simp only [hm, Except.map, Except.ok.injEq] at h
    subst h
    have keys : l.map (fun g => gatewayKey g.id) = (m.list gatewayKeyPrefix).map Prod.fst := by
      refine map_of_mapM_ok hm fun p hp g hg => ?_
      obtain ⟨hpre, hget⟩ := m.mem_list.1 hp
      obtain ⟨id, hid⟩ := eq_append_of_hasPrefix hpre
      rw [hid] at hget ⊢
      obtain ⟨g', hg', rfl⟩ := tidy.gateways id _ hget
      rw [hg'] at hg
      cases hg
      rfl
    have nodup : (l.map fun g => gatewayKey g.id).Nodup := keys ▸ m.nodup_list gatewayKeyPrefix
    refine ((List.perm_insertionSort _ l).map Gateway.id).nodup_iff.2 (List.Nodup.of_map gatewayKey ?_)
    rwa [List.map_map]

theorem Reopens.stored (tidy : Tidy m) (h : Reopens cfg m req c) : m.get (clientKey c.id) = some (.client c) := by
  obtain ⟨cs, hcs, hc⟩ := h.found
  obtain ⟨id, hget⟩ := (mem_clients hcs c).1 hc
  obtain ⟨c', hc', rfl, -⟩ := tidy.clients id _ hget
  cases hc'
  exact hget

theorem tidy_empty : Tidy .empty := ⟨fun _ _ h => by simp at h, fun _ _ h => by simp at h⟩

/-- Writes that keep a store tidy. -/
inductive Orderly : MemStore → List (String × Doc) → Prop
  | nil {m : MemStore} : Orderly m []
  | gateway {m : MemStore} {id : String} {g : Gateway} {rest : List (String × Doc)} (named : g.id = id)
    (h : Orderly (m.put (gatewayKey id) (.gateway g)) rest) : Orderly m ((gatewayKey id, .gateway g) :: rest)
  | owner {m : MemStore} {r : OwnershipRecord} {rest : List (String × Doc)} (valid : r.validate = .ok ())
    (h : Orderly (m.put (sessionKey r.session) (.ownership r)) rest) :
    Orderly m ((sessionKey r.session, .ownership r) :: rest)
  | client {m : MemStore} {c : ClientRecord} {rest : List (String × Doc)}
    (owned : (ownershipIn m c.id).isSome) (h : Orderly (m.put (clientKey c.id) (.client c)) rest) :
    Orderly m ((clientKey c.id, .client c) :: rest)

theorem Tidy.put_other (tidy : Tidy m) {key : String} {value : Doc} (hkey : ∀ id, gatewayKey id ≠ key)
    (clients : WellFormed (m.put key value)) : Tidy (m.put key value) := by
  refine ⟨fun id doc h => tidy.gateways id doc ?_, clients⟩
  rwa [m.get_put_ne value (hkey id)] at h

theorem Tidy.puts (tidy : Tidy m) {writes done : List (String × Doc)} (h : Orderly m writes)
    (hd : done <+: writes) : Tidy (m.puts done) := by
  induction h generalizing done with
  | nil =>
    obtain rfl := List.prefix_nil.1 hd
    exact tidy
  | @gateway m id g rest named h ih =>
    rcases List.prefix_cons_iff.1 hd with rfl | ⟨done, rfl, hd'⟩
    · exact tidy
    refine ih ⟨fun id' doc hdoc => ?_, tidy.clients.put_gateway id _⟩ hd'
    rw [m.get_put] at hdoc
    split_ifs at hdoc with hid
    · exact ⟨g, (Option.some.inj hdoc).symm, named.trans (gatewayKey_inj.1 hid).symm⟩
    · exact tidy.gateways id' doc hdoc
  | owner valid h ih =>
    rcases List.prefix_cons_iff.1 hd with rfl | ⟨done, rfl, hd'⟩
    · exact tidy
    exact ih (tidy.put_other (fun id => (sessionKey_ne_gatewayKey _ id).symm) (tidy.clients.put_owner valid)) hd'
  | client owned h ih =>
    rcases List.prefix_cons_iff.1 hd with rfl | ⟨done, rfl, hd'⟩
    · exact tidy
    exact ih (tidy.put_other (fun id => (clientKey_ne_gatewayKey _ id).symm) (tidy.clients.put_client owned)) hd'

theorem openWrites_orderly {writes : List (String × Doc)}
    (h : openWrites m rec c = .ok writes) (session : rec.session = c.id) : Orderly m writes := by
  obtain ⟨valid, ⟨-, rfl⟩ | ⟨⟨own, hown, -⟩, rfl⟩⟩ := openWrites_cases h
  · refine .owner valid (.client ?_ .nil)
    rw [← session, ownershipIn_put_self m valid]
    rfl
  · refine .client ?_ .nil
    rw [← session, hown]
    rfl

theorem Creates.orderly (h : Creates cfg m alive ω req backend t) : Orderly m t.writes := by
  cases h with
  | @kept c _ _ _ _ _ owned _ _ hw =>
    rw [hw]
    exact .client (c := { c with backend }) (by rw [owned]; rfl) .nil
  | moved _ _ _ _ _ hw => exact openWrites_orderly hw rfl
  | opened _ _ _ _ _ _ _ hw => exact openWrites_orderly hw rfl

theorem Moves.orderly {req : MigrateRequest} {gws : List Gateway} {own : OwnershipRecord}
    (h : Moves cfg m req c gws own t) :
    Orderly m t.writes := by
  rw [h.writes]
  exact .owner h.valid .nil

theorem Planned.orderly (h : Planned cfg m alive ω r t) : Orderly m t.writes := by
  cases h with
  | quiet h =>
    rw [h]
    exact .nil
  | registers h =>
    rw [h.writes]
    exact .gateway h.named .nil
  | moves hc h => exact h.orderly
  | creates h => exact h.orderly

theorem Tidy.serve {κ ι : Type} [DecidableEq κ] [DecidableEq ι]
    {store : KVStore (HandlerSig κ)} {write : Disk ι → String → Doc → Option String × Disk ι}
    (hk : Backed store write) {k : κ} {i : ι} {s s' : ServerState κ ι} {a : Answer}
    (hr : r.mutates = true) (tidy : Tidy s.1.mem) (idle : Idle k s)
    (h : alone ω i (Egressa.serve cfg store k r) s = some (a, s')) : Tidy s'.1.mem := by
  obtain ⟨t, done, ht, -, hd, mem, -⟩ := hk.serve_cases hr idle h
  rw [mem]
  exact tidy.puts (plan_cases ht).orderly hd

namespace Trial

theorem get_client_gateways (id : String) : gateways.get (clientKey id) = none := by
  rw [gateways, MemStore.get_put_ne _ _ (clientKey_ne_gatewayKey id "b"),
    MemStore.get_put_ne _ _ (clientKey_ne_gatewayKey id "a"), MemStore.get_empty]

theorem tidy_gateways : Tidy gateways :=
  tidy_empty.puts (.gateway (g := gateway "a" true) rfl (.gateway (g := gateway "b" false) rfl .nil)) List.prefix_rfl

theorem tidy_store : Tidy store :=
  tidy_gateways.puts (.owner (r := ⟨"7", "a", "a", 1⟩) (by decide) (.client (c := client) (by decide) .nil))
    List.prefix_rfl

def controller (faults : List (Option String)) : ServerState Unit Unit := ({ mem := store, faults }, fun _ => {})

end Trial

end Egressa
