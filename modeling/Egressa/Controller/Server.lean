import Egressa.Controller.Basic
import Egressa.Strconv

/-!
# The controller

The handlers of `internal/controller/server.go` as programs over a store and the fields of `Server`.  A handler that
writes holds the mutex `mu` from before its first read of the store until after its answer (`locked`).  The clock, the
random numbers and the end of a long poll's patience are choices (`Choice`).
-/

namespace Egressa

open Conc

/-- The fields of `Server` that `mu` guards. -/
structure Server (ι : Type) where
  mu : Option ι := none
  /-- A `uint64` in the source, counted up once a change. -/
  version : ℕ := 1
  alive : AliveMap := ∅
  lastSeen : AList (fun _ : String => ℕ) := ∅

/-- What the handlers do with the fields of the server. -/
inductive ServerOp where
  | lock
  | unlock
  /-- `waitVersion` reads the version, and with it the channel the next change closes. -/
  | poll
  /-- `waitVersion` waits for a change from version `v`, or gives up. -/
  | select (v : ℕ)
  /-- `snapshot` reads the version. -/
  | version
  /-- `snapshot` reads which gateways are alive. -/
  | aliveFlags
  /-- A handler that holds the mutex reads which gateways are alive, and when they were seen. -/
  | fields
  | setAlive (id : String) (alive : Bool)
  | setLastSeen (id : String) (time : ℕ)
  | bump
  | now
  | randomSessionID
  | randomSecret
  | respond (a : Answer)

def ServerOp.Res : ServerOp → Type
  | poll => ℕ
  | select _ => Bool
  | version => ℕ
  | aliveFlags => AliveMap
  | fields => AliveMap × AList fun _ : String => ℕ
  | now => ℕ
  | randomSessionID => Except String String
  | randomSecret => Except String String
  | _ => Unit

/-- What a run of the server does not settle: time and random values. -/
structure Choice where
  time : ℕ := 0
  /-- The session number drawn, zeros discarded, or the error of the random source. -/
  number : Except String { n : UInt64 // n ≠ 0 } := .error "no randomness"
  secret : Except String String := .error "no randomness"
  expired : Bool := false

abbrev ServerSig (κ : Type) : Sig := ⟨κ × ServerOp, fun o => o.2.Res⟩

/-- The operations on one server. -/
def Server.exec {ι : Type} [DecidableEq ι] (ω : Choice) (i : ι) (o : ServerOp) (s : Server ι) :
    Option (o.Res × Server ι) :=
  match o with
  | .lock => if s.mu = none then some ((), { s with mu := some i }) else none
  | .unlock => if s.mu = some i then some ((), { s with mu := none }) else none
  | .poll => if s.mu = none then some (s.version, s) else none
  -- the channel read with version `v` is closed by the next change
  | .select v => if ω.expired then some (false, s) else if s.version ≠ v then some (true, s) else none
  | .version => if s.mu = none then some (s.version, s) else none
  | .aliveFlags => if s.mu = none then some (s.alive, s) else none
  | .fields => some ((s.alive, s.lastSeen), s)
  | .setAlive id alive => some ((), { s with alive := s.alive.insert id alive })
  | .setLastSeen id time => some ((), { s with lastSeen := s.lastSeen.insert id time })
  | .bump => some ((), { s with version := s.version + 1 })
  | .now => some (ω.time, s)
  | .randomSessionID => some (ω.number.map fun n => formatUint n.1, s)
  | .randomSecret => some (ω.secret, s)
  | .respond _ => some ((), s)

/-- The servers over one store. -/
def serverSystem (κ ι : Type) [DecidableEq κ] [DecidableEq ι] : System ι (ServerSig κ) (κ → Server ι) Choice where
  exec ω i o s := ((s o.1).exec ω i o.2).map fun p => (p.1, Function.update s o.1 p.2)

abbrev ServerState (κ ι : Type) := Disk ι × (κ → Server ι)

abbrev serverPool (κ ι : Type) [DecidableEq κ] [DecidableEq ι] :
    System ι (StoreSig.sum (ServerSig κ)) (ServerState κ ι) Choice :=
  (storeSystem ι Choice).sum (serverSystem κ ι)

/-! ## Handlers -/

section Handlers

variable {κ : Type}

abbrev HandlerSig (κ : Type) : Sig := StoreSig.sum (ServerSig κ)

abbrev Handler (κ : Type) (α : Type) := Prog (HandlerSig κ) α

def onServer (k : κ) (o : ServerOp) : Handler κ o.Res := .call (S := StoreSig.sum (ServerSig κ)) (.inr (k, o))

variable (cfg : ServerConfig) (store : KVStore (HandlerSig κ)) (k : κ)

def poll : Handler κ ℕ := onServer k .poll
def select (v : ℕ) : Handler κ Bool := onServer k (.select v)
def readVersion : Handler κ ℕ := onServer k .version
def aliveFlags : Handler κ AliveMap := onServer k .aliveFlags
def fields : Handler κ (AliveMap × AList fun _ : String => ℕ) := onServer k .fields
def now : Handler κ ℕ := onServer k .now
def randomSessionID : Handler κ (Except String String) := onServer k .randomSessionID
def randomSecret : Handler κ (Except String String) := onServer k .randomSecret

def respond (a : Answer) : Handler κ Answer := do
  onServer k (.respond a)
  return a

/-- A new version: whoever waits is woken. -/
def bumpLocked : Handler κ Unit := onServer k .bump

/-- A gateway has been heard of; if it was dead, that is news. -/
def seenLocked (id : String) : Handler κ Unit := do
  onServer k (.setLastSeen id (← now k))
  let (alive, _) ← fields k
  if !aliveIn alive id then
    onServer k (.setAlive id true)
    bumpLocked k

/-- A handler's body under the mutex, which is released after the answer. -/
def locked (body : Handler κ Answer) : Handler κ Answer := do
  onServer k .lock
  let a ← respond k (← body)
  onServer k .unlock
  return a

def gateways : Handler κ (Except String (List Gateway)) := do
  match ← store.list gatewayKeyPrefix with
  | .error e => return .error e
  | .ok raw => return decodeGateways raw

def clients : Handler κ (Except String (List ClientRecord)) := do
  match ← store.list clientKeyPrefix with
  | .error e => return .error e
  | .ok raw => return decodeClients raw

def clientByID (id : String) : Handler κ (Except String (Option ClientRecord)) := do
  match ← store.get (clientKey id) with
  | .error e => return .error e
  | .ok data => return decodeClient data

def policyGet : Handler κ (Except String PolicyDocument) := do
  match ← store.get policyKey with
  | .error e => return .error e
  | .ok data => return decodePolicy data

def session (c : ClientRecord) : Handler κ (Except String Session) := do
  match ← ownershipGet store c.id with
  | .error e => return .error e
  | .ok none => return .error ("controller: session " ++ c.id ++ " has no ownership record")
  | .ok (some own) => return .ok (sessionOf cfg c own)

/-! ### Gateways -/

/-- A gateway keeps its node IP, a new one is allocated one. -/
def nodeIPOf (gws : List Gateway) (id : String) : Except String Addr :=
  match findGateway gws id with
  | some g => .ok g.nodeIP
  | none => allocate cfg.network.nodeSubnet (gws.map Gateway.nodeIP)

def RegisterGatewayRequest.record (req : RegisterGatewayRequest) (id : String) (nodeIP : Addr) : Gateway where
  id := id
  roles := req.roles
  endpoint := req.endpoint
  publicKey := req.publicKey
  nodeIP := nodeIP
  backbonePorts := req.backbonePorts
  ipsec := req.ipsec

/-- `handleRegisterGateway` under the lock. -/
def registerGatewayBody (id : String) (req : RegisterGatewayRequest) : Handler κ Answer := do
  match ← gateways store with
  | .error e => return .error 500 e none
  | .ok gws =>
    match nodeIPOf cfg gws id with
    | .error e => return .error 503 e none
    | .ok nodeIP =>
      let next := req.record id nodeIP
      if (findGateway gws id).all (fun g => !gatewayEqual g next) then
        match ← store.put (gatewayKey id) (.gateway next) with
        | some e => return .error 500 e none
        | none =>
          bumpLocked k
          seenLocked k id
          return .registered nodeIP cfg.network
      else
        seenLocked k id
        return .registered nodeIP cfg.network

def registerGateway (id : String) (body : Except String RegisterGatewayRequest) : Handler κ Answer :=
  if !validGatewayID id then
    respond k (.error 400 ("gateway id " ++ cfg.quote id ++ " must match ^[a-z0-9][a-z0-9-]\x7b0,31\x7d$") none)
  else match body with
    | .error e => respond k (.error 400 ("bad request body: " ++ e) none)
    | .ok req =>
      if !cfg.validAddrPort req.endpoint then
        respond k (.error 400 ("endpoint " ++ cfg.quote req.endpoint ++ " must be ip:port") none)
      else if !validPublicKey req.publicKey then
        respond k (.error 400 ("public key " ++ cfg.quote req.publicKey ++ " is not 32 bytes of base64") none)
      else if !req.roles.has roleAccess && !req.roles.has roleEgress then
        respond k (.error 400 "a gateway needs the access or the egress role" none)
      else locked k (registerGatewayBody cfg store k id req)

/-- `reportLinks`, less the links: a report is also a heartbeat. -/
def reportLinks (id : String) (body : Except String Unit) : Handler κ Answer :=
  match body with
  | .error e => respond k (.error 400 ("bad request body: " ++ e) none)
  | .ok () => locked k do
    match ← store.get (gatewayKey id) with
    | .ok (some _) =>
      seenLocked k id
      return .noContent
    | _ => return .error 404 ("gateway " ++ id ++ " is not registered") none

/-- The loop of `sweep`. -/
def sweepGateways (now : ℕ) (lastSeen : AList fun _ : String => ℕ) :
    List (Sigma fun _ : String => Bool) → Handler κ Unit
  | [] => return ()
  | ⟨id, alive⟩ :: rest => do
    if alive && (lastSeen.lookup id).getD 0 + cfg.aliveAfter < now then
      onServer k (.setAlive id false)
      bumpLocked k
    sweepGateways now lastSeen rest

/-- Gateways not heard of for long are marked dead. -/
def sweep : Handler κ Unit := do
  onServer k .lock
  let time ← now k
  let (alive, lastSeen) ← fields k
  sweepGateways cfg k time lastSeen alive.entries
  onServer k .unlock

/-! ### Long polls -/

/-- `waitVersion`: until the version is above `after`, or the wait is over. -/
def waitVersion (after : ℕ) : Handler κ Unit :=
  Prog.iterate (β := Unit) (fun _ => do
    let v ← poll k
    if after < v then return .inr ()
    if ← select k v then return .inl () else return .inr ()) ()

/-- `snapshot`: the version first, then the gateways, then which of them are alive. -/
def snapshot : Handler κ (Except String (ℕ × List Gateway)) := do
  let v ← readVersion k
  match ← gateways store with
  | .error e => return .error e
  | .ok gws =>
    let alive ← aliveFlags k
    return .ok (v, gws.map fun g => { g with alive := aliveIn alive g.id })

def listGateways : Handler κ Answer := do
  match ← snapshot store k with
  | .error e => respond k (.error 500 e none)
  | .ok (_, gws) => respond k (.gateways (gws.map fun g => { g with backbonePorts := [] }))

def sessions : List ClientRecord → Handler κ (List Session)
  | [] => return []
  | c :: cs => do
    let sess ← session cfg store c
    let rest ← sessions cs
    return (match sess with
      | .error _ => rest
      | .ok sess => sess :: rest)

def gatewayState (after : ℕ) : Handler κ Answer := do
  waitVersion k after
  match ← snapshot store k with
  | .error e => respond k (.error 500 e none)
  | .ok (v, gws) =>
    match ← clients store with
    | .error e => respond k (.error 500 e none)
    | .ok cs =>
      let ss ← sessions cfg store cs
      respond k (.gatewayState ⟨v, cfg.network, gws, ss⟩)

/-- `sessionAuth`: the client record of session `id`, if the caller knows its secret. -/
def sessionAuth (id bearer : String) (h : ClientRecord → Handler κ Answer) : Handler κ Answer := do
  match ← clientByID store id with
  | .error e => respond k (.error 500 e none)
  | .ok none => respond k (.error 401 "unknown session or bad session secret" none)
  | .ok (some rec) =>
    if rec.secretHash != cfg.hashSecret bearer then
      respond k (.error 401 "unknown session or bad session secret" none)
    else h rec

def clientState (after : ℕ) (c : ClientRecord) : Handler κ Answer := do
  waitVersion k after
  match ← snapshot store k with
  | .error e => respond k (.error 500 e none)
  | .ok (v, gws) =>
    match ← session cfg store c with
    | .error e => respond k (.error 500 e none)
    | .ok sess =>
      match ← policyGet store with
      | .error e => respond k (.error 500 e none)
      | .ok pol => respond k (.clientState ⟨v, cfg.network, sess, gws, pol⟩)

/-! ### Sessions -/

/-- The part of `switchBackendLocked` that moves the session to a gateway with the backend. -/
def moveToBackend (gws : List Gateway) (c : ClientRecord) (cur : Session) (backend : String) :
    Handler κ (Option String) := do
  if !canAccess (gatewayOrZero gws cur.access) backend then
    let (alive, _) ← fields k
    match pickPath cfg.quote gws alive cur.egress backend with
    | .error e => return some e
    | .ok (access, _) =>
      let (_, err) ← setIfNewer store ⟨c.id, access, cur.egress, cur.epoch + 1⟩
      return err
  else return none

/-- The part of `switchBackendLocked` that records the client's backend. -/
def recordBackend (c : ClientRecord) (backend : String) : Handler κ (Option String) := do
  match ← store.put (clientKey c.id) (.client { c with backend }) with
  | some e => return some e
  | none =>
    bumpLocked k
    return none

/-- Changes the backend; the session moves if its access gateway cannot carry it. -/
def switchBackendLocked (c : ClientRecord) (backend : String) : Handler κ (Option String) := do
  match ← session cfg store c with
  | .error e => return some e
  | .ok cur =>
    match ← gateways store with
    | .error e => return some e
    | .ok gws =>
      match ← moveToBackend cfg store k gws c cur backend with
      | some e => return some e
      | none => recordBackend store k c backend

/-- The end of `createSession`: the session of client `c` is read, and answered with its secret. -/
def answerCreated (c : ClientRecord) (secret : String) : Handler κ Answer := do
  match ← session cfg store c with
  | .error e => return .error 500 e none
  | .ok sess => return .created sess secret cfg.network

def keyTaken : Answer := .error 409 "this public key already has a session; send its secret to reopen it" none

/-- `createSession` for a key that already has session `c`. -/
def reopenSession (req : CreateSessionRequest) (backend : String) (c : ClientRecord) : Handler κ Answer := do
  if c.secretHash != cfg.hashSecret req.secret then return keyTaken
  if normBackend c.backend != backend then
    match ← switchBackendLocked cfg store k c backend with
    | some e => return .error 503 e none
    | none => answerCreated cfg store { c with backend } req.secret
  else answerCreated cfg store c req.secret

/-- `createSession` for a new key: the ownership record is written before the client record. -/
def openSession (req : CreateSessionRequest) (backend : String) (cs : List ClientRecord) : Handler κ Answer := do
  match ← gateways store with
  | .error e => return .error 500 e none
  | .ok gws =>
    let (alive, _) ← fields k
    match pickPath cfg.quote gws alive req.egress backend with
    | .error e => return .error 503 e none
    | .ok (access, egress) =>
      match allocate cfg.network.clientSubnet (cs.map ClientRecord.virtualIP) with
      | .error e => return .error 503 e none
      | .ok vip =>
        match ← randomSessionID k with
        | .error e => return .error 500 e none
        | .ok id =>
          match ← randomSecret k with
          | .error e => return .error 500 e none
          | .ok secret =>
            match ← setIfNewer store ⟨id, access, egress, 1⟩ with
            | (_, some e) => return .error 500 e none
            | (_, none) =>
              let rec' : ClientRecord := ⟨id, req.publicKey, vip, cfg.hashSecret secret, backend⟩
              match ← store.put (clientKey id) (.client rec') with
              | some e => return .error 500 e none
              | none =>
                bumpLocked k
                answerCreated cfg store rec' secret

/-- `handleCreateSession` under the lock. -/
def createSessionBody (req : CreateSessionRequest) (backend : String) : Handler κ Answer := do
  match ← clients store with
  | .error e => return .error 500 e none
  | .ok cs =>
    match cs.find? (·.publicKey == req.publicKey) with
    | some c => reopenSession cfg store k req backend c
    | none => openSession cfg store k req backend cs

def createSession (bearer : String) (body : Except String CreateSessionRequest) : Handler κ Answer :=
  if !tokenOK cfg.clientToken bearer then respond k (.error 401 "bad client token" none)
  else match body with
    | .error e => respond k (.error 400 ("bad request body: " ++ e) none)
    | .ok req =>
      if !validPublicKey req.publicKey then
        respond k (.error 400 ("public key " ++ cfg.quote req.publicKey ++ " is not 32 bytes of base64") none)
      else if !validBackend req.backend then
        respond k (.error 400 ("unknown backend " ++ cfg.quote req.backend) none)
      else
        let backend := normBackend req.backend
        if backend == backendIPsec && !cfg.hasIPsecKey then
          respond k (.error 400 "this controller has no IPsec key; only WireGuard is available" none)
        else locked k (createSessionBody cfg store k req backend)

def conflict (sess : Session) : Answer := .error 409 "the session is at another epoch" (some sess)

def noAccess (access backend : String) : Answer :=
  .error 400 ("no access gateway " ++ cfg.quote access ++ " for a " ++ backend ++ " session") none

def noEgress (egress : String) : Answer := .error 400 ("no egress gateway " ++ cfg.quote egress) none

/-- `handleMigrate` under the lock. -/
def migrateBody (req : MigrateRequest) (c : ClientRecord) : Handler κ Answer := do
  match ← gateways store with
  | .error e => return .error 500 e none
  | .ok gws =>
    if !(findGateway gws req.access).any (canAccess · (normBackend c.backend)) then
      return noAccess cfg req.access (normBackend c.backend)
    if !(findGateway gws req.egress).any (·.roles.has roleEgress) then
      return noEgress cfg req.egress
    match ← session cfg store c with
    | .error e => return .error 500 e none
    | .ok cur =>
      if req.epoch ≠ cur.epoch then return conflict cur
      match ← setIfNewer store ⟨c.id, req.access, req.egress, cur.epoch + 1⟩ with
      | (_, some e) => return .error 500 e none
      | (false, none) =>
        -- another controller sharing the store got there first
        match ← session cfg store c with
        | .ok now => return conflict now
        | .error _ => return .error 409 "the session moved concurrently" none
      | (true, none) =>
        bumpLocked k
        return .migrated { cur with access := req.access, egress := req.egress, epoch := cur.epoch + 1 }

def migrate (body : Except String MigrateRequest) (c : ClientRecord) : Handler κ Answer :=
  match body with
  | .error e => respond k (.error 400 ("bad request body: " ++ e) none)
  | .ok req => locked k (migrateBody cfg store k req c)

/-! ### Requests -/

/-- The requests, with what the router reads of them. -/
inductive Request where
  | registerGateway (bearer id : String) (body : Except String RegisterGatewayRequest)
  | reportLinks (bearer id : String) (body : Except String Unit)
  | gatewayState (bearer : String) (after : ℕ)
  | listGateways (bearer : String)
  | createSession (bearer : String) (body : Except String CreateSessionRequest)
  | clientState (bearer id : String) (after : ℕ)
  | migrate (bearer id : String) (body : Except String MigrateRequest)
  | sweep

def gatewayAuth (bearer : String) (h : Handler κ Answer) : Handler κ Answer :=
  if !tokenOK cfg.gatewayToken bearer then respond k (.error 401 "bad gateway token" none) else h

def clientAuth (bearer : String) (h : Handler κ Answer) : Handler κ Answer :=
  if !tokenOK cfg.clientToken bearer then respond k (.error 401 "bad client token" none) else h

/-- The routes of the API. -/
def serve : Request → Handler κ Answer
  | .registerGateway bearer id body => gatewayAuth cfg k bearer (registerGateway cfg store k id body)
  | .reportLinks bearer id body => gatewayAuth cfg k bearer (reportLinks store k id body)
  | .gatewayState bearer after => gatewayAuth cfg k bearer (gatewayState cfg store k after)
  | .listGateways bearer => clientAuth cfg k bearer (listGateways store k)
  | .createSession bearer body => createSession cfg store k bearer body
  | .clientState bearer id after => sessionAuth cfg store k id bearer (clientState cfg store k after)
  | .migrate bearer id body => sessionAuth cfg store k id bearer (migrate cfg store k body)
  | .sweep => do
    sweep cfg k
    return .noContent

end Handlers

/-! ## A small network

What the examples are evaluated on: no tokens, secrets that hash to themselves, and one client,
whose public key is all zeros. -/

namespace Trial

def config : ServerConfig where
  gatewayToken := ""
  clientToken := ""
  network := ⟨⟨0x0a000000, 8⟩, ⟨0x0b000000, 8⟩, 1⟩
  aliveAfter := 10
  hasIPsecKey := true
  ipsecPSK id := id
  hashSecret secret := secret
  validAddrPort _ := true
  quote text := text

def publicKey : String := "AAAAAAAAAAAAAAAAAAAAAAAAAAAAAAAAAAAAAAAAAAA="

def gateway (id : String) (ipsec : Bool) : Gateway := { id, roles := roleAccess ||| roleEgress, ipsec }

def gateways : MemStore :=
  (MemStore.empty.put (gatewayKey "a") (.gateway (gateway "a" true))).put
    (gatewayKey "b") (.gateway (gateway "b" false))

def client : ClientRecord := ⟨"7", publicKey, .v4 0x0a000002, "secret", backendWireGuard⟩

def store : MemStore :=
  (gateways.put (sessionKey "7") (.ownership ⟨"7", "a", "a", 1⟩)).put (clientKey "7") (.client client)

theorem get_client {id : String} {doc : Doc} (h : store.get (clientKey id) = some doc) :
    id = "7" ∧ doc = .client client := by
  rw [store, MemStore.get_put] at h
  split_ifs at h with hid
  · exact ⟨clientKey_inj.1 hid, (Option.some.inj h).symm⟩
  · rw [MemStore.get_put_ne _ _ (sessionKey_ne_clientKey "7" id).symm, gateways,
      MemStore.get_put_ne _ _ (clientKey_ne_gatewayKey id "b"),
      MemStore.get_put_ne _ _ (clientKey_ne_gatewayKey id "a"), MemStore.get_empty] at h
    cases h

theorem wellFormed_store : WellFormed store := by
  intro id doc h
  obtain ⟨rfl, rfl⟩ := get_client h
  exact ⟨client, rfl, rfl, by decide⟩

def turns {ι : Type} (l : List (ι × ℕ)) : List (ι × Choice) := l.flatMap fun p => List.replicate p.2 (p.1, {})

end Trial

end Egressa
