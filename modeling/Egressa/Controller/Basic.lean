import Egressa.Control.OwnershipService

/-!
# Messages and pure rules of the controller

The requests and answers of the HTTP API (`internal/api/types.go`) and the functions of
`internal/controller/server.go` that touch no state.  `Config` also holds the functions of libraries whose values
matter to no one but their callers.  Links between gateways, logs, metrics and traces are left out.
-/

namespace Egressa

/-- The subnets that addresses come from. -/
structure Network where
  clientSubnet : Prefix
  nodeSubnet : Prefix
  probePort : UInt16
  deriving DecidableEq, Repr, Inhabited

structure ServerConfig where
  gatewayToken : String
  clientToken : String
  network : Network
  aliveAfter : ℕ
  hasIPsecKey : Bool
  ipsecPSK : String → String
  hashSecret : String → String
  validAddrPort : String → Bool
  quote : String → String

/-! ## Requests and answers -/

structure RegisterGatewayRequest where
  roles : Roles
  endpoint : String
  publicKey : String
  backbonePorts : List (String × UInt16) := []
  ipsec : Bool := false
  deriving DecidableEq, Repr

structure CreateSessionRequest where
  publicKey : String
  egress : String := ""
  secret : String := ""
  backend : String := ""
  deriving DecidableEq, Repr

structure MigrateRequest where
  epoch : UInt64
  access : String
  egress : String
  deriving DecidableEq, Repr

structure GatewayState where
  version : ℕ
  network : Network
  gateways : List Gateway
  sessions : List Session
  deriving DecidableEq, Repr

structure ClientState where
  version : ℕ
  network : Network
  session : Session
  gateways : List Gateway
  policy : PolicyDocument
  deriving DecidableEq, Repr

/-- What the controller answers.  An error carries the session in the body of a conflict. -/
inductive Answer where
  | error (code : ℕ) (text : String) (session : Option Session)
  | registered (nodeIP : Addr) (network : Network)
  | noContent
  | gateways (gws : List Gateway)
  | gatewayState (st : GatewayState)
  | created (session : Session) (secret : String) (network : Network)
  | clientState (st : ClientState)
  | migrated (session : Session)
  deriving DecidableEq, Repr

/-- The status code. -/
def Answer.code : Answer → ℕ
  | .error code _ _ => code
  | .noContent => 204
  | _ => 200

/-- The sessions an answer shows. -/
def Answer.sessions : Answer → List Session
  | .error _ _ sess => sess.toList
  | .gatewayState st => st.sessions
  | .created sess _ _ => [sess]
  | .clientState st => [st.session]
  | .migrated sess => [sess]
  | _ => []

/-! ## Checks on a request -/

/-- An empty token admits everybody. -/
def tokenOK (want got : String) : Bool := want == "" || want == got

def validGatewayID (id : String) : Bool :=
  let letter (c : Char) : Bool := ('a' ≤ c && c ≤ 'z') || ('0' ≤ c && c ≤ '9')
  match id.toList with
  | [] => false
  | c :: rest => letter c && rest.length ≤ 31 && rest.all fun c => letter c || c == '-'

def isBase64 (c : Char) : Bool :=
  ('A' ≤ c && c ≤ 'Z') || ('a' ≤ c && c ≤ 'z') || ('0' ≤ c && c ≤ '9') || c == '+' || c == '/'

/-- `parsePublicKey` accepts 32 bytes of base64: 43 letters and one padding, line breaks apart. -/
def validPublicKey (s : String) : Bool :=
  let t := s.toList.filter fun c => c != '\n' && c != '\r'
  t.length == 44 && (t.take 43).all isBase64 && t.drop 43 == ['=']

/-! ## Addresses -/

def Addr.toString : Addr → String
  | .zero => "invalid IP"
  | .v4 a => (a >>> 24).toNat.repr ++ "." ++ ((a >>> 16).toNat % 256).repr ++ "." ++
      ((a >>> 8).toNat % 256).repr ++ "." ++ (a.toNat % 256).repr

def Prefix.toString (p : Prefix) : String := (Addr.v4 p.addr).toString ++ "/" ++ p.bits.repr

/-- The loop of `allocate` from address `a`; no more than `n` addresses are left. -/
def allocateFrom (p : Prefix) (used : List Addr) : ℕ → Addr → Option Addr
  | 0, _ => none
  | n + 1, a =>
    if p.contains a then
      -- never the last (broadcast) address
      if a ∉ used ∧ p.contains a.next then some a else allocateFrom p used n a.next
    else none

/-- The first free address of a subnet, but for the first two and the last. -/
def allocate (p : Prefix) (used : List Addr) : Except String Addr :=
  match allocateFrom p used (2 ^ 32) (Addr.v4 p.addr).next.next with
  | some a => .ok a
  | none => .error ("controller: " ++ p.toString ++ " is full")

/-! ## Stored records -/

def sortByID {α : Type} (id : α → String) (l : List α) : List α :=
  l.insertionSort fun a b => (id a).toList ≤ (id b).toList

def unmarshalGateway : Doc → Except String Gateway
  | .gateway g => .ok g
  | _ => .error "controller: decode gateway: invalid document"

def unmarshalClient : Doc → Except String ClientRecord
  | .client c => .ok c
  | _ => .error "controller: decode client: invalid document"

def unmarshalPolicy : Doc → Except String PolicyDocument
  | .policy doc => .ok doc
  | _ => .error "control: decoding PolicyDocument: invalid document"

def decodeGateways (raw : List (String × Doc)) : Except String (List Gateway) :=
  (raw.mapM fun p => unmarshalGateway p.2).map (sortByID Gateway.id)

def decodeClients (raw : List (String × Doc)) : Except String (List ClientRecord) :=
  (raw.mapM fun p => unmarshalClient p.2).map (sortByID ClientRecord.id)

def decodeClient : Option Doc → Except String (Option ClientRecord)
  | none => .ok none
  | some data => (unmarshalClient data).map some

/-- What `PolicyService.Get` makes of the stored bytes; with none, the default policy. -/
def decodePolicy : Option Doc → Except String PolicyDocument
  | none => .ok {}
  | some data => unmarshalPolicy data

theorem get_of_decodeClient {data : Option Doc} {c : ClientRecord}
    (h : decodeClient data = .ok (some c)) : data = some (.client c) := by
  rcases data with _ | _ | _ | c' | _
  case some.client =>
    cases Except.ok.inj h
    rfl
  all_goals cases h

theorem forall₂_of_mapM_ok {α β : Type} {f : α → Except String β} {l : List α} {l' : List β}
    (h : l.mapM f = .ok l') : List.Forall₂ (fun a b => f a = .ok b) l l' := by
  induction l generalizing l' with
  | nil =>
    cases h
    exact .nil
  | cons a l ih =>
    rw [List.mapM_cons] at h
    cases ha : f a with
    | error e => simp [ha, bind, Except.bind] at h
    | ok x =>
      cases hl : l.mapM f with
      | error e => simp [ha, hl, bind, Except.bind] at h
      | ok xs =>
        simp only [ha, hl, bind, Except.bind, pure, Except.pure, Except.ok.injEq] at h
        subst h
        exact .cons ha (ih hl)

theorem mem_mapM_ok {α β : Type} {f : α → Except String β} {l : List α} {l' : List β}
    (h : l.mapM f = .ok l') (b : β) : b ∈ l' ↔ ∃ a ∈ l, f a = .ok b := by
  have all := forall₂_of_mapM_ok h
  clear h
  induction all with
  | nil => simp
  | cons ha _ ih => simp [ih, ha, eq_comm]

variable {m : MemStore}

theorem mem_decoded {α : Type} {f : Doc → Except String α} {mk : α → Doc}
    (hf : ∀ doc a, f doc = .ok a ↔ doc = mk a) {id : α → String} {pfx : String} {l : List α}
    (h : ((m.list pfx).mapM fun p => f p.2).map (sortByID id) = .ok l) (a : α) :
    a ∈ l ↔ ∃ s, m.get (pfx ++ s) = some (mk a) := by
  cases hm : (m.list pfx).mapM fun p => f p.2 with
  | error e => simp [hm, Except.map] at h
  | ok l' =>
    simp only [hm, Except.map, Except.ok.injEq] at h
    subst h
    rw [sortByID, (List.perm_insertionSort _ l').mem_iff, mem_mapM_ok hm]
    constructor
    · rintro ⟨⟨key, doc⟩, hmem, hdoc⟩
      obtain ⟨hp, hget⟩ := m.mem_list.1 hmem
      obtain ⟨s, rfl⟩ := eq_append_of_hasPrefix hp
      exact ⟨s, by rw [hget, (hf doc a).1 hdoc]⟩
    · rintro ⟨s, hget⟩
      exact ⟨(pfx ++ s, mk a), m.mem_list.2 ⟨hasPrefix_append pfx s, hget⟩, (hf _ a).2 rfl⟩

theorem mem_clients {cs : List ClientRecord}
    (h : decodeClients (m.list clientKeyPrefix) = .ok cs) (c : ClientRecord) :
    c ∈ cs ↔ ∃ id, m.get (clientKey id) = some (.client c) :=
  mem_decoded (fun doc c => by cases doc <;> simp [unmarshalClient]) h c

theorem mem_gateways {gws : List Gateway} (h : decodeGateways (m.list gatewayKeyPrefix) = .ok gws) (g : Gateway) :
    g ∈ gws ↔ ∃ id, m.get (gatewayKey id) = some (.gateway g) :=
  mem_decoded (fun doc g => by cases doc <;> simp [unmarshalGateway]) h g

theorem map_of_mapM_ok {α β γ : Type} {f : α → Except String β} {g : α → γ} {k : β → γ} {l : List α}
    {l' : List β} (h : l.mapM f = .ok l') (hk : ∀ a ∈ l, ∀ b, f a = .ok b → k b = g a) :
    l'.map k = l.map g := by
  have all := forall₂_of_mapM_ok h
  clear h
  induction all with
  | nil => rfl
  | cons ha _ ih =>
    rw [List.forall_mem_cons] at hk
    rw [List.map_cons, List.map_cons, hk.1 _ ha, ih hk.2]

/-- What the controller announces of a client and its owner. -/
def sessionOf (cfg : ServerConfig) (c : ClientRecord) (own : OwnershipRecord) : Session :=
  let ipsec := c.backend == backendIPsec
  { id := c.id, publicKey := c.publicKey, virtualIP := c.virtualIP
    access := own.access, egress := own.egress, epoch := own.epoch
    backend := if ipsec then backendIPsec else backendWireGuard
    ipsecPSK := if ipsec then cfg.ipsecPSK c.id else "" }

/-- `gatewayEqual`: the records' JSON is compared, with `Alive` cleared. -/
def gatewayEqual (a b : Gateway) : Bool := { a with alive := false } == { b with alive := false }

/-! ## Stores -/

/-- A store as the controllers leave it: every client record is under its own ID, and has an
ownership record that can be read. -/
def WellFormed (m : MemStore) : Prop :=
  ∀ id doc, m.get (clientKey id) = some doc → ∃ c, doc = .client c ∧ c.id = id ∧ (ownershipIn m id).isSome

theorem WellFormed.put (h : WellFormed m) {key : String} {value : Doc}
    (hkey : ∀ id, clientKey id = key → ∃ c, value = .client c ∧ c.id = id)
    (owned : ∀ id, (ownershipIn m id).isSome ∨ clientKey id = key →
      (ownershipIn (m.put key value) id).isSome) : WellFormed (m.put key value) := by
  intro id doc hdoc
  rw [MemStore.get_put] at hdoc
  split_ifs at hdoc with hk
  · obtain ⟨c, rfl, hc⟩ := hkey id hk
    exact ⟨c, (Option.some.inj hdoc).symm, hc, owned id (Or.inr hk)⟩
  · obtain ⟨c, hc, hid, ho⟩ := h id doc hdoc
    exact ⟨c, hc, hid, owned id (Or.inl ho)⟩

theorem WellFormed.put_gateway (h : WellFormed m) (id : String) (value : Doc) :
    WellFormed (m.put (gatewayKey id) value) := by
  refine h.put (fun c hc => absurd hc (clientKey_ne_gatewayKey c id)) fun sid ho => ?_
  rw [ownershipIn_put_ne _ _ (sessionKey_ne_gatewayKey sid id)]
  exact ho.resolve_right (clientKey_ne_gatewayKey sid id)

theorem WellFormed.put_client (h : WellFormed m) {c : ClientRecord}
    (owned : (ownershipIn m c.id).isSome) : WellFormed (m.put (clientKey c.id) (.client c)) := by
  refine h.put (fun id hid => ⟨c, rfl, (clientKey_inj.1 hid).symm⟩) fun sid ho => ?_
  rw [ownershipIn_put_ne _ _ (sessionKey_ne_clientKey sid c.id)]
  rcases ho with ho | ho
  · exact ho
  · rw [clientKey_inj.1 ho]
    exact owned

theorem WellFormed.put_owner (h : WellFormed m) {rec : OwnershipRecord}
    (hv : rec.validate = .ok ()) : WellFormed (m.put (sessionKey rec.session) (.ownership rec)) := by
  refine h.put (fun id hid => absurd hid.symm (sessionKey_ne_clientKey rec.session id)) fun sid ho => ?_
  by_cases hsid : sid = rec.session
  · rw [hsid, ownershipIn_put_self _ hv]
    rfl
  · rw [ownershipIn_put_ne _ _ (fun hk => hsid (sessionKey_inj.1 hk))]
    exact ho.resolve_right fun hk => absurd hk.symm (sessionKey_ne_clientKey rec.session sid)

/-! ## Paths -/

abbrev AliveMap := AList fun _ : String => Bool

def aliveIn (alive : AliveMap) (id : String) : Bool := (alive.lookup id).getD false

def gatewayOrZero (gws : List Gateway) (id : String) : Gateway := (findGateway gws id).getD {}

/-- The egress asked for or the first live one, and an access gateway: the egress itself if it can be. -/
def pickPath (quote : String → String) (gws : List Gateway) (alive : AliveMap)
    (egress backend : String) : Except String (String × String) :=
  let usable (g : Gateway) (role : Roles) : Bool := g.roles.has role && aliveIn alive g.id
  let picked : Except String String :=
    if egress != "" then
      match findGateway gws egress with
      | some g => if g.roles.has roleEgress then .ok g.id
        else .error ("no egress gateway " ++ quote egress)
      | none => .error ("no egress gateway " ++ quote egress)
    else .ok ((gws.find? fun g => usable g roleEgress).elim "" Gateway.id)
  match picked with
  | .error e => .error e
  | .ok eg =>
    if eg = "" then .error "no live egress gateway"
    else if canAccess (gatewayOrZero gws eg) backend then .ok (eg, eg)
    else match gws.find? fun g => usable g roleAccess && canAccess g backend with
      | some g => .ok (g.id, eg)
      | none =>
        if backend = backendIPsec then .error "no live access gateway accepts IPsec clients"
        else .error "no live access gateway"

theorem pickPath_access {quote : String → String} {gws : List Gateway} {alive : AliveMap}
    {egress backend access eg : String} (ids : (gws.map Gateway.id).Nodup)
    (h : pickPath quote gws alive egress backend = .ok (access, eg)) :
    canAccess (gatewayOrZero gws access) backend = true := by
  unfold pickPath at h
  dsimp only at h
  split at h
  · cases h
  · split_ifs at h with hempty hacc
    · obtain ⟨rfl, -⟩ := Prod.mk.inj (Except.ok.inj h)
      exact hacc
    all_goals
      split at h
      · obtain ⟨rfl, -⟩ := Prod.mk.inj (Except.ok.inj h)
        rename_i g hfind
        have can := List.find?_some hfind
        rw [gatewayOrZero, findGateway_self ids (List.mem_of_find?_eq_some hfind)]
        exact (Bool.and_eq_true_iff.1 can).2
      · cases h

end Egressa
