import Mathlib

/-!
# Records of the control plane

The data the controller stores and the messages of its HTTP API (`internal/control`, `internal/api`,
`internal/controller`).  Epochs are `UInt64`, so that they wrap as in the source.  Addresses are IPv4: `New` accepts
only IPv4 subnets, and every address of a record is allocated from one of them.
-/

namespace Egressa

/-! ## Addresses -/

/-- `netip.Addr`, as far as an IPv4 control plane uses it. -/
inductive Addr where
  | zero
  | v4 (bits : BitVec 32)
  deriving DecidableEq, Repr, Inhabited

def Addr.next : Addr → Addr
  | .zero => .zero
  | .v4 a => if a = BitVec.allOnes 32 then .zero else .v4 (a + 1)

/-- A masked IPv4 `netip.Prefix`. -/
structure Prefix where
  addr : BitVec 32
  bits : ℕ
  deriving DecidableEq, Repr, Inhabited

def Prefix.contains (p : Prefix) : Addr → Bool
  | .zero => false
  | .v4 a => a >>> (32 - p.bits) == p.addr >>> (32 - p.bits)

/-- `netip.Prefix`; `zero` stands for every prefix that is not valid. -/
inductive NetPrefix where
  | zero
  | v4 (addr : BitVec 32) (bits : Fin 33)
  | v6 (addr : BitVec 128) (bits : Fin 129)
  deriving DecidableEq, Repr

instance neZero_33 : NeZero 33 := ⟨by decide⟩

namespace NetPrefix

def isValid : NetPrefix → Bool
  | zero => false
  | _ => true

def is4 : NetPrefix → Bool
  | v4 _ _ => true
  | _ => false

/-- `Prefix.Overlaps`: the leading bits of the shorter prefix are those of the longer. -/
def overlaps : NetPrefix → NetPrefix → Bool
  | v4 a m, v4 b n => a >>> (32 - min m.1 n.1) == b >>> (32 - min m.1 n.1)
  | v6 a m, v6 b n => a >>> (128 - min m.1 n.1) == b >>> (128 - min m.1 n.1)
  | _, _ => false

def masked : NetPrefix → Prefix
  | v4 a n => ⟨a >>> (32 - n.1) <<< (32 - n.1), n.1⟩
  | _ => default

end NetPrefix

/-! ## Ownership -/

/-- Which access and egress gateway carry a session, as of an epoch. -/
structure OwnershipRecord where
  session : String
  access : String
  egress : String
  epoch : UInt64
  deriving DecidableEq, Repr, Inhabited

namespace OwnershipRecord

def validate (r : OwnershipRecord) : Except String Unit :=
  if r.session = "" then .error "control: OwnershipRecord.Session must not be empty"
  else if r.access = "" then .error "control: OwnershipRecord.Access must not be empty"
  else if r.egress = "" then .error "control: OwnershipRecord.Egress must not be empty"
  else .ok ()

/-- The record of a move to another egress. -/
def nextEpoch (r : OwnershipRecord) (newEgress : String) : OwnershipRecord :=
  { r with egress := newEgress, epoch := r.epoch + 1 }

/-- The record of a move to another access gateway. -/
def nextAccessEpoch (r : OwnershipRecord) (newAccess : String) : OwnershipRecord :=
  { r with access := newAccess, epoch := r.epoch + 1 }

def newer (r existing : OwnershipRecord) : Bool := existing.epoch < r.epoch

end OwnershipRecord

/-! ## Gateways -/

/-- `GatewayRole`, a bit set in a Go `int`. -/
abbrev Roles := BitVec 64

def roleAccess : Roles := 1
def roleEgress : Roles := 2

/-- Whether one of the roles is held. -/
def Roles.has (r role : Roles) : Bool := r &&& role != 0

/-- `api.Gateway`.  `backbonePorts` lists the map in key order, as its JSON does. -/
structure Gateway where
  id : String := ""
  roles : Roles := 0
  endpoint : String := ""
  publicKey : String := ""
  nodeIP : Addr := .zero
  backbonePorts : List (String × UInt16) := []
  ipsec : Bool := false
  alive : Bool := false
  deriving DecidableEq, Repr, Inhabited

def findGateway (gws : List Gateway) (id : String) : Option Gateway := gws.find? (·.id == id)

theorem findGateway_self {gws : List Gateway} (ids : (gws.map Gateway.id).Nodup) {g : Gateway}
    (hg : g ∈ gws) : findGateway gws g.id = some g := by
  have found : (findGateway gws g.id).isSome := List.find?_isSome.2 ⟨g, hg, by simp⟩
  obtain ⟨g', hg'⟩ := Option.isSome_iff_exists.1 found
  have same : g'.id = g.id := by simpa using List.find?_some hg'
  rw [hg', List.inj_on_of_nodup_map ids (List.mem_of_find?_eq_some hg') hg same]

def backendWireGuard : String := "wireguard"
def backendIPsec : String := "ipsec"

def validBackend (b : String) : Bool := b == "" || b == backendWireGuard || b == backendIPsec

/-- The empty backend stands for WireGuard. -/
def normBackend (b : String) : String := if b = "" then backendWireGuard else b

theorem normBackend_norm (b : String) : normBackend (normBackend b) = normBackend b := by
  by_cases h : b = ""
  · subst h
    decide
  · simp only [normBackend, if_neg h]

/-- Whether gateway `g` can be the access of a session with `backend`. -/
def canAccess (g : Gateway) (backend : String) : Bool :=
  g.roles.has roleAccess && (backend != backendIPsec || g.ipsec)

/-! ## Sessions -/

/-- What the controller stores of a client. -/
structure ClientRecord where
  id : String
  publicKey : String
  virtualIP : Addr
  secretHash : String
  backend : String
  deriving DecidableEq, Repr, Inhabited

/-- A session as the controller announces it. -/
structure Session where
  id : String := ""
  publicKey : String := ""
  virtualIP : Addr := .zero
  access : String := ""
  egress : String := ""
  epoch : UInt64 := 0
  backend : String := ""
  ipsecPSK : String := ""
  deriving DecidableEq, Repr, Inhabited

/-- `control.PolicyDocument`, less the weights, which only the client's decider reads. -/
structure PolicyDocument where
  version : UInt64 := 0
  deriving DecidableEq, Repr, Inhabited

/-- What the bytes of a stored value hold: JSON of one of the records, or anything else. -/
inductive Doc where
  | ownership (rec : OwnershipRecord)
  | client (rec : ClientRecord)
  | gateway (g : Gateway)
  | policy (doc : PolicyDocument)
  | raw (text : String)
  deriving DecidableEq, Repr, Inhabited

def marshalOwnership (r : OwnershipRecord) : Except String Doc :=
  match r.validate with
  | .error e => .error e
  | .ok () => .ok (.ownership r)

/-- `UnmarshalOwnership`; no bytes at all are no JSON either. -/
def unmarshalOwnership : Option Doc → Except String OwnershipRecord
  | some (.ownership r) => match r.validate with
    | .error e => .error e
    | .ok () => .ok r
  | _ => .error "control: decoding OwnershipRecord: invalid document"

theorem unmarshalOwnership_eq_ok {d : Option Doc} {r : OwnershipRecord} :
    unmarshalOwnership d = .ok r ↔ d = some (.ownership r) ∧ r.validate = .ok () := by
  constructor
  · intro h
    unfold unmarshalOwnership at h
    split at h
    · split at h
      · cases h
      · cases h
        exact ⟨rfl, by assumption⟩
    · cases h
  · rintro ⟨rfl, hv⟩
    simp [unmarshalOwnership, hv]

/-! ## Keys -/

def sessionKeyPrefix : String := "/egressa/session/"
def gatewayKeyPrefix : String := "/egressa/gw/"
def clientKeyPrefix : String := "/egressa/client/"
def policyKey : String := "/egressa/policy/current"

def sessionKey (id : String) : String := sessionKeyPrefix ++ id
def gatewayKey (id : String) : String := gatewayKeyPrefix ++ id
def clientKey (id : String) : String := clientKeyPrefix ++ id

def hasPrefix (s pfx : String) : Bool := pfx.toList.isPrefixOf s.toList

theorem hasPrefix_append (pfx id : String) : hasPrefix (pfx ++ id) pfx = true := by
  simp [hasPrefix]

theorem eq_append_of_hasPrefix {s pfx : String} (h : hasPrefix s pfx = true) : ∃ id, s = pfx ++ id := by
  obtain ⟨l, hl⟩ := List.isPrefixOf_iff_prefix.1 h
  refine ⟨String.ofList l, String.toList_inj.1 ?_⟩
  rw [String.toList_append, String.toList_ofList, hl]

variable {a b : String}

theorem append_left_cancel (pfx : String) (h : pfx ++ a = pfx ++ b) : a = b := by
  have := congrArg String.toList h
  simp only [String.toList_append, List.append_cancel_left_eq] at this
  exact String.toList_inj.1 this

theorem sessionKey_inj : sessionKey a = sessionKey b ↔ a = b := ⟨append_left_cancel _, congrArg _⟩

theorem clientKey_inj : clientKey a = clientKey b ↔ a = b := ⟨append_left_cancel _, congrArg _⟩

theorem gatewayKey_inj : gatewayKey a = gatewayKey b ↔ a = b := ⟨append_left_cancel _, congrArg _⟩

theorem not_hasPrefix_of_ne {p q : String} (id : String)
    (h : ¬ p.toList <+: q.toList ∧ ¬ q.toList <+: p.toList) : hasPrefix (p ++ id) q = false := by
  rw [Bool.eq_false_iff]
  intro hp
  simp only [hasPrefix, String.toList_append, List.isPrefixOf_iff_prefix] at hp
  rcases List.prefix_or_prefix_of_prefix hp (List.prefix_append p.toList id.toList) with h' | h'
  · exact h.2 h'
  · exact h.1 h'

theorem sessionKey_ne_clientKey (sid id : String) : sessionKey sid ≠ clientKey id := by
  intro h
  have := not_hasPrefix_of_ne (p := clientKeyPrefix) (q := sessionKeyPrefix) id (by decide)
  rw [show clientKeyPrefix ++ id = sessionKey sid from h.symm, sessionKey, hasPrefix_append] at this
  cases this

theorem sessionKey_ne_gatewayKey (sid id : String) : sessionKey sid ≠ gatewayKey id := by
  intro h
  have := not_hasPrefix_of_ne (p := gatewayKeyPrefix) (q := sessionKeyPrefix) id (by decide)
  rw [show gatewayKeyPrefix ++ id = sessionKey sid from h.symm, sessionKey, hasPrefix_append] at this
  cases this

theorem clientKey_ne_gatewayKey (sid id : String) : clientKey sid ≠ gatewayKey id := by
  intro h
  have := not_hasPrefix_of_ne (p := gatewayKeyPrefix) (q := clientKeyPrefix) id (by decide)
  rw [show gatewayKeyPrefix ++ id = clientKey sid from h.symm, clientKey, hasPrefix_append] at this
  cases this

end Egressa
