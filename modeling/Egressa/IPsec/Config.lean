import Egressa.Bytes
import Egressa.Records

/-!
# Configuration of the IPsec backend

Addresses and routes (`internal/ipsec/net.go`, `routes.go`), connections and secrets (`config.go`, `ike.go`), and the
configurations of a client and a gateway (`client.go`, `gateway.go`).  An error is a constructor that carries what its
message carries; of several errors that are joined only that there was one is kept.
-/

namespace Egressa.IPsec

/-! ## Addresses -/

/-- `netip.Addr`.  An IPv4-mapped address is one of the second kind, as `Is4` has it. -/
inductive NetAddr where
  | zero
  | v4 (bits : BitVec 32)
  | v6 (bits : BitVec 128) (zone : String)
  deriving DecidableEq, Repr

namespace NetAddr

def isValid : NetAddr → Bool
  | zero => false
  | _ => true

def is4 : NetAddr → Bool
  | v4 _ => true
  | _ => false

def zone : NetAddr → String
  | v6 _ z => z
  | _ => ""

/-- `As16`. -/
def as16 : NetAddr → List UInt8
  | zero => List.replicate 16 0
  | v4 a => List.replicate 10 0 ++ [0xff, 0xff] ++ Bytes.bigEndian 4 a.toNat
  | v6 a _ => Bytes.bigEndian 16 a.toNat

end NetAddr

inductive Family where
  | v4
  | v6
  deriving DecidableEq, Repr

def familyOf (a : NetAddr) : Family := if a.is4 then .v4 else .v6

def prefixFamily (p : NetPrefix) : Family := if p.is4 then .v4 else .v6

/-- `netip.Prefix.Masked`. -/
def maskPrefix : NetPrefix → NetPrefix
  | .zero => .zero
  | .v4 a n => .v4 (a >>> (32 - n.1) <<< (32 - n.1)) n
  | .v6 a n => .v6 (a >>> (128 - n.1) <<< (128 - n.1)) n

def isDefault : NetPrefix → Bool
  | .zero => false
  | .v4 _ n => n.1 == 0
  | .v6 _ n => n.1 == 0

def hostPrefix : NetAddr → NetPrefix
  | .zero => .zero
  | .v4 a => .v4 a 32
  | .v6 a _ => .v6 a 128

/-- The routes of a full tunnel: two halves, which no default route overrides. -/
def fullTunnelPrefixes : Family → List NetPrefix
  | .v4 => [.v4 0 1, .v4 0x80000000 1]
  | .v6 => [.v6 0 1, .v6 0x80000000000000000000000000000000 1]

def allAddresses : Family → NetPrefix
  | .v4 => .v4 0 0
  | .v6 => .v6 0 0

/-! ## Routes -/

def mainTable : ℤ := 254

/-- A route as `Net` takes it. -/
structure Route where
  dst : NetPrefix
  gw : NetAddr := .zero
  dev : String
  src : NetAddr := .zero
  table : ℤ := 0
  deriving DecidableEq, Repr

def routeKey (table : ℤ) (dst : NetPrefix) : ℤ × NetPrefix := (if table = 0 then mainTable else table, dst)

def Route.key (r : Route) : ℤ × NetPrefix := routeKey r.table r.dst

def ifaceName (pfx : String) (ifID : UInt32) : String := pfx ++ ifID.toNat.repr

/-! ## Errors -/

/-- What `errors.Is` can tell of an error of `Net` or `IKE`. -/
inductive Sentinel where
  | exist
  | notExist
  | notFound
  | other
  deriving DecidableEq, Repr

/-- The errors, with what their texts depend on. -/
inductive Err where
  /-- An error of `Net` or `IKE`. -/
  | host (s : Sentinel)
  /-- `ctx.Err()`. -/
  | ended
  | missingAddr (what : String)
  | zonedAddr (what : String)
  | otherFamily (what : String) (b a : NetAddr)
  | invalidPrefix (what : String)
  | wrongFamily (what : String) (p : NetPrefix) (f : Family)
  | badName (what name : String)
  | shortPSK (owner : String)
  | badPSK (owner : String)
  | startsAnywhere (conn : String)
  | badPubkey (conn : String)
  | unknownAuth (conn auth : String)
  | noSelectors (conn : String)
  | noIfID (conn : String)
  | badProposal (conn proposal : String)
  | negative (what : String)
  | unknownStart (conn start : String)
  | isSelf (id : String)
  | clientClosed
  | gatewayClosed
  | nameInUse (name : String)
  | ifIDInUse (ifID : UInt32) (name other : String)
  | unknown (name : String)
  | noBypass (dst : NetAddr) (cause : Sentinel)
  | takesNoPrefixes
  | needsPrefix
  | wouldRouteAll (p : NetPrefix)
  /-- `apply`: the error of the replace, if also undoing has failed. -/
  | undoing (cause : Sentinel)
  /-- `apply`: the joined errors of the withdrawals. -/
  | withdrawing
  | promote (name : String) (cause : Err)
  | carries (name : String)
  | add (name : String) (cause : Err) (incomplete : Bool)
  | remove (name : String)
  | close
  deriving DecidableEq, Repr

theorem ok_of_bind {α β : Type} {x : Except Err α} {f : α → Except Err β} {b : β} (h : x >>= f = .ok b) :
    ∃ a, x = .ok a ∧ f a = .ok b := by
  cases x with
  | error e => cases h
  | ok a => exact ⟨a, rfl, h⟩

theorem ok_of_check {β : Type} {c : Prop} [Decidable c] {x : Except Err Unit} {rest : Unit → Except Err β} {b : β}
    (h : (if c then x >>= rest else rest ()) = .ok b) : (c → x = .ok ()) ∧ rest () = .ok b := by
  by_cases hc : c
  · rw [if_pos hc] at h
    obtain ⟨u, hx, h⟩ := ok_of_bind h
    exact ⟨fun _ => hx, h⟩
  · rw [if_neg hc] at h
    exact ⟨fun h => absurd h hc, h⟩

def checkAddr (what : String) (a : NetAddr) : Except Err Unit :=
  if !a.isValid then .error (.missingAddr what)
  else if a.zone ≠ "" then .error (.zonedAddr what)
  else .ok ()

theorem zone_of_checkAddr {what : String} {a : NetAddr} (h : checkAddr what a = .ok ()) : a.zone = "" := by
  unfold checkAddr at h
  split_ifs at h with invalid zoned
  exact not_not.1 zoned

def checkSameFamily (what : String) (a b : NetAddr) : Except Err Unit :=
  if a.isValid && b.isValid && a.is4 != b.is4 then .error (.otherFamily what b a) else .ok ()

def checkPrefixes (what : String) (f : Family) : List NetPrefix → Except Err Unit
  | [] => .ok ()
  | p :: ps =>
    if !p.isValid then .error (.invalidPrefix what)
    else if prefixFamily p ≠ f then .error (.wrongFamily what p f)
    else checkPrefixes what f ps

/-! ## Connections -/

/-- A regular expression of a first character and up to `n` more. -/
def matchesRE (first rest : Char → Bool) (n : ℕ) (s : String) : Bool :=
  match s.toList with
  | [] => false
  | c :: cs => first c && cs.length ≤ n && cs.all rest

def alnum (c : Char) : Bool := ('A' ≤ c && c ≤ 'Z') || ('a' ≤ c && c ≤ 'z') || ('0' ≤ c && c ≤ '9')

def lowerAlnum (c : Char) : Bool := ('a' ≤ c && c ≤ 'z') || ('0' ≤ c && c ≤ '9')

def nameRE : String → Bool := matchesRE alnum (fun c => alnum c || c == '_' || c == '-') 47

def idRE : String → Bool := matchesRE alnum (fun c => alnum c || "._@:-".toList.contains c) 127

def fileRE : String → Bool := matchesRE alnum (fun c => alnum c || "._-".toList.contains c) 127

def proposalRE : String → Bool := matchesRE lowerAlnum (fun c => lowerAlnum c || c == '_' || c == '-') 127

def ifPrefixRE : String → Bool := matchesRE (fun c => 'a' ≤ c && c ≤ 'z') lowerAlnum 4

inductive AuthMethod where
  | psk
  | pubkey
  | unknown (s : String)
  deriving DecidableEq, Repr

inductive StartAction where
  | unset
  | none
  | start
  | unknown (s : String)
  deriving DecidableEq, Repr

def anyID : String := "%any"

structure Connection where
  name : String
  epoch : UInt64
  localAddr : NetAddr
  remoteAddr : NetAddr
  localID : String
  remoteID : String
  auth : AuthMethod
  psk : String
  localPubkey : String := ""
  remotePubkey : String := ""
  localTS : List NetPrefix
  remoteTS : List NetPrefix
  ifID : UInt32
  ikeProposals : List String
  espProposals : List String
  dpdDelay : Int64
  start : StartAction
  deriving DecidableEq, Repr

def minPSKLen : ℕ := 16

def validatePSK (owner psk : String) : Except Err Unit :=
  if psk.utf8ByteSize < minPSKLen then .error (.shortPSK owner)
  else if psk.toList.any fun c => c.toNat < 0x21 || c.toNat > 0x7e || c == '"' || c == '\\' then
    .error (.badPSK owner)
  else .ok ()

namespace Connection

def validateAuth (c : Connection) : Except Err Unit :=
  match c.auth with
  | .psk => validatePSK ("connection " ++ c.name) c.psk
  | .pubkey =>
    if !fileRE c.localPubkey || !fileRE c.remotePubkey then .error (.badPubkey c.name) else .ok ()
  | .unknown s => .error (.unknownAuth c.name s)

def validateStart (c : Connection) : Except Err Unit :=
  match c.start with
  | .unknown s => .error (.unknownStart c.name s)
  | _ => .ok ()

def validate (c : Connection) : Except Err Unit := do
  if !nameRE c.name then throw (.badName "connection" c.name)
  if !c.remoteAddr.isValid && c.start = .start then throw (.startsAnywhere c.name)
  if c.localAddr.zone ≠ "" || c.remoteAddr.zone ≠ "" then throw (.zonedAddr ("connection " ++ c.name))
  if c.localAddr.isValid && c.remoteAddr.isValid && c.localAddr.is4 != c.remoteAddr.is4 then
    throw (.otherFamily ("connection " ++ c.name) c.remoteAddr c.localAddr)
  if !idRE c.localID then throw (.badName ("connection " ++ c.name ++ ": LocalID") c.localID)
  if c.remoteID ≠ anyID && !idRE c.remoteID then
    throw (.badName ("connection " ++ c.name ++ ": RemoteID") c.remoteID)
  c.validateAuth
  if c.localTS.isEmpty || c.remoteTS.isEmpty then throw (.noSelectors c.name)
  if (c.localTS ++ c.remoteTS).any fun p => !p.isValid then
    throw (.invalidPrefix ("connection " ++ c.name ++ ": traffic selector"))
  if c.ifID = 0 then throw (.noIfID c.name)
  match (c.ikeProposals ++ c.espProposals).find? fun p => !proposalRE p with
  | some p => throw (.badProposal c.name p)
  | none => pure ()
  if c.dpdDelay < 0 then throw (.negative ("connection " ++ c.name ++ ": DPDDelay"))
  c.validateStart

end Connection

def childName (conn : String) (epoch : UInt64) : String := conn ++ "-e" ++ epoch.toNat.repr

structure SharedSecret where
  id : String
  psk : String
  owners : List String
  deriving DecidableEq, Repr

def Connection.secret (c : Connection) : SharedSecret := ⟨c.name, c.psk, [c.localID, c.remoteID]⟩

/-- What `clientPeer` and `backbonePeer` keep of a peer: the part that is read again, its connection, and its
interface. -/
structure Tunnel where
  name : String
  id : String
  addr : NetAddr
  ifID : UInt32
  conn : Connection
  iface : String
  deriving DecidableEq, Repr

/-! ## Clients -/

structure ClientConfig where
  name : String := ""
  localID : String
  psk : String
  virtualIP : NetAddr
  localAddr : NetAddr := .zero
  fullTunnel : Bool := false
  controllers : List NetAddr := []
  table : ℤ := 0
  dpdDelay : Int64 := 0
  ikeProposals : List String := []
  espProposals : List String := []
  interfacePrefix : String := ""
  underlay : String := ""
  deriving DecidableEq

def defaultInterfacePrefix : String := "egx"

namespace ClientConfig

def setDefaults (cfg : ClientConfig) : ClientConfig :=
  { cfg with
    name := if cfg.name = "" then "egressa" else cfg.name
    interfacePrefix := if cfg.interfacePrefix = "" then defaultInterfacePrefix else cfg.interfacePrefix }

def validate (cfg : ClientConfig) : Except Err Unit := do
  if !nameRE cfg.name then throw (.badName "client name" cfg.name)
  if !idRE cfg.localID then throw (.badName "client LocalID" cfg.localID)
  validatePSK "client" cfg.psk
  checkAddr "client VirtualIP" cfg.virtualIP
  if cfg.localAddr.isValid then checkAddr "client LocalAddr" cfg.localAddr
  for a in cfg.controllers do
    checkAddr "controller" a
    checkSameFamily "controller" cfg.localAddr a
  if cfg.table < 0 then throw (.negative "client routing table")
  if !ifPrefixRE cfg.interfacePrefix then throw (.badName "interface prefix" cfg.interfacePrefix)
  if cfg.dpdDelay < 0 then throw (.negative "client DPDDelay")

theorem zone_of_loop {l : List NetAddr} {what : String} {b : NetAddr} (h : (forIn l PUnit.unit fun a _ => do
      checkAddr what a
      checkSameFamily what b a
      pure (ForInStep.yield PUnit.unit) : Except Err PUnit) = .ok PUnit.unit) : ∀ a ∈ l, a.zone = "" := by
  induction l with
  | nil => simp
  | cons a l ih =>
    rw [List.forIn_cons] at h
    obtain ⟨step, hstep, h⟩ := ok_of_bind h
    obtain ⟨u, checked, hstep⟩ := ok_of_bind hstep
    obtain ⟨-, -, hstep⟩ := ok_of_bind hstep
    cases hstep
    exact List.forall_mem_cons.2 ⟨zone_of_checkAddr checked, ih h⟩

theorem zone_of_validate {cfg : ClientConfig} (h : cfg.validate = .ok ()) : ∀ a ∈ cfg.controllers, a.zone = "" := by
  unfold validate at h
  replace h := (ok_of_check (ok_of_check h).2).2
  obtain ⟨-, -, h⟩ := ok_of_bind h
  obtain ⟨-, -, h⟩ := ok_of_bind h
  replace h := (ok_of_check h).2
  obtain ⟨u, loop, -⟩ := ok_of_bind h
  exact zone_of_loop loop

end ClientConfig

/-- `ipsec.Peer`: a gateway the client connects to. -/
structure Peer where
  name : String
  addr : NetAddr
  id : String
  ifID : UInt32
  epoch : UInt64
  prefixes : List NetPrefix := []
  deriving DecidableEq, Repr

namespace ClientConfig

def connName (cfg : ClientConfig) (peer : String) : String := cfg.name ++ "-" ++ peer

theorem connName_inj (cfg : ClientConfig) {a b : String} : cfg.connName a = cfg.connName b ↔ a = b := by
  rw [connName, connName, String.append_right_inj]

def connection (cfg : ClientConfig) (p : Peer) : Connection where
  name := cfg.connName p.name
  epoch := p.epoch
  localAddr := cfg.localAddr
  remoteAddr := p.addr
  localID := cfg.localID
  remoteID := p.id
  auth := .psk
  psk := cfg.psk
  localTS := [hostPrefix cfg.virtualIP]
  remoteTS := if p.prefixes.isEmpty then [allAddresses (familyOf cfg.virtualIP)] else p.prefixes
  ifID := p.ifID
  ikeProposals := cfg.ikeProposals
  espProposals := cfg.espProposals
  dpdDelay := cfg.dpdDelay
  start := .none

def validatePeer (cfg : ClientConfig) (p : Peer) : Except Err Connection := do
  checkAddr ("gateway " ++ p.name) p.addr
  checkSameFamily ("gateway " ++ p.name) cfg.localAddr p.addr
  checkPrefixes ("gateway " ++ p.name ++ " prefix") (familyOf cfg.virtualIP) p.prefixes
  (cfg.connection p).validate
  return cfg.connection p

theorem zone_of_validatePeer {cfg : ClientConfig} {p : Peer} {conn : Connection} (h : cfg.validatePeer p = .ok conn) :
    p.addr.zone = "" := by
  obtain ⟨u, checked, -⟩ := ok_of_bind h
  exact zone_of_checkAddr checked

/-- What `Add` works with. -/
def tunnel (cfg : ClientConfig) (p : Peer) : Tunnel where
  name := p.name
  id := p.id
  addr := p.addr
  ifID := p.ifID
  conn := cfg.connection p
  iface := ifaceName cfg.interfacePrefix p.ifID

end ClientConfig

end Egressa.IPsec
