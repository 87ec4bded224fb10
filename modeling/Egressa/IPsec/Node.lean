import Egressa.Conc.Pool
import Egressa.IPsec.Host
import Egressa.Maps

/-!
# The steps of a client and a gateway

`Client` and `Gateway` (`internal/ipsec/client.go`, `gateway.go`) keep the same books, which `Node` holds together
with the host.  A section under `mu` or `bypassMu` is one operation, and so is each operation of the kernel or of
charon; `routeMu` is held over several.  What the caller does not settle is the `Fate` of an operation.
-/

namespace Egressa.IPsec

open Conc Maps
open Function (update)

/-- Whose method a section under `mu` belongs to. -/
inductive Role where
  | client
  | gateway
  deriving DecidableEq, Repr

def Role.closedErr : Role → Err
  | .client => .clientClosed
  | .gateway => .gatewayClosed

/-- A gateway that was added, and by which call. -/
structure Kept (ι : Type) where
  tunnel : Tunnel
  adder : ι
  deriving DecidableEq, Repr

/-- A host route kept for an address, with the number of its holders. -/
structure Bypass where
  route : Route
  owned : Bool
  refs : ℕ
  pos : 0 < refs
  deriving DecidableEq

/-- The fields of a client or a gateway, and its host. -/
structure Node (ι : Type) where
  /-- `Gateway.backbone` for a gateway. -/
  peers : Map String (Kept ι) := ∅
  pending : String → Bool := fun _ => false
  /-- Of a gateway only. -/
  pendingIDs : String → Bool := fun _ => false
  ifIDs : Map UInt32 String := ∅
  /-- `Gateway.uplink` for a gateway. -/
  active : String := ""
  closed : Bool := false
  /-- Who holds `routeMu`. -/
  routeMu : Option ι := none
  /-- `routes.installed`. -/
  installed : Map NetPrefix Route := ∅
  /-- Of a client only. -/
  bypass : NetAddr → Option Bypass := fun _ => none
  kernel : Kernel
  charon : Charon ι

theorem routes_perm (l : List (Entry NetPrefix Route)) : (id l).Perm l := .refl l

/-- What one operation does not settle. -/
structure Fate (ι : Type) where
  fails : Bool := false
  /-- An `Initiate` that fails leaves a half-open IKE_SA. -/
  leaves : Bool := false
  /-- The context of the caller has ended. -/
  ended : Bool := false
  routeGet : Except Sentinel Route := .error .notExist
  defaultRoute : Except Sentinel Route := .error .notExist
  peerOrder : List (Kept ι) → List (Kept ι) := id
  peerPerm : ∀ l, (peerOrder l).Perm l := by exact fun l => .refl l
  routeOrder : List (Entry NetPrefix Route) → List (Entry NetPrefix Route) := id
  routePerm : ∀ l, (routeOrder l).Perm l := by exact routes_perm

/-! ## Operations -/

/-- What `bringUp` and `addBackbone` do. -/
inductive Build where
  | addXfrmInterface (iface : String) (ifID : UInt32) (underlay : String)
  | addAddr (iface : String) (addr : NetPrefix)
  | setLinkUp (iface : String)
  | acquireBypass (pfx : String) (table : ℤ) (dst : NetAddr)
  | loadShared (s : SharedSecret)
  | loadConn (conn : Connection)
  | initiate (conn child : String)

/-- What is undone, with `ignoreNotExist` or `ignoreNotFound` where the source has it. -/
inductive Undo where
  | deleteLink (iface : String)
  | releaseBypass (dst : NetAddr)
  | unloadShared (id : String)
  | unloadConn (name : String)
  | terminateIKE (name : String)
  deriving DecidableEq, Repr

/-- The atomic sections and the calls of `Net` and `IKE`. -/
inductive Op where
  | finish (r : Except Err Unit)
  | ctxErr
  /-- The first section of `Add` and of `AddBackbone`. -/
  | enlist (role : Role) (t : Tunnel)
  /-- Their second section, with the error of the bring-up. -/
  | settle (role : Role) (t : Tunnel) (err : Option Err)
  /-- `peer`. -/
  | lookup (role : Role) (name : String)
  /-- The first section of `Remove`, and the second of `RemoveBackbone`. -/
  | take (role : Role) (name : String)
  /-- The last section of both. -/
  | release (name : String) (t : Tunnel)
  | setActive (name : String)
  /-- The first section of `Close`. -/
  | close
  | dropIfID (ifID : UInt32)
  | build (b : Build)
  | undo (u : Undo)
  /-- `RouteReplace`; whether it puts back what was there. -/
  | routeReplace (undo : Bool) (r : Route)
  /-- `ignoreNotExist(RouteDel)`; whether it undoes a replace. -/
  | routeDel (undo : Bool) (r : Route)
  /-- `routeMu.Lock()`, answering what is installed. -/
  | lockRoutes
  | storeRoutes (m : Map NetPrefix Route)
  | unlockRoutes

def NodeSig : Sig where
  Op := Op
  Res
    | .finish _ | .release _ _ | .setActive _ | .dropIfID _ | .storeRoutes _ | .unlockRoutes => Unit
    | .ctxErr | .settle _ _ _ => Option Err
    | .enlist _ _ | .build _ | .undo _ | .routeReplace _ _ | .routeDel _ _ => Except Err Unit
    | .lookup _ _ | .take _ _ => Except Err Tunnel
    | .close => Option (List Tunnel)
    | .lockRoutes => Map NetPrefix Route

/-! ## What they do -/

namespace Node

variable {ι : Type} (s : Node ι)

def hasBackboneID (id : String) : Bool := (values s.peers).any fun p => p.tunnel.id == id

def nameTaken (role : Role) (t : Tunnel) : Bool :=
  (s.peers.lookup t.name).isSome || s.pending t.name ||
    (role = .gateway && (s.pendingIDs t.id || s.hasBackboneID t.id))

/-- `ifIDs[id]`, which is empty also for an if_id that is not there. -/
def ifIDOwner (ifID : UInt32) : String := (s.ifIDs.lookup ifID).getD ""

def reserve (role : Role) (t : Tunnel) : Node ι :=
  { s with
    pending := update s.pending t.name true
    pendingIDs := if role = .gateway then update s.pendingIDs t.id true else s.pendingIDs
    ifIDs := s.ifIDs.insert t.ifID t.name }

/-- Reserves the name and the interface ID. -/
def enlist (role : Role) (t : Tunnel) : Except Err Unit × Node ι :=
  if s.closed then (.error role.closedErr, s)
  else if s.nameTaken role t then (.error (.nameInUse t.name), s)
  else if s.ifIDOwner t.ifID ≠ "" then (.error (.ifIDInUse t.ifID t.name (s.ifIDOwner t.ifID)), s)
  else (.ok (), s.reserve role t)

/-- `delete(pending, name)`, and `delete(pendingIDs, id)` in a gateway. -/
def unpend (role : Role) (t : Tunnel) : Node ι :=
  { s with
    pending := update s.pending t.name false
    pendingIDs := if role = .gateway then update s.pendingIDs t.id false else s.pendingIDs }

def enroll (role : Role) (t : Tunnel) (i : ι) : Node ι :=
  { s.unpend role t with peers := s.peers.insert t.name ⟨t, i⟩ }

def giveBack (role : Role) (t : Tunnel) : Node ι := { s.unpend role t with ifIDs := s.ifIDs.erase t.ifID }

/-- The last section of `Add`. -/
def settle (role : Role) (t : Tunnel) (i : ι) (err : Option Err) : Option Err × Node ι :=
  match if err = none ∧ s.closed then some role.closedErr else err with
  | none => (none, s.enroll role t i)
  | some e => (some e, s.giveBack role t)

def lookup (role : Role) (name : String) : Except Err Tunnel :=
  if s.closed then .error role.closedErr
  else match s.peers.lookup name with
    | none => .error (.unknown name)
    | some p => .ok p.tunnel

def strike (name : String) : Node ι :=
  { s with
    peers := s.peers.erase name
    pending := update s.pending name true }

/-- The first section of `Remove`. -/
def take (role : Role) (name : String) : Except Err Tunnel × Node ι :=
  if s.closed then (.error role.closedErr, s)
  else match s.peers.lookup name with
    | none => (.error (.unknown name), s)
    | some p =>
      if role = .client ∧ s.active = name then (.error (.carries name), s)
      else (.ok p.tunnel, s.strike name)

def release (name : String) (t : Tunnel) : Node ι :=
  { s with
    pending := update s.pending name false
    ifIDs := s.ifIDs.erase t.ifID }

def shut : Node ι := { s with closed := true, peers := ∅, active := "" }

/-- The first section of `Close`. -/
def close (ω : Fate ι) : Option (List Tunnel) × Node ι :=
  if s.closed then (none, s)
  else (some ((ω.peerOrder (values s.peers)).map Kept.tunnel), s.shut)

/-! ### Bypass routes -/

def isOurInterface (pfx dev : String) : Bool := s.ifIDs.keys.any fun ifID => ifaceName pfx ifID == dev

/-- The route to an address that does not lead into a tunnel. -/
def underlayRoute (ω : Fate ι) (pfx : String) (table : ℤ) (dst : NetAddr) : Except Err Route :=
  match ω.routeGet with
  | .error e => .error (.host e)
  | .ok r =>
    if s.isOurInterface pfx r.dev then
      match ω.defaultRoute with
      | .error e => .error (.noBypass dst e)
      | .ok d => .ok { dst := hostPrefix dst, gw := d.gw, dev := d.dev, table }
    else .ok { dst := hostPrefix dst, gw := r.gw, dev := r.dev, table }

def setBypass (dst : NetAddr) (b : Option Bypass) : Node ι := { s with bypass := update s.bypass dst b }

/-- Counts one more holder; the first one makes the host route. -/
def acquireBypass (ω : Fate ι) (pfx : String) (table : ℤ) (dst : NetAddr) : Except Err Unit × Node ι :=
  match s.bypass dst with
  | some b => (.ok (), s.setBypass dst (some { b with refs := b.refs + 1, pos := Nat.succ_pos _ }))
  | none => match s.underlayRoute ω pfx table dst with
    | .error e => (.error e, s)
    | .ok r =>
      if ω.fails then (.error (.host .other), s)
      else match s.kernel.routeAdd .bypass r with
        | .ok k => (.ok (), { s.setBypass dst (some ⟨r, true, 1, Nat.one_pos⟩) with kernel := k })
        | .error .exist => (.ok (), s.setBypass dst (some ⟨r, false, 1, Nat.one_pos⟩))
        | .error e => (.error (.host e), s)

/-- Counts one holder less; the last one removes what was made. -/
def releaseBypass (fails : Bool) (dst : NetAddr) : Except Err Unit × Node ι :=
  match s.bypass dst with
  | none => (.ok (), s)
  | some b =>
    if h : 1 < b.refs then
      (.ok (), s.setBypass dst (some { b with refs := b.refs - 1, pos := Nat.sub_pos_of_lt h }))
    else if !b.owned then (.ok (), s.setBypass dst none)
    else if fails then (.error (.host .other), s.setBypass dst none)
    else (.ok (), { s.setBypass dst none with kernel := s.kernel.routeDel b.route })

/-! ### The host -/

def onKernel : Except Sentinel Kernel → Except Err Unit × Node ι
  | .error e => (.error (.host e), s)
  | .ok k => (.ok (), { s with kernel := k })

/-- An operation that builds a tunnel. -/
def build (ω : Fate ι) (i : ι) : Build → Except Err Unit × Node ι
  | .acquireBypass pfx table dst => s.acquireBypass ω pfx table dst
  | .addXfrmInterface iface ifID underlay =>
    s.onKernel (if ω.fails then .error .other else s.kernel.addXfrmInterface iface ifID underlay)
  | .addAddr iface addr => s.onKernel (if ω.fails then .error .other else s.kernel.addAddr iface addr)
  | .setLinkUp iface => s.onKernel (if ω.fails then .error .other else s.kernel.setLinkUp iface)
  | .loadShared secret =>
    if ω.fails then (.error (.host .other), s)
    else (.ok (), { s with charon := s.charon.loadShared secret })
  | .loadConn conn =>
    if ω.fails then (.error (.host .other), s)
    else (.ok (), { s with charon := s.charon.loadConn i conn })
  | .initiate conn child =>
    if ω.fails then
      (.error (.host .other), if ω.leaves then { s with charon := s.charon.leaveHalfOpen i conn } else s)
    else match s.charon.initiate i conn child with
      | .error e => (.error (.host e), s)
      | .ok c => (.ok (), { s with charon := c })

/-- An operation that takes one down. -/
def undo (fails : Bool) : Undo → Except Err Unit × Node ι
  | .releaseBypass dst => s.releaseBypass fails dst
  | .deleteLink iface =>
    if fails then (.error (.host .other), s)
    else (.ok (), { s with kernel := s.kernel.deleteLink iface })
  | .unloadShared id =>
    if fails then (.error (.host .other), s)
    else (.ok (), { s with charon := s.charon.unloadShared id })
  | .unloadConn name =>
    if fails then (.error (.host .other), s)
    else (.ok (), { s with charon := s.charon.unloadConn name })
  | .terminateIKE name =>
    if fails then (.error (.host .other), s)
    else (.ok (), { s with charon := s.charon.terminateIKE name })

def ranged (ω : Fate ι) : Map NetPrefix Route :=
  ⟨ω.routeOrder s.installed.entries, (List.perm_nodupKeys (ω.routePerm _)).2 s.installed.nodupKeys⟩

def exec (ω : Fate ι) (i : ι) : (o : Op) → Node ι → Option (NodeSig.Res o × Node ι)
  | .finish _, s => some ((), s)
  | .ctxErr, s => some (if ω.ended then some .ended else none, s)
  | .enlist role t, s => some (s.enlist role t)
  | .settle role t err, s => some (s.settle role t i err)
  | .lookup role name, s => some (s.lookup role name, s)
  | .take role name, s => some (s.take role name)
  | .release name t, s => some ((), s.release name t)
  | .setActive name, s => some ((), { s with active := name })
  | .close, s => some (s.close ω)
  | .dropIfID ifID, s => some ((), { s with ifIDs := s.ifIDs.erase ifID })
  | .build b, s => some (s.build ω i b)
  | .undo u, s => some (s.undo ω.fails u)
  | .routeReplace _ r, s =>
    some (s.onKernel (if ω.fails then .error .other else s.kernel.routeReplace .tunnel r))
  | .routeDel _ r, s =>
    some (s.onKernel (if ω.fails then .error .other else .ok (s.kernel.routeDel r)))
  | .lockRoutes, s => match s.routeMu with
    | none => some (s.ranged ω, { s with routeMu := some i })
    | some _ => none
  | .storeRoutes m, s => some ((), { s with installed := m })
  | .unlockRoutes, s => some ((), { s with routeMu := none })

end Node

def node (ι : Type) : System ι NodeSig (Node ι) (Fate ι) where
  exec ω i o s := Node.exec ω i o s

end Egressa.IPsec
