import Egressa.IPsec.Node

/-!
# Client

The calls of `Client` (`internal/ipsec/client.go`) and `routeSet` (`routes.go`) as programs over the
operations of a `Node`.  What `Client` and `Gateway` do in the same way is written once: adding and
removing a tunnel, and moving the routes to one.  An undo list is kept with the latest step first, the
order in which it is run.
-/

namespace Egressa.IPsec

open Conc Maps

def finish (r : Except Err Unit) : Prog NodeSig (Except Err Unit) := do
  Prog.call (S := NodeSig) (.finish r)
  return r

/-! ## Undoing -/

/-- Run an undo list, whatever fails; whether anything has. -/
def unwind : List Undo → Prog NodeSig Bool
  | [] => return false
  | u :: us => do
    let r ← Prog.call (S := NodeSig) (.undo u)
    let bad ← unwind us
    return !Except.isOk r || bad

/-- What `tearDown` and `tearDownBackbone` run, in their order. -/
def teardown (full : Bool) (t : Tunnel) : List Undo :=
  .terminateIKE t.conn.name :: .unloadConn t.conn.name :: .unloadShared t.conn.name ::
    ((if full then [.releaseBypass t.addr] else []) ++ [.deleteLink t.iface])

/-! ## Adding and removing a tunnel -/

/-- One step of a bring-up: if it fails, so does the bring-up, and `undo` is what there is to undo. -/
def stage (b : Build) (undo : List Undo) (rest : Prog NodeSig (Option Err × List Undo)) :
    Prog NodeSig (Option Err × List Undo) := do
  match ← Prog.call (S := NodeSig) (.build b) with
  | .error e => return (some e, undo)
  | .ok () => rest

/-- The last steps, behind which everything is to be undone: `ctx.Err()`, and the rest if it is nil. -/
def unlessEnded (undo : List Undo) (rest : Prog NodeSig (Option Err × List Undo)) :
    Prog NodeSig (Option Err × List Undo) := do
  match ← Prog.call (S := NodeSig) .ctxErr with
  | some e => return (some e, undo)
  | none => rest

/-- `Add` and `AddBackbone`, behind their checks. -/
def addTunnel (role : Role) (t : Tunnel) (bringUp : Prog NodeSig (Option Err × List Undo)) :
    Prog NodeSig (Except Err Unit) := do
  match ← Prog.call (S := NodeSig) (.enlist role t) with
  | .error e => finish (.error e)
  | .ok () =>
    let (err, undo) ← bringUp
    match ← Prog.call (S := NodeSig) (.settle role t err) with
    | none => finish (.ok ())
    | some e =>
      let bad ← unwind undo
      finish (.error (.add t.name e bad))

def removeTunnel (role : Role) (full : Bool) (name : String) : Prog NodeSig (Except Err Unit) := do
  match ← Prog.call (S := NodeSig) (.take role name) with
  | .error e => finish (.error e)
  | .ok t =>
    let bad ← unwind (teardown full t)
    Prog.call (S := NodeSig) (.release name t)
    finish (if bad then .error (.remove t.name) else .ok ())

/-! ## Routes -/

/-- `change`: a route that was replaced, and the one that was installed there. -/
structure Change where
  r : Route
  prev : Option Route

/-- Takes route changes back, the last one first. -/
def undoChanges : List Change → Prog NodeSig Bool
  | [] => return false
  | c :: cs => do
    let r ← match c.prev with
      | some prev => Prog.call (S := NodeSig) (.routeReplace true prev)
      | none => Prog.call (S := NodeSig) (.routeDel true c.r)
    let bad ← undoChanges cs
    return !Except.isOk r || bad

/-- The loop of `apply` over the wanted routes; `done` is what it has changed, the last first. -/
def replaceAll (installed : Map NetPrefix Route) (done : List Change) : List Route → Prog NodeSig (Except Err Unit)
  | [] => return .ok ()
  | r :: rest => do
    match ← Prog.call (S := NodeSig) (.routeReplace false r) with
    | .ok () => replaceAll installed (⟨r, installed.lookup r.dst⟩ :: done) rest
    | .error e =>
      let bad ← undoChanges done
      match bad, e with
      | true, .host s => return .error (.undoing s)
      | _, _ => return .error e

/-- The loop of `apply` over the routes installed so far: `keep` is what will be installed, and `bad`
whether a withdrawal has failed. -/
def withdraw (keep : Map NetPrefix Route) (bad : Bool) :
    List (Entry NetPrefix Route) → Prog NodeSig (Map NetPrefix Route × Bool)
  | [] => return (keep, bad)
  | e :: rest =>
    if e.1 ∈ keep then withdraw keep bad rest
    else do
      match ← Prog.call (S := NodeSig) (.routeDel false e.2) with
      | .ok () => withdraw keep bad rest
      | .error _ => withdraw (keep.insert e.1 e.2) true rest

/-- `routeSet.apply`, of a set that has `installed`. -/
def apply (installed : Map NetPrefix Route) (want : List Route) : Prog NodeSig (Except Err Unit) := do
  match ← replaceAll installed [] want with
  | .error e => return .error e
  | .ok () =>
    let (keep, bad) ← withdraw (collect (fun r => some (r.dst, r)) want) false installed.entries
    Prog.call (S := NodeSig) (.storeRoutes keep)
    return if bad then .error .withdrawing else .ok ()

/-- The routes of the prefixes, each of them once. -/
def wantRoutes (refuse : NetPrefix → Bool) (route : NetPrefix → Route) (seen : List NetPrefix) :
    List NetPrefix → Except Err (List Route)
  | [] => .ok []
  | p :: ps =>
    if refuse (maskPrefix p) then .error (.wouldRouteAll (maskPrefix p))
    else if maskPrefix p ∈ seen then wantRoutes refuse route seen ps
    else (wantRoutes refuse route (maskPrefix p :: seen) ps).map (route (maskPrefix p) :: ·)

/-- The section of `Promote` and `Uplink` under `routeMu`, if the routes they want have passed the checks. -/
def installRoutes (name : String) : Except Err (List Route) → Prog NodeSig (Except Err Unit)
  | .error e => finish (.error e)
  | .ok want => do
    let installed ← Prog.call (S := NodeSig) .lockRoutes
    match ← apply installed want with
    | .error e =>
      Prog.call (S := NodeSig) .unlockRoutes
      finish (.error (.promote name e))
    | .ok () =>
      Prog.call (S := NodeSig) (.setActive name)
      Prog.call (S := NodeSig) .unlockRoutes
      finish (.ok ())

/-- `Promote` and `Uplink`, with the routes they want. -/
def moveRoutes (role : Role) (name : String) (want : Tunnel → Except Err (List Route)) :
    Prog NodeSig (Except Err Unit) := do
  match ← Prog.call (S := NodeSig) .ctxErr with
  | some e => finish (.error e)
  | none =>
    match ← Prog.call (S := NodeSig) (.lookup role name) with
    | .error e => finish (.error e)
    | .ok t => installRoutes name (want t)

/-! ## The calls of a client -/

namespace ClientConfig

variable (cfg : ClientConfig)

/-- The steps of `bringUp` at charon; `undo` is what there is to undo before them. -/
def establish (t : Tunnel) (undo : List Undo) : Prog NodeSig (Option Err × List Undo) :=
  let shared : List Undo := .unloadShared t.conn.name :: undo
  let conn : List Undo := .terminateIKE t.conn.name :: .unloadConn t.conn.name :: shared
  stage (.loadShared t.conn.secret) undo <|
  stage (.loadConn t.conn) shared <|
  unlessEnded conn <|
  stage (.initiate t.conn.name (childName t.conn.name t.conn.epoch)) conn <|
  return (none, conn)

/-- The interface, its address, the secret, the connection. -/
def bringUp (t : Tunnel) : Prog NodeSig (Option Err × List Undo) :=
  let link : List Undo := [.deleteLink t.iface]
  stage (.addXfrmInterface t.iface t.ifID cfg.underlay) [] <|
  stage (.addAddr t.iface (hostPrefix cfg.virtualIP)) link <|
  stage (.setLinkUp t.iface) link <|
  if cfg.fullTunnel then
    stage (.acquireBypass cfg.interfacePrefix cfg.table t.addr) link <|
    establish t (.releaseBypass t.addr :: link)
  else establish t link

def add (p : Peer) : Prog NodeSig (Except Err Unit) :=
  match cfg.validatePeer p with
  | .error e => finish (.error e)
  | .ok _ => addTunnel .client (cfg.tunnel p) (cfg.bringUp (cfg.tunnel p))

def remove (name : String) : Prog NodeSig (Except Err Unit) := removeTunnel .client cfg.fullTunnel name

/-- The prefixes of a promotion, or those of the full tunnel. -/
def promoted (prefixes : List NetPrefix) : Except Err (List NetPrefix) :=
  if cfg.fullTunnel then
    if !prefixes.isEmpty then .error .takesNoPrefixes
    else .ok (fullTunnelPrefixes (familyOf cfg.virtualIP))
  else if prefixes.isEmpty then .error .needsPrefix
  else .ok prefixes

def promoteRoutes (prefixes : List NetPrefix) (t : Tunnel) : Except Err (List Route) := do
  let prefixes ← cfg.promoted prefixes
  checkPrefixes "promoted" (familyOf cfg.virtualIP) prefixes
  wantRoutes isDefault (fun pf => { dst := pf, dev := t.iface, src := cfg.virtualIP, table := cfg.table }) [] prefixes

def promote (name : String) (prefixes : List NetPrefix) : Prog NodeSig (Except Err Unit) :=
  moveRoutes .client name (cfg.promoteRoutes prefixes)

/-- The loop of `Close` over the gateways. -/
def closePeers : List Tunnel → Prog NodeSig Bool
  | [] => return false
  | t :: ts => do
    let bad ← unwind (teardown cfg.fullTunnel t)
    Prog.call (S := NodeSig) (.dropIfID t.ifID)
    let worse ← closePeers ts
    return bad || worse

def close : Prog NodeSig (Except Err Unit) := do
  match ← Prog.call (S := NodeSig) .close with
  | none => finish (.ok ())
  | some ts =>
    let installed ← Prog.call (S := NodeSig) .lockRoutes
    let cleared ← apply installed []
    Prog.call (S := NodeSig) .unlockRoutes
    let bad ← cfg.closePeers ts
    let worse ← unwind (if cfg.fullTunnel then cfg.controllers.map .releaseBypass else [])
    finish (if !Except.isOk cleared || bad || worse then .error .close else .ok ())

end ClientConfig

inductive ClientCall where
  | add (p : Peer)
  | promote (name : String) (prefixes : List NetPrefix)
  | remove (name : String)
  | close

def ClientCall.run (cfg : ClientConfig) : ClientCall → Prog NodeSig (Except Err Unit)
  | .add p => cfg.add p
  | .promote name prefixes => cfg.promote name prefixes
  | .remove name => cfg.remove name
  | .close => cfg.close

/-! ## New clients -/

section New

variable {ι : Type} (cfg : ClientConfig) (fate : NetAddr → Fate ι)

/-- The loop of `NewClient` over the controllers; `done` are those that have their bypass route. -/
def acquireControllers (done : List NetAddr) : List NetAddr → Node ι → Except Err Unit × Node ι
  | [], s => (.ok (), s)
  | a :: rest, s => match s.acquireBypass (fate a) cfg.interfacePrefix cfg.table a with
    | (.ok (), s) => acquireControllers (done ++ [a]) rest s
    | (.error e, s) => (.error e, done.foldl (fun s a => (s.releaseBypass false a).2) s)

/-- `NewClient`, with the configuration that the client then has. -/
def newClient (kernel : Kernel) (charon : Charon ι) : Except Err ClientConfig × Node ι :=
  let cfg := cfg.setDefaults
  match cfg.validate with
  | .error e => (.error e, { kernel, charon })
  | .ok () =>
    if cfg.fullTunnel then
      let (r, s) := acquireControllers cfg fate [] cfg.controllers { kernel, charon }
      (r.map fun _ => cfg, s)
    else (.ok cfg, { kernel, charon })

end New

end Egressa.IPsec
