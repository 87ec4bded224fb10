import Egressa.IPsec.Config

/-!
# The kernel and the IKE daemon

The links and routes of the kernel (`Net`), and the secrets, connections and SAs of charon (`IKE`), each marked with
whether the endpoint of this model has created it; the code does not see these marks.  The kernel refuses a route
through a link that is not there, and drops the routes with their link.
-/

namespace Egressa.IPsec

open Function (update update_of_ne)

/-! ## The kernel -/

/-- An interface; `mine` if the client made it. -/
structure Link where
  ifID : UInt32
  underlay : String
  up : Bool
  addrs : List NetPrefix
  mine : Bool
  deriving DecidableEq, Repr

/-- Who has created a route: someone else, `acquireBypass`, or a `routeSet`. -/
inductive Origin where
  | foreign
  | bypass
  | tunnel
  deriving DecidableEq, Repr

/-- A route with who made it. -/
structure Placed where
  route : Route
  origin : Origin
  deriving DecidableEq, Repr

def Placed.Uses (p : Placed) (name : String) : Prop := p.route.dev = name ∧ name ≠ ""

instance (p : Placed) (name : String) : Decidable (p.Uses name) := inferInstanceAs (Decidable (_ ∧ _))

/-- The links and routes of a host; a route has its link. -/
@[ext] structure Kernel where
  links : String → Option Link
  routes : ℤ × NetPrefix → Option Placed
  attached : ∀ k p, routes k = some p → p.route.dev = "" ∨ (links p.route.dev).isSome

namespace Kernel

variable (k : Kernel)

def Reachable (r : Route) : Prop := r.dev = "" ∨ (k.links r.dev).isSome

instance (r : Route) : Decidable (k.Reachable r) := inferInstanceAs (Decidable (_ ∨ _))

def setLink (name : String) (l : Link) : Kernel where
  links := update k.links name (some l)
  routes := k.routes
  attached key p h := by
    rcases k.attached key p h with hdev | hdev
    · exact Or.inl hdev
    · refine Or.inr ?_
      by_cases hname : p.route.dev = name
      · simp [hname]
      · simpa [hname] using hdev

def addXfrmInterface (name : String) (ifID : UInt32) (underlay : String) : Except Sentinel Kernel :=
  if ifID = 0 then .error .other
  else if underlay ≠ "" ∧ k.links underlay = none then .error .notExist
  else match k.links name with
    | some _ => .error .exist
    | none => .ok (k.setLink name ⟨ifID, underlay, false, [], true⟩)

def addAddr (name : String) (addr : NetPrefix) : Except Sentinel Kernel :=
  match k.links name with
  | none => .error .notExist
  | some l => .ok (k.setLink name { l with addrs := l.addrs ++ [addr] })

def setLinkUp (name : String) : Except Sentinel Kernel :=
  match k.links name with
  | none => .error .notExist
  | some l => .ok (k.setLink name { l with up := true })

/-- `ignoreNotExist(DeleteLink)`: the link is gone, and the routes through it. -/
def deleteLink (name : String) : Kernel where
  links := update k.links name none
  routes key := (k.routes key).filter fun p => ¬ p.Uses name
  attached key p h := by
    obtain ⟨h, huses⟩ := Option.filter_eq_some_iff.1 h
    rcases k.attached key p h with hdev | hdev
    · exact Or.inl hdev
    · by_cases hname : p.route.dev = name
      · left
        by_contra hne
        simp [Placed.Uses, hname, hname ▸ hne] at huses
      · right
        simpa [hname] using hdev

def place (origin : Origin) (r : Route) (h : k.Reachable r) : Kernel where
  links := k.links
  routes := update k.routes r.key (some ⟨r, origin⟩)
  attached key p hp := by
    by_cases hkey : key = r.key
    · subst hkey
      rw [Function.update_self] at hp
      cases hp
      exact h
    · rw [update_of_ne hkey] at hp
      exact k.attached key p hp

/-- `RouteAdd`: fails if there is one. -/
def routeAdd (origin : Origin) (r : Route) : Except Sentinel Kernel :=
  if h : k.Reachable r then
    match k.routes r.key with
    | some _ => .error .exist
    | none => .ok (k.place origin r h)
  else .error .notExist

def routeReplace (origin : Origin) (r : Route) : Except Sentinel Kernel :=
  if h : k.Reachable r then .ok (k.place origin r h) else .error .notExist

/-- `ignoreNotExist(RouteDel)`. -/
def routeDel (r : Route) : Kernel where
  links := k.links
  routes := update k.routes r.key none
  attached key p hp := by
    by_cases hkey : key = r.key
    · simp [hkey] at hp
    · rw [update_of_ne hkey] at hp
      exact k.attached key p hp

end Kernel

/-! ## The IKE daemon -/

structure Loaded (α : Type) where
  value : α
  mine : Bool
  deriving DecidableEq, Repr

/-- An IKE_SA of a connection, as far as one `Initiate` has brought it: established, or left half-open.
`call` is the call that did so. -/
structure Sa (ι : Type) where
  conn : String
  established : Bool
  call : Option ι
  deriving DecidableEq, Repr

/-- What the IKE daemon has loaded and set up. -/
@[ext] structure Charon (ι : Type) where
  secrets : String → Option (Loaded SharedSecret)
  conns : String → Option (Loaded Connection)
  sas : List (Sa ι)

namespace Charon

variable {ι : Type} (c : Charon ι)

def loadShared (s : SharedSecret) : Charon ι := { c with secrets := update c.secrets s.id (some ⟨s, true⟩) }

/-- `LoadConn`.  A connection with `start_action=start` is brought up as soon as it is loaded. -/
def loadConn (i : ι) (conn : Connection) : Charon ι :=
  { c with
    conns := update c.conns conn.name (some ⟨conn, true⟩)
    sas := if conn.start = .start then c.sas ++ [⟨conn.name, true, some i⟩] else c.sas }

def initiate (i : ι) (conn child : String) : Except Sentinel (Charon ι) :=
  match c.conns conn with
  | none => .error .notFound
  | some loaded =>
    if childName loaded.value.name loaded.value.epoch = child then
      .ok { c with sas := c.sas ++ [⟨conn, true, some i⟩] }
    else .error .notFound

/-- What an `Initiate` that failed may leave behind. -/
def leaveHalfOpen (i : ι) (conn : String) : Charon ι := { c with sas := c.sas ++ [⟨conn, false, some i⟩] }

/-- `ignoreNotFound(UnloadShared)`. -/
def unloadShared (id : String) : Charon ι := { c with secrets := update c.secrets id none }

/-- `ignoreNotFound(UnloadConn)`. -/
def unloadConn (name : String) : Charon ι := { c with conns := update c.conns name none }

/-- `ignoreNotFound(TerminateIKE)`. -/
def terminateIKE (name : String) : Charon ι := { c with sas := c.sas.filter fun sa => sa.conn ≠ name }

end Charon

end Egressa.IPsec
