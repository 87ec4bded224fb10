import Egressa.IPsec.Phases

/-!
# Generations

`Client.Advance` (`internal/ipsec/client.go`) moves a gateway to a higher epoch.  It looks up the `clientPeer`, and
from then on reads the connection through the pointer, without `mu`; it loads the new connection, initiates it, and
then records it under `mu`, or loads again what is recorded if `Initiate` has failed.
-/

namespace Egressa.IPsec

open Conc Maps
open Function (update update_of_ne update_self)

/-! ## The calls -/

/-- Which read of `p.conn` in `Advance`: for the check of the epoch, its message, the next connection, or restoring the
old one. -/
inductive Reading where
  | check
  | message
  | copy
  | restore
  deriving DecidableEq, Repr

/-- What a call does besides the operations on a `Node`.  A `clientPeer` is named by the call that has made it. -/
inductive PeerOp (ι : Type) where
  /-- `Client.peer`. -/
  | peer (name : String)
  | read (why : Reading) (p : ι)
  /-- The section of `Advance` under `mu`. -/
  | record (name : String) (conn : Connection)
  /-- `fenceBelow`, which only ends CHILD_SAs. -/
  | fence (conn : String) (epoch : UInt64)

def PeerOp.Res {ι : Type} : PeerOp ι → Type
  | peer _ => Except Err ι
  | read _ _ => Connection
  | record _ _ => Unit
  | fence _ _ => Except Err Unit

abbrev PeerSig (ι : Type) : Sig := ⟨PeerOp ι, PeerOp.Res⟩

abbrev GenSig (ι : Type) : Sig := NodeSig.sum (PeerSig ι)

abbrev GenState (ι : Type) : Type := Node ι × (ι → Connection)

section System

variable {ι : Type} [DecidableEq ι]

/-- The lookup of `Advance`. -/
def Node.peer (s : Node ι) (name : String) : Except Err ι :=
  if s.closed then .error .clientClosed
  else match s.peers.lookup name with
    | none => .error (.unknown name)
    | some p => .ok p.adder

/-- Writes the connection back, if the gateway is still there. -/
def recordConn (s : GenState ι) (name : String) (conn : Connection) : GenState ι :=
  match s.1.peers.lookup name with
  | none => s
  | some p => (s.1, update s.2 p.adder conn)

def genSystem (ι : Type) [DecidableEq ι] : System ι (GenSig ι) (GenState ι) (Fate ι) where
  exec ω i o s := match o with
    | .inl o => ((node ι).exec ω i o s.1).map fun p => (p.1, (p.2, s.2))
    | .inr (.peer name) => some (s.1.peer name, s)
    | .inr (.read _ p) => some (s.2 p, s)
    | .inr (.record name conn) => some ((), recordConn s name conn)
    | .inr (.fence _ _) => some (if ω.fails then .error (.host .other) else .ok (), s)

end System

section Programs

variable {ι : Type}

def onPeers (o : PeerOp ι) : Prog (GenSig ι) o.Res := .call (S := GenSig ι) (.inr o)

def onNode (o : Op) : Prog (GenSig ι) (NodeSig.Res o) := .call (S := GenSig ι) (.inl o)

/-- The errors of `Advance`. -/
inductive AdvanceErr where
  | other (e : Err)
  | already (name : String) (epoch cur : UInt64)
  /-- `restoring` is the error of restoring the old connection, if that has failed as well. -/
  | failed (name : String) (cause : Err) (restoring : Option Err)
  deriving DecidableEq, Repr

/-- Loads the old connection again. -/
def restore (name : String) (p : ι) (cause : Err) : Prog (GenSig ι) (Except AdvanceErr Unit) := do
  let old ← onPeers (.read .restore p)
  match ← onNode (.build (.loadConn old)) with
  | .error e => return .error (.failed name cause (some e))
  | .ok () => return .error (.failed name cause none)

/-- The last part of `Advance`. -/
def recordAndFence (name : String) (next : Connection) : Prog (GenSig ι) (Except AdvanceErr Unit) := do
  onPeers (.record name next)
  match ← onPeers (.fence next.name next.epoch) with
  | .error e => return .error (.other e)
  | .ok () => return .ok ()

/-- `Advance`, from its `LoadConn` on. -/
def switch (name : String) (p : ι) (next : Connection) : Prog (GenSig ι) (Except AdvanceErr Unit) := do
  match ← onNode (.build (.loadConn next)) with
  | .error e => return .error (.other e)
  | .ok () =>
    match ← onNode (.build (.initiate next.name (childName next.name next.epoch))) with
    | .error e => restore name p e
    | .ok () => recordAndFence name next

/-- `Advance`, from its check of the epoch on. -/
def advanceFrom (name : String) (epoch : UInt64) (p : ι) (cur : Connection) :
    Prog (GenSig ι) (Except AdvanceErr Unit) :=
  if epoch ≤ cur.epoch then do
    let again ← onPeers (.read .message p)
    return .error (.already name epoch again.epoch)
  else do
    let conn ← onPeers (.read .copy p)
    switch name p { conn with epoch := epoch }

/-- `Advance`: moves a gateway to a higher epoch. -/
def advance (name : String) (epoch : UInt64) : Prog (GenSig ι) (Except AdvanceErr Unit) := do
  match ← onPeers (.peer name) with
  | .error e => return .error (.other e)
  | .ok p =>
    let cur ← onPeers (.read .check p)
    advanceFrom name epoch p cur

end Programs

inductive GenCall where
  | advance (name : String) (epoch : UInt64)
  | remove (name : String)
  | close

def GenCall.run {ι : Type} (cfg : ClientConfig) : GenCall → Prog (GenSig ι) (Except AdvanceErr Unit)
  | .advance name epoch => IPsec.advance name epoch
  | .remove name => do return (← (cfg.remove name).inl).mapError .other
  | .close => do return (← cfg.close.inl).mapError .other

variable {ι : Type} [DecidableEq ι]

def startGen (cfg : ClientConfig) (s : GenState ι) (calls : ι → GenCall) :
    Config ι (GenSig ι) (GenState ι) (Except AdvanceErr Unit) where
  pool i := (calls i).run cfg
  world := ⟨s, []⟩

/-! ## What a call may do -/

/-- The connections that a call of `Remove` or `Close` has still to unload. -/
def Phase.unloads (h : Phase) : List String :=
  h.owes.filterMap fun
    | .unloadConn name => some name
    | _ => none

/-- How far a call of `Advance` has come. -/
inductive Point where
  | found
  /-- The epoch is above `floor`, or a complaint is due. -/
  | seen (floor : UInt64)
  | copied (floor : UInt64) (conn : Connection)
  | loaded (next : Connection)
  | up (next : Connection)
  | down
  | restoring (old : Connection)
  deriving DecidableEq, Repr

/-- What a call is about: what it has on hand in `Remove` or `Close`, a gateway that it advances, or nothing any
more. -/
inductive Turn (ι : Type) where
  | calling (h : Phase)
  | advancing (name : String) (p : ι) (point : Point)
  | past
  deriving DecidableEq

namespace Turn

/-- The connections a call has still to unload. -/
def owes : Turn ι → List String
  | calling h => h.unloads
  | _ => []

/-- The gateway that is advanced. -/
def subject : Turn ι → Option String
  | advancing name _ _ => some name
  | _ => none

def looked (name : String) : Except Err ι → Turn ι
  | .ok p => .advancing name p .found
  | .error _ => .past

def read (name : String) (p : ι) : Point → Reading → Connection → Option (Turn ι)
  | .found, .check, conn => some (.advancing name p (.seen conn.epoch))
  | .seen _, .message, _ => some .past
  | .seen floor, .copy, conn => some (.advancing name p (.copied floor conn))
  | .down, .restore, conn => some (.advancing name p (.restoring conn))
  | _, _, _ => none

def load (name : String) (p : ι) (conn : Connection) : Point → Except Err Unit → Option (Turn ι)
  | .copied floor old, .ok () =>
    if conn.name = old.name ∧ floor < conn.epoch then some (.advancing name p (.loaded conn)) else none
  | .copied _ _, .error _ => some .past
  | .restoring old, _ => if conn = old then some .past else none
  | _, _ => none

def initiated (name : String) (p : ι) : Point → Except Err Unit → Option (Turn ι)
  | .loaded next, .ok () => some (.advancing name p (.up next))
  | .loaded _, .error _ => some (.advancing name p .down)
  | _, _ => none

/-- The turn after one more operation, if the call may make it. -/
def next (cfg : ClientConfig) : Turn ι → (o : (GenSig ι).Op) → (GenSig ι).Res o → Option (Turn ι)
  | .calling h, .inl o, r => (h.next cfg false o r).map .calling
  | .calling h, .inr (.peer name), r => if h.owes = [] then some (looked name r) else none
  | .advancing name p point, .inr (.read why q), r => if q = p then read name p point why r else none
  | .advancing name p point, .inl (.build (.loadConn conn)), r => load name p conn point r
  | .advancing name p point, .inl (.build (.initiate _ _)), r => initiated name p point r
  | .advancing name _ (.up next), .inr (.record name' conn), _ =>
    if name' = name ∧ conn = next then some .past else none
  | .past, .inr (.fence _ _), _ => some .past
  | _, _, _ => none

def Done (h : Turn ι) : Prop := h = .calling {} ∨ h = .past

end Turn

section Follows

variable {cfg : ClientConfig} {name : String} {p : ι} {conn : Connection}

theorem follows_restore (cause : Err) :
    Follows (Turn.next cfg) (restore name p cause) (fun _ => Turn.Done) (.advancing name p .down) := by
  refine fun old => ⟨.advancing name p (.restoring old), if_pos rfl, fun r => ⟨.past, if_pos rfl, ?_⟩⟩
  cases r with
  | error e => exact Or.inr rfl
  | ok u => exact Or.inr rfl

theorem follows_recordAndFence :
    Follows (Turn.next cfg) (recordAndFence (ι := ι) name conn) (fun _ => Turn.Done)
      (.advancing name p (.up conn)) := by
  refine fun _ => ⟨.past, if_pos ⟨rfl, rfl⟩, fun r => ⟨.past, rfl, ?_⟩⟩
  cases r with
  | error e => exact Or.inr rfl
  | ok u => exact Or.inr rfl

theorem follows_switch {floor : UInt64} {old : Connection} (hname : conn.name = old.name) (above : floor < conn.epoch) :
    Follows (Turn.next cfg) (switch name p conn) (fun _ => Turn.Done) (.advancing name p (.copied floor old)) := by
  intro r
  cases r with
  | error e => exact ⟨.past, rfl, Or.inr rfl⟩
  | ok u =>
    refine ⟨.advancing name p (.loaded conn), if_pos ⟨hname, above⟩, fun r => ?_⟩
    cases r with
    | error e => exact ⟨_, rfl, follows_restore e⟩
    | ok u => exact ⟨_, rfl, follows_recordAndFence⟩

theorem follows_advance (name : String) (epoch : UInt64) :
    Follows (Turn.next cfg) (advance name epoch) (fun _ => Turn.Done) (.calling {} : Turn ι) := by
  intro r
  cases r with
  | error e => exact ⟨.past, rfl, Or.inr rfl⟩
  | ok p =>
    refine ⟨.advancing name p .found, rfl, fun cur => ⟨.advancing name p (.seen cur.epoch), if_pos rfl, ?_⟩⟩
    change Follows _ (advanceFrom name epoch p cur) _ _
    unfold advanceFrom
    split_ifs with h
    · exact fun _ => ⟨.past, if_pos rfl, Or.inr rfl⟩
    · exact fun conn => ⟨.advancing name p (.copied cur.epoch conn), if_pos rfl,
        follows_switch rfl (UInt64.not_le.1 h)⟩

theorem GenCall.follows (cfg : ClientConfig) (call : GenCall) :
    Follows (Turn.next cfg) (call.run cfg) (fun _ => Turn.Done) (.calling {} : Turn ι) := by
  have lifts : ∀ h (o : Op) (r : NodeSig.Res o) h', Phase.next cfg false h o r = some h' →
      Turn.next cfg (.calling h : Turn ι) (.inl o) r = some (.calling h') := by
    intro h o r h' next
    simp [Turn.next, next]
  cases call with
  | advance name epoch => exact follows_advance name epoch
  | remove name =>
    refine Follows.andThen (Q := fun _ h => h = .calling {}) ?_ fun _ _ h => Or.inl h
    exact (follows_remove cfg name).inl lifts fun _ h hh => by rw [hh]
  | close =>
    refine Follows.andThen (Q := fun _ h => h = .calling {}) ?_ fun _ _ h => Or.inl h
    exact (follows_close cfg).inl lifts fun _ h hh => by rw [hh]

end Follows

/-! ## What an operation does to the generations -/

/-- The gateways, with their recorded and loaded connections. -/
structure Books (ι : Type) where
  peers : Map String (Kept ι)
  loaded : String → Option Connection
  recorded : ι → Connection

def books (s : GenState ι) : Books ι where
  peers := s.1.peers
  loaded name := (s.1.charon.conns name).map Loaded.value
  recorded := s.2

/-- No call is on its way with the gateway. -/
def Free (hs : ι → Turn ι) (name : String) : Prop := ∀ j, (hs j).subject ≠ some name

/-- What an operation can do, of calls that keep out of one another's way: `free` are the gateways that no call
advances. -/
inductive Move (free : String → Prop) (b : Books ι) : Turn ι → Turn ι → Books ι → Prop
  | past : Move free b .past .past b
  | stay {h h' : Phase} (same : h'.unloads = h.unloads) : Move free b (.calling h) (.calling h') b
  | took {h h' : Phase} {name : String} {k : Kept ι} (here : b.peers.lookup name = some k) (alone : free name)
      (none : h.unloads = []) (one : h'.unloads = [k.tunnel.conn.name]) :
      Move free b (.calling h) (.calling h') { b with peers := b.peers.erase name }
  | shut {h h' : Phase} {ks : List (Kept ι)} (all : ks.Perm (values b.peers)) (alone : ∀ name, free name)
      (none : h.unloads = []) (each : h'.unloads = ks.map (·.tunnel.conn.name)) :
      Move free b (.calling h) (.calling h') { b with peers := ∅ }
  | unload {h h' : Phase} {name : String} (first : h.unloads = name :: h'.unloads) :
      Move free b (.calling h) (.calling h') { b with loaded := update b.loaded name none }
  | found {h : Phase} {name : String} {k : Kept ι} (here : b.peers.lookup name = some k) (alone : free name)
      (none : h.unloads = []) : Move free b (.calling h) (.advancing name k.adder .found) b
  | refuse {h : Phase} (none : h.unloads = []) : Move free b (.calling h) .past b
  | see (name : String) (p : ι) :
      Move free b (.advancing name p .found) (.advancing name p (.seen (b.recorded p).epoch)) b
  | complain (name : String) (p : ι) (floor : UInt64) : Move free b (.advancing name p (.seen floor)) .past b
  | copy (name : String) (p : ι) (floor : UInt64) :
      Move free b (.advancing name p (.seen floor)) (.advancing name p (.copied floor (b.recorded p))) b
  | giveUp (name : String) (p : ι) (floor : UInt64) (conn : Connection) :
      Move free b (.advancing name p (.copied floor conn)) .past b
  | load (name : String) (p : ι) {floor : UInt64} {old next : Connection} (same : next.name = old.name)
      (above : floor < next.epoch) :
      Move free b (.advancing name p (.copied floor old)) (.advancing name p (.loaded next))
        { b with loaded := update b.loaded next.name (some next) }
  | initiate (name : String) (p : ι) (next : Connection) :
      Move free b (.advancing name p (.loaded next)) (.advancing name p (.up next)) b
  | fail (name : String) (p : ι) (next : Connection) :
      Move free b (.advancing name p (.loaded next)) (.advancing name p .down) b
  | record {name : String} {k : Kept ι} (p : ι) (next : Connection) (here : b.peers.lookup name = some k) :
      Move free b (.advancing name p (.up next)) .past { b with recorded := update b.recorded k.adder next }
  | forget {name : String} (p : ι) (next : Connection) (gone : b.peers.lookup name = none) :
      Move free b (.advancing name p (.up next)) .past b
  | reread (name : String) (p : ι) :
      Move free b (.advancing name p .down) (.advancing name p (.restoring (b.recorded p))) b
  | restore (name : String) (p : ι) (old : Connection) : Move free b (.advancing name p (.restoring old)) .past
        { b with loaded := update b.loaded old.name (some old) }

/-- No call advances a gateway that another call on it begins with. -/
def Calm (hs : ι → Turn ι) : (GenSig ι).Op → Prop
  | .inr (.peer name) | .inl (.take _ name) => Free hs name
  | .inl .close => ∀ j, (hs j).subject = none
  | _ => True

def Turn.Restores : Turn ι → Prop
  | .advancing _ _ (.restoring _) => True
  | _ => False

/-- Charon unloads what it is told to, and loads what is to be restored.  It may fail otherwise. -/
def Answers (h : Turn ι) : (o : (GenSig ι).Op) → (GenSig ι).Res o → Prop
  | .inl (.undo (.unloadConn _)), r => r = .ok ()
  | .inl (.build (.loadConn _)), r => h.Restores → r = .ok ()
  | _, _ => True

namespace Move

variable {cfg : ClientConfig} {hs : ι → Turn ι} {s : GenState ι} {ω : Fate ι} {i : ι} {n' : Node ι} {h h' : Phase}

omit [DecidableEq ι] in
theorem unloads_teardown (full : Bool) (t : Tunnel) (pends : Option String) (h : Phase) :
    Phase.unloads { h with pends, owes := teardown full t } = [t.conn.name] := by
  cases full <;> rfl

omit [DecidableEq ι] in
theorem unloads_teardowns (ts : List Tunnel) (h : Phase) :
    Phase.unloads { h with owes := cfg.teardowns ts } = ts.map (·.conn.name) := by
  simp only [Phase.unloads, ClientConfig.teardowns, List.filterMap_append, List.filterMap_map]
  induction ts with
  | nil => simp
  | cons t ts ih =>
    rw [List.flatMap_cons, List.filterMap_append, List.append_assoc, ih]
    exact congrArg (· ++ _) (unloads_teardown cfg.fullTunnel t none h)

theorem of_take {role : Role} {name : String} {r : Except Err Tunnel} (hex : s.1.take role name = (r, n'))
    (idle : h.owes = []) (calm : Free hs name) :
    Move (Free hs) (books s) (.calling h) (.calling (h.take cfg name r)) (books (n', s.2)) := by
  have failed : ∀ e : Err, (Except.error e, s.1) = (r, n') →
      Move (Free hs) (books s) (.calling h) (.calling (h.take cfg name r)) (books (n', s.2)) := by
    rintro e h
    cases h
    exact .stay rfl
  unfold Node.take at hex
  cases here : s.1.peers.lookup name with
  | none =>
    simp only [here] at hex
    split_ifs at hex
    · exact failed _ hex
    · exact failed _ hex
  | some k =>
    rw [here] at hex
    split_ifs at hex
    · exact failed _ hex
    · exact failed _ hex
    · cases hex
      exact .took here calm (by simp [Phase.unloads, idle]) (unloads_teardown cfg.fullTunnel _ _ h)

theorem of_close {r : Option (List Tunnel)} (hex : s.1.close ω = (r, n')) (idle : h.owes = [])
    (calm : ∀ j, (hs j).subject = none) :
    Move (Free hs) (books s) (.calling h) (.calling (h.close cfg r)) (books (n', s.2)) := by
  unfold Node.close at hex
  split_ifs at hex
  · cases hex
    exact .stay rfl
  · cases hex
    refine .shut (ω.peerPerm _) (fun name j => by simp [calm j]) (by simp [Phase.unloads, idle]) ?_
    exact (unloads_teardowns _ h).trans (List.map_map ..)

variable {r : Except Err Unit}

omit [DecidableEq ι] in
theorem books_unloadConn (name : String) : books ({ s.1 with charon := s.1.charon.unloadConn name }, s.2) =
    { books s with loaded := update (books s).loaded name none } := by
  simp only [books, Charon.unloadConn, Books.mk.injEq, true_and, and_true]
  funext name'
  by_cases h : name' = name
  · subst h
    simp
  · simp [h]

theorem of_undo {u : Undo} (hex : s.1.undo ω.fails u = (r, n')) (owed : h.owes.head? = some u)
    (answers : ∀ name, u = .unloadConn name → r = .ok ()) :
    Move (Free hs) (books s) (.calling h) (.calling { h with owes := h.owes.tail }) (books (n', s.2)) := by
  obtain ⟨us, owes⟩ := List.head?_eq_some_iff.1 owed
  cases u with
  | unloadConn name =>
    simp only [Node.undo] at hex
    split_ifs at hex <;> cases hex
    · cases answers name rfl
    · rw [books_unloadConn]
      exact .unload (by simp [Phase.unloads, owes])
  | releaseBypass dst =>
    have same : books (n', s.2) = books s := by
      simp only [Node.undo, Node.releaseBypass] at hex
      split at hex
      · cases hex
        rfl
      · split_ifs at hex <;> cases hex <;> rfl
    rw [same]
    exact .stay (by simp [Phase.unloads, owes])
  | deleteLink | unloadShared | terminateIKE =>
    have same : books (n', s.2) = books s := by
      simp only [Node.undo] at hex
      split_ifs at hex <;> cases hex <;> rfl
    rw [same]
    exact .stay (by simp [Phase.unloads, owes])

theorem of_node {o : Op} {r : NodeSig.Res o} (hex : Node.exec ω i o s.1 = some (r, n'))
    (next : h.next cfg false o r = some h') (calm : Calm hs (.inl o))
    (answers : Answers (.calling h : Turn ι) (.inl o) r) :
    Move (Free hs) (books s) (.calling h) (.calling h') (books (n', s.2)) := by
  cases o with
  | take role name =>
    obtain ⟨idle, ⟨⟩⟩ := Option.ite_none_right_eq_some.1 next
    exact of_take (Option.some.inj hex) idle calm
  | close =>
    obtain ⟨idle, ⟨⟩⟩ := Option.ite_none_right_eq_some.1 next
    exact of_close (Option.some.inj hex) idle calm
  | undo u =>
    obtain ⟨owed, ⟨⟩⟩ := Option.ite_none_right_eq_some.1 next
    exact of_undo (Option.some.inj hex) owed fun name h => by subst h; exact answers
  | finish =>
    obtain ⟨idle, ⟨⟩⟩ := Option.ite_none_right_eq_some.1 next
    cases hex
    exact .stay (by simp [Phase.unloads, idle])
  | release =>
    obtain ⟨-, ⟨⟩⟩ := Option.ite_none_right_eq_some.1 next
    cases hex
    exact .stay rfl
  | storeRoutes =>
    obtain ⟨-, ⟨⟩⟩ := Option.ite_none_right_eq_some.1 next
    cases hex
    exact .stay rfl
  | ctxErr | dropIfID | unlockRoutes =>
    cases hex
    cases next
    exact .stay rfl
  | lockRoutes =>
    cases mu : s.1.routeMu with
    | none =>
      simp only [Node.exec, mu] at hex
      cases hex
      cases next
      exact .stay rfl
    | some j => simp [Node.exec, mu] at hex
  | routeDel undo route =>
    obtain ⟨-, ⟨⟩⟩ := Option.ite_none_right_eq_some.1 next
    have hex := Option.some.inj hex
    split_ifs at hex <;> cases hex <;> exact .stay rfl
  | build | settle => simp [Phase.next] at next
  | enlist | lookup | setActive | routeReplace => cases next

theorem of_peer {name : String} (none : h.unloads = []) (calm : Free hs name) :
    Move (Free hs) (books s) (.calling h) (Turn.looked name (s.1.peer name)) (books s) := by
  unfold Node.peer
  split_ifs
  · exact .refuse none
  · cases here : s.1.peers.lookup name with
    | none => exact .refuse none
    | some k => exact .found here calm none

variable {p : ι} {point : Point} {h' : Turn ι}

theorem of_read {name : String} {why : Reading} (next : Turn.read name p point why (s.2 p) = some h') :
    Move (Free hs) (books s) (.advancing name p point) h' (books s) := by
  cases point with
  | found =>
    cases why with
    | check =>
      cases next
      exact .see name p
    | _ => cases next
  | seen floor =>
    cases why with
    | message =>
      cases next
      exact .complain name p floor
    | copy =>
      cases next
      exact .copy name p floor
    | _ => cases next
  | down =>
    cases why with
    | restore =>
      cases next
      exact .reread name p
    | _ => cases next
  | _ => cases next

omit [DecidableEq ι] in
theorem books_loadConn (conn : Connection) : books ({ s.1 with charon := s.1.charon.loadConn i conn }, s.2) =
      { books s with loaded := update (books s).loaded conn.name (some conn) } := by
  simp only [books, Charon.loadConn, Books.mk.injEq, true_and, and_true]
  funext name
  by_cases h : name = conn.name
  · subst h
    simp
  · simp [h]

theorem of_load {name : String} {conn : Connection} (hex : s.1.build ω i (.loadConn conn) = (r, n'))
    (next : Turn.load name p conn point r = some h')
    (answers : (Turn.advancing name p point).Restores → r = .ok ()) :
    Move (Free hs) (books s) (.advancing name p point) h' (books (n', s.2)) := by
  simp only [Node.build] at hex
  split_ifs at hex <;> cases hex
  · cases point with
    | copied floor old =>
      cases next
      exact .giveUp name p floor old
    | restoring old => cases answers trivial
    | _ => cases next
  · rw [books_loadConn]
    cases point with
    | copied floor old =>
      obtain ⟨⟨same, above⟩, ⟨⟩⟩ := Option.ite_none_right_eq_some.1 next
      exact .load name p same above
    | restoring old =>
      obtain ⟨rfl, ⟨⟩⟩ := Option.ite_none_right_eq_some.1 next
      exact .restore name p conn
    | _ => cases next

theorem of_initiate {name conn child : String} (hex : s.1.build ω i (.initiate conn child) = (r, n'))
    (next : Turn.initiated name p point r = some h') :
    Move (Free hs) (books s) (.advancing name p point) h' (books (n', s.2)) := by
  have same : books (n', s.2) = books s := by
    simp only [Node.build, Charon.initiate] at hex
    split_ifs at hex
    · cases hex
      rfl
    · cases hex
      rfl
    · cases loaded : s.1.charon.conns conn with
      | none =>
        simp only [loaded] at hex
        cases hex
        rfl
      | some c =>
        simp only [loaded] at hex
        split_ifs at hex <;> cases hex <;> rfl
  rw [same]
  cases point with
  | loaded conn =>
    cases r with
    | ok u =>
      cases next
      exact .initiate name p conn
    | error e =>
      cases next
      exact .fail name p conn
  | _ => cases next

theorem of_record {name : String} {conn : Connection} :
    Move (Free hs) (books s) (.advancing name p (.up conn)) .past (books (recordConn s name conn)) := by
  unfold recordConn
  cases here : s.1.peers.lookup name with
  | none => exact .forget p conn here
  | some k => exact .record p conn here

theorem of_exec {o : (GenSig ι).Op} {r : (GenSig ι).Res o} {s' : GenState ι} {h h' : Turn ι}
    (hex : (genSystem ι).exec ω i o s = some (r, s')) (next : Turn.next cfg h o r = some h') (calm : Calm hs o)
    (answers : Answers h o r) : Move (Free hs) (books s) h h' (books s') := by
  cases h with
  | calling h =>
    rcases o with o | o
    · obtain ⟨⟨r', n'⟩, hexNode, heq⟩ := Option.map_eq_some_iff.1 hex
      cases heq
      obtain ⟨h', hnext, rfl⟩ := Option.map_eq_some_iff.1 next
      exact of_node hexNode hnext calm answers
    · cases o with
      | peer name =>
        obtain ⟨idle, ⟨⟩⟩ := Option.ite_none_right_eq_some.1 next
        cases hex
        exact of_peer (by simp [Phase.unloads, idle]) calm
      | _ => cases next
  | advancing name p point =>
    rcases o with o | o
    · obtain ⟨⟨r', n'⟩, hexNode, heq⟩ := Option.map_eq_some_iff.1 hex
      cases heq
      cases o with
      | build b =>
        cases b with
        | loadConn conn => exact of_load (Option.some.inj hexNode) next answers
        | initiate conn child => exact of_initiate (Option.some.inj hexNode) next
        | _ => cases next
      | _ => cases next
    · cases o with
      | read why q =>
        cases hex
        change (if q = p then _ else _) = _ at next
        split_ifs at next with hq
        subst hq
        exact of_read next
      | record name' conn =>
        cases hex
        cases point with
        | up next' =>
          change (if _ then _ else _) = _ at next
          split_ifs at next with hrec
          cases next
          obtain ⟨rfl, rfl⟩ := hrec
          exact of_record
        | _ => cases next
      | _ => cases next
  | past =>
    rcases o with o | o
    · cases next
    · cases o with
      | fence conn epoch =>
        cases hex
        cases next
        exact .past
      | _ => cases next

end Move

/-! ## What holds of each gateway -/

/-- What is loaded where an `Advance` is. -/
def Point.Holds (loaded : Option Connection) (old : Connection) : Point → Prop
  | .found => loaded = some old
  | .seen floor => loaded = some old ∧ floor = old.epoch
  | .copied floor conn => loaded = some old ∧ floor = old.epoch ∧ conn.name = old.name
  | .loaded next | .up next => loaded = some next ∧ next.name = old.name ∧ old.epoch < next.epoch
  | .down => True
  | .restoring conn => conn = old

/-- A gateway that is added, which nobody is about to unload. -/
structure Standing (cfg : ClientConfig) (b : Books ι) (hs : ι → Turn ι) (name : String) (k : Kept ι) : Prop where
  here : b.peers.lookup name = some k
  recorded : (b.recorded k.adder).name = cfg.connName name
  tunnel : k.tunnel.conn.name = cfg.connName name
  unowed : ∀ i, cfg.connName name ∉ (hs i).owes

/-- What holds of a name: no gateway, one at rest, or one that an `Advance` moves. -/
inductive Right (cfg : ClientConfig) (b : Books ι) (hs : ι → Turn ι) (name : String) : Prop
  | gone (absent : b.peers.lookup name = none) (free : Free hs name)
      (unloaded : b.loaded (cfg.connName name) = none ∨ ∃ i, cfg.connName name ∈ (hs i).owes)
  | idle {k : Kept ι} (standing : Standing cfg b hs name k) (free : Free hs name)
      (loaded : b.loaded (cfg.connName name) = some (b.recorded k.adder))
  | busy {k : Kept ι} {i : ι} {point : Point} (standing : Standing cfg b hs name k)
      (hi : hs i = .advancing name k.adder point) (only : ∀ j, (hs j).subject = some name → j = i)
      (holds : point.Holds (b.loaded (cfg.connName name)) (b.recorded k.adder))

/-- A step that does not concern the name. -/
structure Untouched (cfg : ClientConfig) (b b' : Books ι) (h h' : Turn ι) (name : String) : Prop where
  peers : b'.peers.lookup name = b.peers.lookup name
  loaded : b'.loaded (cfg.connName name) = b.loaded (cfg.connName name)
  recorded : ∀ k, b.peers.lookup name = some k → b'.recorded k.adder = b.recorded k.adder
  before : h.subject ≠ some name
  after : h'.subject ≠ some name
  owes : cfg.connName name ∈ h'.owes ↔ cfg.connName name ∈ h.owes

section Right

variable {cfg : ClientConfig} {b b' : Books ι} {hs : ι → Turn ι} {i : ι} {h' : Turn ι} {name : String}

theorem Free.update (free : Free hs name) (after : h'.subject ≠ some name) : Free (update hs i h') name := by
  intro j
  by_cases hj : j = i
  · subst hj
    simpa using after
  · simpa [hj] using free j

theorem Untouched.owes_update (same : Untouched cfg b b' (hs i) h' name) (j : ι) :
    cfg.connName name ∈ (update hs i h' j).owes ↔ cfg.connName name ∈ (hs j).owes := by
  by_cases hj : j = i
  · subst hj
    simpa using same.owes
  · simp [hj]

theorem Standing.update {k : Kept ι} (standing : Standing cfg b hs name k)
    (peers : b'.peers.lookup name = b.peers.lookup name) (recorded : (b'.recorded k.adder).name = cfg.connName name)
    (owes : cfg.connName name ∉ h'.owes) : Standing cfg b' (update hs i h') name k where
  here := peers.trans standing.here
  recorded := recorded
  tunnel := standing.tunnel
  unowed j := by
    by_cases hj : j = i
    · subst hj
      simpa using owes
    · simpa [hj] using standing.unowed j

theorem Standing.frame {k : Kept ι} (standing : Standing cfg b hs name k)
    (same : Untouched cfg b b' (hs i) h' name) : Standing cfg b' (Function.update hs i h') name k :=
  standing.update same.peers (by rw [same.recorded k standing.here, standing.recorded])
    (by rw [same.owes]; exact standing.unowed i)

section

variable (right : Right cfg b hs name)
include right

theorem Right.frame (same : Untouched cfg b b' (hs i) h' name) : Right cfg b' (update hs i h') name := by
  cases right with
  | gone absent free unloaded =>
    refine .gone (same.peers.trans absent) (free.update same.after) ?_
    rw [same.loaded]
    rcases unloaded with h | ⟨j, hj⟩
    · exact Or.inl h
    · exact Or.inr ⟨j, (same.owes_update j).2 hj⟩
  | idle standing free loaded =>
    refine .idle (standing.frame same) (free.update same.after) ?_
    rw [same.loaded, loaded, same.recorded _ standing.here]
  | @busy k j point standing hj only holds =>
    have hne : j ≠ i := by
      rintro rfl
      exact same.before (by rw [hj]; rfl)
    refine .busy (i := j) (standing.frame same) (by rw [update_of_ne hne, hj]) ?_ ?_
    · intro j' hj'
      by_cases h : j' = i
      · subst h
        exact absurd (by simpa using hj') same.after
      · exact only j' (by simpa [h] using hj')
    · rw [same.loaded, same.recorded k standing.here]
      exact holds

omit [DecidableEq ι] in
theorem Right.advancing {p : ι} {point : Point} (hi : hs i = .advancing name p point) :
    ∃ k, k.adder = p ∧ Standing cfg b hs name k ∧ (∀ j, (hs j).subject = some name → j = i) ∧
      point.Holds (b.loaded (cfg.connName name)) (b.recorded p) := by
  have subject : (hs i).subject = some name := by rw [hi]; rfl
  cases right with
  | gone _ free _ => exact absurd subject (free i)
  | idle _ free _ => exact absurd subject (free i)
  | @busy k j point' standing hj only holds =>
    obtain rfl := only i subject
    obtain ⟨-, rfl, rfl⟩ : name = name ∧ p = k.adder ∧ point = point' := by
      simpa using hi.symm.trans hj
    exact ⟨k, rfl, standing, only, holds⟩

end

end Right

/-- The invariant of the runs. -/
structure Orderly (cfg : ClientConfig) (b : Books ι) (hs : ι → Turn ι) : Prop where
  right : ∀ name, Right cfg b hs name
  distinct : ∀ name name' k k', b.peers.lookup name = some k → b.peers.lookup name' = some k' →
    k.adder = k'.adder → name = name'

/-- A step that concerns one gateway only. -/
structure Near (cfg : ClientConfig) (b b' : Books ι) (name : String) (p : ι) : Prop where
  peers : b'.peers = b.peers
  loaded : ∀ n, n ≠ cfg.connName name → b'.loaded n = b.loaded n
  recorded : ∀ q, q ≠ p → b'.recorded q = b.recorded q

namespace Orderly

variable {cfg : ClientConfig} {b b' : Books ι} {hs : ι → Turn ι} {i : ι} {h' : Turn ι} {name : String} {p : ι}
  {point : Point}

theorem touch (ord : Orderly cfg b hs) (others : ∀ name', name' ≠ name → Untouched cfg b b' (hs i) h' name')
    (one : Right cfg b' (update hs i h') name) (sub : Sub b'.peers b.peers) :
    Orderly cfg b' (update hs i h') where
  right name' := by
    by_cases h : name' = name
    · exact h ▸ one
    · exact (ord.right name').frame (others name' h)
  distinct name₁ name₂ k₁ k₂ h₁ h₂ := ord.distinct name₁ name₂ k₁ k₂ (sub _ _ h₁) (sub _ _ h₂)

theorem advance (ord : Orderly cfg b hs) (hi : hs i = .advancing name p point) (near : Near cfg b b' name p)
    (quiet : h'.owes = []) (own : ∀ name', h'.subject = some name' → name' = name)
    (one : Right cfg b' (update hs i h') name) : Orderly cfg b' (update hs i h') := by
  obtain ⟨k, rfl, standing, -, -⟩ := (ord.right name).advancing hi
  refine ord.touch (fun name' hne => ?_) one (by rw [near.peers]; exact fun _ _ h => h)
  exact
    { peers := by rw [near.peers]
      loaded := near.loaded _ fun h => hne (cfg.connName_inj.1 h)
      recorded := fun k' here' => near.recorded _ fun h => hne (ord.distinct _ _ _ _ here' standing.here h)
      before := by
        rw [hi]
        exact fun h => hne (Option.some.inj h).symm
      after := fun h => hne (own name' h)
      owes := by
        rw [quiet, hi]
        exact Iff.rfl }

theorem comes (ord : Orderly cfg b hs) (hi : hs i = .advancing name p point) {point' : Point}
    (near : Near cfg b b' name p) (recorded : b'.recorded = b.recorded)
    (holds : (b.recorded p).name = cfg.connName name → point.Holds (b.loaded (cfg.connName name)) (b.recorded p) →
      point'.Holds (b'.loaded (cfg.connName name)) (b.recorded p)) :
    Orderly cfg b' (update hs i (.advancing name p point')) := by
  obtain ⟨k, rfl, standing, only, holds₀⟩ := (ord.right name).advancing hi
  refine ord.advance hi near rfl (fun _ h => (Option.some.inj h).symm) (.busy (i := i) ?_ (update_self _ _ _) ?_ ?_)
  · exact standing.update (by rw [near.peers]) (by rw [recorded]; exact standing.recorded) List.not_mem_nil
  · intro j hj
    by_contra h
    exact h (only j (by simpa [h] using hj))
  · rw [recorded]
    exact holds standing.recorded holds₀

theorem passes (ord : Orderly cfg b hs) (hi : hs i = .advancing name p point) (near : Near cfg b b' name p)
    (loaded : (b.recorded p).name = cfg.connName name → point.Holds (b.loaded (cfg.connName name)) (b.recorded p) →
      (b'.recorded p).name = cfg.connName name ∧ b'.loaded (cfg.connName name) = some (b'.recorded p)) :
    Orderly cfg b' (update hs i .past) := by
  obtain ⟨k, rfl, standing, only, holds⟩ := (ord.right name).advancing hi
  obtain ⟨named, loaded⟩ := loaded standing.recorded holds
  refine ord.advance hi near rfl (fun _ h => by cases h)
    (.idle (standing.update (by rw [near.peers]) named List.not_mem_nil) (fun j hj => ?_) loaded)
  by_cases h : j = i
  · subst h
    simp [Turn.subject] at hj
  · rw [update_of_ne h] at hj
    exact h (only j hj)

omit [DecidableEq ι] in
theorem near_refl : Near cfg b b name p := ⟨rfl, fun _ _ => rfl, fun _ _ => rfl⟩

omit [DecidableEq ι] in
theorem near_load (conn : Option Connection) :
    Near cfg b { b with loaded := update b.loaded (cfg.connName name) conn } name p :=
  ⟨rfl, fun _ h => update_of_ne h _ _, fun _ _ => rfl⟩

section

variable (ord : Orderly cfg b hs)
include ord

omit [DecidableEq ι] in
theorem idle {k : Kept ι} (here : b.peers.lookup name = some k) (free : Free hs name) :
    Standing cfg b hs name k ∧ b.loaded (cfg.connName name) = some (b.recorded k.adder) := by
  cases ord.right name with
  | gone absent => simp [here] at absent
  | busy standing hj => exact absurd (by rw [hj]; rfl) (free _)
  | idle standing _ loaded =>
    cases here.symm.trans standing.here
    exact ⟨standing, loaded⟩

variable {h g : Phase}

theorem stays (hi : hs i = .calling h) (same : g.unloads = h.unloads) :
    Orderly cfg b (update hs i (.calling g)) where
  right name := by
    refine (ord.right name).frame ⟨rfl, rfl, fun _ _ => rfl, ?_, ?_, ?_⟩
    · simp [hi, Turn.subject]
    · simp [Turn.subject]
    · simp [hi, Turn.owes, same]
  distinct := ord.distinct

theorem took {k : Kept ι} (hi : hs i = .calling h) (here : b.peers.lookup name = some k) (free : Free hs name)
    (none : h.unloads = []) (one : g.unloads = [k.tunnel.conn.name]) :
    Orderly cfg { b with peers := b.peers.erase name } (update hs i (.calling g)) := by
  obtain ⟨standing, -⟩ := ord.idle here free
  refine ord.touch (fun name' hne => ⟨AList.lookup_erase_ne hne, rfl, fun _ _ => rfl, ?_, ?_, ?_⟩)
    (.gone (AList.lookup_erase _ _) ?_ (Or.inr ⟨i, ?_⟩)) ?_
  · simp [hi, Turn.subject]
  · simp [Turn.subject]
  · simp [hi, Turn.owes, none, one, standing.tunnel, cfg.connName_inj, hne]
  · exact free.update (by simp [Turn.subject])
  · simp [Turn.owes, one, standing.tunnel]
  · exact sub_erase _ _

theorem shut {ks : List (Kept ι)} (hi : hs i = .calling h) (all : ks.Perm (values b.peers))
    (free : ∀ name, Free hs name) (none : h.unloads = []) (each : g.unloads = ks.map (·.tunnel.conn.name)) :
    Orderly cfg { b with peers := ∅ } (update hs i (.calling g)) where
  right name := by
    refine .gone (AList.lookup_empty _) ((free name).update (by simp [Turn.subject])) ?_
    cases ord.right name with
    | busy standing hj => exact absurd (by rw [hj]; rfl) (free name _)
    | @idle k standing _ _ =>
      refine Or.inr ⟨i, ?_⟩
      rw [update_self, Turn.owes, each]
      exact List.mem_map.2 ⟨k, all.mem_iff.2 (mem_values.2 ⟨name, standing.here⟩), standing.tunnel⟩
    | gone _ _ unloaded =>
      rcases unloaded with h | ⟨j, hj⟩
      · exact Or.inl h
      · have hne : j ≠ i := by
          rintro rfl
          simp [hi, Turn.owes, none] at hj
        exact Or.inr ⟨j, by rwa [update_of_ne hne]⟩
  distinct _ _ _ _ h := by cases h

theorem unload {conn : String} (hi : hs i = .calling h) (first : h.unloads = conn :: g.unloads) :
    Orderly cfg { b with loaded := update b.loaded conn none } (update hs i (.calling g)) where
  right name := by
    by_cases heq : cfg.connName name = conn
    · -- a gateway that is there is not owed
      have owed : cfg.connName name ∈ (hs i).owes := by simp [hi, Turn.owes, first, heq]
      cases ord.right name with
      | idle standing => exact absurd owed (standing.unowed i)
      | busy standing => exact absurd owed (standing.unowed i)
      | gone absent free _ =>
        exact .gone absent (free.update (by simp [Turn.subject])) (Or.inl (by simp [heq]))
    · refine (ord.right name).frame ⟨rfl, update_of_ne heq _ _, fun _ _ => rfl, ?_, ?_, ?_⟩
      · simp [hi, Turn.subject]
      · simp [Turn.subject]
      · simp [hi, Turn.owes, first, heq]
  distinct := ord.distinct

theorem found {k : Kept ι} (hi : hs i = .calling h) (here : b.peers.lookup name = some k) (free : Free hs name)
    (none : h.unloads = []) : Orderly cfg b (update hs i (.advancing name k.adder .found)) := by
  obtain ⟨standing, loaded⟩ := ord.idle here free
  have holds : Point.found.Holds (b.loaded (cfg.connName name)) (b.recorded k.adder) := loaded
  refine ord.touch (fun name' hne => ⟨rfl, rfl, fun _ _ => rfl, ?_, ?_, ?_⟩) (.busy (i := i) ?_ ?_ ?_ holds)
    fun _ _ h => h
  · simp [hi, Turn.subject]
  · exact fun h => hne (Option.some.inj h).symm
  · simp [hi, Turn.owes, none]
  · exact standing.update rfl standing.recorded List.not_mem_nil
  · exact update_self _ _ _
  · intro j hj
    by_contra h
    rw [update_of_ne h] at hj
    exact free j hj

theorem refuse (hi : hs i = .calling h) (none : h.unloads = []) : Orderly cfg b (update hs i .past) where
  right name := by
    refine (ord.right name).frame ⟨rfl, rfl, fun _ _ => rfl, ?_, ?_, ?_⟩
    · simp [hi, Turn.subject]
    · simp [Turn.subject]
    · simp [hi, Turn.owes, none]
  distinct := ord.distinct

end

variable {h : Turn ι}

theorem move (ord : Orderly cfg b hs) (hi : hs i = h) (move : Move (Free hs) b h h' b') :
    Orderly cfg b' (update hs i h') := by
  cases move with
  | past => rwa [← hi, Function.update_eq_self]
  | stay same => exact ord.stays hi same
  | took here alone none one => exact ord.took hi here alone none one
  | shut all alone none each => exact ord.shut hi all alone none each
  | unload first => exact ord.unload hi first
  | found here alone none => exact ord.found hi here alone none
  | refuse none => exact ord.refuse hi none
  | see name p => exact ord.comes hi near_refl rfl fun _ holds => ⟨holds, rfl⟩
  | complain name p floor => exact ord.passes hi near_refl fun named holds => ⟨named, holds.1⟩
  | copy name p floor => exact ord.comes hi near_refl rfl fun _ holds => ⟨holds.1, holds.2, rfl⟩
  | giveUp name p floor conn => exact ord.passes hi near_refl fun named holds => ⟨named, holds.1⟩
  | @load name p floor old next same above =>
    obtain ⟨k, rfl, standing, -, holds⟩ := (ord.right name).advancing hi
    have hname : next.name = cfg.connName name := (same.trans holds.2.2).trans standing.recorded
    rw [hname]
    refine ord.comes hi (near_load _) rfl fun named holds => ⟨update_self _ _ _, ?_, ?_⟩
    · exact same.trans holds.2.2
    · exact holds.2.1 ▸ above
  | initiate name p next => exact ord.comes hi near_refl rfl fun _ holds => holds
  | fail name p next => exact ord.comes hi near_refl rfl fun _ _ => trivial
  | @record name k p next here =>
    obtain ⟨k', rfl, standing, -, -⟩ := (ord.right name).advancing hi
    cases here.symm.trans standing.here
    refine ord.passes hi ⟨rfl, fun _ _ => rfl, fun _ h => update_of_ne h _ _⟩ fun named holds => ?_
    simp only [update_self]
    exact ⟨holds.2.1.trans named, holds.1⟩
  | @forget name p next gone =>
    obtain ⟨k, rfl, standing, -, -⟩ := (ord.right name).advancing hi
    simp [standing.here] at gone
  | reread name p => exact ord.comes hi near_refl rfl fun _ _ => rfl
  | restore name p old =>
    obtain ⟨k, rfl, standing, -, holds⟩ := (ord.right name).advancing hi
    have hname : old.name = cfg.connName name := by
      rw [show old = b.recorded k.adder from holds]
      exact standing.recorded
    rw [hname]
    refine ord.passes hi (near_load _) fun named holds => ⟨named, ?_⟩
    simp only [update_self, show old = b.recorded k.adder from holds]

theorem sub {free : String → Prop} (move : Move free b h h' b') : Sub b'.peers b.peers := by
  cases move with
  | took => exact sub_erase _ _
  | shut all alone => exact fun _ _ h => by cases h
  | _ => exact fun _ _ h => h

theorem rises (ord : Orderly cfg b hs) (hi : hs i = h) (move : Move (Free hs) b h h' b')
    {k k' : Kept ι} (here : b.peers.lookup name = some k) (here' : b'.peers.lookup name = some k') :
    (b.recorded k.adder).epoch ≤ (b'.recorded k'.adder).epoch := by
  cases here.symm.trans (sub move name k' here')
  cases move with
  | @record name₀ k₀ p next here₀ =>
    by_cases hk : k.adder = k₀.adder
    · obtain rfl := ord.distinct _ _ _ _ here here₀ hk
      obtain ⟨k', rfl, standing, -, holds⟩ := (ord.right name).advancing hi
      cases here₀.symm.trans standing.here
      simp only [hk, update_self]
      exact UInt64.le_of_lt holds.2.2
    · simp only [update_of_ne hk]
      exact UInt64.le_refl _
  | _ => exact UInt64.le_refl _

end Orderly

/-! ## Runs -/

structure Added (cfg : ClientConfig) (s : GenState ι) : Prop where
  recorded : ∀ name k, s.1.peers.lookup name = some k → (s.2 k.adder).name = cfg.connName name
  tunnel : ∀ name k, s.1.peers.lookup name = some k → k.tunnel.conn.name = cfg.connName name
  distinct : ∀ name name' k k', s.1.peers.lookup name = some k → s.1.peers.lookup name' = some k' →
    k.adder = k'.adder → name = name'

/-- Charon has loaded what is recorded for each gateway, and nothing for a gateway that is not there. -/
structure Matched (cfg : ClientConfig) (s : GenState ι) : Prop where
  loaded : ∀ name k, s.1.peers.lookup name = some k →
    (s.1.charon.conns (cfg.connName name)).map Loaded.value = some (s.2 k.adder)
  unloaded : ∀ name, s.1.peers.lookup name = none → s.1.charon.conns (cfg.connName name) = none

abbrev GenEntry (ι : Type) : Type := Conc.Entry ι (GenSig ι) (GenState ι)

/-- The epoch of a gateway that stays is not brought down. -/
def Rises (e : GenEntry ι) : Prop :=
  ∀ name k k', e.pre.1.peers.lookup name = some k → e.post.1.peers.lookup name = some k' →
    (e.pre.2 k.adder).epoch ≤ (e.post.2 k'.adder).epoch

def turns (cfg : ClientConfig) (hist : List (GenEntry ι)) (i : ι) : Turn ι :=
  (track (Turn.next cfg) (.calling {}) hist i).getD .past

/-- No call on a gateway begins while an `Advance` of it is going on. -/
def Alone (cfg : ClientConfig) (hist : List (GenEntry ι)) (e : GenEntry ι) : Prop := Calm (turns cfg hist) e.op

/-- What the condition says of answers, along a history. -/
def Answered (cfg : ClientConfig) (hist : List (GenEntry ι)) (e : GenEntry ι) : Prop :=
  Answers (turns cfg hist e.tid) e.op e.res

/-- The call has returned, or has not begun. -/
def AtRest (c : Config ι (GenSig ι) (GenState ι) (Except AdvanceErr Unit)) (i : ι) : Prop :=
  (c.pool i).result?.isSome ∨ ∀ e ∈ c.world.hist, e.tid ≠ i

section Runs

variable {cfg : ClientConfig} {s : GenState ι}

omit [DecidableEq ι] in
theorem Orderly.start (added : Added cfg s) (matched : Matched cfg s) :
    Orderly cfg (books s) fun _ => .calling {} where
  right name := by
    cases here : s.1.peers.lookup name with
    | none => exact .gone here (fun _ h => by cases h) (Or.inl (by simp [books, matched.unloaded name here]))
    | some k =>
      exact .idle ⟨here, added.recorded name k here, added.tunnel name k here, fun _ => List.not_mem_nil⟩
        (fun _ h => by cases h) (matched.loaded name k here)
  distinct := added.distinct

omit [DecidableEq ι] in
theorem Orderly.matched {hs : ι → Turn ι} (ord : Orderly cfg (books s) hs) (done : ∀ i, (hs i).Done) :
    Matched cfg s where
  loaded name k here := by
    cases ord.right name with
    | gone absent => simp [show s.1.peers.lookup name = none from absent] at here
    | idle standing _ loaded =>
      cases here.symm.trans standing.here
      exact loaded
    | @busy k' i point standing hi => rcases done i with h | h <;> simp [hi] at h
  unloaded name absent := by
    cases ord.right name with
    | idle standing => cases absent.symm.trans standing.here
    | busy standing => cases absent.symm.trans standing.here
    | gone _ _ unloaded =>
      rcases unloaded with h | ⟨i, hi⟩
      · exact Option.map_eq_none_iff.1 h
      · rcases done i with h | h <;> simp [h, Turn.owes, Phase.unloads] at hi

end Runs

/-- If no call on a gateway begins during an `Advance` of it, no `Advance` brings an epoch down, and whenever no call
is in progress charon has loaded just what is recorded. -/
theorem generation_kept (cfg : ClientConfig) {s : GenState ι} (added : Added cfg s) (matched : Matched cfg s)
    (calls : ι → GenCall) {c : Config ι (GenSig ι) (GenState ι) (Except AdvanceErr Unit)}
    (reach : Config.Reaches (genSystem ι) (startGen cfg s calls) c) (alone : Throughout (Alone cfg) c.world.hist)
    (answered : Throughout (Answered cfg) c.world.hist) :
    (∀ e ∈ c.world.hist, Rises e) ∧ ((∀ i, AtRest c i) → Matched cfg c.world.st) := by
  have start : Tracked (S := GenSig ι) (Turn.next cfg) (fun _ _ => Turn.Done) (startGen cfg s calls)
      fun _ => .calling {} := fun i => (calls i).follows cfg
  obtain ⟨hs, tracked, htrack, ord, rises⟩ := start.holds
    (I := fun w hs => Orderly cfg (books w.st) hs ∧ ∀ e ∈ w.hist, Rises e)
    (C := fun hist e => Alone cfg hist e ∧ Answered cfg hist e) rfl ⟨.start added matched, by simp [startGen]⟩
    (fun w hs i ω o r s' h' inv htrack hex next cond => by
      have hturns : turns cfg w.hist = hs := funext fun j => by simp [turns, htrack j]
      obtain ⟨alone, answered⟩ := cond
      rw [Alone, hturns] at alone
      rw [Answered, hturns] at answered
      have move := Move.of_exec hex next alone answered
      refine ⟨inv.1.move rfl move, fun e he => ?_⟩
      rcases List.mem_append.1 he with he | he
      · exact inv.2 e he
      · obtain rfl := List.mem_singleton.1 he
        exact fun name k k' => inv.1.rises rfl move)
    reach fun n e he => ⟨alone n e he, answered n e he⟩
  refine ⟨rises, fun rest => ord.matched fun i => ?_⟩
  rcases rest i with returned | unbegun
  · obtain ⟨a, ha⟩ := Option.isSome_iff_exists.1 returned
    have hi := tracked i
    rw [Prog.eq_ret_of_result ha] at hi
    exact hi
  · have hnil : c.world.hist.filter (fun e => e.tid = i) = [] :=
      List.filter_eq_nil_iff.2 fun e he => by simpa using unbegun e he
    have := htrack i
    rw [track, hnil] at this
    exact Or.inl (Option.some.inj this).symm

instance [Fintype ι] (hs : ι → Turn ι) (name : String) : Decidable (Free hs name) :=
  inferInstanceAs (Decidable (∀ j, (hs j).subject ≠ some name))

instance [Fintype ι] (hs : ι → Turn ι) (o : (GenSig ι).Op) : Decidable (Calm hs o) := by
  rcases o with o | o <;> cases o <;> dsimp only [Calm] <;> infer_instance

instance [Fintype ι] (cfg : ClientConfig) (hist : List (GenEntry ι)) (e : GenEntry ι) : Decidable (Alone cfg hist e) :=
  inferInstanceAs (Decidable (Calm _ _))

instance (c : Config ι (GenSig ι) (GenState ι) (Except AdvanceErr Unit)) (i : ι) : Decidable (AtRest c i) :=
  inferInstanceAs (Decidable (_ ∨ _))

instance (h : Turn ι) : Decidable h.Restores := by
  rcases h with us | ⟨name, p, point⟩ | _
  · exact .isFalse id
  · cases point <;> dsimp only [Turn.Restores] <;> infer_instance
  · exact .isFalse id

instance (h : Turn ι) (o : (GenSig ι).Op) (r : (GenSig ι).Res o) : Decidable (Answers h o r) := by
  rcases o with o | o
  · cases o with
    | build b =>
      cases b with
      | loadConn conn => exact inferInstanceAs (Decidable (h.Restores → (show Except Err Unit from r) = .ok ()))
      | _ => exact .isTrue trivial
    | undo u =>
      cases u with
      | unloadConn name => exact inferInstanceAs (Decidable ((show Except Err Unit from r) = .ok ()))
      | _ => exact .isTrue trivial
    | _ => exact .isTrue trivial
  · exact .isTrue trivial

instance (cfg : ClientConfig) (hist : List (GenEntry ι)) (e : GenEntry ι) : Decidable (Answered cfg hist e) :=
  inferInstanceAs (Decidable (Answers _ _ _))

/-- The recorded epoch of a gateway goes down. -/
def Falls (name : String) (e : GenEntry ι) : Prop :=
  ∃ k ∈ e.pre.1.peers.lookup name, ∃ k' ∈ e.post.1.peers.lookup name,
    (e.post.2 k'.adder).epoch < (e.pre.2 k.adder).epoch

instance (name : String) (e : GenEntry ι) : Decidable (Falls name e) :=
  inferInstanceAs (Decidable (∃ k ∈ _, ∃ k' ∈ _, _))

omit [DecidableEq ι] in
theorem Falls.not_rises {name : String} {e : GenEntry ι} (falls : Falls name e) : ¬ Rises e := by
  obtain ⟨k, hk, k', hk', lt⟩ := falls
  exact fun rises => UInt64.not_le.2 lt (rises name k k' hk hk')

namespace Sample

def genCfg : ClientConfig where
  name := "c"
  localID := "c"
  psk := "0123456789abcdef"
  virtualIP := .v4 0x0a090001
  interfacePrefix := "egx"

def gateway (name : String) (ifID : UInt32) : Tunnel :=
  genCfg.tunnel { name, id := name, addr := .v4 (0x0a000000 + ifID.toBitVec), ifID, epoch := 3 }

def twoGateways : GenState (Fin 4) where
  fst :=
    { peers := ((∅ : Map String (Kept (Fin 4))).insert "a" ⟨gateway "a" 1, 0⟩).insert "b" ⟨gateway "b" 2, 1⟩
      kernel := ⟨fun _ => none, fun _ => none, fun _ _ h => by cases h⟩
      charon :=
        { secrets := fun _ => none
          conns := fun name =>
            if name = "c-b" then some ⟨(gateway "b" 2).conn, true⟩
            else if name = "c-a" then some ⟨(gateway "a" 1).conn, true⟩ else none
          sas := [] } }
  snd p := if p = 1 then (gateway "b" 2).conn else (gateway "a" 1).conn

theorem lookup_twoGateways (name : String) :
    twoGateways.1.peers.lookup name = if name = "b" then some ⟨gateway "b" 2, 1⟩
      else if name = "a" then some ⟨gateway "a" 1, 0⟩ else none := by
  simp only [twoGateways, lookup_insert_eq, AList.lookup_empty]

theorem added_twoGateways : Added genCfg twoGateways where
  recorded name k h := by
    rw [lookup_twoGateways] at h
    split_ifs at h with hb ha <;> cases h
    · rw [hb]
      rfl
    · rw [ha]
      rfl
  tunnel name k h := by
    rw [lookup_twoGateways] at h
    split_ifs at h with hb ha <;> cases h
    · exact hb ▸ rfl
    · exact ha ▸ rfl
  distinct name name' k k' h h' hk := by
    rw [lookup_twoGateways] at h h'
    split_ifs at h h' with hb hb' ha' ha hb' ha' <;> obtain rfl := Option.some.inj h <;> cases h'
    · exact hb.trans hb'.symm
    · cases hk
    · cases hk
    · exact ha.trans ha'.symm

theorem matched_twoGateways : Matched genCfg twoGateways where
  loaded name k h := by
    rw [lookup_twoGateways] at h
    split_ifs at h with hb ha <;> cases h
    · rw [hb]
      rfl
    · rw [ha]
      rfl
  unloaded name h := by
    rw [lookup_twoGateways] at h
    split_ifs at h with hb ha
    have hb' : genCfg.connName name ≠ genCfg.connName "b" := fun h => hb (genCfg.connName_inj.1 h)
    have ha' : genCfg.connName name ≠ genCfg.connName "a" := fun h => ha (genCfg.connName_inj.1 h)
    exact (if_neg hb').trans (if_neg ha')

def fourCalls (i : Fin 4) : GenCall :=
  if i = 0 then .advance "a" 5 else if i = 1 then .advance "a" 7 else if i = 2 then .advance "b" 5 else .remove "b"

def inTurn (l : List (Fin 4 × ℕ × Bool)) : List (Fin 4 × Fate (Fin 4)) :=
  l.flatMap fun p => List.replicate p.2.1 (p.1, { fails := p.2.2 })

end Sample

open Sample

theorem generation_kept_in_turn : ∃ c, Config.Reaches (genSystem (Fin 4)) (startGen genCfg twoGateways fourCalls) c ∧
      Throughout (Alone genCfg) c.world.hist ∧ Throughout (Answered genCfg) c.world.hist ∧ (∀ i, AtRest c i) ∧
      (∀ e ∈ c.world.hist, Rises e) ∧ Matched genCfg c.world.st := by
  obtain ⟨c, reach, alone, answered, rest⟩ := Config.reaches_of_run_any (genSystem (Fin 4))
    (inTurn [(0, 7, false), (1, 4, false), (1, 1, true), (1, 2, false), (2, 7, false), (3, 7, false)])
    (startGen genCfg twoGateways fourCalls)
    (fun c => Throughout (Alone genCfg) c.world.hist ∧ Throughout (Answered genCfg) c.world.hist ∧
      ∀ i, AtRest c i) (by decide +kernel)
  obtain ⟨rises, matched⟩ := generation_kept genCfg added_twoGateways matched_twoGateways
    fourCalls reach alone answered
  exact ⟨c, reach, alone, answered, rest, rises, matched rest⟩

/-- The older generation of "a" is recorded last, and "b" stays loaded without being a gateway. -/
theorem generation_lost : Added genCfg twoGateways ∧ Matched genCfg twoGateways ∧
    ∃ c, Config.Reaches (genSystem (Fin 4)) (startGen genCfg twoGateways fourCalls) c ∧
      (∀ i, AtRest c i) ∧ Throughout (Answered genCfg) c.world.hist ∧ (∃ e ∈ c.world.hist, ¬ Rises e) ∧
      (∃ (name : String) (k : Kept (Fin 4)), c.world.st.1.peers.lookup name = some k ∧
        (c.world.st.1.charon.conns (genCfg.connName name)).map Loaded.value ≠ some (c.world.st.2 k.adder)) ∧
      ∃ name : String, c.world.st.1.peers.lookup name = none ∧
        c.world.st.1.charon.conns (genCfg.connName name) ≠ none := by
  refine ⟨added_twoGateways, matched_twoGateways, ?_⟩
  obtain ⟨c, reach, rest, answered, falls, differs, stays⟩ := Config.reaches_of_run_any (genSystem (Fin 4))
    (inTurn [(0, 5, false), (1, 7, false), (0, 2, false), (2, 3, false), (3, 7, false), (2, 4, false)])
    (startGen genCfg twoGateways fourCalls)
    (fun c => (∀ i, AtRest c i) ∧ Throughout (Answered genCfg) c.world.hist ∧ (∃ e ∈ c.world.hist, Falls "a" e) ∧
      (∃ k ∈ c.world.st.1.peers.lookup "a",
        (c.world.st.1.charon.conns (genCfg.connName "a")).map Loaded.value ≠ some (c.world.st.2 k.adder)) ∧
      c.world.st.1.peers.lookup "b" = none ∧ c.world.st.1.charon.conns (genCfg.connName "b") ≠ none)
    (by decide +kernel)
  obtain ⟨e, he, falls⟩ := falls
  obtain ⟨k, here, differs⟩ := differs
  exact ⟨c, reach, rest, answered, ⟨e, he, falls.not_rises⟩, ⟨"a", k, here, differs⟩, "b", stays⟩

end Egressa.IPsec
