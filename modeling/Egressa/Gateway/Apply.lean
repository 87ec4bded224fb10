import Egressa.Gateway.Fence
import Egressa.Gateway.Host
import Egressa.Gateway.Plan

/-!
# Applying a plan

`Agent.apply` (`internal/gateway/agent.go`, `ipsec.go`) compares a plan with its own maps of what it has installed,
never with the host, and runs the commands for the differences.  Every loop is a fold of one turn over the entries in
the order of the `HostFate`.  The probe targets, the traces, the logs and the metrics are left out.
-/

namespace Egressa

open Tunnel Maps Run

/-- The part of `Config` that `apply` reads.  `decodeKey` is `tunnel.DecodeBase64`, and `quote` is
the verb `%q`. -/
structure GatewayConfig where
  id : String
  roles : Roles
  ipsec : Bool
  decodeKey : String → Except String Key
  quote : String → String

def GatewayConfig.ipsecOn (cfg : GatewayConfig) : Bool := cfg.ipsec && cfg.roles.has roleAccess

/-- `index` and `nextIndex`: gateway ID to `n`, for `egb<n>` and its table. -/
structure Indices where
  index : Map String ℕ := ∅
  next : ℕ := 0

/-- `backbone`: the device `egb<n>`, and the tunnel that has been applied to it, if any. -/
structure Wire where
  n : ℕ
  want : Option Backbone := none
  deriving DecidableEq, Repr, Inhabited

/-- The maps of an `Agent` that record what it has installed. -/
structure HostAgent where
  indices : Indices := {}
  backbones : Map String Wire := ∅
  peers : Map String Addr := ∅
  fencing : GatewayAgent := .new
  accessSessions : ℕ := 0
  egressSessions : ℕ := 0
  forward : Map Addr String := ∅
  ret : Map Addr String := ∅
  ipsecConns : Map String IPsecClient := ∅
  ipsecHere : Map Addr Unit := ∅

/-- `if err != nil { errs = append(errs, err); continue }`, and otherwise `m[k] = v`. -/
def record {α β : Type} [DecidableEq α] (m : Map α β) (e : Entry α β) : Option String × Run → Map α β × Run
  | (some err, r) => (m, r.fail err)
  | (none, r) => (m.insert e.1 e.2, r)

section Apply

variable (cfg : GatewayConfig) (f : HostFate)

/-! ## Backbones -/

/-- `indexLocked`: the index is recorded before the table is prepared. -/
def indexLocked (id : String) (ix : Indices) (r : Run) : ℕ × Option String × Indices × Run :=
  match ix.index.lookup id with
  | some n => (n, none, ix, r)
  | none =>
    let n := ix.next
    let res := andThen (r.ipIgnore f (.flushTable (egressTableBase + n))) fun r =>
      r.issue f (.blackhole (egressTableBase + n))
    (n, res.1, ⟨ix.index.insert id n, n + 1⟩, res.2)

/-- Takes down the link to a gateway that has gone. -/
def closeBackbone (want : Map String Backbone) (s : Map String Wire × Run) (e : Entry String Wire) :
    Map String Wire × Run :=
  if e.1 ∈ want then s else (s.1.erase e.1, s.2.exec (.close e.2.n))

def closeBackbones (want : Map String Backbone) (s : Map String Wire × Run) : Map String Wire × Run :=
  (f.order s.2.clock s.1.entries).foldl (closeBackbone want) s

/-- What the backbone loop works on. -/
structure Wiring where
  indices : Indices
  backbones : Map String Wire
  run : Run

/-- The device of a backbone and its default route, or neither. -/
def openDevice (n : ℕ) (r : Run) : Option String × Run :=
  andThen (r.issue f (.newReal n)) fun r =>
    match andThen (r.issue f (.addrUp n)) fun r =>
        r.issue f (.replaceDefault n (egressTableBase + n)) with
    | (some err, r) => (some err, r.exec (.close n))
    | (none, r) => (none, r)

/-- The first part of `applyBackboneLocked`: the device of a backbone that has none. -/
def openBackbone (id : String) (s : Wiring) : Except String Wire × Wiring :=
  match s.backbones.lookup id with
  | some b => (.ok b, s)
  | none =>
    match indexLocked f id s.indices s.run with
    | (_, some err, ix, r) => (.error err, ⟨ix, s.backbones, r⟩)
    | (n, none, ix, r) =>
      match openDevice f n r with
      | (some err, r) => (.error err, ⟨ix, s.backbones, r⟩)
      | (none, r) => (.ok ⟨n, none⟩, ⟨ix, s.backbones.insert id ⟨n, none⟩, r⟩)

/-- Only the gateway with the lower ID initiates. -/
def initiates (id : String) : Bool := decide (cfg.id.toList < id.toList)

def keepaliveTo (id : String) : ℕ := if initiates cfg id then 5 else 0

/-- The old peer of a backbone goes if its key changes, or its endpoint at the initiator. -/
def unsetBackbone (id : String) (want : Backbone) (b : Wire) (r : Run) : Run :=
  match b.want with
  | none => r
  | some was =>
    if was.publicKey ≠ want.publicKey ∨ initiates cfg id ∧ was.endpoint ≠ want.endpoint then
      match cfg.decodeKey was.publicKey with
      | .ok k => (r.issue f (.removePeer (.egb b.n) k)).2
      | .error _ => r
    else r

/-- The second part of `applyBackboneLocked`: the peer of a backbone's device. -/
def setBackbone (id : String) (want : Backbone) (b : Wire) (s : Map String Wire × Run) :
    Option String × Map String Wire × Run :=
  if b.want = some want then (none, s)
  else
    let r := unsetBackbone cfg f id want b s.2
    match cfg.decodeKey want.publicKey with
    | .error err => (some err, s.1, r)
    | .ok key =>
      match andThen (r.issue f (.addPeer (.egb b.n) key [.all] want.endpoint (keepaliveTo cfg id))) fun r =>
          r.issue f (.replaceRoute want.nodeIP (.egb b.n) mainTable) with
      | (some err, r) => (some err, s.1, r)
      | (none, r) => (none, s.1.insert id { b with want := some want }, r)

/-- Sets up the link to a gateway. -/
def applyBackboneLocked (id : String) (want : Backbone) (s : Wiring) : Option String × Wiring :=
  match openBackbone f id s with
  | (.error err, s) => (some err, s)
  | (.ok b, s) =>
    let res := setBackbone cfg f id want b (s.backbones, s.run)
    (res.1, ⟨s.indices, res.2.1, res.2.2⟩)

def applyBackbone (want : Map String Backbone) (s : Wiring) (id : String) : Wiring :=
  match applyBackboneLocked cfg f id ((want.lookup id).getD default) s with
  | (some err, s) => { s with run := s.run.fail ("backbone to " ++ id ++ ": " ++ err) }
  | (none, s) => s

/-! ## Client peers -/

/-- A peer that the plan does not have, or not so, is removed. -/
def dropPeer (want : Map String Addr) (s : Map String Addr × Run) (e : Entry String Addr) : Map String Addr × Run :=
  if want.lookup e.1 = some e.2 then s
  else (s.1.erase e.1, match cfg.decodeKey e.1 with
    | .ok k => .note (s.2.issue f (.removePeer .egc0 k))
    | .error _ => s.2)

/-- A peer that is missing is added. -/
def addClient (s : Map String Addr × Run) (e : Entry String Addr) : Map String Addr × Run :=
  if e.1 ∈ s.1 then s
  else match cfg.decodeKey e.1 with
    | .error err => (s.1, s.2.fail ("client key " ++ cfg.quote e.1 ++ ": " ++ err))
    | .ok k => record s.1 e (s.2.issue f (.addPeer .egc0 k [.host e.2] "" 0))

def dropPeers (want : Map String Addr) (s : Map String Addr × Run) : Map String Addr × Run :=
  (f.order s.2.clock s.1.entries).foldl (dropPeer cfg f want) s

def addPeers (want : Map String Addr) (s : Map String Addr × Run) : Map String Addr × Run :=
  (f.order s.2.clock want.entries).foldl (addClient cfg f) s

/-! ## Forwarding rules -/

def dropRule (ix : Indices) (want : Map Addr String) (s : Map Addr String × Run)
    (e : Entry Addr String) : Map Addr String × Run :=
  -- a virtual IP the plan does not have reads as the empty ID
  if (want.lookup e.1).getD "" = e.2 then s
  else (s.1.erase e.1, .note (s.2.ipIgnore f (.delRule e.1 (egressTableBase + (ix.index.lookup e.2).getD 0))))

/-- What the loop over the rules works on. -/
structure Forwarding where
  indices : Indices
  forward : Map Addr String
  run : Run

/-- Adds the rule of a virtual IP, with the table it leads to. -/
def forwardTo (s : Forwarding) (e : Entry Addr String) : Forwarding :=
  if e.1 ∈ s.forward then s
  else match indexLocked f e.2 s.indices s.run with
    | (_, some err, ix, r) => { s with indices := ix, run := r.fail err }
    | (n, none, ix, r) => match r.ipIgnore f (.addRule e.1 (egressTableBase + n)) with
      | (some err, r) => { s with indices := ix, run := r.fail err }
      | (none, r) => ⟨ix, s.forward.insert e.1 e.2, r⟩

def dropRules (ix : Indices) (want : Map Addr String) (s : Map Addr String × Run) : Map Addr String × Run :=
  (f.order s.2.clock s.1.entries).foldl (dropRule f ix want) s

def addRules (want : Map Addr String) (s : Forwarding) : Forwarding :=
  (f.order s.run.clock want.entries).foldl (forwardTo f) s

/-! ## Return routes -/

def dropReturn (want : Map Addr String) (s : Map Addr String × Run) (e : Entry Addr String) : Map Addr String × Run :=
  if (want.lookup e.1).getD "" = e.2 then s
  else (s.1.erase e.1, .note (s.2.ipIgnore f (.delRoute e.1 none mainTable)))

/-- Adds the route back to an access gateway. -/
def returnVia (bs : Map String Wire) (s : Map Addr String × Run) (e : Entry Addr String) : Map Addr String × Run :=
  if e.1 ∈ s.1 then s
  else match bs.lookup e.2 with
    | none => s
    | some b => record s.1 e (s.2.issue f (.replaceRoute e.1 (.egb b.n) mainTable))

def dropReturns (want : Map Addr String) (s : Map Addr String × Run) : Map Addr String × Run :=
  (f.order s.2.clock s.1.entries).foldl (dropReturn f want) s

def addReturns (bs : Map String Wire) (want : Map Addr String) (s : Map Addr String × Run) : Map Addr String × Run :=
  (f.order s.2.clock want.entries).foldl (returnVia f bs) s

/-! ## IPsec clients -/

def ipsecConnName (session : String) : String := "egressa-s" ++ session
def ipsecGatewayID (id : String) : String := "gw-" ++ id
def ipsecClientID (session : String) : String := "s" ++ session

def ipsecConnection (me session : String) (c : IPsecClient) : IKEConnection where
  name := ipsecConnName session
  localID := ipsecGatewayID me
  remoteID := ipsecClientID session
  psk := c.psk
  remoteTS := c.virtualIP

def ipsecSecret (session : String) (c : IPsecClient) : SharedSecret where
  id := ipsecConnName session
  psk := c.psk
  owners := [ipsecClientID session]

/-- Takes down what an IPsec client has. -/
def unloadIPsec (session : String) (c : IPsecClient) (r : Run) : Run :=
  let name := ipsecConnName session
  let r := Run.note (r.ignoreIPsecNotFound f (.terminateIKE name))
  let r := Run.note (r.ignoreIPsecNotFound f (.unloadConn name))
  let r := Run.note (r.ignoreIPsecNotFound f (.unloadShared name))
  .note (r.ipIgnore f (.delRoute c.virtualIP (some .egi0) probeTable))

def dropConn (want : Map String IPsecClient) (s : Map String IPsecClient × Run)
    (e : Entry String IPsecClient) : Map String IPsecClient × Run :=
  if want.lookup e.1 = some e.2 then s else (s.1.erase e.1, unloadIPsec f e.1 e.2 s.2)

def dropHere (want : Map Addr Unit) (s : Map Addr Unit × Run) (e : Entry Addr Unit) : Map Addr Unit × Run :=
  if e.1 ∈ want then s
  else (s.1.erase e.1, .note (s.2.ipIgnore f (.delRoute e.1 (some .egi0) mainTable)))

/-- Loads the secret and the connection of an IPsec client. -/
def loadIPsec (s : Map String IPsecClient × Run) (e : Entry String IPsecClient) : Map String IPsecClient × Run :=
  if e.1 ∈ s.1 then s
  else
    let failed := fun err : String => "IPsec session " ++ e.1 ++ ": " ++ err
    match s.2.issue f (.loadShared (ipsecSecret e.1 e.2)) with
    | (some err, r) => (s.1, r.fail (failed err))
    | (none, r) => match r.issue f (.loadConn (ipsecConnection cfg.id e.1 e.2)) with
      | (some err, r) =>
        (s.1, ((r.fail (failed err)).issue f (.unloadShared (ipsecConnName e.1))).2)
      | (none, r) =>
        (s.1.insert e.1 e.2, .note (r.issue f (.replaceRoute e.2.virtualIP .egi0 probeTable)))

def returnHere (s : Map Addr Unit × Run) (e : Entry Addr Unit) : Map Addr Unit × Run :=
  if e.1 ∈ s.1 then s else record s.1 e (s.2.issue f (.replaceRoute e.1 .egi0 mainTable))

def dropConns (want : Map String IPsecClient) (s : Map String IPsecClient × Run) : Map String IPsecClient × Run :=
  (f.order s.2.clock s.1.entries).foldl (dropConn f want) s

def dropHeres (want : Map Addr Unit) (s : Map Addr Unit × Run) : Map Addr Unit × Run :=
  (f.order s.2.clock s.1.entries).foldl (dropHere f want) s

def addConns (want : Map String IPsecClient) (s : Map String IPsecClient × Run) : Map String IPsecClient × Run :=
  (f.order s.2.clock want.entries).foldl (loadIPsec cfg f) s

def addHeres (want : Map Addr Unit) (s : Map Addr Unit × Run) : Map Addr Unit × Run :=
  (f.order s.2.clock want.entries).foldl (returnHere f) s

/-! ## The phases of `apply` -/

def applyBackbones (p : Plan) (a : HostAgent) (r : Run) : HostAgent × Run :=
  let kept := closeBackbones f p.backbones (a.backbones, r)
  let s := p.backboneIDs.foldl (applyBackbone cfg f p.backbones) ⟨a.indices, kept.1, kept.2⟩
  ({ a with indices := s.indices, backbones := s.backbones }, s.run)

def applyPeers (p : Plan) (a : HostAgent) (r : Run) : HostAgent × Run :=
  let s := addPeers cfg f p.peers (dropPeers cfg f p.peers (a.peers, r))
  ({ a with peers := s.1 }, s.2)

/-- Gate first: once a gateway acts on an epoch, older packets stop. -/
def applyEpochs (p : Plan) (a : HostAgent) : HostAgent :=
  { a with
    fencing := a.fencing.apply p.epochs
    accessSessions := p.accessSessions
    egressSessions := p.egressSessions }

def applyForward (p : Plan) (a : HostAgent) (r : Run) : HostAgent × Run :=
  let kept := dropRules f a.indices p.forward (a.forward, r)
  let s := addRules f p.forward ⟨a.indices, kept.1, kept.2⟩
  ({ a with indices := s.indices, forward := s.forward }, s.run)

def removeIPsecLocked (p : Plan) (a : HostAgent) (r : Run) : HostAgent × Run :=
  let conns := dropConns f p.ipsec (a.ipsecConns, r)
  let heres := dropHeres f p.ipsecHere (a.ipsecHere, conns.2)
  ({ a with ipsecConns := conns.1, ipsecHere := heres.1 }, heres.2)

def applyReturn (p : Plan) (a : HostAgent) (r : Run) : HostAgent × Run :=
  let s := addReturns f a.backbones p.ret (dropReturns f p.ret (a.ret, r))
  ({ a with ret := s.1 }, s.2)

def addIPsecLocked (p : Plan) (a : HostAgent) (r : Run) : HostAgent × Run :=
  let conns := addConns cfg f p.ipsec (a.ipsecConns, r)
  let heres := addHeres f p.ipsecHere (a.ipsecHere, conns.2)
  ({ a with ipsecConns := conns.1, ipsecHere := heres.1 }, heres.2)

/-- `apply`: makes the host what the plan says. -/
def HostAgent.apply (p : Plan) (a : HostAgent) (r : Run) : HostAgent × Run :=
  let s := applyBackbones cfg f p a r
  let s := applyPeers cfg f p s.1 s.2
  let s := applyForward f p (applyEpochs p s.1) s.2
  let s := if cfg.ipsecOn then removeIPsecLocked f p s.1 s.2 else s
  let s := applyReturn f p s.1 s.2
  if cfg.ipsecOn then addIPsecLocked cfg f p s.1 s.2 else s

end Apply

/-- A run of `apply`, each call with its own fate. -/
def HostAgent.applyAll (cfg : GatewayConfig) (calls : List (HostFate × Plan)) (a : HostAgent) (r : Run) :
    HostAgent × Run :=
  calls.foldl (fun s call => HostAgent.apply cfg call.1 call.2 s.1 { s.2 with errs := [] }) (a, r)

namespace Trial

def gatewayConfig : GatewayConfig where
  id := "sg"
  roles := roleAccess
  ipsec := true
  decodeKey := Tunnel.decodeBase64
  quote s := s

def planAt (sessions : List Session) : Plan := makePlan (fun _ _ => none) "sg" roleAccess (planState sessions)

end Trial

/-! ## What the phases issue -/

namespace HostCmd

/-- The commands on the client device. -/
def OnClients : HostCmd → Prop
  | .addPeer dev _ _ _ _ => dev = .egc0
  | .removePeer dev _ => dev = .egc0
  | _ => False

def OnTable (table : ℕ) : HostCmd → Prop
  | .flushTable t => t = table
  | .blackhole t => t = table
  | _ => False

def OnDevice (n : ℕ) : HostCmd → Prop
  | .newReal m => m = n
  | .addrUp m => m = n
  | .close m => m = n
  | .replaceDefault m t => m = n ∧ t = egressTableBase + n
  | _ => False

def Closes : HostCmd → Prop
  | .close _ => True
  | _ => False

/-- The commands on the peer and the route of a link. -/
def OnWire (nodeIP : Addr) : HostCmd → Prop
  | .addPeer dev _ _ _ _ => dev ≠ .egc0
  | .removePeer dev _ => dev ≠ .egc0
  | .replaceRoute a _ t => a = nodeIP ∧ t = mainTable
  | _ => False

def OnBackbones : HostCmd → Prop
  | .addPeer dev _ _ _ _ => dev ≠ .egc0
  | .removePeer dev _ => dev ≠ .egc0
  | .newReal _ => True
  | .addrUp _ => True
  | .close _ => True
  | .replaceDefault _ _ => True
  | .flushTable t => egressTableBase ≤ t
  | .blackhole t => egressTableBase ≤ t
  | .replaceRoute _ _ t => t = mainTable
  | _ => False

def OnRules : HostCmd → Prop
  | .flushTable t => egressTableBase ≤ t
  | .blackhole t => egressTableBase ≤ t
  | .addRule _ _ => True
  | .delRule _ _ => True
  | _ => False

def DropsRule : HostCmd → Prop
  | .delRule _ _ => True
  | _ => False

/-- The commands on the main table. -/
def OnMain : HostCmd → Prop
  | .replaceRoute _ _ t => t = mainTable
  | .delRoute _ _ t => t = mainTable
  | _ => False

def OnIPsec : HostCmd → Prop
  | .loadShared _ => True
  | .loadConn _ => True
  | .terminateIKE _ => True
  | .unloadConn _ => True
  | .unloadShared _ => True
  | .replaceRoute _ _ t => t = probeTable
  | .delRoute _ _ t => t = probeTable
  | _ => False

end HostCmd

section Issues

open Run

variable (cfg : GatewayConfig) (f : HostFate)

theorem indexLocked_cases (id : String) (ix : Indices) (r : Run) :
    (∃ n, ix.index.lookup id = some n ∧ indexLocked f id ix r = (n, none, ix, r)) ∨
    (ix.index.lookup id = none ∧ ∃ err r', indexLocked f id ix r =
        (ix.next, err, ⟨ix.index.insert id ix.next, ix.next + 1⟩, r') ∧
      Issues (HostCmd.OnTable (egressTableBase + ix.next)) r r' ∧
      (err = none → r'.host.blackhole (egressTableBase + ix.next) = true)) := by
  unfold indexLocked
  cases hid : ix.index.lookup id with
  | some n => exact Or.inl ⟨n, rfl, rfl⟩
  | none =>
    refine Or.inr ⟨rfl, _, _, rfl, ?_, ?_⟩
    · exact (Issues.refl.ipIgnore f (by exact rfl)).andThen _ fun r' h => h.issue f (by exact rfl)
    · generalize r.ipIgnore f (.flushTable (egressTableBase + ix.next)) = x
      obtain ⟨_ | err, r'⟩ := x
      · intro hnone
        simp only [andThen] at hnone ⊢
        rcases issueUnless_cases (fun _ => false) f (.blackhole (egressTableBase + ix.next)) r' with
          ⟨err, -, heq⟩ | ⟨-, heq⟩
        · simp [issue, heq] at hnone
        · simp [issue, heq, exec, Host.exec]
      · simp [andThen]

theorem openDevice_issues (n : ℕ) (r : Run) : Issues (HostCmd.OnDevice n) r (openDevice f n r).2 := by
  unfold openDevice
  refine (Issues.refl.issue f (by exact rfl)).andThen _ fun r' created => ?_
  have ready := (created.issue f (c := .addrUp n) rfl).andThen
    (fun r => r.issue f (.replaceDefault n (egressTableBase + n)))
    fun r' up => up.issue f ⟨rfl, rfl⟩
  split
  · next heq =>
    rw [heq] at ready
    exact ready.ran rfl
  · next heq =>
    rwa [heq] at ready

theorem closeBackbone_issues (want : Map String Backbone) (s : Map String Wire × Run)
    (e : Entry String Wire) : Issues HostCmd.Closes s.2 (closeBackbone want s e).2 := by
  unfold closeBackbone
  split_ifs
  · exact .refl
  · exact Issues.refl.ran trivial

theorem unsetBackbone_issues (id : String) (want : Backbone) (b : Wire) (r : Run) :
    Issues (HostCmd.OnWire want.nodeIP) r (unsetBackbone cfg f id want b r) := by
  unfold unsetBackbone
  cases b.want with
  | none => exact .refl
  | some was =>
    dsimp only
    split_ifs
    · cases cfg.decodeKey was.publicKey with
      | error _ => exact .refl
      | ok k => exact Issues.refl.issue f (by simp [HostCmd.OnWire])
    · exact .refl

theorem setBackbone_issues (id : String) (want : Backbone) (b : Wire) (s : Map String Wire × Run) :
    Issues (HostCmd.OnWire want.nodeIP) s.2 (setBackbone cfg f id want b s).2.2 := by
  unfold setBackbone
  split_ifs
  · exact .refl
  have unset := unsetBackbone_issues cfg f id want b s.2
  cases cfg.decodeKey want.publicKey with
  | error _ => exact unset
  | ok key =>
    have set := (unset.issue f (c := .addPeer (.egb b.n) key [.all] want.endpoint
      (keepaliveTo cfg id)) (by simp [HostCmd.OnWire])).andThen
      (fun r => r.issue f (.replaceRoute want.nodeIP (.egb b.n) mainTable))
      fun r' h => h.issue f ⟨rfl, rfl⟩
    dsimp only
    split
    · next heq => rwa [heq] at set
    · next heq => rwa [heq] at set

theorem dropPeer_issues (want : Map String Addr) (s : Map String Addr × Run)
    (e : Entry String Addr) : Issues HostCmd.OnClients s.2 (dropPeer cfg f want s e).2 := by
  unfold dropPeer
  split_ifs
  · exact .refl
  · cases cfg.decodeKey e.1 with
    | error _ => exact .refl
    | ok k => exact (Issues.refl.issue f (by exact rfl)).note

theorem record_issues {α β : Type} [DecidableEq α] {C : HostCmd → Prop} {r : Run} (m : Map α β)
    (e : Entry α β) {x : Option String × Run} (h : Issues C r x.2) :
    Issues C r (record m e x).2 := by
  obtain ⟨_ | err, r'⟩ := x
  · exact h
  · exact h.fail err

theorem addClient_issues (s : Map String Addr × Run) (e : Entry String Addr) :
    Issues HostCmd.OnClients s.2 (addClient cfg f s e).2 := by
  unfold addClient
  split_ifs
  · exact .refl
  cases cfg.decodeKey e.1 with
  | error err => exact Issues.refl.fail _
  | ok k => exact record_issues s.1 e (Issues.refl.issue f (by exact rfl))

theorem dropRule_issues (ix : Indices) (want : Map Addr String) (s : Map Addr String × Run)
    (e : Entry Addr String) : Issues HostCmd.DropsRule s.2 (dropRule f ix want s e).2 := by
  unfold dropRule
  split_ifs
  · exact .refl
  · exact (Issues.refl.ipIgnore f trivial).note

theorem dropReturn_issues (want : Map Addr String) (s : Map Addr String × Run)
    (e : Entry Addr String) : Issues HostCmd.OnMain s.2 (dropReturn f want s e).2 := by
  unfold dropReturn
  split_ifs
  · exact .refl
  · exact (Issues.refl.ipIgnore f (by exact rfl)).note

theorem returnVia_issues (bs : Map String Wire) (s : Map Addr String × Run)
    (e : Entry Addr String) : Issues HostCmd.OnMain s.2 (returnVia f bs s e).2 := by
  unfold returnVia
  split_ifs
  · exact .refl
  cases bs.lookup e.2 with
  | none => exact .refl
  | some b => exact record_issues s.1 e (Issues.refl.issue f (by exact rfl))

theorem unloadIPsec_issues (session : String) (c : IPsecClient) (r : Run) :
    Issues HostCmd.OnIPsec r (unloadIPsec f session c r) := by
  have terminated := (Issues.refl (r := r)).issueUnless (c := .terminateIKE (ipsecConnName session))
    (C := HostCmd.OnIPsec) trivial isNotFound f
  have unloaded := terminated.note.issueUnless (c := .unloadConn (ipsecConnName session)) trivial isNotFound f
  have forgotten := unloaded.note.issueUnless (c := .unloadShared (ipsecConnName session)) trivial isNotFound f
  exact (forgotten.note.ipIgnore f (by exact rfl)).note

theorem dropConn_issues (want : Map String IPsecClient) (s : Map String IPsecClient × Run)
    (e : Entry String IPsecClient) : Issues HostCmd.OnIPsec s.2 (dropConn f want s e).2 := by
  unfold dropConn
  split_ifs
  · exact .refl
  · exact unloadIPsec_issues f e.1 e.2 s.2

theorem dropHere_issues (want : Map Addr Unit) (s : Map Addr Unit × Run) (e : Entry Addr Unit) :
    Issues HostCmd.OnMain s.2 (dropHere f want s e).2 := by
  unfold dropHere
  split_ifs
  · exact .refl
  · exact (Issues.refl.ipIgnore f (by exact rfl)).note

theorem loadIPsec_issues (s : Map String IPsecClient × Run) (e : Entry String IPsecClient) :
    Issues HostCmd.OnIPsec s.2 (loadIPsec cfg f s e).2 := by
  unfold loadIPsec
  split_ifs
  · exact .refl
  have secret : Issues HostCmd.OnIPsec s.2
      (s.2.issue f (.loadShared (ipsecSecret e.1 e.2))).2 := Issues.refl.issue f trivial
  dsimp only
  split
  · next heq =>
    rw [heq] at secret
    exact secret.fail _
  · next r heq =>
    rw [heq] at secret
    have conn := secret.issue f (c := .loadConn (ipsecConnection cfg.id e.1 e.2)) trivial
    split
    · next heq =>
      rw [heq] at conn
      exact (conn.fail _).issue f trivial
    · next heq =>
      rw [heq] at conn
      exact (conn.issue f (by exact rfl)).note

theorem returnHere_issues (s : Map Addr Unit × Run) (e : Entry Addr Unit) :
    Issues HostCmd.OnMain s.2 (returnHere f s e).2 := by
  unfold returnHere
  split_ifs
  · exact .refl
  exact record_issues s.1 e (Issues.refl.issue f (by exact rfl))

theorem indexLocked_issues (id : String) (ix : Indices) (r : Run) {C : HostCmd → Prop}
    (sub : ∀ t c, egressTableBase ≤ t → HostCmd.OnTable t c → C c) :
    Issues C r (indexLocked f id ix r).2.2.2 := by
  rcases indexLocked_cases f id ix r with ⟨n, -, heq⟩ | ⟨-, err, r', heq, issues, -⟩
  · rw [heq]
    exact .refl
  · rw [heq]
    exact issues.mono fun c hc => sub _ c (Nat.le_add_right _ _) hc

theorem openBackbone_issues (id : String) (s : Wiring) :
    Issues HostCmd.OnBackbones s.run (openBackbone f id s).2.run := by
  unfold openBackbone
  cases s.backbones.lookup id with
  | some b => exact .refl
  | none =>
    have indexed : Issues HostCmd.OnBackbones s.run (indexLocked f id s.indices s.run).2.2.2 :=
      indexLocked_issues f id s.indices s.run fun t c ht hc => by
        cases c <;> simp_all [HostCmd.OnTable, HostCmd.OnBackbones]
    generalize indexLocked f id s.indices s.run = x at indexed ⊢
    obtain ⟨n, _ | err, ix, r⟩ := x
    · have opened := indexed.trans ((openDevice_issues f n r).mono fun c hc => by
        cases c <;> simp_all [HostCmd.OnDevice, HostCmd.OnBackbones])
      dsimp only
      generalize openDevice f n r = y at opened ⊢
      obtain ⟨_ | err, r'⟩ := y <;> exact opened
    · exact indexed

theorem applyBackbone_issues (want : Map String Backbone) (s : Wiring) (id : String) :
    Issues HostCmd.OnBackbones s.run (applyBackbone cfg f want s id).run := by
  have opened := openBackbone_issues f id s
  unfold applyBackbone applyBackboneLocked
  generalize (want.lookup id).getD default = w
  generalize openBackbone f id s = x at opened ⊢
  obtain ⟨err | b, s'⟩ := x
  · exact opened.fail _
  · have set := opened.trans ((setBackbone_issues cfg f id w b (s'.backbones, s'.run)).mono
      fun c hc => by cases c <;> simp_all [HostCmd.OnWire, HostCmd.OnBackbones])
    dsimp only
    generalize setBackbone cfg f id w b (s'.backbones, s'.run) = y at set ⊢
    obtain ⟨_ | err, bs, r⟩ := y
    · exact set
    · exact set.fail _

theorem forwardTo_issues (s : Forwarding) (e : Entry Addr String) :
    Issues HostCmd.OnRules s.run (forwardTo f s e).run := by
  unfold forwardTo
  split_ifs
  · exact .refl
  have indexed : Issues HostCmd.OnRules s.run (indexLocked f e.2 s.indices s.run).2.2.2 :=
    indexLocked_issues f e.2 s.indices s.run fun t c ht hc => by
      cases c <;> simp_all [HostCmd.OnTable, HostCmd.OnRules]
  generalize indexLocked f e.2 s.indices s.run = x at indexed ⊢
  obtain ⟨n, _ | err, ix, r⟩ := x
  · have added := indexed.ipIgnore f (c := .addRule e.1 (egressTableBase + n)) trivial
    dsimp only at added ⊢
    generalize r.ipIgnore f (.addRule e.1 (egressTableBase + n)) = y at added ⊢
    obtain ⟨_ | err, r'⟩ := y
    · exact added
    · exact added.fail _
  · exact indexed.fail _

/-! The phases. -/

variable (p : Plan) (a : HostAgent) (r : Run)

theorem closeBackbones_issues (want : Map String Backbone) (s : Map String Wire × Run) :
    Issues HostCmd.Closes s.2 (closeBackbones f want s).2 :=
  Issues.foldl Prod.snd (closeBackbone_issues want) _ s

theorem applyPeers_issues : Issues HostCmd.OnClients r (applyPeers cfg f p a r).2 :=
  (Issues.foldl Prod.snd (dropPeer_issues cfg f p.peers) _ (a.peers, r)).trans
    (Issues.foldl Prod.snd (addClient_issues cfg f) _ _)

theorem applyBackbones_issues : Issues HostCmd.OnBackbones r (applyBackbones cfg f p a r).2 := by
  have closed := (closeBackbones_issues f p.backbones (a.backbones, r)).mono (D := HostCmd.OnBackbones)
    fun c hc => by cases c <;> simp_all [HostCmd.Closes, HostCmd.OnBackbones]
  generalize hkept : closeBackbones f p.backbones (a.backbones, r) = kept at closed
  unfold applyBackbones
  rw [hkept]
  exact closed.trans (Issues.foldl Wiring.run (applyBackbone_issues cfg f p.backbones) _ ⟨a.indices, kept.1, kept.2⟩)

theorem dropRules_issues (ix : Indices) (want : Map Addr String) (s : Map Addr String × Run) :
    Issues HostCmd.DropsRule s.2 (dropRules f ix want s).2 :=
  Issues.foldl Prod.snd (dropRule_issues f ix want) _ s

theorem applyForward_issues : Issues HostCmd.OnRules r (applyForward f p a r).2 := by
  have dropped := (dropRules_issues f a.indices p.forward (a.forward, r)).mono (D := HostCmd.OnRules)
    fun c hc => by cases c <;> simp_all [HostCmd.DropsRule, HostCmd.OnRules]
  generalize hkept : dropRules f a.indices p.forward (a.forward, r) = kept at dropped
  unfold applyForward
  rw [hkept]
  exact dropped.trans (Issues.foldl Forwarding.run (forwardTo_issues f) _ ⟨a.indices, kept.1, kept.2⟩)

theorem dropConns_issues (want : Map String IPsecClient) (s : Map String IPsecClient × Run) :
    Issues HostCmd.OnIPsec s.2 (dropConns f want s).2 :=
  Issues.foldl Prod.snd (dropConn_issues f want) _ s

theorem dropHeres_issues (want : Map Addr Unit) (s : Map Addr Unit × Run) :
    Issues HostCmd.OnMain s.2 (dropHeres f want s).2 :=
  Issues.foldl Prod.snd (dropHere_issues f want) _ s

theorem applyReturn_issues : Issues HostCmd.OnMain r (applyReturn f p a r).2 :=
  (Issues.foldl Prod.snd (dropReturn_issues f p.ret) _ (a.ret, r)).trans
    (Issues.foldl Prod.snd (returnVia_issues f a.backbones) _ _)

theorem addConns_issues (want : Map String IPsecClient) (s : Map String IPsecClient × Run) :
    Issues HostCmd.OnIPsec s.2 (addConns cfg f want s).2 :=
  Issues.foldl Prod.snd (loadIPsec_issues cfg f) _ s

theorem addHeres_issues (want : Map Addr Unit) (s : Map Addr Unit × Run) :
    Issues HostCmd.OnMain s.2 (addHeres f want s).2 :=
  Issues.foldl Prod.snd (returnHere_issues f) _ s

end Issues

end Egressa
