import Egressa.Tunnel.Peers

/-!
# The host of a gateway

What a gateway agent configures (`internal/gateway/netcfg.go` and the calls of `agent.go` and `ipsec.go`).  A command
takes effect or fails without effect, as its `HostFate` decides; where the kernel answers that there was nothing to do,
`ipIgnore` makes a success of it.  What is set up once (addresses, iptables, the probe rule) is left out.
-/

namespace Egressa

open Tunnel
open Function (update)

/-- The devices a gateway routes to: the client-facing WireGuard device, the IPsec interface, and
the backbone devices `egb<n>`. -/
inductive Device where
  | egc0
  | egi0
  | egb (n : ℕ)
  deriving DecidableEq, Repr, Inhabited

def mainTable : ℕ := 254
def probeTable : ℕ := 100
/-- `egressTableBase + n` is the table for the egress reached over `egb<n>`. -/
def egressTableBase : ℕ := 1000

/-- `ipsec.Connection`, less what is the same for every connection of a gateway. -/
structure IKEConnection where
  name : String
  localID : String
  remoteID : String
  psk : String
  remoteTS : Addr
  deriving DecidableEq, Repr, Inhabited

structure SharedSecret where
  id : String
  psk : String
  owners : List String
  deriving DecidableEq, Repr, Inhabited

/-- What the agent changes on its host. -/
structure Host where
  wg : Device → WgPeers
  /-- Whether there is a rule `from <vip>/32 lookup <table> pref 1000`. -/
  rules : Addr → ℕ → Bool
  route : ℕ → Addr → Option Device
  /-- The default route of a table that leads out of a device. -/
  default : ℕ → Option Device
  /-- Whether a table has a blackhole default route, of metric 4000. -/
  blackhole : ℕ → Bool
  conns : String → Option IKEConnection
  secrets : String → Option SharedSecret

/-- The commands the agent issues. -/
inductive HostCmd where
  | addPeer (dev : Device) (key : Key) (allowedIPs : List AllowedIP) (endpoint : String) (keepalive : ℕ)
  | removePeer (dev : Device) (key : Key)
  /-- `tunnel.NewReal`. -/
  | newReal (n : ℕ)
  /-- `addrUp`: gives a device its address, brings it up and loosens its filter. -/
  | addrUp (n : ℕ)
  /-- `Close`: the kernel drops the routes through the device. -/
  | close (n : ℕ)
  | flushTable (table : ℕ)
  /-- `ip route replace blackhole default metric 4000 table <table>`. -/
  | blackhole (table : ℕ)
  /-- `ip route replace default dev egb<n> table <table>`. -/
  | replaceDefault (n : ℕ) (table : ℕ)
  /-- `ip route replace <a>/32 dev <dev> table <table>`. -/
  | replaceRoute (a : Addr) (dev : Device) (table : ℕ)
  /-- `ip route del <a>/32 table <table>`, of one device if one is given. -/
  | delRoute (a : Addr) (dev : Option Device) (table : ℕ)
  | addRule (vip : Addr) (table : ℕ)
  | delRule (vip : Addr) (table : ℕ)
  | loadShared (secret : SharedSecret)
  | loadConn (conn : IKEConnection)
  | terminateIKE (name : String)
  | unloadConn (name : String)
  | unloadShared (id : String)
  deriving DecidableEq, Repr

namespace Host

def bare : Host where
  wg _ := .empty
  rules _ _ := false
  route _ _ := none
  default _ := none
  blackhole _ := false
  conns _ := none
  secrets _ := none

def without (dev : Device) (route : Option Device) : Option Device :=
  if route = some dev then none else route

theorem without_of_ne {dev : Device} {route : Option Device} (h : route ≠ some dev) :
    without dev route = route := if_neg h

def setRoute (h : Host) (table : ℕ) (a : Addr) (dev : Option Device) : Host :=
  { h with route := update h.route table (update (h.route table) a dev) }

def setRule (h : Host) (vip : Addr) (table : ℕ) (there : Bool) : Host :=
  { h with rules := update h.rules vip (update (h.rules vip) table there) }

/-- The effect of a command. -/
def exec (h : Host) : HostCmd → Host
  | .addPeer dev key ips endpoint keepalive =>
    { h with wg := update h.wg dev ((h.wg dev).addPeer key ips endpoint keepalive) }
  | .removePeer dev key => { h with wg := update h.wg dev ((h.wg dev).removePeer key) }
  | .newReal n => { h with wg := update h.wg (.egb n) .empty }
  | .addrUp _ => h
  | .close n =>
    { h with
      wg := update h.wg (.egb n) .empty
      route := fun table a => without (.egb n) (h.route table a)
      default := fun table => without (.egb n) (h.default table) }
  | .flushTable table =>
    { h with
      route := update h.route table fun _ => none
      default := update h.default table none
      blackhole := update h.blackhole table false }
  | .blackhole table => { h with blackhole := update h.blackhole table true }
  | .replaceDefault n table => { h with default := update h.default table (some (.egb n)) }
  | .replaceRoute a dev table => h.setRoute table a (some dev)
  | .delRoute a dev table =>
    h.setRoute table a (dev.elim none fun d => without d (h.route table a))
  | .addRule vip table => h.setRule vip table true
  | .delRule vip table => h.setRule vip table false
  | .loadShared secret => { h with secrets := update h.secrets secret.id (some secret) }
  | .loadConn conn => { h with conns := update h.conns conn.name (some conn) }
  | .terminateIKE _ => h
  | .unloadConn name => { h with conns := update h.conns name none }
  | .unloadShared id => { h with secrets := update h.secrets id none }

theorem rules_setRule (h : Host) (vip vip' : Addr) (table table' : ℕ) (there : Bool) :
    (h.setRule vip table there).rules vip' table' =
      if vip' = vip ∧ table' = table then there else h.rules vip' table' := by
  by_cases hv : vip' = vip
  · subst hv
    by_cases ht : table' = table
    · simp [setRule, ht]
    · simp [setRule, ht]
  · simp [setRule, hv]

theorem route_setRoute (h : Host) (table table' : ℕ) (a a' : Addr) (dev : Option Device) :
    (h.setRoute table a dev).route table' a' =
      if table' = table ∧ a' = a then dev else h.route table' a' := by
  by_cases ht : table' = table
  · subst ht
    by_cases ha : a' = a
    · simp [setRoute, ha]
    · simp [setRoute, ha]
  · simp [setRoute, ht]

end Host

/-! ## Running commands -/

/-- What a gateway cannot know: whether the `n`-th command fails, and with what answer, and in which order a loop over
a map that starts then meets its entries. -/
structure HostFate where
  fails : ℕ → HostCmd → Option String
  order : ℕ → {α : Type} → List α → List α
  perm : ∀ n {α : Type} (l : List α), (order n l).Perm l

/-- A run without failures, in the order given. -/
def HostFate.steady : HostFate where
  fails _ _ := none
  order _ _ l := l
  perm _ _ l := .refl l

/-- The host while an agent works on it, how it was before each command, how many commands have run, and the errors
noted. -/
structure Run where
  host : Host
  past : List Host := []
  clock : ℕ := 0
  errs : List String := []

def contains (s sub : String) : Bool := decide (sub.toList <:+: s.toList)

/-- The answers `ipIgnore` takes for success. -/
def benign (msg : String) : Bool :=
  ["File exists", "No such process", "No such file or directory", "Cannot find device",
    "FIB table does not exist"].any (contains msg)

def isNotFound (msg : String) : Bool := contains msg "ipsec: not found in the IKE daemon"

namespace Run

/-- A command takes effect. -/
def exec (r : Run) (c : HostCmd) : Run := { r with host := r.host.exec c, past := r.host :: r.past }

/-- Run a command, and answer its error unless `ignored`. -/
def issueUnless (ignored : String → Bool) (f : HostFate) (c : HostCmd) (r : Run) : Option String × Run :=
  match f.fails r.clock c with
  | some err => (if ignored err then none else some err, { r with clock := r.clock + 1 })
  | none => (none, { r.exec c with clock := r.clock + 1 })

/-- A command whose error is reported. -/
def issue (f : HostFate) (c : HostCmd) (r : Run) : Option String × Run := r.issueUnless (fun _ => false) f c

/-- A command some errors of which are none. -/
def ipIgnore (f : HostFate) (c : HostCmd) (r : Run) : Option String × Run := r.issueUnless benign f c

def ignoreIPsecNotFound (f : HostFate) (c : HostCmd) (r : Run) : Option String × Run := r.issueUnless isNotFound f c

def fail (r : Run) (err : String) : Run := { r with errs := r.errs ++ [err] }

/-- `if err != nil { return err }`. -/
def andThen (x : Option String × Run) (next : Run → Option String × Run) : Option String × Run :=
  match x with
  | (some err, r) => (some err, r)
  | (none, r) => next r

/-- `if err != nil { errs = append(errs, err) }`. -/
def note : Option String × Run → Run
  | (some err, r) => r.fail err
  | (none, r) => r

theorem issueUnless_cases (ignored : String → Bool) (f : HostFate) (c : HostCmd) (r : Run) :
    (∃ err, f.fails r.clock c = some err ∧ r.issueUnless ignored f c =
      (if ignored err then none else some err, { r with clock := r.clock + 1 })) ∨
    (f.fails r.clock c = none ∧ r.issueUnless ignored f c = (none, { r.exec c with clock := r.clock + 1 })) := by
  unfold issueUnless
  cases h : f.fails r.clock c with
  | some err => exact Or.inl ⟨err, rfl, rfl⟩
  | none => exact Or.inr ⟨rfl, rfl⟩

theorem issueUnless_of_not_fails {ignored : String → Bool} {f : HostFate} {c : HostCmd} {r : Run}
    (h : f.fails r.clock c = none) :
    r.issueUnless ignored f c = (none, { r.exec c with clock := r.clock + 1 }) := by
  simp only [issueUnless, h]

theorem host_issueUnless {ignored : String → Bool} {f : HostFate} {c : HostCmd} {r : Run}
    (h : f.fails r.clock c = none) : (r.issueUnless ignored f c).2.host = r.host.exec c := by
  rw [issueUnless_of_not_fails h]
  rfl

@[simp] theorem host_note (x : Option String × Run) : (note x).host = x.2.host := by
  obtain ⟨o, r⟩ := x
  cases o <;> rfl

@[simp] theorem host_fail (r : Run) (err : String) : (r.fail err).host = r.host := rfl

/-! ## What is issued between two runs -/

/-- Commands, all in `C`, lead from one run to another. -/
inductive Issues (C : HostCmd → Prop) (r : Run) : Run → Prop
  | refl : Issues C r r
  | skip {r' r'' : Run} (h : Issues C r r') (host : r''.host = r'.host) (past : r''.past = r'.past) : Issues C r r''
  | exec {r' r'' : Run} (c : HostCmd) (hc : C c) (h : Issues C r r')
      (host : r''.host = r'.host.exec c) (past : r''.past = r'.host :: r'.past) : Issues C r r''

namespace Issues

variable {C D : HostCmd → Prop} {r r' r'' : Run}

theorem trans (h : Issues C r r') (h' : Issues C r' r'') : Issues C r r'' := by
  induction h' with
  | refl => exact h
  | skip _ host past ih => exact ih.skip host past
  | exec c hc _ host past ih => exact ih.exec c hc host past

theorem mono (h : Issues C r r') (sub : ∀ c, C c → D c) : Issues D r r' := by
  induction h with
  | refl => exact .refl
  | skip _ host past ih => exact ih.skip host past
  | exec c hc _ host past ih => exact ih.exec c (sub c hc) host past

variable {c : HostCmd}

theorem issueUnless (h : Issues C r r') (hc : C c) (ignored : String → Bool)
    (f : HostFate) : Issues C r (r'.issueUnless ignored f c).2 := by
  rcases issueUnless_cases ignored f c r' with ⟨err, -, heq⟩ | ⟨-, heq⟩
  · rw [heq]
    exact h.skip rfl rfl
  · rw [heq]
    exact h.exec c hc rfl rfl

theorem issue (h : Issues C r r') (f : HostFate) (hc : C c) : Issues C r (r'.issue f c).2 := h.issueUnless hc _ f

theorem ipIgnore (h : Issues C r r') (f : HostFate) (hc : C c) :
    Issues C r (r'.ipIgnore f c).2 := h.issueUnless hc _ f

theorem ran (h : Issues C r r') (hc : C c) : Issues C r (r'.exec c) := h.exec c hc rfl rfl

theorem andThen {x : Option String × Run} (h : Issues C r x.2) (next : Run → Option String × Run)
    (h' : ∀ r', Issues C r r' → Issues C r (next r').2) : Issues C r (Run.andThen x next).2 := by
  obtain ⟨o, r'⟩ := x
  cases o with
  | none => exact h' r' h
  | some err => exact h

theorem fail (h : Issues C r r') (err : String) : Issues C r (r'.fail err) := h.skip rfl rfl

theorem note {x : Option String × Run} (h : Issues C r x.2) : Issues C r (Run.note x) := by
  obtain ⟨o, r'⟩ := x
  cases o with
  | none => exact h
  | some err => exact h.fail err

theorem foldl {σ ε : Type} (run : σ → Run) {step : σ → ε → σ}
    (turn : ∀ s e, Issues C (run s) (run (step s e))) (l : List ε) (s : σ) :
    Issues C (run s) (run (l.foldl step s)) := by
  induction l generalizing s with
  | nil => exact .refl
  | cons e l ih => exact (turn s e).trans (ih _)

theorem frame {α : Type} (h : Issues C r r') (view : Host → α)
    (same : ∀ c, C c → ∀ h : Host, view (h.exec c) = view h) : view r'.host = view r.host := by
  induction h with
  | refl => rfl
  | skip _ host _ ih => rw [host, ih]
  | exec c hc _ host _ ih => rw [host, same c hc, ih]

theorem keeps {I : Host → Prop} (h : Issues C r r') (keep : ∀ c, C c → ∀ h : Host, I h → I (h.exec c))
    (now : I r.host) : I r'.host := by
  induction h with
  | refl => exact now
  | skip _ host _ ih => rwa [host]
  | exec c hc _ host _ ih =>
    rw [host]
    exact keep c hc _ ih

theorem invariant {I J : Host → Prop} (h : Issues C r r')
    (keep : ∀ c, C c → ∀ h : Host, I h → I (h.exec c)) (weaken : ∀ h, I h → J h)
    (now : I r.host) (past : ∀ h ∈ r.past, J h) : I r'.host ∧ ∀ h ∈ r'.past, J h := by
  induction h with
  | refl => exact ⟨now, past⟩
  | skip _ host past ih =>
    rw [host, past]
    exact ih
  | exec c hc _ host past ih =>
    rw [host, past]
    refine ⟨keep c hc _ ih.1, fun h hh => ?_⟩
    rcases List.mem_cons.1 hh with rfl | hh
    · exact weaken _ ih.1
    · exact ih.2 h hh

end Issues

end Run

end Egressa
