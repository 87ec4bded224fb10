import Egressa.Client.Agent
import Egressa.Conc.Machine
import Egressa.Maps
import Egressa.Tunnel.Peers

/-!
# The default route of a WireGuard client

A client has every access gateway as a peer of its device, and that of its session also holds `0.0.0.0/0`
(`internal/client/agent.go`).  `update` gives the lock up before it adopts the session of its state: it is a `refresh`
and, with other calls of `adopt` in between, an `adopt`.  Everything but peers and sessions is left out.
-/

namespace Egressa

open Maps Tunnel

/-- The client agent with its WireGuard peers. -/
structure WgAgent extends ClientAgent where
  gateways : List Gateway
  peers : Map String Gateway
  wg : WgPeers

def peerKeepalive : ℕ := 10

def usableAccess (g : Gateway) : Bool := g.roles.has roleAccess

/-- Whether a peer is configured as the gateway asks for. -/
def sameConfig (old g : Gateway) : Bool :=
  old.publicKey == g.publicKey && old.endpoint == g.endpoint && old.nodeIP == g.nodeIP

/-- `configurePeerLocked`.  `decodeKey` is `tunnel.DecodeBase64`; `fails` says that `AddPeer` fails,
which has no effect. -/
def configurePeer (decodeKey : String → Except String Key) (wg : WgPeers) (g : Gateway)
    (active fails : Bool) : Except String WgPeers :=
  match decodeKey g.publicKey with
  | .error e => .error e
  | .ok key =>
    if fails then .error "add peer failed"
    else .ok (wg.addPeer key (.host g.nodeIP :: if active then [.all] else []) g.endpoint peerKeepalive)

namespace WgAgent

def start (agent : ClientAgent) : WgAgent := ⟨agent, [], ∅, .empty⟩

variable (decodeKey : String → Except String Key)

/-- One turn of the loop of `update`; `fails` says for which turns `AddPeer` fails. -/
def addGateway (fails : ℕ → Bool) (a : WgAgent) (gi : Gateway × ℕ) : WgAgent :=
  if !usableAccess gi.1 then a
  else if (a.peers.lookup gi.1.id).any (sameConfig · gi.1) then a
  else match configurePeer decodeKey a.wg gi.1 (gi.1.id == a.session.access) (fails gi.2) with
    | .error _ => a
    | .ok wg => { a with wg, peers := a.peers.insert gi.1.id gi.1 }

/-- `update`, up to where it gives up the lock. -/
def refresh (fails : ℕ → Bool) (gateways : List Gateway) (a : WgAgent) : WgAgent :=
  gateways.zipIdx.foldl (addGateway decodeKey fails) { a with gateways }

/-- The part of `adopt` that gives the default route to the gateway `access`. -/
def switchPeer (fails : Bool) (access : String) (a : WgAgent) : WgAgent :=
  match findGateway a.gateways access with
  | none => a
  | some g => match configurePeer decodeKey a.wg g true fails with
    | .error _ => a
    | .ok wg => { a with wg, peers := a.peers.insert g.id g }

/-- `adopt`, with the switch of the default route. -/
def adopt (fails : Bool) (sess : Session) (a : WgAgent) : WgAgent :=
  if sess.epoch ≤ a.session.epoch then a
  else
    let a' := if sess.access = a.session.access then a else switchPeer decodeKey fails sess.access a
    { a' with toClientAgent := a.toClientAgent.adopt sess }

end WgAgent

/-- The locked steps of the agent. -/
inductive WgStep where
  | refresh (fails : ℕ → Bool) (gateways : List Gateway)
  | adopt (fails : Bool) (sess : Session)

variable (decodeKey : String → Except String Key)

def WgAgent.step (a : WgAgent) : WgStep → WgAgent
  | .refresh fails gateways => a.refresh decodeKey fails gateways
  | .adopt fails sess => a.adopt decodeKey fails sess

/-- The default route can be moved to the gateway. -/
def WgAgent.CanSwitch (a : WgAgent) (fails : Bool) (access : String) : Prop :=
  ∃ g key, findGateway a.gateways access = some g ∧ decodeKey g.publicKey = .ok key ∧ fails = false

/-- The gateways of a state have distinct names, and a session's new access gateway gets the default route, or is not
in the cache. -/
def WgStep.Clean (a : WgAgent) : WgStep → Prop
  | .refresh _ gateways => (gateways.map (·.id)).Nodup
  | .adopt fails sess => a.session.epoch < sess.epoch → sess.access ≠ a.session.access →
      a.CanSwitch decodeKey fails sess.access ∨ sess.access ∉ a.peers

abbrev CleanRuns (P : WgStep → Prop) : WgAgent → WgAgent → Prop :=
  Conc.Runs (fun a e => some (a.step decodeKey e)) fun a e => P e ∧ e.Clean decodeKey a

def WgStep.IsAdopt : WgStep → Prop
  | .adopt _ _ => True
  | .refresh _ _ => False

/-! ## The cache and the device -/

/-- If the access gateway of the session is in the cache, it holds the default route. -/
def Routed (a : WgAgent) : Prop :=
  ∀ g key, a.peers.lookup a.session.access = some g → decodeKey g.publicKey = .ok key → a.wg.holder .all = some key

variable {decodeKey}

theorem configurePeer_eq_ok {wg wg' : WgPeers} {g : Gateway} {active fails : Bool}
    (h : configurePeer decodeKey wg g active fails = .ok wg') :
    ∃ key, decodeKey g.publicKey = .ok key ∧ wg'.holder .all = if active then some key else wg.holder .all := by
  unfold configurePeer at h
  cases hkey : decodeKey g.publicKey with
  | error e => simp [hkey] at h
  | ok key =>
    cases fails with
    | true => simp [hkey] at h
    | false =>
      simp only [hkey, Bool.false_eq_true, if_false] at h
      cases h
      refine ⟨key, rfl, ?_⟩
      cases active <;> simp

theorem configurePeer_of_key (wg : WgPeers) {g : Gateway} {key : Key}
    (hkey : decodeKey g.publicKey = .ok key) (active : Bool) :
    ∃ wg', configurePeer decodeKey wg g active false = .ok wg' := by
  simp [configurePeer, hkey]

theorem sameConfig_publicKey {old g : Gateway} (h : sameConfig old g = true) : old.publicKey = g.publicKey := by
  simp only [sameConfig, Bool.and_eq_true, beq_iff_eq] at h
  exact h.1.1

namespace WgAgent

variable {a : WgAgent} {fails : ℕ → Bool}

theorem addGateway_cases (decodeKey : String → Except String Key) (a : WgAgent) (fails : ℕ → Bool)
    (gi : Gateway × ℕ) :
    a.addGateway decodeKey fails gi = a ∨
    ∃ wg, configurePeer decodeKey a.wg gi.1 (gi.1.id == a.session.access) (fails gi.2) = .ok wg ∧
      a.addGateway decodeKey fails gi = { a with wg, peers := a.peers.insert gi.1.id gi.1 } := by
  unfold addGateway
  split_ifs
  · exact Or.inl rfl
  · exact Or.inl rfl
  · cases configurePeer decodeKey a.wg gi.1 (gi.1.id == a.session.access) (fails gi.2) with
    | error e => exact Or.inl rfl
    | ok wg => exact Or.inr ⟨wg, rfl, rfl⟩

/-- The key of the gateway is the one configured. -/
def Caches (a : WgAgent) (g : Gateway) : Prop := ∃ old, a.peers.lookup g.id = some old ∧ old.publicKey = g.publicKey

variable {gi : Gateway × ℕ}

theorem caches_addGateway (usable : usableAccess gi.1 = true) {key : Key}
    (hkey : decodeKey gi.1.publicKey = .ok key) (ok : fails gi.2 = false) :
    (a.addGateway decodeKey fails gi).Caches gi.1 := by
  obtain ⟨wg, hwg⟩ := configurePeer_of_key a.wg hkey (gi.1.id == a.session.access)
  unfold addGateway
  rw [usable, ok, hwg]
  cases hold : a.peers.lookup gi.1.id with
  | none => exact ⟨gi.1, by simp, rfl⟩
  | some old =>
    cases hsame : sameConfig old gi.1 with
    | true => exact ⟨old, by simpa [hsame] using hold, sameConfig_publicKey hsame⟩
    | false => exact ⟨gi.1, by simp [hsame], rfl⟩

theorem Caches.addGateway {g : Gateway} (h : a.Caches g) (hne : g.id ≠ gi.1.id) :
    (a.addGateway decodeKey fails gi).Caches g := by
  rcases addGateway_cases decodeKey a fails gi with heq | ⟨wg, -, heq⟩
  · rwa [heq]
  · obtain ⟨old, hold, hkey⟩ := h
    rw [heq]
    exact ⟨old, by rwa [AList.lookup_insert_ne hne], hkey⟩

theorem caches_foldl {l : List (Gateway × ℕ)} (distinct : (l.map (·.1.id)).Nodup)
    (ok : ∀ gi ∈ l, fails gi.2 = false) (hmem : gi ∈ l)
    (usable : usableAccess gi.1 = true) {key : Key} (hkey : decodeKey gi.1.publicKey = .ok key) :
    (l.foldl (addGateway decodeKey fails) a).Caches gi.1 := by
  induction l using List.reverseRecOn with
  | nil => simp at hmem
  | append_singleton l last ih =>
    rw [List.map_append, List.nodup_append] at distinct
    obtain ⟨distinct, -, hlast⟩ := distinct
    rw [List.foldl_append, List.foldl_cons, List.foldl_nil]
    rcases List.mem_append.1 hmem with hmem | hmem
    · refine (ih distinct (fun gi hgi => ok gi (List.mem_append_left _ hgi)) hmem).addGateway ?_
      exact hlast _ (List.mem_map_of_mem hmem) _ (by simp)
    · obtain rfl := List.mem_singleton.1 hmem
      exact caches_addGateway usable hkey (ok gi (by simp))

section

variable (decodeKey : String → Except String Key)

theorem addGateway_frame (a : WgAgent) (fails : ℕ → Bool) (gi : Gateway × ℕ) :
    (a.addGateway decodeKey fails gi).toClientAgent = a.toClientAgent ∧
      (a.addGateway decodeKey fails gi).gateways = a.gateways := by
  rcases addGateway_cases decodeKey a fails gi with heq | ⟨wg, -, heq⟩
  · rw [heq]
    exact ⟨rfl, rfl⟩
  · rw [heq]
    exact ⟨rfl, rfl⟩

theorem refresh_frame (a : WgAgent) (fails : ℕ → Bool) (gateways : List Gateway) :
    (a.refresh decodeKey fails gateways).toClientAgent = a.toClientAgent ∧
      (a.refresh decodeKey fails gateways).gateways = gateways := by
  let kept (b : WgAgent) : Prop := b.toClientAgent = a.toClientAgent ∧ b.gateways = gateways
  refine List.foldlRecOn (motive := kept) gateways.zipIdx _ ⟨rfl, rfl⟩ fun b ih gi _ => ?_
  obtain ⟨hagent, hgateways⟩ := addGateway_frame decodeKey b fails gi
  exact ⟨hagent.trans ih.1, hgateways.trans ih.2⟩

/-- What `adopt` does: nothing if the session is not newer; otherwise it is taken, and a new access gateway gets the
default route if it can. -/
theorem adopt_cases (a : WgAgent) (fails : Bool) (sess : Session) : a.adopt decodeKey fails sess = a ∨
    (a.session.epoch < sess.epoch ∧ ∃ agent, agent.session = sess ∧
      (((sess.access = a.session.access ∨ ¬ a.CanSwitch decodeKey fails sess.access) ∧
          a.adopt decodeKey fails sess = { a with toClientAgent := agent }) ∨
        ∃ g key wg, findGateway a.gateways sess.access = some g ∧ decodeKey g.publicKey = .ok key ∧
          wg.holder .all = some key ∧
          a.adopt decodeKey fails sess = ⟨agent, a.gateways, a.peers.insert sess.access g, wg⟩)) := by
  by_cases hepoch : sess.epoch ≤ a.session.epoch
  · exact Or.inl (by simp [adopt, hepoch])
  have hsession : (a.toClientAgent.adopt sess).session = sess := by simp [ClientAgent.adopt, hepoch]
  refine Or.inr ⟨UInt64.not_le.1 hepoch, a.toClientAgent.adopt sess, hsession, ?_⟩
  simp only [adopt, hepoch, if_false]
  by_cases haccess : sess.access = a.session.access
  · exact Or.inl ⟨Or.inl haccess, by rw [if_pos haccess]⟩
  · rw [if_neg haccess]
    by_cases hswitch : a.CanSwitch decodeKey fails sess.access
    · obtain ⟨g, key, hfind, hkey, rfl⟩ := hswitch
      obtain ⟨wg, hwg⟩ := configurePeer_of_key a.wg hkey true
      obtain ⟨key', hkey', hholder⟩ := configurePeer_eq_ok hwg
      cases hkey.symm.trans hkey'
      have hid : g.id = sess.access := by simpa using List.find?_some hfind
      refine Or.inr ⟨g, key, wg, hfind, hkey, hholder, ?_⟩
      simp [switchPeer, hfind, hwg, hid]
    · refine Or.inl ⟨Or.inr hswitch, ?_⟩
      unfold switchPeer
      cases hfind : findGateway a.gateways sess.access with
      | none => rfl
      | some g =>
        cases hwg : configurePeer decodeKey a.wg g true fails with
        | error e => simp [hwg]
        | ok wg =>
          obtain ⟨key, hkey, -⟩ := configurePeer_eq_ok hwg
          cases fails with
          | false => exact absurd ⟨g, key, hfind, hkey, rfl⟩ hswitch
          | true => simp [configurePeer, hkey] at hwg

end

end WgAgent

namespace Routed

variable {a : WgAgent}

theorem start (decodeKey : String → Except String Key) (agent : ClientAgent) : Routed decodeKey (.start agent) := by
  intro g key h
  simp [WgAgent.start] at h

theorem addGateway (h : Routed decodeKey a) (fails : ℕ → Bool) (gi : Gateway × ℕ) :
    Routed decodeKey (a.addGateway decodeKey fails gi) := by
  rcases WgAgent.addGateway_cases decodeKey a fails gi with heq | ⟨wg, hwg, heq⟩
  · rwa [heq]
  rw [heq]
  intro g key hg hkey
  dsimp only at hg ⊢
  obtain ⟨key', hkey', hholder⟩ := configurePeer_eq_ok hwg
  rw [hholder]
  by_cases hid : gi.1.id = a.session.access
  · -- the gateway of the session: it is configured with the default route
    rw [← hid, AList.lookup_insert] at hg
    cases hg
    cases hkey'.symm.trans hkey
    simp [hid]
  · rw [AList.lookup_insert_ne (Ne.symm hid)] at hg
    simpa [hid] using h g key hg hkey

theorem refresh (h : Routed decodeKey a) (fails : ℕ → Bool) (gateways : List Gateway) :
    Routed decodeKey (a.refresh decodeKey fails gateways) :=
  List.foldlRecOn gateways.zipIdx _ h fun _ ih gi _ => ih.addGateway fails gi

theorem adopt (h : Routed decodeKey a) {fails : Bool} {sess : Session}
    (clean : (WgStep.adopt fails sess).Clean decodeKey a) :
    Routed decodeKey (a.adopt decodeKey fails sess) := by
  rcases WgAgent.adopt_cases decodeKey a fails sess with heq |
    ⟨hepoch, agent, hsession, ⟨hstays, heq⟩ | ⟨g', key', wg, -, hkey', hholder, heq⟩⟩
  · rwa [heq]
  · rw [heq]
    intro g key hg hkey
    dsimp only at hg ⊢
    rw [hsession] at hg
    by_cases haccess : sess.access = a.session.access
    · rw [haccess] at hg
      exact h g key hg hkey
    · rcases clean hepoch haccess with hswitch | hnot
      · exact absurd hswitch (hstays.resolve_left haccess)
      · exact absurd (mem_of_lookup hg) hnot
  · rw [heq]
    intro g key hg hkey
    dsimp only at hg ⊢
    rw [hsession, AList.lookup_insert] at hg
    cases hg
    cases hkey'.symm.trans hkey
    exact hholder

theorem step (h : Routed decodeKey a) {e : WgStep} (clean : e.Clean decodeKey a) :
    Routed decodeKey (a.step decodeKey e) := by
  cases e with
  | refresh fails gateways => exact h.refresh fails gateways
  | adopt fails sess => exact h.adopt clean

theorem runs {P : WgStep → Prop} {b : WgAgent} (run : CleanRuns decodeKey P a b)
    (h : Routed decodeKey a) : Routed decodeKey b :=
  run.invariant (fun _ _ _ h clean step => by
      cases step
      exact h.step clean.2)
    h

end Routed

/-! ## After an update -/

/-- The peers after an `update`. -/
structure Settled (decodeKey : String → Except String Key) (gateways : List Gateway) (a : WgAgent) : Prop where
  gateways_eq : a.gateways = gateways
  caches : ∀ g ∈ gateways, usableAccess g = true → ∀ key, decodeKey g.publicKey = .ok key → a.Caches g

theorem settled_refresh (decodeKey : String → Except String Key) (a : WgAgent) {gateways : List Gateway}
    (distinct : (gateways.map (·.id)).Nodup) :
    Settled decodeKey gateways (a.refresh decodeKey (fun _ => false) gateways) := by
  refine ⟨(a.refresh_frame decodeKey _ gateways).2, fun g hg usable key hkey => ?_⟩
  obtain ⟨i, hi, rfl⟩ := List.getElem_of_mem hg
  have hmem : (gateways[i], i) ∈ gateways.zipIdx := by
    rw [List.mem_zipIdx_iff_getElem?]
    simp
  refine WgAgent.caches_foldl ?_ (fun _ _ => rfl) hmem usable hkey
  have hmap : gateways.zipIdx.map (·.1.id) = gateways.map (·.id) := by
    rw [show (fun gi : Gateway × ℕ => gi.1.id) = (·.id) ∘ Prod.fst from rfl, ← List.map_map, List.zipIdx_map_fst]
  rwa [hmap]

theorem Settled.adopt {gateways : List Gateway} (distinct : (gateways.map (·.id)).Nodup) {a : WgAgent}
    (h : Settled decodeKey gateways a) (fails : Bool) (sess : Session) :
    Settled decodeKey gateways (a.adopt decodeKey fails sess) := by
  rcases WgAgent.adopt_cases decodeKey a fails sess with heq |
    ⟨-, agent, -, ⟨-, heq⟩ | ⟨g', key', wg, hfind, -, -, heq⟩⟩
  · rwa [heq]
  · rw [heq]
    exact ⟨h.gateways_eq, h.caches⟩
  · rw [heq]
    refine ⟨h.gateways_eq, fun g hg usable key hkey => ?_⟩
    by_cases hid : g.id = sess.access
    · -- the gateway that was configured is the one of that name
      rw [h.gateways_eq, ← hid, findGateway_self distinct hg] at hfind
      cases hfind
      exact ⟨_, by rw [hid]; simp, rfl⟩
    · obtain ⟨old, hold, hsame⟩ := h.caches g hg usable key hkey
      exact ⟨old, by rwa [AList.lookup_insert_ne hid], hsame⟩

/-- After an update without failures, that is, a refresh and the adoption of the session of its state
with adoptions of others in between, the access gateway of the session holds the default route, if it
is one of the state with the access role and a valid key, and all steps so far were clean. -/
theorem default_route_follows {agent : ClientAgent} {a b : WgAgent}
    (before : CleanRuns decodeKey (fun _ => True) (.start agent) a) {gateways : List Gateway}
    (distinct : (gateways.map (·.id)).Nodup)
    (between : CleanRuns decodeKey WgStep.IsAdopt (a.refresh decodeKey (fun _ => false) gateways) b)
    {sess : Session} (clean : (WgStep.adopt false sess).Clean decodeKey b) {g : Gateway} (hg : g ∈ gateways)
    (access : (b.adopt decodeKey false sess).session.access = g.id) (role : g.roles.has roleAccess = true)
    {key : Key} (hkey : decodeKey g.publicKey = .ok key) :
    (b.adopt decodeKey false sess).wg.holder .all = some key := by
  have hfollows : Routed decodeKey b :=
    Routed.runs between ((Routed.runs before (Routed.start decodeKey agent)).refresh _ gateways)
  have hsettled : Settled decodeKey gateways b := by
    refine between.invariant (I := Settled decodeKey gateways) ?_ (settled_refresh decodeKey a distinct)
    intro a e a' h clean step
    cases step
    cases e with
    | refresh fails gateways => exact absurd clean.1 False.elim
    | adopt fails sess => exact h.adopt distinct fails sess
  obtain ⟨old, hold, hsame⟩ := (hsettled.adopt distinct false sess).caches g hg role key hkey
  rw [← access] at hold
  rw [← hsame] at hkey
  exact hfollows.adopt clean old key hold hkey

namespace Trial

def sgEntrance : Gateway :=
  { id := "sg", roles := roleAccess, endpoint := "192.0.2.1:51820",
    publicKey := "AAAAAAAAAAAAAAAAAAAAAAAAAAAAAAAAAAAAAAAAAAE="
    nodeIP := .v4 0x0ac80002 }

def hkEntrance : Gateway :=
  { id := "hk", roles := roleAccess, endpoint := "192.0.2.2:51820",
    publicKey := "AAAAAAAAAAAAAAAAAAAAAAAAAAAAAAAAAAAAAAAAAAI="
    nodeIP := .v4 0x0ac80003 }

def entrances : List Gateway := [sgEntrance, hkEntrance]

def through (access : String) (epoch : UInt64) : Session :=
  { id := "7", virtualIP := .v4 0x0ac90003, access, egress := "us", epoch }

def wgClient : ClientAgent := ⟨through "sg" 1, some (newSessionBind 7 1)⟩

def moving (fails : Bool) : List WgStep :=
  [.refresh (fun _ => false) entrances, .adopt false (through "sg" 1), .adopt fails (through "hk" 2)]

end Trial

open Trial

theorem default_route_follows_moved :
    let a := (moving false).foldl (WgAgent.step decodeBase64) (.start wgClient)
    let b := a.refresh decodeBase64 (fun _ => false) entrances
    (b.adopt decodeBase64 false (through "hk" 2)).wg.holder .all = some 2#256 := by
  intro a b
  have distinct : (entrances.map (·.id)).Nodup := by decide
  have before : CleanRuns decodeBase64 (fun _ => True) (.start wgClient) a := by
    have first : CleanRuns decodeBase64 (fun _ => True) (.start wgClient) _ :=
      Conc.Runs.refl.tail (e := .refresh (fun _ => false) entrances) ⟨trivial, distinct⟩ rfl
    have second := first.tail (e := .adopt false (through "sg" 1))
      ⟨trivial, fun hepoch => absurd hepoch (by decide)⟩ rfl
    exact second.tail (e := .adopt false (through "hk" 2))
      ⟨trivial, fun _ _ => Or.inl ⟨hkEntrance, _, by decide, rfl, rfl⟩⟩ rfl
  have clean : (WgStep.adopt false (through "hk" 2)).Clean decodeBase64 b := fun hepoch => absurd hepoch (by decide)
  exact default_route_follows before distinct Conc.Runs.refl clean (g := hkEntrance)
    (by decide) (by decide) (by decide) rfl

/-- `hk` could not get the default route when the session moved there, and the next update, which has no
failures, leaves it with `sg`. -/
theorem route_left_behind :
    let a := (moving true).foldl (WgAgent.step decodeBase64) (.start wgClient)
    let b := (a.refresh decodeBase64 (fun _ => false) entrances).adopt decodeBase64 false (through "hk" 2)
    b.session.access = "hk" ∧ b.wg.holder .all = some 1#256 ∧
      ¬ ∀ g ∈ entrances, b.session.access = g.id → g.roles.has roleAccess = true →
        ∀ key, decodeBase64 g.publicKey = .ok key → b.wg.holder .all = some key := by
  intro a b
  have hholder : b.wg.holder .all = some 1#256 := by decide
  refine ⟨by decide, hholder, fun h => ?_⟩
  have hwrong := h hkEntrance (by decide) (by decide) (by decide) 2#256 rfl
  exact absurd (hholder.symm.trans hwrong) (by decide)

end Egressa
