import Egressa.Controller.Basic
import Egressa.Maps

/-!
# The plan of a gateway

`MakePlan` (`internal/gateway/plan.go`) computes the configuration one gateway should have from the state the
controller reports.  The maps of a plan list their entries; in which order a loop meets them is left open in
`Gateway/Host.lean`.
-/

namespace Egressa

open Maps

/-- The desired tunnel to one other gateway.  `endpoint` is empty until the peer has reported its
port. -/
structure Backbone where
  publicKey : String
  endpoint : String
  nodeIP : Addr
  deriving DecidableEq, Repr, Inhabited

/-- What an access gateway sets up for an IPsec client. -/
structure IPsecClient where
  virtualIP : Addr
  psk : String
  deriving DecidableEq, Repr, Inhabited

structure SessionPath where
  virtualIP : Addr
  access : String
  egress : String
  epoch : UInt64
  deriving DecidableEq, Repr, Inhabited

/-- The configuration a gateway should have.  `ret` is the source's `Return`; `ipsecHere`, a map that only holds
`true`, is a set. -/
structure Plan where
  peers : Map String Addr := ∅
  backbones : Map String Backbone := ∅
  forward : Map Addr String := ∅
  ret : Map Addr String := ∅
  epochs : Map String UInt64 := ∅
  accessSessions : ℕ := 0
  egressSessions : ℕ := 0
  sessions : Map String SessionPath := ∅
  ipsec : Map String IPsecClient := ∅
  ipsecHere : Map Addr Unit := ∅

section MakePlan

-- `g.Host` and `netip.AddrPortFrom(host, port).String()`: none if the endpoint does not parse.
variable (addrPort : String → UInt16 → Option String)

/-- The WireGuard link to another gateway. -/
def backboneTo (me : String) (g : Gateway) : Backbone where
  publicKey := g.publicKey
  nodeIP := g.nodeIP
  endpoint := match g.backbonePorts.lookup me with
    | some port => (addrPort g.endpoint port).getD ""
    | none => ""

def backboneEntry (me : String) (g : Gateway) : Option (String × Backbone) :=
  if g.id = me then none else some (g.id, backboneTo addrPort me g)

def GatewayState.knows (st : GatewayState) (id : String) : Bool := st.gateways.any (·.id == id)

/-- The client peer of a session. -/
def peerEntry (isAccess : Bool) (s : Session) : Option (String × Addr) :=
  if isAccess && s.backend != backendIPsec then some (s.publicKey, s.virtualIP) else none

/-- The IPsec connection of a session. -/
def ipsecEntry (isAccess : Bool) (s : Session) : Option (String × IPsecClient) :=
  if isAccess && s.backend == backendIPsec then some (s.id, ⟨s.virtualIP, s.ipsecPSK⟩) else none

/-- The route of an IPsec client that is connected here. -/
def ipsecHereEntry (me : String) (isAccess : Bool) (s : Session) : Option (Addr × Unit) :=
  if isAccess && s.backend == backendIPsec && s.access == me then some (s.virtualIP, ()) else none

/-- The rule that sends a session to its egress. -/
def forwardEntry (me : String) (isAccess : Bool) (known : String → Bool) (s : Session) : Option (Addr × String) :=
  if isAccess && s.egress != me && known s.egress then some (s.virtualIP, s.egress) else none

/-- The route that sends a session back to its access gateway. -/
def returnEntry (me : String) (isEgress : Bool) (known : String → Bool) (s : Session) : Option (Addr × String) :=
  if isEgress && s.egress == me && s.access != me && known s.access then
    some (s.virtualIP, s.access)
  else none

/-- What one session adds to the plan. -/
def planSession (me : String) (isAccess isEgress : Bool) (known : String → Bool) (p : Plan) (s : Session) : Plan :=
  { p with
    epochs := p.epochs.insert s.id s.epoch
    sessions := p.sessions.insert s.id ⟨s.virtualIP, s.access, s.egress, s.epoch⟩
    accessSessions := p.accessSessions + if isAccess && s.access == me then 1 else 0
    egressSessions := p.egressSessions + if isEgress && s.egress == me then 1 else 0
    ipsec := put (ipsecEntry isAccess) p.ipsec s
    ipsecHere := put (ipsecHereEntry me isAccess) p.ipsecHere s
    peers := put (peerEntry isAccess) p.peers s
    forward := put (forwardEntry me isAccess known) p.forward s
    ret := put (returnEntry me isEgress known) p.ret s }

def makePlan (me : String) (roles : Roles) (st : GatewayState) : Plan :=
  st.sessions.foldl (planSession me (roles.has roleAccess) (roles.has roleEgress) st.knows)
    { backbones := collect (backboneEntry addrPort me) st.gateways }

def Plan.backboneIDs (p : Plan) : List String := sortByID id p.backbones.keys

/-! ## The maps of a plan, one by one -/

variable (me : String) (roles : Roles) (st : GatewayState)

theorem makePlan_backbones :
    (makePlan addrPort me roles st).backbones = collect (backboneEntry addrPort me) st.gateways := by
  unfold makePlan
  generalize collect (backboneEntry addrPort me) st.gateways = b
  exact List.foldlRecOn (motive := fun p : Plan => p.backbones = b) _ _ rfl fun _ hp _ _ => hp

theorem makePlan_field {α β : Type} [DecidableEq α] (field : Plan → Map α β) (entry : Session → Option (α × β))
    (step : ∀ p s, field (planSession me (roles.has roleAccess) (roles.has roleEgress) st.knows p s) =
      put entry (field p) s)
    (start : field { backbones := collect (backboneEntry addrPort me) st.gateways } = ∅) :
    field (makePlan addrPort me roles st) = collect entry st.sessions := by
  unfold makePlan collect
  rw [← start]
  exact (List.foldl_hom field fun p s => (step p s).symm).symm

theorem makePlan_peers :
    (makePlan addrPort me roles st).peers = collect (peerEntry (roles.has roleAccess)) st.sessions :=
  makePlan_field addrPort me roles st Plan.peers _ (fun _ _ => rfl) rfl

theorem makePlan_ipsec :
    (makePlan addrPort me roles st).ipsec = collect (ipsecEntry (roles.has roleAccess)) st.sessions :=
  makePlan_field addrPort me roles st Plan.ipsec _ (fun _ _ => rfl) rfl

theorem makePlan_ipsecHere : (makePlan addrPort me roles st).ipsecHere =
      collect (ipsecHereEntry me (roles.has roleAccess)) st.sessions :=
  makePlan_field addrPort me roles st Plan.ipsecHere _ (fun _ _ => rfl) rfl

theorem makePlan_forward : (makePlan addrPort me roles st).forward =
      collect (forwardEntry me (roles.has roleAccess) st.knows) st.sessions :=
  makePlan_field addrPort me roles st Plan.forward _ (fun _ _ => rfl) rfl

theorem makePlan_ret : (makePlan addrPort me roles st).ret =
      collect (returnEntry me (roles.has roleEgress) st.knows) st.sessions :=
  makePlan_field addrPort me roles st Plan.ret _ (fun _ _ => rfl) rfl

end MakePlan

/-! ## What a session adds -/

variable {isAccess : Bool} {s : Session} {vip : Addr}

theorem peerEntry_eq_some {key : String} : peerEntry isAccess s = some (key, vip) ↔
      isAccess = true ∧ s.backend ≠ backendIPsec ∧ s.publicKey = key ∧ s.virtualIP = vip := by
  unfold peerEntry
  split_ifs with h <;> simp_all

theorem ipsecEntry_eq_some {id : String} {c : IPsecClient} : ipsecEntry isAccess s = some (id, c) ↔
      isAccess = true ∧ s.backend = backendIPsec ∧ s.id = id ∧ ⟨s.virtualIP, s.ipsecPSK⟩ = c := by
  unfold ipsecEntry
  split_ifs with h <;> simp_all

variable {me : String}

theorem ipsecHereEntry_eq_some {u : Unit} : ipsecHereEntry me isAccess s = some (vip, u) ↔
      isAccess = true ∧ s.backend = backendIPsec ∧ s.access = me ∧ s.virtualIP = vip := by
  unfold ipsecHereEntry
  split_ifs with h <;> simp_all

theorem forwardEntry_eq_some {known : String → Bool} {egress : String} :
    forwardEntry me isAccess known s = some (vip, egress) ↔
      isAccess = true ∧ s.egress ≠ me ∧ known s.egress = true ∧ s.virtualIP = vip ∧ s.egress = egress := by
  unfold forwardEntry
  split_ifs with h <;> simp_all

theorem returnEntry_eq_some {isEgress : Bool} {known : String → Bool} {access : String} :
    returnEntry me isEgress known s = some (vip, access) ↔
      isEgress = true ∧ s.egress = me ∧ s.access ≠ me ∧ known s.access = true ∧
        s.virtualIP = vip ∧ s.access = access := by
  unfold returnEntry
  split_ifs with h <;> simp_all

/-! ## States with distinct names -/

theorem distinctKeys_of_virtualIP {β : Type} {entry : Session → Option (Addr × β)}
    (under : ∀ s vip b, entry s = some (vip, b) → s.virtualIP = vip) {sessions : List Session}
    (nodup : (sessions.map Session.virtualIP).Nodup) : DistinctKeys entry sessions := by
  refine (List.pairwise_map.1 nodup).imp fun hne vip b b' hs ht => hne ?_
  rw [under _ _ _ hs, under _ _ _ ht]

theorem session_eq_of_virtualIP {sessions : List Session}
    (nodup : (sessions.map Session.virtualIP).Nodup) {s t : Session} (hs : s ∈ sessions)
    (ht : t ∈ sessions) (h : s.virtualIP = t.virtualIP) : s = t :=
  List.inj_on_of_nodup_map nodup hs ht h

section VirtualIPs

variable {addrPort : String → UInt16 → Option String} {me : String} {roles : Roles}
  {st : GatewayState} (nodup : (st.sessions.map Session.virtualIP).Nodup)
include nodup

theorem lookup_makePlan_forward {vip : Addr} {egress : String} :
    (makePlan addrPort me roles st).forward.lookup vip = some egress ↔
      ∃ s ∈ st.sessions, roles.has roleAccess = true ∧ s.egress ≠ me ∧ st.knows s.egress = true ∧
        s.virtualIP = vip ∧ s.egress = egress := by
  rw [makePlan_forward, lookup_collect (distinctKeys_of_virtualIP
    (fun s vip b h => (forwardEntry_eq_some.1 h).2.2.2.1) nodup)]
  simp only [forwardEntry_eq_some]

theorem lookup_makePlan_ret {vip : Addr} {access : String} :
    (makePlan addrPort me roles st).ret.lookup vip = some access ↔
      ∃ s ∈ st.sessions, roles.has roleEgress = true ∧ s.egress = me ∧ s.access ≠ me ∧
        st.knows s.access = true ∧ s.virtualIP = vip ∧ s.access = access := by
  rw [makePlan_ret, lookup_collect (distinctKeys_of_virtualIP
    (fun s vip b h => (returnEntry_eq_some.1 h).2.2.2.2.1) nodup)]
  simp only [returnEntry_eq_some]

theorem mem_makePlan_ipsecHere {vip : Addr} : vip ∈ (makePlan addrPort me roles st).ipsecHere ↔
      ∃ s ∈ st.sessions, roles.has roleAccess = true ∧ s.backend = backendIPsec ∧ s.access = me ∧
        s.virtualIP = vip := by
  have keys : DistinctKeys (ipsecHereEntry me (roles.has roleAccess)) st.sessions :=
    distinctKeys_of_virtualIP (fun s vip b h => (ipsecHereEntry_eq_some.1 h).2.2.2) nodup
  rw [makePlan_ipsecHere, ← AList.lookup_isSome, Option.isSome_iff_exists]
  simp only [lookup_collect keys, ipsecHereEntry_eq_some, exists_const]

end VirtualIPs

/-! ## One path per session -/

/-- No two gateways share an ID, and no two sessions an ID, a virtual IP or a public key. -/
structure GatewayState.Distinct (st : GatewayState) : Prop where
  gateways : (st.gateways.map Gateway.id).Nodup
  sessions : (st.sessions.map Session.id).Nodup
  virtualIPs : (st.sessions.map Session.virtualIP).Nodup
  publicKeys : (st.sessions.map Session.publicKey).Nodup

/-- The plan of a gateway of `st`, made with its registered roles. -/
def planOf (addrPort : String → UInt16 → Option String) (st : GatewayState) (g : Gateway) : Plan :=
  makePlan addrPort g.id g.roles st

/-- A session moves. -/
def GatewayState.move (st : GatewayState) (id access : String) (epoch : UInt64) : GatewayState :=
  { st with sessions := st.sessions.map fun s => if s.id = id then { s with access, epoch } else s }

/-- The plans of the gateways carry session `s` from access gateway `a` to egress gateway `e`. -/
structure Carried (plan : Gateway → Plan) (gateways : List Gateway) (s : Session) (a e : Gateway) : Prop where
  /-- Every access gateway but the egress itself forwards over its backbone to the egress. -/
  forward : ∀ x ∈ gateways, x.roles.has roleAccess = true → x.id ≠ e.id →
    (plan x).forward.lookup s.virtualIP = some e.id ∧ e.id ∈ (plan x).backbones
  egress : (plan e).forward.lookup s.virtualIP = none
  /-- The egress returns over its backbone to the access. -/
  ret : a.id ≠ e.id → (plan e).ret.lookup s.virtualIP = some a.id ∧ a.id ∈ (plan e).backbones
  /-- Nobody else returns anything, and nobody at all if the two are one. -/
  noRet : ∀ x ∈ gateways, x.id ≠ e.id ∨ a.id = e.id → (plan x).ret.lookup s.virtualIP = none
  wireGuard : s.backend ≠ backendIPsec → ∀ x ∈ gateways, x.roles.has roleAccess = true →
    (plan x).peers.lookup s.publicKey = some s.virtualIP ∧ (plan x).ipsec.lookup s.id = none
  ipsec : s.backend = backendIPsec → ∀ x ∈ gateways, x.roles.has roleAccess = true →
    (plan x).ipsec.lookup s.id = some ⟨s.virtualIP, s.ipsecPSK⟩ ∧ (plan x).peers.lookup s.publicKey = none
  ipsecHere : ∀ x ∈ gateways, s.virtualIP ∈ (plan x).ipsecHere ↔ s.backend = backendIPsec ∧ x.id = a.id

section Path

variable {addrPort : String → UInt16 → Option String} {st : GatewayState} {s : Session} {a e x : Gateway}

theorem knows_of_mem (h : a ∈ st.gateways) : st.knows a.id = true := List.any_eq_true.2 ⟨a, h, beq_self_eq_true _⟩

section

variable (distinct : st.Distinct)
include distinct

theorem mem_backbones (hx : e ∈ st.gateways) (hne : e.id ≠ x.id) :
    (planOf addrPort st x).backbones.lookup e.id = some (backboneTo addrPort x.id e) := by
  have keys : DistinctKeys (backboneEntry addrPort x.id) st.gateways := by
    refine (List.pairwise_map.1 distinct.gateways).imp fun {g g'} hne id b b' hg hg' => hne ?_
    unfold backboneEntry at hg hg'
    split_ifs at hg hg'
    simp_all
  rw [planOf, makePlan_backbones, lookup_collect keys]
  exact ⟨e, hx, by simp [backboneEntry, hne]⟩

section

variable (hs : s ∈ st.sessions)
include hs

theorem forward_eq_some (he : e ∈ st.gateways)
    (egress : s.egress = e.id) (role : x.roles.has roleAccess = true) (hne : x.id ≠ e.id) :
    (planOf addrPort st x).forward.lookup s.virtualIP = some e.id := by
  apply (lookup_makePlan_forward distinct.virtualIPs).2
  refine ⟨s, hs, role, ?_, ?_, rfl, egress⟩
  · rw [egress]
    exact hne.symm
  · rw [egress]
    exact knows_of_mem he

theorem forward_eq_none (egress : s.egress = e.id) : (planOf addrPort st e).forward.lookup s.virtualIP = none := by
  rw [Option.eq_none_iff_forall_not_mem]
  intro id hid
  obtain ⟨t, ht, -, hne, -, hvip, -⟩ := (lookup_makePlan_forward distinct.virtualIPs).1 hid
  obtain rfl := session_eq_of_virtualIP distinct.virtualIPs ht hs hvip
  exact hne egress

theorem ret_eq_some (ha : a ∈ st.gateways)
    (access : s.access = a.id) (egress : s.egress = e.id) (role : e.roles.has roleEgress = true)
    (hne : a.id ≠ e.id) : (planOf addrPort st e).ret.lookup s.virtualIP = some a.id := by
  apply (lookup_makePlan_ret distinct.virtualIPs).2
  refine ⟨s, hs, role, egress, ?_, ?_, rfl, access⟩
  · rwa [access]
  · rw [access]
    exact knows_of_mem ha

theorem ret_eq_none (access : s.access = a.id) (egress : s.egress = e.id) (h : x.id ≠ e.id ∨ a.id = e.id) :
    (planOf addrPort st x).ret.lookup s.virtualIP = none := by
  rw [Option.eq_none_iff_forall_not_mem]
  intro id hid
  obtain ⟨t, ht, -, hegress, haccess, -, hvip, -⟩ := (lookup_makePlan_ret distinct.virtualIPs).1 hid
  obtain rfl := session_eq_of_virtualIP distinct.virtualIPs ht hs hvip
  rw [egress] at hegress
  rw [access] at haccess
  rcases h with h | h
  · exact h hegress.symm
  · exact haccess (h.trans hegress)

theorem lookup_peers (role : x.roles.has roleAccess = true) : (planOf addrPort st x).peers.lookup s.publicKey =
      if s.backend = backendIPsec then none else some s.virtualIP := by
  have keys : DistinctKeys (peerEntry (x.roles.has roleAccess)) st.sessions := by
    refine (List.pairwise_map.1 distinct.publicKeys).imp fun hne key vip vip' hs ht => hne ?_
    rw [(peerEntry_eq_some.1 hs).2.2.1, (peerEntry_eq_some.1 ht).2.2.1]
  rw [planOf, makePlan_peers]
  split_ifs with hb
  · apply lookup_collect_eq_none
    intro t ht vip hentry
    obtain ⟨-, hback, hkey, -⟩ := peerEntry_eq_some.1 hentry
    obtain rfl := List.inj_on_of_nodup_map distinct.publicKeys ht hs hkey
    exact hback hb
  · exact (lookup_collect keys).2 ⟨s, hs, peerEntry_eq_some.2 ⟨role, hb, rfl, rfl⟩⟩

theorem lookup_ipsec (role : x.roles.has roleAccess = true) : (planOf addrPort st x).ipsec.lookup s.id =
      if s.backend = backendIPsec then some ⟨s.virtualIP, s.ipsecPSK⟩ else none := by
  have keys : DistinctKeys (ipsecEntry (x.roles.has roleAccess)) st.sessions := by
    refine (List.pairwise_map.1 distinct.sessions).imp fun hne id c c' hs ht => hne ?_
    rw [(ipsecEntry_eq_some.1 hs).2.2.1, (ipsecEntry_eq_some.1 ht).2.2.1]
  rw [planOf, makePlan_ipsec]
  split_ifs with hb
  · exact (lookup_collect keys).2 ⟨s, hs, ipsecEntry_eq_some.2 ⟨role, hb, rfl, rfl⟩⟩
  · apply lookup_collect_eq_none
    intro t ht c hentry
    obtain ⟨-, hback, hid, -⟩ := ipsecEntry_eq_some.1 hentry
    obtain rfl := List.inj_on_of_nodup_map distinct.sessions ht hs hid
    exact hb hback

theorem mem_ipsecHere (ha : a ∈ st.gateways)
    (hx : x ∈ st.gateways) (access : s.access = a.id) (role : a.roles.has roleAccess = true) :
    s.virtualIP ∈ (planOf addrPort st x).ipsecHere ↔ s.backend = backendIPsec ∧ x.id = a.id := by
  constructor
  · intro hmem
    obtain ⟨t, ht, -, hback, hme, hvip⟩ := (mem_makePlan_ipsecHere distinct.virtualIPs).1 hmem
    obtain rfl := session_eq_of_virtualIP distinct.virtualIPs ht hs hvip
    exact ⟨hback, hme.symm.trans access⟩
  · rintro ⟨hback, hid⟩
    obtain rfl := List.inj_on_of_nodup_map distinct.gateways hx ha hid
    exact (mem_makePlan_ipsecHere distinct.virtualIPs).2 ⟨s, hs, role, hback, access, rfl⟩

end

end

theorem planOf_move (st : GatewayState) (id access : String) (epoch : UInt64) (x : Gateway) :
    (planOf addrPort (st.move id access epoch) x).forward = (planOf addrPort st x).forward ∧
      (planOf addrPort (st.move id access epoch) x).peers = (planOf addrPort st x).peers := by
  simp only [planOf, makePlan_forward, makePlan_peers]
  constructor
  · apply collect_map
    intro s _
    split_ifs <;> rfl
  · apply collect_map
    intro s _
    split_ifs <;> rfl

end Path

/-- The plans of all gateways compose into one path per session; moving a session to another access gateway changes no
gateway's forwarding or client peers. -/
theorem plans_compose (addrPort : String → UInt16 → Option String) (st : GatewayState)
    (distinct : st.Distinct) (s : Session) (hs : s ∈ st.sessions) (a e : Gateway)
    (ha : a ∈ st.gateways) (he : e ∈ st.gateways) (access : s.access = a.id)
    (egress : s.egress = e.id) (roleA : a.roles.has roleAccess = true)
    (roleE : e.roles.has roleEgress = true) :
    Carried (planOf addrPort st) st.gateways s a e ∧
      ∀ a' ∈ st.gateways, a'.roles.has roleAccess = true → ∀ epoch, ∀ x ∈ st.gateways,
        (planOf addrPort (st.move s.id a'.id epoch) x).forward = (planOf addrPort st x).forward ∧
        (planOf addrPort (st.move s.id a'.id epoch) x).peers = (planOf addrPort st x).peers := by
  refine ⟨?_, fun a' _ _ epoch x _ => planOf_move st s.id a'.id epoch x⟩
  exact {
    forward := fun x _ role hne =>
      ⟨forward_eq_some distinct hs he egress role hne, mem_of_lookup (mem_backbones distinct he hne.symm)⟩
    egress := forward_eq_none distinct hs egress
    ret := fun hne =>
      ⟨ret_eq_some distinct hs ha access egress roleE hne, mem_of_lookup (mem_backbones distinct ha hne)⟩
    noRet := fun x _ h => ret_eq_none distinct hs access egress h
    wireGuard := fun hb x _ role =>
      ⟨by rw [lookup_peers distinct hs role, if_neg hb], by rw [lookup_ipsec distinct hs role, if_neg hb]⟩
    ipsec := fun hb x _ role =>
      ⟨by rw [lookup_ipsec distinct hs role, if_pos hb], by rw [lookup_peers distinct hs role, if_pos hb]⟩
    ipsecHere := fun x hx => mem_ipsecHere distinct hs ha hx access roleA }

namespace Trial

def hk : Gateway :=
  { id := "hk", roles := roleAccess ||| roleEgress, publicKey := "AAAAAAAAAAAAAAAAAAAAAAAAAAAAAAAAAAAAAAAAAAQ=",
    nodeIP := .v4 0x0AC80002 }

def sg : Gateway :=
  { id := "sg", roles := roleAccess, publicKey := "AAAAAAAAAAAAAAAAAAAAAAAAAAAAAAAAAAAAAAAAAAU=",
    nodeIP := .v4 0x0AC80003 }

def detour : Session :=
  { id := "2", publicKey := "AAAAAAAAAAAAAAAAAAAAAAAAAAAAAAAAAAAAAAAAAAI=", virtualIP := .v4 0x0AC90003, access := "sg",
    egress := "hk" }

def planState (sessions : List Session) : GatewayState where
  version := 1
  network := ⟨⟨0x0AC90000, 16⟩, ⟨0x0AC80000, 24⟩, 7000⟩
  gateways := [hk, sg]
  sessions

theorem distinct_planState : (planState [detour]).Distinct where
  gateways := by decide
  sessions := by decide
  virtualIPs := by decide
  publicKeys := by decide

def overIPsec (key : String) (vip : BitVec 32) : Session :=
  { id := "1", publicKey := key, virtualIP := .v4 vip, access := "hk", egress := "hk",
    backend := backendIPsec, ipsecPSK := "psk" }

end Trial

open Trial

theorem plans_compose_detour : (planState [detour]).Distinct ∧
      Carried (planOf (fun _ _ => none) (planState [detour])) [hk, sg]
        detour sg hk :=
  ⟨distinct_planState, (plans_compose (fun _ _ => none) _ distinct_planState detour (by decide)
      sg hk (by decide) (by decide) rfl rfl (by decide) (by decide)).1⟩

/-- Two IPsec sessions of one ID: the access gateway serves the later one only. -/
theorem ipsec_client_replaced :
    let s := overIPsec "AAAAAAAAAAAAAAAAAAAAAAAAAAAAAAAAAAAAAAAAAAE=" 0x0AC90002
    let st := planState [s, overIPsec "AAAAAAAAAAAAAAAAAAAAAAAAAAAAAAAAAAAAAAAAAAI=" 0x0AC90003]
    (st.gateways.map Gateway.id).Nodup ∧ (st.sessions.map Session.virtualIP).Nodup ∧
      (st.sessions.map Session.publicKey).Nodup ∧ s.access = hk.id ∧
      s.egress = hk.id ∧ hk.roles.has roleAccess = true ∧
      hk.roles.has roleEgress = true ∧
      (planOf (fun _ _ => none) st hk).ipsec.lookup s.id ≠ some ⟨s.virtualIP, s.ipsecPSK⟩ ∧
      (planOf (fun _ _ => none) st hk).peers.lookup s.publicKey = none := by
  decide

end Egressa
