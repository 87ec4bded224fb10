import Egressa.Gateway.Links

/-!
# Reconciliation

`apply` keeps what the agent remembers in step with the host (`Synced`) as long as no removal fails, and when nothing
at all fails, what it remembers afterwards is the plan (`Matches`).  So the host holds the last plan exactly, or, if
additions failed before, after the first call without failures.
-/

namespace Egressa

open Tunnel Maps Run

/-! ## Commands that do not concern a part of the host -/

theorem wg_exec {c : HostCmd} (hc : ¬ c.OnClients) (h : Host) : (h.exec c).wg .egc0 = h.wg .egc0 := by
  cases c with
  | addPeer dev _ _ _ _ => exact Function.update_of_ne (fun heq => hc heq.symm) _ _
  | removePeer dev _ => exact Function.update_of_ne (fun heq => hc heq.symm) _ _
  | newReal n => simp [Host.exec]
  | close n => simp [Host.exec]
  | _ => rfl

/-- What a plan must be like for `apply` to install it as it is. -/
structure Coherent (cfg : GatewayConfig) (mine : Set Addr) (p : Plan) : Prop where
  peers : DistinctPeers cfg p.peers
  forward : ∀ vip egress, p.forward.lookup vip = some egress → egress ≠ "" ∧ egress ∈ p.backbones
  ret : ∀ vip access, p.ret.lookup vip = some access → access ≠ "" ∧ access ∈ p.backbones
  nodes : ∀ id b, p.backbones.lookup id = some b → b.nodeIP ∉ mine
  apart : ∀ vip ∈ p.ipsecHere, vip ∉ p.ret
  ipsec : DistinctVIPs p.ipsec

/-- The host is as the agent remembers it. -/
structure Synced (cfg : GatewayConfig) (mine : Set Addr) (a : HostAgent) (h : Host) : Prop where
  linked : Linked mine a.forward a.ret a.ipsecHere a.indices a.backbones h
  peers : PeersSynced cfg a.peers (h.wg .egc0)
  opened : ∀ vip access, a.ret.lookup vip = some access → access ∈ a.backbones
  off : cfg.ipsecOn = false → a.ipsecHere = ∅

/-- As `Synced`, in the course of an `apply`. -/
structure Syncing (cfg : GatewayConfig) (mine : Set Addr) (p : Plan) (a : HostAgent) (h : Host) : Prop where
  linked : Linked mine a.forward a.ret a.ipsecHere a.indices a.backbones h
  peers : PeersSynced cfg a.peers (h.wg .egc0)
  opened : ∀ vip access, a.ret.lookup vip = some access → access ∈ p.backbones → access ∈ a.backbones
  off : cfg.ipsecOn = false → a.ipsecHere = ∅

theorem mem_backboneIDs {p : Plan} {id : String} : id ∈ p.backboneIDs ↔ id ∈ p.backbones := by
  rw [Plan.backboneIDs, sortByID, (List.perm_insertionSort _ _).mem_iff, AList.mem_keys]

def HostCmd.Aside (c : HostCmd) : Prop := c.OnClients ∨ c.OnIPsec

variable {mine : Set Addr}

theorem Linked.aside {forward ret : Map Addr String} {here : Map Addr Unit}
    {ix : Indices} {bs : Map String Wire} {h : Host} (hl : Linked mine forward ret here ix bs h)
    {c : HostCmd} (hc : c.Aside) : Linked mine forward ret here ix bs (h.exec c) := by
  have main : mainTable ≠ probeTable := by decide
  cases c with
  | replaceRoute a dev t | delRoute a dev t =>
    obtain rfl : t = probeTable := hc.resolve_left id
    refine hl.of_frame (fun _ _ _ => rfl) rfl fun vip _ => ?_
    rw [Host.exec, Host.route_setRoute, if_neg fun heq => main heq.1]
  | newReal | addrUp | close | flushTable | blackhole | replaceDefault | addRule | delRule =>
    exact False.elim (hc.elim id id)
  | _ => exact hl.of_frame (fun _ _ _ => rfl) rfl fun _ _ => rfl

theorem Linked.onMain {forward ret ret' : Map Addr String}
    {here here' : Map Addr Unit} {ix : Indices} {bs : Map String Wire} {r r' : Run}
    (hl : Linked mine forward ret here ix bs r.host) (issued : Issues HostCmd.OnMain r r')
    (routes : RoutesSynced mine bs ret' here' r'.host) :
    Linked mine forward ret' here' ix bs r'.host := by
  have default := issued.frame Host.default fun c hc h => by
    cases c <;> first | rfl | exact False.elim hc
  have rules := issued.frame Host.rules fun c hc h => by
    cases c <;> first | rfl | exact False.elim hc
  refine ⟨⟨hl.wired.bound, hl.wired.inj, ?_⟩, ⟨hl.rules.indexed, ?_⟩, routes⟩
  · rw [default]
    exact hl.wired.wire
  · rw [rules]
    exact hl.rules.rule

/-! ## The phases -/

section Phases

variable {cfg : GatewayConfig} {f : HostFate} {mine : Set Addr} {p : Plan} {a : HostAgent} {r : Run}

theorem PeersSynced.aside {peers : Map String Addr} {C : HostCmd → Prop} {r' : Run}
    (hs : PeersSynced cfg peers (r.host.wg .egc0)) (issued : Issues C r r') (aside : ∀ c, C c → ¬ c.OnClients) :
    PeersSynced cfg peers (r'.host.wg .egc0) := by
  rwa [issued.frame (fun h => h.wg .egc0) fun c hc => wg_exec (aside c hc)]

theorem HostCmd.not_onClients_of_onMain (c : HostCmd) (hc : c.OnMain) : ¬ c.OnClients := by
  cases c <;> simp_all [HostCmd.OnMain, HostCmd.OnClients]

theorem HostCmd.not_onClients_of_onIPsec (c : HostCmd) (hc : c.OnIPsec) : ¬ c.OnClients := by
  cases c <;> simp_all [HostCmd.OnIPsec, HostCmd.OnClients]

theorem Synced.applyBackbones (hs : Synced cfg mine a r.host) (hp : Coherent cfg mine p) :
    let s := Egressa.applyBackbones cfg f p a r
    Syncing cfg mine p s.1 s.2.host ∧ (f.Steady → ∀ id ∈ p.backbones, id ∈ s.1.backbones) := by
  obtain ⟨closed, kept⟩ := Linked.closeBackbones f p.backbones (s := (a.backbones, r)) hs.linked
  have opened : ∀ vip access, a.ret.lookup vip = some access → access ∈ p.backbones →
      access ∈ (closeBackbones f p.backbones (a.backbones, r)).1 := by
    intro vip access hret hmem
    obtain ⟨b, hb⟩ := lookup_of_mem (hs.opened vip access hret)
    exact mem_of_lookup ((kept access b).2 ⟨hb, hmem⟩)
  obtain ⟨linked, mono, steady⟩ := Linked.applyBackbones cfg f hp.nodes (fun id hid => mem_backboneIDs.1 hid)
    (s := ⟨a.indices, (closeBackbones f p.backbones (a.backbones, r)).1,
      (closeBackbones f p.backbones (a.backbones, r)).2⟩) closed opened
  refine ⟨⟨linked, hs.peers.aside (applyBackbones_issues cfg f p a r) fun c hc => ?_, fun vip access hret hmem =>
    mono _ (opened vip access hret hmem), hs.off⟩, fun hf id hid => steady hf id (mem_backboneIDs.2 hid)⟩
  cases c <;> simp_all [HostCmd.OnBackbones, HostCmd.OnClients]

section

variable (hs : Syncing cfg mine p a r.host)
include hs

theorem Syncing.applyPeers (hf : f.Tidy) (hp : Coherent cfg mine p) :
    let s := Egressa.applyPeers cfg f p a r
    Syncing cfg mine p s.1 s.2.host ∧ Sub s.1.peers p.peers ∧
      (f.Steady → ∀ key vip k, p.peers.lookup key = some vip → cfg.decodeKey key = .ok k →
        s.1.peers.lookup key = some vip) := by
  obtain ⟨dropped, kept⟩ := PeersSynced.drop hf p.peers (s := (a.peers, r)) hs.peers
  obtain ⟨filled, sub, all⟩ := PeersSynced.fill (f := f) hp.peers (fun key vip hl => ((kept key vip).1 hl).2) dropped
  have linked := (applyPeers_issues cfg f p a r).keeps
    (I := Linked mine a.forward a.ret a.ipsecHere a.indices a.backbones)
    (fun c hc h hl => hl.aside (Or.inl hc)) hs.linked
  exact ⟨⟨linked, filled, hs.opened, hs.off⟩, sub, all⟩

theorem Syncing.applyForward (hf : f.Tidy) (hp : Coherent cfg mine p) :
    let s := Egressa.applyForward f p a r
    Syncing cfg mine p s.1 s.2.host ∧ Sub s.1.forward p.forward ∧
      (f.Steady → ∀ vip egress, p.forward.lookup vip = some egress → s.1.forward.lookup vip = some egress) := by
  obtain ⟨dropped, kept⟩ := RulesSynced.drop hf p.forward (s := (a.forward, r)) hs.linked.rules
  have linked : Linked mine (dropRules f a.indices p.forward (a.forward, r)).1 a.ret a.ipsecHere
      a.indices a.backbones (dropRules f a.indices p.forward (a.forward, r)).2.host := by
    have issued := dropRules_issues f a.indices p.forward (a.forward, r)
    have default := issued.frame Host.default fun c hc h => by
      cases c <;> first | rfl | exact False.elim hc
    have route := issued.frame Host.route fun c hc h => by
      cases c <;> first | rfl | exact False.elim hc
    refine ⟨⟨hs.linked.wired.bound, hs.linked.wired.inj, ?_⟩, dropped,
      ⟨hs.linked.routes.named, hs.linked.routes.apart, ?_⟩⟩
    · rw [default]
      exact hs.linked.wired.wire
    · rw [route]
      exact hs.linked.routes.route
  obtain ⟨linked, sub, all⟩ := Linked.addRules hf
    (s := ⟨a.indices, (dropRules f a.indices p.forward (a.forward, r)).1,
      (dropRules f a.indices p.forward (a.forward, r)).2⟩)
    (fun vip egress hw => (hp.forward vip egress hw).1)
    (fun vip egress hl => ((kept vip egress).1 hl).2) linked
  refine ⟨⟨linked, hs.peers.aside (applyForward_issues f p a r) fun c hc => ?_, hs.opened, hs.off⟩, sub, all⟩
  cases c <;> simp_all [HostCmd.OnRules, HostCmd.OnClients]

theorem Syncing.removeIPsecLocked (hf : f.Tidy) (hon : cfg.ipsecOn = true) :
    let s := Egressa.removeIPsecLocked f p a r
    Syncing cfg mine p s.1 s.2.host ∧ ∀ vip ∈ s.1.ipsecHere, vip ∈ p.ipsecHere := by
  have conns := dropConns_issues f p.ipsec (a.ipsecConns, r)
  have linked := conns.keeps (I := Linked mine a.forward a.ret a.ipsecHere a.indices a.backbones)
    (fun c hc h hl => hl.aside (Or.inr hc)) hs.linked
  have peers := hs.peers.aside conns HostCmd.not_onClients_of_onIPsec
  generalize hr : (dropConns f p.ipsec (a.ipsecConns, r)).2 = r' at linked peers
  have heres := dropHeres_issues f p.ipsecHere (a.ipsecHere, r')
  obtain ⟨routes, sub⟩ := RoutesSynced.dropHeres hf p.ipsecHere (s := (a.ipsecHere, r')) linked.routes
  simp only [Egressa.removeIPsecLocked, hr]
  exact ⟨⟨linked.onMain heres routes, peers.aside heres HostCmd.not_onClients_of_onMain, hs.opened,
    fun hoff => by cases hon.symm.trans hoff⟩, sub⟩

theorem Syncing.applyReturn (hf : f.Tidy) (hp : Coherent cfg mine p) (here : ∀ vip ∈ a.ipsecHere, vip ∈ p.ipsecHere) :
    let s := Egressa.applyReturn f p a r
    Synced cfg mine s.1 s.2.host ∧ Sub s.1.ret p.ret ∧
      (f.Steady → ∀ vip access, p.ret.lookup vip = some access → access ∈ a.backbones →
        s.1.ret.lookup vip = some access) := by
  obtain ⟨dropped, kept⟩ := RoutesSynced.dropReturns hf p.ret (s := (a.ret, r)) hs.linked.routes
  obtain ⟨⟨routes, opened⟩, sub, all⟩ := RoutesSynced.addReturns (f := f)
    (fun vip access hw => (hp.ret vip access hw).1) (fun vip hmem => hp.apart vip (here vip hmem))
    (fun vip access hl => ((kept vip access).1 hl).2)
    (fun vip access hl => by
      obtain ⟨hret, hw⟩ := (kept vip access).1 hl
      exact hs.opened vip access hret (hp.ret vip access hw).2)
    dropped
  have issued := applyReturn_issues f p a r
  exact ⟨⟨hs.linked.onMain issued routes, hs.peers.aside issued HostCmd.not_onClients_of_onMain, opened, hs.off⟩,
    sub, all⟩

end

theorem Synced.addIPsecLocked (hs : Synced cfg mine a r.host) (hp : Coherent cfg mine p)
    (hon : cfg.ipsecOn = true) (here : ∀ vip ∈ a.ipsecHere, vip ∈ p.ipsecHere)
    (ret : Sub a.ret p.ret) :
    let s := Egressa.addIPsecLocked cfg f p a r
    Synced cfg mine s.1 s.2.host ∧ (∀ vip ∈ s.1.ipsecHere, vip ∈ p.ipsecHere) ∧
      (f.Steady → ∀ vip ∈ p.ipsecHere, vip ∈ s.1.ipsecHere) := by
  have conns := addConns_issues cfg f p.ipsec (a.ipsecConns, r)
  have linked := conns.keeps (I := Linked mine a.forward a.ret a.ipsecHere a.indices a.backbones)
    (fun c hc h hl => hl.aside (Or.inr hc)) hs.linked
  have peers := hs.peers.aside conns HostCmd.not_onClients_of_onIPsec
  generalize hr : (addConns cfg f p.ipsec (a.ipsecConns, r)).2 = r' at linked peers
  have heres := addHeres_issues f p.ipsecHere (a.ipsecHere, r')
  have apart : ∀ vip ∈ p.ipsecHere, vip ∉ a.ret := by
    intro vip hmem hret
    obtain ⟨access, hl⟩ := lookup_of_mem hret
    exact hp.apart vip hmem (mem_of_lookup (ret vip access hl))
  obtain ⟨routes, sub, all⟩ := RoutesSynced.addHeres (f := f) apart (s := (a.ipsecHere, r')) here linked.routes
  simp only [Egressa.addIPsecLocked, hr]
  exact ⟨⟨linked.onMain heres routes, peers.aside heres HostCmd.not_onClients_of_onMain, hs.opened,
    fun hoff => by cases hon.symm.trans hoff⟩, sub, all⟩

/-! ## One call -/

/-- What the agent remembers is what the plan says, but for returns. -/
structure MatchesPaths (cfg : GatewayConfig) (p : Plan) (a : HostAgent) : Prop where
  peers : ∀ key vip, a.peers.lookup key = some vip ↔ p.peers.lookup key = some vip ∧ ∃ k, cfg.decodeKey key = .ok k
  forward : ∀ vip egress, a.forward.lookup vip = some egress ↔ p.forward.lookup vip = some egress
  backbones : ∀ id ∈ p.backbones, id ∈ a.backbones

/-- What the agent remembers is what the plan says. -/
structure Matches (cfg : GatewayConfig) (p : Plan) (a : HostAgent) : Prop extends MatchesPaths cfg p a where
  ret : ∀ vip access, a.ret.lookup vip = some access ↔ p.ret.lookup vip = some access
  here : ∀ vip, vip ∈ a.ipsecHere ↔ cfg.ipsecOn = true ∧ vip ∈ p.ipsecHere

theorem Synced.paths (hs : Synced cfg mine a r.host) (hf : f.Tidy) (hp : Coherent cfg mine p) :
    let s := Egressa.applyBackbones cfg f p a r
    let s := Egressa.applyPeers cfg f p s.1 s.2
    let s := Egressa.applyForward f p (applyEpochs p s.1) s.2
    Syncing cfg mine p s.1 s.2.host ∧ (f.Steady → MatchesPaths cfg p s.1) := by
  obtain ⟨wired, backbones⟩ := hs.applyBackbones (f := f) hp
  dsimp only
  generalize Egressa.applyBackbones cfg f p a r = s at wired backbones ⊢
  obtain ⟨peered, sub, all⟩ := wired.applyPeers hf hp
  have backbones : f.Steady → ∀ id ∈ p.backbones, id ∈ (Egressa.applyPeers cfg f p s.1 s.2).1.backbones := backbones
  generalize Egressa.applyPeers cfg f p s.1 s.2 = s at peered sub all backbones ⊢
  have gated : Syncing cfg mine p (applyEpochs p s.1) s.2.host :=
    ⟨peered.linked, peered.peers, peered.opened, peered.off⟩
  obtain ⟨forwarded, subF, allF⟩ := gated.applyForward hf hp
  refine ⟨forwarded, fun hsteady => ⟨fun key vip => ⟨fun hl => ?_, ?_⟩, fun vip egress =>
    ⟨subF vip egress, allF hsteady vip egress⟩, backbones hsteady⟩⟩
  · exact ⟨sub key vip hl, peered.peers.decodes key (mem_of_lookup hl)⟩
  · rintro ⟨hw, k, hk⟩
    exact all hsteady key vip k hw hk

theorem Synced.apply (hs : Synced cfg mine a r.host) (hf : f.Tidy) (hp : Coherent cfg mine p) :
    let s := HostAgent.apply cfg f p a r
    Synced cfg mine s.1 s.2.host ∧ (f.Steady → Matches cfg p s.1) := by
  obtain ⟨syncing, paths⟩ := hs.paths hf hp
  unfold HostAgent.apply
  dsimp only at syncing paths ⊢
  generalize Egressa.applyForward f p (applyEpochs p (Egressa.applyPeers cfg f p
    (Egressa.applyBackbones cfg f p a r).1 (Egressa.applyBackbones cfg f p a r).2).1)
    (Egressa.applyPeers cfg f p (Egressa.applyBackbones cfg f p a r).1
      (Egressa.applyBackbones cfg f p a r).2).2 = s at syncing paths ⊢
  by_cases hon : cfg.ipsecOn = true
  · simp only [if_pos hon]
    obtain ⟨removed, here⟩ := syncing.removeIPsecLocked hf hon
    have paths : f.Steady → MatchesPaths cfg p (Egressa.removeIPsecLocked f p s.1 s.2).1 :=
      fun hsteady => ⟨(paths hsteady).peers, (paths hsteady).forward, (paths hsteady).backbones⟩
    generalize Egressa.removeIPsecLocked f p s.1 s.2 = s at removed here paths ⊢
    obtain ⟨returned, sub, all⟩ := removed.applyReturn hf hp here
    obtain ⟨added, subH, allH⟩ := returned.addIPsecLocked (f := f) hp hon here sub
    refine ⟨added, fun hsteady => ⟨⟨(paths hsteady).peers, (paths hsteady).forward,
      (paths hsteady).backbones⟩, fun vip access => ⟨sub vip access, fun hw =>
      all hsteady vip access hw ?_⟩, fun vip => ⟨fun hmem => ⟨hon, subH vip hmem⟩, fun hmem =>
      allH hsteady vip hmem.2⟩⟩⟩
    exact (paths hsteady).backbones access (hp.ret vip access hw).2
  · have hoff : cfg.ipsecOn = false := by simpa using hon
    simp only [if_neg hon]
    have here : ∀ vip, vip ∉ s.1.ipsecHere := by
      rw [syncing.off hoff]
      exact fun vip => AList.notMem_empty vip
    obtain ⟨returned, sub, all⟩ := syncing.applyReturn hf hp fun vip hmem => absurd hmem (here vip)
    refine ⟨returned, fun hsteady => ⟨⟨(paths hsteady).peers, (paths hsteady).forward,
      (paths hsteady).backbones⟩, fun vip access => ⟨sub vip access, fun hw =>
      all hsteady vip access hw ?_⟩, fun vip => ⟨fun hmem => absurd hmem (here vip), fun hmem =>
      absurd hmem.1 hon⟩⟩⟩
    exact (paths hsteady).backbones access (hp.ret vip access hw).2

/-! ## IPsec clients through one call -/

theorem IPsecSynced.elsewhere {me : String} {clients : Map String IPsecClient} {h : Host}
    (hs : IPsecSynced me clients h) {c : HostCmd}
    (hc : c.OnClients ∨ c.OnBackbones ∨ c.OnRules ∨ c.OnMain) :
    IPsecSynced me clients (h.exec c) := by
  have main : probeTable ≠ mainTable := by decide
  cases c with
  | close n =>
    refine ⟨hs.conns, hs.secrets, fun vip dev => ?_, hs.apart⟩
    rw [← hs.probe vip dev]
    -- no route of the probe table leads into a backbone
    have hne : h.route probeTable vip ≠ some (.egb n) := fun heq => by
      cases ((hs.probe vip _).1 heq).1
    exact Eq.congr (Host.without_of_ne hne) rfl
  | flushTable t =>
    have hne : probeTable ≠ t := by
      rcases hc with hc | hc | hc | hc
      · exact False.elim hc
      iterate 2 exact fun heq => absurd (heq ▸ hc : egressTableBase ≤ probeTable) (by decide)
      · exact False.elim hc
    refine ⟨hs.conns, hs.secrets, fun vip dev => ?_, hs.apart⟩
    simpa [Host.exec, Function.update_of_ne hne] using hs.probe vip dev
  | replaceRoute a dev t | delRoute a dev t =>
    obtain rfl : t = mainTable := by
      rcases hc with hc | hc | hc | hc <;> first | exact False.elim hc | exact hc
    refine ⟨hs.conns, hs.secrets, fun vip dev => ?_, hs.apart⟩
    rw [Host.exec, Host.route_setRoute, if_neg fun heq => main heq.1]
    exact hs.probe vip dev
  | loadShared | loadConn | terminateIKE | unloadConn | unloadShared =>
    rcases hc with hc | hc | hc | hc <;> exact False.elim hc
  | _ => exact ⟨hs.conns, hs.secrets, hs.probe, hs.apart⟩

theorem IPsecSynced.keeps {me : String} {clients : Map String IPsecClient} {C : HostCmd → Prop} {r r' : Run}
    (hs : IPsecSynced me clients r.host) (issues : Issues C r r')
    (hC : ∀ c, C c → c.OnClients ∨ c.OnBackbones ∨ c.OnRules ∨ c.OnMain) :
    IPsecSynced me clients r'.host :=
  issues.keeps (fun c hc _ hs => hs.elsewhere (hC c hc)) hs

theorem IPsecSynced.paths (hs : IPsecSynced cfg.id a.ipsecConns r.host) :
    let s₁ := Egressa.applyBackbones cfg f p a r
    let s₂ := Egressa.applyPeers cfg f p s₁.1 s₁.2
    let s₃ := Egressa.applyForward f p (applyEpochs p s₂.1) s₂.2
    IPsecSynced cfg.id s₃.1.ipsecConns s₃.2.host := by
  intro s₁ s₂ s₃
  have wired : IPsecSynced cfg.id s₁.1.ipsecConns s₁.2.host :=
    hs.keeps (applyBackbones_issues cfg f p a r) fun _ hc => .inr (.inl hc)
  have peered : IPsecSynced cfg.id s₂.1.ipsecConns s₂.2.host :=
    wired.keeps (applyPeers_issues cfg f p s₁.1 s₁.2) fun _ hc => .inl hc
  exact peered.keeps (applyForward_issues f p (applyEpochs p s₂.1) s₂.2) fun _ hc => .inr (.inr (.inl hc))

theorem IPsecSynced.apply (hs : IPsecSynced cfg.id a.ipsecConns r.host) (hf : f.Steady)
    (hon : cfg.ipsecOn = true) (hp : Coherent cfg mine p) :
    let s := HostAgent.apply cfg f p a r
    IPsecSynced cfg.id s.1.ipsecConns s.2.host ∧
      ∀ session c, s.1.ipsecConns.lookup session = some c ↔ p.ipsec.lookup session = some c := by
  have forwarded := hs.paths (f := f) (p := p)
  have onMain : ∀ c : HostCmd, c.OnMain → c.OnClients ∨ c.OnBackbones ∨ c.OnRules ∨ c.OnMain :=
    fun _ hc => .inr (.inr (.inr hc))
  unfold HostAgent.apply
  simp only [if_pos hon]
  dsimp only at forwarded
  generalize Egressa.applyForward f p _ _ = s at forwarded ⊢
  obtain ⟨dropped, kept⟩ := IPsecSynced.drop hf p.ipsec (s := (s.1.ipsecConns, s.2)) forwarded
  have sub : Sub (Egressa.removeIPsecLocked f p s.1 s.2).1.ipsecConns p.ipsec :=
    fun session c hl => ((kept session c).1 hl).2
  have removed : IPsecSynced cfg.id (Egressa.removeIPsecLocked f p s.1 s.2).1.ipsecConns
      (Egressa.removeIPsecLocked f p s.1 s.2).2.host :=
    dropped.keeps (dropHeres_issues f p.ipsecHere (s.1.ipsecHere, _)) onMain
  generalize Egressa.removeIPsecLocked f p s.1 s.2 = s at removed sub ⊢
  have returned : IPsecSynced cfg.id (Egressa.applyReturn f p s.1 s.2).1.ipsecConns _ :=
    removed.keeps (applyReturn_issues f p s.1 s.2) onMain
  have sub : Sub (Egressa.applyReturn f p s.1 s.2).1.ipsecConns p.ipsec := sub
  generalize Egressa.applyReturn f p s.1 s.2 = s at returned sub ⊢
  obtain ⟨filled, sub, all⟩ := IPsecSynced.fill hf cfg hp.ipsec (s := (s.1.ipsecConns, s.2)) sub returned
  exact ⟨filled.keeps (addHeres_issues f p.ipsecHere (s.1.ipsecHere, _)) onMain,
    fun session c => ⟨sub session c, all session c⟩⟩

end Phases

/-! ## What the host holds -/

/-- The client peers, the rules and the routes of the addresses `mine` are those of the plan.
`device` gives the devices of the open backbones. -/
structure HoldsPaths (cfg : GatewayConfig) (mine : Set Addr) (p : Plan) (device : String → Option ℕ)
    (h : Host) : Prop where
  peers : ∀ k, (h.wg .egc0).peer k ≠ none ↔ ∃ key vip, p.peers.lookup key = some vip ∧ cfg.decodeKey key = .ok k
  allowed : ∀ vip k, (h.wg .egc0).holder (.host vip) = some k ↔
    ∃ key, p.peers.lookup key = some vip ∧ cfg.decodeKey key = .ok k
  devices : ∀ vip id, p.forward.lookup vip = some id ∨ p.ret.lookup vip = some id → ∃ n, device id = some n
  distinct : ∀ id id' n, device id = some n → device id' = some n → id = id'
  rules : ∀ vip table, h.rules vip table = true ↔ ∃ egress n,
    p.forward.lookup vip = some egress ∧ device egress = some n ∧ table = egressTableBase + n
  routes : ∀ vip ∈ mine, h.route mainTable vip = match p.ret.lookup vip with
    | some access => (device access).map .egb
    | none => if cfg.ipsecOn = true ∧ vip ∈ p.ipsecHere then some .egi0 else none

/-- And so are the default routes the rules lead to, the connections and secrets in charon, and the
routes of the probe table. -/
structure HoldsPlan (cfg : GatewayConfig) (mine : Set Addr) (p : Plan) (device : String → Option ℕ)
    (h : Host) : Prop extends HoldsPaths cfg mine p device h where
  tables : ∀ vip egress n, p.forward.lookup vip = some egress → device egress = some n →
    h.default (egressTableBase + n) = some (.egb n)
  conns : cfg.ipsecOn = true → Loaded (ipsecConnection cfg.id) p.ipsec h.conns
  secrets : cfg.ipsecOn = true → Loaded ipsecSecret p.ipsec h.secrets
  probe : cfg.ipsecOn = true → ∀ vip dev, h.route probeTable vip = some dev ↔
    dev = .egi0 ∧ ∃ session c, p.ipsec.lookup session = some c ∧ c.virtualIP = vip

def HostAgent.device (a : HostAgent) (id : String) : Option ℕ := (a.backbones.lookup id).map Wire.n

section Holds

variable {cfg : GatewayConfig} {mine : Set Addr} {p : Plan} {a : HostAgent} {h : Host}

theorem HostAgent.device_eq_some {id : String} {n : ℕ} :
    a.device id = some n ↔ ∃ b, a.backbones.lookup id = some b ∧ b.n = n :=
  Option.map_eq_some_iff

theorem Synced.holdsPaths (hs : Synced cfg mine a h) (hp : Coherent cfg mine p)
    (hm : Matches cfg p a) : HoldsPaths cfg mine p a.device h where
  peers k := by
    rw [hs.peers.peer]
    constructor
    · rintro ⟨key, hmem, hk⟩
      obtain ⟨vip, hl⟩ := lookup_of_mem hmem
      exact ⟨key, vip, ((hm.peers key vip).1 hl).1, hk⟩
    · rintro ⟨key, vip, hl, hk⟩
      exact ⟨key, mem_of_lookup ((hm.peers key vip).2 ⟨hl, k, hk⟩), hk⟩
  allowed vip k := by
    rw [hs.peers.holder]
    constructor
    · rintro ⟨key, hl, hk⟩
      exact ⟨key, ((hm.peers key vip).1 hl).1, hk⟩
    · rintro ⟨key, hl, hk⟩
      exact ⟨key, (hm.peers key vip).2 ⟨hl, k, hk⟩, hk⟩
  devices vip id hid := by
    have hmem : id ∈ p.backbones := hid.elim (fun hf => (hp.forward vip id hf).2) fun hr => (hp.ret vip id hr).2
    obtain ⟨b, hb⟩ := lookup_of_mem (hm.backbones id hmem)
    exact ⟨b.n, HostAgent.device_eq_some.2 ⟨b, hb, rfl⟩⟩
  distinct id id' n hn hn' := by
    obtain ⟨b, hb, rfl⟩ := HostAgent.device_eq_some.1 hn
    obtain ⟨b', hb', heq⟩ := HostAgent.device_eq_some.1 hn'
    refine hs.linked.wired.inj id id' b.n (hs.linked.wired.wire id b hb).1 ?_
    rw [← heq]
    exact (hs.linked.wired.wire id' b' hb').1
  rules vip table := by
    rw [hs.linked.rules.rule]
    constructor
    · rintro ⟨egress, n, hf, hn, ht⟩
      have hf := (hm.forward vip egress).1 hf
      obtain ⟨b, hb⟩ := lookup_of_mem (hm.backbones egress (hp.forward vip egress hf).2)
      cases (hs.linked.wired.wire egress b hb).1.symm.trans hn
      exact ⟨egress, b.n, hf, HostAgent.device_eq_some.2 ⟨b, hb, rfl⟩, ht⟩
    · rintro ⟨egress, n, hf, hn, ht⟩
      obtain ⟨b, hb, rfl⟩ := HostAgent.device_eq_some.1 hn
      exact ⟨egress, b.n, (hm.forward vip egress).2 hf, (hs.linked.wired.wire egress b hb).1, ht⟩
  routes vip hvip := by
    have ret : a.ret.lookup vip = p.ret.lookup vip := Option.ext fun access => hm.ret vip access
    rw [hs.linked.routes.route vip hvip, routeOf, ret]
    cases p.ret.lookup vip with
    | none => simp only [hm.here]
    | some access => simp only [HostAgent.device, Option.map_map, Function.comp_def]

theorem Synced.holdsPlan (hs : Synced cfg mine a h) (hp : Coherent cfg mine p) (hm : Matches cfg p a)
    (hi : cfg.ipsecOn = true → IPsecSynced cfg.id a.ipsecConns h ∧
      ∀ session c, a.ipsecConns.lookup session = some c ↔ p.ipsec.lookup session = some c) :
    HoldsPlan cfg mine p a.device h := by
  refine ⟨hs.holdsPaths hp hm, fun vip egress n _ hn => ?_, fun hon name x => ?_,
    fun hon name x => ?_, fun hon vip dev => ?_⟩
  · obtain ⟨b, hb, rfl⟩ := HostAgent.device_eq_some.1 hn
    exact (hs.linked.wired.wire egress b hb).2
  · rw [(hi hon).1.conns name x]
    simp only [(hi hon).2]
  · rw [(hi hon).1.secrets name x]
    simp only [(hi hon).2]
  · rw [(hi hon).1.probe vip dev]
    simp only [(hi hon).2]

end Holds

/-! ## Plans of states -/

/-- A state whose plan can be installed as it is: virtual IPs and public keys are distinct, gateways are named, and no
node has an address of `mine`. -/
structure GatewayState.Plain (cfg : GatewayConfig) (mine : Set Addr) (st : GatewayState) : Prop where
  virtualIPs : (st.sessions.map Session.virtualIP).Nodup
  publicKeys : st.sessions.Pairwise fun s t => ∀ k, cfg.decodeKey s.publicKey = .ok k →
    cfg.decodeKey t.publicKey ≠ .ok k
  named : ∀ g ∈ st.gateways, g.id ≠ ""
  nodes : ∀ g ∈ st.gateways, g.nodeIP ∉ mine

section Plain

variable {addrPort : String → UInt16 → Option String} {cfg : GatewayConfig} {mine : Set Addr}
  {st : GatewayState} {me : String} {roles : Roles}

theorem exists_of_knows {id : String} (h : st.knows id = true) : ∃ g ∈ st.gateways, g.id = id := by
  obtain ⟨g, hg, heq⟩ := List.any_eq_true.1 h
  exact ⟨g, hg, eq_of_beq heq⟩

theorem GatewayState.Plain.backbone (h : st.Plain cfg mine) {id : String} (known : st.knows id = true)
    (hne : id ≠ me) : id ≠ "" ∧ id ∈ (makePlan addrPort me roles st).backbones := by
  obtain ⟨g, hg, rfl⟩ := exists_of_knows known
  refine ⟨h.named g hg, ?_⟩
  rw [makePlan_backbones]
  exact mem_collect hg (show backboneEntry addrPort me g = some _ from if_neg hne)

theorem GatewayState.Plain.distinctPeers (h : st.Plain cfg mine) :
    DistinctPeers cfg (makePlan addrPort me roles st).peers := by
  have entry : ∀ key vip, (makePlan addrPort me roles st).peers.lookup key = some vip →
      ∃ s ∈ st.sessions, s.publicKey = key ∧ s.virtualIP = vip := by
    intro key vip hl
    rw [makePlan_peers] at hl
    obtain ⟨s, hs, hentry⟩ := exists_of_lookup_collect hl
    exact ⟨s, hs, (peerEntry_eq_some.1 hentry).2.2⟩
  constructor
  · intro key hkey key' hkey' k hk hk'
    obtain ⟨vip, hl⟩ := lookup_of_mem hkey
    obtain ⟨vip', hl'⟩ := lookup_of_mem hkey'
    obtain ⟨s, hs, rfl, -⟩ := entry _ _ hl
    obtain ⟨t, ht, rfl, -⟩ := entry _ _ hl'
    by_contra hne
    have symm : Std.Symm fun s t : Session => ∀ k, cfg.decodeKey s.publicKey = .ok k →
        cfg.decodeKey t.publicKey ≠ .ok k := ⟨fun s t h k hk hk' => h k hk' hk⟩
    exact h.publicKeys.forall hs ht (fun heq => hne (congrArg Session.publicKey heq)) k hk hk'
  · intro key key' vip hl hl'
    obtain ⟨s, hs, rfl, hv⟩ := entry _ _ hl
    obtain ⟨t, ht, rfl, hv'⟩ := entry _ _ hl'
    rw [session_eq_of_virtualIP h.virtualIPs hs ht (hv.trans hv'.symm)]

theorem GatewayState.Plain.coherent (h : st.Plain cfg mine) : Coherent cfg mine (makePlan addrPort me roles st) where
  peers := h.distinctPeers
  forward vip egress hl := by
    obtain ⟨s, -, -, hne, known, -, rfl⟩ := (lookup_makePlan_forward h.virtualIPs).1 hl
    exact h.backbone known hne
  ret vip access hl := by
    obtain ⟨s, -, -, -, hne, known, -, rfl⟩ := (lookup_makePlan_ret h.virtualIPs).1 hl
    exact h.backbone known hne
  nodes id b hl := by
    rw [makePlan_backbones] at hl
    obtain ⟨g, hg, hentry⟩ := exists_of_lookup_collect hl
    unfold backboneEntry at hentry
    split_ifs at hentry
    cases hentry
    exact h.nodes g hg
  apart vip hhere hret := by
    obtain ⟨access, hl⟩ := lookup_of_mem hret
    obtain ⟨s, hs, -, -, hme, hvip⟩ := (mem_makePlan_ipsecHere h.virtualIPs).1 hhere
    obtain ⟨t, ht, -, -, hne, -, hvip', -⟩ := (lookup_makePlan_ret h.virtualIPs).1 hl
    obtain rfl := session_eq_of_virtualIP h.virtualIPs hs ht (hvip.trans hvip'.symm)
    exact hne hme
  ipsec session session' c c' hl hl' hvip := by
    rw [makePlan_ipsec] at hl hl'
    obtain ⟨s, hs, hentry⟩ := exists_of_lookup_collect hl
    obtain ⟨t, ht, hentry'⟩ := exists_of_lookup_collect hl'
    obtain ⟨-, -, rfl, rfl⟩ := ipsecEntry_eq_some.1 hentry
    obtain ⟨-, -, rfl, rfl⟩ := ipsecEntry_eq_some.1 hentry'
    rw [session_eq_of_virtualIP h.virtualIPs hs ht hvip]

end Plain

/-! ## Runs -/

/-- The host before the first call: `setup` has cleared the rules, `egc0` is new, and nothing the
gateway would install is there. -/
structure Host.Clean (mine : Set Addr) (h : Host) : Prop where
  peers : h.wg .egc0 = .empty
  rules : ∀ vip table, h.rules vip table = false
  routes : ∀ vip ∈ mine, h.route mainTable vip = none
  probe : ∀ vip, h.route probeTable vip = none
  conns : ∀ name, h.conns name = none
  secrets : ∀ id, h.secrets id = none

theorem Host.Clean.synced {h : Host} (hc : h.Clean mine) (cfg : GatewayConfig) : Synced cfg mine {} h where
  linked :=
    { wired := ⟨fun id n hn => by simp at hn, fun id id' n hn => by simp at hn, fun id b hb => by simp at hb⟩
      rules := ⟨fun vip egress hf => by simp at hf, fun vip table => by simp [hc.rules]⟩
      routes := ⟨fun vip access hr => by simp at hr, fun vip hmem => absurd hmem (AList.notMem_empty _),
        fun vip hvip => by simp [hc.routes vip hvip, routeOf, AList.notMem_empty]⟩ }
  peers := by
    rw [hc.peers]
    refine ⟨fun key hmem => absurd hmem (AList.notMem_empty _),
      fun key hmem => absurd hmem (AList.notMem_empty _), fun k => ?_, fun vip k => ?_⟩
    · simp [WgPeers.empty, AList.notMem_empty]
    · simp [WgPeers.empty]
  opened vip access hr := by simp at hr
  off _ := rfl

theorem Host.Clean.ipsecSynced {h : Host} (hc : h.Clean mine) (me : String) : IPsecSynced me ∅ h where
  conns name x := by simp [hc.conns]
  secrets name x := by simp [hc.secrets]
  probe vip dev := by simp [hc.probe]
  apart session session' c c' hl := by simp at hl

/-- `apply` after each state that arrives. -/
def followStates (cfg : GatewayConfig) (addrPort : String → UInt16 → Option String)
    (states : List (HostFate × GatewayState)) (h : Host) : HostAgent × Run :=
  HostAgent.applyAll cfg (states.map fun c => (c.1, makePlan addrPort cfg.id cfg.roles c.2)) {} { host := h }

section Runs

variable {cfg : GatewayConfig} {addrPort : String → UInt16 → Option String} {mine : Set Addr} {h : Host}

theorem followStates_append (states : List (HostFate × GatewayState)) (f : HostFate) (st : GatewayState) :
    followStates cfg addrPort (states ++ [(f, st)]) h = HostAgent.apply cfg f (makePlan addrPort cfg.id cfg.roles st)
        (followStates cfg addrPort states h).1
        { (followStates cfg addrPort states h).2 with errs := [] } := by
  simp [followStates, HostAgent.applyAll]

variable {states : List (HostFate × GatewayState)}

theorem Synced.follow (hc : h.Clean mine) (tidy : ∀ c ∈ states, c.1.Tidy) (plain : ∀ c ∈ states, c.2.Plain cfg mine) :
    Synced cfg mine (followStates cfg addrPort states h).1 (followStates cfg addrPort states h).2.host := by
  induction states using List.reverseRecOn with
  | nil => exact hc.synced cfg
  | append_singleton states c ih =>
    rw [followStates_append]
    have before := ih (fun c' hc' => tidy c' (by simp [hc'])) fun c' hc' => plain c' (by simp [hc'])
    exact (Synced.apply (r := { (followStates cfg addrPort states h).2 with errs := [] }) before
      (tidy c (by simp)) (plain c (by simp)).coherent).1

theorem IPsecSynced.follow (hc : h.Clean mine) (hon : cfg.ipsecOn = true) (steady : ∀ c ∈ states, c.1.Steady)
    (plain : ∀ c ∈ states, c.2.Plain cfg mine) :
    IPsecSynced cfg.id (followStates cfg addrPort states h).1.ipsecConns
      (followStates cfg addrPort states h).2.host := by
  induction states using List.reverseRecOn with
  | nil => exact hc.ipsecSynced cfg.id
  | append_singleton states c ih =>
    rw [followStates_append]
    have before := ih (fun c' hc' => steady c' (by simp [hc'])) fun c' hc' =>
      plain c' (by simp [hc'])
    exact (IPsecSynced.apply (r := { (followStates cfg addrPort states h).2 with errs := [] }) before
      (steady c (by simp)) hon (plain c (by simp)).coherent).1

theorem Synced.followLast (hc : h.Clean mine) {f : HostFate}
    {st : GatewayState} (tidy : ∀ c ∈ states, c.1.Tidy) (steady : f.Steady)
    (plain : ∀ c ∈ states ++ [(f, st)], c.2.Plain cfg mine) :
    let s := followStates cfg addrPort (states ++ [(f, st)]) h
    Synced cfg mine s.1 s.2.host ∧ Matches cfg (makePlan addrPort cfg.id cfg.roles st) s.1 := by
  have before : Synced cfg mine (followStates cfg addrPort states h).1 (followStates cfg addrPort states h).2.host :=
    Synced.follow hc tidy fun c hc => plain c (by simp [hc])
  dsimp only
  rw [followStates_append]
  obtain ⟨synced, agrees⟩ := Synced.apply
    (r := { (followStates cfg addrPort states h).2 with errs := [] }) before steady.tidy
    (plain (f, st) (by simp)).coherent
  exact ⟨synced, agrees steady⟩

end Runs

/-- Reconciliation does not depend on history: after any sequence of states, applied without
failures, the host holds exactly the plan of the last one. -/
theorem reconcile_exact (cfg : GatewayConfig) (addrPort : String → UInt16 → Option String)
    (mine : Set Addr) (h : Host) (clean : h.Clean mine) (states : List (HostFate × GatewayState))
    (f : HostFate) (st : GatewayState) (steady : ∀ c ∈ states ++ [(f, st)], c.1.Steady)
    (plain : ∀ c ∈ states ++ [(f, st)], c.2.Plain cfg mine) :
    let s := followStates cfg addrPort (states ++ [(f, st)]) h
    HoldsPlan cfg mine (makePlan addrPort cfg.id cfg.roles st) s.1.device s.2.host := by
  have hlast : f.Steady := steady (f, st) (by simp)
  have coherent : Coherent cfg mine (makePlan addrPort cfg.id cfg.roles st) := (plain (f, st) (by simp)).coherent
  obtain ⟨synced, agrees⟩ := Synced.followLast clean (fun c hc => (steady c (by simp [hc])).tidy) hlast plain
  refine synced.holdsPlan coherent agrees fun hon => ?_
  rw [followStates_append]
  have before : IPsecSynced cfg.id (followStates cfg addrPort states h).1.ipsecConns
      (followStates cfg addrPort states h).2.host :=
    IPsecSynced.follow clean hon (fun c hc => steady c (by simp [hc])) fun c hc => plain c (by simp [hc])
  exact IPsecSynced.apply (r := { (followStates cfg addrPort states h).2 with errs := [] }) before hlast hon coherent

namespace Trial

def ipsecDetour : Session :=
  { id := "3", publicKey := "AAAAAAAAAAAAAAAAAAAAAAAAAAAAAAAAAAAAAAAAAAM=", virtualIP := .v4 0x0AC90004, access := "sg",
    egress := "hk", backend := backendIPsec, ipsecPSK := "psk" }

def clients : Set Addr := {detour.virtualIP, ipsecDetour.virtualIP}

theorem clean_bare : Host.bare.Clean clients where
  peers := rfl
  rules _ _ := rfl
  routes _ _ := rfl
  probe _ := rfl
  conns _ := rfl
  secrets _ := rfl

theorem plain_planState {sessions : List Session} (h : sessions.Sublist [detour, ipsecDetour]) :
    (planState sessions).Plain gatewayConfig clients where
  virtualIPs := (h.map Session.virtualIP).nodup (by decide)
  publicKeys := by
    refine List.Pairwise.sublist h ?_
    simp only [List.pairwise_cons, List.mem_singleton, List.not_mem_nil]
    refine ⟨?_, by simp, List.Pairwise.nil⟩
    rintro t rfl k hk hk'
    exact absurd (Except.ok.inj (hk.trans hk'.symm)) (by decide)
  named := by simp [planState, hk, sg]
  nodes := by simp [planState, hk, sg, clients, detour, ipsecDetour]

end Trial

open Trial

theorem reconcile_exact_detours :
    let s := followStates gatewayConfig (fun _ _ => none) ([(HostFate.steady, planState [detour, ipsecDetour])] ++
        [(.steady, planState [ipsecDetour])]) .bare
    HoldsPlan gatewayConfig Trial.clients (makePlan (fun _ _ => none) "sg" roleAccess (planState [ipsecDetour]))
      s.1.device s.2.host := by
  refine reconcile_exact gatewayConfig (fun _ _ => none) Trial.clients .bare clean_bare _ .steady _ ?_ ?_
  · intro c hc
    fin_cases hc <;> exact fun _ _ => rfl
  · intro c hc
    fin_cases hc <;> exact plain_planState (by decide)

namespace Trial

def unnamed : GatewayState :=
  { planState [{ detour with egress := "" }] with gateways := [sg, { hk with id := "", roles := roleEgress }] }

def atNode : Session := { detour with egress := "sg", virtualIP := hk.nodeIP }

end Trial

/-- An empty gateway ID passes for a virtual IP the plan does not have, so its rule is kept; and the
route to a node passes for that of a virtual IP. -/
theorem reconcile_inexact : (let gone := { unnamed with sessions := [] }
     let s := followStates gatewayConfig (fun _ _ => none) [(.steady, unnamed), (.steady, gone)] .bare
     s.2.host.rules detour.virtualIP egressTableBase = true ∧
      (makePlan (fun _ _ => none) "sg" roleAccess gone).forward.lookup detour.virtualIP = none) ∧
    (let st := planState [atNode]
     let s := followStates gatewayConfig (fun _ _ => none) [(.steady, st)] .bare
     let p := makePlan (fun _ _ => none) "sg" roleAccess st
     s.2.host.route mainTable atNode.virtualIP = some (.egb 0) ∧
      p.ret.lookup atNode.virtualIP = none ∧ atNode.virtualIP ∉ p.ipsecHere) := by
  decide

/-- Reconciliation heals: after any calls in which nothing that removes failed, one call without failures brings client
peers, rules and routes to its plan. -/
theorem reconcile_heals (cfg : GatewayConfig) (addrPort : String → UInt16 → Option String)
    (mine : Set Addr) (h : Host) (clean : h.Clean mine) (states : List (HostFate × GatewayState))
    (tidy : ∀ c ∈ states, c.1.Tidy) (f : HostFate) (steady : f.Steady) (st : GatewayState)
    (plain : ∀ c ∈ states ++ [(f, st)], c.2.Plain cfg mine) :
    let s := followStates cfg addrPort (states ++ [(f, st)]) h
    HoldsPaths cfg mine (makePlan addrPort cfg.id cfg.roles st) s.1.device s.2.host := by
  obtain ⟨synced, agrees⟩ := Synced.followLast clean tidy steady plain
  exact synced.holdsPaths (plain (f, st) (by simp)).coherent agrees

namespace Trial

def addsNothing : HostFate :=
  { HostFate.steady with
    fails := fun _ c => match c with
      | .addPeer _ _ _ _ _ => some "exit status 2"
      | .addRule _ _ => some "exit status 2"
      | .newReal _ => some "exit status 2"
      | _ => none }

end Trial

theorem reconcile_heals_detours :
    let s := followStates gatewayConfig (fun _ _ => none) ([(addsNothing, planState [detour, ipsecDetour])] ++
        [(.steady, planState [detour, ipsecDetour])]) .bare
    HoldsPaths gatewayConfig Trial.clients (makePlan (fun _ _ => none) "sg" roleAccess
        (planState [detour, ipsecDetour])) s.1.device s.2.host := by
  have tidy : addsNothing.Tidy := by
    refine ⟨fun clock c hc => ?_, fun clock vip table err h => ?_⟩
    · cases c <;> first | rfl | exact False.elim hc
    · obtain rfl : "exit status 2" = err := Option.some.inj h
      decide
  refine reconcile_heals gatewayConfig (fun _ _ => none) Trial.clients .bare clean_bare _ ?_ .steady
    (fun _ _ => rfl) _ ?_
  · intro c hc
    fin_cases hc
    exact tidy
  · intro c hc
    fin_cases hc <;> exact plain_planState (by decide)

namespace Trial

def keepsPeers : HostFate :=
  { HostFate.steady with
    fails := fun _ c => match c with
      | .removePeer .egc0 _ => some "exit status 2"
      | _ => none }

end Trial

/-- A session goes away while its peer cannot be removed: no later call removes it. -/
theorem peer_left_behind :
    let s := followStates gatewayConfig (fun _ _ => none) [(.steady, planState [detour]), (keepsPeers, planState []),
        (.steady, planState [])] .bare
    gatewayConfig.decodeKey detour.publicKey = .ok 2 ∧ (s.2.host.wg .egc0).peer 2 ≠ none ∧
      (s.2.host.wg .egc0).holder (.host detour.virtualIP) = some 2 ∧ s.2.errs = [] := by
  decide

end Egressa
