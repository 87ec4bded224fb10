import Egressa.Gateway.Apply

/-!
# What an agent remembers is what the host has

`apply` compares a plan with the agent's own maps, and is right as long as these say what is on the host.  Every loop
of `apply` keeps that, provided that no removal fails.  Here are the rules for loops that run one command a turn, the
client peers, and charon; the rest is in `Gateway/Links.lean`.
-/

namespace Egressa

open Tunnel Maps Run

/-- The removals that a later `apply` does not repeat. -/
def HostCmd.Removes : HostCmd → Prop
  | .removePeer dev _ => dev = .egc0
  | .delRule _ _ => True
  | .delRoute _ _ table => table = mainTable
  | _ => False

/-- Nothing that removes fails, and a rule that could not be added is not taken for one that was
there. -/
structure HostFate.Tidy (f : HostFate) : Prop where
  removes : ∀ clock c, HostCmd.Removes c → f.fails clock c = none
  addRule : ∀ clock vip table err, f.fails clock (.addRule vip table) = some err → benign err = false

/-- No command fails. -/
def HostFate.Steady (f : HostFate) : Prop := ∀ clock c, f.fails clock c = none

theorem HostFate.Steady.tidy {f : HostFate} (hf : f.Steady) : f.Tidy where
  removes clock c _ := hf clock c
  addRule clock vip table err h := by
    rw [hf] at h
    cases h

/-! ## Loops with one command a turn -/

section Loops

variable {α β : Type} [DecidableEq α] {f : HostFate}

/-- A loop that removes what is not to be kept. -/
structure SweepsBy (f : HostFate) (cmd : Entry α β → Option HostCmd) (keep : Entry α β → Prop)
    (step : Map α β × Run → Entry α β → Map α β × Run) : Prop where
  kept : ∀ s e, keep e → step s e = s
  dropped : ∀ s e, ¬ keep e → cmd e = none → step s e = (s.1.erase e.1, s.2)
  removed : ∀ s e c, ¬ keep e → cmd e = some c →
    ∃ ignored, step s e = (s.1.erase e.1, note (s.2.issueUnless ignored f c))

theorem SweepsBy.foldl {cmd : Entry α β → Option HostCmd} {keep : Entry α β → Prop}
    {step : Map α β × Run → Entry α β → Map α β × Run} (h : SweepsBy f cmd keep step)
    (works : ∀ clock e c, cmd e = some c → f.fails clock c = none) {P : Map α β → Host → Prop}
    (drop : ∀ m h e, cmd e = none → m.lookup e.1 = some e.2 → P m h → P (m.erase e.1) h)
    (remove : ∀ m h e c, cmd e = some c → m.lookup e.1 = some e.2 → P m h → P (m.erase e.1) (h.exec c))
    {s : Map α β × Run} (hs : P s.1 s.2.host) :
    let s' := (f.order s.2.clock s.1.entries).foldl step s
    P s'.1 s'.2.host ∧ ∀ a b, s'.1.lookup a = some b ↔ s.1.lookup a = some b ∧ keep ⟨a, b⟩ := by
  have sweeps : Sweeps Prod.fst keep step := by
    refine ⟨fun s e hk => by rw [h.kept s e hk], fun s e hk => ?_⟩
    cases hc : cmd e with
    | none => rw [h.dropped s e hk hc]
    | some c =>
      obtain ⟨ignored, heq⟩ := h.removed s e c hk hc
      rw [heq]
  refine sweeps.foldl (P := fun s => P s.1 s.2.host) (fun s e there hs => ?_) (f.perm _ _) hs
  by_cases hk : keep e
  · rwa [h.kept s e hk]
  cases hc : cmd e with
  | none =>
    rw [h.dropped s e hk hc]
    exact drop s.1 s.2.host e hc there hs
  | some c =>
    obtain ⟨ignored, heq⟩ := h.removed s e c hk hc
    rw [heq, host_note, issueUnless_of_not_fails (works _ e c hc)]
    exact remove s.1 s.2.host e c hc there hs

theorem sweep_foldl {cmd : Entry α β → HostCmd} {keep : Entry α β → Prop} [DecidablePred keep]
    (step : Map α β × Run → Entry α β → Map α β × Run)
    (turn : ∀ s e, step s e = if keep e then s else (s.1.erase e.1, note (s.2.ipIgnore f (cmd e))))
    (works : ∀ clock e, f.fails clock (cmd e) = none) {P : Map α β → Host → Prop}
    (remove : ∀ m h e, m.lookup e.1 = some e.2 → P m h → P (m.erase e.1) (h.exec (cmd e)))
    {s : Map α β × Run} (hs : P s.1 s.2.host) :
    let s' := (f.order s.2.clock s.1.entries).foldl step s
    P s'.1 s'.2.host ∧ ∀ a b, s'.1.lookup a = some b ↔ s.1.lookup a = some b ∧ keep ⟨a, b⟩ := by
  have sweeps : SweepsBy f (some ∘ cmd) keep step :=
    ⟨fun s e hk => (turn s e).trans (if_pos hk), fun _ _ _ hc => (by cases hc),
      fun s e c hk hc => ⟨benign, by cases hc; exact (turn s e).trans (if_neg hk)⟩⟩
  exact sweeps.foldl (fun clock e c hc => by cases hc; exact works clock e) (fun _ _ _ hc => by cases hc)
    (fun m h e c hc => by cases hc; exact remove m h e) hs

theorem getD_lookup_eq {want : Map α String} {a : α} {b : String} (named : b ≠ "") :
    (want.lookup a).getD "" = b ↔ want.lookup a = some b := by
  cases want.lookup a with
  | none => simp [named.symm]
  | some b' => simp

/-- A loop that adds what is missing. -/
structure FillsBy (f : HostFate) (cmd : Entry α β → Option HostCmd)
    (step : Map α β × Run → Entry α β → Map α β × Run) : Prop where
  present : ∀ s e, e.1 ∈ s.1 → step s e = s
  skipped : ∀ s e, e.1 ∉ s.1 → cmd e = none → (step s e).1 = s.1 ∧ (step s e).2.host = s.2.host
  added : ∀ s e c, e.1 ∉ s.1 → cmd e = some c → step s e = record s.1 e (s.2.issue f c)

theorem record_cases (f : HostFate) (c : HostCmd) (m : Map α β) (e : Entry α β) (r : Run) :
    ((record m e (r.issue f c)).1 = m ∧ (record m e (r.issue f c)).2.host = r.host ∧ f.fails r.clock c ≠ none) ∨
    ((record m e (r.issue f c)).1 = m.insert e.1 e.2 ∧ (record m e (r.issue f c)).2.host = r.host.exec c) := by
  rcases issueUnless_cases (fun _ => false) f c r with ⟨err, hfail, heq⟩ | ⟨-, heq⟩
  · rw [issue, heq]
    exact Or.inl ⟨rfl, rfl, by simp [hfail]⟩
  · rw [issue, heq]
    exact Or.inr ⟨rfl, rfl⟩

theorem FillsBy.foldl {cmd : Entry α β → Option HostCmd}
    {step : Map α β × Run → Entry α β → Map α β × Run} (h : FillsBy f cmd step)
    {P : Map α β → Host → Prop} {want : Map α β}
    (add : ∀ m h e c, cmd e = some c → want.lookup e.1 = some e.2 → Sub m want → e.1 ∉ m → P m h →
      P (m.insert e.1 e.2) (h.exec c))
    {s : Map α β × Run} (sub : Sub s.1 want) (hs : P s.1 s.2.host) :
    let s' := (f.order s.2.clock want.entries).foldl step s
    P s'.1 s'.2.host ∧ Sub s'.1 want ∧
      (f.Steady → ∀ a b, want.lookup a = some b → (cmd ⟨a, b⟩).isSome → s'.1.lookup a = some b) := by
  have fills : Fills Prod.fst step := by
    refine ⟨fun s e hmem => by rw [h.present s e hmem], fun s e hmem => ?_⟩
    cases hc : cmd e with
    | none => exact Or.inl (h.skipped s e hmem hc).1
    | some c =>
      rw [h.added s e c hmem hc]
      rcases record_cases f c s.1 e s.2 with ⟨hm, -⟩ | ⟨hm, -⟩
      · exact Or.inl hm
      · exact Or.inr hm
  have turn : ∀ (s : Map α β × Run) e, want.lookup e.1 = some e.2 → Sub s.1 want →
      P s.1 s.2.host → P (step s e).1 (step s e).2.host := by
    intro s e he sub hs
    by_cases hmem : e.1 ∈ s.1
    · rwa [h.present s e hmem]
    cases hc : cmd e with
    | none =>
      obtain ⟨hm, hh⟩ := h.skipped s e hmem hc
      rwa [hm, hh]
    | some c =>
      rw [h.added s e c hmem hc]
      rcases record_cases f c s.1 e s.2 with ⟨hm, hh, -⟩ | ⟨hm, hh⟩
      · rwa [hm, hh]
      · rw [hm, hh]
        exact add s.1 s.2.host e c hc he sub hmem hs
  have adds : ∀ (s : Map α β × Run) e, want.lookup e.1 = some e.2 → P s.1 s.2.host →
      f.Steady ∧ (cmd e).isSome → e.1 ∈ (step s e).1 := by
    rintro s e - - ⟨hf, hsome⟩
    by_cases hmem : e.1 ∈ s.1
    · rwa [h.present s e hmem]
    obtain ⟨c, hc⟩ := Option.isSome_iff_exists.1 hsome
    rw [h.added s e c hmem hc]
    rcases record_cases f c s.1 e s.2 with ⟨-, -, hfail⟩ | ⟨hm, -⟩
    · exact absurd (hf _ _) hfail
    · rw [hm]
      exact (AList.mem_insert _).2 (Or.inl rfl)
  have range : ∀ e ∈ f.order s.2.clock want.entries, want.lookup e.1 = some e.2 :=
    fun e he => lookup_of_mem_entries ((f.perm _ _).mem_iff.1 he)
  obtain ⟨hP, hsub, hall⟩ := fills.foldl (P := fun s => P s.1 s.2.host) turn adds range sub hs
  exact ⟨hP, hsub, fun hf a b hl hc =>
    hall ⟨a, b⟩ ((f.perm _ _).mem_iff.2 (AList.mem_lookup_iff.1 hl)) ⟨hf, hc⟩⟩

end Loops

/-! ## Client peers -/

/-- The device has the peers the agent remembers. -/
structure PeersSynced (cfg : GatewayConfig) (peers : Map String Addr) (w : WgPeers) : Prop where
  decodes : ∀ key ∈ peers, ∃ k, cfg.decodeKey key = .ok k
  inj : ∀ key ∈ peers, ∀ key' ∈ peers, ∀ k, cfg.decodeKey key = .ok k → cfg.decodeKey key' = .ok k → key = key'
  peer : ∀ k, w.peer k ≠ none ↔ ∃ key ∈ peers, cfg.decodeKey key = .ok k
  holder : ∀ vip k, w.holder (.host vip) = some k ↔ ∃ key, peers.lookup key = some vip ∧ cfg.decodeKey key = .ok k

/-- No two clients share a key or an address. -/
structure DistinctPeers (cfg : GatewayConfig) (want : Map String Addr) : Prop where
  keys : ∀ key ∈ want, ∀ key' ∈ want, ∀ k, cfg.decodeKey key = .ok k → cfg.decodeKey key' = .ok k → key = key'
  vips : ∀ key key' vip, want.lookup key = some vip → want.lookup key' = some vip → key = key'

def clientCmd (cfg : GatewayConfig) (cmd : Key → HostCmd) (key : String) : Option HostCmd :=
  (cfg.decodeKey key).toOption.map cmd

theorem clientCmd_eq_some {cfg : GatewayConfig} {cmd : Key → HostCmd} {key : String} {c : HostCmd} :
    clientCmd cfg cmd key = some c ↔ ∃ k, cfg.decodeKey key = .ok k ∧ cmd k = c := by
  unfold clientCmd
  cases cfg.decodeKey key <;> simp [Except.toOption]

theorem clientCmd_eq_none {cfg : GatewayConfig} {cmd : Key → HostCmd} {key : String} :
    clientCmd cfg cmd key = none ↔ ∃ err, cfg.decodeKey key = .error err := by
  unfold clientCmd
  cases cfg.decodeKey key <;> simp [Except.toOption]

namespace PeersSynced

variable {cfg : GatewayConfig} {f : HostFate} {peers want : Map String Addr} {w : WgPeers}
  {key : String} {vip : Addr} {k : Key}

theorem remove (h : PeersSynced cfg peers w) (there : peers.lookup key = some vip)
    (hk : cfg.decodeKey key = .ok k) : PeersSynced cfg (peers.erase key) (w.removePeer k) where
  decodes key' hmem := h.decodes key' (AList.mem_erase.1 hmem).2
  inj key₁ h₁ key₂ h₂ := h.inj key₁ (AList.mem_erase.1 h₁).2 key₂ (AList.mem_erase.1 h₂).2
  peer k' := by
    rw [WgPeers.peer_removePeer_ne_none, h.peer]
    constructor
    · rintro ⟨hne, key', hmem, hk'⟩
      refine ⟨key', AList.mem_erase.2 ⟨?_, hmem⟩, hk'⟩
      rintro rfl
      exact hne (Except.ok.inj (hk'.symm.trans hk))
    · rintro ⟨key', hmem, hk'⟩
      obtain ⟨hne, hmem⟩ := AList.mem_erase.1 hmem
      refine ⟨?_, key', hmem, hk'⟩
      rintro rfl
      exact hne (h.inj key' hmem key (mem_of_lookup there) k' hk' hk)
  holder vip' k' := by
    rw [WgPeers.holder_removePeer]
    constructor
    · intro hh
      split_ifs at hh with heq
      obtain ⟨key', hl, hk'⟩ := (h.holder vip' k').1 hh
      refine ⟨key', ?_, hk'⟩
      rw [AList.lookup_erase_ne, hl]
      rintro rfl
      obtain rfl : k' = k := Except.ok.inj (hk'.symm.trans hk)
      exact heq hh
    · rintro ⟨key', hl, hk'⟩
      rw [lookup_erase_eq] at hl
      split_ifs at hl with hne
      have held : w.holder (.host vip') = some k' := (h.holder vip' k').2 ⟨key', hl, hk'⟩
      rw [if_neg, held]
      rw [held]
      intro heq
      cases heq
      exact hne (h.inj key' (mem_of_lookup hl) key (mem_of_lookup there) _ hk' hk)

theorem add (h : PeersSynced cfg peers w) (distinct : DistinctPeers cfg want) (sub : Sub peers want)
    (wanted : want.lookup key = some vip) (fresh : key ∉ peers) (hk : cfg.decodeKey key = .ok k)
    (endpoint : String) (keepalive : ℕ) :
    PeersSynced cfg (peers.insert key vip) (w.addPeer k [.host vip] endpoint keepalive) := by
  have mem_want : ∀ key' ∈ peers.insert key vip, key' ∈ want := by
    intro key' hmem
    rcases (AList.mem_insert _).1 hmem with rfl | hmem
    · exact mem_of_lookup wanted
    · obtain ⟨vip', hl⟩ := lookup_of_mem hmem
      exact mem_of_lookup (sub _ _ hl)
  constructor
  · intro key' hmem
    rcases (AList.mem_insert _).1 hmem with rfl | hmem
    · exact ⟨k, hk⟩
    · exact h.decodes key' hmem
  · intro key₁ h₁ key₂ h₂
    exact distinct.keys key₁ (mem_want _ h₁) key₂ (mem_want _ h₂)
  · intro k'
    rw [WgPeers.peer_addPeer_ne_none, h.peer]
    constructor
    · rintro (rfl | ⟨key', hmem, hk'⟩)
      · exact ⟨key, (AList.mem_insert _).2 (Or.inl rfl), hk⟩
      · exact ⟨key', (AList.mem_insert _).2 (Or.inr hmem), hk'⟩
    · rintro ⟨key', hmem, hk'⟩
      rcases (AList.mem_insert _).1 hmem with rfl | hmem
      · exact Or.inl (Except.ok.inj (hk'.symm.trans hk))
      · exact Or.inr ⟨key', hmem, hk'⟩
  · intro vip' k'
    simp only [WgPeers.holder_addPeer, List.mem_singleton, AllowedIP.host.injEq]
    constructor
    · intro hh
      split_ifs at hh with heq
      · cases hh
        exact ⟨key, by rw [AList.lookup_insert, heq], hk⟩
      · obtain ⟨key', hl, hk'⟩ := (h.holder vip' k').1 hh
        refine ⟨key', ?_, hk'⟩
        rw [AList.lookup_insert_ne, hl]
        rintro rfl
        exact fresh (mem_of_lookup hl)
    · rintro ⟨key', hl, hk'⟩
      rw [lookup_insert_eq] at hl
      split_ifs at hl with hkey
      · cases hl
        subst hkey
        rw [if_pos rfl, Except.ok.inj (hk'.symm.trans hk)]
      · have hvip : vip' ≠ vip := by
          rintro rfl
          exact hkey (distinct.vips key' key vip' (sub _ _ hl) wanted)
        rw [if_neg hvip]
        exact (h.holder vip' k').2 ⟨key', hl, hk'⟩

theorem drop (hf : f.Tidy) (want : Map String Addr) {s : Map String Addr × Run}
    (h : PeersSynced cfg s.1 (s.2.host.wg .egc0)) :
    let s' := dropPeers cfg f want s
    PeersSynced cfg s'.1 (s'.2.host.wg .egc0) ∧ ∀ key vip,
      s'.1.lookup key = some vip ↔ s.1.lookup key = some vip ∧ want.lookup key = some vip := by
  have sweeps : SweepsBy f (fun e => clientCmd cfg (.removePeer .egc0) e.1)
      (fun e => want.lookup e.1 = some e.2) (dropPeer cfg f want) := by
    refine ⟨fun s e hk => by simp [dropPeer, hk], fun s e hk hc => ?_, fun s e c hk hc => ?_⟩
    · obtain ⟨err, hd⟩ := clientCmd_eq_none.1 hc
      simp [dropPeer, hk, hd]
    · obtain ⟨k, hd, rfl⟩ := clientCmd_eq_some.1 hc
      exact ⟨fun _ => false, by simp only [dropPeer, if_neg hk, hd, issue]⟩
  refine sweeps.foldl (P := fun m h => PeersSynced cfg m (h.wg .egc0)) ?_ ?_ ?_ h
  · intro clock e c hc
    obtain ⟨k, -, rfl⟩ := clientCmd_eq_some.1 hc
    exact hf.removes _ _ rfl
  · intro m h e hc there hs
    obtain ⟨k, hk⟩ := hs.decodes e.1 (mem_of_lookup there)
    obtain ⟨err, hd⟩ := clientCmd_eq_none.1 hc
    cases hk.symm.trans hd
  · intro m h e c hc there hs
    obtain ⟨k, hk, rfl⟩ := clientCmd_eq_some.1 hc
    simpa only [Host.exec, Function.update_self] using hs.remove there hk

theorem fill (distinct : DistinctPeers cfg want) {s : Map String Addr × Run} (sub : Sub s.1 want)
    (h : PeersSynced cfg s.1 (s.2.host.wg .egc0)) :
    let s' := addPeers cfg f want s
    PeersSynced cfg s'.1 (s'.2.host.wg .egc0) ∧ Sub s'.1 want ∧
      (f.Steady → ∀ key vip k, want.lookup key = some vip → cfg.decodeKey key = .ok k →
        s'.1.lookup key = some vip) := by
  have fills : FillsBy f
      (fun e => clientCmd cfg (fun k => .addPeer .egc0 k [.host e.2] "" 0) e.1) (addClient cfg f) := by
    refine ⟨fun s e hmem => by simp [addClient, hmem], fun s e hmem hc => ?_, fun s e c hmem hc => ?_⟩
    · obtain ⟨err, hd⟩ := clientCmd_eq_none.1 hc
      simp [addClient, hmem, hd]
    · obtain ⟨k, hd, rfl⟩ := clientCmd_eq_some.1 hc
      simp only [addClient, if_neg hmem, hd]
  obtain ⟨synced, sub', all⟩ := fills.foldl (P := fun m h => PeersSynced cfg m (h.wg .egc0))
    (fun m h e c hc he sub hmem hs => by
      obtain ⟨k, hk, rfl⟩ := clientCmd_eq_some.1 hc
      simpa only [Host.exec, Function.update_self] using hs.add distinct sub he hmem hk "" 0)
    sub h
  refine ⟨synced, sub', fun hf key vip k hl hk => all hf key vip hl ?_⟩
  exact Option.isSome_iff_exists.2 ⟨_, clientCmd_eq_some.2 ⟨k, hk, rfl⟩⟩

end PeersSynced

/-! ## IPsec clients -/

/-- The daemon has loaded what the agent remembers. -/
def Loaded {γ : Type} (mk : String → IPsecClient → γ) (clients : Map String IPsecClient)
    (table : String → Option γ) : Prop :=
  ∀ name x, table name = some x ↔ ∃ session c, clients.lookup session = some c ∧
    name = ipsecConnName session ∧ x = mk session c

theorem ipsecConnName_inj {a b : String} : ipsecConnName a = ipsecConnName b ↔ a = b :=
  ⟨append_left_cancel _, congrArg _⟩

namespace Loaded

variable {γ : Type} {mk : String → IPsecClient → γ} {clients : Map String IPsecClient}
  {table : String → Option γ} {session : String}

theorem unload (h : Loaded mk clients table) (session : String) : Loaded mk (clients.erase session)
      (Function.update table (ipsecConnName session) none) := by
  intro name x
  by_cases hname : name = ipsecConnName session
  · subst hname
    rw [Function.update_self]
    constructor
    · intro heq
      cases heq
    · rintro ⟨session', c, hl, hname, -⟩
      rw [ipsecConnName_inj.1 hname, AList.lookup_erase] at hl
      cases hl
  · rw [Function.update_of_ne hname, h]
    constructor
    · rintro ⟨session', c, hl, rfl, hx⟩
      refine ⟨session', c, ?_, rfl, hx⟩
      rwa [AList.lookup_erase_ne]
      rintro rfl
      exact hname rfl
    · rintro ⟨session', c, hl, rfl, hx⟩
      exact ⟨session', c, sub_erase _ _ _ _ hl, rfl, hx⟩

theorem load (h : Loaded mk clients table) (hnew : session ∉ clients) (c : IPsecClient) :
    Loaded mk (clients.insert session c) (Function.update table (ipsecConnName session) (some (mk session c))) := by
  intro name x
  by_cases hname : name = ipsecConnName session
  · subst hname
    rw [Function.update_self]
    constructor
    · intro heq
      exact ⟨session, c, AList.lookup_insert _, rfl, (Option.some.inj heq).symm⟩
    · rintro ⟨session', c', hl, hname, rfl⟩
      obtain rfl := ipsecConnName_inj.1 hname
      rw [AList.lookup_insert] at hl
      rw [Option.some.inj hl]
  · rw [Function.update_of_ne hname, h]
    constructor
    · rintro ⟨session', c', hl, rfl, hx⟩
      refine ⟨session', c', ?_, rfl, hx⟩
      rwa [AList.lookup_insert_ne]
      rintro rfl
      exact hnew (mem_of_lookup hl)
    · rintro ⟨session', c', hl, rfl, hx⟩
      have hne : session' ≠ session := fun heq => hname (by rw [heq])
      rw [AList.lookup_insert_ne hne] at hl
      exact ⟨session', c', hl, rfl, hx⟩

end Loaded

def DistinctVIPs (clients : Map String IPsecClient) : Prop :=
  ∀ session session' c c', clients.lookup session = some c → clients.lookup session' = some c' →
    c.virtualIP = c'.virtualIP → session = session'

/-- Charon and the probe table hold the clients, and nothing else. -/
structure IPsecSynced (me : String) (clients : Map String IPsecClient) (h : Host) : Prop where
  conns : Loaded (ipsecConnection me) clients h.conns
  secrets : Loaded ipsecSecret clients h.secrets
  probe : ∀ vip dev, h.route probeTable vip = some dev ↔
    dev = .egi0 ∧ ∃ session c, clients.lookup session = some c ∧ c.virtualIP = vip
  apart : DistinctVIPs clients

namespace IPsecSynced

variable {me : String} {clients want : Map String IPsecClient} {h : Host} {session : String}
  {c : IPsecClient} {f : HostFate}

def unloaded (h : Host) (session : String) (c : IPsecClient) : Host :=
  (((h.exec (.terminateIKE (ipsecConnName session))).exec
    (.unloadConn (ipsecConnName session))).exec (.unloadShared (ipsecConnName session))).exec
    (.delRoute c.virtualIP (some .egi0) probeTable)

def loaded (me : String) (h : Host) (session : String) (c : IPsecClient) : Host :=
  ((h.exec (.loadShared (ipsecSecret session c))).exec
    (.loadConn (ipsecConnection me session c))).exec (.replaceRoute c.virtualIP .egi0 probeTable)

theorem unload (hs : IPsecSynced me clients h) (there : clients.lookup session = some c) :
    IPsecSynced me (clients.erase session) (unloaded h session c) where
  conns := hs.conns.unload session
  secrets := hs.secrets.unload session
  probe vip dev := by
    rw [unloaded, Host.exec, Host.route_setRoute]
    constructor
    · intro hr
      split_ifs at hr with hvip
      · -- the route of the client itself led into the IPsec interface
        have hroute : h.route probeTable c.virtualIP = some .egi0 := (hs.probe _ _).2 ⟨rfl, session, c, there, rfl⟩
        simp [Host.exec, hroute, Host.without] at hr
      · obtain ⟨rfl, session', c', hl, hc'⟩ := (hs.probe vip dev).1 hr
        refine ⟨rfl, session', c', ?_, hc'⟩
        rwa [AList.lookup_erase_ne]
        rintro rfl
        cases there.symm.trans hl
        exact hvip ⟨rfl, hc'.symm⟩
    · rintro ⟨rfl, session', c', hl, rfl⟩
      rw [lookup_erase_eq] at hl
      split_ifs at hl with hne
      rw [if_neg]
      · exact (hs.probe _ _).2 ⟨rfl, session', c', hl, rfl⟩
      · rintro ⟨-, heq⟩
        exact hne (hs.apart session' session c' c hl there heq)
  apart s₁ s₂ c₁ c₂ h₁ h₂ := hs.apart s₁ s₂ c₁ c₂ (sub_erase _ _ _ _ h₁) (sub_erase _ _ _ _ h₂)

theorem load (hs : IPsecSynced me clients h) (distinct : DistinctVIPs want) (sub : Sub clients want)
    (wanted : want.lookup session = some c) (hnew : session ∉ clients) :
    IPsecSynced me (clients.insert session c) (loaded me h session c) where
  conns := hs.conns.load hnew c
  secrets := hs.secrets.load hnew c
  probe vip dev := by
    rw [loaded, Host.exec, Host.route_setRoute]
    by_cases hvip : vip = c.virtualIP
    · subst hvip
      rw [if_pos ⟨rfl, rfl⟩]
      constructor
      · intro heq
        exact ⟨(Option.some.inj heq).symm, session, c, AList.lookup_insert _, rfl⟩
      · rintro ⟨rfl, -⟩
        rfl
    · rw [if_neg fun heq => hvip heq.2]
      refine (hs.probe vip dev).trans (and_congr_right fun _ => ?_)
      constructor
      · rintro ⟨session', c', hl, hc'⟩
        refine ⟨session', c', ?_, hc'⟩
        rwa [AList.lookup_insert_ne]
        rintro rfl
        exact hnew (mem_of_lookup hl)
      · rintro ⟨session', c', hl, rfl⟩
        rw [lookup_insert_eq] at hl
        split_ifs at hl
        · rw [Option.some.inj hl] at hvip
          exact absurd rfl hvip
        · exact ⟨session', c', hl, rfl⟩
  apart s₁ s₂ c₁ c₂ h₁ h₂ := by
    have sub' : Sub (clients.insert session c) want := by
      intro s c' hl
      rw [lookup_insert_eq] at hl
      split_ifs at hl with heq
      · rw [heq, wanted, hl]
      · exact sub s c' hl
    exact distinct s₁ s₂ c₁ c₂ (sub' _ _ h₁) (sub' _ _ h₂)

theorem drop (hf : f.Steady) (want : Map String IPsecClient) {s : Map String IPsecClient × Run}
    (hs : IPsecSynced me s.1 s.2.host) :
    let s' := dropConns f want s
    IPsecSynced me s'.1 s'.2.host ∧ ∀ session c,
      s'.1.lookup session = some c ↔ s.1.lookup session = some c ∧ want.lookup session = some c := by
  have sweeps : Sweeps Prod.fst (fun e => want.lookup e.1 = some e.2) (dropConn f want) :=
    ⟨fun s e hk => by simp [dropConn, hk], fun s e hk => by simp [dropConn, hk]⟩
  refine sweeps.foldl (P := fun s => IPsecSynced me s.1 s.2.host) ?_ (f.perm _ _) hs
  intro s e there hs
  unfold dropConn
  split_ifs
  · exact hs
  · have host : (unloadIPsec f e.1 e.2 s.2).host = unloaded s.2.host e.1 e.2 := by
      simp only [unloadIPsec, ignoreIPsecNotFound, ipIgnore, host_note, host_issueUnless (hf _ _), unloaded]
    rw [host]
    exact hs.unload there

theorem fill (hf : f.Steady) (cfg : GatewayConfig) (distinct : DistinctVIPs want)
    {s : Map String IPsecClient × Run} (sub : Sub s.1 want)
    (hs : IPsecSynced cfg.id s.1 s.2.host) :
    let s' := addConns cfg f want s
    IPsecSynced cfg.id s'.1 s'.2.host ∧ Sub s'.1 want ∧
      ∀ session c, want.lookup session = some c → s'.1.lookup session = some c := by
  have turn : ∀ s e, e.1 ∉ s.1 → (loadIPsec cfg f s e).1 = s.1.insert e.1 e.2 ∧
      (loadIPsec cfg f s e).2.host = loaded cfg.id s.2.host e.1 e.2 := by
    intro s e hmem
    simp only [loadIPsec, if_neg hmem, issue, issueUnless_of_not_fails (hf _ _), note]
    exact ⟨trivial, rfl⟩
  have fills : Fills Prod.fst (loadIPsec cfg f) :=
    ⟨fun s e hmem => by simp [loadIPsec, hmem], fun s e hmem => Or.inr (turn s e hmem).1⟩
  have keep : ∀ (s : Map String IPsecClient × Run) e, want.lookup e.1 = some e.2 → Sub s.1 want →
      IPsecSynced cfg.id s.1 s.2.host →
      IPsecSynced cfg.id (loadIPsec cfg f s e).1 (loadIPsec cfg f s e).2.host := by
    intro s e he sub hs
    by_cases hmem : e.1 ∈ s.1
    · simpa [loadIPsec, hmem] using hs
    · rw [(turn s e hmem).1, (turn s e hmem).2]
      exact hs.load distinct sub he hmem
  have adds : ∀ (s : Map String IPsecClient × Run) e, want.lookup e.1 = some e.2 →
      IPsecSynced cfg.id s.1 s.2.host → True → e.1 ∈ (loadIPsec cfg f s e).1 := by
    intro s e _ _ _
    by_cases hmem : e.1 ∈ s.1
    · simp [loadIPsec, hmem]
    · rw [(turn s e hmem).1]
      exact (AList.mem_insert _).2 (Or.inl rfl)
  have range : ∀ e ∈ f.order s.2.clock want.entries, want.lookup e.1 = some e.2 :=
    fun e he => lookup_of_mem_entries ((f.perm _ _).mem_iff.1 he)
  obtain ⟨synced, sub', all⟩ := fills.foldl (P := fun s => IPsecSynced cfg.id s.1 s.2.host) keep adds range sub hs
  exact ⟨synced, sub', fun session c hl =>
    all ⟨session, c⟩ ((f.perm _ _).mem_iff.2 (AList.mem_lookup_iff.1 hl)) trivial⟩

end IPsecSynced

end Egressa
