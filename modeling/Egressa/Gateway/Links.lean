import Egressa.Gateway.Synced

/-!
# Backbones, rules and routes

The second part of what an agent remembers of its host: the indices and the default routes of the tables of its
backbones (`Wired`), the policy rules (`RulesSynced`), and the `/32` routes of the main table (`RoutesSynced`), which
the return routes and the IPsec routes share.  They hang together (`Linked`).
-/

namespace Egressa

open Tunnel Maps Run

/-! ## Backbones -/

/-- Distinct gateways have distinct indices, and the table of every open backbone leads into it. -/
structure Wired (ix : Indices) (bs : Map String Wire) (h : Host) : Prop where
  bound : ∀ id n, ix.index.lookup id = some n → n < ix.next
  inj : ∀ id id' n, ix.index.lookup id = some n → ix.index.lookup id' = some n → id = id'
  wire : ∀ id b, bs.lookup id = some b →
    ix.index.lookup id = some b.n ∧ h.default (egressTableBase + b.n) = some (.egb b.n)

/-- The rules are those of `forward`, each to the table of its egress. -/
structure RulesSynced (ix : Indices) (forward : Map Addr String) (h : Host) : Prop where
  indexed : ∀ vip egress, forward.lookup vip = some egress → egress ≠ "" ∧ egress ∈ ix.index
  rule : ∀ vip table, h.rules vip table = true ↔ ∃ egress n, forward.lookup vip = some egress ∧
    ix.index.lookup egress = some n ∧ table = egressTableBase + n

/-- The device that the main table sends a virtual IP to. -/
def routeOf (bs : Map String Wire) (ret : Map Addr String) (here : Map Addr Unit) (vip : Addr) :
    Option Device :=
  match ret.lookup vip with
  | some access => (bs.lookup access).map fun b => .egb b.n
  | none => if vip ∈ here then some .egi0 else none

/-- The `/32` routes of the main table are those of `ret` and `here`, for the addresses `mine`. -/
structure RoutesSynced (mine : Set Addr) (bs : Map String Wire) (ret : Map Addr String)
    (here : Map Addr Unit) (h : Host) : Prop where
  named : ∀ vip access, ret.lookup vip = some access → access ≠ ""
  apart : ∀ vip ∈ here, vip ∉ ret
  route : ∀ vip ∈ mine, h.route mainTable vip = routeOf bs ret here vip

/-- Rules and routes are those the agent remembers. -/
structure Linked (mine : Set Addr) (forward ret : Map Addr String) (here : Map Addr Unit)
    (ix : Indices) (bs : Map String Wire) (h : Host) : Prop where
  wired : Wired ix bs h
  rules : RulesSynced ix forward h
  routes : RoutesSynced mine bs ret here h

theorem exists_of_routeOf {bs : Map String Wire} {ret : Map Addr String} {here : Map Addr Unit}
    {vip : Addr} {n : ℕ} (h : routeOf bs ret here vip = some (.egb n)) :
    ∃ access b, ret.lookup vip = some access ∧ bs.lookup access = some b ∧ b.n = n := by
  unfold routeOf at h
  cases hret : ret.lookup vip with
  | none =>
    simp only [hret] at h
    split_ifs at h
    cases Option.some.inj h
  | some access =>
    simp only [hret] at h
    obtain ⟨b, hb, hn⟩ := Option.map_eq_some_iff.1 h
    exact ⟨access, b, rfl, hb, Device.egb.inj hn⟩

namespace Linked

variable {mine : Set Addr} {forward ret : Map Addr String} {here : Map Addr Unit} {ix : Indices}
  {bs : Map String Wire} {h : Host} {id : String} {n : ℕ}

section

variable (hl : Linked mine forward ret here ix bs h)
include hl

theorem close {b : Wire} (hb : bs.lookup id = some b) :
    Linked mine forward ret here ix (bs.erase id) (h.exec (.close b.n)) := by
  have other : ∀ id' b', bs.lookup id' = some b' → id' ≠ id → b'.n ≠ b.n := by
    intro id' b' hb' hne heq
    refine hne (hl.wired.inj id' id b.n ?_ (hl.wired.wire id b hb).1)
    rw [← heq]
    exact (hl.wired.wire id' b' hb').1
  refine ⟨⟨hl.wired.bound, hl.wired.inj, fun id' b' hb' => ?_⟩, ⟨hl.rules.indexed, hl.rules.rule⟩,
    ⟨hl.routes.named, hl.routes.apart, fun vip hvip => ?_⟩⟩
  · rw [lookup_erase_eq] at hb'
    split_ifs at hb' with hne
    obtain ⟨hix, hdefault⟩ := hl.wired.wire id' b' hb'
    refine ⟨hix, ?_⟩
    have := other id' b' hb' hne
    simp [Host.exec, hdefault, Host.without, this]
  · simp only [Host.exec, hl.routes.route vip hvip]
    cases hret : ret.lookup vip with
    | none => simp only [routeOf, hret, Host.without]; split_ifs <;> simp_all
    | some access =>
      by_cases ha : access = id
      · simp [routeOf, hret, ha, hb, Host.without]
      · simp only [routeOf, hret, AList.lookup_erase_ne ha]
        cases hb' : bs.lookup access with
        | none => simp [Host.without]
        | some b' =>
          have := other access b' hb' ha
          simp [Host.without, this]

theorem of_frame {h' : Host} (default : ∀ id b, bs.lookup id = some b →
      h'.default (egressTableBase + b.n) = h.default (egressTableBase + b.n))
    (rules : h'.rules = h.rules)
    (main : ∀ vip ∈ mine, h'.route mainTable vip = h.route mainTable vip) :
    Linked mine forward ret here ix bs h' := by
  refine ⟨⟨hl.wired.bound, hl.wired.inj, fun id b hb => ?_⟩, ⟨hl.rules.indexed, ?_⟩,
    ⟨hl.routes.named, hl.routes.apart, fun vip hvip => ?_⟩⟩
  · rw [default id b hb]
    exact hl.wired.wire id b hb
  · rw [rules]
    exact hl.rules.rule
  · rw [main vip hvip]
    exact hl.routes.route vip hvip

theorem onTable {c : HostCmd} (hc : c.OnTable (egressTableBase + ix.next)) :
    Linked mine forward ret here ix bs (h.exec c) := by
  cases c with
  | flushTable t =>
    obtain rfl : t = _ := hc
    refine hl.of_frame (fun id b hb => ?_) rfl fun vip _ => ?_
    · have := hl.wired.bound id b.n (hl.wired.wire id b hb).1
      have hne : egressTableBase + b.n ≠ egressTableBase + ix.next := by omega
      simp [Host.exec, Function.update_of_ne hne]
    · have hne : mainTable ≠ egressTableBase + ix.next := by
        unfold mainTable egressTableBase
        omega
      simp [Host.exec, Function.update_of_ne hne]
  | blackhole t => exact hl.of_frame (fun _ _ _ => rfl) rfl fun _ _ => rfl
  | _ => exact False.elim hc

theorem index (hid : ix.index.lookup id = none) :
    Linked mine forward ret here ⟨ix.index.insert id ix.next, ix.next + 1⟩ bs h := by
  have same : ∀ id' n, ix.index.lookup id' = some n → (ix.index.insert id ix.next).lookup id' = some n := by
    intro id' n hn
    rw [AList.lookup_insert_ne, hn]
    rintro rfl
    cases hid.symm.trans hn
  refine ⟨⟨fun id' n hn => ?_, fun id₁ id₂ n h₁ h₂ => ?_, fun id' b hb => ?_⟩,
    ⟨fun vip egress hf => ?_, fun vip table => ?_⟩, hl.routes⟩
  · rw [lookup_insert_eq] at hn
    split_ifs at hn
    · cases hn
      exact Nat.lt_succ_self _
    · exact Nat.lt_succ_of_lt (hl.wired.bound id' n hn)
  · rw [lookup_insert_eq] at h₁ h₂
    split_ifs at h₁ h₂ with e₁ e₂ e₂
    · rw [e₁, e₂]
    · have := hl.wired.bound id₂ n h₂
      have := Option.some.inj h₁
      omega
    · have := hl.wired.bound id₁ n h₁
      have := Option.some.inj h₂
      omega
    · exact hl.wired.inj id₁ id₂ n h₁ h₂
  · exact ⟨same id' b.n (hl.wired.wire id' b hb).1, (hl.wired.wire id' b hb).2⟩
  · obtain ⟨hne, hmem⟩ := hl.rules.indexed vip egress hf
    exact ⟨hne, (AList.mem_insert _).2 (Or.inr hmem)⟩
  · rw [hl.rules.rule]
    constructor
    · rintro ⟨egress, n, hf, hn, ht⟩
      exact ⟨egress, n, hf, same egress n hn, ht⟩
    · rintro ⟨egress, n, hf, hn, ht⟩
      obtain ⟨m, hm⟩ := lookup_of_mem (hl.rules.indexed vip egress hf).2
      obtain rfl : m = n := Option.some.inj ((same egress m hm).symm.trans hn)
      exact ⟨egress, m, hf, hm, ht⟩

theorem onDevice (hid : id ∉ bs) (hn : ix.index.lookup id = some n) {c : HostCmd} (hc : c.OnDevice n) :
    Linked mine forward ret here ix bs (h.exec c) := by
  have other : ∀ id' b, bs.lookup id' = some b → b.n ≠ n := by
    intro id' b hb heq
    obtain rfl := hl.wired.inj id' id n (heq ▸ (hl.wired.wire id' b hb).1) hn
    exact hid (mem_of_lookup hb)
  cases c with
  | close m =>
    obtain rfl : m = n := hc
    refine hl.of_frame (fun id' b hb => ?_) rfl fun vip hvip => ?_
    · have hne : b.n ≠ m := other id' b hb
      have hd := (hl.wired.wire id' b hb).2
      exact Host.without_of_ne (by simpa [hd] using hne)
    · refine Host.without_of_ne fun hr => ?_
      rw [hl.routes.route vip hvip] at hr
      obtain ⟨access, b, -, hb, hbn⟩ := exists_of_routeOf hr
      exact other access b hb hbn
  | replaceDefault m t =>
    obtain ⟨rfl, rfl⟩ := hc
    refine hl.of_frame (fun id' b hb => ?_) rfl fun _ _ => rfl
    have := other id' b hb
    have hne : egressTableBase + b.n ≠ egressTableBase + m := by omega
    simp [Host.exec, Function.update_of_ne hne]
  | newReal m => exact hl.of_frame (fun _ _ _ => rfl) rfl fun _ _ => rfl
  | addrUp m => exact hl
  | _ => exact False.elim hc

theorem insert (hn : ix.index.lookup id = some n) (default : h.default (egressTableBase + n) = some (.egb n))
    (free : ∀ vip, ret.lookup vip ≠ some id) (want : Option Backbone) :
    Linked mine forward ret here ix (bs.insert id ⟨n, want⟩) h := by
  refine ⟨⟨hl.wired.bound, hl.wired.inj, fun id' b hb => ?_⟩, hl.rules,
    ⟨hl.routes.named, hl.routes.apart, fun vip hvip => ?_⟩⟩
  · rw [lookup_insert_eq] at hb
    split_ifs at hb with heq
    · cases hb
      rw [heq]
      exact ⟨hn, default⟩
    · exact hl.wired.wire id' b hb
  · rw [hl.routes.route vip hvip]
    unfold routeOf
    cases hret : ret.lookup vip with
    | none => rfl
    | some access =>
      have hne : access ≠ id := fun heq => free vip (heq ▸ hret)
      simp only [AList.lookup_insert_ne hne]

theorem onWire {nodeIP : Addr} (hnode : nodeIP ∉ mine)
    {c : HostCmd} (hc : c.OnWire nodeIP) : Linked mine forward ret here ix bs (h.exec c) := by
  cases c with
  | replaceRoute a dev t =>
    obtain ⟨rfl, rfl⟩ := hc
    refine hl.of_frame (fun _ _ _ => rfl) rfl fun vip hvip => ?_
    rw [Host.exec, Host.route_setRoute, if_neg]
    rintro ⟨-, rfl⟩
    exact hnode hvip
  | addPeer dev key ips endpoint keepalive => exact hl.of_frame (fun _ _ _ => rfl) rfl fun _ _ => rfl
  | removePeer dev key => exact hl.of_frame (fun _ _ _ => rfl) rfl fun _ _ => rfl
  | _ => exact False.elim hc

theorem setWant {b : Wire} (hb : bs.lookup id = some b) (want : Option Backbone) :
    Linked mine forward ret here ix (bs.insert id { b with want }) h := by
  refine ⟨⟨hl.wired.bound, hl.wired.inj, fun id' b' hb' => ?_⟩, hl.rules,
    ⟨hl.routes.named, hl.routes.apart, fun vip hvip => ?_⟩⟩
  · rw [lookup_insert_eq] at hb'
    split_ifs at hb' with heq
    · cases hb'
      rw [heq]
      exact hl.wired.wire id b hb
    · exact hl.wired.wire id' b' hb'
  · rw [hl.routes.route vip hvip]
    unfold routeOf
    cases hret : ret.lookup vip with
    | none => rfl
    | some access =>
      simp only [lookup_insert_eq]
      split_ifs with heq
      · rw [heq, hb]
        rfl
      · rfl

end

/-! ### The loops over the backbones -/

variable {cfg : GatewayConfig} {f : HostFate} {want : Map String Backbone}

theorem closeBackbones (f : HostFate) (want : Map String Backbone) {s : Map String Wire × Run}
    (hl : Linked mine forward ret here ix s.1 s.2.host) :
    let s' := Egressa.closeBackbones f want s
    Linked mine forward ret here ix s'.1 s'.2.host ∧
      ∀ id b, s'.1.lookup id = some b ↔ s.1.lookup id = some b ∧ id ∈ want := by
  have sweeps : Sweeps Prod.fst (fun e => e.1 ∈ want) (closeBackbone want) :=
    ⟨fun s e hk => by simp [closeBackbone, hk], fun s e hk => by simp [closeBackbone, hk]⟩
  refine sweeps.foldl (P := fun s => Linked mine forward ret here ix s.1 s.2.host) ?_ (f.perm _ _) hl
  intro s e there hl
  unfold closeBackbone
  split_ifs
  · exact hl
  · exact hl.close there

theorem default_openDevice {r : Run} (h : (openDevice f n r).1 = none) :
    (openDevice f n r).2.host.default (egressTableBase + n) = some (.egb n) := by
  unfold openDevice at h ⊢
  generalize r.issue f (.newReal n) = x at h ⊢
  obtain ⟨_ | err, r⟩ := x
  · simp only [andThen] at h ⊢
    generalize r.issue f (.addrUp n) = x at h ⊢
    obtain ⟨_ | err, r⟩ := x
    · rcases issueUnless_cases (fun _ => false) f (.replaceDefault n (egressTableBase + n)) r with
        ⟨err, -, heq⟩ | ⟨-, heq⟩
      · simp [issue, heq] at h
      · simp [issue, heq, exec, Host.exec]
    · simp at h
  · simp [andThen] at h

theorem openDevice_steady (hf : f.Steady) (n : ℕ) (r : Run) : (openDevice f n r).1 = none := by
  simp only [openDevice, issue, issueUnless_of_not_fails (hf _ _), andThen]

theorem indexLocked_steady (hf : f.Steady) (id : String) (ix : Indices) (r : Run) :
    (indexLocked f id ix r).2.1 = none := by
  unfold indexLocked
  cases ix.index.lookup id with
  | some n => rfl
  | none => simp only [ipIgnore, issue, issueUnless_of_not_fails (hf _ _), andThen]

theorem indexLocked {r : Run} (hl : Linked mine forward ret here ix bs r.host) (id : String) :
    ∃ n err ix' r', Egressa.indexLocked f id ix r = (n, err, ix', r') ∧
      ix'.index.lookup id = some n ∧ Linked mine forward ret here ix' bs r'.host := by
  rcases indexLocked_cases f id ix r with ⟨n, hn, heq⟩ | ⟨hnone, err, r', heq, issues, -⟩
  · exact ⟨n, none, ix, r, heq, hn, hl⟩
  · have prepared := issues.keeps (I := Linked mine forward ret here ix bs) (fun c hc h hl => hl.onTable hc) hl
    exact ⟨_, err, _, r', heq, AList.lookup_insert _, prepared.index hnone⟩

theorem openBackbone {s : Wiring} (hl : Linked mine forward ret here s.indices s.backbones s.run.host)
    (free : id ∉ s.backbones → ∀ vip, ret.lookup vip ≠ some id) :
    let x := Egressa.openBackbone f id s
    Linked mine forward ret here x.2.indices x.2.backbones x.2.run.host ∧
      (∀ b, x.1 = .ok b → x.2.backbones.lookup id = some b) ∧
      (∀ id' ∈ s.backbones, id' ∈ x.2.backbones) ∧ (f.Steady → ∃ b, x.1 = .ok b) := by
  unfold Egressa.openBackbone
  cases hb : s.backbones.lookup id with
  | some b =>
    exact ⟨hl, fun b' heq => by rw [← Except.ok.inj heq]; exact hb, fun _ h => h, fun _ => ⟨b, rfl⟩⟩
  | none =>
    have hid : id ∉ s.backbones := AList.lookup_eq_none.1 hb
    obtain ⟨n, err, ix, r, heq, hn, hl⟩ := hl.indexLocked (f := f) id
    have herr : f.Steady → err = none := fun hf => by
      have := indexLocked_steady hf id s.indices s.run
      rwa [heq] at this
    have opened := (openDevice_issues f n r).keeps (I := Linked mine forward ret here ix s.backbones)
      (fun c hc h hl => hl.onDevice hid hn hc) hl
    have default : (openDevice f n r).1 = none → _ := default_openDevice
    simp only [heq]
    cases err with
    | some err =>
      exact ⟨hl, fun b h => (by cases h), fun _ h => h, fun hf => by cases herr hf⟩
    | none =>
      have steady : f.Steady → (openDevice f n r).1 = none := fun hf => openDevice_steady hf n r
      dsimp only
      generalize openDevice f n r = x at opened default steady ⊢
      obtain ⟨_ | err, r'⟩ := x
      · refine ⟨opened.insert hn (default rfl) (free hid) none, fun b h => ?_, fun id' h => ?_, fun _ => ⟨_, rfl⟩⟩
        · rw [← Except.ok.inj h]
          exact AList.lookup_insert _
        · exact (AList.mem_insert _).2 (Or.inr h)
      · exact ⟨opened, fun b h => (by cases h), fun _ h => h, fun hf => by cases steady hf⟩

theorem setBackbone (cfg : GatewayConfig) (f : HostFate) {b : Wire} {w : Backbone} {s : Map String Wire × Run}
    (hl : Linked mine forward ret here ix s.1 s.2.host) (hb : s.1.lookup id = some b)
    (hnode : w.nodeIP ∉ mine) :
    let x := Egressa.setBackbone cfg f id w b s
    Linked mine forward ret here ix x.2.1 x.2.2.host ∧ ∀ id', id' ∈ s.1 ↔ id' ∈ x.2.1 := by
  have issued := (setBackbone_issues cfg f id w b s).keeps
    (I := Linked mine forward ret here ix s.1) (fun c hc h hl => hl.onWire hnode hc) hl
  have maps : (Egressa.setBackbone cfg f id w b s).2.1 = s.1 ∨
      (Egressa.setBackbone cfg f id w b s).2.1 = s.1.insert id { b with want := some w } := by
    unfold Egressa.setBackbone
    split_ifs
    · exact Or.inl rfl
    cases cfg.decodeKey w.publicKey with
    | error err => exact Or.inl rfl
    | ok key =>
      dsimp only
      split
      · exact Or.inl rfl
      · exact Or.inr rfl
  dsimp only
  rcases maps with heq | heq
  · rw [heq]
    exact ⟨issued, fun _ => Iff.rfl⟩
  · rw [heq]
    refine ⟨issued.setWant hb _, fun id' => ?_⟩
    rw [AList.mem_insert]
    constructor
    · exact Or.inr
    · rintro (rfl | h)
      · exact mem_of_lookup hb
      · exact h

theorem applyBackbone (cfg : GatewayConfig) (f : HostFate) {s : Wiring}
    (hl : Linked mine forward ret here s.indices s.backbones s.run.host)
    (free : id ∉ s.backbones → ∀ vip, ret.lookup vip ≠ some id)
    (hnode : ((want.lookup id).getD default).nodeIP ∉ mine) :
    let s' := Egressa.applyBackbone cfg f want s id
    Linked mine forward ret here s'.indices s'.backbones s'.run.host ∧
      (∀ id' ∈ s.backbones, id' ∈ s'.backbones) ∧ (f.Steady → id ∈ s'.backbones) := by
  have opened := hl.openBackbone (f := f) free
  unfold Egressa.applyBackbone applyBackboneLocked
  generalize (want.lookup id).getD default = w at hnode ⊢
  generalize Egressa.openBackbone f id s = x at opened ⊢
  obtain ⟨res, s'⟩ := x
  obtain ⟨hl, there, mono, steady⟩ := opened
  cases res with
  | error err =>
    exact ⟨hl, mono, fun hf => by obtain ⟨b, hb⟩ := steady hf; cases hb⟩
  | ok b =>
    have hb := there b rfl
    obtain ⟨hl, same⟩ := setBackbone cfg f (s := (s'.backbones, s'.run)) hl hb hnode
    dsimp only
    generalize Egressa.setBackbone cfg f id w b (s'.backbones, s'.run) = x at hl same ⊢
    obtain ⟨_ | err, bs, r⟩ := x
    · exact ⟨hl, fun id' h => (same id').1 (mono id' h), fun _ => (same id).1 (mem_of_lookup hb)⟩
    · exact ⟨hl, fun id' h => (same id').1 (mono id' h), fun _ => (same id).1 (mem_of_lookup hb)⟩

theorem applyBackbones (cfg : GatewayConfig) (f : HostFate) (hnodes : ∀ id b, want.lookup id = some b → b.nodeIP ∉ mine)
    {ids : List String} (hids : ∀ id ∈ ids, id ∈ want) {s : Wiring}
    (hl : Linked mine forward ret here s.indices s.backbones s.run.host)
    (open_ : ∀ vip access, ret.lookup vip = some access → access ∈ want → access ∈ s.backbones) :
    let s' := ids.foldl (Egressa.applyBackbone cfg f want) s
    Linked mine forward ret here s'.indices s'.backbones s'.run.host ∧
      (∀ id ∈ s.backbones, id ∈ s'.backbones) ∧ (f.Steady → ∀ id ∈ ids, id ∈ s'.backbones) := by
  induction ids generalizing s with
  | nil => exact ⟨hl, fun _ h => h, fun _ => by simp⟩
  | cons id ids ih =>
    have hid := hids id List.mem_cons_self
    obtain ⟨b, hb⟩ := lookup_of_mem hid
    have hnode : ((want.lookup id).getD default).nodeIP ∉ mine := by
      rw [hb]
      exact hnodes id b hb
    obtain ⟨hl, mono, steady⟩ := hl.applyBackbone cfg f (fun hnot vip hret => hnot (open_ vip id hret hid)) hnode
    obtain ⟨hl, mono', steady'⟩ := ih (fun id' h => hids id' (List.mem_cons_of_mem _ h)) hl
      (fun vip access hret hw => mono access (open_ vip access hret hw))
    refine ⟨hl, fun id' h => mono' id' (mono id' h), fun hf id' h => ?_⟩
    rcases List.mem_cons.1 h with rfl | h
    · exact mono' _ (steady hf)
    · exact steady' hf id' h

end Linked

/-! ## Rules -/

namespace RulesSynced

variable {ix : Indices} {forward want : Map Addr String} {h : Host} {f : HostFate} {vip : Addr} {egress : String}

theorem remove (hr : RulesSynced ix forward h) (there : forward.lookup vip = some egress) :
    RulesSynced ix (forward.erase vip)
      (h.exec (.delRule vip (egressTableBase + (ix.index.lookup egress).getD 0))) where
  indexed vip' egress' hl := hr.indexed vip' egress' (sub_erase _ _ _ _ hl)
  rule vip' table := by
    obtain ⟨n, hn⟩ := lookup_of_mem (hr.indexed vip egress there).2
    rw [Host.exec, Host.rules_setRule, hn, Option.getD_some, lookup_erase_eq]
    by_cases hv : vip' = vip
    · subst hv
      rw [if_pos rfl]
      constructor
      · intro hrule
        split_ifs at hrule with ht
        obtain ⟨egress', n', hf, hn', rfl⟩ := (hr.rule vip' table).1 hrule
        cases there.symm.trans hf
        cases hn.symm.trans hn'
        exact absurd ⟨rfl, rfl⟩ ht
      · rintro ⟨egress', n', hf, -⟩
        cases hf
    · rw [if_neg fun heq => hv heq.1, if_neg hv]
      exact hr.rule vip' table

theorem drop (hf : f.Tidy) (want : Map Addr String) {s : Map Addr String × Run} (hr : RulesSynced ix s.1 s.2.host) :
    let s' := dropRules f ix want s
    RulesSynced ix s'.1 s'.2.host ∧ ∀ vip egress,
      s'.1.lookup vip = some egress ↔ s.1.lookup vip = some egress ∧ want.lookup vip = some egress := by
  obtain ⟨synced, kept⟩ := sweep_foldl (f := f) (P := RulesSynced ix) (dropRule f ix want) (fun _ _ => rfl)
    (fun _ _ => hf.removes _ _ trivial) (fun _ _ _ there hs => hs.remove there) hr
  -- an egress has a name, so the plan's default does not pass for it
  exact ⟨synced, fun vip egress => (kept vip egress).trans (and_congr_right fun hl =>
    getD_lookup_eq (hr.indexed vip egress hl).1)⟩

end RulesSynced

namespace Linked

variable {mine : Set Addr} {forward ret want : Map Addr String} {here : Map Addr Unit}
  {ix : Indices} {bs : Map String Wire} {h : Host} {f : HostFate} {vip : Addr} {egress : String}
  {n : ℕ}

theorem addRule (hl : Linked mine forward ret here ix bs h) (hnew : vip ∉ forward)
    (hne : egress ≠ "") (hn : ix.index.lookup egress = some n) :
    Linked mine (forward.insert vip egress) ret here ix bs (h.exec (.addRule vip (egressTableBase + n))) := by
  refine ⟨⟨hl.wired.bound, hl.wired.inj, hl.wired.wire⟩, ⟨fun vip' egress' hf => ?_, fun vip' table => ?_⟩,
    ⟨hl.routes.named, hl.routes.apart, hl.routes.route⟩⟩
  · rw [lookup_insert_eq] at hf
    split_ifs at hf
    · cases hf
      exact ⟨hne, mem_of_lookup hn⟩
    · exact hl.rules.indexed vip' egress' hf
  · rw [Host.exec, Host.rules_setRule, lookup_insert_eq]
    by_cases hv : vip' = vip
    · subst hv
      rw [if_pos rfl]
      constructor
      · intro hrule
        split_ifs at hrule with ht
        · exact ⟨egress, n, rfl, hn, ht.2⟩
        · obtain ⟨egress', n', hf, -⟩ := (hl.rules.rule vip' table).1 hrule
          exact absurd (mem_of_lookup hf) hnew
      · rintro ⟨egress', n', hf, hn', rfl⟩
        cases hf
        cases hn.symm.trans hn'
        rw [if_pos ⟨rfl, rfl⟩]
    · rw [if_neg fun heq => hv heq.1, if_neg hv]
      exact hl.rules.rule vip' table

theorem forwardTo (hf : f.Tidy) {s : Forwarding} {e : Entry Addr String} (hmem : e.1 ∉ s.forward)
    (hne : e.2 ≠ "") (hl : Linked mine s.forward ret here s.indices bs s.run.host) :
    let s' := Egressa.forwardTo f s e
    Linked mine s'.forward ret here s'.indices bs s'.run.host ∧ (f.Steady → e.1 ∈ s'.forward) := by
  obtain ⟨n, err, ix, r, heq, hn, hl⟩ := hl.indexLocked (f := f) e.2
  have steady : f.Steady → err = none := fun hs => by
    have := indexLocked_steady hs e.2 s.indices s.run
    rwa [heq] at this
  simp only [Egressa.forwardTo, if_neg hmem, heq]
  cases err with
  | some err => exact ⟨hl, fun hs => by cases steady hs⟩
  | none =>
    dsimp only
    rcases issueUnless_cases benign f (.addRule e.1 (egressTableBase + n)) r with
      ⟨err, hfail, h⟩ | ⟨-, h⟩
    · rw [ipIgnore, h, hf.addRule _ _ _ _ hfail]
      exact ⟨hl, fun hs => by rw [hs] at hfail; cases hfail⟩
    · rw [ipIgnore, h]
      exact ⟨hl.addRule hmem hne hn, fun _ => (AList.mem_insert _).2 (Or.inl rfl)⟩

theorem addRules (hf : f.Tidy) (named : ∀ vip egress, want.lookup vip = some egress → egress ≠ "")
    {s : Forwarding} (sub : Sub s.forward want)
    (hl : Linked mine s.forward ret here s.indices bs s.run.host) :
    let s' := Egressa.addRules f want s
    Linked mine s'.forward ret here s'.indices bs s'.run.host ∧ Sub s'.forward want ∧
      (f.Steady → ∀ vip egress, want.lookup vip = some egress → s'.forward.lookup vip = some egress) := by
  have fills : Fills Forwarding.forward (Egressa.forwardTo f) := by
    refine ⟨fun s e hmem => by simp [Egressa.forwardTo, hmem], fun s e hmem => ?_⟩
    simp only [Egressa.forwardTo, if_neg hmem]
    generalize Egressa.indexLocked f e.2 s.indices s.run = x
    obtain ⟨n, _ | err, ix, r⟩ := x
    · dsimp only
      generalize r.ipIgnore f (.addRule e.1 (egressTableBase + n)) = y
      obtain ⟨_ | err, r⟩ := y
      · exact Or.inr rfl
      · exact Or.inl rfl
    · exact Or.inl rfl
  have turn : ∀ s e, want.lookup e.1 = some e.2 → Sub s.forward want →
      Linked mine s.forward ret here s.indices bs s.run.host →
      Linked mine (Egressa.forwardTo f s e).forward ret here (Egressa.forwardTo f s e).indices bs
        (Egressa.forwardTo f s e).run.host := by
    intro s e he sub hl
    by_cases hmem : e.1 ∈ s.forward
    · simpa [Egressa.forwardTo, hmem] using hl
    · exact (forwardTo hf hmem (named _ _ he) hl).1
  have adds : ∀ s e, want.lookup e.1 = some e.2 → Linked mine s.forward ret here s.indices bs s.run.host → f.Steady →
      e.1 ∈ (Egressa.forwardTo f s e).forward := by
    intro s e he hl hs
    by_cases hmem : e.1 ∈ s.forward
    · simp [Egressa.forwardTo, hmem]
    · exact (forwardTo hf hmem (named _ _ he) hl).2 hs
  have range : ∀ e ∈ f.order s.run.clock want.entries, want.lookup e.1 = some e.2 :=
    fun e he => lookup_of_mem_entries ((f.perm _ _).mem_iff.1 he)
  obtain ⟨linked, sub', all⟩ := fills.foldl
    (P := fun s => Linked mine s.forward ret here s.indices bs s.run.host) turn adds range sub hl
  exact ⟨linked, sub', fun hs vip egress hw =>
    all ⟨vip, egress⟩ ((f.perm _ _).mem_iff.2 (AList.mem_lookup_iff.1 hw)) hs⟩

end Linked

/-! ## Routes -/

namespace RoutesSynced

variable {mine : Set Addr} {bs : Map String Wire} {ret want : Map Addr String}
  {here : Map Addr Unit} {h : Host} {f : HostFate} {vip : Addr}

theorem route_other {dev : Option Device} {vip' : Addr} (hne : vip' ≠ vip) :
    (h.setRoute mainTable vip dev).route mainTable vip' = h.route mainTable vip' := by
  rw [Host.route_setRoute, if_neg fun heq => hne heq.2]

theorem route_self {dev : Option Device} : (h.setRoute mainTable vip dev).route mainTable vip = dev := by
  rw [Host.route_setRoute, if_pos ⟨rfl, rfl⟩]

section

variable (hr : RoutesSynced mine bs ret here h)
include hr

theorem removeHere (there : vip ∈ here) : RoutesSynced mine bs ret (here.erase vip)
      (h.exec (.delRoute vip (some .egi0) mainTable)) where
  named := hr.named
  apart vip' hmem := hr.apart vip' (AList.mem_erase.1 hmem).2
  route vip' hmine := by
    by_cases hv : vip' = vip
    · subst hv
      have hret : ret.lookup vip' = none := AList.lookup_eq_none.2 (hr.apart vip' there)
      rw [Host.exec, route_self, Option.elim_some, hr.route vip' hmine]
      simp [routeOf, hret, there, Host.without, AList.mem_erase]
    · rw [Host.exec, route_other hv, hr.route vip' hmine]
      simp [routeOf, AList.mem_erase, hv]

theorem removeReturn (there : vip ∈ ret) :
    RoutesSynced mine bs (ret.erase vip) here (h.exec (.delRoute vip none mainTable)) where
  named vip' access hl := hr.named vip' access (sub_erase _ _ _ _ hl)
  apart vip' hmem hret := hr.apart vip' hmem (AList.mem_erase.1 hret).2
  route vip' hmine := by
    by_cases hv : vip' = vip
    · subst hv
      have hhere : vip' ∉ here := fun hmem => hr.apart vip' hmem there
      rw [Host.exec, route_self]
      simp [routeOf, hhere]
    · rw [Host.exec, route_other hv, hr.route vip' hmine]
      simp only [routeOf, AList.lookup_erase_ne hv]

theorem addReturn {access : String} {b : Wire}
    (hb : bs.lookup access = some b) (hne : access ≠ "") (hhere : vip ∉ here) :
    RoutesSynced mine bs (ret.insert vip access) here (h.exec (.replaceRoute vip (.egb b.n) mainTable)) where
  named vip' access' hl := by
    rw [lookup_insert_eq] at hl
    split_ifs at hl
    · rwa [← Option.some.inj hl]
    · exact hr.named vip' access' hl
  apart vip' hmem hret := by
    rcases (AList.mem_insert _).1 hret with rfl | hret
    · exact hhere hmem
    · exact hr.apart vip' hmem hret
  route vip' hmine := by
    by_cases hv : vip' = vip
    · subst hv
      rw [Host.exec, route_self]
      simp [routeOf, hb]
    · rw [Host.exec, route_other hv, hr.route vip' hmine]
      simp only [routeOf, AList.lookup_insert_ne hv]

theorem addHere (hret : vip ∉ ret) : RoutesSynced mine bs ret (here.insert vip ())
      (h.exec (.replaceRoute vip .egi0 mainTable)) where
  named := hr.named
  apart vip' hmem := by
    rcases (AList.mem_insert _).1 hmem with rfl | hmem
    · exact hret
    · exact hr.apart vip' hmem
  route vip' hmine := by
    by_cases hv : vip' = vip
    · subst hv
      rw [Host.exec, route_self]
      simp [routeOf, AList.lookup_eq_none.2 hret]
    · rw [Host.exec, route_other hv, hr.route vip' hmine]
      simp [routeOf, hv]

end

theorem dropHeres (hf : f.Tidy) (want : Map Addr Unit) {s : Map Addr Unit × Run}
    (hr : RoutesSynced mine bs ret s.1 s.2.host) :
    let s' := Egressa.dropHeres f want s
    RoutesSynced mine bs ret s'.1 s'.2.host ∧ ∀ vip, vip ∈ s'.1 → vip ∈ want := by
  obtain ⟨synced, kept⟩ := sweep_foldl (f := f) (P := RoutesSynced mine bs ret) (dropHere f want)
    (fun _ _ => rfl) (fun _ _ => hf.removes _ _ rfl) (fun _ _ _ there hs => hs.removeHere (mem_of_lookup there)) hr
  refine ⟨synced, fun vip hmem => ?_⟩
  obtain ⟨u, hu⟩ := lookup_of_mem hmem
  exact ((kept vip u).1 hu).2

theorem dropReturns (hf : f.Tidy) (want : Map Addr String) {s : Map Addr String × Run}
    (hr : RoutesSynced mine bs s.1 here s.2.host) :
    let s' := Egressa.dropReturns f want s
    RoutesSynced mine bs s'.1 here s'.2.host ∧ ∀ vip access,
      s'.1.lookup vip = some access ↔ s.1.lookup vip = some access ∧ want.lookup vip = some access := by
  obtain ⟨synced, kept⟩ := sweep_foldl (f := f) (P := fun m h => RoutesSynced mine bs m here h)
    (dropReturn f want) (fun _ _ => rfl) (fun _ _ => hf.removes _ _ rfl)
    (fun _ _ _ there hs => hs.removeReturn (mem_of_lookup there)) hr
  exact ⟨synced, fun vip access => (kept vip access).trans (and_congr_right fun hl =>
    getD_lookup_eq (hr.named vip access hl))⟩

theorem addReturns (named : ∀ vip access, want.lookup vip = some access → access ≠ "")
    (apart : ∀ vip ∈ here, vip ∉ want) {s : Map Addr String × Run} (sub : Sub s.1 want)
    (opened : ∀ vip access, s.1.lookup vip = some access → access ∈ bs)
    (hr : RoutesSynced mine bs s.1 here s.2.host) :
    let s' := Egressa.addReturns f bs want s
    (RoutesSynced mine bs s'.1 here s'.2.host ∧
      ∀ vip access, s'.1.lookup vip = some access → access ∈ bs) ∧ Sub s'.1 want ∧
      (f.Steady → ∀ vip access, want.lookup vip = some access → access ∈ bs → s'.1.lookup vip = some access) := by
  have fills : FillsBy f (fun e => (bs.lookup e.2).map fun b => .replaceRoute e.1 (.egb b.n) mainTable)
      (returnVia f bs) := by
    refine ⟨fun s e hmem => by simp [returnVia, hmem], fun s e hmem hc => ?_, fun s e c hmem hc => ?_⟩
    · simp [returnVia, hmem, Option.map_eq_none_iff.1 hc]
    · obtain ⟨b, hb, rfl⟩ := Option.map_eq_some_iff.1 hc
      simp only [returnVia, if_neg hmem, hb]
  obtain ⟨synced, sub', all⟩ := fills.foldl (P := fun m h => RoutesSynced mine bs m here h ∧
      ∀ vip access, m.lookup vip = some access → access ∈ bs)
    (fun m h e c hc he _ _ hs => by
      obtain ⟨b, hb, rfl⟩ := Option.map_eq_some_iff.1 hc
      refine ⟨hs.1.addReturn hb (named _ _ he) fun hmem => apart e.1 hmem (mem_of_lookup he), fun vip access hl => ?_⟩
      rw [lookup_insert_eq] at hl
      split_ifs at hl
      · rw [← Option.some.inj hl]
        exact mem_of_lookup hb
      · exact hs.2 vip access hl)
    sub ⟨hr, opened⟩
  refine ⟨synced, sub', fun hf vip access hw hmem => all hf vip access hw ?_⟩
  obtain ⟨b, hb⟩ := lookup_of_mem hmem
  simp [hb]

theorem addHeres {want : Map Addr Unit} (apart : ∀ vip ∈ want, vip ∉ ret)
    {s : Map Addr Unit × Run} (sub : ∀ vip ∈ s.1, vip ∈ want)
    (hr : RoutesSynced mine bs ret s.1 s.2.host) :
    let s' := Egressa.addHeres f want s
    RoutesSynced mine bs ret s'.1 s'.2.host ∧ (∀ vip ∈ s'.1, vip ∈ want) ∧ (f.Steady → ∀ vip ∈ want, vip ∈ s'.1) := by
  have fills : FillsBy f (fun e => some (.replaceRoute e.1 .egi0 mainTable)) (returnHere f) := by
    refine ⟨fun s e hmem => by simp [returnHere, hmem], fun s e hmem hc => (by cases hc), fun s e c hmem hc => ?_⟩
    cases hc
    simp only [returnHere, if_neg hmem]
  have sub₀ : Sub s.1 want := by
    intro vip u hu
    obtain ⟨u', hu'⟩ := lookup_of_mem (sub vip (mem_of_lookup hu))
    exact hu'
  obtain ⟨synced, sub', all⟩ := fills.foldl (P := RoutesSynced mine bs ret) (fun m h e c hc he _ _ hs => by
      cases hc
      exact hs.addHere (apart e.1 (mem_of_lookup he)))
    sub₀ hr
  refine ⟨synced, fun vip hmem => ?_, fun hf vip hmem => ?_⟩
  · obtain ⟨u, hu⟩ := lookup_of_mem hmem
    exact mem_of_lookup (sub' vip u hu)
  · obtain ⟨u, hu⟩ := lookup_of_mem hmem
    exact mem_of_lookup (all hf vip u hu rfl)

end RoutesSynced

end Egressa
