import Egressa.Conc.Length
import Egressa.IPsec.Phases

/-!
# Bypass routes

A client that tunnels everything keeps a host route past the tunnels to each controller and to each gateway
(`acquireBypass`, `releaseBypass` in `internal/ipsec/client.go`).  A `Ledger` relates their counts, the kernel as it
is and the kernel as it was before the client.
-/

namespace Egressa.IPsec

open Conc Maps
open Function (update update_eq_self update_of_ne update_self)

variable {ι : Type}

/-! ## A kernel that is asked -/

/-- What the kernel answers where the route of `key` is the one that is found. -/
def Kernel.answer (k : Kernel) : Except Sentinel (ℤ × NetPrefix) → Except Sentinel Route
  | .error e => .error e
  | .ok key => match k.routes key with
    | some p => .ok p.route
    | none => .error .notExist

/-- What decides over an operation where a lookup finds a route of the kernel, and a bypass route can always be
deleted. -/
structure Query (ι : Type) where
  fate : Fate ι := {}
  routeGet : Except Sentinel (ℤ × NetPrefix) := .error .notExist
  defaultRoute : Except Sentinel (ℤ × NetPrefix) := .error .notExist

/-- Only the `RouteDel` of `releaseBypass` succeeds in any case. -/
def Query.fails (q : Query ι) : Op → Bool
  | .undo (.releaseBypass _) => false
  | _ => q.fate.fails

/-- What becomes of operation `o` if the kernel is `k`. -/
def Query.fateOf (q : Query ι) (o : Op) (k : Kernel) : Fate ι :=
  { q.fate with fails := q.fails o, routeGet := k.answer q.routeGet, defaultRoute := k.answer q.defaultRoute }

/-- A node whose kernel answers the lookups of routes. -/
def asking (ι : Type) : System ι NodeSig (Node ι) (Query ι) where
  exec q i o s := Node.exec (q.fateOf o s.kernel) i o s

/-- The links of `k₀` are still there, and every route goes through one of them. -/
structure Grounded (k₀ k : Kernel) : Prop where
  links : ∀ name, (k₀.links name).isSome → (k.links name).isSome
  routes : ∀ key p, k.routes key = some p → p.route.dev = "" ∨ (k₀.links p.route.dev).isSome

namespace Grounded

variable {k₀ k : Kernel}

theorem refl (k₀ : Kernel) : Grounded k₀ k₀ := ⟨fun _ h => h, k₀.attached⟩

section

variable (g : Grounded k₀ k)
include g

theorem answer {a : Except Sentinel (ℤ × NetPrefix)} {r : Route} (h : k.answer a = .ok r) :
    r.dev = "" ∨ (k₀.links r.dev).isSome := by
  unfold Kernel.answer at h
  split at h
  · cases h
  · split at h
    case h_1 p hp =>
      cases h
      exact g.routes _ p hp
    case h_2 => cases h

theorem setLink (name : String) (l : Link) : Grounded k₀ (k.setLink name l) := by
  refine ⟨fun name' h => ?_, g.routes⟩
  by_cases hname : name' = name
  · simp [Kernel.setLink, hname]
  · simpa [Kernel.setLink, hname] using g.links name' h

theorem place {origin : Origin} {r : Route} (reachable : k.Reachable r)
    (dev : r.dev = "" ∨ (k₀.links r.dev).isSome) : Grounded k₀ (k.place origin r reachable) := by
  refine ⟨g.links, fun key p hp => ?_⟩
  by_cases hkey : key = r.key
  · simp only [Kernel.place, hkey, update_self, Option.some.injEq] at hp
    rwa [← hp]
  · simp only [Kernel.place, update_of_ne hkey] at hp
    exact g.routes key p hp

theorem routeDel (r : Route) : Grounded k₀ (k.routeDel r) := by
  refine ⟨g.links, fun key p hp => ?_⟩
  by_cases hkey : key = r.key
  · simp [Kernel.routeDel, hkey] at hp
  · simp only [Kernel.routeDel, update_of_ne hkey] at hp
    exact g.routes key p hp

theorem routes_deleteLink {iface : String} (own : k₀.links iface = none) :
    (k.deleteLink iface).routes = k.routes := by
  funext key
  cases hp : k.routes key with
  | none => simp [Kernel.deleteLink, hp]
  | some p =>
    have unused : ¬ p.Uses iface := by
      rintro ⟨dev, named⟩
      rcases g.routes key p hp with none | here
      · exact named (dev ▸ none)
      · rw [dev, own] at here
        cases here
    simp [Kernel.deleteLink, hp, unused]

theorem deleteLink {iface : String} (own : k₀.links iface = none) : Grounded k₀ (k.deleteLink iface) := by
  refine ⟨fun name h => ?_, fun key p hp => g.routes key p (by rwa [g.routes_deleteLink own] at hp)⟩
  have hname : name ≠ iface := by
    rintro rfl
    rw [own] at h
    cases h
  simpa [Kernel.deleteLink, hname] using g.links name h

end

end Grounded

/-! ## What the steps on the host do -/

/-- What `acquireBypass` can do. -/
inductive Acquired (s : Node ι) (ω : Fate ι) (pfx : String) (table : ℤ) (dst : NetAddr) :
    Except Err Unit → Node ι → Prop
  | failed (e : Err) : Acquired s ω pfx table dst (.error e) s
  | shared {b : Bypass} (here : s.bypass dst = some b) : Acquired s ω pfx table dst (.ok ())
      (s.setBypass dst (some { b with refs := b.refs + 1, pos := Nat.succ_pos _ }))
  | found {r : Route} (new : s.bypass dst = none) (route : s.underlayRoute ω pfx table dst = .ok r)
      (taken : s.kernel.routes r.key ≠ none) :
      Acquired s ω pfx table dst (.ok ()) (s.setBypass dst (some ⟨r, false, 1, Nat.one_pos⟩))
  | placed {r : Route} (new : s.bypass dst = none) (route : s.underlayRoute ω pfx table dst = .ok r)
      (reachable : s.kernel.Reachable r) (free : s.kernel.routes r.key = none) :
      Acquired s ω pfx table dst (.ok ()) { s.setBypass dst (some ⟨r, true, 1, Nat.one_pos⟩) with
        kernel := s.kernel.place .bypass r reachable }

/-- What `releaseBypass` can do if its `RouteDel` succeeds. -/
inductive Released (s : Node ι) (dst : NetAddr) : Node ι → Prop
  | absent (absent : s.bypass dst = none) : Released s dst s
  | shared {b : Bypass} (here : s.bypass dst = some b) (more : 1 < b.refs) :
      Released s dst (s.setBypass dst (some { b with refs := b.refs - 1, pos := Nat.sub_pos_of_lt more }))
  | found {b : Bypass} (here : s.bypass dst = some b) (last : b.refs = 1) (foreign : b.owned = false) :
      Released s dst (s.setBypass dst none)
  | withdrawn {b : Bypass} (here : s.bypass dst = some b) (last : b.refs = 1) (owned : b.owned = true) :
      Released s dst { s.setBypass dst none with kernel := s.kernel.routeDel b.route }

/-- Nothing but the bypass routes, the kernel and charon differs. -/
def SameBooks (s s' : Node ι) : Prop := ∃ b k c, s' = { s with bypass := b, kernel := k, charon := c }

section Host

variable {s s' : Node ι} {ω : Fate ι} {pfx : String} {table : ℤ} {dst : NetAddr} {r : Except Err Unit}

theorem of_acquireBypass (done : s.acquireBypass ω pfx table dst = (r, s')) : Acquired s ω pfx table dst r s' := by
  unfold Node.acquireBypass at done
  split at done
  case h_1 b here =>
    cases done
    exact .shared here
  case h_2 new =>
    split at done
    · cases done
      exact .failed _
    case h_2 route found =>
      split_ifs at done
      · cases done
        exact .failed _
      unfold Kernel.routeAdd at done
      split_ifs at done with reachable
      · cases taken : s.kernel.routes route.key with
        | some p =>
          rw [taken] at done
          cases done
          exact .found new found (by simp [taken])
        | none =>
          rw [taken] at done
          cases done
          exact .placed new found reachable taken
      · cases done
        exact .failed _

theorem of_releaseBypass (done : s.releaseBypass false dst = (r, s')) : r = .ok () ∧ Released s dst s' := by
  unfold Node.releaseBypass at done
  split at done
  case h_1 absent =>
    cases done
    exact ⟨rfl, .absent absent⟩
  case h_2 b here =>
    by_cases more : 1 < b.refs
    · rw [dif_pos more] at done
      cases done
      exact ⟨rfl, .shared here more⟩
    rw [dif_neg more] at done
    have last : b.refs = 1 := by
      have := b.pos
      omega
    split_ifs at done with foreign impossible
    · cases done
      exact ⟨rfl, .found here last (by simpa using foreign)⟩
    · exact impossible.elim
    · cases done
      exact ⟨rfl, .withdrawn here last (by simpa using foreign)⟩

theorem Acquired.sameBooks (done : Acquired s ω pfx table dst r s') : SameBooks s s' := by
  cases done <;> exact ⟨_, _, _, rfl⟩

theorem Released.sameBooks (done : Released s dst s') : SameBooks s s' := by
  cases done <;> exact ⟨_, _, _, rfl⟩

theorem underlayRoute_cases {route : Route} (h : s.underlayRoute ω pfx table dst = .ok route) :
    route.key = routeKey table (hostPrefix dst) ∧
      ∃ asked, route.dev = asked.dev ∧ (ω.routeGet = .ok asked ∨ ω.defaultRoute = .ok asked) := by
  unfold Node.underlayRoute at h
  split at h
  · cases h
  case h_2 asked found =>
    split_ifs at h
    · split at h
      · cases h
      case h_2 default found =>
        cases h
        exact ⟨rfl, default, rfl, .inr found⟩
    · cases h
      exact ⟨rfl, asked, rfl, .inl found⟩

theorem of_onKernel {x : Except Sentinel Kernel}
    (done : s.onKernel (if ω.fails then .error .other else x) = (r, s')) :
    (r ≠ .ok () ∧ s' = s) ∨ ∃ k, x = .ok k ∧ s' = { s with kernel := k } := by
  split_ifs at done
  · cases done
    exact .inl ⟨by simp, rfl⟩
  · cases x with
    | error e =>
      cases done
      exact .inl ⟨by simp, rfl⟩
    | ok k =>
      cases done
      exact .inr ⟨k, rfl, rfl⟩

/-- A step of a bring-up other than `acquireBypass` at most sets a link, and one that it would have to delete again
was not there. -/
theorem build_other {i : ι} {b : Build} (other : ∀ pfx table dst, b ≠ .acquireBypass pfx table dst)
    (done : s.build ω i b = (r, s')) :
    ∃ k c, s' = { s with kernel := k, charon := c } ∧ (k = s.kernel ∨ ∃ name l, k = s.kernel.setLink name l) ∧
      (r = .ok () → ∀ iface, .deleteLink iface ∈ b.undo → s.kernel.links iface = none) := by
  cases b with
  | acquireBypass pfx table dst => exact absurd rfl (other pfx table dst)
  | addXfrmInterface iface ifID underlay =>
    rcases of_onKernel done with ⟨failed, rfl⟩ | ⟨k, set, rfl⟩
    · exact ⟨_, _, rfl, .inl rfl, fun ok => absurd ok failed⟩
    · unfold Kernel.addXfrmInterface at set
      split_ifs at set
      cases new : s.kernel.links iface with
      | some l => simp [new] at set
      | none =>
        simp only [new, Except.ok.injEq] at set
        refine ⟨_, _, rfl, .inr ⟨_, _, set.symm⟩, fun _ iface' owed => ?_⟩
        obtain rfl : iface' = iface := by simpa [Build.undo] using owed
        exact new
  | addAddr iface addr =>
    rcases of_onKernel done with ⟨failed, rfl⟩ | ⟨k, set, rfl⟩
    · exact ⟨_, _, rfl, .inl rfl, fun ok => absurd ok failed⟩
    · unfold Kernel.addAddr at set
      split at set <;> cases set
      exact ⟨_, _, rfl, .inr ⟨_, _, rfl⟩, by simp [Build.undo]⟩
  | setLinkUp iface =>
    rcases of_onKernel done with ⟨failed, rfl⟩ | ⟨k, set, rfl⟩
    · exact ⟨_, _, rfl, .inl rfl, fun ok => absurd ok failed⟩
    · unfold Kernel.setLinkUp at set
      split at set <;> cases set
      exact ⟨_, _, rfl, .inr ⟨_, _, rfl⟩, by simp [Build.undo]⟩
  | loadShared | loadConn =>
    simp only [Node.build] at done
    split_ifs at done <;> cases done <;> exact ⟨_, _, rfl, .inl rfl, by simp [Build.undo]⟩
  | initiate conn child =>
    simp only [Node.build] at done
    split_ifs at done
    · cases done
      exact ⟨_, _, rfl, .inl rfl, by simp [Build.undo]⟩
    · cases done
      exact ⟨_, _, rfl, .inl rfl, by simp [Build.undo]⟩
    · split at done <;> cases done <;> exact ⟨_, _, rfl, .inl rfl, by simp [Build.undo]⟩

/-- What is undone besides bypass routes is a link, or at charon. -/
theorem undo_other {fails : Bool} {u : Undo} (other : ∀ dst, u ≠ .releaseBypass dst)
    (done : s.undo fails u = (r, s')) :
    ∃ k c, s' = { s with kernel := k, charon := c } ∧
      (k = s.kernel ∨ ∃ iface, u = .deleteLink iface ∧ k = s.kernel.deleteLink iface) := by
  cases u with
  | releaseBypass dst => exact absurd rfl (other dst)
  | deleteLink iface =>
    simp only [Node.undo] at done
    split_ifs at done <;> cases done
    · exact ⟨_, _, rfl, .inl rfl⟩
    · exact ⟨_, _, rfl, .inr ⟨iface, rfl, rfl⟩⟩
  | unloadShared | unloadConn | terminateIKE =>
    simp only [Node.undo] at done
    split_ifs at done <;> cases done <;> exact ⟨_, _, rfl, .inl rfl⟩

theorem Grounded.acquired {k₀ : Kernel} (g : Grounded k₀ s.kernel)
    (get : ∀ r, ω.routeGet = .ok r → r.dev = "" ∨ (k₀.links r.dev).isSome)
    (default : ∀ r, ω.defaultRoute = .ok r → r.dev = "" ∨ (k₀.links r.dev).isSome)
    (done : Acquired s ω pfx table dst r s') : Grounded k₀ s'.kernel := by
  cases done with
  | failed | shared | found => exact g
  | placed _ route reachable _ =>
    obtain ⟨-, asked, dev, found⟩ := underlayRoute_cases route
    refine g.place reachable ?_
    rw [dev]
    exact found.elim (get asked) (default asked)

theorem Grounded.released {k₀ : Kernel} (g : Grounded k₀ s.kernel) (done : Released s dst s') :
    Grounded k₀ s'.kernel := by
  cases done with
  | absent | shared | found => exact g
  | withdrawn => exact g.routeDel _

end Host

/-! ## The ledger -/

theorem hostPrefix_inj {a b : NetAddr} (ha : a.zone = "") (hb : b.zone = "") (h : hostPrefix a = hostPrefix b) :
    a = b := by
  cases a <;> cases b <;> simp_all [hostPrefix, NetAddr.zone]

def ClientConfig.hostKey (cfg : ClientConfig) (dst : NetAddr) : ℤ × NetPrefix := routeKey cfg.table (hostPrefix dst)

theorem ClientConfig.hostKey_inj (cfg : ClientConfig) {a b : NetAddr} (ha : a.zone = "") (hb : b.zone = "")
    (h : cfg.hostKey a = cfg.hostKey b) : a = b :=
  hostPrefix_inj ha hb (Prod.mk.inj h).2

def Node.refs (s : Node ι) (dst : NetAddr) : ℕ := (s.bypass dst).elim 0 Bypass.refs

/-- A counted address has its host route, or had one before. -/
def Entered (cfg : ClientConfig) (k₀ k : Kernel) (dst : NetAddr) (b : Bypass) : Prop :=
  dst.zone = "" ∧ b.route.key = cfg.hostKey dst ∧
    if b.owned then k₀.routes (cfg.hostKey dst) = none ∧ k.routes (cfg.hostKey dst) = some ⟨b.route, .bypass⟩
    else k₀.routes (cfg.hostKey dst) ≠ none

def Node.Makes (cfg : ClientConfig) (s : Node ι) (key : ℤ × NetPrefix) : Prop :=
  ∃ dst b, s.bypass dst = some b ∧ b.owned = true ∧ cfg.hostKey dst = key

/-- Each destination has `holders`, and the routes of the kernel are those of `k₀` and the bypass routes made. -/
structure Ledger (cfg : ClientConfig) (k₀ : Kernel) (s : Node ι) (holders : NetAddr → ℕ) : Prop where
  count : ∀ dst, s.refs dst = holders dst
  entry : ∀ dst b, s.bypass dst = some b → Entered cfg k₀ s.kernel dst b
  kept : ∀ key p, k₀.routes key = some p → s.kernel.routes key = some p
  made : ∀ key p, s.kernel.routes key = some p → k₀.routes key = some p ∨ s.Makes cfg key

namespace Ledger

variable {cfg : ClientConfig} {k₀ : Kernel} {s s' : Node ι} {n n' : NetAddr → ℕ} {dst : NetAddr}

theorem congr (ledger : Ledger cfg k₀ s n) (bypass : s'.bypass = s.bypass)
    (routes : s'.kernel.routes = s.kernel.routes) (holders : n' = n) : Ledger cfg k₀ s' n' := by
  subst holders
  refine ⟨fun dst => ?_, fun dst b hb => ?_, fun key p hp => ?_, fun key p hp => ?_⟩
  · rw [Node.refs, bypass]
    exact ledger.count dst
  · rw [Entered, routes]
    exact ledger.entry dst b (by rwa [bypass] at hb)
  · rw [routes]
    exact ledger.kept key p hp
  · rw [Node.Makes, bypass]
    exact ledger.made key p (by rwa [routes] at hp)

theorem refs_setBypass (s : Node ι) (dst : NetAddr) (b : Option Bypass) :
    (s.setBypass dst b).refs = update s.refs dst (b.elim 0 Bypass.refs) := by
  funext dst'
  by_cases h : dst' = dst
  · subst h
    simp [Node.refs, Node.setBypass]
  · simp [Node.refs, Node.setBypass, h]

theorem apart (ledger : Ledger cfg k₀ s n) (plain : dst.zone = "") {other : NetAddr} {b : Bypass}
    (hb : s.bypass other = some b) (ne : other ≠ dst) : cfg.hostKey other ≠ cfg.hostKey dst :=
  fun h => ne (cfg.hostKey_inj (ledger.entry other b hb).1 plain h)

section

variable (ledger : Ledger cfg k₀ s n)
include ledger

theorem maker (plain : dst.zone = "") (makes : s.Makes cfg (cfg.hostKey dst)) :
    ∃ b, s.bypass dst = some b ∧ b.owned = true := by
  obtain ⟨dst', b, hb, owned, hkey⟩ := makes
  obtain rfl := cfg.hostKey_inj (ledger.entry dst' b hb).1 plain hkey
  exact ⟨b, hb, owned⟩

theorem set (plain : dst.zone = "") {b : Option Bypass} {k : Kernel}
    (other : ∀ key, key ≠ cfg.hostKey dst → k.routes key = s.kernel.routes key)
    (entered : ∀ c, b = some c → Entered cfg k₀ k dst c)
    (kept : ∀ p, k₀.routes (cfg.hostKey dst) = some p → k.routes (cfg.hostKey dst) = some p)
    (made : ∀ p, k.routes (cfg.hostKey dst) = some p →
      k₀.routes (cfg.hostKey dst) = some p ∨ ∃ c, b = some c ∧ c.owned = true) :
    Ledger cfg k₀ { s.setBypass dst b with kernel := k } (update n dst (b.elim 0 Bypass.refs)) := by
  refine ⟨fun dst' => ?_, fun dst' c hc => ?_, fun key p hp => ?_, fun key p hp => ?_⟩
  · change (s.setBypass dst b).refs dst' = _
    rw [refs_setBypass, funext ledger.count]
  · by_cases h : dst' = dst
    · subst h
      exact entered c (by simpa [Node.setBypass] using hc)
    · have hc : s.bypass dst' = some c := by simpa [Node.setBypass, h] using hc
      rw [Entered, other _ (ledger.apart plain hc h)]
      exact ledger.entry dst' c hc
  · by_cases hkey : key = cfg.hostKey dst
    · exact hkey ▸ kept p (hkey ▸ hp)
    · exact (other key hkey).trans (ledger.kept key p hp)
  · by_cases hkey : key = cfg.hostKey dst
    · subst hkey
      exact (made p hp).imp_right fun ⟨c, hc, owned⟩ => ⟨dst, c, by simp [Node.setBypass, hc], owned, rfl⟩
    · refine (ledger.made key p ((other key hkey).symm.trans hp)).imp_right ?_
      rintro ⟨dst', c, hc, owned, rfl⟩
      have ne : dst' ≠ dst := fun h => hkey (h ▸ rfl)
      exact ⟨dst', c, by simpa [Node.setBypass, ne] using hc, owned, rfl⟩

theorem recounted {b b' : Bypass} (here : s.bypass dst = some b)
    (route : b'.route = b.route) (owned : b'.owned = b.owned) :
    Ledger cfg k₀ (s.setBypass dst (some b')) (update n dst b'.refs) := by
  have entered := ledger.entry dst b here
  refine ledger.set (b := some b') (k := s.kernel) entered.1 (fun _ _ => rfl) (fun c hc => ?_) (ledger.kept _)
    fun p hp => (ledger.made _ p hp).imp_right fun makes => ?_
  · cases hc
    rwa [Entered, ← route, ← owned] at entered
  · obtain ⟨c, hc, mine⟩ := ledger.maker entered.1 makes
    cases here.symm.trans hc
    exact ⟨b', rfl, owned.trans mine⟩

theorem found (plain : dst.zone = "") {r : Route} (new : s.bypass dst = none)
    (key : r.key = cfg.hostKey dst) (taken : s.kernel.routes r.key ≠ none) :
    Ledger cfg k₀ (s.setBypass dst (some ⟨r, false, 1, Nat.one_pos⟩)) (update n dst 1) := by
  -- What is there has not been made by the client: that would be for the same destination.
  have made : ∀ p, s.kernel.routes (cfg.hostKey dst) = some p → k₀.routes (cfg.hostKey dst) = some p := by
    intro p hp
    refine (ledger.made _ p hp).resolve_right fun makes => ?_
    obtain ⟨c, hc, -⟩ := ledger.maker plain makes
    simp [new] at hc
  refine ledger.set (b := some ⟨r, false, 1, Nat.one_pos⟩) (k := s.kernel) plain (fun _ _ => rfl) (fun c hc => ?_)
    (ledger.kept _) fun p hp => Or.inl (made p hp)
  cases hc
  obtain ⟨p, hp⟩ := Option.ne_none_iff_exists'.1 taken
  exact ⟨plain, key, by simp [made p (key ▸ hp)]⟩

theorem placed (plain : dst.zone = "") {r : Route} (key : r.key = cfg.hostKey dst) (reachable : s.kernel.Reachable r)
    (free : s.kernel.routes r.key = none) :
    Ledger cfg k₀ { s.setBypass dst (some ⟨r, true, 1, Nat.one_pos⟩) with
      kernel := s.kernel.place .bypass r reachable } (update n dst 1) := by
  have before : k₀.routes (cfg.hostKey dst) = none := by
    by_contra taken
    obtain ⟨p, hp⟩ := Option.ne_none_iff_exists'.1 taken
    simp [key, ledger.kept _ p hp] at free
  refine ledger.set (b := some ⟨r, true, 1, Nat.one_pos⟩) plain (fun key' ne => ?_) (fun c hc => ?_)
    (fun p hp => ?_) fun _ _ => Or.inr ⟨_, rfl, rfl⟩
  · exact update_of_ne (key ▸ ne) _ _
  · cases hc
    exact ⟨plain, key, by simp [before, Kernel.place, key]⟩
  · simp [before] at hp

theorem acquired (plain : dst.zone = "") {ω : Fate ι} {pfx : String}
    (done : Acquired s ω pfx cfg.table dst (.ok ()) s') : Ledger cfg k₀ s' (update n dst (n dst + 1)) := by
  have count := ledger.count dst
  cases done with
  | shared here =>
    rw [Node.refs, here] at count
    rw [← count]
    exact ledger.recounted here rfl rfl
  | found new route taken =>
    rw [Node.refs, new] at count
    rw [← count]
    exact ledger.found plain new (underlayRoute_cases route).1 taken
  | placed new route reachable free =>
    rw [Node.refs, new] at count
    rw [← count]
    exact ledger.placed plain (underlayRoute_cases route).1 reachable free

theorem forgotten {b : Bypass} (here : s.bypass dst = some b) (foreign : b.owned = false) :
    Ledger cfg k₀ (s.setBypass dst none) (update n dst 0) := by
  have plain := (ledger.entry dst b here).1
  refine ledger.set (b := none) (k := s.kernel) plain (fun _ _ => rfl) (fun _ h => by cases h) (ledger.kept _)
    fun p hp => Or.inl ((ledger.made _ p hp).resolve_right fun makes => ?_)
  obtain ⟨c, hc, mine⟩ := ledger.maker plain makes
  cases here.symm.trans hc
  simp [foreign] at mine

theorem withdrawn {b : Bypass} (here : s.bypass dst = some b) (owned : b.owned = true) :
    Ledger cfg k₀ { s.setBypass dst none with kernel := s.kernel.routeDel b.route } (update n dst 0) := by
  obtain ⟨plain, key, state⟩ := ledger.entry dst b here
  rw [if_pos owned] at state
  refine ledger.set (b := none) plain (fun key' ne => ?_) (fun _ h => by cases h) (fun p hp => ?_) fun p hp => ?_
  · exact update_of_ne (key ▸ ne) _ _
  · simp [state.1] at hp
  · simp [Kernel.routeDel, key] at hp

theorem released (held : 0 < n dst) (done : Released s dst s') :
    Ledger cfg k₀ s' (update n dst (n dst - 1)) := by
  have count := ledger.count dst
  cases done with
  | absent absent =>
    rw [Node.refs, absent] at count
    exact absurd count held.ne
  | shared here more =>
    rw [Node.refs, here] at count
    rw [← count]
    exact ledger.recounted here rfl rfl
  | found here last foreign =>
    rw [Node.refs, here] at count
    rw [← count, Option.elim_some, last]
    exact ledger.forgotten here foreign
  | withdrawn here last owned =>
    rw [Node.refs, here] at count
    rw [← count, Option.elim_some, last]
    exact ledger.withdrawn here owned

end

end Ledger

/-! ## Who holds a reference -/

section Holders

variable {cfg : ClientConfig} {s s' : Node ι} {hs : ι → Phase} {i : ι} {h' : Phase}

/-- The controllers and gateways that hold an address. -/
def enteredHolders (cfg : ClientConfig) (s : Node ι) (dst : NetAddr) : ℕ :=
  (if s.closed then 0 else cfg.bypassed.count dst) +
    (values s.peers).countP fun p => cfg.fullTunnel && decide (p.tunnel.addr = dst)

/-- All holders of an address. -/
noncomputable def holders (cfg : ClientConfig) (s : Node ι) (hs : ι → Phase) (dst : NetAddr) : ℕ :=
  enteredHolders cfg s dst + ∑ᶠ i, (hs i).owes.count (.releaseBypass dst)

theorem holders_update [DecidableEq ι] (cfg : ClientConfig) (fin : {i | (hs i).owes ≠ []}.Finite)
    (s s' : Node ι) (i : ι) (h' : Phase)
    (dst : NetAddr) :
    holders cfg s' (update hs i h') dst + enteredHolders cfg s dst + (hs i).owes.count (.releaseBypass dst) =
      holders cfg s hs dst + enteredHolders cfg s' dst + h'.owes.count (.releaseBypass dst) := by
  have some_ : {j | (hs j).owes.count (.releaseBypass dst) ≠ 0}.Finite := by
    refine fin.subset fun j hj => ?_
    rintro none
    simp [none] at hj
  have sum := finsum_update (fun h : Phase => h.owes.count (.releaseBypass dst)) hs i h' some_
  unfold holders
  omega

theorem holders_of_balance [DecidableEq ι] (fin : {i | (hs i).owes ≠ []}.Finite)
    (balance : ∀ dst, enteredHolders cfg s' dst + h'.owes.count (.releaseBypass dst) =
      enteredHolders cfg s dst + (hs i).owes.count (.releaseBypass dst)) :
    holders cfg s' (update hs i h') = holders cfg s hs := by
  funext dst
  have moved := holders_update cfg fin s s' i h' dst
  have := balance dst
  omega

theorem count_teardown (full : Bool) (t : Tunnel) (dst : NetAddr) :
    (teardown full t).count (.releaseBypass dst) = if full && decide (t.addr = dst) then 1 else 0 := by
  cases full with
  | false => simp [teardown]
  | true => simp [teardown, List.count_cons]

theorem count_teardowns (ts : List Tunnel) (dst : NetAddr) : (cfg.teardowns ts).count (.releaseBypass dst) =
      (ts.countP fun t => cfg.fullTunnel && decide (t.addr = dst)) + cfg.bypassed.count dst := by
  rw [ClientConfig.teardowns, List.count_append, List.count_map_of_injective _ _
    (fun _ _ h => Undo.releaseBypass.inj h)]
  congr 1
  induction ts with
  | nil => rfl
  | cons t ts ih => rw [List.flatMap_cons, List.count_append, count_teardown, ih, List.countP_cons, Nat.add_comm]

end Holders

/-! ## Steps -/

/-- A name that a call has reserved is pending, for this call only, and no tunnel has it. -/
structure Registered (s : Node ι) (hs : ι → Phase) : Prop where
  pending : ∀ i name, (hs i).pends = some name → s.pending name = true
  once : ∀ i j name, (hs i).pends = some name → (hs j).pends = some name → i = j
  apart : ∀ name, s.pending name = true → s.peers.lookup name = none

/-- The state of a client in a run: what is counted is held, what a call would delete is not older than the client, and
no routes are moved. -/
structure Holding (cfg : ClientConfig) (k₀ : Kernel) (s : Node ι) (hs : ι → Phase) : Prop where
  registered : Registered s hs
  ledger : Ledger cfg k₀ s (holders cfg s hs)
  grounded : Grounded k₀ s.kernel
  finite : {i | (hs i).owes ≠ []}.Finite
  own : ∀ i iface, .deleteLink iface ∈ (hs i).owes → k₀.links iface = none
  ownPeers : ∀ name p, s.peers.lookup name = some p → k₀.links p.tunnel.iface = none
  unmoved : s.installed.entries = []
  found : ∀ i base, (hs i).base = some base → base.entries = []

namespace Registered

variable [DecidableEq ι] {s s' : Node ι} {hs : ι → Phase} {i : ι} {h' : Phase} (reg : Registered s hs)
include reg

theorem goes (others : ∀ j, j ≠ i → ∀ name, (hs j).pends = some name → s'.pending name = true)
    (self : ∀ name, h'.pends = some name → s'.pending name = true ∧ ∀ j, j ≠ i → (hs j).pends ≠ some name)
    (apart : ∀ name, s'.pending name = true → s'.peers.lookup name = none) : Registered s' (update hs i h') := by
  refine ⟨fun j name hj => ?_, fun j k name hj hk => ?_, apart⟩
  · by_cases hji : j = i
    · subst hji
      rw [update_self] at hj
      exact (self name hj).1
    · rw [update_of_ne hji] at hj
      exact others j hji name hj
  · by_cases hji : j = i <;> by_cases hki : k = i
    · rw [hji, hki]
    · subst hji
      rw [update_self] at hj
      rw [update_of_ne hki] at hk
      exact absurd hk ((self name hj).2 k hki)
    · subst hki
      rw [update_self] at hk
      rw [update_of_ne hji] at hj
      exact absurd hj ((self name hk).2 j hji)
    · rw [update_of_ne hji] at hj
      rw [update_of_ne hki] at hk
      exact reg.once j k name hj hk

theorem keep (peers : s'.peers = s.peers) (pending : s'.pending = s.pending)
    (pends : ∀ name, h'.pends = some name → (hs i).pends = some name) : Registered s' (update hs i h') := by
  refine reg.goes ?_ (fun name hname => ?_) ?_
  · rw [pending]
    exact fun j _ => reg.pending j
  · rw [pending]
    exact ⟨reg.pending i name (pends name hname), fun j hji hj => hji (reg.once j i name hj (pends name hname))⟩
  · rw [pending, peers]
    exact reg.apart

/-- A name is reserved that is neither pending nor taken, or no longer taken. -/
theorem reserved {name : String} (new : s.pending name = false) (pending : s'.pending = update s.pending name true)
    (pends : h'.pends = some name) (free : s'.peers.lookup name = none)
    (peers : ∀ other, other ≠ name → s'.peers.lookup other = s.peers.lookup other) :
    Registered s' (update hs i h') := by
  refine reg.goes (fun j _ other hj => ?_) (fun other hother => ?_) fun other hother => ?_
  · have := reg.pending j other hj
    by_cases heq : other = name <;> simp [pending, heq, this]
  · obtain rfl : other = name := Option.some.inj (hother.symm.trans pends)
    refine ⟨by simp [pending], fun j _ hj => ?_⟩
    exact absurd (reg.pending j _ hj) (by simp [new])
  · by_cases heq : other = name
    · exact heq ▸ free
    · rw [pending, update_of_ne heq] at hother
      exact (peers other heq).trans (reg.apart other hother)

/-- A call gives back the name it has reserved. -/
theorem freed {name : String} (hi : (hs i).pends = some name) (pending : s'.pending = update s.pending name false)
    (pends : h'.pends = none) (peers : ∀ other, other ≠ name → s'.peers.lookup other = s.peers.lookup other) :
    Registered s' (update hs i h') := by
  refine reg.goes (fun j hji other hj => ?_) (fun other hother => ?_) fun other hother => ?_
  · have ne : other ≠ name := fun h => hji (reg.once j i name (h ▸ hj) hi)
    rw [pending, update_of_ne ne]
    exact reg.pending j other hj
  · simp [pends] at hother
  · by_cases heq : other = name
    · simp [pending, heq] at hother
    · rw [pending, update_of_ne heq] at hother
      exact (peers other heq).trans (reg.apart other hother)

end Registered

namespace Holding

variable [DecidableEq ι] {cfg : ClientConfig} {k₀ : Kernel} {s s' : Node ι} {hs : ι → Phase} {i : ι} {h' : Phase}

section

variable (hold : Holding cfg k₀ s hs)
include hold

section

variable (registered : Registered s' (update hs i h'))
include registered

theorem goes (ledger : Ledger cfg k₀ s' (holders cfg s' (update hs i h'))) (grounded : Grounded k₀ s'.kernel)
    (own : ∀ iface, .deleteLink iface ∈ h'.owes → k₀.links iface = none)
    (ownPeers : ∀ name p, s'.peers.lookup name = some p → k₀.links p.tunnel.iface = none)
    (unmoved : s'.installed.entries = []) (found : ∀ base, h'.base = some base → base.entries = []) :
    Holding cfg k₀ s' (update hs i h') := by
  refine ⟨registered, ledger, grounded, ?_, fun j => ?_, ownPeers, unmoved, fun j => ?_⟩
  · refine (hold.finite.insert i).subset fun j hj => ?_
    by_cases hji : j = i
    · exact .inl hji
    · rw [Set.mem_ofPred_eq, update_of_ne hji] at hj
      exact .inr hj
  · by_cases hji : j = i
    · subst hji
      rwa [update_self]
    · rw [update_of_ne hji]
      exact hold.own j
  · by_cases hji : j = i
    · subst hji
      rwa [update_self]
    · rw [update_of_ne hji]
      exact hold.found j

theorem goes_evenly (bypass : s'.bypass = s.bypass) (kernel : s'.kernel = s.kernel)
    (balance : ∀ dst, enteredHolders cfg s' dst + h'.owes.count (.releaseBypass dst) =
      enteredHolders cfg s dst + (hs i).owes.count (.releaseBypass dst))
    (own : ∀ iface, .deleteLink iface ∈ h'.owes → k₀.links iface = none)
    (ownPeers : ∀ name p, s'.peers.lookup name = some p → k₀.links p.tunnel.iface = none)
    (unmoved : s'.installed.entries = []) (found : ∀ base, h'.base = some base → base.entries = []) :
    Holding cfg k₀ s' (update hs i h') :=
  hold.goes registered (hold.ledger.congr bypass (by rw [kernel]) (holders_of_balance hold.finite balance))
    (by rw [kernel]; exact hold.grounded) own ownPeers unmoved found

theorem goes_on (bypass : s'.bypass = s.bypass) (kernel : s'.kernel = s.kernel) (closed : s'.closed = s.closed)
    (peers : s'.peers = s.peers) (unmoved : s'.installed.entries = []) (owes : h'.owes = (hs i).owes)
    (found : ∀ base, h'.base = some base → base.entries = []) : Holding cfg k₀ s' (update hs i h') := by
  refine hold.goes_evenly registered bypass kernel (fun dst => ?_) ?_ ?_ unmoved found
  · rw [owes, enteredHolders, closed, peers]
    rfl
  · rw [owes]
    exact hold.own i
  · rw [peers]
    exact hold.ownPeers

end

theorem idle : Holding cfg k₀ s (update hs i (hs i)) := by
  rwa [update_eq_self]

theorem enlisted {role : Role} {t : Tunnel} {r : Except Err Unit} (done : s.enlist role t = (r, s')) :
    Holding cfg k₀ s' (update hs i ((hs i).enlist t.name r)) := by
  unfold Node.enlist at done
  split_ifs at done with _ taken
  · cases done
    exact hold.idle
  · cases done
    exact hold.idle
  · cases done
    exact hold.idle
  · cases done
    simp only [Node.nameTaken, Bool.or_eq_true, not_or, Bool.not_eq_true] at taken
    have free : s.peers.lookup t.name = none := by simpa using taken.1.1
    exact hold.goes_on (hold.registered.reserved taken.1.2 rfl rfl free fun _ _ => rfl) rfl rfl rfl rfl hold.unmoved
      rfl (hold.found i)

theorem settled {role : Role} {t : Tunnel} {err r : Option Err} (pends : (hs i).pends = some t.name)
    (all : err = none → (hs i).owes = teardown cfg.fullTunnel t) (done : s.settle role t i err = (r, s')) :
    Holding cfg k₀ s' (update hs i ((hs i).settle r)) := by
  unfold Node.settle at done
  split at done
  case h_2 e _ =>
    cases done
    exact hold.goes_on (hold.registered.freed pends rfl rfl fun _ _ => rfl) rfl rfl rfl rfl hold.unmoved rfl
      (hold.found i)
  case h_1 entered =>
    cases done
    have owes : (hs i).owes = teardown cfg.fullTunnel t := by
      refine all ?_
      split_ifs at entered
      exact entered
    have new := hold.registered.apart _ (hold.registered.pending i t.name pends)
    have lookup : ∀ name, (s.enroll role t i).peers.lookup name = _ := fun name => lookup_insert_eq ..
    refine hold.goes_evenly (hold.registered.freed pends rfl rfl fun other ne => ?_) rfl rfl (fun dst => ?_)
      (fun iface h => by cases h) (fun name p hp => ?_) hold.unmoved fun _ h => by cases h
    · rw [lookup, if_neg ne]
    · have peers : values (s.enroll role t i).peers = ⟨t, i⟩ :: values s.peers :=
        values_insert (AList.lookup_eq_none.1 new) _
      have closed : (s.enroll role t i).closed = s.closed := rfl
      rw [owes, count_teardown, enteredHolders, enteredHolders, peers, closed, List.countP_cons]
      exact (Nat.add_assoc _ _ _).symm
    · rw [lookup] at hp
      split_ifs at hp
      · cases hp
        exact hold.own i t.iface (by simp [owes, teardown])
      · exact hold.ownPeers name p hp

theorem taken {role : Role} {name : String} {r : Except Err Tunnel} (idle : (hs i).owes = [])
    (done : s.take role name = (r, s')) : Holding cfg k₀ s' (update hs i ((hs i).take cfg name r)) := by
  unfold Node.take at done
  by_cases closed : s.closed = true
  · rw [if_pos closed] at done
    cases done
    exact hold.idle
  rw [if_neg closed] at done
  cases here : s.peers.lookup name with
  | none =>
    rw [here] at done
    cases done
    exact hold.idle
  | some p =>
    rw [here] at done
    dsimp only at done
    split_ifs at done
    · cases done
      exact hold.idle
    cases done
    have new : s.pending name = false := by
      by_contra pending
      simp [hold.registered.apart name (by simpa using pending)] at here
    have lookup : ∀ other, (s.strike name).peers.lookup other = _ := fun other => lookup_erase_eq ..
    refine hold.goes_evenly (hold.registered.reserved new rfl rfl ?_ fun other ne => ?_) rfl rfl (fun dst => ?_)
      (fun iface h => ?_) (fun name' p' hp' => hold.ownPeers name' p' (sub_erase _ _ _ _ hp')) hold.unmoved
      (hold.found i)
    · rw [lookup, if_pos rfl]
    · rw [lookup, if_neg ne]
    · have peers := (values_perm_erase here).countP_eq fun p => cfg.fullTunnel && decide (p.tunnel.addr = dst)
      have closed : (s.strike name).closed = s.closed := rfl
      have left : (s.strike name).peers = s.peers.erase name := rfl
      have owes : ((hs i).take cfg name (.ok p.tunnel)).owes = teardown cfg.fullTunnel p.tunnel := rfl
      rw [List.countP_cons] at peers
      rw [idle, owes, count_teardown, enteredHolders, enteredHolders, closed, left, List.count_nil]
      omega
    · obtain rfl : iface = p.tunnel.iface := by
        change _ ∈ teardown cfg.fullTunnel p.tunnel at h
        cases full : cfg.fullTunnel <;> simpa [teardown, full] using h
      exact hold.ownPeers name p here

theorem shut {ω : Fate ι} {r : Option (List Tunnel)} (idle : (hs i).owes = []) (done : s.close ω = (r, s')) :
    Holding cfg k₀ s' (update hs i ((hs i).close cfg r)) := by
  unfold Node.close at done
  split_ifs at done with opened
  · cases done
    exact hold.idle
  cases done
  have range : ((ω.peerOrder (values s.peers)).map Kept.tunnel).Perm ((values s.peers).map Kept.tunnel) :=
    (ω.peerPerm _).map _
  have owes : ∀ ts, ((hs i).close cfg (some ts)).owes = cfg.teardowns ts := fun _ => rfl
  refine hold.goes_evenly (hold.registered.goes (fun j _ => hold.registered.pending j) (fun name hname => ?_)
    fun _ _ => rfl) rfl rfl (fun dst => ?_) (fun iface h => ?_) (fun name p hp => by cases hp) hold.unmoved
    (hold.found i)
  · exact ⟨hold.registered.pending i name hname, fun j hji hj => hji (hold.registered.once j i name hj hname)⟩
  · have closed : s.shut.closed = true := rfl
    have peers : s.shut.peers = ∅ := rfl
    rw [idle, owes, count_teardowns, range.countP_eq, List.countP_map, enteredHolders, enteredHolders, closed, peers]
    simp only [opened, if_true, values_empty, List.countP_nil, List.count_nil,
      Bool.false_eq_true, if_false, Function.comp_def]
    omega
  · rw [owes] at h
    obtain ⟨t, ht, rfl⟩ : ∃ t ∈ (ω.peerOrder (values s.peers)).map Kept.tunnel, iface = t.iface := by
      cases full : cfg.fullTunnel <;> simpa [ClientConfig.teardowns, teardown, full] using h
    obtain ⟨p, hp, rfl⟩ := List.mem_map.1 (range.subset ht)
    obtain ⟨name, here⟩ := mem_values.1 hp
    exact hold.ownPeers name p here

end

/-! ### On the host -/

omit [DecidableEq ι] in
theorem enteredHolders_of_sameBooks (same : SameBooks s s') (dst : NetAddr) :
    enteredHolders cfg s' dst = enteredHolders cfg s dst := by
  obtain ⟨_, _, _, rfl⟩ := same
  rfl

variable {dst : NetAddr} {r : Except Err Unit}

section

variable (hold : Holding cfg k₀ s hs) (same : SameBooks s s')
include hold same

theorem holders_moved (i : ι) (h' : Phase) (dst : NetAddr) :
    holders cfg s' (update hs i h') dst + (hs i).owes.count (.releaseBypass dst) =
      holders cfg s hs dst + h'.owes.count (.releaseBypass dst) := by
  have moved := holders_update cfg hold.finite s s' i h' dst
  rw [enteredHolders_of_sameBooks same] at moved
  omega

theorem holders_acquired (h' : Phase) (owes : h'.owes = .releaseBypass dst :: (hs i).owes) :
    holders cfg s' (update hs i h') = update (holders cfg s hs) dst (holders cfg s hs dst + 1) := by
  funext dst'
  have moved := hold.holders_moved same i h' dst'
  by_cases hdst : dst' = dst
  · subst hdst
    rw [owes, List.count_cons_self] at moved
    rw [update_self]
    omega
  · rw [owes, List.count_cons_of_ne (by simpa using Ne.symm hdst)] at moved
    rw [update_of_ne hdst]
    omega

theorem holders_released (h' : Phase) (owes : (hs i).owes = .releaseBypass dst :: h'.owes) :
    0 < holders cfg s hs dst ∧
      holders cfg s' (update hs i h') = update (holders cfg s hs) dst (holders cfg s hs dst - 1) := by
  have here := hold.holders_moved same i h' dst
  rw [owes, List.count_cons_self] at here
  refine ⟨by omega, funext fun dst' => ?_⟩
  by_cases hdst : dst' = dst
  · subst hdst
    rw [update_self]
    omega
  · have moved := hold.holders_moved same i h' dst'
    rw [owes, List.count_cons_of_ne (by simpa using Ne.symm hdst)] at moved
    rw [update_of_ne hdst]
    omega

variable (pends : h'.pends = (hs i).pends) (base : h'.base = (hs i).base)
  (own : ∀ iface, .deleteLink iface ∈ h'.owes → k₀.links iface = none)
include pends base own

theorem goes_host (ledger : Ledger cfg k₀ s' (holders cfg s' (update hs i h'))) (grounded : Grounded k₀ s'.kernel) :
    Holding cfg k₀ s' (update hs i h') := by
  obtain ⟨_, _, _, hs'⟩ := same
  refine hold.goes (hold.registered.keep (by rw [hs']) (by rw [hs']) fun _ h => pends ▸ h) ledger grounded own ?_ ?_ ?_
  · rw [hs']
    exact hold.ownPeers
  · rw [hs']
    exact hold.unmoved
  · rw [base]
    exact hold.found i

theorem goes_same (bypass : s'.bypass = s.bypass) (routes : s'.kernel.routes = s.kernel.routes)
    (grounded : Grounded k₀ s'.kernel)
    (owes : ∀ dst, h'.owes.count (.releaseBypass dst) = (hs i).owes.count (.releaseBypass dst)) :
    Holding cfg k₀ s' (update hs i h') := by
  have holders : holders cfg s' (update hs i h') = holders cfg s hs :=
    holders_of_balance hold.finite fun dst => by rw [owes, enteredHolders_of_sameBooks same]
  exact hold.goes_host same pends base own (hold.ledger.congr bypass routes holders) grounded

end

variable (hold : Holding cfg k₀ s hs) {q : Query ι}
include hold

theorem built {b : Build} (fits : b.Fits cfg) (hex : (asking ι).exec q i (.build b) s = some (r, s')) :
    Holding cfg k₀ s' (update hs i ((hs i).build b r)) := by
  have done : s.build (q.fateOf (.build b) s.kernel) i b = (r, s') := Option.some.inj hex
  by_cases acquires : ∃ pfx table dst, b = .acquireBypass pfx table dst
  · obtain ⟨pfx, table, dst, rfl⟩ := acquires
    obtain ⟨rfl, plain⟩ := fits
    have acquired := of_acquireBypass done
    cases r with
    | error e =>
      cases acquired
      exact hold.idle
    | ok u =>
      have holders := hold.holders_acquired acquired.sameBooks
        ((hs i).build (.acquireBypass pfx cfg.table dst) (.ok u)) rfl
      refine hold.goes_host acquired.sameBooks rfl rfl (fun iface h => hold.own i iface ?_)
        (holders ▸ hold.ledger.acquired plain acquired)
        (hold.grounded.acquired (fun r h => hold.grounded.answer h) (fun r h => hold.grounded.answer h) acquired)
      simpa [Phase.build, Build.undo] using h
  · push Not at acquires
    obtain ⟨k, c, rfl, set, new⟩ := build_other acquires done
    have grounded : Grounded k₀ k := by
      rcases set with rfl | ⟨name, l, rfl⟩
      · exact hold.grounded
      · exact hold.grounded.setLink name l
    have routes : k.routes = s.kernel.routes := by
      rcases set with rfl | ⟨name, l, rfl⟩ <;> rfl
    have count : ∀ dst, b.undo.count (.releaseBypass dst) = 0 := by
      cases b <;> simp_all [Build.undo]
    refine hold.goes_same ⟨_, _, _, rfl⟩ ?_ ?_ (fun iface h => ?_) rfl routes grounded fun dst => ?_
    · cases r <;> rfl
    · cases r <;> rfl
    · cases r with
      | error e => exact hold.own i iface h
      | ok u =>
        rcases List.mem_append.1 h with h | h
        · by_contra there
          have here := hold.grounded.links iface (Option.isSome_iff_ne_none.2 there)
          rw [new rfl iface h] at here
          cases here
        · exact hold.own i iface h
    · cases r with
      | error e => rfl
      | ok u => rw [Phase.build, List.count_append, count, Nat.zero_add]

theorem undone {u : Undo} (owed : (hs i).owes.head? = some u)
    (hex : (asking ι).exec q i (.undo u) s = some (r, s')) :
    Holding cfg k₀ s' (update hs i { hs i with owes := (hs i).owes.tail }) := by
  have owes : (hs i).owes = u :: (hs i).owes.tail := (List.cons_head?_tail owed).symm
  have own : ∀ iface, .deleteLink iface ∈ (hs i).owes.tail → k₀.links iface = none := fun iface h =>
    hold.own i iface (List.mem_of_mem_tail h)
  by_cases releases : ∃ dst, u = .releaseBypass dst
  · obtain ⟨dst, rfl⟩ := releases
    obtain ⟨-, released⟩ := of_releaseBypass (Option.some.inj hex)
    obtain ⟨held, holders⟩ := hold.holders_released released.sameBooks
      { hs i with owes := (hs i).owes.tail } owes
    exact hold.goes_host released.sameBooks rfl rfl own (holders ▸ hold.ledger.released held released)
      (hold.grounded.released released)
  · push Not at releases
    obtain ⟨k, c, rfl, gone⟩ := undo_other releases (Option.some.inj hex)
    have count : ∀ dst, (hs i).owes.tail.count (.releaseBypass dst) = (hs i).owes.count (.releaseBypass dst) :=
      fun dst => by rw [owes, List.tail_cons, List.count_cons_of_ne (releases dst)]
    rcases gone with rfl | ⟨iface, rfl, rfl⟩
    · exact hold.goes_same ⟨_, _, _, rfl⟩ rfl rfl own rfl rfl hold.grounded count
    · have mine := hold.own i iface (owes ▸ List.mem_cons_self)
      exact hold.goes_same ⟨_, _, _, rfl⟩ rfl rfl own rfl (hold.grounded.routes_deleteLink mine)
        (hold.grounded.deleteLink mine) count

/-! ### All operations -/

omit hold [DecidableEq ι] in
theorem locked {m : Map NetPrefix Route} (hex : (asking ι).exec q i .lockRoutes s = some (m, s')) :
    m = s.ranged (q.fateOf .lockRoutes s.kernel) ∧ s' = { s with routeMu := some i } := by
  cases mu : s.routeMu with
  | none =>
    simp only [asking, Node.exec, mu] at hex
    cases hex
    exact ⟨rfl, rfl⟩
  | some j =>
    simp only [asking, Node.exec, mu] at hex
    cases hex

theorem step {o : Op} {r : NodeSig.Res o} (hex : (asking ι).exec q i o s = some (r, s'))
    (hnext : (hs i).next cfg true o r = some h') : Holding cfg k₀ s' (update hs i h') := by
  cases o with
  | lookup | setActive | routeReplace => cases hnext
  | finish =>
    obtain ⟨even, ⟨⟩⟩ := Option.ite_none_right_eq_some.1 hnext
    cases hex
    exact hold.goes_on (hold.registered.keep rfl rfl fun _ h => by cases h) rfl rfl rfl rfl hold.unmoved even.symm
      fun _ h => by cases h
  | ctxErr =>
    cases hnext
    cases hex
    exact hold.idle
  | dropIfID ifID =>
    cases hnext
    cases hex
    exact hold.goes_on (hold.registered.keep rfl rfl fun _ h => h) rfl rfl rfl rfl hold.unmoved rfl (hold.found i)
  | enlist role t =>
    cases hnext
    exact hold.enlisted (Option.some.inj hex)
  | settle role t err =>
    obtain ⟨⟨-, pends, all⟩, ⟨⟩⟩ := Option.ite_none_right_eq_some.1 hnext
    exact hold.settled pends all (Option.some.inj hex)
  | take role name =>
    obtain ⟨even, ⟨⟩⟩ := Option.ite_none_right_eq_some.1 hnext
    exact hold.taken even (Option.some.inj hex)
  | release name t =>
    obtain ⟨pends, ⟨⟩⟩ := Option.ite_none_right_eq_some.1 hnext
    cases hex
    exact hold.goes_on (hold.registered.freed pends rfl rfl fun _ _ => rfl) rfl rfl rfl rfl hold.unmoved rfl
      (hold.found i)
  | close =>
    obtain ⟨even, ⟨⟩⟩ := Option.ite_none_right_eq_some.1 hnext
    exact hold.shut even (Option.some.inj hex)
  | build b =>
    obtain ⟨⟨-, fits⟩, ⟨⟩⟩ := Option.ite_none_right_eq_some.1 hnext
    exact hold.built fits hex
  | undo u =>
    obtain ⟨owed, ⟨⟩⟩ := Option.ite_none_right_eq_some.1 hnext
    exact hold.undone owed hex
  | lockRoutes =>
    cases hnext
    obtain ⟨rfl, rfl⟩ := locked hex
    refine hold.goes_on (hold.registered.keep rfl rfl fun _ h => h) rfl rfl rfl rfl hold.unmoved rfl ?_
    rintro _ ⟨⟩
    have perm : (s.ranged (q.fateOf .lockRoutes s.kernel)).entries.Perm s.installed.entries :=
      (q.fateOf .lockRoutes s.kernel).routePerm _
    rw [hold.unmoved] at perm
    exact perm.eq_nil
  | routeDel undo r =>
    obtain ⟨known, -⟩ := Option.ite_none_right_eq_some.1 hnext
    obtain ⟨base, found, known⟩ := (Option.any_eq_true _ _).1 known
    simp [values, hold.found i base found] at known
  | storeRoutes m =>
    obtain ⟨known, ⟨⟩⟩ := Option.ite_none_right_eq_some.1 hnext
    obtain ⟨base, found, known⟩ := (Option.any_eq_true _ _).1 known
    cases hex
    rw [hold.found i base found, decide_eq_true_eq, List.subset_nil] at known
    exact hold.goes_on (hold.registered.keep rfl rfl fun _ h => h) rfl rfl rfl rfl known rfl (hold.found i)
  | unlockRoutes =>
    cases hnext
    cases hex
    exact hold.goes_on (hold.registered.keep rfl rfl fun _ h => h) rfl rfl rfl rfl hold.unmoved rfl
      fun _ h => by cases h

omit hold [DecidableEq ι] in
theorem start (ledger : Ledger cfg k₀ s (cfg.bypassed.count ·)) (grounded : Grounded k₀ s.kernel)
    (opened : s.closed = false) (peers : s.peers = ∅) (unmoved : s.installed.entries = []) :
    Holding cfg k₀ s fun _ => {} := by
  refine ⟨⟨(fun _ _ h => by cases h), (fun _ _ _ h => by cases h), fun _ _ => by rw [peers]; rfl⟩,
    ledger.congr rfl rfl (funext fun dst => ?_), grounded, by simp, (fun _ _ h => by cases h), fun name p hp => ?_,
    unmoved, fun _ _ h => by cases h⟩
  · simp [holders, enteredHolders, opened, peers]
  · rw [peers] at hp
    cases hp

end Holding

/-! ## New clients -/

section New

variable {cfg : ClientConfig} {k₀ : Kernel} {s : Node ι}

/-- The rollback of `NewClient`. -/
def giveUp (done : List NetAddr) (s : Node ι) : Node ι := done.foldl (fun s a => (s.releaseBypass false a).2) s

theorem Ledger.givenUp (gone left : List NetAddr) (ledger : Ledger cfg k₀ s ((gone ++ left).count ·)) :
    Ledger cfg k₀ (giveUp gone s) (left.count ·) := by
  induction gone generalizing s with
  | nil => exact ledger
  | cons a gone ih =>
    obtain ⟨-, released⟩ := of_releaseBypass (rfl : s.releaseBypass false a = _)
    refine ih ((ledger.released (by simp) released).congr rfl rfl (funext fun dst => ?_))
    by_cases h : dst = a
    · subst h
      simp
    · simp [h, Ne.symm h]

/-- What becomes of the calls of `acquireBypass` in `NewClient`. -/
def ClientConfig.asks (cfg : ClientConfig) (k₀ : Kernel) (queries : NetAddr → Query ι) (a : NetAddr) : Fate ι :=
  (queries a).fateOf (.build (.acquireBypass cfg.interfacePrefix cfg.table a)) k₀

theorem acquireControllers_ledger (queries : NetAddr → Query ι) {done rest : List NetAddr}
    (plain : ∀ a ∈ rest, a.zone = "") (ledger : Ledger cfg k₀ s (done.count ·)) (grounded : Grounded k₀ s.kernel) :
    (∀ s', acquireControllers cfg (cfg.asks k₀ queries) done rest s = (.ok (), s') →
      Ledger cfg k₀ s' ((done ++ rest).count ·) ∧ Grounded k₀ s'.kernel ∧ SameBooks s s') ∧
    ∀ e s', acquireControllers cfg (cfg.asks k₀ queries) done rest s = (.error e, s') →
      Ledger cfg k₀ s' fun _ => 0 := by
  induction rest generalizing done s with
  | nil =>
    refine ⟨fun s' h => ?_, fun e s' h => by cases h⟩
    cases h
    exact ⟨by simpa using ledger, grounded, _, _, _, rfl⟩
  | cons a rest ih =>
    obtain ⟨first, plain⟩ := List.forall_mem_cons.1 plain
    unfold acquireControllers
    rcases hacq : s.acquireBypass (cfg.asks k₀ queries a) cfg.interfacePrefix cfg.table a with ⟨res, s₁⟩
    have acquired := of_acquireBypass hacq
    cases res with
    | error e =>
      refine ⟨(fun s' h => by cases h), fun e' s' h => ?_⟩
      cases h
      cases acquired
      have back := Ledger.givenUp done [] (by simpa using ledger)
      exact back.congr rfl rfl (by simp)
    | ok u =>
      have ledger₁ : Ledger cfg k₀ s₁ ((done ++ [a]).count ·) := by
        refine (ledger.acquired first acquired).congr rfl rfl (funext fun dst => ?_)
        by_cases h : dst = a
        · subst h
          simp
        · simp [h, Ne.symm h]
      have next := ih plain ledger₁ (grounded.acquired (fun r h => (Grounded.refl k₀).answer h)
        (fun r h => (Grounded.refl k₀).answer h) acquired)
      refine ⟨fun s' h => ?_, next.2⟩
      obtain ⟨ledger', grounded', books'⟩ := next.1 s' h
      refine ⟨ledger'.congr rfl rfl (by simp), grounded', ?_⟩
      obtain ⟨_, _, _, rfl⟩ := acquired.sameBooks
      obtain ⟨_, _, _, rfl⟩ := books'
      exact ⟨_, _, _, rfl⟩

theorem Ledger.start (cfg : ClientConfig) (k₀ : Kernel) (charon : Charon ι) :
    Ledger cfg k₀ ({ kernel := k₀, charon } : Node ι) (([] : List NetAddr).count ·) :=
  ⟨fun _ => rfl, (fun _ _ h => by cases h), fun _ _ h => h, fun _ _ h => .inl h⟩

theorem newClient_ledger (cfg : ClientConfig) (k₀ : Kernel) (charon : Charon ι) (queries : NetAddr → Query ι) :
    let used := cfg.setDefaults
    (∀ c s, newClient cfg (used.asks k₀ queries) k₀ charon = (.ok c, s) → c = used ∧
      Ledger used k₀ s (used.bypassed.count ·) ∧ Grounded k₀ s.kernel ∧ SameBooks { kernel := k₀, charon } s) ∧
    ∀ e s, newClient cfg (used.asks k₀ queries) k₀ charon = (.error e, s) → Ledger used k₀ s fun _ => 0 := by
  intro used
  unfold newClient
  have start := Ledger.start used k₀ charon
  cases valid : used.validate with
  | error e =>
    simp only [used] at valid
    simp only [valid]
    refine ⟨(fun c s h => by cases h), fun e' s h => ?_⟩
    cases h
    exact start
  | ok u =>
    simp only [used] at valid
    simp only [valid]
    have both := acquireControllers_ledger queries (ClientConfig.zone_of_validate valid) start (.refl k₀)
    split_ifs with full
    · rw [show cfg.setDefaults.bypassed = cfg.setDefaults.controllers from if_pos full]
      rcases acquired : acquireControllers cfg.setDefaults
        (cfg.setDefaults.asks k₀ queries) [] cfg.setDefaults.controllers
        { kernel := k₀, charon } with ⟨r, s⟩
      cases r with
      | error e =>
        refine ⟨(fun c s h => by cases h), fun e' s h => ?_⟩
        cases h
        exact both.2 e s acquired
      | ok u =>
        refine ⟨fun c s h => ?_, fun e' s h => by cases h⟩
        cases h
        exact ⟨rfl, both.1 s acquired⟩
    · rw [show cfg.setDefaults.bypassed = [] from if_neg full]
      refine ⟨fun c s h => ?_, fun e' s h => by cases h⟩
      cases h
      exact ⟨rfl, start, .refl k₀, _, _, _, rfl⟩

end New

/-! ## Runs -/

/-- Each destination is counted for its holders; a route that was there before still is; elsewhere there is one made by
the client as long as somebody holds it. -/
structure Balanced (cfg : ClientConfig) (k₀ : Kernel) (s : Node ι) (holders : NetAddr → ℕ) : Prop where
  refs : ∀ dst, s.refs dst = holders dst
  kept : ∀ key p, k₀.routes key = some p → s.kernel.routes key = some p
  held : ∀ dst, k₀.routes (cfg.hostKey dst) = none → 0 < holders dst →
    ∃ r, s.kernel.routes (cfg.hostKey dst) = some ⟨r, .bypass⟩
  deleted : ∀ dst, dst.zone = "" → k₀.routes (cfg.hostKey dst) = none → holders dst = 0 →
    s.kernel.routes (cfg.hostKey dst) = none

section Runs

variable {cfg : ClientConfig} {k₀ : Kernel} {s : Node ι} {n : NetAddr → ℕ}

theorem Ledger.balanced (ledger : Ledger cfg k₀ s n) : Balanced cfg k₀ s n where
  refs := ledger.count
  kept := ledger.kept
  held dst free some_ := by
    rw [← ledger.count, Node.refs] at some_
    cases hb : s.bypass dst with
    | none => simp [hb] at some_
    | some b =>
      obtain ⟨-, -, state⟩ := ledger.entry dst b hb
      split_ifs at state
      · exact ⟨b.route, state.2⟩
      · exact absurd free state
  deleted dst plain free none := by
    by_contra there
    obtain ⟨p, hp⟩ := Option.ne_none_iff_exists'.1 there
    rcases ledger.made _ p hp with old | ⟨dst', b, hb, -, hkey⟩
    · simp [free] at old
    · obtain rfl := cfg.hostKey_inj (ledger.entry dst' b hb).1 plain hkey
      have count := ledger.count dst'
      rw [Node.refs, hb, none] at count
      exact b.pos.ne' count

/-- The phase that call `i` is in, by what it has done. -/
def phaseOf [DecidableEq ι] (cfg : ClientConfig) (hist : List (Conc.Entry ι NodeSig (Node ι))) (i : ι) : Phase :=
  (track (Phase.next cfg true) {} hist i).getD {}

/-- A client on which each `i` is about to make its call. -/
def startCalls (cfg : ClientConfig) (s : Node ι) (calls : ι → ClientCall) :
    Config ι NodeSig (Node ι) (Except Err Unit) :=
  ⟨fun i => (calls i).run cfg, ⟨s, []⟩⟩

/-- The counts along every run. -/
theorem Holding.reaches [DecidableEq ι] {calls : ι → ClientCall}
    (unmoving : ∀ i name prefixes, calls i ≠ .promote name prefixes) (hold : Holding cfg k₀ s fun _ => {})
    {c : Config ι NodeSig (Node ι) (Except Err Unit)} (reach : (startCalls cfg s calls).Reaches (asking ι) c) :
    Holding cfg k₀ c.world.st (phaseOf cfg c.world.hist) := by
  have follows : Tracked (Phase.next cfg true) (fun _ _ h => h = {}) (startCalls cfg s calls) fun _ => {} :=
    fun i => ClientCall.follows_run cfg (unmoving i)
  obtain ⟨hs, -, tracks, hold⟩ := follows.holds (I := fun w hs => Holding cfg k₀ w.st hs) (C := fun _ _ => True) rfl
    hold (fun w hs i q o r s' h' hold _ hex hnext _ => hold.step hex hnext) reach fun _ _ _ => trivial
  have phases : phaseOf cfg c.world.hist = hs := funext fun i => by rw [phaseOf, tracks, Option.getD_some]
  rwa [phases]

/-- Bypass routes are counted exactly: during `NewClient`, after it has failed, and in every state of every
interleaving of the calls behind it. -/
theorem bypass_balanced [DecidableEq ι] (cfg : ClientConfig) (k₀ : Kernel) (charon : Charon ι)
    (queries : NetAddr → Query ι) :
    let used := cfg.setDefaults
    let fate := used.asks k₀ queries
    (∀ gone left rest s, used.validate = .ok () → used.controllers = gone ++ left ++ rest →
      acquireControllers used fate [] (gone ++ left) { kernel := k₀, charon } = (.ok (), s) →
      Balanced used k₀ (giveUp gone s) (left.count ·)) ∧
    (∀ e s, newClient cfg fate k₀ charon = (.error e, s) → Balanced used k₀ s fun _ => 0) ∧
    ∀ cfg' s, newClient cfg fate k₀ charon = (.ok cfg', s) →
      ∀ calls : ι → ClientCall, (∀ i name prefixes, calls i ≠ .promote name prefixes) →
      ∀ c, (startCalls cfg' s calls).Reaches (asking ι) c →
        Balanced cfg' k₀ c.world.st (holders cfg' c.world.st (phaseOf cfg' c.world.hist)) := by
  intro used fate
  refine ⟨fun gone left rest s valid split acquired => ?_, fun e s made => ?_,
    fun cfg' s made calls unmoving c reach => ?_⟩
  · have plain : ∀ a ∈ gone ++ left, a.zone = "" := fun a ha =>
      ClientConfig.zone_of_validate valid a (split ▸ List.mem_append_left rest ha)
    obtain ⟨ledger, -, -⟩ := (acquireControllers_ledger queries plain (.start used k₀ charon) (.refl k₀)).1 s acquired
    exact (ledger.givenUp gone left).balanced
  · exact ((newClient_ledger cfg k₀ charon queries).2 e s made).balanced
  · obtain ⟨rfl, ledger, grounded, _, _, _, rfl⟩ := (newClient_ledger cfg k₀ charon queries).1 cfg' s made
    have hold : Holding used k₀ _ fun _ => {} := .start ledger grounded rfl rfl rfl
    exact (hold.reaches unmoving reach).ledger.balanced

namespace Sample

def uplinked : Kernel where
  links name := if name = "eth0" then some ⟨0, "", true, [], false⟩ else none
  routes key := if key = routeKey 0 (.v4 0 0) then some ⟨{ dst := .v4 0 0, dev := "eth0" }, .foreign⟩ else none
  attached key p h := by
    split_ifs at h
    cases h
    exact .inr rfl

def fullCfg : ClientConfig where
  localID := "c"
  psk := "0123456789abcdef"
  virtualIP := .v4 0x0a090001
  fullTunnel := true
  controllers := [.v4 0x0a000001]

def shared : Peer := { name := "g", id := "g", addr := .v4 0x0a000001, ifID := 1, epoch := 1 }

def byDefault : Query (Fin 2) := { routeGet := .ok (routeKey 0 (.v4 0 0)) }

def noCharon : Charon (Fin 2) := ⟨fun _ => none, fun _ => none, []⟩

def addAndClose (i : Fin 2) : ClientCall := if i = 0 then .add shared else .close

end Sample

open Sample

theorem bypass_balanced_shared :
    let used := fullCfg.setDefaults
    let s := (newClient fullCfg (used.asks uplinked fun _ => byDefault) uplinked noCharon).2
    ∃ c c', (startCalls used s addAndClose).Reaches (asking (Fin 2)) c ∧
      (startCalls used s addAndClose).Reaches (asking (Fin 2)) c' ∧
      c.world.st.refs (.v4 0x0a000001) = 2 ∧ c'.world.st.refs (.v4 0x0a000001) = 1 ∧
      Balanced used uplinked c.world.st (holders used c.world.st (phaseOf used c.world.hist)) ∧
      Balanced used uplinked c'.world.st (holders used c'.world.st (phaseOf used c'.world.hist)) := by
  intro used s
  have made : newClient fullCfg (used.asks uplinked fun _ => byDefault) uplinked noCharon = (.ok used, s) :=
    Prod.ext (by decide +kernel) rfl
  have unmoving : ∀ i name prefixes, addAndClose i ≠ .promote name prefixes := by
    intro i name prefixes
    unfold addAndClose
    split_ifs <;> simp
  have balanced := (bypass_balanced fullCfg uplinked noCharon fun _ => byDefault).2.2 used s made addAndClose unmoving
  obtain ⟨c, reach, twice⟩ := Config.reaches_of_run_any (asking (Fin 2)) (List.replicate 5 (0, byDefault))
    (startCalls used s addAndClose) (fun c => c.world.st.refs (.v4 0x0a000001) = 2) (by decide +kernel)
  obtain ⟨c', reach', once⟩ := Config.reaches_of_run_any (asking (Fin 2))
    (List.replicate 5 (0, byDefault) ++ List.replicate 6 (1, byDefault))
    (startCalls used s addAndClose) (fun c => c.world.st.refs (.v4 0x0a000001) = 1) (by decide +kernel)
  exact ⟨c, c', reach, reach', twice, once, balanced c reach, balanced c' reach'⟩

end Runs

end Egressa.IPsec
