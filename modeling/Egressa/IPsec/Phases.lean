import Egressa.Conc.Discipline
import Egressa.IPsec.Client

/-!
# What a call on a client has on hand

`Add`, `Remove` and `Close` (`internal/ipsec/client.go`) reserve names, and they answer for what is to be undone: of a
tunnel that is brought up, until it is entered, and of the tunnels that are torn down.  `Phase` is what a call has on
hand, by what it has done so far.
-/

namespace Egressa.IPsec

open Conc Maps

/-- The controllers to which a client keeps a bypass route. -/
def ClientConfig.bypassed (cfg : ClientConfig) : List NetAddr := if cfg.fullTunnel then cfg.controllers else []

/-- What `Close` undoes of a client with the tunnels `ts`. -/
def ClientConfig.teardowns (cfg : ClientConfig) (ts : List Tunnel) : List Undo :=
  ts.flatMap (teardown cfg.fullTunnel) ++ cfg.bypassed.map .releaseBypass

/-- What is to be undone once a step of a bring-up has succeeded. -/
def Build.undo : Build → List Undo
  | addXfrmInterface iface _ _ => [.deleteLink iface]
  | acquireBypass _ _ dst => [.releaseBypass dst]
  | loadShared s => [.unloadShared s.id]
  | loadConn conn => [.terminateIKE conn.name, .unloadConn conn.name]
  | _ => []

/-- Bypass routes are in the table of the client and to addresses without a zone. -/
def Build.Fits (cfg : ClientConfig) : Build → Prop
  | acquireBypass _ table dst => table = cfg.table ∧ dst.zone = ""
  | _ => True

instance (cfg : ClientConfig) : (b : Build) → Decidable (b.Fits cfg)
  | .acquireBypass _ _ _ => inferInstanceAs (Decidable (_ ∧ _))
  | .addXfrmInterface _ _ _ | .addAddr _ _ | .setLinkUp _ | .loadShared _ | .loadConn _ | .initiate _ _ =>
    inferInstanceAs (Decidable True)

/-- What a call on a client has on hand. -/
structure Phase where
  /-- The name it has reserved. -/
  pends : Option String := none
  /-- What it has to undo, or would have to if it failed, in this order. -/
  owes : List Undo := []
  /-- The routes it has found installed, while it holds `routeMu`. -/
  base : Option (Map NetPrefix Route) := none
  deriving DecidableEq

namespace Phase

variable (cfg : ClientConfig) (adds : Bool) (h : Phase)

/-- The first section of `Add`. -/
def enlist (name : String) : Except Err Unit → Phase
  | .ok () => { h with pends := some name }
  | .error _ => h

/-- The second section of `Add`: a tunnel that is entered is no longer up to the call. -/
def settle : Option Err → Phase
  | none => {}
  | some _ => { h with pends := none }

/-- The first section of `Remove`. -/
def take (name : String) : Except Err Tunnel → Phase
  | .ok t => { h with pends := some name, owes := teardown cfg.fullTunnel t }
  | .error _ => h

/-- The first section of `Close`. -/
def close : Option (List Tunnel) → Phase
  | some ts => { h with owes := cfg.teardowns ts }
  | none => h

/-- A step of `bringUp`. -/
def build (b : Build) : Except Err Unit → Phase
  | .ok () => { h with owes := b.undo ++ h.owes }
  | .error _ => h

/-- The phase of a call of `Remove` or `Close`, and of `Add` if `adds`, after one more operation, if it may make it. -/
def next : (o : Op) → NodeSig.Res o → Option Phase
  | .finish _, _ => if h.owes = [] then some {} else none
  | .ctxErr, _ | .dropIfID _, _ => some h
  | .enlist _ t, r => if adds then some (h.enlist t.name r) else none
  | .settle _ t err, r =>
    if adds ∧ h.pends = some t.name ∧ (err = none → h.owes = teardown cfg.fullTunnel t) then some (h.settle r)
    else none
  | .take _ name, r => if h.owes = [] then some (h.take cfg name r) else none
  | .release name _, _ => if h.pends = some name then some { h with pends := none } else none
  | .close, r => if h.owes = [] then some (h.close cfg r) else none
  | .build b, r => if adds ∧ b.Fits cfg then some (h.build b r) else none
  | .undo u, _ => if h.owes.head? = some u then some { h with owes := h.owes.tail } else none
  | .lockRoutes, m => some { h with base := some m }
  | .routeDel _ r, _ => if h.base.any fun base => r ∈ values base then some h else none
  | .storeRoutes m, _ => if h.base.any fun base => m.entries ⊆ base.entries then some h else none
  | .unlockRoutes, _ => some { h with base := none }
  | _, _ => none

end Phase

/-! ## Every call follows its phases -/

section Follows

variable {cfg : ClientConfig} {adds : Bool} {t : Tunnel} {h : Phase}

theorem follows_finish (even : h.owes = []) (r : Except Err Unit) :
    Follows (Phase.next cfg adds) (finish r) (fun _ h' => h' = {}) h :=
  fun _ => ⟨{}, if_pos even, rfl⟩

theorem follows_unwind (us : List Undo) {rest : List Undo} (owes : h.owes = us ++ rest) :
    Follows (Phase.next cfg adds) (unwind us) (fun _ h' => h' = { h with owes := rest }) h := by
  induction us generalizing h with
  | nil =>
    obtain rfl : h.owes = rest := owes
    rfl
  | cons u us ih =>
    refine fun _ => ⟨{ h with owes := us ++ rest }, ?_, (ih rfl).andThen fun _ _ hh => hh⟩
    simp [Phase.next, owes]

theorem follows_unwind_all (us : List Undo) (owes : h.owes = us) :
    Follows (Phase.next cfg adds) (unwind us) (fun _ h' => h' = { h with owes := [] }) h :=
  follows_unwind us (owes.trans (List.append_nil _).symm)

/-! ### Adding and removing -/

/-- A bring-up has returned: its call owes what it says is to be undone, and that is all of a teardown if it has
succeeded. -/
def BroughtUp (cfg : ClientConfig) (t : Tunnel) (res : Option Err × List Undo) (h : Phase) : Prop :=
  h.pends = some t.name ∧ h.owes = res.2 ∧ (res.1 = none → res.2 = teardown cfg.fullTunnel t)

theorem follows_stage {b : Build} {owes : List Undo} {rest : Prog NodeSig (Option Err × List Undo)}
    (fits : b.Fits cfg)
    (hrest : Follows (Phase.next cfg true) rest (BroughtUp cfg t) { pends := some t.name, owes := b.undo ++ owes }) :
    Follows (Phase.next cfg true) (stage b owes rest) (BroughtUp cfg t) { pends := some t.name, owes } := by
  intro r
  refine ⟨_, if_pos ⟨rfl, fits⟩, ?_⟩
  cases r with
  | error e => exact ⟨rfl, rfl, fun h => by cases h⟩
  | ok u => exact hrest

theorem follows_establish {owes : List Undo} (all : .terminateIKE t.conn.name :: .unloadConn t.conn.name ::
      .unloadShared t.conn.name :: owes = teardown cfg.fullTunnel t) :
    Follows (Phase.next cfg true) (ClientConfig.establish t owes) (BroughtUp cfg t) { pends := some t.name, owes } := by
  refine follows_stage trivial (follows_stage trivial fun ended => ⟨_, rfl, ?_⟩)
  cases ended with
  | some e => exact ⟨rfl, rfl, fun h => by cases h⟩
  | none => exact follows_stage trivial ⟨rfl, rfl, fun _ => all⟩

theorem follows_bringUp (plain : t.addr.zone = "") :
    Follows (Phase.next cfg true) (cfg.bringUp t) (BroughtUp cfg t) { pends := some t.name } := by
  refine follows_stage trivial (follows_stage trivial (follows_stage trivial ?_))
  by_cases full : cfg.fullTunnel = true
  · rw [if_pos full]
    exact follows_stage ⟨rfl, plain⟩ (follows_establish (by simp [teardown, full]))
  · rw [if_neg full]
    exact follows_establish (by simp [teardown, full])

theorem follows_addTunnel {bringUp : Prog NodeSig (Option Err × List Undo)}
    (up : Follows (Phase.next cfg true) bringUp (BroughtUp cfg t) { pends := some t.name }) :
    Follows (Phase.next cfg true) (addTunnel .client t bringUp) (fun _ h => h = {}) {} := by
  intro r
  refine ⟨_, rfl, ?_⟩
  cases r with
  | error e => exact follows_finish rfl _
  | ok u =>
    refine up.andThen fun res h ⟨pends, owes, all⟩ r => ?_
    refine ⟨_, if_pos ⟨rfl, pends, fun none => owes.trans (all none)⟩, ?_⟩
    cases r with
    | none => exact follows_finish rfl _
    | some e =>
      refine (follows_unwind_all (h := h.settle (some e)) res.2 owes).andThen ?_
      rintro bad _ rfl
      exact follows_finish rfl _

theorem follows_remove (cfg : ClientConfig) (name : String) :
    Follows (Phase.next cfg adds) (cfg.remove name) (fun _ h => h = {}) {} := by
  intro r
  refine ⟨_, rfl, ?_⟩
  cases r with
  | error e => exact follows_finish rfl _
  | ok t =>
    refine (follows_unwind_all (teardown cfg.fullTunnel t) rfl).andThen ?_
    rintro bad _ rfl
    exact fun _ => ⟨_, if_pos rfl, follows_finish rfl _⟩

/-! ### Closing -/

theorem follows_withdraw {base keep : Map NetPrefix Route} {bad : Bool} {l : List (Entry NetPrefix Route)}
    (found : h.base = some base) (sub : l ⊆ base.entries) (kept : keep.entries ⊆ base.entries) :
    Follows (Phase.next cfg adds) (withdraw keep bad l) (fun res h' => h' = h ∧ res.1.entries ⊆ base.entries) h := by
  induction l generalizing keep bad with
  | nil => exact ⟨rfl, kept⟩
  | cons e l ih =>
    obtain ⟨here, sub⟩ := List.cons_subset.1 sub
    unfold withdraw
    split_ifs
    · exact ih sub kept
    have known : e.2 ∈ values base := mem_values.2 ⟨e.1, lookup_of_mem_entries here⟩
    refine fun r => ⟨h, by simp [Phase.next, found, known], ?_⟩
    cases r with
    | ok u => exact ih sub kept
    | error err =>
      refine ih sub fun e' he' => ?_
      have look := lookup_of_mem_entries he'
      rw [lookup_insert_eq] at look
      split_ifs at look with key
      · obtain rfl : e' = e := Sigma.ext key (heq_of_eq (Option.some.inj look).symm)
        exact here
      · exact kept (AList.mem_lookup_iff.1 look)

theorem follows_clear {base : Map NetPrefix Route} (found : h.base = some base) :
    Follows (Phase.next cfg adds) (apply base []) (fun _ h' => h' = h) h := by
  refine (follows_withdraw found (List.Subset.refl _) (List.nil_subset _)).andThen ?_
  rintro res h ⟨rfl, kept⟩
  exact fun _ => ⟨h, by simp [Phase.next, found, kept], rfl⟩

theorem follows_closePeers (ts : List Tunnel) {rest : List Undo}
    (owes : h.owes = ts.flatMap (teardown cfg.fullTunnel) ++ rest) :
    Follows (Phase.next cfg adds) (cfg.closePeers ts) (fun _ h' => h' = { h with owes := rest }) h := by
  induction ts generalizing h with
  | nil =>
    obtain rfl : h.owes = rest := owes
    rfl
  | cons t ts ih =>
    rw [List.flatMap_cons, List.append_assoc] at owes
    refine (follows_unwind _ owes).andThen ?_
    rintro bad _ rfl
    exact fun _ => ⟨_, rfl, (ih rfl).andThen fun _ _ hh => hh⟩

theorem follows_close (cfg : ClientConfig) : Follows (Phase.next cfg adds) cfg.close (fun _ h => h = {}) {} := by
  intro r
  refine ⟨_, rfl, ?_⟩
  cases r with
  | none => exact follows_finish rfl _
  | some ts =>
    refine fun m => ⟨_, rfl, (follows_clear rfl).andThen ?_⟩
    rintro res _ rfl
    refine fun _ => ⟨_, rfl, (follows_closePeers ts rfl).andThen ?_⟩
    rintro bad _ rfl
    have controllers : (if cfg.fullTunnel then cfg.controllers.map Undo.releaseBypass else []) =
        cfg.bypassed.map .releaseBypass := by
      cases full : cfg.fullTunnel <;> simp [ClientConfig.bypassed, full]
    rw [controllers]
    refine (follows_unwind_all (cfg.bypassed.map .releaseBypass) rfl).andThen ?_
    rintro worse _ rfl
    exact follows_finish rfl _

/-- Every call keeps to its phases. -/
theorem ClientCall.follows_run (cfg : ClientConfig) {call : ClientCall}
    (unmoving : ∀ name prefixes, call ≠ .promote name prefixes) :
    Follows (Phase.next cfg true) (call.run cfg) (fun _ h => h = {}) {} := by
  cases call with
  | add p =>
    change Follows _ (cfg.add p) _ _
    unfold ClientConfig.add
    cases valid : cfg.validatePeer p with
    | error e => exact follows_finish rfl _
    | ok conn => exact follows_addTunnel (follows_bringUp (ClientConfig.zone_of_validatePeer valid))
  | promote name prefixes => exact absurd rfl (unmoving name prefixes)
  | remove name => exact follows_remove cfg name
  | close => exact follows_close cfg

end Follows

end Egressa.IPsec
