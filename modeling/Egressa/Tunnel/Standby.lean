import Egressa.Conc.Machine
import Egressa.Maps
import Egressa.Tunnel.Peers

/-!
# Standby candidates

A `StandbyManager` (`internal/tunnel/standby.go`) keeps a peer of the device for each candidate it lists.  Two
candidates of one key share a peer, and the one that goes takes it along.  A candidate that gets another key loses its
peer before it has the new one, so an `AddPeer` that fails leaves it listed without any.
-/

namespace Egressa.Tunnel

open Conc (Runs)
open Maps (Map lookup_insert_eq lookup_erase_eq)

/-- The seconds `AddPeer` sets for an interval in nanoseconds. -/
def keepaliveSeconds (interval : Int64) : ℕ :=
  if 0 < interval then
    -- `Round` stays at the largest duration where the next second is beyond it
    max 1 (min ((interval.toInt + 500000000) / 1000000000) 9223372036).toNat
  else 0

structure StandbyCandidate where
  id : String
  publicKey : Key
  endpoint : String
  deriving DecidableEq, Repr

/-- A device, with a record of the peers that the manager added and has not removed since. -/
structure StandbyDevice where
  peers : WgPeers
  added : Finset Key

namespace StandbyDevice

def addPeer (d : StandbyDevice) (key : Key) (endpoint : String) (keepalive : Int64) : StandbyDevice :=
  ⟨d.peers.addPeer key [] endpoint (keepaliveSeconds keepalive), insert key d.added⟩

def removePeer (d : StandbyDevice) (key : Key) : StandbyDevice := ⟨d.peers.removePeer key, d.added.erase key⟩

end StandbyDevice

structure StandbyManager where
  dev : StandbyDevice
  keepalive : Int64
  byID : Map String StandbyCandidate

inductive StandbyCall where
  | add (candidate : StandbyCandidate) (removeErr addErr : Option String)
  | remove (id : String) (removeErr : Option String)
  deriving DecidableEq

namespace StandbyManager

/-- `NewStandbyManager`; an interval that is not positive is an error. -/
def new (peers : WgPeers) (keepalive : Int64) : Option StandbyManager :=
  if keepalive ≤ 0 then none else some ⟨⟨peers, ∅⟩, keepalive, ∅⟩

/-- Adds a standby, in place of the one of its name. -/
def add (m : StandbyManager) (candidate : StandbyCandidate) (removeErr addErr : Option String) :
    Except String Unit × StandbyManager :=
  let set (m : StandbyManager) : Except String Unit × StandbyManager :=
    match addErr with
    | some err => (.error ("tunnel: add standby candidate " ++ candidate.id ++ ": " ++ err), m)
    | none => (.ok (), { m with
        dev := m.dev.addPeer candidate.publicKey candidate.endpoint m.keepalive
        byID := m.byID.insert candidate.id candidate })
  match (m.byID.lookup candidate.id).filter (·.publicKey ≠ candidate.publicKey), removeErr with
  | none, _ => set m
  | some _, some err =>
    (.error ("tunnel: replace standby candidate " ++ candidate.id ++ ": remove old peer: " ++ err), m)
  | some existing, none => set { m with dev := m.dev.removePeer existing.publicKey }

def remove (m : StandbyManager) (id : String) (removeErr : Option String) : Except String Unit × StandbyManager :=
  match m.byID.lookup id, removeErr with
  | none, _ => (.ok (), m)
  | some _, some err => (.error ("tunnel: remove standby candidate " ++ id ++ ": " ++ err), m)
  | some candidate, none =>
    (.ok (), { m with dev := m.dev.removePeer candidate.publicKey, byID := m.byID.erase id })

def exec (m : StandbyManager) : StandbyCall → Except String Unit × StandbyManager
  | .add candidate removeErr addErr => m.add candidate removeErr addErr
  | .remove id removeErr => m.remove id removeErr

def step? (m : StandbyManager) (call : StandbyCall) : Option StandbyManager := some (m.exec call).2

/-- Every candidate has its peer. -/
def Served (m : StandbyManager) : Prop := ∀ id c, m.byID.lookup id = some c → m.dev.peers.peer c.publicKey ≠ none

/-- Every peer that was added is that of a candidate. -/
def Accounted (m : StandbyManager) : Prop := ∀ key ∈ m.dev.added, ∃ id c, m.byID.lookup id = some c ∧ c.publicKey = key

/-- An `Add` that returns an error has changed nothing. -/
def FailsClean (m : StandbyManager) (call : StandbyCall) : Prop :=
  ∀ c removeErr addErr err, call = .add c removeErr addErr → (m.exec call).1 = .error err →
    (m.exec call).2.byID = m.byID ∧ (m.exec call).2.dev.peers = m.dev.peers

/-- No candidate but that of the ID has the key. -/
def Alone (m : StandbyManager) (id : String) (key : Key) : Prop :=
  ∀ id' c, m.byID.lookup id' = some c → c.publicKey = key → id' = id

/-- The key that a call removes is that of no other candidate, and no new peer is refused once the old one is gone. -/
def Careful (m : StandbyManager) : StandbyCall → Prop
  | .add c removeErr addErr => ∀ old, m.byID.lookup c.id = some old → old.publicKey ≠ c.publicKey →
      removeErr = none → addErr = none ∧ m.Alone c.id old.publicKey
  | .remove id removeErr => ∀ old, m.byID.lookup id = some old → removeErr = none → m.Alone id old.publicKey

variable {m m' : StandbyManager} {call : StandbyCall} {c old : StandbyCandidate} {id : String}

/-- What a call leads to. -/
inductive Outcome (m : StandbyManager) : StandbyCall → Except String Unit × StandbyManager → Prop where
  | failed (call : StandbyCall) (err : String) (careful : m.Careful call) : Outcome m call (.error err, m)
  | unlisted (id : String) (removeErr : Option String) (h : m.byID.lookup id = none) :
      Outcome m (.remove id removeErr) (.ok (), m)
  | removed (id : String) (old : StandbyCandidate) (h : m.byID.lookup id = some old) : Outcome m (.remove id none)
        (.ok (), { m with dev := m.dev.removePeer old.publicKey, byID := m.byID.erase id })
  | added (c : StandbyCandidate) (removeErr : Option String)
      (h : ∀ old, m.byID.lookup c.id = some old → old.publicKey = c.publicKey) :
      Outcome m (.add c removeErr none) (.ok (), { m with
        dev := m.dev.addPeer c.publicKey c.endpoint m.keepalive, byID := m.byID.insert c.id c })
  | replaced (c old : StandbyCandidate) (h : m.byID.lookup c.id = some old) (other : old.publicKey ≠ c.publicKey) :
      Outcome m (.add c none none) (.ok (), { m with
        dev := (m.dev.removePeer old.publicKey).addPeer c.publicKey c.endpoint m.keepalive
        byID := m.byID.insert c.id c })
  | lost (c old : StandbyCandidate) (err msg : String) (h : m.byID.lookup c.id = some old)
      (other : old.publicKey ≠ c.publicKey) :
      Outcome m (.add c none (some err)) (.error msg, { m with dev := m.dev.removePeer old.publicKey })

theorem outcome_add (c : StandbyCandidate) (removeErr addErr : Option String) :
    Outcome m (.add c removeErr addErr) (m.add c removeErr addErr) := by
  unfold add
  cases h : (m.byID.lookup c.id).filter (·.publicKey ≠ c.publicKey) with
  | none =>
    have same : ∀ old, m.byID.lookup c.id = some old → old.publicKey = c.publicKey := by
      simpa [Option.filter_eq_none_iff] using h
    cases addErr with
    | some err => exact .failed _ _ fun old hold other _ => absurd (same old hold) other
    | none => exact .added c removeErr same
  | some old =>
    obtain ⟨hold, other⟩ : m.byID.lookup c.id = some old ∧ old.publicKey ≠ c.publicKey := by
      simpa [Option.filter_eq_some_iff] using h
    match removeErr, addErr with
    | some err, _ => exact .failed _ _ fun _ _ _ h => absurd h (by simp)
    | none, some err => exact .lost c old err _ hold other
    | none, none => exact .replaced c old hold other

theorem outcome_remove (id : String) (removeErr : Option String) :
    Outcome m (.remove id removeErr) (m.remove id removeErr) := by
  unfold remove
  cases h : m.byID.lookup id with
  | none => exact .unlisted id removeErr h
  | some old =>
    cases removeErr with
    | some err => exact .failed _ _ fun _ _ h => absurd h (by simp)
    | none => exact .removed id old h

theorem outcome_exec (m : StandbyManager) (call : StandbyCall) : Outcome m call (m.exec call) := by
  cases call with
  | add c removeErr addErr => exact outcome_add c removeErr addErr
  | remove id removeErr => exact outcome_remove id removeErr

theorem Served.others_iff (served : m.Served) (id : String) (key : Key) :
    (∀ id' c, m.byID.lookup id' = some c → id' ≠ id → (m.dev.removePeer key).peers.peer c.publicKey ≠ none) ↔
      m.Alone id key := by
  simp only [StandbyDevice.removePeer, WgPeers.peer_removePeer_ne_none]
  constructor
  · intro h id' c hc hkey
    by_contra hid
    exact (h id' c hc hid).1 hkey
  · intro alone id' c hc hid
    exact ⟨fun hkey => hid (alone id' c hc hkey), served id' c hc⟩

theorem served_insert (dev : StandbyDevice) (c : StandbyCandidate) :
    Served { m with dev := dev.addPeer c.publicKey c.endpoint m.keepalive, byID := m.byID.insert c.id c } ↔
      ∀ id' c', m.byID.lookup id' = some c' → id' ≠ c.id →
        c'.publicKey = c.publicKey ∨ dev.peers.peer c'.publicKey ≠ none := by
  simp only [Served, StandbyDevice.addPeer, WgPeers.peer_addPeer_ne_none, lookup_insert_eq]
  constructor
  · intro h id' c' hc' hid
    exact h id' c' (by simp [hid, hc'])
  · intro h id' c' hc'
    split_ifs at hc' with hid
    · exact Or.inl (by cases hc'; rfl)
    · exact h id' c' hc' hid

theorem served_erase (id : String) (old : StandbyCandidate) :
    Served { m with dev := m.dev.removePeer old.publicKey, byID := m.byID.erase id } ↔
      ∀ id' c, m.byID.lookup id' = some c → id' ≠ id →
        (m.dev.removePeer old.publicKey).peers.peer c.publicKey ≠ none := by
  simp only [Served, lookup_erase_eq]
  constructor
  · intro h id' c' hc' hid
    exact h id' c' (by simp [hid, hc'])
  · intro h id' c' hc'
    split_ifs at hc' with hid
    exact h id' c' hc' hid

theorem exec_served_iff (served : m.Served) (call : StandbyCall) :
    (m.exec call).2.Served ∧ m.FailsClean call ↔ m.Careful call := by
  have outcome := outcome_exec m call
  unfold FailsClean
  generalize m.exec call = out at outcome ⊢
  cases outcome with
  | failed _ err careful => exact ⟨fun _ => careful, fun _ => ⟨served, fun _ _ _ _ _ _ => ⟨rfl, rfl⟩⟩⟩
  | unlisted id removeErr h =>
    exact ⟨fun _ old hold => absurd hold (by simp [h]), fun _ => ⟨served, fun _ _ _ _ h => absurd h (by simp)⟩⟩
  | removed id old h =>
    rw [served_erase, served.others_iff]
    simp [Careful, h]
  | added c removeErr h =>
    rw [served_insert]
    refine ⟨fun _ old hold other => absurd (h old hold) other, fun _ => ⟨fun id' c' hc' _ => ?_, by simp⟩⟩
    exact Or.inr (served id' c' hc')
  | replaced c old h other =>
    rw [served_insert]
    have freed : (∀ id' c', m.byID.lookup id' = some c' → id' ≠ c.id →
        c'.publicKey = c.publicKey ∨ (m.dev.removePeer old.publicKey).peers.peer c'.publicKey ≠ none) ↔
        m.Alone c.id old.publicKey := by
      rw [← served.others_iff]
      refine forall₄_congr fun id' c' hc' _ => or_iff_right_of_imp fun hkey => ?_
      rw [StandbyDevice.removePeer, WgPeers.peer_removePeer_ne_none, hkey]
      exact ⟨other.symm, hkey ▸ served id' c' hc'⟩
    simp [Careful, h, other, freed]
  | lost c old err msg h other =>
    refine ⟨fun ⟨served', _⟩ => absurd (served' c.id old h) ?_, fun careful => ?_⟩
    · simp [StandbyDevice.removePeer, WgPeers.removePeer]
    · cases (careful old h other rfl).1

theorem Accounted.insert (accounted : m.Accounted) {dev : StandbyDevice} (kept : dev.added ⊆ m.dev.added)
    (freed : ∀ old, m.byID.lookup c.id = some old → old.publicKey = c.publicKey ∨ old.publicKey ∉ dev.added) :
    Accounted { m with dev := dev.addPeer c.publicKey c.endpoint m.keepalive, byID := m.byID.insert c.id c } := by
  intro key hkey
  by_cases new : key = c.publicKey
  · exact ⟨c.id, c, by simp, new.symm⟩
  have hkey := Finset.mem_of_mem_insert_of_ne hkey new
  obtain ⟨id', c', hc', rfl⟩ := accounted key (kept hkey)
  refine ⟨id', c', ?_, rfl⟩
  rw [lookup_insert_eq, if_neg, hc']
  rintro rfl
  exact (freed c' hc').elim new fun gone => gone hkey

theorem exec_accounted (accounted : m.Accounted) (call : StandbyCall) : (m.exec call).2.Accounted := by
  have outcome := outcome_exec m call
  generalize m.exec call = out at outcome ⊢
  intro key hkey
  cases outcome with
  | failed => exact accounted key hkey
  | unlisted => exact accounted key hkey
  | removed id old h =>
    obtain ⟨other, hkey⟩ := Finset.mem_erase.1 hkey
    obtain ⟨id', c, hc, rfl⟩ := accounted key hkey
    refine ⟨id', c, ?_, rfl⟩
    rw [lookup_erase_eq, if_neg, hc]
    rintro rfl
    exact other (by rw [h] at hc; cases hc; rfl)
  | added c removeErr h => exact accounted.insert (Finset.Subset.refl _) (fun old hold => Or.inl (h old hold)) key hkey
  | replaced c old h other =>
    refine accounted.insert (Finset.erase_subset _ _) (fun old' hold' => Or.inr ?_) key hkey
    rw [h] at hold'
    cases hold'
    exact Finset.notMem_erase _ _
  | lost c old err msg h other => exact accounted key (Finset.mem_of_mem_erase hkey)

end StandbyManager

open StandbyManager

/-- As long as no call is careless the candidates and the peers match; a call keeps it so if it is careful, and only
then. -/
theorem standby_exact {peers : WgPeers} {keepalive : Int64} {m₀ m : StandbyManager}
    (new : StandbyManager.new peers keepalive = some m₀) (run : Runs step? Careful m₀ m) :
    m.Served ∧ m.Accounted ∧
    ∀ call, (m.exec call).2.Served ∧ (m.exec call).2.Accounted ∧ m.FailsClean call ↔ m.Careful call := by
  obtain ⟨served, accounted⟩ : m.Served ∧ m.Accounted := by
    refine run.invariant (I := fun m => m.Served ∧ m.Accounted) ?_ ?_
    · rintro m call _ ⟨served, accounted⟩ careful ⟨⟩
      exact ⟨((exec_served_iff served call).2 careful).1, exec_accounted accounted call⟩
    · unfold StandbyManager.new at new
      split_ifs at new
      cases new
      exact ⟨fun _ _ h => by simp at h, fun _ h => by simp at h⟩
  refine ⟨served, accounted, fun call => ?_⟩
  rw [← exec_served_iff served call]
  exact and_congr_right fun _ => and_iff_right (exec_accounted accounted call)

theorem standby_exact_replaced : ∃ m₀ m, StandbyManager.new .empty 25000000000 = some m₀ ∧
    Runs step? Careful m₀ m ∧ (m.byID.lookup "a").map (·.publicKey) = some 2 ∧ m.Served := by
  have new : StandbyManager.new .empty 25000000000 = some ⟨⟨.empty, ∅⟩, 25000000000, ∅⟩ := rfl
  have listed : Runs step? Careful ⟨⟨.empty, ∅⟩, 25000000000, ∅⟩ _ :=
    Runs.refl.tail (e := .add ⟨"a", 1, "192.0.2.1:51820"⟩ none none) (fun _ h => by simp at h) rfl
  have run := listed.tail (e := .add ⟨"a", 2, "192.0.2.1:51820"⟩ none none) (fun _ _ _ _ => ⟨rfl, fun id c hc _ => by
    by_contra other
    have hc : ((∅ : Map String StandbyCandidate).insert "a" _).lookup id = some c := hc
    rw [lookup_insert_eq, if_neg other] at hc
    cases hc⟩) rfl
  exact ⟨_, _, new, run, by decide +kernel, (standby_exact new run).1⟩

/-- Two candidates of one key, of which one goes; and one whose new peer is refused, so that `Add` returns an error
and the old peer is gone. -/
theorem standby_parted : ∃ m₀, StandbyManager.new .empty 25000000000 = some m₀ ∧
    (∃ m, Runs step? (fun _ _ => True) m₀ m ∧
      ((m.byID.lookup "b").map (·.publicKey), m.dev.peers.peer 1) = (some 1, none)) ∧
    ∃ m, Runs step? (fun _ _ => True) m₀ m ∧
      let r := m.add ⟨"a", 2, "192.0.2.1:51820"⟩ none (some "device closed")
      ((m.dev.peers.peer 1).isSome, r.1.toBool, (r.2.byID.lookup "a").map (·.publicKey), r.2.dev.peers.peer 1) =
        (true, false, some 1, none) := by
  refine ⟨_, rfl, ?_, ?_⟩
  · exact Runs.exists_of_foldlM step? _ [.add ⟨"a", 1, "192.0.2.1:51820"⟩ none none,
      .add ⟨"b", 1, "192.0.2.2:51820"⟩ none none, .remove "a" none] _ (by decide +kernel)
  · exact Runs.exists_of_foldlM step? _ [.add ⟨"a", 1, "192.0.2.1:51820"⟩ none none] _ (by decide +kernel)

end Egressa.Tunnel
