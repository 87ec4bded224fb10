import Egressa.Conc.Pool
import Egressa.Records

/-!
# The standby armer

`StandbyArmer` (`internal/handoff/armer.go`) keeps, per session, the access state that a standby gateway was prepared
with, for the epoch at which it would take the session over.  `Traced` says which accepted calls an entry goes back to.
-/

namespace Egressa.Handoff

open Conc

inductive ArmPhase where
  | idle
  | prepare
  | ready
  deriving DecidableEq, Repr, Inhabited

def errSessionMismatch : String := "handoff: access state session does not match armed session"
def errStaleEpoch : String := "handoff: prepare targets an epoch older than the one already armed"
def errNoArmInProgress : String := "handoff: mark-ready called with no arm in progress"
def errEpochMismatch : String := "handoff: mark-ready epoch does not match the armed target epoch"

/-- What the old access gateway hands over. -/
structure AccessState where
  sessionID : String
  virtualIP : String
  seqHighWater : UInt64
  deriving DecidableEq, Repr, Inhabited

def AccessState.validate (s : AccessState) : Except String Unit :=
  if s.sessionID = "" then .error "handoff: access state has empty SessionID"
  else if s.virtualIP = "" then .error "handoff: access state has empty VirtualIP"
  else .ok ()

structure ArmEntry where
  phase : ArmPhase
  targetEpoch : UInt64
  state : AccessState
  armedAt : ℤ
  deriving DecidableEq, Repr, Inhabited

/-- `handoff.StandbyArmer`: the sessions a standby gateway is armed for. -/
structure StandbyArmer where
  arms : AList fun _ : String => ArmEntry

namespace StandbyArmer

def empty : StandbyArmer := ⟨∅⟩

/-- The entry that `Prepare` leaves, over the one it finds: another call for the same epoch does not take
back that the standby is ready. -/
def armed (existing : Option ArmEntry) (target : UInt64) (state : AccessState) (now : ℤ) : ArmEntry where
  phase := if existing.any fun e => target = e.targetEpoch ∧ e.phase = .ready then .ready else .prepare
  targetEpoch := target
  state := state
  armedAt := now

/-- Arms a session for the epoch after the current one. -/
def prepare (a : StandbyArmer) (session : String) (currentEpoch : UInt64) (state : AccessState) (now : ℤ) :
    Option String × StandbyArmer :=
  if state.sessionID ≠ session then (some errSessionMismatch, a)
  else match state.validate with
    | .error e => (some e, a)
    | .ok () =>
      let target := currentEpoch + 1
      let existing := a.arms.lookup session
      if existing.any fun e => target < e.targetEpoch then (some errStaleEpoch, a)
      else (none, ⟨a.arms.insert session (armed existing target state now)⟩)

/-- The standby is ready for the epoch. -/
def markReady (a : StandbyArmer) (session : String) (epoch : UInt64) : Option String × StandbyArmer :=
  match a.arms.lookup session with
  | none => (some errNoArmInProgress, a)
  | some existing =>
    if existing.phase = .idle then (some errNoArmInProgress, a)
    else if existing.targetEpoch ≠ epoch then (some errEpochMismatch, a)
    else (none, ⟨a.arms.insert session { existing with phase := .ready }⟩)

/-- The state the standby was prepared with, if it is ready for the epoch. -/
def consumeReady (a : StandbyArmer) (session : String) (epoch : UInt64) : Option AccessState × StandbyArmer :=
  match a.arms.lookup session with
  | none => (none, a)
  | some e =>
    if e.phase ≠ .ready ∨ e.targetEpoch ≠ epoch then (none, a)
    else (some e.state, ⟨a.arms.erase session⟩)

def reset (a : StandbyArmer) (session : String) : StandbyArmer := ⟨a.arms.erase session⟩

variable (a : StandbyArmer) (session : String)

theorem prepare_cases (currentEpoch : UInt64) (state : AccessState) (now : ℤ) :
    (∃ err, a.prepare session currentEpoch state now = (some err, a)) ∨
    a.prepare session currentEpoch state now =
      (none, ⟨a.arms.insert session (armed (a.arms.lookup session) (currentEpoch + 1) state now)⟩) := by
  unfold prepare
  split_ifs
  · exact Or.inl ⟨_, rfl⟩
  · cases state.validate with
    | error err => exact Or.inl ⟨err, rfl⟩
    | ok u =>
      dsimp only
      split_ifs
      · exact Or.inl ⟨_, rfl⟩
      · exact Or.inr rfl

theorem markReady_cases (epoch : UInt64) : (∃ err, a.markReady session epoch = (some err, a)) ∨
    ∃ e, a.arms.lookup session = some e ∧ e.targetEpoch = epoch ∧
      a.markReady session epoch = (none, ⟨a.arms.insert session { e with phase := .ready }⟩) := by
  unfold markReady
  cases h : a.arms.lookup session with
  | none => exact Or.inl ⟨_, rfl⟩
  | some e =>
    dsimp only
    split_ifs with hidle htarget
    · exact Or.inl ⟨_, rfl⟩
    · exact Or.inl ⟨_, rfl⟩
    · exact Or.inr ⟨e, rfl, not_not.1 htarget, rfl⟩

theorem consumeReady_cases (epoch : UInt64) : a.consumeReady session epoch = (none, a) ∨
    ∃ e, a.arms.lookup session = some e ∧ e.phase = .ready ∧ e.targetEpoch = epoch ∧
      a.consumeReady session epoch = (some e.state, ⟨a.arms.erase session⟩) := by
  unfold consumeReady
  cases h : a.arms.lookup session with
  | none => exact Or.inl rfl
  | some e =>
    dsimp only
    split_ifs with hnot
    · exact Or.inl rfl
    · obtain ⟨hphase, htarget⟩ := not_or.1 hnot
      exact Or.inr ⟨e, rfl, not_not.1 hphase, not_not.1 htarget, rfl⟩

end StandbyArmer

inductive ArmOp where
  | prepare (session : String) (currentEpoch : UInt64) (state : AccessState) (now : ℤ)
  | markReady (session : String) (epoch : UInt64)
  | consumeReady (session : String) (epoch : UInt64)
  | reset (session : String)

def ArmOp.Res : ArmOp → Type
  | prepare _ _ _ _ => Option String
  | markReady _ _ => Option String
  | consumeReady _ _ => Option AccessState
  | reset _ => Unit

abbrev ArmSig : Sig := ⟨ArmOp, ArmOp.Res⟩

def armSystem (ι Ω : Type) : System ι ArmSig StandbyArmer Ω where
  exec _ _ o a := match o with
    | .prepare session currentEpoch state now => some (a.prepare session currentEpoch state now)
    | .markReady session epoch => some (a.markReady session epoch)
    | .consumeReady session epoch => some (a.consumeReady session epoch)
    | .reset session => some ((), a.reset session)

/-! ## What the history says of a session -/

abbrev Event : Type := (o : ArmOp) × o.Res

section Events

variable (session : String)

/-- A `Prepare` that succeeded. -/
def prepared : Event → Option (UInt64 × AccessState)
  | ⟨.prepare s currentEpoch state _, (r : Option String)⟩ =>
    if s = session ∧ r = none then some (currentEpoch + 1, state) else none
  | _ => none

/-- A `MarkReady` that succeeded. -/
def marked : Event → Option UInt64
  | ⟨.markReady s epoch, (r : Option String)⟩ => if s = session ∧ r = none then some epoch else none
  | _ => none

/-- The session is not armed any more. -/
def cleared : Event → Bool
  | ⟨.consumeReady s _, (r : Option AccessState)⟩ => s = session ∧ r.isSome
  | ⟨.reset s, _⟩ => s = session
  | _ => false

end Events

/-- The entry goes back to an accepted `Prepare` for its epoch, and was not taken away or prepared for another since;
if it is ready, it was marked so.  Its state is that of the last accepted `Prepare`. -/
structure Traced (session : String) (a : ArmEntry) (events : List Event) : Prop where
  since : ∃ before p after, events = before ++ p :: after ∧
    (∃ state, prepared session p = some (a.targetEpoch, state)) ∧
    (∀ e ∈ after, cleared session e = false ∧ ∀ q ∈ prepared session e, q.1 = a.targetEpoch) ∧
    (a.phase = .ready → ∃ e ∈ after, marked session e = some a.targetEpoch)
  last : (events.filterMap (prepared session)).getLast? = some (a.targetEpoch, a.state)
  active : a.phase ≠ .idle

/-- Everything armed was prepared, and marked if it is ready. -/
def AllTraced (a : StandbyArmer) (events : List Event) : Prop :=
  ∀ session e, a.arms.lookup session = some e → Traced session e events

namespace Traced

variable {session : String} {a : ArmEntry} {events : List Event} {e : Event}

theorem start {target : UInt64} {state : AccessState} (events : List Event)
    (hp : prepared session e = some (target, state)) (now : ℤ) :
    Traced session ⟨.prepare, target, state, now⟩ (events ++ [e]) := by
  refine ⟨⟨events, e, [], rfl, ⟨state, hp⟩, fun x hx => (by cases hx), fun h => (by cases h)⟩, ?_, nofun⟩
  rw [List.filterMap_append, List.filterMap_cons_some hp, List.filterMap_nil, List.getLast?_concat]

theorem extend {a' : ArmEntry} (h : Traced session a events) (target : a'.targetEpoch = a.targetEpoch)
    (hc : cleared session e = false)
    (hp : (prepared session e = none ∧ a'.state = a.state) ∨ prepared session e = some (a.targetEpoch, a'.state))
    (hm : a'.phase = .ready → a.phase = .ready ∨ marked session e = some a.targetEpoch)
    (active : a'.phase ≠ .idle) : Traced session a' (events ++ [e]) := by
  have last := h.last
  obtain ⟨before, p, after, rfl, hprep, quiet, hmark⟩ := h.since
  refine ⟨⟨before, p, after ++ [e], by simp, by rwa [target], fun x hx => ?_, fun hready => ?_⟩, ?_, active⟩
  · rw [target]
    rcases List.mem_append.1 hx with hx | hx
    · exact quiet x hx
    · obtain rfl := List.mem_singleton.1 hx
      refine ⟨hc, fun q hq => ?_⟩
      rcases hp with ⟨hp, -⟩ | hp
      · rw [hp] at hq
        cases hq
      · rw [hp] at hq
        rw [← Option.some.inj hq]
  · rw [target]
    rcases hm hready with hready | hm
    · obtain ⟨x, hx, hm⟩ := hmark hready
      exact ⟨x, List.mem_append_left _ hx, hm⟩
    · exact ⟨e, List.mem_append_right _ (List.mem_singleton_self _), hm⟩
  · rw [List.filterMap_append]
    rcases hp with ⟨hp, hstate⟩ | hp
    · rw [List.filterMap_cons_none hp, List.filterMap_nil, List.append_nil, target, hstate]
      exact last
    · rw [List.filterMap_cons_some hp, List.filterMap_nil, List.getLast?_concat, target]

theorem append (h : Traced session a events) (hp : prepared session e = none)
    (hc : cleared session e = false) : Traced session a (events ++ [e]) :=
  h.extend rfl hc (Or.inl ⟨hp, rfl⟩) Or.inl h.active

end Traced

/-! ## The methods -/

section Methods

variable {a : StandbyArmer} {events : List Event} {session : String}

theorem backed_armed {currentEpoch : UInt64} {state : AccessState} {now : ℤ} (told : AllTraced a events) :
    Traced session (StandbyArmer.armed (a.arms.lookup session) (currentEpoch + 1) state now)
      (events ++ [⟨.prepare session currentEpoch state now, none⟩]) := by
  have hp : prepared session ⟨.prepare session currentEpoch state now, none⟩ =
      some (currentEpoch + 1, state) := by simp [prepared]
  unfold StandbyArmer.armed
  split_ifs with hready
  · obtain ⟨e, he, hsame⟩ := (Option.any_eq_true _ _).1 hready
    obtain ⟨htarget, hphase⟩ := of_decide_eq_true hsame
    exact (told session e he).extend htarget rfl (Or.inr (by rw [hp, htarget])) (fun _ => Or.inl hphase) nofun
  · exact Traced.start events hp now

theorem AllTraced.insert (told : AllTraced a events) {event : Event} {new : ArmEntry}
    (self : Traced session new (events ++ [event]))
    (other : ∀ s, s ≠ session → prepared s event = none ∧ cleared s event = false) :
    AllTraced ⟨a.arms.insert session new⟩ (events ++ [event]) := by
  intro s e he
  by_cases hs : s = session
  · subst hs
    cases (AList.lookup_insert a.arms).symm.trans he
    exact self
  · have he : a.arms.lookup s = some e := (AList.lookup_insert_ne hs).symm.trans he
    exact (told s e he).append (other s hs).1 (other s hs).2

theorem AllTraced.erase (told : AllTraced a events) {event : Event}
    (other : ∀ s, s ≠ session → prepared s event = none ∧ cleared s event = false) :
    AllTraced ⟨a.arms.erase session⟩ (events ++ [event]) := by
  intro s e he
  by_cases hs : s = session
  · subst hs
    cases (AList.lookup_erase s a.arms).symm.trans he
  · have he : a.arms.lookup s = some e := (AList.lookup_erase_ne hs).symm.trans he
    exact (told s e he).append (other s hs).1 (other s hs).2

theorem AllTraced.exec {ι Ω : Type} {ω : Ω} {i : ι} {o : ArmOp} {r : o.Res} {a' : StandbyArmer}
    (told : AllTraced a events) (hex : (armSystem ι Ω).exec ω i o a = some (r, a')) :
    AllTraced a' (events ++ [⟨o, r⟩]) := by
  cases o with
  | prepare session currentEpoch state now =>
    have hex := Option.some.inj hex
    rcases a.prepare_cases session currentEpoch state now with ⟨err, h⟩ | h
    · cases h.symm.trans hex
      exact fun s e he => (told s e he).append (by simp [prepared]) rfl
    · cases h.symm.trans hex
      exact told.insert (backed_armed told) fun s hs => ⟨by simp [prepared, Ne.symm hs], rfl⟩
  | markReady session epoch =>
    have hex := Option.some.inj hex
    rcases a.markReady_cases session epoch with ⟨err, h⟩ | ⟨e, he, htarget, h⟩
    · cases h.symm.trans hex
      exact fun s e he => (told s e he).append rfl rfl
    · cases h.symm.trans hex
      refine told.insert ?_ fun s _ => ⟨rfl, rfl⟩
      exact (told session e he).extend rfl rfl (Or.inl ⟨rfl, rfl⟩) (fun _ => Or.inr (by simp [marked, htarget])) nofun
  | consumeReady session epoch =>
    have hex := Option.some.inj hex
    rcases a.consumeReady_cases session epoch with h | ⟨e, -, -, -, h⟩
    · cases h.symm.trans hex
      exact fun s e he => (told s e he).append rfl (by simp [cleared])
    · cases h.symm.trans hex
      exact told.erase fun s hs => ⟨rfl, by simp [cleared, Ne.symm hs]⟩
  | reset session =>
    cases hex
    exact told.erase fun s hs => ⟨rfl, by simp [cleared, Ne.symm hs]⟩

end Methods

end Egressa.Handoff
