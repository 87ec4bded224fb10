import Egressa.Conc.Discipline

/-!
# Events of the IKE daemon

`ViciIKE.deliver` (`internal/ipsec/vici.go`) hands an event to every subscriber without blocking.  A subscriber whose
channel is full loses the event and is owed an `EventResync`, which is paid before the next event delivered to it.
`waitSAs` (`wait.go`) queries charon whenever an event mentions its connection or is an `EventResync`.
-/

namespace Egressa.IPsec

open Conc
open Function (update update_of_ne update_self)

inductive EventKind where
  | ikeUpDown
  | childUpDown
  | resync
  deriving DecidableEq, Repr

/-- An `Event`; of the IKE_SA it is about only the name. -/
structure Event where
  kind : EventKind
  up : Bool := false
  ike : String := ""
  deriving DecidableEq, Repr

namespace Event

def About (conn : String) (ev : Event) : Prop := ev.kind ≠ .resync ∧ ev.ike = conn

def Skipped (conn : String) (ev : Event) : Prop := ev.kind ≠ .resync ∧ ev.ike ≠ conn

instance (conn : String) : DecidablePred (About conn) := fun _ => inferInstanceAs (Decidable (_ ∧ _))

instance (conn : String) : DecidablePred (Skipped conn) := fun _ => inferInstanceAs (Decidable (_ ∧ _))

end Event

/-! ## Subscriptions -/

def eventBuffer : ℕ := 64

/-- A channel of events, and whether one had to be dropped. -/
structure Subscriber where
  ch : List Event := []
  lagged : Bool := false
  closed : Bool := false
  deriving DecidableEq, Repr

/-- The subscriptions of a connection to the daemon. -/
structure Subscriptions (κ τ : Type) where
  subs : List κ := []
  sub : κ → Subscriber := fun _ => {}
  evMu : Option τ := none
  closed : Bool := false

/-- What the `select` of `waitSAs` returns with. -/
inductive Selected where
  | ctxDone (err : String)
  | event (ev : Option Event)
  | tick
  deriving DecidableEq, Repr

inductive EventOp (κ : Type) where
  | subscribe (k : κ)
  /-- The function `Subscribe` returns. -/
  | cancel (k : κ)
  /-- `Close`, up to the end of the event loop. -/
  | shut
  /-- What the event loop does at its end. -/
  | endSubs
  /-- Takes `evMu`, and answers the subscribers in the order in which they are ranged over. -/
  | evLock
  | evUnlock
  | lagged (k : κ)
  | setLagged (k : κ) (b : Bool)
  /-- A send that does not block. -/
  | send (k : κ) (ev : Event)
  | select (k : κ) (listening : Bool)
  /-- `ListSAs`, and whether the wait is over. -/
  | query (k : κ)

def EventOp.Res {κ : Type} : EventOp κ → Type
  | subscribe _ | cancel _ | shut | endSubs | evUnlock | setLagged _ _ => Unit
  | evLock => List κ
  | lagged _ => Bool
  | send _ _ => Bool
  | select _ _ => Selected
  | query _ => Except String Bool

abbrev EventSig (κ : Type) : Sig := ⟨EventOp κ, EventOp.Res⟩

/-- What the programs do not settle: the order of a map, the case of a select, charon's answer. -/
inductive Luck (κ : Type) where
  | order (l : List κ)
  | ctxDone (err : String)
  | event
  | tick
  | answer (r : Except String Bool)

section System

variable {κ τ : Type} [DecidableEq κ] [DecidableEq τ]

namespace Subscriptions

def set (s : Subscriptions κ τ) (k : κ) (b : Subscriber) : Subscriptions κ τ := { s with sub := update s.sub k b }

def subscribe (s : Subscriptions κ τ) (k : κ) : Subscriptions κ τ :=
  if s.closed then s.set k { closed := true } else { s.set k {} with subs := s.subs ++ [k] }

def cancel (s : Subscriptions κ τ) (k : κ) : Subscriptions κ τ :=
  if k ∈ s.subs then { s.set k { s.sub k with closed := true } with subs := s.subs.erase k } else s

def endSubs (s : Subscriptions κ τ) : Subscriptions κ τ where
  subs := []
  sub k := if k ∈ s.subs then { s.sub k with closed := true } else s.sub k
  evMu := s.evMu
  closed := s.closed

/-- A send that does not block. -/
def send (s : Subscriptions κ τ) (k : κ) (ev : Event) : Bool × Subscriptions κ τ :=
  if (s.sub k).ch.length < eventBuffer then (true, s.set k { s.sub k with ch := (s.sub k).ch ++ [ev] })
  else (false, s)

def recv (s : Subscriptions κ τ) (k : κ) : Option (Option Event × Subscriptions κ τ) :=
  match (s.sub k).ch with
  | ev :: rest => some (some ev, s.set k { s.sub k with ch := rest })
  | [] => if (s.sub k).closed then some (none, s) else none

/-- A waiter's select; it does not listen to a channel that it found closed. -/
def select (s : Subscriptions κ τ) (k : κ) (listening : Bool) : Luck κ → Option (Selected × Subscriptions κ τ)
  | .ctxDone err => some (.ctxDone err, s)
  | .tick => some (.tick, s)
  | .event => if listening then (s.recv k).map fun p => (.event p.1, p.2) else none
  | _ => none

end Subscriptions

/-- The operations; delivery is serialised by `evMu`. -/
def eventSystem (κ τ : Type) [DecidableEq κ] [DecidableEq τ] :
    System τ (EventSig κ) (Subscriptions κ τ) (Luck κ) where
  exec ω i o s := match o with
    | .subscribe k => if s.evMu = none then some ((), s.subscribe k) else none
    | .cancel k => if s.evMu = none then some ((), s.cancel k) else none
    | .shut => if s.evMu = none then some ((), { s with closed := true }) else none
    | .endSubs => if s.evMu = none then some ((), s.endSubs) else none
    | .evLock => match ω with
      | .order l => if s.evMu = none ∧ l.Perm s.subs then some (l, { s with evMu := some i }) else none
      | _ => none
    | .evUnlock => if s.evMu = some i then some ((), { s with evMu := none }) else none
    | .lagged k => some ((s.sub k).lagged, s)
    | .setLagged k b => some ((), s.set k { s.sub k with lagged := b })
    | .send k ev => some (s.send k ev)
    | .select k listening => s.select k listening ω
    | .query _ => match ω with
      | .answer r => some (r, s)
      | _ => none

end System

/-! ## The programs -/

section Programs

variable {κ : Type}

def onEvents (o : EventOp κ) : Prog (EventSig κ) o.Res := .call (S := EventSig κ) o

def trySend (k : κ) (ev : Event) : Prog (EventSig κ) Bool := onEvents (.send k ev)

def lagged (k : κ) : Prog (EventSig κ) Bool := onEvents (.lagged k)

/-- An event that does not fit is dropped, which is noted. -/
def sendEvent (ev : Event) (k : κ) : Prog (EventSig κ) Unit := do
  if ← trySend k ev then return ()
  else onEvents (.setLagged k true)

/-- A subscriber that has missed events gets a resync first. -/
def deliverTo (ev : Event) (k : κ) : Prog (EventSig κ) Unit := do
  if ← lagged k then
    if ← trySend k { kind := .resync } then
      onEvents (.setLagged k false)
      sendEvent ev k
    else return ()
  else sendEvent ev k

def deliverAll (ev : Event) : List κ → Prog (EventSig κ) Unit
  | [] => return ()
  | k :: rest => do
    deliverTo ev k
    deliverAll ev rest

def deliver (ev : Event) : Prog (EventSig κ) Unit := do
  deliverAll ev (← onEvents .evLock)
  onEvents .evUnlock

/-- The variables of the loop of `waitSAs`. -/
structure Wait where
  listening : Bool := true
  lastErr : Option String := none

/-- Asks the daemon whether the condition holds. -/
def requery (k : κ) (v : Wait) : Prog (EventSig κ) (Wait ⊕ Option String) := do
  match ← onEvents (.query k) with
  | .error e => return .inl { v with lastErr := some e }
  | .ok done => return if done then .inr none else .inl { v with lastErr := none }

def ctxError (ctxErr : String) : Option String → String
  | some e => ctxErr ++ " (last query error: " ++ e ++ ")"
  | none => ctxErr

/-- A turn of the loop of `waitSAs`, from the case that was selected on. -/
def afterSelect (k : κ) (conn : String) (v : Wait) : Selected → Prog (EventSig κ) (Wait ⊕ Option String)
  | .ctxDone err => return .inr (some (ctxError err v.lastErr))
  | .event none => return .inl { v with listening := false }
  | .event (some ev) => if ev.Skipped conn then return .inl v else requery k v
  | .tick => requery k v

/-- `waitSAs` between its subscription and its end, answering its error. -/
def waitLoop (k : κ) (conn : String) : Prog (EventSig κ) (Option String) := do
  match ← onEvents (.query k) with
  | .error e => return some e
  | .ok true => return none
  | .ok false =>
    Prog.iterate (fun v : Wait => do afterSelect k conn v (← onEvents (.select k v.listening))) {}

/-- Waits until the security associations are as wanted. -/
def waitSAs (k : κ) (conn : String) : Prog (EventSig κ) (Option String) := do
  onEvents (.subscribe k)
  let err ← waitLoop k conn
  onEvents (.cancel k)
  return err

end Programs

/-- The goroutines of a connection. -/
inductive Party (ι κ : Type) where
  | deliver (i : ι)
  | waiter (k : κ)
  | close
  deriving DecidableEq

variable {ι κ : Type} [DecidableEq ι] [DecidableEq κ]

def startEvents (events : ι → Event) (conns : κ → String) :
    Config (Party ι κ) (EventSig κ) (Subscriptions κ (Party ι κ)) (Option String) where
  pool
    | .deliver i => do
      deliver (events i)
      return none
    | .waiter k => waitSAs k (conns k)
    | .close => do
      onEvents .shut
      onEvents .endSubs
      return none
  world := ⟨{}, []⟩

/-! ## What a party may do -/

/-- A waiter that has not subscribed, is about to query, or is not; or another party. -/
inductive Stage (κ : Type) where
  | before (k : κ) (conn : String)
  | asking (k : κ) (conn : String)
  | free (k : κ) (conn : String)
  | elsewhere
  deriving DecidableEq

namespace Stage

def selected (k : κ) (conn : String) : Selected → Stage κ
  | .event (some ev) => if ev.Skipped conn then .free k conn else .asking k conn
  | .tick => .asking k conn
  | _ => .free k conn

/-- The operations a goroutine may make where it is. -/
def next : Stage κ → (o : EventOp κ) → o.Res → Option (Stage κ)
  | .before k conn, .subscribe k', _ => if k' = k then some (.asking k conn) else none
  | .asking k conn, .query k', _ => if k' = k then some (.free k conn) else none
  | .free k conn, .select k' _, (r : Selected) => if k' = k then some (selected k conn r) else none
  | .free k conn, .cancel k', _ => if k' = k then some (.free k conn) else none
  | .elsewhere, .shut, _ | .elsewhere, .endSubs, _ | .elsewhere, .evLock, _ | .elsewhere, .evUnlock, _ |
    .elsewhere, .lagged _, _ | .elsewhere, .setLagged _ _, _ | .elsewhere, .send _ _, _ => some .elsewhere
  | _, _, _ => none

def begins (conns : κ → String) : Party ι κ → Stage κ
  | .waiter k => .before k (conns k)
  | _ => .elsewhere

theorem follows_sendEvent (ev : Event) (k : κ) :
    Follows (S := EventSig κ) next (sendEvent ev k) (fun _ h => h = .elsewhere) .elsewhere := by
  intro ok
  refine ⟨.elsewhere, rfl, ?_⟩
  cases ok with
  | true => rfl
  | false => exact fun _ => ⟨.elsewhere, rfl, rfl⟩

theorem follows_deliverTo (ev : Event) (k : κ) :
    Follows (S := EventSig κ) next (deliverTo ev k) (fun _ h => h = .elsewhere) .elsewhere := by
  intro owed
  refine ⟨.elsewhere, rfl, ?_⟩
  cases owed with
  | false => exact follows_sendEvent ev k
  | true =>
    intro ok
    refine ⟨.elsewhere, rfl, ?_⟩
    cases ok with
    | false => rfl
    | true => exact fun _ => ⟨.elsewhere, rfl, follows_sendEvent ev k⟩

theorem follows_deliverAll (ev : Event) (ks : List κ) :
    Follows (S := EventSig κ) next (deliverAll ev ks) (fun _ h => h = .elsewhere) .elsewhere := by
  induction ks with
  | nil => rfl
  | cons k rest ih =>
    refine (follows_deliverTo ev k).andThen ?_
    rintro _ _ rfl
    exact ih

theorem follows_requery (k : κ) (conn : String) (v : Wait) :
    Follows (S := EventSig κ) next (requery k v) (fun _ h => h = .free k conn) (.asking k conn) := by
  intro r
  refine ⟨.free k conn, if_pos rfl, ?_⟩
  cases r with
  | error e => rfl
  | ok done => rfl

theorem follows_afterSelect (k : κ) (conn : String) (v : Wait) (r : Selected) :
    Follows (S := EventSig κ) next (afterSelect k conn v r) (fun _ h => h = .free k conn) (selected k conn r) := by
  cases r with
  | ctxDone err => rfl
  | tick => exact follows_requery k conn v
  | event ev =>
    cases ev with
    | none => rfl
    | some ev =>
      simp only [afterSelect, selected]
      split_ifs with h
      · rfl
      · exact follows_requery k conn v

theorem follows_waitLoop (k : κ) (conn : String) :
    Follows (S := EventSig κ) next (waitLoop k conn) (fun _ h => h = .free k conn) (.asking k conn) := by
  intro r
  refine ⟨.free k conn, if_pos rfl, ?_⟩
  rcases r with e | _ | _
  · rfl
  · refine Follows.iterate (fun _ h => h = .free k conn) rfl ?_
    rintro v _ rfl
    refine fun r => ⟨selected k conn r, if_pos rfl, ?_⟩
    refine Follows.mono (follows_afterSelect k conn v r) fun d h hd => ?_
    cases d <;> exact hd
  · rfl

theorem follows_waitSAs (k : κ) (conn : String) :
    Follows (S := EventSig κ) next (waitSAs k conn) (fun _ h => h = .free k conn) (.before k conn) := by
  refine fun _ => ⟨.asking k conn, if_pos rfl, ?_⟩
  refine (follows_waitLoop k conn).andThen ?_
  rintro err _ rfl
  exact fun _ => ⟨.free k conn, if_pos rfl, rfl⟩

omit [DecidableEq κ] in
theorem selected_cases (k : κ) (conn : String) (r : Selected) :
    selected k conn r = .asking k conn ∨ selected k conn r = .free k conn := by
  cases r with
  | ctxDone err => exact Or.inr rfl
  | tick => exact Or.inl rfl
  | event ev =>
    cases ev with
    | none => exact Or.inr rfl
    | some ev =>
      simp only [selected]
      split_ifs
      · exact Or.inr rfl
      · exact Or.inl rfl

def Of (conns : κ → String) : Party ι κ → Stage κ → Prop
  | .waiter k, h => h = .before k (conns k) ∨ h = .asking k (conns k) ∨ h = .free k (conns k)
  | _, h => h = .elsewhere

omit [DecidableEq ι] in
theorem Of.next {conns : κ → String} {p : Party ι κ} {h h' : Stage κ} {o : EventOp κ} {r : o.Res}
    (of : Of conns p h) (step : h.next o r = some h') : Of conns p h' := by
  have elsewhere : h = .elsewhere → h' = .elsewhere := by
    rintro rfl
    cases o <;> first | exact (Option.some.inj step).symm | cases step
  cases p with
  | deliver i => exact elsewhere of
  | close => exact elsewhere of
  | waiter k =>
    rcases of with rfl | rfl | rfl
    · cases o with
      | subscribe k' =>
        simp only [Stage.next] at step
        split_ifs at step
        exact Or.inr (Or.inl (Option.some.inj step).symm)
      | _ => cases step
    · cases o with
      | query k' =>
        simp only [Stage.next] at step
        split_ifs at step
        exact Or.inr (Or.inr (Option.some.inj step).symm)
      | _ => cases step
    · cases o with
      | cancel k' =>
        simp only [Stage.next] at step
        split_ifs at step
        exact Or.inr (Or.inr (Option.some.inj step).symm)
      | select k' listening =>
        simp only [Stage.next] at step
        split_ifs at step
        cases step
        exact Or.inr (selected_cases k (conns k) r)
      | _ => cases step

end Stage

/-! ## Drops -/

/-- The subscriber an event was dropped for. -/
def refused : (o : EventOp κ) → o.Res → Option κ
  | .send k _, (ok : Bool) => if ok then none else some k
  | _, _ => none

def Party.delivers (events : ι → Event) : Party ι κ → Option Event
  | .deliver i => some (events i)
  | _ => none

abbrev EventEntry (ι κ : Type) : Type := Entry (Party ι κ) (EventSig κ) (Subscriptions κ (Party ι κ))

/-- `deliver` loses an event about the connection waiter `k` waits for: its channel has no room for it, or for the
resync due before it. -/
def Drops (events : ι → Event) (conns : κ → String) (k : κ) (e : EventEntry ι κ) : Prop :=
  refused e.op e.res = some k ∧ ∃ ev ∈ e.tid.delivers events, ev.About (conns k)

/-- At a drop: the channel holds an event that makes the waiter query, or the waiter is about to. -/
def Awaited (conns : κ → String) (k : κ) (hist : List (EventEntry ι κ)) (e : EventEntry ι κ) : Prop :=
  (∃ ev ∈ (e.pre.sub k).ch, ¬ ev.Skipped (conns k)) ∨
    track Stage.next (.before k (conns k)) hist (.waiter k) = some (.asking k (conns k))

/-- The event a waiter takes. -/
def receipt (k : κ) : (o : EventOp κ) → o.Res → Option Event
  | .select k' _, .event (some ev) => if k' = k then some ev else none
  | _, _ => none

def received (k : κ) (hist : List (EventEntry ι κ)) : ℕ := hist.countP fun e => (receipt k e.op e.res).isSome

/-- The waiter has asked the daemon since. -/
def QueriedSince (k : κ) (n : ℕ) (hist : List (EventEntry ι κ)) : Prop :=
  ∃ m e, n < m ∧ hist[m]? = some e ∧ e.tid = .waiter k ∧ e.op = .query k

theorem Subscriptions.ch_set {τ : Type} (s : Subscriptions κ τ) (k' : κ) (b : Subscriber) (k : κ) :
    ((s.set k' b).sub k).ch = if k = k' then b.ch else (s.sub k).ch := by
  simp only [set, Function.update_apply]
  split_ifs <;> rfl

theorem Subscriptions.ch_send {τ : Type} {s s' : Subscriptions κ τ} {k' : κ} {ev : Event} {ok : Bool}
    (h : s.send k' ev = (ok, s')) (k : κ) : ∃ new, (s'.sub k).ch = (s.sub k).ch ++ new := by
  unfold send at h
  split_ifs at h
  · cases h
    rw [ch_set]
    split_ifs with hk
    · exact ⟨[ev], by rw [hk]⟩
    · exact ⟨[], (List.append_nil _).symm⟩
  · cases h
    exact ⟨[], (List.append_nil _).symm⟩

theorem Subscriptions.ch_recv {τ : Type} {s s' : Subscriptions κ τ} {k' : κ} {r : Option Event}
    (h : s.recv k' = some (r, s')) :
    (r = none ∧ s' = s) ∨ ∃ ev, r = some ev ∧ (s.sub k').ch = ev :: (s'.sub k').ch ∧
      ∀ k, k ≠ k' → (s'.sub k).ch = (s.sub k).ch := by
  unfold recv at h
  cases hch : (s.sub k').ch with
  | nil =>
    simp only [hch] at h
    split_ifs at h
    cases h
    exact Or.inl ⟨rfl, rfl⟩
  | cons ev rest =>
    simp only [hch] at h
    cases h
    exact Or.inr ⟨ev, rfl, by simp [ch_set], fun k hk => by simp [ch_set, hk]⟩

variable {o : EventOp κ}

theorem exec_ch {ω : Luck κ} {i : Party ι κ} {r : o.Res}
    {s s' : Subscriptions κ (Party ι κ)} (hex : (eventSystem κ (Party ι κ)).exec ω i o s = some (r, s')) (k : κ) :
    o = .subscribe k ∨ (∃ ev, receipt k o r = some ev ∧ (s.sub k).ch = ev :: (s'.sub k).ch) ∨
    (receipt k o r = none ∧ ∃ new, (s'.sub k).ch = (s.sub k).ch ++ new) := by
  have same : receipt k o r = none → (s'.sub k).ch = (s.sub k).ch → o = .subscribe k ∨
      (∃ ev, receipt k o r = some ev ∧ (s.sub k).ch = ev :: (s'.sub k).ch) ∨
      (receipt k o r = none ∧ ∃ new, (s'.sub k).ch = (s.sub k).ch ++ new) :=
    fun hr hch => Or.inr (Or.inr ⟨hr, [], by rw [hch, List.append_nil]⟩)
  cases o with
  | subscribe k' =>
    simp only [eventSystem] at hex
    split_ifs at hex
    cases hex
    by_cases hk : k = k'
    · exact Or.inl (by rw [hk])
    · refine same rfl ?_
      unfold Subscriptions.subscribe
      split_ifs <;> simp [Subscriptions.ch_set, hk]
  | cancel k' =>
    simp only [eventSystem] at hex
    split_ifs at hex
    cases hex
    refine same rfl ?_
    unfold Subscriptions.cancel
    split_ifs
    · simp only [Subscriptions.ch_set]
      split_ifs with hk
      · rw [hk]
      · rfl
    · rfl
  | shut =>
    simp only [eventSystem] at hex
    split_ifs at hex
    cases hex
    exact same rfl rfl
  | endSubs =>
    simp only [eventSystem] at hex
    split_ifs at hex
    cases hex
    refine same rfl ?_
    simp only [Subscriptions.endSubs]
    split_ifs <;> rfl
  | evLock =>
    simp only [eventSystem] at hex
    split at hex
    · split_ifs at hex
      cases hex
      exact same rfl rfl
    · cases hex
  | evUnlock =>
    simp only [eventSystem] at hex
    split_ifs at hex
    cases hex
    exact same rfl rfl
  | lagged k' =>
    cases hex
    exact same rfl rfl
  | setLagged k' b =>
    cases hex
    refine same rfl ?_
    rw [Subscriptions.ch_set]
    split_ifs with hk
    · rw [hk]
    · rfl
  | send k' ev => exact Or.inr (Or.inr ⟨rfl, Subscriptions.ch_send (Option.some.inj hex) k⟩)
  | select k' listening =>
    have hsel : s.select k' listening ω = some (r, s') := hex
    unfold Subscriptions.select at hsel
    split at hsel
    · cases hsel
      exact same rfl rfl
    · cases hsel
      exact same rfl rfl
    · split_ifs at hsel
      obtain ⟨⟨r', s''⟩, hrecv, hp⟩ := Option.map_eq_some_iff.1 hsel
      cases hp
      rcases Subscriptions.ch_recv hrecv with ⟨rfl, rfl⟩ | ⟨ev, rfl, htake, hother⟩
      · exact same rfl rfl
      · by_cases hk : k = k'
        · subst hk
          exact Or.inr (Or.inl ⟨ev, if_pos rfl, htake⟩)
        · exact same (if_neg (Ne.symm hk)) (hother k hk)
    · cases hsel
  | query k' =>
    simp only [eventSystem] at hex
    split at hex
    · cases hex
      exact same rfl rfl
    · cases hex

def EventOp.waiter? : EventOp κ → Option κ
  | .subscribe k | .cancel k | .select k _ | .query k => some k
  | _ => none

omit [DecidableEq ι] in
theorem Stage.Of.waiter {conns : κ → String} {p : Party ι κ} {h h' : Stage κ} {r : o.Res} {k : κ}
    (of : Of conns p h) (step : h.next o r = some h') (hk : o.waiter? = some k) : p = .waiter k := by
  have not_elsewhere : h ≠ .elsewhere := by
    rintro rfl
    cases o with
    | subscribe | cancel | select | query => cases step
    | _ => cases hk
  cases p with
  | deliver i => exact absurd of not_elsewhere
  | close => exact absurd of not_elsewhere
  | waiter j =>
    have own : ∀ k', o.waiter? = some k' → k' = j := by
      intro k' hk'
      rcases of with rfl | rfl | rfl
      all_goals
        cases o
        all_goals first | cases step | cases hk'
        all_goals
          simp only [Stage.next] at step
          split_ifs at step with hj
          exact hj
    rw [own k hk]

omit [DecidableEq ι] in
theorem Stage.Of.receipt {conns : κ → String} {p : Party ι κ} {h h' : Stage κ} {r : o.Res} {k : κ}
    {ev : Event} (of : Of conns p h) (step : h.next o r = some h') (hr : receipt k o r = some ev) :
    p = .waiter k ∧ h' = if ev.Skipped (conns k) then .free k (conns k) else .asking k (conns k) := by
  cases o with
  | select k₀ listening =>
    rcases r with err | (_ | ev') | _
    · cases hr
    · cases hr
    · have hif : (if k₀ = k then some ev' else none) = some ev := hr
      split_ifs at hif with hk
      subst hk
      cases hif
      obtain rfl := of.waiter step rfl
      refine ⟨rfl, ?_⟩
      rcases of with rfl | rfl | rfl
      · cases step
      · cases step
      · simp only [Stage.next, if_pos] at step
        exact (Option.some.inj step).symm
    · cases hr
  | _ => cases hr

/-! ## Debts -/

section Debts

variable {events : ι → Event} {conns : κ → String} {w : World (Party ι κ) (EventSig κ) (Subscriptions κ (Party ι κ))}
  {hs : Party ι κ → Stage κ} {k : κ} {n : ℕ} {e : EventEntry ι κ}

/-- What the waiter had in its channel then, and has not taken yet. -/
def unread (k : κ) (n : ℕ) (e : EventEntry ι κ) (hist : List (EventEntry ι κ)) : List Event :=
  (e.pre.sub k).ch.drop (received k (hist.drop (n + 1)))

/-- The debt of a drop: it is paid, or about to be, or an event is yet to be read that makes the waiter pay it. -/
def Due (conns : κ → String) (k : κ) (n : ℕ) (e : EventEntry ι κ)
    (w : World (Party ι κ) (EventSig κ) (Subscriptions κ (Party ι κ))) (hs : Party ι κ → Stage κ) : Prop :=
  QueriedSince k n w.hist ∨ hs (.waiter k) = .asking k (conns k) ∨
    ∃ new, (w.st.sub k).ch = unread k n e w.hist ++ new ∧ ∃ ev ∈ unread k n e w.hist, ¬ ev.Skipped (conns k)

/-- What was dropped is made up for by a query. -/
structure Debts (events : ι → Event) (conns : κ → String)
    (w : World (Party ι κ) (EventSig κ) (Subscriptions κ (Party ι κ))) (hs : Party ι κ → Stage κ) : Prop where
  of : ∀ p, Stage.Of conns p (hs p)
  tracked : ∀ k, track Stage.next (.before k (conns k)) w.hist (.waiter k) = some (hs (.waiter k))
  due : ∀ k n e, w.hist[n]? = some e → Drops events conns k e → Awaited conns k (w.hist.take n) e →
    Due conns k n e w hs

variable {i : Party ι κ} {o : EventOp κ} {r : o.Res} {s' : Subscriptions κ (Party ι κ)} {h' : Stage κ}

omit [DecidableEq ι] in
theorem received_push (hn : n < w.hist.length) : received k ((w.push i o r s').hist.drop (n + 1)) =
    received k (w.hist.drop (n + 1)) + if (receipt k o r).isSome then 1 else 0 := by
  rw [World.push_hist, List.drop_append_of_le_length hn, received, List.countP_append]
  simp [received, List.countP_cons]

omit [DecidableEq ι] [DecidableEq κ] in
theorem QueriedSince.push (h : QueriedSince k n w.hist) : QueriedSince k n (w.push i o r s').hist := by
  obtain ⟨m, e, hm, he, ht, ho⟩ := h
  refine ⟨m, e, hm, ?_, ht, ho⟩
  rw [World.push_hist, List.getElem?_append_left (List.getElem?_eq_some_iff.1 he).1, he]

variable {ω : Luck κ}

theorem Due.push (due : Due conns k n e w hs) (of : ∀ p, Stage.Of conns p (hs p))
    (hn : n < w.hist.length) (hex : (eventSystem κ (Party ι κ)).exec ω i o w.st = some (r, s'))
    (next : (hs i).next o r = some h') : Due conns k n e (w.push i o r s') (update hs i h') := by
  rcases due with queried | asking | ⟨new, hch, ev, hev, hwakes⟩
  · exact Or.inl queried.push
  · by_cases hi : i = .waiter k
    · -- a waiter that is about to query does
      subst hi
      rw [asking] at next
      cases o with
      | query k' =>
        simp only [Stage.next] at next
        split_ifs at next with hk
        subst hk
        exact Or.inl ⟨w.hist.length, _, hn, List.getElem?_concat_length, rfl, rfl⟩
      | _ => cases next
    · exact Or.inr (Or.inl (by rw [update_of_ne (Ne.symm hi)]; exact asking))
  · rcases exec_ch hex k with rfl | ⟨ev', hreceipt, htake⟩ | ⟨hreceipt, new', hnew⟩
    · obtain rfl := (of i).waiter next rfl
      refine Or.inr (Or.inl ?_)
      rw [update_self]
      rcases of (.waiter k) with h | h | h <;> rw [h] at next
      · simp only [Stage.next, if_pos] at next
        exact (Option.some.inj next).symm
      · cases next
      · cases next
    · -- the first unread event is received: it wakes the waiter, or another one is left that does
      have hunread : unread k n e w.hist = ev' :: unread k n e (w.push i o r s').hist := by
        have hdrop : unread k n e (w.push i o r s').hist = (unread k n e w.hist).drop 1 := by
          rw [unread, received_push hn, if_pos (by simp [hreceipt]), unread, List.drop_drop]
        rw [hdrop]
        cases hu : unread k n e w.hist with
        | nil =>
          rw [hu] at hev
          cases hev
        | cons x rest =>
          rw [hu, htake] at hch
          rw [(List.cons.inj hch).1]
          rfl
      by_cases hskip : ev'.Skipped (conns k)
      · refine Or.inr (Or.inr ⟨new, ?_, ev, ?_, hwakes⟩)
        · rw [htake, hunread] at hch
          exact (List.cons.inj hch).2
        · rw [hunread] at hev
          exact (List.mem_cons.1 hev).resolve_left fun h => hwakes (h ▸ hskip)
      · obtain ⟨rfl, rfl⟩ := (of i).receipt next hreceipt
        refine Or.inr (Or.inl ?_)
        rw [update_self, if_neg hskip]
    · have hunread : unread k n e (w.push i o r s').hist = unread k n e w.hist := by
        rw [unread, received_push hn, if_neg (by simp [hreceipt]), Nat.add_zero, unread]
      refine Or.inr (Or.inr ⟨new ++ new', ?_, ?_⟩)
      · rw [hunread, World.push_st, hnew, hch, List.append_assoc]
      · rw [hunread]
        exact ⟨ev, hev, hwakes⟩

theorem refused_eq_some (hex : (eventSystem κ (Party ι κ)).exec ω i o w.st = some (r, s'))
    (hr : refused o r = some k) : s' = w.st := by
  cases o with
  | send k' ev =>
    have hsend : w.st.send k' ev = (r, s') := Option.some.inj hex
    unfold Subscriptions.send at hsend
    split_ifs at hsend
    · cases hsend
      cases hr
    · exact (Prod.mk.inj hsend).2.symm
  | _ => cases hr

theorem Debts.drop (inv : Debts events conns w hs) (hex : (eventSystem κ (Party ι κ)).exec ω i o w.st = some (r, s'))
    (drops : Drops events conns k ⟨i, o, r, w.st, s'⟩) (backed : Awaited conns k w.hist ⟨i, o, r, w.st, s'⟩) :
    Due conns k w.hist.length ⟨i, o, r, w.st, s'⟩ (w.push i o r s') (update hs i h') := by
  obtain ⟨hrefused, ev, hdelivers, -⟩ := drops
  obtain rfl := refused_eq_some hex hrefused
  rcases backed with hwakes | hasking
  · have hunread : unread k w.hist.length ⟨i, o, r, w.st, w.st⟩ (w.push i o r w.st).hist = (w.st.sub k).ch := by
      have hnil : (w.push i o r w.st).hist.drop (w.hist.length + 1) = [] := List.drop_eq_nil_of_le (by simp)
      rw [unread, hnil]
      rfl
    refine Or.inr (Or.inr ⟨[], ?_, ?_⟩)
    · rw [hunread, List.append_nil, World.push_st]
    · rw [hunread]
      exact hwakes
  · have hi : Party.waiter k ≠ i := by
      rintro rfl
      cases hdelivers
    rw [inv.tracked k] at hasking
    exact Or.inr (Or.inl (by rw [update_of_ne hi]; exact Option.some.inj hasking))

/-- One operation keeps the debts in order. -/
theorem Debts.push (inv : Debts events conns w hs)
    (hex : (eventSystem κ (Party ι κ)).exec ω i o w.st = some (r, s')) (next : (hs i).next o r = some h') :
    Debts events conns (w.push i o r s') (update hs i h') := by
  refine ⟨fun p => ?_, fun k => ?_, fun k n e he drops backed => ?_⟩
  · by_cases hp : p = i
    · subst hp
      rw [update_self]
      exact (inv.of p).next next
    · rw [update_of_ne hp]
      exact inv.of p
  · by_cases hk : Party.waiter k = i
    · subst hk
      rw [update_self]
      exact track_append_self (e := ⟨Party.waiter k, o, r, w.st, s'⟩) (inv.tracked k) next
    · rw [update_of_ne hk]
      exact (track_append_of_ne (e := ⟨i, o, r, w.st, s'⟩) hk).trans (inv.tracked k)
  · rw [World.push_hist] at he backed
    by_cases hn : n < w.hist.length
    · rw [List.getElem?_append_left hn] at he
      rw [List.take_append_of_le_length hn.le] at backed
      exact (inv.due k n e he drops backed).push inv.of hn hex next
    · have hlt := (List.getElem?_eq_some_iff.1 he).1
      rw [List.length_append, List.length_singleton] at hlt
      obtain rfl : n = w.hist.length := by omega
      rw [List.getElem?_concat_length] at he
      cases he
      rw [List.take_left] at backed
      exact inv.drop hex drops backed

end Debts

def AtSelect {α : Type} (k : κ) : Prog (EventSig κ) α → Prop
  | .op (.select k' _) _ => k' = k
  | _ => False

/-- However calls of `deliver` and waiters interleave: if an event about a waiter's connection is dropped when its
channel holds an event that makes it query, or when it is about to query, then once it has received what was in the
channel and is back at its select, it has started a query after the drop. -/
theorem lost_event_repaid (events : ι → Event) (conns : κ → String)
    {c : Config (Party ι κ) (EventSig κ) (Subscriptions κ (Party ι κ)) (Option String)}
    (reach : Config.Reaches (eventSystem κ (Party ι κ)) (startEvents events conns) c)
    {k : κ} {n : ℕ} {e : EventEntry ι κ} (he : c.world.hist[n]? = some e) (drops : Drops events conns k e)
    (backed : Awaited conns k (c.world.hist.take n) e)
    (read : (e.pre.sub k).ch.length ≤ received k (c.world.hist.drop (n + 1)))
    (back : AtSelect k (c.pool (.waiter k))) : QueriedSince k n c.world.hist := by
  have start : Tracked (S := EventSig κ) Stage.next
      (fun p _ h => Stage.Of conns p h) (startEvents events conns) (Stage.begins conns) := by
    rintro (i | k | _)
    · refine fun subs => ⟨.elsewhere, rfl, ?_⟩
      change Follows _ ((deliverAll (events i) subs >>= fun _ => onEvents .evUnlock) >>= fun _ => .ret none) _ _
      refine Follows.andThen (Q := fun _ h => h = (.elsewhere : Stage κ)) ?_ fun _ _ h => h
      refine (Stage.follows_deliverAll (events i) subs).andThen ?_
      rintro _ _ rfl
      exact fun _ => ⟨.elsewhere, rfl, rfl⟩
    · exact (Stage.follows_waitSAs k (conns k)).mono fun _ _ h => Or.inr (Or.inr h)
    · exact fun _ => ⟨.elsewhere, rfl, fun _ => ⟨.elsewhere, rfl, rfl⟩⟩
  have debts₀ : Debts events conns (startEvents events conns).world (Stage.begins conns) :=
    ⟨fun p => by rcases p with i | k | _ <;> first | rfl | exact Or.inl rfl, fun _ => rfl, fun _ _ _ h => by cases h⟩
  obtain ⟨hs, tracked, inv⟩ := start.reaches (I := Debts events conns)
    (fun w hs i ω o r s' h' inv hex next => inv.push hex next) debts₀ reach
  rcases inv.due k n e he drops backed with queried | asking | ⟨new, -, ev, hev, -⟩
  · exact queried
  · -- at its select it is not about to query
    have hk := tracked (.waiter k)
    rw [asking] at hk
    cases hp : c.pool (.waiter k) with
    | op o kont =>
      rw [hp] at hk back
      cases o with
      | select k' listening =>
        obtain ⟨h', next, -⟩ := hk Selected.tick
        cases next
      | _ => cases back
    | _ =>
      rw [hp] at back
      cases back
  · rw [unread, List.drop_eq_nil_of_le read] at hev
    cases hev

instance {α : Type} (k : κ) : DecidablePred (AtSelect (α := α) k)
  | .op o _ => by
    cases o with
    | select => exact inferInstanceAs (Decidable (_ = _))
    | _ => exact .isFalse id
  | .ret _ | .loop _ _ _ => .isFalse id

instance (events : ι → Event) (conns : κ → String) (k : κ) : DecidablePred (Drops events conns k) :=
  fun _ => inferInstanceAs (Decidable (_ ∧ ∃ ev ∈ _, _))

instance (conns : κ → String) (k : κ) (hist : List (EventEntry ι κ)) : DecidablePred (Awaited conns k hist) :=
  fun _ => inferInstanceAs (Decidable ((∃ ev ∈ _, _) ∨ _))

def EventOp.isQuery (k : κ) : EventOp κ → Bool
  | .query k' => k' = k
  | _ => false

omit [DecidableEq ι] in
theorem not_queriedSince {k : κ} {n : ℕ} {hist : List (EventEntry ι κ)}
    (h : ∀ e ∈ hist.drop (n + 1), e.op.isQuery k = false) : ¬ QueriedSince k n hist := by
  rintro ⟨m, e, hm, he, -, ho⟩
  have hmem : e ∈ hist.drop (n + 1) := by
    refine List.mem_of_getElem? (i := m - (n + 1)) ?_
    rw [List.getElem?_drop, Nat.add_sub_cancel' hm]
    exact he
  have := h e hmem
  rw [ho] at this
  simp [EventOp.isQuery] at this

namespace Sample

def flood (first : String) (i : Fin 65) : Event :=
  { kind := .ikeUpDown, ike := if i.val = 64 then "c" else if i.val = 0 then first else "other" }

def floodRun (reads : List (Luck Unit)) : List (Party (Fin 65) Unit × Luck Unit) :=
  [(.waiter (), .event), (.waiter (), .answer (.ok false)), (.waiter (), .event)] ++
  (List.finRange 65).flatMap (fun i =>
    List.replicate (if i.val = 64 then 5 else 4) (.deliver i, .order [()])) ++ reads.map (.waiter (), ·)

end Sample

open Sample

theorem lost_event_repaid_reread :
    ∃ c, Config.Reaches (eventSystem Unit (Party (Fin 65) Unit)) (startEvents (flood "c") fun _ => "c") c ∧
      ∃ (n : ℕ) (e : EventEntry (Fin 65) Unit), c.world.hist[n]? = some e ∧
        Drops (flood "c") (fun _ => "c") () e ∧ Awaited (fun _ => "c") () (c.world.hist.take n) e ∧
        (e.pre.sub ()).ch.length ≤ received () (c.world.hist.drop (n + 1)) ∧ AtSelect () (c.pool (.waiter ())) ∧
        QueriedSince () n c.world.hist := by
  obtain ⟨c, reach, hback, hdrop⟩ := Config.reaches_of_run_any (eventSystem Unit (Party (Fin 65) Unit))
    (floodRun ([.event, .answer (.ok false), .event] ++ List.replicate 126 .event))
    (startEvents (flood "c") fun _ => "c")
    (fun c => AtSelect () (c.pool (.waiter ())) ∧ ∃ e ∈ c.world.hist[260]?,
      Drops (flood "c") (fun _ => "c") () e ∧ Awaited (fun _ => "c") () (c.world.hist.take 260) e ∧
      (e.pre.sub ()).ch.length ≤ received () (c.world.hist.drop 261)) (by decide +kernel)
  obtain ⟨e, he, drops, backed, read⟩ := hdrop
  exact ⟨c, reach, 260, e, he, drops, backed, read, hback,
    lost_event_repaid (flood "c") (fun _ => "c") reach he drops backed read hback⟩

/-- An event of the waiter's is dropped when the channel is full of another connection's: the waiter reads them all, is
back at its select, and has not queried. -/
theorem lost_event_forgotten :
    ∃ c, Config.Reaches (eventSystem Unit (Party (Fin 65) Unit)) (startEvents (flood "other") fun _ => "c") c ∧
      ∃ (n : ℕ) (e : EventEntry (Fin 65) Unit), c.world.hist[n]? = some e ∧
        Drops (flood "other") (fun _ => "c") () e ∧
        (e.pre.sub ()).ch.length ≤ received () (c.world.hist.drop (n + 1)) ∧ AtSelect () (c.pool (.waiter ())) ∧
        ¬ QueriedSince () n c.world.hist := by
  obtain ⟨c, reach, hback, hquiet, hdrop⟩ := Config.reaches_of_run_any (eventSystem Unit (Party (Fin 65) Unit))
    (floodRun (List.replicate 128 .event)) (startEvents (flood "other") fun _ => "c")
    (fun c => AtSelect () (c.pool (.waiter ())) ∧ (∀ e ∈ c.world.hist.drop 261, e.op.isQuery () = false) ∧
      ∃ e ∈ c.world.hist[260]?, Drops (flood "other") (fun _ => "c") () e ∧
        (e.pre.sub ()).ch.length ≤ received () (c.world.hist.drop 261)) (by decide +kernel)
  obtain ⟨e, he, drops, read⟩ := hdrop
  exact ⟨c, reach, 260, e, he, drops, read, hback, not_queriedSince hquiet⟩

end Egressa.IPsec
