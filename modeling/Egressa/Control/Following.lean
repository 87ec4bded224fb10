import Egressa.Control.EpochGate
import Egressa.Control.SetIfNewer
import Egressa.Control.Watch

/-!
# Following ownership

`OwnershipService.Watch` forwards the events of a store's channel to an unbuffered channel of records, and `Follow`
tells a gate of each one.  If every send finds room, a committed record is on its way until the gate has seen it
(`OnItsWay`), and when nothing is left to do the gate knows the stored epochs.
-/

namespace Egressa

open Conc
open Function (update update_of_ne update_self)

/-! ## The forwarder and the follower -/

/-- The slot between `WatchOwnership` and `FollowOwnership`, and the gate. -/
structure Followed where
  slot : Option OwnershipRecord := none
  closed : Bool := false
  gate : EpochGate := .empty

inductive FollowOp where
  | offer (rec : OwnershipRecord)
  | await
  | closeOut
  | take
  | update (session : String) (epoch : UInt64)

def FollowOp.Res : FollowOp → Type
  | offer _ => Unit
  | await => Unit
  | closeOut => Unit
  | take => Option OwnershipRecord
  | update _ _ => Unit

abbrev FollowOps : Sig := ⟨FollowOp, FollowOp.Res⟩

def followSystem (ι : Type) : System ι FollowOps Followed (List String) where
  exec _ _ o s := match o with
    | .offer rec => if s.slot = none then some ((), { s with slot := some rec }) else none
    | .await => if s.slot = none then some ((), s) else none
    | .closeOut => some ((), { s with closed := true })
    | .take => match s.slot with
      | some rec => some (some rec, { s with slot := none })
      | none => if s.closed then some (none, s) else none
    | .update session epoch => some ((), { s with gate := s.gate.update session epoch })

abbrev FollowSig : Sig := StoreSig.sum (WatchSig.sum FollowOps)

abbrev FollowState (ι : Type) : Type := Disk ι × Watchers × Followed

abbrev followingSystem (ι : Type) [DecidableEq ι] : System ι FollowSig (FollowState ι) (List String) :=
  (storeSystem ι _).sum ((watchSystem ι).sum (followSystem ι))

def ofWatch (o : WatchOp) : Prog FollowSig o.Res := .call (S := FollowSig) (.inr (.inl o))

def onFollow (o : FollowOp) : Prog FollowSig o.Res := .call (S := FollowSig) (.inr (.inr o))

/-- The record of an event, if it has one. -/
def WatchEvent.record? (ev : WatchEvent) : Option OwnershipRecord :=
  if ev.deleted then none else (unmarshalOwnership (some ev.value)).toOption

/-- One turn of the goroutine of `OwnershipService.Watch`. -/
def forwardEvent : Option WatchEvent → Prog FollowSig (Unit ⊕ Unit)
  | none => return .inr ()
  | some ev => match ev.record? with
    | none => return .inl ()
    | some rec => do
      onFollow (.offer rec)
      onFollow .await
      return .inl ()

/-- The goroutine of `WatchOwnership`. -/
def forward (ch : ℕ) : Prog FollowSig Unit := do
  Prog.iterate (β := Unit) (fun _ => do forwardEvent (← ofWatch (.recv ch))) ()
  onFollow .closeOut

def followRecord : Option OwnershipRecord → Prog FollowSig (Unit ⊕ Unit)
  | none => return .inr ()
  | some rec => do
    onFollow (.update rec.session rec.epoch)
    return .inl ()

/-- `FollowOwnership`. -/
def follow : Prog FollowSig Unit := Prog.iterate (β := Unit) (fun _ => do followRecord (← onFollow .take)) ()

/-- Writers, and the two goroutines that follow them. -/
inductive Party (ι : Type) where
  | writer (i : ι)
  | forwarder
  | follower
  deriving DecidableEq, Fintype

variable {ι : Type} [DecidableEq ι]

/-- Writers call `SetIfNewer` after `Watch` has returned, over the watches `ws` of others; the gate may know of
sessions before. -/
def startFollowing (m₀ : MemStore) (ws : Watchers) (g₀ : EpochGate) (recs : ι → OwnershipRecord) :
    Config (Party ι) FollowSig (FollowState (Party ι)) Unit where
  pool
    | .writer i => do
      let _ ← setIfNewer (notifyingStore ofWatch) (recs i)
    | .forwarder => forward ws.next
    | .follower => follow
  world := ⟨({ mem := m₀ }, (ws.watch sessionKeyPrefix).2, { gate := g₀ }), []⟩

/-! ## What a party may do -/

/-- Where a party is. -/
inductive Stage where
  | ready
  | wrote (rec : OwnershipRecord)
  | telling (rec : OwnershipRecord) (chs : List ℕ)
  | listening
  | carrying (rec : OwnershipRecord)
  | offered
  | waiting
  | taking (rec : OwnershipRecord)
  | ended

def OwnershipRecord.event (rec : OwnershipRecord) : WatchEvent := ⟨sessionKey rec.session, .ownership rec, false⟩

theorem record?_event {rec : OwnershipRecord} (hv : rec.validate = .ok ()) : rec.event.record? = some rec := by
  rw [OwnershipRecord.event, WatchEvent.record?, if_neg (by simp), unmarshalOwnership_eq_ok.2 ⟨rfl, hv⟩]
  rfl

namespace Stage

def committed (key : String) : Doc → Option Stage
  | .ownership rec => if key = sessionKey rec.session ∧ rec.validate = .ok () then some (.wrote rec) else none
  | _ => none

def received : Option WatchEvent → Stage
  | none => .ended
  | some ev => match ev.record? with
    | none => .listening
    | some rec => .carrying rec

def took : Option OwnershipRecord → Stage
  | none => .ended
  | some rec => .taking rec

/-- The operations a party may make where it is. -/
def next (ch : ℕ) : Stage → (o : FollowSig.Op) → FollowSig.Res o → Option Stage
  | .ready, .inl (.memCAS key _ value), (r : ℕ × Bool) => if r.2 then committed key value else some .ready
  | .ready, .inl (.memGet _), _ | .ready, .inl (.memRevision _), _ => some .ready
  | .wrote rec, .inr (.inl (.collect key)), (chs : List ℕ) =>
    if key = sessionKey rec.session then some (.telling rec chs) else none
  | .telling rec chs, .inr (.inl (.send c ev)), _ =>
    if chs.head? = some c ∧ ev = rec.event then some (.telling rec chs.tail) else none
  | .listening, .inr (.inl (.recv c)), (r : Option WatchEvent) => if c = ch then some (received r) else none
  | .carrying rec, .inr (.inr (.offer rec')), _ => if rec' = rec then some .offered else none
  | .offered, .inr (.inr .await), _ => some .listening
  | .ended, .inr (.inr .closeOut), _ => some .ended
  | .waiting, .inr (.inr .take), (r : Option OwnershipRecord) => some (took r)
  | .taking rec, .inr (.inr (.update session epoch)), _ =>
    if session = rec.session ∧ epoch = rec.epoch then some .waiting else none
  | _, _, _ => none

def Told : Stage → Prop
  | .ready => True
  | .telling _ chs => chs = []
  | _ => False

variable {ch : ℕ}

theorem follows_tellAll (rec : OwnershipRecord) (chs : List ℕ) :
    Follows (next ch) (tellAll ofWatch rec.event chs) (fun _ h => h.Told) (.telling rec chs) := by
  induction chs with
  | nil => rfl
  | cons c rest ih => exact fun _ => ⟨.telling rec rest, by simp [next], ih⟩

theorem follows_notifyWrite (rec : OwnershipRecord) :
    Follows (next ch) (notifyWrite ofWatch (sessionKey rec.session) (.ownership rec)) (fun _ h => h.Told)
      (.wrote rec) := by
  refine Follows.andThen (Q := fun _ h => h.Told) ?_ fun _ _ h => h
  exact fun chs => ⟨.telling rec chs, by simp [next], follows_tellAll rec chs⟩

def turned : Unit ⊕ Bool × Option String → Stage → Prop
  | .inl _, h => h = .ready
  | .inr _, h => h.Told

theorem follows_swapTurn {rec : OwnershipRecord} (hv : rec.validate = .ok ()) (expected : ℕ) :
    Follows (next ch) (swapTurn (fencerWith (notifyWrite ofWatch)) rec expected) turned .ready := by
  have hm : marshalOwnership rec = .ok (.ownership rec) := by simp [marshalOwnership, hv]
  unfold swapTurn
  rw [hm]
  rintro ⟨rev, ok⟩
  cases ok with
  | false => exact ⟨.ready, by simp [next], rfl⟩
  | true =>
    refine ⟨.wrote rec, by simp [next, committed, hv], ?_⟩
    change Follows _ ((notifyWrite ofWatch (sessionKey rec.session) (.ownership rec) >>=
      fun err => .ret (rev, true, err)) >>= _) _ _
    refine Follows.andThen (Q := fun r h => r.2.1 = true ∧ h.Told) ?_ ?_
    · exact (follows_notifyWrite rec).andThen fun _ _ h => ⟨rfl, h⟩
    · rintro ⟨rev', ok', _ | e⟩ h ⟨hok, told⟩
      · obtain rfl : ok' = true := hok
        exact told
      · exact told

theorem follows_setIfNewer (rec : OwnershipRecord) :
    Follows (next ch) (setIfNewer (notifyingStore ofWatch) rec) (fun _ h => h.Told) .ready := by
  unfold setIfNewer
  cases hv : rec.validate with
  | error e => exact trivial
  | ok u =>
    refine Follows.iterate (fun _ h => h = .ready) rfl ?_
    rintro _ _ rfl
    refine Follows.mono (Q := turned) ?_ fun d h hd => by cases d <;> exact hd
    intro rev
    refine ⟨.ready, rfl, ?_⟩
    cases rev with
    | none => exact follows_swapTurn hv 0
    | some rev =>
      intro data
      refine ⟨.ready, rfl, ?_⟩
      change Follows _ (judgeTurn (fencerWith (notifyWrite ofWatch)) rec rev data) _ _
      unfold judgeTurn
      cases unmarshalOwnership data with
      | error e => exact trivial
      | ok cur =>
        dsimp only
        split_ifs
        · exact trivial
        · exact follows_swapTurn hv rev

theorem follows_forward : Follows (next ch) (forward ch) (fun _ h => h = .ended) .listening := by
  refine Follows.andThen (Q := fun _ h => h = .ended) ?_ fun _ h hh => by
    subst hh
    exact fun _ => ⟨.ended, rfl, rfl⟩
  refine Follows.iterate (fun _ h => h = .listening) rfl ?_
  rintro _ _ rfl
  intro ev
  refine ⟨received ev, by simp [next], ?_⟩
  cases ev with
  | none => rfl
  | some ev =>
    change Follows _ (forwardEvent (some ev)) _ _
    simp only [forwardEvent, received]
    cases ev.record? with
    | none => rfl
    | some rec => exact fun _ => ⟨.offered, by simp [next], fun _ => ⟨.listening, rfl, rfl⟩⟩

theorem follows_follow : Follows (next ch) follow (fun _ h => h = .ended) .waiting := by
  refine Follows.iterate (fun _ h => h = .waiting) rfl ?_
  rintro _ _ rfl
  intro rec
  refine ⟨took rec, rfl, ?_⟩
  cases rec with
  | none => rfl
  | some rec => exact fun _ => ⟨.waiting, by simp [next, took], rfl⟩

theorem next_inl {h h' : Stage} {o : StoreOp} {r : o.Res} (next : h.next ch (.inl o) r = some h') :
    h = .ready ∧ (written (X := WatchSig.sum FollowOps) (.inl o) r = none ∧ h' = .ready ∨
      ∃ rec : OwnershipRecord, rec.validate = .ok () ∧ h' = .wrote rec ∧
        written (X := WatchSig.sum FollowOps) (.inl o) r = some (sessionKey rec.session, .ownership rec)) := by
  cases h with
  | ready =>
    refine ⟨rfl, ?_⟩
    cases o with
    | memGet | memRevision => exact Or.inl ⟨rfl, (Option.some.inj next).symm⟩
    | memCAS key expected value =>
      obtain ⟨rev, ok⟩ := r
      cases ok with
      | false => exact Or.inl ⟨rfl, (Option.some.inj next).symm⟩
      | true =>
        cases value with
        | ownership rec =>
          simp only [Stage.next, committed, if_true] at next
          split_ifs at next with hc
          exact Or.inr ⟨rec, hc.2, (Option.some.inj next).symm, by rw [← hc.1]; rfl⟩
        | _ => cases next
    | _ => cases next
  | _ => cases next

/-- The record a party has in hand. -/
def holds (ch : ℕ) : Stage → Option OwnershipRecord
  | .wrote rec => some rec
  | .telling rec chs => if ch ∈ chs then some rec else none
  | .carrying rec => some rec
  | .taking rec => some rec
  | _ => none

def Forwards : Stage → Prop
  | .listening | .carrying _ | .offered => True
  | _ => False

def Takes : Stage → Prop
  | .waiting | .taking _ => True
  | _ => False

end Stage

/-! ## Records on their way -/

/-- The records between a write and the gate. -/
def queued {ι : Type} (ch : ℕ) (s : FollowState ι) : List OwnershipRecord :=
  (s.2.1.chans ch).buf.filterMap WatchEvent.record? ++ s.2.2.slot.toList

/-- Some party has the record in hand, or a channel holds it. -/
def OnItsWay {ι : Type} (ch : ℕ) (rec : OwnershipRecord) (s : FollowState ι) (hs : ι → Stage) : Prop :=
  (∃ j, (hs j).holds ch = some rec) ∨ rec ∈ queued ch s

/-- Every record written is at the gate or on its way. -/
structure Accounted (ch : ℕ) (g₀ : EpochGate) (w : World (Party ι) FollowSig (FollowState (Party ι)))
    (hs : Party ι → Stage) : Prop where
  told : ∀ e ∈ w.hist, ∀ sid rec, commits sid e = some rec →
    sid = rec.session ∧ (OnItsWay ch rec w.st hs ∨ w.st.2.2.gate.Reached sid rec.epoch)
  way : ∀ rec, OnItsWay ch rec w.st hs → rec.validate = .ok () ∧ ∃ e ∈ w.hist, commits rec.session e = some rec
  known : ∀ sid n, w.st.2.2.gate.known.lookup sid = some n →
    g₀.known.lookup sid = some n ∨ ∃ e ∈ w.hist, ∃ rec, commits sid e = some rec ∧ rec.epoch = n
  registered : ch ∈ w.st.2.1.registered sessionKeyPrefix
  isOpen : (w.st.2.1.chans ch).closed = false ∧ w.st.2.2.closed = false
  running : ∀ j, hs j ≠ .ended
  forwarder : (hs .forwarder).Forwards
  follower : (hs .follower).Takes

namespace Accounted

variable {ch : ℕ} {g₀ : EpochGate} {w : World (Party ι) FollowSig (FollowState (Party ι))} {hs : Party ι → Stage}
  {i : Party ι} {o : FollowSig.Op} {r : FollowSig.Res o} {s' : FollowState (Party ι)} {h' : Stage}

theorem role {F : Stage → Prop} {j : Party ι} (h : F (hs j)) (keeps : F (hs i) → F h') : F (update hs i h' j) := by
  by_cases hj : j = i
  · subst hj
    rw [update_self]
    exact keeps h
  · rwa [update_of_ne hj]

omit [DecidableEq ι] in
theorem earlier {p : Entry (Party ι) FollowSig (FollowState (Party ι)) → Prop} (h : ∃ e ∈ w.hist, p e) :
    ∃ e ∈ (w.push i o r s').hist, p e := by
  obtain ⟨e, he, hp⟩ := h
  exact ⟨e, List.mem_append_left _ he, hp⟩

theorem push (inv : Accounted ch g₀ w hs) (hw : written o r = none) (same : w.st.2.1.Same s'.2.1)
    (closed : s'.2.2.closed = w.st.2.2.closed)
    (goes : ∀ rec, (hs i).holds ch = some rec ∨ rec ∈ queued ch w.st →
      (h'.holds ch = some rec ∨ rec ∈ queued ch s') ∨ s'.2.2.gate.Reached rec.session rec.epoch)
    (comes : ∀ rec, h'.holds ch = some rec ∨ rec ∈ queued ch s' → (hs i).holds ch = some rec ∨ rec ∈ queued ch w.st)
    (seen : ∀ sid n, w.st.2.2.gate.Reached sid n → s'.2.2.gate.Reached sid n)
    (learnt : ∀ sid n, s'.2.2.gate.known.lookup sid = some n → w.st.2.2.gate.known.lookup sid = some n ∨
      ∃ rec, (hs i).holds ch = some rec ∧ rec.session = sid ∧ rec.epoch = n)
    (running : h' ≠ .ended) (forwards : (hs i).Forwards → h'.Forwards) (takes : (hs i).Takes → h'.Takes) :
    Accounted ch g₀ (w.push i o r s') (update hs i h') := by
  refine ⟨fun e he sid rec hc => ?_, fun rec hway => ?_, fun sid n hn => ?_, ?_, ?_,
    fun j => role (F := (· ≠ .ended)) (inv.running j) fun _ => running,
    role inv.forwarder forwards, role inv.follower takes⟩
  · rcases List.mem_append.1 he with he | he
    · obtain ⟨rfl, hway | hreached⟩ := inv.told e he sid rec hc
      · refine ⟨rfl, ?_⟩
        rcases hway with ⟨j, hj⟩ | hq
        · by_cases hji : j = i
          · subst hji
            exact (goes rec (Or.inl hj)).imp_left (Or.imp_left fun h => ⟨j, by rwa [update_self]⟩)
          · exact Or.inl (Or.inl ⟨j, by rwa [update_of_ne hji]⟩)
        · exact (goes rec (Or.inr hq)).imp_left (Or.imp_left fun h => ⟨i, by rwa [update_self]⟩)
      · exact ⟨rfl, Or.inr (seen _ _ hreached)⟩
    · obtain rfl := List.mem_singleton.1 he
      simp [commits, hw] at hc
  · have before : OnItsWay ch rec w.st hs := by
      rcases hway with ⟨j, hj⟩ | hq
      · by_cases hji : j = i
        · subst hji
          rw [update_self] at hj
          exact (comes rec (Or.inl hj)).imp_left fun h => ⟨j, h⟩
        · rw [update_of_ne hji] at hj
          exact Or.inl ⟨j, hj⟩
      · exact (comes rec (Or.inr hq)).imp_left fun h => ⟨i, h⟩
    exact ⟨(inv.way rec before).1, earlier (inv.way rec before).2⟩
  · rcases learnt sid n hn with hn | ⟨rec, hrec, rfl, rfl⟩
    · exact (inv.known sid n hn).imp_right earlier
    · obtain ⟨e, he, hc⟩ := (inv.way rec (Or.inl ⟨i, hrec⟩)).2
      exact Or.inr ⟨e, List.mem_append_left _ he, rec, hc, rfl⟩
  · rw [World.push_st, same.registered]
    exact inv.registered
  · rw [World.push_st, same.closed, closed]
    exact inv.isOpen

theorem push_moved (inv : Accounted ch g₀ w hs) (hw : written o r = none) (same : w.st.2.1.Same s'.2.1)
    (closed : s'.2.2.closed = w.st.2.2.closed) (gate : s'.2.2.gate = w.st.2.2.gate)
    (moved : ∀ rec, h'.holds ch = some rec ∨ rec ∈ queued ch s' ↔ (hs i).holds ch = some rec ∨ rec ∈ queued ch w.st)
    (running : h' ≠ .ended) (forwards : (hs i).Forwards → h'.Forwards) (takes : (hs i).Takes → h'.Takes) :
    Accounted ch g₀ (w.push i o r s') (update hs i h') :=
  inv.push hw same closed (fun rec h => Or.inl ((moved rec).2 h)) (fun rec h => (moved rec).1 h)
    (fun _ _ h => gate ▸ h) (fun _ _ h => Or.inl (gate ▸ h)) running forwards takes

variable {rec : OwnershipRecord}

section

variable (inv : Accounted ch g₀ w hs)
include inv

theorem push_write (hi : hs i = .ready)
    (hv : rec.validate = .ok ()) (hw : written o r = some (sessionKey rec.session, .ownership rec))
    (rest : s'.2 = w.st.2) :
    Accounted ch g₀ (w.push i o r s') (update hs i (.wrote rec)) := by
  have commit : ∀ sid rec', commits sid ⟨i, o, r, w.st, s'⟩ = some rec' → rec' = rec ∧ sid = rec.session := by
    intro sid rec' hc
    simp only [commits, hw] at hc
    split_ifs at hc with hkey
    exact ⟨(Option.some.inj hc).symm, (sessionKey_inj.1 hkey).symm⟩
  have hqueued : queued ch s' = queued ch w.st := by rw [queued, queued, rest]
  have still : ∀ rec', OnItsWay ch rec' w.st hs → OnItsWay ch rec' s' (update hs i (.wrote rec)) := by
    rintro rec' (⟨j, hj⟩ | hq)
    · refine Or.inl ⟨j, ?_⟩
      rw [update_of_ne]
      · exact hj
      · rintro rfl
        simp [hi, Stage.holds] at hj
    · exact Or.inr (hqueued ▸ hq)
  refine ⟨fun e he sid rec' hc => ?_, fun rec' hway => ?_, fun sid n hn => ?_, ?_, ?_,
    fun j => role (F := (· ≠ .ended)) (inv.running j) fun _ h => (by cases h),
    role inv.forwarder fun h => ?_, role inv.follower fun h => ?_⟩
  · rcases List.mem_append.1 he with he | he
    · obtain ⟨rfl, h⟩ := inv.told e he sid rec' hc
      rw [World.push_st, rest]
      exact ⟨rfl, h.imp_left (still rec')⟩
    · obtain rfl := List.mem_singleton.1 he
      obtain ⟨rfl, rfl⟩ := commit sid rec' hc
      exact ⟨rfl, Or.inl (Or.inl ⟨i, by rw [update_self]; rfl⟩)⟩
  · have old : OnItsWay ch rec' w.st hs →
        rec'.validate = .ok () ∧ ∃ e ∈ (w.push i o r s').hist, commits rec'.session e = some rec' :=
      fun h => ⟨(inv.way rec' h).1, earlier (inv.way rec' h).2⟩
    rcases hway with ⟨j, hj⟩ | hq
    · by_cases hji : j = i
      · subst hji
        rw [update_self] at hj
        cases hj
        exact ⟨hv, _, List.mem_append_right _ (List.mem_singleton_self _), by simp [commits, hw]⟩
      · rw [update_of_ne hji] at hj
        exact old (Or.inl ⟨j, hj⟩)
    · exact old (Or.inr (hqueued ▸ hq))
  · rw [World.push_st, rest] at hn
    exact (inv.known sid n hn).imp_right earlier
  · rw [World.push_st, rest]
    exact inv.registered
  · rw [World.push_st, rest]
    exact inv.isOpen
  · rw [hi] at h
    exact h.elim
  · rw [hi] at h
    exact h.elim

theorem push_collect (hi : hs i = .wrote rec) {order : List String} (horder : order.Perm w.st.2.1.watchers.keys) :
    Accounted ch g₀ (w.push i (.inr (.inl (.collect (sessionKey rec.session))))
        (w.st.2.1.collect order (sessionKey rec.session)) w.st)
      (update hs i (.telling rec (w.st.2.1.collect order (sessionKey rec.session)))) := by
  have hch : ch ∈ w.st.2.1.collect order (sessionKey rec.session) :=
    Watchers.mem_collect_of inv.registered horder (hasPrefix_append sessionKeyPrefix rec.session)
  refine inv.push_moved rfl (.refl _) rfl rfl (fun rec' => ?_) nofun (hi ▸ id) (hi ▸ id)
  simp [hi, Stage.holds, hch]

theorem push_send {c : ℕ} {rest : List ℕ}
    (hi : hs i = .telling rec (c :: rest)) (room : c = ch → (w.st.2.1.chans ch).buf.length < Watchers.buffer) :
    Accounted ch g₀ (w.push i (.inr (.inl (.send c rec.event))) (w.st.2.1.send c rec.event).1
        (w.st.1, (w.st.2.1.send c rec.event).2, w.st.2.2)) (update hs i (.telling rec rest)) := by
  refine inv.push_moved rfl (Watchers.same_send _ c _) rfl rfl (fun rec' => ?_) nofun (hi ▸ id) (hi ▸ id)
  by_cases hc : c = ch
  · subst hc
    obtain ⟨hv, -⟩ := inv.way rec (Or.inl ⟨i, by simp [hi, Stage.holds]⟩)
    have hsent : ((w.st.2.1.send c rec.event).2.chans c).buf = (w.st.2.1.chans c).buf ++ [rec.event] := by
      simp [Watchers.send, inv.isOpen.1, room rfl]
    have hrec : (rec.event :: []).filterMap WatchEvent.record? = [rec] := by simp [record?_event hv]
    simp only [queued, hsent, List.filterMap_append, hrec, hi, Stage.holds]
    simp only [List.mem_append, List.mem_cons, List.not_mem_nil, or_false, true_or, if_true, Option.some.injEq]
    split_ifs <;> simp only [Option.some.injEq, false_or] <;> grind
  · have hsent : (w.st.2.1.send c rec.event).2.chans ch = w.st.2.1.chans ch := by
      unfold Watchers.send
      split_ifs <;> simp [Ne.symm hc]
    simp [queued, hsent, hi, Stage.holds, Ne.symm hc]

theorem push_recv (hi : hs i = .listening) {ev : Option WatchEvent} {ws : Watchers}
    (hrecv : w.st.2.1.recv ch = some (ev, ws)) :
    Accounted ch g₀ (w.push i (.inr (.inl (.recv ch))) ev (w.st.1, ws, w.st.2.2)) (update hs i (.received ev)) := by
  have same := Watchers.same_recv hrecv
  unfold Watchers.recv at hrecv
  cases hbuf : (w.st.2.1.chans ch).buf with
  | nil => simp [hbuf, inv.isOpen.1] at hrecv
  | cons ev' rest =>
    simp only [hbuf] at hrecv
    cases hrecv
    cases hev : ev'.record? with
    | none =>
      have hr : Stage.received (some ev') = .listening := by simp [Stage.received, hev]
      rw [hr]
      refine inv.push_moved rfl same rfl rfl (fun rec' => ?_) nofun (fun _ => trivial) (hi ▸ id)
      simp [queued, hbuf, hev, hi, Stage.holds]
    | some rec =>
      have hr : Stage.received (some ev') = .carrying rec := by simp [Stage.received, hev]
      rw [hr]
      refine inv.push_moved rfl same rfl rfl (fun rec' => ?_) nofun (fun _ => trivial) (hi ▸ False.elim)
      simp [queued, hbuf, hev, hi, Stage.holds, eq_comm (a := rec)]

theorem push_offer (hi : hs i = .carrying rec) (hslot : w.st.2.2.slot = none) :
    Accounted ch g₀ (w.push i (.inr (.inr (.offer rec))) () (w.st.1, w.st.2.1, { w.st.2.2 with slot := some rec }))
      (update hs i .offered) := by
  refine inv.push_moved rfl (.refl _) rfl rfl (fun rec' => ?_) nofun (fun _ => trivial) (hi ▸ False.elim)
  simp [queued, hslot, hi, Stage.holds, eq_comm (a := rec), or_comm]

theorem push_take (hi : hs i = .waiting) (hslot : w.st.2.2.slot = some rec) :
    Accounted ch g₀ (w.push i (.inr (.inr .take)) (some rec) (w.st.1, w.st.2.1, { w.st.2.2 with slot := none }))
      (update hs i (.taking rec)) := by
  refine inv.push_moved rfl (.refl _) rfl rfl (fun rec' => ?_) nofun (hi ▸ False.elim) (fun _ => trivial)
  simp [queued, hslot, hi, Stage.holds, eq_comm (a := rec), or_comm]

theorem push_update (hi : hs i = .taking rec) :
    Accounted ch g₀ (w.push i (.inr (.inr (.update rec.session rec.epoch))) ()
        (w.st.1, w.st.2.1, { w.st.2.2 with gate := w.st.2.2.gate.update rec.session rec.epoch }))
      (update hs i .waiting) := by
  refine inv.push rfl (.refl _) rfl (fun rec' h => ?_) (fun rec' h => ?_) (fun sid n h => h.update _ _)
    (fun sid n h => ?_) nofun (hi ▸ False.elim) (fun _ => trivial)
  · rcases h with h | h
    · rw [hi] at h
      cases h
      exact Or.inr (EpochGate.reached_update_self _ _ _)
    · exact Or.inl (Or.inr h)
  · rcases h with h | h
    · cases h
    · exact Or.inr h
  · refine (EpochGate.known_update_cases h).imp_right ?_
    rintro ⟨rfl, rfl⟩
    exact ⟨rec, by rw [hi]; rfl, rfl, rfl⟩

end

end Accounted

/-! ## Runs -/

/-- The channel has room when it is sent to. -/
def HasRoom {ι : Type} (ch : ℕ) (e : Entry ι FollowSig (FollowState ι)) : Prop :=
  match e.op with
  | .inr (.inl (.send c _)) => c = ch → (e.pre.2.1.chans ch).buf.length < Watchers.buffer
  | _ => True

instance {ι : Type} (ch : ℕ) : (e : Entry ι FollowSig (FollowState ι)) → Decidable (HasRoom ch e)
  | ⟨_, .inr (.inl (.send _ _)), _, _, _⟩ => inferInstanceAs (Decidable (_ → _))
  | ⟨_, .inl _, _, _, _⟩ | ⟨_, .inr (.inr _), _, _, _⟩ | ⟨_, .inr (.inl (.watch _)), _, _, _⟩
  | ⟨_, .inr (.inl (.cleanup _ _)), _, _, _⟩ | ⟨_, .inr (.inl (.collect _)), _, _, _⟩
  | ⟨_, .inr (.inl (.recv _)), _, _, _⟩ => .isTrue trivial

namespace Accounted

variable {ch : ℕ} {g₀ : EpochGate} {w : World (Party ι) FollowSig (FollowState (Party ι))} {hs : Party ι → Stage}
  {i : Party ι} {o : FollowSig.Op} {r : FollowSig.Res o} {s' : FollowState (Party ι)} {h' : Stage}
  {ω : List String}

section

variable (inv : Accounted ch g₀ w hs)
include inv

theorem exec_store {o : StoreOp} {r : o.Res} (hex : (followingSystem (Party ι)).exec ω i (.inl o) w.st = some (r, s'))
    (next : (hs i).next ch (.inl o) r = some h') : Accounted ch g₀ (w.push i (.inl o) r s') (update hs i h') := by
  obtain ⟨p, -, hp⟩ := Option.map_eq_some_iff.1 hex
  cases hp
  obtain ⟨hi, ⟨hw, rfl⟩ | ⟨rec, hv, rfl, hw⟩⟩ := Stage.next_inl next
  · refine inv.push_moved hw (.refl _) rfl rfl (fun rec => ?_) nofun (hi ▸ id) (hi ▸ id)
    simp [hi, queued]
  · exact inv.push_write hi hv hw rfl

theorem exec_watch {o : WatchOp} {r : o.Res} {ws : Watchers}
    (hex : (watchSystem (Party ι)).exec ω i o w.st.2.1 = some (r, ws))
    (next : (hs i).next ch (.inr (.inl o)) r = some h')
    (room : HasRoom ch ⟨i, .inr (.inl o), r, w.st, (w.st.1, ws, w.st.2.2)⟩) :
    Accounted ch g₀ (w.push i (.inr (.inl o)) r (w.st.1, ws, w.st.2.2)) (update hs i h') := by
  generalize hi : hs i = h at next
  cases o with
  | watch pfx | cleanup pfx c => cases h <;> cases next
  | collect key =>
    simp only [watchSystem] at hex
    split_ifs at hex with horder
    cases hex
    cases h with
    | wrote rec =>
      simp only [Stage.next] at next
      split_ifs at next with hkey
      subst hkey
      cases next
      exact inv.push_collect hi horder
    | _ => cases next
  | send c ev =>
    obtain ⟨rfl, rfl⟩ := Prod.mk.inj (Option.some.inj hex)
    cases h with
    | telling rec chs =>
      simp only [Stage.next] at next
      split_ifs at next with hsend
      obtain ⟨hhead, rfl⟩ := hsend
      cases next
      cases chs with
      | nil => cases hhead
      | cons c' rest =>
        cases hhead
        exact inv.push_send hi room
    | _ => cases next
  | recv c =>
    cases h with
    | listening =>
      simp only [Stage.next] at next
      split_ifs at next with hc
      subst hc
      cases next
      exact inv.push_recv hi hex
    | _ => cases next

theorem exec_follow {o : FollowOp} {r : o.Res} {f : Followed}
    (hex : (followSystem (Party ι)).exec ω i o w.st.2.2 = some (r, f))
    (next : (hs i).next ch (.inr (.inr o)) r = some h') :
    Accounted ch g₀ (w.push i (.inr (.inr o)) r (w.st.1, w.st.2.1, f)) (update hs i h') := by
  generalize hi : hs i = h at next
  cases o with
  | offer rec =>
    simp only [followSystem] at hex
    split_ifs at hex with hslot
    cases hex
    cases h with
    | carrying rec' =>
      simp only [Stage.next] at next
      split_ifs at next with hrec
      subst hrec
      cases next
      exact inv.push_offer hi hslot
    | _ => cases next
  | await =>
    simp only [followSystem] at hex
    split_ifs at hex
    cases hex
    cases h with
    | offered =>
      cases next
      refine inv.push_moved rfl (.refl _) rfl rfl (fun rec => ?_) nofun (fun _ => trivial) (hi ▸ id)
      simp [hi, queued, Stage.holds]
    | _ => cases next
  | closeOut =>
    cases h with
    | ended => exact absurd hi (inv.running i)
    | _ => cases next
  | take =>
    cases h with
    | waiting =>
      cases next
      cases hslot : w.st.2.2.slot with
      | none => simp [followSystem, hslot, inv.isOpen.2] at hex
      | some rec =>
        simp only [followSystem, hslot] at hex
        cases hex
        exact inv.push_take hi hslot
    | _ => cases next
  | update session epoch =>
    cases hex
    cases h with
    | taking rec =>
      simp only [Stage.next] at next
      split_ifs at next with hrec
      obtain ⟨rfl, rfl⟩ := hrec
      cases next
      exact inv.push_update hi
    | _ => cases next

theorem exec (hex : (followingSystem (Party ι)).exec ω i o w.st = some (r, s')) (next : (hs i).next ch o r = some h')
    (room : HasRoom ch ⟨i, o, r, w.st, s'⟩) : Accounted ch g₀ (w.push i o r s') (update hs i h') := by
  rcases o with o | o | o
  · exact inv.exec_store hex next
  · obtain ⟨⟨r', ws⟩, hsum, hp⟩ := Option.map_eq_some_iff.1 hex
    cases hp
    obtain ⟨⟨r'', ws'⟩, hexec, hp'⟩ := Option.map_eq_some_iff.1 hsum
    cases hp'
    exact inv.exec_watch hexec next room
  · obtain ⟨⟨r', f⟩, hsum, hp⟩ := Option.map_eq_some_iff.1 hex
    cases hp
    obtain ⟨⟨r'', f'⟩, hexec, hp'⟩ := Option.map_eq_some_iff.1 hsum
    cases hp'
    exact inv.exec_follow hexec next

end

end Accounted

def returns : Party ι → Unit → Stage → Prop
  | .writer _, _, h => h.Told
  | .forwarder, _, h => h = .ended
  | .follower, _, h => h = .ended

def begins : Party ι → Stage
  | .writer _ => .ready
  | .forwarder => .listening
  | .follower => .waiting

section Start

variable (m₀ : MemStore) (ws : Watchers) (g₀ : EpochGate) (recs : ι → OwnershipRecord)

omit [DecidableEq ι] in
theorem tracked_start : Tracked (Stage.next ws.next) returns (startFollowing m₀ ws g₀ recs) begins := by
  rintro (i | _ | _)
  · exact (Stage.follows_setIfNewer (recs i)).andThen fun _ _ h => h
  · exact Stage.follows_forward
  · exact Stage.follows_follow

omit [DecidableEq ι] in
theorem accounted_start : Accounted ws.next g₀ (startFollowing m₀ ws g₀ recs).world begins where
  told e he := by cases he
  way rec h := by
    rcases h with ⟨j, hj⟩ | hq
    · rcases j with i | _ | _ <;> cases hj
    · simp [queued, startFollowing, Watchers.watch] at hq
  known _ _ h := Or.inl h
  registered := by
    change ws.next ∈ (ws.watch sessionKeyPrefix).2.registered sessionKeyPrefix
    simp [Watchers.registered_watch]
  isOpen := ⟨by simp [startFollowing, Watchers.watch], rfl⟩
  running j h := by rcases j with i | _ | _ <;> cases h
  forwarder := trivial
  follower := trivial

/-- No record gets lost, along every run. -/
theorem accounted_reaches {c : Config (Party ι) FollowSig (FollowState (Party ι)) Unit}
    (reach : Config.Reaches (followingSystem (Party ι)) (startFollowing m₀ ws g₀ recs) c)
    (room : ∀ e ∈ c.world.hist, HasRoom ws.next e) :
    ∃ hs, Tracked (Stage.next ws.next) returns c hs ∧ Accounted ws.next g₀ c.world hs := by
  obtain ⟨hs, tracked, inv⟩ := (tracked_start m₀ ws g₀ recs).reaches
    (I := fun w hs => (∀ e ∈ w.hist, HasRoom ws.next e) → Accounted ws.next g₀ w hs)
    (fun w hs i ω o r s' h' inv hex next room =>
      (inv fun e he => room e (List.mem_append_left _ he)).exec hex next
        (room _ (List.mem_append_right _ (List.mem_singleton_self _))))
    (fun _ => accounted_start m₀ ws g₀ recs) reach
  exact ⟨hs, tracked, inv room⟩

end Start

/-! ## When nothing is left to do -/

section Final

variable {ch : ℕ} {g₀ : EpochGate} {c : Config (Party ι) FollowSig (FollowState (Party ι)) Unit}
  {hs : Party ι → Stage}

/-- What a party waits for. -/
def Stage.Held (ch : ℕ) (s : FollowState (Party ι)) : Stage → Prop
  | .listening => (s.2.1.chans ch).buf = []
  | .carrying _ | .offered => s.2.2.slot ≠ none
  | .waiting => s.2.2.slot = none
  | _ => False

theorem held_of_blocked {h : Stage} {j : Party ι} {o : FollowSig.Op} {s : FollowState (Party ι)}
    (may : ∀ r, ∃ h', h.next ch o r = some h') (blocked : ∀ ω, (followingSystem (Party ι)).exec ω j o s = none) :
    h.Held ch s := by
  rcases o with o | o | o
  · cases o with
    | saveLock | saveUnlock =>
      obtain ⟨h', next⟩ := may ()
      cases h <;> cases next
    | rename kv =>
      obtain ⟨h', next⟩ := may none
      cases h <;> cases next
    | _ => cases blocked []
  · cases o with
    | watch | cleanup | send => cases blocked []
    | collect key =>
      have := blocked s.2.1.watchers.keys
      simp [System.sum, watchSystem] at this
    | recv c =>
      obtain ⟨h', next⟩ := may none
      cases h with
      | listening =>
        simp only [Stage.next] at next
        split_ifs at next with hc
        subst hc
        have hrecv := blocked []
        simp only [System.sum, watchSystem, Watchers.recv] at hrecv
        cases hbuf : (s.2.1.chans c).buf with
        | nil => exact hbuf
        | cons ev rest =>
          rw [hbuf] at hrecv
          cases hrecv
      | _ => cases next
  · cases o with
    | closeOut | update => cases blocked []
    | offer rec =>
      obtain ⟨h', next⟩ := may ()
      have hslot := blocked []
      simp only [System.sum, followSystem, Option.map_eq_none_iff] at hslot
      cases h with
      | carrying rec' => exact fun h => by simp [h] at hslot
      | _ => cases next
    | await =>
      obtain ⟨h', next⟩ := may ()
      have hslot := blocked []
      simp only [System.sum, followSystem, Option.map_eq_none_iff] at hslot
      cases h with
      | offered => exact fun h => by simp [h] at hslot
      | _ => cases next
    | take =>
      obtain ⟨h', next⟩ := may none
      have hslot := blocked []
      simp only [System.sum, followSystem, Option.map_eq_none_iff] at hslot
      cases h with
      | waiting =>
        cases hs : s.2.2.slot with
        | none => exact hs
        | some rec => simp [hs] at hslot
      | _ => cases next

theorem returned_or_held (tracked : Tracked (Stage.next ch) returns c hs)
    (final : ∀ c', ¬ Config.Step (followingSystem (Party ι)) c c') (j : Party ι) :
    returns j () (hs j) ∨ (hs j).Held ch c.world.st := by
  have hj := tracked j
  rcases Config.stuck_cases final j with ⟨a, hp⟩ | ⟨o, k, hp, blocked⟩
  · rw [hp] at hj
    exact Or.inl hj
  · rw [hp] at hj
    refine Or.inr (held_of_blocked (fun r => ?_) blocked)
    obtain ⟨h', next, -⟩ := hj r
    exact ⟨h', next⟩

theorem Accounted.settled (inv : Accounted ch g₀ c.world hs) (tracked : Tracked (Stage.next ch) returns c hs)
    (final : ∀ c', ¬ Config.Step (followingSystem (Party ι)) c c') (rec : OwnershipRecord) :
    ¬ OnItsWay ch rec c.world.st hs := by
  have slot : c.world.st.2.2.slot = none := by
    have takes := inv.follower
    rcases returned_or_held tracked final .follower with hret | held
    · exact absurd hret (inv.running _)
    · cases h : hs .follower with
      | waiting => rwa [h] at held
      | taking rec =>
        rw [h] at held
        exact held.elim
      | _ =>
        rw [h] at takes
        exact takes.elim
  have buf : (c.world.st.2.1.chans ch).buf = [] := by
    have forwards := inv.forwarder
    rcases returned_or_held tracked final .forwarder with hret | held
    · exact absurd hret (inv.running _)
    · cases h : hs .forwarder with
      | listening => rwa [h] at held
      | carrying | offered =>
        rw [h] at held
        exact absurd slot held
      | _ =>
        rw [h] at forwards
        exact forwards.elim
  rintro (⟨j, hj⟩ | hq)
  · rcases returned_or_held tracked final j with hret | held
    · cases j with
      | writer i =>
        change (hs (.writer i)).Told at hret
        cases h : hs (.writer i) with
        | telling rec' chs =>
          rw [h] at hret hj
          simp [Stage.holds, show chs = [] from hret] at hj
        | ready =>
          rw [h] at hj
          cases hj
        | _ =>
          rw [h] at hret
          exact hret.elim
      | forwarder => exact inv.running _ hret
      | follower => exact inv.running _ hret
    · cases h : hs j with
      | carrying rec' =>
        rw [h] at held
        exact held slot
      | listening | offered | waiting =>
        rw [h] at hj
        cases hj
      | _ =>
        rw [h] at held
        exact held.elim
  · simp [queued, slot, buf] at hq

end Final

/-! ## The store meanwhile -/

def followContract (m₀ : MemStore) : Contract (Party ι) FollowSig (FollowState (Party ι)) where
  inv := Ledger m₀
  guar _ _ _ := True

section Store

variable {m₀ : MemStore} {j : Party ι}

abbrev Keeps (m₀ : MemStore) (j : Party ι) {α : Type} (p : Prog FollowSig α) : Prop :=
  Triple (followContract m₀) (followingSystem (Party ι)) j (fun _ => True) p fun _ _ => True

theorem triple_aside {α : Type} {o : (WatchSig.sum FollowOps).Op}
    {k : (WatchSig.sum FollowOps).Res o → Prog FollowSig α}
    (next : ∀ r, Keeps m₀ j (k r)) :
    Keeps m₀ j (.op (S := FollowSig) (.inr o) k) :=
  Triple.op (R := fun _ _ => True) (fun _ _ _ _ => trivial)
    (fun _ _ _ _ inv _ hex => ⟨trivial, inv.push_other hex fun _ _ hw => by simp [written] at hw, trivial⟩) next

theorem triple_tellAll (ev : WatchEvent) (chs : List ℕ) : Keeps m₀ j (tellAll ofWatch ev chs) := by
  induction chs with
  | nil => exact Triple.done ()
  | cons c rest ih => exact triple_aside fun _ => ih

theorem triple_notifyWrite (key : String) (value : Doc) :
    Triple (followContract m₀) (followingSystem (Party ι)) j (fun _ => True) (notifyWrite ofWatch key value)
      fun err _ => err = none :=
  Triple.bind (R := fun _ _ => True) (triple_aside fun chs => triple_tellAll _ chs) fun _ =>
    Triple.ret (fun _ _ _ _ => trivial) fun _ _ _ => rfl

theorem wp_writer (rec : OwnershipRecord) (w : World (Party ι) FollowSig (FollowState (Party ι))) :
    wp (followContract m₀) (followingSystem (Party ι)) j (setIfNewer (notifyingStore ofWatch) rec)
      (fun _ _ => True) w := by
  refine wp_setIfNewer (P := fun _ => True) (fun _ _ _ _ => trivial) (fun _ _ _ _ _ => trivial) ?_ ?_
    (fun _ _ _ _ _ _ => trivial) (fun _ _ _ _ => trivial) trivial
  · intro w ω o r s' inv _ peeks hex
    exact ⟨trivial, inv.push_other hex fun p sid hp => by simp [peeks.written_eq] at hp, trivial⟩
  · intro w ω o r s' inv _ hv sup hw hex
    have inv' := inv.push_commit hex hw hv sup
    exact ⟨trivial, inv', wp_mono (triple_notifyWrite _ _ _ inv' trivial) fun _ _ _ _ => trivial⟩

theorem triple_forward (ch : ℕ) : Keeps m₀ j (forward ch) := by
  refine Triple.bind (R := fun _ _ => True) ?_ fun _ => triple_aside fun _ => Triple.done ()
  refine Triple.iterate (fun _ _ _ _ => trivial) (fun _ _ _ _ _ => trivial) fun _ => ?_
  refine Triple.post (Q := fun _ _ => True) (triple_aside fun ev => ?_) fun d _ _ _ => by cases d <;> trivial
  change Triple _ _ _ _ (forwardEvent ev) _
  cases ev with
  | none => exact Triple.done _
  | some ev =>
    simp only [forwardEvent]
    cases ev.record? with
    | none => exact Triple.done _
    | some rec => exact triple_aside fun _ => triple_aside fun _ => Triple.done _

theorem triple_follow : Keeps m₀ j follow := by
  refine Triple.iterate (fun _ _ _ _ => trivial) (fun _ _ _ _ _ => trivial) fun _ => ?_
  refine Triple.post (Q := fun _ _ => True) (triple_aside fun rec => ?_) fun d _ _ _ => by cases d <;> trivial
  change Triple _ _ _ _ (followRecord rec) _
  cases rec with
  | none => exact Triple.done _
  | some rec => exact triple_aside fun _ => Triple.done _

theorem ledger_reaches {ws : Watchers} {g₀ : EpochGate} {recs : ι → OwnershipRecord}
    {c : Config (Party ι) FollowSig (FollowState (Party ι)) Unit}
    (reach : Config.Reaches (followingSystem (Party ι)) (startFollowing m₀ ws g₀ recs) c) :
    Ledger m₀ c.world := by
  have start : Sound (followContract m₀) (followingSystem (Party ι)) (fun _ _ _ => True)
      (startFollowing m₀ ws g₀ recs) := by
    have inv : Ledger m₀ (startFollowing m₀ ws g₀ recs).world := Ledger.init ({ mem := m₀ }, _)
    refine ⟨inv, ?_⟩
    rintro (i | _ | _)
    · exact wp_bind inv (wp_mono (wp_writer (recs i) _) fun _ _ _ _ _ _ _ => trivial)
    · exact triple_forward _ _ inv trivial
    · exact triple_follow _ inv trivial
  exact (start.reaches reach).inv

end Store

omit [DecidableEq ι] in
theorem Ledger.last_committed {m₀ : MemStore} {w : World (Party ι) FollowSig (FollowState (Party ι))}
    (h : Ledger m₀ w) {sid : String} (written : ∃ e ∈ w.hist, (commits sid e).isSome) :
    ∃ last, ownershipIn w.st.1.mem sid = some last ∧ ∃ e ∈ w.hist, commits sid e = some last := by
  obtain ⟨e, he, hc⟩ := written
  obtain ⟨rec, hrec⟩ := Option.isSome_iff_exists.1 hc
  have mem : rec ∈ w.hist.filterMap (commits sid) := List.mem_filterMap.2 ⟨e, he, hrec⟩
  obtain ⟨last, hlast⟩ := Option.isSome_iff_exists.1 (List.getLast?_isSome.2 (List.ne_nil_of_mem mem))
  refine ⟨last, ?_, List.mem_filterMap.1 (List.mem_of_getLast? hlast)⟩
  rw [h.stored, ledger, List.getLast?_append, hlast]
  rfl

/-- However writers, forwarder and follower interleave: if every send to the follower's channel finds room, then once
none of them can go on, the gate knows the stored epoch of every session written to. -/
theorem follower_catches_up (m₀ : MemStore) (ws : Watchers) (g₀ : EpochGate) (recs : ι → OwnershipRecord)
    (behind : ∀ sid n, g₀.known.lookup sid = some n → ∃ rec, ownershipIn m₀ sid = some rec ∧ n ≤ rec.epoch)
    {c : Config (Party ι) FollowSig (FollowState (Party ι)) Unit}
    (reach : Config.Reaches (followingSystem (Party ι)) (startFollowing m₀ ws g₀ recs) c)
    (room : ∀ e ∈ c.world.hist, HasRoom ws.next e)
    (final : ∀ c', ¬ Config.Step (followingSystem (Party ι)) c c') :
    ∀ sid, (∃ e ∈ c.world.hist, (commits sid e).isSome) → ∃ rec, ownershipIn c.world.st.1.mem sid = some rec ∧
        c.world.st.2.2.gate.known.lookup sid = some rec.epoch := by
  intro sid hwritten
  have ledger := ledger_reaches reach
  obtain ⟨hs, tracked, inv⟩ := accounted_reaches m₀ ws g₀ recs reach room
  obtain ⟨last, hstored, e, he, hlast⟩ := ledger.last_committed hwritten
  -- nothing is on its way, so the gate has seen the last record
  obtain ⟨-, hreached⟩ := inv.told e he sid last hlast
  obtain ⟨n, hn, hle⟩ := hreached.resolve_left (inv.settled tracked final last)
  refine ⟨last, hstored, hn.trans (congrArg some (UInt64.le_antisymm ?_ hle))⟩
  -- and what it knows was stored, before or in this run
  have member : last ∈ Egressa.ledger m₀ c.world.hist sid := mem_ledger_of_commits he hlast
  rcases inv.known sid n hn with hg | ⟨e', he', rec, hc, rfl⟩
  · obtain ⟨first, hfirst, hfirst_le⟩ := behind sid n hg
    exact UInt64.le_trans hfirst_le (ledger.first_le hfirst member)
  · have hlast' := (ledger.stored sid).symm.trans hstored
    rcases pairwise_getLast (ledger.rising sid) hlast' (mem_ledger_of_commits he' hc) with rfl | hlt
    · exact UInt64.le_refl _
    · exact UInt64.le_of_lt hlt

def Waits {ι : Type} (s : FollowState ι) : Prog FollowSig Unit → Bool
  | .ret _ => true
  | .op (.inr (.inl (.recv ch))) _ => (s.2.1.recv ch).isNone
  | .op (.inr (.inr .take)) _ => s.2.2.slot.isNone && !s.2.2.closed
  | _ => false

theorem final_of_waits {c : Config (Party ι) FollowSig (FollowState (Party ι)) Unit}
    (waits : ∀ j, Waits c.world.st (c.pool j) = true) (c' : Config (Party ι) FollowSig (FollowState (Party ι)) Unit) :
    ¬ Config.Step (followingSystem (Party ι)) c c' := by
  intro step
  rcases Config.step_cases step with ⟨j, o, k, ω, r, s', hp, hex, -⟩ | ⟨j, β, γ, body, b, k, hp, -⟩
  · have hw := waits j
    rw [hp] at hw
    rcases o with o | o | o
    · cases hw
    · cases o with
      | recv ch =>
        have hnone : c.world.st.2.1.recv ch = none := Option.isNone_iff_eq_none.1 hw
        obtain ⟨p, hsum, -⟩ := Option.map_eq_some_iff.1 hex
        obtain ⟨q, hrecv, -⟩ := Option.map_eq_some_iff.1 hsum
        cases hnone.symm.trans hrecv
      | _ => cases hw
    · cases o with
      | take =>
        simp only [Waits, Bool.and_eq_true, Option.isNone_iff_eq_none, Bool.not_eq_true'] at hw
        simp [System.sum, followSystem, hw.1, hw.2] at hex
      | _ => cases hw
  · have hw := waits j
    rw [hp] at hw
    cases hw

namespace Trial

def epochs (n : ℕ) (i : Fin n) : OwnershipRecord := ⟨"7", "gw-a", "gw-b", UInt64.ofNat (i.val + 1)⟩

def writeThenFollow (n m : ℕ) : List (Party (Fin n) × List String) :=
  (List.finRange n).flatMap (fun i =>
    List.replicate (if i.val = 0 then 5 else 6) (.writer i, [sessionKeyPrefix])) ++
  (List.replicate m ([.forwarder, .forwarder, .forwarder, .follower, .follower, .follower, .forwarder].map
    (·, []))).flatten ++ [(.forwarder, []), (.follower, [])]

end Trial

open Trial

theorem follower_catches_up_twice :
    ∃ c, Config.Reaches (followingSystem (Party (Fin 2))) (startFollowing .empty .empty .empty (epochs 2)) c ∧
      (∀ e ∈ c.world.hist, HasRoom 0 e) ∧ (∀ c', ¬ Config.Step (followingSystem (Party (Fin 2))) c c') ∧
      (∃ e ∈ c.world.hist, (commits "7" e).isSome) ∧
      ∃ rec, ownershipIn c.world.st.1.mem "7" = some rec ∧ c.world.st.2.2.gate.known.lookup "7" = some rec.epoch := by
  obtain ⟨c, reach, room, waits, written⟩ := Config.reaches_of_run_any (followingSystem (Party (Fin 2)))
    (writeThenFollow 2 2) (startFollowing .empty .empty .empty (epochs 2))
    (fun c => (∀ e ∈ c.world.hist, HasRoom 0 e) ∧ (∀ j, Waits c.world.st (c.pool j) = true) ∧
      ∃ e ∈ c.world.hist, (commits "7" e).isSome) (by decide +kernel)
  have final := final_of_waits waits
  exact ⟨c, reach, room, final, written,
    follower_catches_up .empty .empty .empty (epochs 2) (fun _ _ h => by cases h) reach room final "7" written⟩

/-- Seventeen epochs are written before the first is forwarded: the last is not sent, and the gate ends up at the owner
before it. -/
theorem follower_left_behind : ∃ c, Config.Reaches (followingSystem (Party (Fin 17)))
        (startFollowing .empty .empty .empty (epochs 17)) c ∧
      (∀ c', ¬ Config.Step (followingSystem (Party (Fin 17))) c c') ∧
      (∃ e ∈ c.world.hist, (commits "7" e).isSome) ∧
      (ownershipIn c.world.st.1.mem "7").map (·.epoch) = some 17 ∧
      c.world.st.2.2.gate.known.lookup "7" = some 16 := by
  obtain ⟨c, reach, waits, written, stored, known⟩ := Config.reaches_of_run_any (followingSystem (Party (Fin 17)))
    (writeThenFollow 17 16) (startFollowing .empty .empty .empty (epochs 17))
    (fun c => (∀ j, Waits c.world.st (c.pool j) = true) ∧ (∃ e ∈ c.world.hist, (commits "7" e).isSome) ∧
      (ownershipIn c.world.st.1.mem "7").map (·.epoch) = some 17 ∧
      c.world.st.2.2.gate.known.lookup "7" = some 16) (by decide +kernel)
  exact ⟨c, reach, final_of_waits waits, written, stored, known⟩

end Egressa
