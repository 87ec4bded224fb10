import Egressa.Control.SetIfNewer
import Egressa.Handoff.Armer

/-!
# Cutover

`CutoverController.Cutover` (`internal/handoff/cutover.go`) moves a session to the standby access gateway: it consumes
the arm of the epoch after the record it was given, and then commits that record with the new access through
`SetIfNewer`.  In between, and since the record was read, anyone may have armed, reset, consumed or committed.
-/

namespace Egressa.Handoff

open Conc

structure CutoverResult where
  session : String
  oldAccess : String
  newAccess : String
  egress : String
  epoch : UInt64
  state : AccessState
  committedAt : ℤ
  deriving DecidableEq, Repr, Inhabited

def errNotReady : String := "handoff: standby is not ready for the epoch this cutover would commit"

section Calls

variable {S : Sig} (store : KVStore S) (armer : (o : ArmOp) → Prog S o.Res)

def cutoverResult (session newAccess : String) (current : OwnershipRecord) (state : AccessState) (now : ℤ) :
    Bool × Option String → CutoverResult × Bool × Option String
  | (_, some e) => (default, false, some e)
  | (false, none) => (default, false, none)
  | (true, none) =>
    let candidate := current.nextAccessEpoch newAccess
    (⟨session, current.access, newAccess, candidate.egress, candidate.epoch, state, now⟩, true, none)

/-- Consumes the armed state and moves the session. -/
def cutover (session newAccess : String) (current : OwnershipRecord) (now : ℤ) :
    Prog S (CutoverResult × Bool × Option String) := do
  match ← armer (.consumeReady session (current.epoch + 1)) with
  | none => return (default, false, some errNotReady)
  | some state =>
    return cutoverResult session newAccess current state now (← setIfNewer store (current.nextAccessEpoch newAccess))

/-- A call on the armer or the controller, or a migration.  `Cutover` is given what its caller has read from
the store before. -/
inductive HandoffCall where
  | prepare (session : String) (currentEpoch : UInt64) (state : AccessState) (now : ℤ)
  | markReady (session : String) (epoch : UInt64)
  | consumeReady (session : String) (epoch : UInt64)
  | reset (session : String)
  | cutover (session newAccess : String) (now : ℤ)
  | setIfNewer (rec : OwnershipRecord)

/-- What a caller of `Cutover` does with the record it has read, and what it reports. -/
def cutoverWith (session newAccess : String) (now : ℤ) :
    Except String (Option OwnershipRecord) → Prog S (Option (OwnershipRecord × CutoverResult))
  | .ok (some current) => do
    let (result, ok, _) ← cutover store armer session newAccess current now
    return if ok then some (current, result) else none
  | _ => return none

/-- The calls, with the record and result of a committed cutover. -/
def HandoffCall.run : HandoffCall → Prog S (Option (OwnershipRecord × CutoverResult))
  | .prepare session currentEpoch state now => do
    let _ ← armer (.prepare session currentEpoch state now)
    return none
  | .markReady session epoch => do
    let _ ← armer (.markReady session epoch)
    return none
  | .consumeReady session epoch => do
    let _ ← armer (.consumeReady session epoch)
    return none
  | .reset session => do
    let _ ← armer (.reset session)
    return none
  | .cutover session newAccess now => do
    cutoverWith store armer session newAccess now (← ownershipGet store session)
  | .setIfNewer rec => do
    let _ ← Egressa.setIfNewer store rec
    return none

end Calls

abbrev HandoffSig : Sig := StoreSig.sum ArmSig

def onArmer (o : ArmOp) : Prog HandoffSig o.Res := .call (S := HandoffSig) (.inr o)

variable {ι : Type} [DecidableEq ι]

abbrev handoffSystem (ι : Type) [DecidableEq ι] : System ι HandoffSig (Disk ι × StandbyArmer) Unit :=
  (storeSystem ι Unit).sum (armSystem ι Unit)

def startHandoff (m₀ : MemStore) (calls : ι → HandoffCall) :
    Config ι HandoffSig (Disk ι × StandbyArmer) (Option (OwnershipRecord × CutoverResult)) where
  pool i := (calls i).run memStore onArmer
  world := ⟨({ mem := m₀ }, .empty), []⟩

abbrev HandoffWorld (ι : Type) : Type := World ι HandoffSig (Disk ι × StandbyArmer)

/-! ## The history -/

def armEvent : (o : HandoffSig.Op) → HandoffSig.Res o → Option Event
  | .inl _, _ => none
  | .inr o, r => some ⟨o, r⟩

def armEvents (hist : List (Entry ι HandoffSig (Disk ι × StandbyArmer))) : List Event :=
  hist.filterMap fun e => armEvent e.op e.res

omit [DecidableEq ι] in
theorem armEvents_append (hist : List (Entry ι HandoffSig (Disk ι × StandbyArmer)))
    (e : Entry ι HandoffSig (Disk ι × StandbyArmer)) :
    armEvents (hist ++ [e]) = armEvents hist ++ (armEvent e.op e.res).toList := by
  rw [armEvents, List.filterMap_append]
  cases h : armEvent e.op e.res <;> simp [armEvents, h]

/-- The entry at which thread `i` consumed the session's arm, for the epoch after that of `current`. -/
structure Consumes (i : ι) (session : String) (current : OwnershipRecord) (state : AccessState)
    (before : List (Entry ι HandoffSig (Disk ι × StandbyArmer)))
    (e : Entry ι HandoffSig (Disk ι × StandbyArmer)) : Prop where
  tid : e.tid = i
  event : armEvent e.op e.res = some ⟨.consumeReady session (current.epoch + 1), some state⟩
  arm : ∃ a : ArmEntry, a.phase = .ready ∧ a.targetEpoch = current.epoch + 1 ∧ a.state = state ∧
    Traced session a (armEvents before)

/-- The entry at which thread `i` committed the record over `current`. -/
structure Commits (i : ι) (session newAccess : String) (current : OwnershipRecord)
    (e : Entry ι HandoffSig (Disk ι × StandbyArmer)) : Prop where
  tid : e.tid = i
  write : written e.op e.res =
    some (sessionKey session, .ownership ⟨session, newAccess, current.egress, current.epoch + 1⟩)
  superseded : ownershipIn e.pre.1.mem session = some current

/-- The thread has consumed the state. -/
def HasConsumed (i : ι) (session : String) (current : OwnershipRecord) (state : AccessState)
    (w : HandoffWorld ι) : Prop :=
  ∃ before e after, w.hist = before ++ e :: after ∧ Consumes i session current state before e

/-- And then has stored the move. -/
def HasCommitted (i : ι) (session newAccess : String) (current : OwnershipRecord) (state : AccessState)
    (w : HandoffWorld ι) : Prop :=
  ∃ before e after, w.hist = before ++ e :: after ∧ Consumes i session current state before e ∧
    ∃ e' ∈ after, Commits i session newAccess current e'

omit [DecidableEq ι] in
theorem persistent_hasConsumed {i : ι} {session : String} {current : OwnershipRecord} {state : AccessState} :
    Persistent (HasConsumed i session current state) := by
  rintro w j o r s' ⟨before, e, after, hist, consumes⟩
  exact ⟨before, e, after ++ [⟨j, o, r, w.st, s'⟩], by rw [World.push_hist, hist]; simp, consumes⟩

omit [DecidableEq ι] in
theorem persistent_hasCommitted {i : ι} {session newAccess : String} {current : OwnershipRecord}
    {state : AccessState} : Persistent (HasCommitted i session newAccess current state) := by
  rintro w j o r s' ⟨before, e, after, hist, consumes, e', he', commits⟩
  exact ⟨before, e, after ++ [⟨j, o, r, w.st, s'⟩], by rw [World.push_hist, hist]; simp, consumes, e',
    List.mem_append_left _ he', commits⟩

/-! ## The contract -/

section Contract

variable {m₀ : MemStore} {i : ι} {w : HandoffWorld ι}

def handoffContract (m₀ : MemStore) : Contract ι HandoffSig (Disk ι × StandbyArmer) where
  inv w := Ledger m₀ w ∧ (∀ sid, ∀ r ∈ ledger m₀ w.hist sid, r.session = sid) ∧ AllTraced w.st.2 (armEvents w.hist)
  guar _ _ _ := True

theorem told_inl (told : AllTraced w.st.2 (armEvents w.hist)) {o : StoreOp} {r : o.Res} {s' : Disk ι × StandbyArmer}
    (hex : (handoffSystem ι).exec () i (.inl o) w.st = some (r, s')) :
    AllTraced s'.2 (armEvents w.hist ++ (armEvent (.inl o) r).toList) := by
  obtain ⟨p, -, hp⟩ := Option.map_eq_some_iff.1 hex
  obtain ⟨-, rfl⟩ := Prod.mk.inj hp
  rw [show armEvent (.inl o) r = none from rfl, Option.toList_none, List.append_nil]
  exact told

theorem handoff_push (inv : (handoffContract m₀).inv w) {o : HandoffSig.Op} {r : HandoffSig.Res o}
    {s' : Disk ι × StandbyArmer} (hex : (handoffSystem ι).exec () i o w.st = some (r, s'))
    (hw : written o r = none) : (handoffContract m₀).inv (w.push i o r s') := by
  refine ⟨inv.1.push_other hex fun p sid hp => by simp [hw] at hp, Keyed.push inv.2.1 (by simp [hw]), ?_⟩
  rw [World.push_hist, armEvents_append]
  cases o with
  | inl o => exact told_inl inv.2.2 hex
  | inr o =>
    obtain ⟨⟨r', a'⟩, hexec, hp⟩ := Option.map_eq_some_iff.1 hex
    cases hp
    exact inv.2.2.exec hexec

theorem handoff_commit (inv : (handoffContract m₀).inv w) {o : HandoffSig.Op} {r : HandoffSig.Res o}
    {s' : Disk ι × StandbyArmer} {rec : OwnershipRecord}
    (hex : (handoffSystem ι).exec () i o w.st = some (r, s'))
    (hw : written o r = some (sessionKey rec.session, .ownership rec)) (hv : rec.validate = .ok ())
    (sup : Supersedes rec w.st.1.mem) : (handoffContract m₀).inv (w.push i o r s') := by
  refine ⟨inv.1.push_commit hex hw hv sup, Keyed.push inv.2.1 fun p hp => ?_, ?_⟩
  · exact ⟨rec, Option.some.inj (hp.symm.trans hw)⟩
  · rw [World.push_hist, armEvents_append]
    cases o with
    | inr o => cases hw
    | inl o => exact told_inl inv.2.2 hex

omit [DecidableEq ι] in
theorem stored_of_supersedes (inv : (handoffContract m₀).inv w) {session newAccess : String}
    {current : OwnershipRecord} (hcur : current ∈ ledger m₀ w.hist session)
    (sup : Supersedes (current.nextAccessEpoch newAccess) w.st.1.mem) :
    ownershipIn w.st.1.mem session = some current := by
  have hsession : current.session = session := inv.2.1 session current hcur
  subst hsession
  have stored := inv.1.stored current.session
  rcases sup with hnone | ⟨old, hold, hlt⟩
  · have hnone : ownershipIn w.st.1.mem current.session = none := by
      have hnone : w.st.1.mem.get (sessionKey current.session) = none := hnone
      simp [ownershipIn, hnone, unmarshalOwnership, Except.toOption]
    rw [hnone] at stored
    rw [List.getLast?_eq_none_iff.1 stored.symm] at hcur
    cases hcur
  · have hold : ownershipIn w.st.1.mem current.session = some old := hold
    rcases pairwise_getLast (inv.1.rising _) (stored.symm.trans hold) hcur with rfl | hrise
    · exact hold
    · -- no epoch is between that of `current` and the next one
      have hlt : old.epoch < current.epoch + 1 := hlt
      rw [UInt64.lt_iff_toNat_lt] at hlt hrise
      rw [UInt64.toNat_add, show (1 : UInt64).toNat = 1 from rfl] at hlt
      have := Nat.mod_le (current.epoch.toNat + 1) (2 ^ 64)
      omega

end Contract

/-! ## The calls -/

section Triples

variable {m₀ : MemStore} {i : ι}

abbrev Handing (m₀ : MemStore) (i : ι) {α : Type} (P : HandoffWorld ι → Prop) (p : Prog HandoffSig α)
    (Q : α → HandoffWorld ι → Prop) : Prop :=
  Triple (handoffContract m₀) (handoffSystem ι) i P p Q

theorem triple_arm (o : ArmOp) : Handing m₀ i (fun _ => True) (onArmer o) fun _ _ => True := by
  refine Triple.op (R := fun _ _ => True) (fun _ _ _ _ => trivial) ?_ fun _ => Triple.done _
  intro w ω r s' inv _ hex
  exact ⟨trivial, handoff_push inv hex rfl, trivial⟩

theorem triple_get (session : String) : Handing m₀ i (fun _ => True) (ownershipGet memStore session)
      fun res w => ∀ rec, res = .ok (some rec) → rec ∈ ledger m₀ w.hist session :=
  triple_ownershipGet session (fun _ inv => inv.1) fun _ _ _ _ inv hex => ⟨trivial, handoff_push inv hex rfl⟩

theorem triple_consume (session : String) (current : OwnershipRecord) :
    Handing m₀ i (fun w => current ∈ ledger m₀ w.hist session) (onArmer (.consumeReady session (current.epoch + 1)))
      fun res w => ∀ state, res = some state →
        current ∈ ledger m₀ w.hist session ∧ HasConsumed i session current state w := by
  refine Triple.op (R := fun res w => ∀ state, res = some state →
    current ∈ ledger m₀ w.hist session ∧ HasConsumed i session current state w)
    persistent_mem_ledger.stable ?_
    fun res => Triple.ret
      (Persistent.all fun _ => (persistent_mem_ledger.and persistent_hasConsumed).imp).stable fun _ _ h => h
  intro w ω res s' inv hcur hex
  refine ⟨trivial, handoff_push inv hex rfl, ?_⟩
  rintro state rfl
  refine ⟨mem_ledger_push hcur i _ _ _, w.hist, _, [], rfl, rfl, rfl, ?_⟩
  have hanswer : (w.st.2.consumeReady session (current.epoch + 1)).1 = some state :=
    (Prod.mk.inj (Option.some.inj hex)).1
  rcases w.st.2.consumeReady_cases session (current.epoch + 1) with h | ⟨a, ha, hphase, htarget, h⟩
  · rw [h] at hanswer
    cases hanswer
  · rw [h] at hanswer
    exact ⟨a, hphase, htarget, Option.some.inj hanswer, inv.2.2 session a ha⟩

theorem triple_commit (session newAccess : String) (current : OwnershipRecord) (state : AccessState) : Handing m₀ i
      (fun w => current ∈ ledger m₀ w.hist session ∧ HasConsumed i session current state w)
      (setIfNewer memStore (current.nextAccessEpoch newAccess))
      fun res w => res.1 = true → HasCommitted i session newAccess current state w := by
  intro w₀ _ known
  refine wp_setIfNewer (P := fun w => current ∈ ledger m₀ w.hist session ∧ HasConsumed i session current state w)
    (Q := fun res w => res.1 = true → HasCommitted i session newAccess current state w)
    (persistent_mem_ledger.and persistent_hasConsumed).stable
    (fun _ => persistent_hasCommitted.imp.stable)
    ?_ ?_ ?_ ?_ known
  · intro w ω o r s' inv hP peeks hex
    refine ⟨trivial, handoff_push inv hex peeks.written_eq, ?_⟩
    exact (persistent_mem_ledger.and persistent_hasConsumed) w i o r s' hP
  · intro w ω o r s' inv hP hv sup hwrite hex
    have stored := stored_of_supersedes inv hP.1 sup
    have hsession : current.session = session := inv.2.1 session current hP.1
    have committed : HasCommitted i session newAccess current state (w.push i o r s') := by
      obtain ⟨before, e, after, hist, consumes⟩ := hP.2
      refine ⟨before, e, after ++ [⟨i, o, r, w.st, s'⟩], by rw [World.push_hist, hist]; simp, consumes, _,
        List.mem_append_right _ (List.mem_singleton_self _), rfl, ?_, stored⟩
      subst hsession
      exact hwrite
    refine ⟨trivial, handoff_commit inv hex hwrite hv sup, fun w' env _ _ => ?_⟩
    exact persistent_hasCommitted.stable.env env committed
  · intro _ _ _ _ _ _ h
    cases h
  · intro _ _ _ _ h
    cases h

theorem triple_migration (rec : OwnershipRecord) : Handing m₀ i (fun _ => True) (setIfNewer memStore rec)
      fun _ _ => True := by
  intro w _ _
  refine wp_setIfNewer (P := fun _ => True) (Q := fun _ _ => True) (fun _ _ _ _ => trivial)
    (fun _ _ _ _ _ => trivial) ?_ ?_ (fun _ _ _ _ _ _ => trivial) (fun _ _ _ _ => trivial) trivial
  · exact fun w ω o r s' inv _ peeks hex => ⟨trivial, handoff_push inv hex peeks.written_eq, trivial⟩
  · exact fun w ω o r s' inv _ hv sup hw hex => ⟨trivial, handoff_commit inv hex hw hv sup, fun _ _ _ => trivial⟩

def handoffPost (i : ι) (call : HandoffCall) (res : Option (OwnershipRecord × CutoverResult))
    (w : HandoffWorld ι) : Prop :=
  ∀ session newAccess now, call = .cutover session newAccess now → ∀ current result, res = some (current, result) →
    ∃ state, HasCommitted i session newAccess current state w ∧
      result = ⟨session, current.access, newAccess, current.egress, current.epoch + 1, state, now⟩

theorem triple_cutover (session newAccess : String) (now : ℤ) (current : OwnershipRecord) :
    Handing m₀ i (fun w => current ∈ ledger m₀ w.hist session)
      (cutover memStore onArmer session newAccess current now) fun res w => res.2.1 = true →
        ∃ state, HasCommitted i session newAccess current state w ∧
          res.1 = ⟨session, current.access, newAccess, current.egress, current.epoch + 1, state, now⟩ := by
  have refused : ∀ (e : Option String), Handing m₀ i (fun _ => True)
      (.ret ((default : CutoverResult), false, e)) fun res w => res.2.1 = true →
        ∃ state, HasCommitted i session newAccess current state w ∧
          res.1 = ⟨session, current.access, newAccess, current.egress, current.epoch + 1, state, now⟩ :=
    fun e => Triple.ret (fun _ _ _ _ => trivial) fun _ _ _ h => by cases h
  refine Triple.bind (triple_consume session current) fun res => ?_
  cases res with
  | none => exact (refused _).pre fun _ _ _ => trivial
  | some state =>
    refine Triple.bind ((triple_commit session newAccess current state).pre fun w _ h => h state rfl) fun res => ?_
    rcases res with ⟨applied, _ | e⟩
    · cases applied with
      | false => exact (refused _).pre fun _ _ _ => trivial
      | true =>
        refine Triple.ret (P := fun w => true = true → HasCommitted i session newAccess current state w) ?_ ?_
        · exact persistent_hasCommitted.imp.stable
        · exact fun w _ h _ => ⟨state, h rfl, rfl⟩
    · exact (refused _).pre fun _ _ _ => trivial

theorem triple_call (call : HandoffCall) : Handing m₀ i (fun _ => True) (call.run memStore onArmer)
      (handoffPost i call) := by
  have none_done : ∀ {P : HandoffWorld ι → Prop}, Handing m₀ i P (.ret none) (handoffPost i call) :=
    fun w _ _ w' _ _ _ _ _ _ _ _ h => by cases h
  cases call with
  | prepare session currentEpoch state now => exact Triple.bind (triple_arm _) fun _ => none_done
  | markReady session epoch => exact Triple.bind (triple_arm _) fun _ => none_done
  | consumeReady session epoch => exact Triple.bind (triple_arm _) fun _ => none_done
  | reset session => exact Triple.bind (triple_arm _) fun _ => none_done
  | setIfNewer rec => exact Triple.bind (triple_migration rec) fun _ => none_done
  | cutover session newAccess now =>
    refine Triple.bind (triple_get session) fun res => ?_
    rcases res with e | _ | current
    · exact none_done
    · exact none_done
    · refine Triple.bind ((triple_cutover session newAccess now current).pre fun w _ h => h current rfl) ?_
      rintro ⟨result, ok, err⟩
      cases ok with
      | false => exact none_done
      | true =>
        refine Triple.ret (P := fun w => true = true → ∃ state, HasCommitted i session newAccess current state w ∧
          result = ⟨session, current.access, newAccess, current.egress, current.epoch + 1, state, now⟩) ?_ ?_
        · intro w w' other h hres
          obtain ⟨state, committed, hresult⟩ := h hres
          exact ⟨state, persistent_hasCommitted.stable w w' other committed, hresult⟩
        · rintro w - h session' newAccess' now' hcall current' result' hres
          cases hcall
          cases hres
          exact h rfl

end Triples

/-! ## Runs -/

theorem getLast?_filter {α : Type} {l : List α} {x : α} (h : l.getLast? = some x) {p : α → Bool}
    (hp : p x = true) : (l.filter p).getLast? = some x := by
  obtain ⟨l', rfl⟩ := List.getLast?_eq_some_iff.1 h
  rw [List.filter_append, List.filter_cons_of_pos hp, List.filter_nil, List.getLast?_concat]

/-- Calls on an armer, cutovers and migrations interleave in any way.  A cutover that answers ok consumed an arm that
was prepared for the epoch after the record it was given, and marked ready since, and took the state of the last call
that prepared it; then it committed that record with the new access, over that very record.  No epoch of a session is
committed twice. -/
theorem cutover_two_phase {m₀ : MemStore} (keyed : WellKeyed m₀) (calls : ι → HandoffCall)
    {c : Config ι HandoffSig (Disk ι × StandbyArmer) (Option (OwnershipRecord × CutoverResult))}
    (reach : Config.Reaches (handoffSystem ι) (startHandoff m₀ calls) c) :
    (∀ i session newAccess now current result, calls i = .cutover session newAccess now →
      c.pool i = .ret (some (current, result)) →
      ∃ before consume after, c.world.hist = before ++ consume :: after ∧ consume.tid = i ∧
        armEvent consume.op consume.res = some ⟨.consumeReady session (current.epoch + 1), some result.state⟩ ∧
        (∃ before' p since, armEvents before = before' ++ p :: since ∧
          (∃ state, prepared session p = some (current.epoch + 1, state)) ∧
          (∀ e ∈ since, cleared session e = false) ∧
          ∃ e ∈ since, marked session e = some (current.epoch + 1)) ∧
        (((armEvents before).filterMap (prepared session)).filter fun p => p.1 = current.epoch + 1).getLast? =
          some (current.epoch + 1, result.state) ∧
        (∃ commit ∈ after, commit.tid = i ∧ written commit.op commit.res =
            some (sessionKey session, .ownership ⟨session, newAccess, current.egress, current.epoch + 1⟩) ∧
          ownershipIn commit.pre.1.mem session = some current) ∧
        result = ⟨session, current.access, newAccess, current.egress, current.epoch + 1, result.state, now⟩) ∧
    ∀ sid, ∀ e ∈ c.world.hist, ∀ e' ∈ c.world.hist, ∀ r r', commits sid e = some r → commits sid e' = some r' →
      r.epoch = r'.epoch → e = e' := by
  have start : Sound (handoffContract m₀) (handoffSystem ι) (fun i => handoffPost i (calls i))
      (startHandoff m₀ calls) := by
    have inv : (handoffContract m₀).inv (startHandoff m₀ calls).world := by
      refine ⟨Ledger.init (startHandoff m₀ calls).world.st, keyed.keyed _, fun session e he => ?_⟩
      cases he
    exact ⟨inv, fun i => triple_call (calls i) _ inv trivial⟩
  have sound := start.reaches reach
  refine ⟨fun i session newAccess now current result hcall hret => ?_,
    fun sid e he e' he' r r' hr hr' => sound.inv.1.commit_unique he he' hr hr'⟩
  obtain ⟨state, ⟨before, consume, after, hist, consumes, commit, hmem, committed⟩, rfl⟩ :=
    sound.returned hret session newAccess now hcall current result rfl
  obtain ⟨a, hphase, htarget, rfl, backed⟩ := consumes.arm
  refine ⟨before, consume, after, hist, consumes.tid, consumes.event, ?_, ?_, ?_, rfl⟩
  · obtain ⟨before', p, since, hevents, hprep, quiet, hmark⟩ := backed.since
    rw [htarget] at hprep hmark
    exact ⟨before', p, since, hevents, hprep, fun e he => (quiet e he).1, hmark hphase⟩
  · have last := backed.last
    rw [htarget] at last
    exact getLast?_filter last (by simp)
  · exact ⟨commit, hmem, committed.tid, committed.write, committed.superseded⟩

namespace Sample

def standby : AccessState := ⟨"7", "10.8.0.7", 41⟩

def race : Fin 5 → HandoffCall
  | 0 => .prepare "7" 5 ⟨"7", "10.8.0.7", 40⟩ 1
  | 1 => .markReady "7" 6
  | 2 => .prepare "7" 5 standby 2
  | 3 => .cutover "7" "gw-s" 3
  | 4 => .cutover "7" "gw-t" 4

end Sample

open Handoff.Sample

theorem cutover_two_phase_race :
    ∃ c, Config.Reaches (handoffSystem (Fin 5)) (startHandoff Trial.atFive race) c ∧
      c.pool 3 = .ret (some (⟨"7", "gw-a", "gw-b", 5⟩, ⟨"7", "gw-a", "gw-s", "gw-b", 6, standby, 3⟩)) ∧
      c.pool 4 = .ret none ∧
      ∃ commit ∈ c.world.hist, ownershipIn commit.pre.1.mem "7" = some ⟨"7", "gw-a", "gw-b", 5⟩ := by
  obtain ⟨c, reach, h3, h4⟩ := Config.reaches_of_run_any (handoffSystem (Fin 5))
    ([0, 4, 1, 2, 3, 3, 3, 3, 3, 3, 4].map (·, ())) (startHandoff Trial.atFive race)
    (fun c => (c.pool 3).result? = some (some (⟨"7", "gw-a", "gw-b", 5⟩,
        ⟨"7", "gw-a", "gw-s", "gw-b", 6, standby, 3⟩)) ∧ (c.pool 4).result? = some none) (by decide)
  have h3 := Prog.eq_ret_of_result h3
  obtain ⟨before, consume, after, hist, -, -, -, -, ⟨commit, hmem, -, -, superseded⟩, -⟩ :=
    (cutover_two_phase Egressa.Trial.wellKeyed_atFive race reach).1 3 "7" "gw-s" 3 _ _ rfl h3
  refine ⟨c, reach, h3, Prog.eq_ret_of_result h4, commit, ?_, superseded⟩
  rw [hist]
  exact List.mem_append_right _ (List.mem_cons_of_mem _ hmem)

end Egressa.Handoff
