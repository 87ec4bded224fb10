import Egressa.Control.Store

/-!
# The ownership service

`Get` and `SetIfNewer` (`internal/control/ownership_service.go`) as programs over a `KVStore`.
-/

namespace Egressa

open Conc

section Service

variable {S : Sig} (store : KVStore S)

/-- `OwnershipService.Get`. -/
def ownershipGet (sessionID : String) : Prog S (Except String (Option OwnershipRecord)) := do
  match ← store.get (sessionKey sessionID) with
  | .error e => return .error e
  | .ok none => return .ok none
  | .ok (some data) =>
    match unmarshalOwnership (some data) with
    | .error e => return .error e
    | .ok rec => return .ok (some rec)

/-- One turn of the fenced loop of `SetIfNewer`, from the compare-and-swap on: the left answer asks
for another turn. -/
def swapTurn (fencer : Fencer S) (rec : OwnershipRecord) (expected : ℕ) : Prog S (Unit ⊕ Bool × Option String) := do
  match marshalOwnership rec with
  | .error e => return .inr (false, some e)
  | .ok data =>
    let (_, ok, err) ← fencer.compareAndSwap (sessionKey rec.session) expected data
    match err with
    | some e => return .inr (false, some e)
    | none => if ok then return .inr (true, none) else return .inl ()

/-- The part of a turn of `SetIfNewer` that follows its reads. -/
def judgeTurn (fencer : Fencer S) (rec : OwnershipRecord) (rev : ℕ) (data : Option Doc) :
    Prog S (Unit ⊕ Bool × Option String) :=
  match unmarshalOwnership data with
  | .error e => return .inr (false, some e)
  | .ok current =>
    if !rec.newer current then return .inr (false, none) else swapTurn fencer rec rev

/-- `OwnershipService.SetIfNewer`: whether the record was applied, and the error. -/
def setIfNewer (rec : OwnershipRecord) : Prog S (Bool × Option String) :=
  match rec.validate with
  | .error e => return (false, some e)
  | .ok () =>
    let key := sessionKey rec.session
    match store.fencer with
    | none => do
      match ← ownershipGet store rec.session with
      | .error e => return (false, some e)
      | .ok current =>
        if current.any (fun cur => !rec.newer cur) then return (false, none)
        match marshalOwnership rec with
        | .error e => return (false, some e)
        | .ok data => return (true, ← store.put key data)
    | some fencer =>
      Prog.iterate (β := Unit) (fun _ => do
        match ← fencer.revision key with
        | .error e => return .inr (false, some e)
        | .ok none => swapTurn fencer rec 0
        | .ok (some rev) =>
          match ← store.get key with
          | .error e => return .inr (false, some e)
          | .ok data => judgeTurn fencer rec rev data) ()

end Service

/-- What `OwnershipService.Get` makes of the stored bytes. -/
def decodeOwnership (data : Option Doc) : Except String (Option OwnershipRecord) :=
  match data with
  | none => .ok none
  | some data => (unmarshalOwnership (some data)).map some

theorem ownershipGet_storeThen {X : Sig} (after : Prog (StoreSig.sum X) (Option String)) (sid : String) :
    ownershipGet (storeThen after) sid =
      .op (S := StoreSig.sum X) (.inl (.memGet (sessionKey sid))) fun data => .ret (decodeOwnership data) := by
  refine congrArg (Prog.op (S := StoreSig.sum X) (.inl (.memGet (sessionKey sid)))) (funext fun data => ?_)
  cases data with
  | none => rfl
  | some data =>
    change (match unmarshalOwnership (some data) with
      | .error e => Prog.ret (Except.error e)
      | .ok rec => Prog.ret (Except.ok (some rec))) = _
    simp only [decodeOwnership]
    cases unmarshalOwnership (some data) <;> rfl

/-! ## What a store says of a session -/

/-- The record a store holds of a session. -/
def ownershipIn (m : MemStore) (sid : String) : Option OwnershipRecord :=
  (unmarshalOwnership (m.get (sessionKey sid))).toOption

variable {ι E Ω : Type} {X : Sig}

abbrev StoreWorld (ι : Type) (X : Sig) (E : Type) : Type := World ι (StoreSig.sum X) (Disk ι × E)

variable {sid : String} {r : OwnershipRecord}

theorem ownershipIn_eq_some {m : MemStore} : ownershipIn m sid = some r ↔
      m.get (sessionKey sid) = some (.ownership r) ∧ r.validate = .ok () := by
  rw [← unmarshalOwnership_eq_ok, ownershipIn]
  cases unmarshalOwnership (m.get (sessionKey sid)) <;> simp [Except.toOption]

theorem decodeOwnership_eq_some {m : MemStore} :
    decodeOwnership (m.get (sessionKey sid)) = .ok (some r) ↔ ownershipIn m sid = some r := by
  rw [ownershipIn]
  cases m.get (sessionKey sid) with
  | none => simp [decodeOwnership, unmarshalOwnership, Except.toOption]
  | some data =>
    simp only [decodeOwnership]
    cases unmarshalOwnership (some data) <;> simp [Except.toOption, Except.map]

theorem ownershipIn_put_self (m : MemStore)
    (hv : r.validate = .ok ()) : ownershipIn (m.put (sessionKey sid) (.ownership r)) sid = some r :=
  ownershipIn_eq_some.2 ⟨m.get_put_self _ _, hv⟩

theorem ownershipIn_put_ne (m : MemStore) {sid key : String} (value : Doc)
    (h : sessionKey sid ≠ key) : ownershipIn (m.put key value) sid = ownershipIn m sid := by
  simp only [ownershipIn, m.get_put_ne value h]

/-- The write an operation makes, if it makes one. -/
def written : (o : (StoreSig.sum X).Op) → (StoreSig.sum X).Res o → Option (String × Doc)
  | .inl (.memPut key value), _ => some (key, value)
  | .inl (.memCAS key _ value), (r : ℕ × Bool) => if r.2 then some (key, value) else none
  | _, _ => none

/-- What an operation writes of a session. -/
def commits (sid : String) (e : Entry ι (StoreSig.sum X) (Disk ι × E)) : Option OwnershipRecord :=
  match written e.op e.res with
  | some (key, .ownership r) => if key = sessionKey sid then some r else none
  | _ => none

/-- Every record that was ever stored for `sid`, oldest first: the one the store began with, then
those committed since. -/
def ledger (m₀ : MemStore) (hist : List (Entry ι (StoreSig.sum X) (Disk ι × E))) (sid : String) :
    List OwnershipRecord :=
  (ownershipIn m₀ sid).toList ++ hist.filterMap (commits sid)

section Ledger

variable {m₀ : MemStore} {w : StoreWorld ι X E}

/-- What is stored is the last that was written, and epochs rise. -/
structure Ledger (m₀ : MemStore) (w : StoreWorld ι X E) : Prop where
  stored : ∀ sid, ownershipIn w.st.1.mem sid = (ledger m₀ w.hist sid).getLast?
  rising : ∀ sid, (ledger m₀ w.hist sid).Pairwise (·.epoch < ·.epoch)

/-- The record is newer than what is stored. -/
def Supersedes (rec : OwnershipRecord) (m : MemStore) : Prop :=
  m.get (sessionKey rec.session) = none ∨ ∃ old, ownershipIn m rec.session = some old ∧ old.epoch < rec.epoch

theorem ledger_push (i : ι) (o : (StoreSig.sum X).Op) (r : (StoreSig.sum X).Res o) (s' : Disk ι × E) (sid : String) :
    ledger m₀ (w.push i o r s').hist sid = ledger m₀ w.hist sid ++ (commits sid ⟨i, o, r, w.st, s'⟩).toList := by
  simp only [ledger, World.push_hist, List.filterMap_append, List.append_assoc]
  cases h : commits sid ⟨i, o, r, w.st, s'⟩ <;> simp [h]

variable {sid : String}

theorem mem_ledger_push {rec : OwnershipRecord} (h : rec ∈ ledger m₀ w.hist sid) (i : ι)
    (o : (StoreSig.sum X).Op) (r : (StoreSig.sum X).Res o) (s' : Disk ι × E) :
    rec ∈ ledger m₀ (w.push i o r s').hist sid := by
  rw [ledger_push]
  exact List.mem_append_left _ h

theorem persistent_mem_ledger {rec : OwnershipRecord} :
    Persistent fun w : StoreWorld ι X E => rec ∈ ledger m₀ w.hist sid :=
  fun _ j o r s' h => mem_ledger_push h j o r s'

theorem ledger_push_silent {i : ι} {o : (StoreSig.sum X).Op} {r : (StoreSig.sum X).Res o} {s' : Disk ι × E}
    (hw : written o r = none) : ledger m₀ (w.push i o r s').hist sid = ledger m₀ w.hist sid := by
  rw [ledger_push]
  simp [commits, hw]

theorem Ledger.init (s : Disk ι × E) : Ledger s.1.mem (⟨s, []⟩ : StoreWorld ι X E) where
  stored sid := by
    simp only [ledger, List.filterMap_nil, List.append_nil]
    cases ownershipIn s.1.mem sid <;> rfl
  rising sid := by
    simp only [ledger, List.filterMap_nil, List.append_nil]
    cases ownershipIn s.1.mem sid <;> simp

theorem pairwise_getLast {α : Type} {R : α → α → Prop} {l : List α} {x y : α}
    (h : l.Pairwise R) (hy : l.getLast? = some y) (hx : x ∈ l) : x = y ∨ R x y := by
  obtain ⟨l', rfl⟩ := List.getLast?_eq_some_iff.1 hy
  rcases List.mem_append.1 hx with hx | hx
  · exact Or.inr ((List.pairwise_append.1 h).2.2 x hx y (by simp))
  · exact Or.inl (List.mem_singleton.1 hx)

theorem mem_ledger_of_commits {e : Entry ι (StoreSig.sum X) (Disk ι × E)}
    (he : e ∈ w.hist) {r : OwnershipRecord}
    (hr : commits sid e = some r) : r ∈ ledger m₀ w.hist sid :=
  List.mem_append_right _ (List.mem_filterMap.2 ⟨e, he, hr⟩)

theorem Ledger.commit_unique (h : Ledger m₀ w)
    {e e' : Entry ι (StoreSig.sum X) (Disk ι × E)} (he : e ∈ w.hist) (he' : e' ∈ w.hist)
    {r r' : OwnershipRecord} (hr : commits sid e = some r) (hr' : commits sid e' = some r')
    (epoch : r.epoch = r'.epoch) : e = e' := by
  by_contra hne
  let Differ (a b : Entry ι (StoreSig.sum X) (Disk ι × E)) : Prop :=
    ∀ x, commits sid a = some x → ∀ y, commits sid b = some y → x.epoch ≠ y.epoch
  have symm : Std.Symm Differ := ⟨fun a b hab x hx y hy heq => hab y hy x hx heq.symm⟩
  have rising := List.pairwise_filterMap.1 (List.pairwise_append.1 (h.rising sid)).2.1
  have differ : w.hist.Pairwise Differ := rising.imp fun hab x hx y hy heq => UInt64.lt_irrefl _ (heq ▸ hab x hx y hy)
  exact differ.forall he he' hne r hr r' hr' epoch

theorem Ledger.first_le (h : Ledger m₀ w) {session : String} {cur r : OwnershipRecord}
    (hcur : ownershipIn m₀ session = some cur) (hr : r ∈ ledger m₀ w.hist session) :
    cur.epoch ≤ r.epoch := by
  have rising := h.rising session
  simp only [ledger, hcur, Option.toList_some, List.singleton_append, List.pairwise_cons, List.mem_cons] at rising hr
  rcases hr with rfl | hr
  · exact UInt64.le_refl _
  · exact UInt64.le_of_lt (rising.1 r hr)

theorem Ledger.eq_of_epoch (h : Ledger m₀ w) {session : String} {r r' : OwnershipRecord}
    (hr : r ∈ ledger m₀ w.hist session) (hr' : r' ∈ ledger m₀ w.hist session)
    (he : r.epoch = r'.epoch) : r = r' := by
  by_contra hne
  have symm : Std.Symm fun a b : OwnershipRecord => a.epoch ≠ b.epoch := ⟨fun _ _ h => Ne.symm h⟩
  have differ : (ledger m₀ w.hist session).Pairwise fun a b => a.epoch ≠ b.epoch := by
    refine (h.rising session).imp fun {a b} hlt heq => ?_
    rw [heq] at hlt
    exact UInt64.lt_irrefl _ hlt
  exact differ.forall hr hr' hne he

variable [DecidableEq ι] {ext : System ι X E Ω} {o : (StoreSig.sum X).Op} {r : (StoreSig.sum X).Res o}

theorem exec_mem {ω : Ω} {i : ι} {s s' : Disk ι × E} (hex : ((storeSystem ι Ω).sum ext).exec ω i o s = some (r, s')) :
    s'.1.mem = match written o r with
      | none => s.1.mem
      | some p => s.1.mem.put p.1 p.2 := by
  cases o with
  | inr x =>
    obtain ⟨p, -, hp⟩ := Option.map_eq_some_iff.1 hex
    cases hp
    rfl
  | inl o =>
    obtain ⟨⟨r', d⟩, hd, hp⟩ := Option.map_eq_some_iff.1 hex
    cases hp
    cases o with
    | memGet | memList | memPut | memRevision | refuse =>
      cases hd
      rfl
    | memCAS key expected value =>
      cases hd
      rcases s.1.mem.compareAndSwap_cases key expected value with h | ⟨-, h⟩ <;> simp [written, h]
    | saveLock | saveUnlock =>
      simp only [storeSystem] at hd
      split_ifs at hd
      cases hd
      rfl
    | rename kv =>
      simp only [storeSystem] at hd
      split at hd <;> cases hd <;> rfl

theorem Ledger.push_other (h : Ledger m₀ w) {ω : Ω} {i : ι} {s' : Disk ι × E}
    (hex : ((storeSystem ι Ω).sum ext).exec ω i o w.st = some (r, s'))
    (other : ∀ p sid, written o r = some p → p.1 ≠ sessionKey sid) :
    Ledger m₀ (w.push i o r s') := by
  have hm := exec_mem hex
  have hc : ∀ sid, commits sid ⟨i, o, r, w.st, s'⟩ = none := by
    intro sid
    unfold commits
    cases hw : written o r with
    | none => rfl
    | some p =>
      obtain ⟨key, value⟩ := p
      cases value <;> simp [other _ sid hw]
  have hl : ∀ sid, ledger m₀ (w.push i o r s').hist sid = ledger m₀ w.hist sid := fun sid => by
    rw [ledger_push, hc, Option.toList_none, List.append_nil]
  refine ⟨fun sid => ?_, fun sid => by rw [hl]; exact h.rising sid⟩
  rw [hl, ← h.stored sid, World.push_st, hm]
  cases hw : written o r with
  | none => rfl
  | some p => exact ownershipIn_put_ne _ _ (Ne.symm (other p sid hw))

theorem Ledger.push_commit (h : Ledger m₀ w) {ω : Ω} {i : ι} {s' : Disk ι × E} {rec : OwnershipRecord}
    (hex : ((storeSystem ι Ω).sum ext).exec ω i o w.st = some (r, s'))
    (hw : written o r = some (sessionKey rec.session, .ownership rec)) (hv : rec.validate = .ok ())
    (hs : Supersedes rec w.st.1.mem) : Ledger m₀ (w.push i o r s') := by
  have hm := exec_mem hex
  rw [hw] at hm
  have hself : ledger m₀ (w.push i o r s').hist rec.session = ledger m₀ w.hist rec.session ++ [rec] := by
    rw [ledger_push]
    simp [commits, hw]
  have hother : ∀ sid, sid ≠ rec.session →
      ledger m₀ (w.push i o r s').hist sid = ledger m₀ w.hist sid := fun sid hne => by
    rw [ledger_push]
    simp [commits, hw, sessionKey_inj, Ne.symm hne]
  have hlast : ∀ x ∈ ledger m₀ w.hist rec.session, x.epoch < rec.epoch := by
    intro x hx
    rcases hs with hnone | ⟨old, hold, hlt⟩
    · have : ownershipIn w.st.1.mem rec.session = none := by
        simp [ownershipIn, hnone, unmarshalOwnership, Except.toOption]
      rw [h.stored, List.getLast?_eq_none_iff] at this
      simp [this] at hx
    · rw [h.stored] at hold
      rcases pairwise_getLast (h.rising rec.session) hold hx with rfl | hlt'
      · exact hlt
      · exact UInt64.lt_trans hlt' hlt
  constructor
  · intro sid
    by_cases hsid : sid = rec.session
    · subst hsid
      rw [hself, List.getLast?_append, World.push_st, hm]
      exact ownershipIn_put_self _ hv
    · rw [hother sid hsid, ← h.stored sid, World.push_st, hm]
      exact ownershipIn_put_ne _ _ (fun e => hsid (sessionKey_inj.1 e))
  · intro sid
    by_cases hsid : sid = rec.session
    · subst hsid
      rw [hself, List.pairwise_append]
      refine ⟨h.rising _, List.pairwise_singleton _ _, fun x hx y hy => ?_⟩
      obtain rfl := List.mem_singleton.1 hy
      exact hlast x hx
    · rw [hother sid hsid]
      exact h.rising sid

end Ledger

end Egressa
