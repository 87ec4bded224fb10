import Egressa.Control.OwnershipService

/-!
# `SetIfNewer` on a `MemStore`

`wp_setIfNewer` is the one rule for `SetIfNewer` in any pool whose threads share a `MemStore`, or a store built on
one.  The value judged newer may be of a later revision than the one passed to the swap; but a swap that succeeds
found the revision unchanged since the first read (`Since`).
-/

namespace Egressa

open Conc

variable {ι E Ω : Type} {X : Sig} [DecidableEq ι] {ext : System ι X E Ω}
  {C : Contract ι (StoreSig.sum X) (Disk ι × E)} {i : ι}

/-- The key's revision was `rev` at some moment, and if it still is, the value is `data`. -/
def Since (key : String) (rev : ℕ) (data : Option Doc) (m : MemStore) : Prop :=
  rev ≤ m.nextRev ∧ (m.revision key = some rev → m.get key = data)

theorem Since.put {key k : String} {rev : ℕ} {data : Option Doc} {m : MemStore} {value : Doc}
    (h : Since key rev data m) : Since key rev data (m.put k value) := by
  refine ⟨Nat.le_succ_of_le h.1, fun hr => ?_⟩
  by_cases hk : key = k
  · subst hk
    rw [MemStore.revision_put_self] at hr
    have := Option.some.inj hr
    have := h.1
    omega
  · rw [m.revision_put_ne value hk] at hr
    rw [m.get_put_ne value hk]
    exact h.2 hr

theorem stable_since (key : String) (rev : ℕ) (data : Option Doc) :
    Stable C ((storeSystem ι Ω).sum ext) i fun w => Since key rev data w.st.1.mem := by
  rintro w w' ⟨j, -, ⟨ω, o, r, s', hex, rfl⟩, -⟩ h
  rw [World.push_st, exec_mem hex]
  cases written o r with
  | none => exact h
  | some p => exact h.put

theorem stable_nextRev (rev : ℕ) : Stable C ((storeSystem ι Ω).sum ext) i fun w => rev ≤ w.st.1.mem.nextRev := by
  rintro w w' ⟨j, -, ⟨ω, o, r, s', hex, rfl⟩, -⟩ h
  rw [World.push_st, exec_mem hex]
  cases written o r with
  | none => exact h
  | some p => exact Nat.le_succ_of_le h

/-- The read operations on a key. -/
def Peeks (key : String) : (o : (StoreSig.sum X).Op) → (StoreSig.sum X).Res o → Prop
  | .inl (.memRevision k), _ => k = key
  | .inl (.memGet k), _ => k = key
  | .inl (.memCAS k _ _), (r : ℕ × Bool) => k = key ∧ r.2 = false
  | _, _ => False

section Rule

-- `P` is what the thread knows before, and keeps through the reads; `swap` is where the contract must
-- allow the write, and what the store does after it
variable {after : String → Doc → Prog (StoreSig.sum X) (Option String)} {rec : OwnershipRecord}
  {P : StoreWorld ι X E → Prop}
  {Q : Bool × Option String → StoreWorld ι X E → Prop}
  (stable : Stable C ((storeSystem ι Ω).sum ext) i P)
  (stableQ : ∀ res, Stable C ((storeSystem ι Ω).sum ext) i (Q res))
  (peek : ∀ w ω o r s', C.inv w → P w → Peeks (sessionKey rec.session) o r →
    ((storeSystem ι Ω).sum ext).exec ω i o w.st = some (r, s') →
    C.guar i w (w.push i o r s') ∧ C.inv (w.push i o r s') ∧ P (w.push i o r s'))
  (swap : ∀ w ω o r s', C.inv w → P w → rec.validate = .ok () → Supersedes rec w.st.1.mem →
    written o r = some (sessionKey rec.session, .ownership rec) →
    ((storeSystem ι Ω).sum ext).exec ω i o w.st = some (r, s') →
    C.guar i w (w.push i o r s') ∧ C.inv (w.push i o r s') ∧
      wp C ((storeSystem ι Ω).sum ext) i (after (sessionKey rec.session) (.ownership rec))
        (fun err => Q (err.isNone, err)) (w.push i o r s'))
  (stale : ∀ w (cur : OwnershipRecord), C.inv w → P w →
    ownershipIn w.st.1.mem rec.session = some cur → rec.newer cur = false →
    Q (false, none) (w.push i (.inl (.memGet (sessionKey rec.session))) (some (.ownership cur) : Option Doc) w.st))
  (refused : ∀ w w' e, C.inv w → P w →
    rec.validate = .error e ∨ unmarshalOwnership (w.st.1.mem.get (sessionKey rec.session)) = .error e →
    C.inv w' → P w' → Q (false, some e) w')
  (fail : ∀ w e, C.inv w → P w → Q (false, some e) w)

/-- What a turn of a loop leaves to be proved. -/
def turnPost (P : StoreWorld ι X E → Prop)
    (Q : Bool × Option String → StoreWorld ι X E → Prop) :
    Unit ⊕ Bool × Option String → StoreWorld ι X E → Prop
  | .inl _ => P
  | .inr res => Q res

variable {w : StoreWorld ι X E}

include stable stableQ peek swap in
theorem wp_swapTurn (hv : rec.validate = .ok ()) {expected : ℕ} (hP : P w)
    (sup : ∀ w', Env C ((storeSystem ι Ω).sum ext) i w w' →
      (w'.st.1.mem.revision (sessionKey rec.session)).getD 0 = expected → Supersedes rec w'.st.1.mem) :
    wp C ((storeSystem ι Ω).sum ext) i (swapTurn (fencerWith after) rec expected) (turnPost P Q) w := by
  have hm : marshalOwnership rec = .ok (.ownership rec) := by simp [marshalOwnership, hv]
  unfold swapTurn
  rw [hm]
  intro w₁ env₁ inv₁ ω r s' hex
  have hP₁ := stable.env env₁ hP
  rcases w₁.st.1.mem.compareAndSwap_cases (sessionKey rec.session) expected (.ownership rec) with
    hc | ⟨hr, hc⟩
  · have hr : r.2 = false := by
      simp only [System.sum, storeSystem, hc, Option.map_some, Option.some.injEq] at hex
      rw [← (Prod.mk.inj hex).1]
    obtain ⟨hg, hi, hP'⟩ := peek w₁ ω _ r s' inv₁ hP₁ ⟨rfl, hr⟩ hex
    refine ⟨hg, hi, ?_⟩
    obtain ⟨rev, ok⟩ := r
    obtain rfl : ok = false := hr
    exact fun w₂ env₂ _ => stable.env env₂ hP'
  · have hok : r.2 = true := by
      simp only [System.sum, storeSystem, hc, Option.map_some, Option.some.injEq] at hex
      rw [← (Prod.mk.inj hex).1]
    obtain ⟨hg, hi, hafter⟩ := swap w₁ ω _ r s' inv₁ hP₁ hv (sup w₁ env₁ hr) (by simp [written, hok]) hex
    refine ⟨hg, hi, ?_⟩
    obtain ⟨rev, ok⟩ := r
    obtain rfl : ok = true := hok
    refine wp_bind (p := after _ _ >>= fun err => .ret (rev, true, err)) hi
      (wp_bind hi (wp_mono hafter fun err w₂ inv₂ hQ => ?_))
    cases err with
    | none => exact fun w₃ env₃ inv₃ w₄ env₄ _ => (stableQ _).env (env₃.trans env₄) hQ
    | some e => exact fun w₃ env₃ inv₃ w₄ env₄ _ => (stableQ _).env (env₃.trans env₄) hQ

include stable stableQ peek swap stale refused in
theorem wp_judgeTurn (hv : rec.validate = .ok ()) {rev : ℕ}
    (pos : 0 < rev) (hle : rev ≤ w.st.1.mem.nextRev) {data : Option Doc}
    (hdata : w.st.1.mem.get (sessionKey rec.session) = data) (inv : C.inv w) (hP : P w)
    (hP' : P (w.push i (.inl (.memGet (sessionKey rec.session))) data w.st)) :
    wp C ((storeSystem ι Ω).sum ext) i (judgeTurn (fencerWith after) rec rev data) (turnPost P Q)
      (w.push i (.inl (.memGet (sessionKey rec.session))) data w.st) := by
  unfold judgeTurn
  cases hu : unmarshalOwnership data with
  | error e =>
    exact fun w₁ env₁ inv₁ =>
      refused w w₁ e inv hP (Or.inr (by rw [hdata, hu])) inv₁ (stable.env env₁ hP')
  | ok cur =>
    obtain ⟨rfl, hval⟩ := unmarshalOwnership_eq_ok.1 hu
    dsimp only
    cases hn : rec.newer cur with
    | false =>
      have hQ := stale w cur inv hP (ownershipIn_eq_some.2 ⟨hdata, hval⟩) hn
      rw [if_pos (by simp)]
      exact fun w₁ env₁ _ => (stableQ _).env env₁ hQ
    | true =>
      rw [if_neg (by simp)]
      refine wp_swapTurn stable stableQ peek swap hv hP' fun w₁ env₁ hr => ?_
      have since := (stable_since (sessionKey rec.session) rev (some (.ownership cur))).env env₁ ⟨hle, fun _ => hdata⟩
      have hget := since.2 (Option.getD_eq_iff.1 hr |>.resolve_right fun h => by omega)
      exact Or.inr ⟨cur, ownershipIn_eq_some.2 ⟨hget, hval⟩, by simpa [OwnershipRecord.newer] using hn⟩

include stable stableQ peek swap stale refused in
/-- The rule for `SetIfNewer`, with the two reasons for an error: the record is not valid, or what is stored
is no record. -/
theorem wp_setIfNewer_cases (hP : P w) :
    wp C ((storeSystem ι Ω).sum ext) i (setIfNewer (storeWith after) rec) Q w := by
  unfold setIfNewer
  cases hv : rec.validate with
  | error e =>
    exact fun w' env inv =>
      refused w' w' e inv (stable.env env hP) (Or.inl hv) inv (stable.env env hP)
  | ok u =>
    refine ⟨fun _ => P, fun _ => stable, hP, fun _ w inv hP => wp_mono (Q := turnPost P Q) ?_ ?_⟩
    · intro w₁ env₁ inv₁ ω r s' hex
      have hP₁ := stable.env env₁ hP
      obtain ⟨hg, hi, hP'⟩ := peek w₁ ω _ r s' inv₁ hP₁ rfl hex
      refine ⟨hg, hi, ?_⟩
      obtain ⟨hrev, rfl⟩ := Prod.mk.inj (Option.some.inj hex)
      cases r with
      | none =>
        exact wp_swapTurn stable stableQ peek swap hv hP' fun w' _ h0 => Or.inl (w'.st.1.mem.revision_getD_eq_zero h0)
      | some rev =>
        obtain ⟨pos, hle⟩ := w₁.st.1.mem.revision_pos hrev
        intro w₂ env₂ inv₂ ω₂ data s₂ hex₂
        have hP₂ := stable.env env₂ hP'
        obtain ⟨hg₂, hi₂, hP₂'⟩ := peek w₂ ω₂ _ data s₂ inv₂ hP₂ rfl hex₂
        obtain ⟨hdata, rfl⟩ := Prod.mk.inj (Option.some.inj hex₂)
        exact ⟨hg₂, hi₂, wp_judgeTurn stable stableQ peek swap stale refused hv pos
          ((stable_nextRev rev).env env₂ hle) hdata inv₂ hP₂ hP₂'⟩
    · intro d w' _ hd
      cases d with
      | inl u => exact hd
      | inr res => exact fun w'' env _ => (stableQ res).env env hd

include stable stableQ peek swap stale fail in
theorem wp_setIfNewer (hP : P w) : wp C ((storeSystem ι Ω).sum ext) i (setIfNewer (storeWith after) rec) Q w :=
  wp_setIfNewer_cases stable stableQ peek swap stale (fun _ w' e _ _ _ inv hP => fail w' e inv hP) hP

end Rule

/-! ## Concurrent calls -/

section Calls

abbrev NoSig : Sig := ⟨Empty, Empty.elim⟩

def noSystem (ι Ω : Type) : System ι NoSig Unit Ω := ⟨fun _ _ o _ => o.elim⟩

/-- The store alone. -/
abbrev bareSystem (ι : Type) [DecidableEq ι] : System ι (StoreSig.sum NoSig) (Disk ι × Unit) Unit :=
  (storeSystem ι Unit).sum (noSystem ι Unit)

def startCalls (m₀ : MemStore) (calls : ι → OwnershipRecord) :
    Config ι (StoreSig.sum NoSig) (Disk ι × Unit) (Bool × Option String) where
  pool i := setIfNewer memStore (calls i)
  world := ⟨({ mem := m₀ }, ()), []⟩

/-- What a `Get` has answered. -/
def got : (o : (StoreSig.sum X).Op) → (StoreSig.sum X).Res o → Option (String × Option Doc)
  | .inl (.memGet key), (r : Option Doc) => some (key, r)
  | _, _ => none

/-- The thread has written the record. -/
def Wrote (i : ι) (rec : OwnershipRecord) (w : StoreWorld ι X E) : Prop :=
  ∃ e ∈ w.hist, e.tid = i ∧ written e.op e.res = some (sessionKey rec.session, .ownership rec)

/-- The thread has read a record that is newer, or as new. -/
def SawNewer (i : ι) (rec : OwnershipRecord) (w : StoreWorld ι X E) : Prop :=
  ∃ e ∈ w.hist, e.tid = i ∧ ∃ cur : OwnershipRecord,
    got e.op e.res = some (sessionKey rec.session, some (.ownership cur)) ∧
    ownershipIn e.pre.1.mem rec.session = some cur ∧ rec.epoch ≤ cur.epoch

/-- The thread has written nothing. -/
def Silent (i : ι) (w : StoreWorld ι X E) : Prop :=
  ∀ e ∈ w.hist, e.tid = i → written e.op e.res = none

theorem stable_mem {p : Entry ι (StoreSig.sum X) (Disk ι × E) → Prop} :
    Stable C ((storeSystem ι Ω).sum ext) i fun w => ∃ e ∈ w.hist, p e := by
  rintro w w' ⟨j, -, ⟨ω, o, r, s', -, rfl⟩, -⟩ ⟨e, he, hp⟩
  exact ⟨e, List.mem_append_left _ he, hp⟩

variable {o : (StoreSig.sum X).Op} {r : (StoreSig.sum X).Res o}

omit [DecidableEq ι] in
theorem Silent.push_any {w : StoreWorld ι X E} (h : Silent i w) {j : ι} {s' : Disk ι × E}
    (hw : j = i → written o r = none) : Silent i (w.push j o r s') :=
  List.forall_mem_append.2 ⟨h, List.forall_mem_singleton.2 hw⟩

omit [DecidableEq ι] in
theorem Silent.push {w : StoreWorld ι X E} (h : Silent i w) {s' : Disk ι × E}
    (hw : written o r = none) : Silent i (w.push i o r s') :=
  h.push_any fun _ => hw

theorem stable_silent : Stable C ((storeSystem ι Ω).sum ext) i (Silent i) := by
  rintro w w' ⟨j, hji, ⟨ω, o, r, s', -, rfl⟩, -⟩ h
  exact h.push_any fun hj => absurd hj hji

theorem Peeks.written_eq {key : String} (h : Peeks key o r) : written o r = none := by
  cases o with
  | inr x => rfl
  | inl o => cases o with
    | memCAS k expected value =>
      obtain ⟨-, hr⟩ := h
      simp [written, hr]
    | memPut => cases h
    | _ => rfl

/-- What is written is the record of the call. -/
def Swaps (calls : ι → OwnershipRecord) (e : Entry ι (StoreSig.sum X) (Disk ι × E)) : Prop :=
  ∀ p, written e.op e.res = some p → p = (sessionKey (calls e.tid).session, .ownership (calls e.tid)) ∧
    Supersedes (calls e.tid) e.pre.1.mem ∧
    ownershipIn e.post.1.mem (calls e.tid).session = some (calls e.tid)

def callsContract (m₀ : MemStore) (calls : ι → OwnershipRecord) :
    Contract ι (StoreSig.sum NoSig) (Disk ι × Unit) where
  inv w := Ledger m₀ w ∧ ∀ e ∈ w.hist, Swaps calls e
  guar _ _ _ := True

/-- What the answer of `SetIfNewer` says. -/
def callPost (calls : ι → OwnershipRecord) (i : ι) (res : Bool × Option String)
    (w : World ι (StoreSig.sum NoSig) (Disk ι × Unit)) : Prop :=
  match res with
  | (true, none) => Wrote i (calls i) w
  | (true, some _) => False
  | (false, none) => Silent i w ∧ SawNewer i (calls i) w
  | (false, some _) => Silent i w

omit [DecidableEq ι] in
theorem Swaps.of_silent {calls : ι → OwnershipRecord} {e : Entry ι (StoreSig.sum X) (Disk ι × E)}
    (h : written e.op e.res = none) : Swaps calls e := fun p hp => by simp [h] at hp

theorem call_keeps (m₀ : MemStore) (calls : ι → OwnershipRecord) (i : ι)
    {w : StoreWorld ι NoSig Unit} (hw : Silent i w) :
    wp (callsContract m₀ calls) (bareSystem ι) i (setIfNewer memStore (calls i)) (callPost calls i) w := by
  refine wp_setIfNewer (P := Silent i) stable_silent ?_ ?_ ?_ ?_ ?_ hw
  · rintro ⟨applied, err⟩
    cases applied <;> cases err
    · exact fun w w' other h => ⟨stable_silent w w' other h.1, stable_mem w w' other h.2⟩
    · exact stable_silent
    · exact stable_mem
    · exact fun _ _ _ h => h
  · intro w ω o r s' inv hP peeks hex
    have hnone := peeks.written_eq
    exact ⟨trivial, ⟨inv.1.push_other hex fun p sid hp => by simp [hnone] at hp,
      List.forall_mem_append.2 ⟨inv.2, List.forall_mem_singleton.2 (.of_silent hnone)⟩⟩, hP.push hnone⟩
  · intro w ω o r s' inv hP hv sup hwr hex
    have hmem : (⟨i, o, r, w.st, s'⟩ : Entry ι (StoreSig.sum NoSig) (Disk ι × Unit)) ∈
        (w.push i o r s').hist := by simp
    refine ⟨trivial, ⟨inv.1.push_commit hex hwr hv sup, List.forall_mem_append.2 ⟨inv.2,
      List.forall_mem_singleton.2 fun p hp => ?_⟩⟩, fun w' env _ => stable_mem.env env ⟨_, hmem, rfl, hwr⟩⟩
    cases hwr.symm.trans hp
    have hm := exec_mem hex
    simp only [hwr] at hm
    exact ⟨rfl, sup, by rw [hm]; exact ownershipIn_put_self _ hv⟩
  · intro w cur inv hP hcur hnew
    refine ⟨hP.push rfl, ⟨_, List.mem_append_right _ (List.mem_singleton_self _), rfl, cur, rfl, hcur, ?_⟩⟩
    simpa [OwnershipRecord.newer] using hnew
  · exact fun w e _ hP => hP

/-- `SetIfNewer` is an atomic "write if strictly newer", however calls interleave: a write raises the stored epoch of
its session; a call answers true exactly if it wrote its record; one that answers false without an error wrote nothing,
and read an epoch at least its own; and of the calls for one session and epoch at most one answers true. -/
theorem setIfNewer_atomic (m₀ : MemStore) (calls : ι → OwnershipRecord)
    {c : Config ι (StoreSig.sum NoSig) (Disk ι × Unit) (Bool × Option String)}
    (reach : Config.Reaches (bareSystem ι) (startCalls m₀ calls) c) :
    (∀ e ∈ c.world.hist, ∀ key value, written e.op e.res = some (key, value) →
      ∃ rec, value = .ownership rec ∧ key = sessionKey rec.session ∧ ownershipIn e.post.1.mem rec.session = some rec ∧
        (e.pre.1.mem.get key = none ∨
          ∃ old, ownershipIn e.pre.1.mem rec.session = some old ∧ old.epoch < rec.epoch)) ∧
    (∀ i res, c.pool i = .ret res → (res.1 = true ↔ Wrote i (calls i) c.world)) ∧
    (∀ i, c.pool i = .ret (false, none) → Silent i c.world ∧ SawNewer i (calls i) c.world) ∧
    (∀ i j, c.pool i = .ret (true, none) → c.pool j = .ret (true, none) →
      (calls i).session = (calls j).session → (calls i).epoch = (calls j).epoch → i = j) := by
  have start : Sound (callsContract m₀ calls) (bareSystem ι) (callPost calls) (startCalls m₀ calls) :=
    ⟨⟨Ledger.init ({ mem := m₀ }, ()), by simp [startCalls]⟩,
      fun i => call_keeps m₀ calls i (by simp [Silent, startCalls])⟩
  have sound := start.reaches reach
  have post : ∀ i res, c.pool i = .ret res → callPost calls i res c.world := fun i res hp => sound.returned hp
  refine ⟨?_, ?_, fun i hp => post i _ hp, ?_⟩
  · intro e he key value hw
    obtain ⟨hp, sup, hpost⟩ := sound.inv.2 e he _ hw
    cases hp
    exact ⟨calls e.tid, rfl, rfl, hpost, sup⟩
  · rintro i ⟨applied, err⟩ hp
    have h := post i _ hp
    have silent : Silent i c.world → ¬ Wrote i (calls i) c.world := by
      rintro hs ⟨e, he, ht, hw⟩
      simp [hs e he ht] at hw
    cases applied <;> cases err
    · exact iff_of_false (by simp) (silent h.1)
    · exact iff_of_false (by simp) (silent h)
    · exact iff_of_true rfl h
    · exact h.elim
  · intro i j hi hj hs he
    obtain ⟨e, hmem, hti, hw⟩ := post i _ hi
    obtain ⟨e', hmem', htj, hw'⟩ := post j _ hj
    have hc : commits (calls i).session e = some (calls i) := by simp [commits, hw]
    have hc' : commits (calls i).session e' = some (calls j) := by simp [commits, hw', hs]
    rw [← hti, ← htj, sound.inv.1.commit_unique hmem hmem' hc hc' he]

/-- Two controllers race for epoch 1 of a session: the first to swap is answered true, the other retries and finds it
taken. -/
theorem setIfNewer_atomic_race :
    let calls (i : Bool) : OwnershipRecord := ⟨"7", if i then "gw-a" else "gw-b", "gw-c", 1⟩
    ∃ c, Config.Reaches (bareSystem Bool) (startCalls .empty calls) c ∧
      c.pool false = .ret (true, none) ∧ c.pool true = .ret (false, none) ∧
      Silent true c.world ∧ SawNewer true (calls true) c.world := by
  intro calls
  obtain ⟨c, reach, done⟩ := Config.reaches_of_run_any
    (bareSystem Bool) ([false, true, false, true, false, true, true, true, true].map (·, ()))
    (startCalls .empty calls)
    (fun c => (c.pool false).result? = some (true, none) ∧ (c.pool true).result? = some (false, none))
    (by decide)
  have hfalse := Prog.eq_ret_of_result done.1
  have htrue := Prog.eq_ret_of_result done.2
  exact ⟨c, reach, hfalse, htrue, (setIfNewer_atomic .empty calls reach).2.2.1 true htrue⟩

end Calls

/-! ## Well-keyed stores -/

/-- Records are stored under their sessions. -/
def WellKeyed (m : MemStore) : Prop := ∀ sid r, ownershipIn m sid = some r → r.session = sid

def Keyed (m₀ : MemStore) (w : StoreWorld ι X E) : Prop := ∀ sid, ∀ r ∈ ledger m₀ w.hist sid, r.session = sid

section Keyed

variable {m₀ : MemStore} {w : StoreWorld ι X E}

omit [DecidableEq ι] in
theorem WellKeyed.keyed (keyed : WellKeyed m₀) (s : Disk ι × E) : Keyed m₀ (⟨s, []⟩ : StoreWorld ι X E) :=
  fun sid r hr => keyed sid r (by simpa [ledger] using hr)

omit [DecidableEq ι] in
theorem Keyed.push (keyed : Keyed m₀ w) {o : (StoreSig.sum X).Op} {r : (StoreSig.sum X).Res o} {s' : Disk ι × E}
    (writes : ∀ p, written o r = some p → ∃ rec : OwnershipRecord, p = (sessionKey rec.session, .ownership rec)) :
    Keyed m₀ (w.push i o r s') := by
  intro sid x hx
  rw [ledger_push] at hx
  rcases List.mem_append.1 hx with hx | hx
  · exact keyed sid x hx
  · have hcommit : commits sid ⟨i, o, r, w.st, s'⟩ = some x := by simpa using hx
    unfold commits at hcommit
    split at hcommit
    · obtain ⟨rec, hrec⟩ := writes _ ‹_›
      cases hrec
      split_ifs at hcommit with hkey
      cases hcommit
      exact sessionKey_inj.1 hkey
    · cases hcommit

theorem triple_ownershipGet {after : Prog (StoreSig.sum X) (Option String)} (sid : String)
    (tells : ∀ w, C.inv w → Ledger m₀ w)
    (keeps : ∀ w ω (r : Option Doc) s', C.inv w →
      ((storeSystem ι Ω).sum ext).exec ω i (.inl (.memGet (sessionKey sid))) w.st = some (r, s') →
      C.guar i w (w.push i (.inl (.memGet (sessionKey sid))) r s') ∧
        C.inv (w.push i (.inl (.memGet (sessionKey sid))) r s')) :
    Triple C ((storeSystem ι Ω).sum ext) i (fun _ => True) (ownershipGet (storeThen after) sid)
      fun res w => ∀ rec, res = .ok (some rec) → rec ∈ ledger m₀ w.hist sid := by
  rw [ownershipGet_storeThen]
  refine Triple.op (R := fun data w => ∀ rec, decodeOwnership data = .ok (some rec) →
    rec ∈ ledger m₀ w.hist sid) (fun _ _ _ _ => trivial) ?_ fun data => Triple.ret ?_ fun _ _ h => h
  · intro w ω data s' inv _ hex
    obtain ⟨hg, inv'⟩ := keeps w ω data s' inv hex
    refine ⟨hg, inv', fun rec hrec => ?_⟩
    cases hex
    have stored := ((tells w inv).stored sid).symm.trans (decodeOwnership_eq_some.1 hrec)
    exact mem_ledger_push (List.mem_of_getLast? stored) i _ _ _
  · exact (Persistent.all fun rec => persistent_mem_ledger.imp).stable

end Keyed

namespace Trial

def atFive : MemStore := MemStore.empty.put (sessionKey "7") (.ownership ⟨"7", "gw-a", "gw-b", 5⟩)

theorem wellKeyed_atFive : WellKeyed atFive := by
  intro sid r hr
  by_cases hsid : sessionKey sid = sessionKey "7"
  · obtain rfl := sessionKey_inj.1 hsid
    rw [atFive, ownershipIn_put_self MemStore.empty (by decide)] at hr
    cases hr
    rfl
  · rw [atFive, ownershipIn_put_ne _ _ hsid] at hr
    cases hr

end Trial

end Egressa
