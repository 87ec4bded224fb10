import Egressa.Control.Failover
import Egressa.Control.Retries

/-!
# Reconciling emergency failovers

Several controllers have cached a session at one epoch, and each has moved it to an egress of its own while the store
could not be reached.  Each then calls `Reconcile` once, and no one else writes.
-/

namespace Egressa.Failover

open Conc

/-! ## The calls before -/

def ConfigCache.failOver (session : String) (c : ConfigCache) (newEgress : String) : ConfigCache :=
  match c.ownership session with
  | none => c
  | some cs => (c.bumpLocal session { cs.record with egress := newEgress }).2

/-- The cache of a controller that has refreshed the session of `rec`, and moved it to one egress after
the other. -/
def ConfigCache.moved (c : ConfigCache) (rec : OwnershipRecord) (egresses : List String) : ConfigCache :=
  egresses.foldl (ConfigCache.failOver rec.session) (c.storeOwnership rec)

theorem ConfigCache.ownership_moved (c : ConfigCache) (rec : OwnershipRecord) (egresses : List String) :
    (c.moved rec egresses).ownership rec.session = some ⟨{ rec with egress := egresses.getLast?.getD rec.egress },
        ⟨rec.epoch, UInt64.ofNat egresses.length⟩⟩ := by
  induction egresses using List.reverseRecOn with
  | nil =>
    rw [moved, List.foldl_nil, ownership_storeOwnership, if_pos rfl]
    rfl
  | append_singleton egresses e ih =>
    rw [moved, List.foldl_append, List.foldl_cons, List.foldl_nil, ← moved, failOver, ih]
    dsimp only
    rw [ownership_bumpLocal _ _ ih, if_pos rfl, List.getLast?_concat, List.length_append,
      List.length_singleton, UInt64.ofNat_add]
    rfl

section Before

variable {ι κ : Type} [DecidableEq ι] [DecidableEq κ] (k : κ)

/-- One emergency after another. -/
def failOvers (session : String) : List String → Prog (MemSig κ) Unit
  | [] => return ()
  | e :: egresses => do
    let _ ← emergencyFailover onCache k session e
    failOvers session egresses

theorem eval_emergencyFailover (session newEgress : String) (i : ι) (n : ℕ) (s : Disk ι × (κ → ConfigCache)) :
    ∃ res, (emergencyFailover onCache k session newEgress).eval (memSystem ι κ) () i n s =
      some (res, s.1, Function.update s.2 k ((s.2 k).failOver session newEgress)) := by
  have hread : (onCache (.ownership k session)).eval (memSystem ι κ) () i n s =
      some ((s.2 k).ownership session, s) := rfl
  rw [emergencyFailover, Prog.eval_bind, hread, ConfigCache.failOver]
  change ∃ res, Prog.eval _ _ _ _ _ s = _
  cases (s.2 k).ownership session with
  | none => exact ⟨_, by rw [Function.update_eq_self]; rfl⟩
  | some cs => exact ⟨_, rfl⟩

theorem eval_failOvers (session : String) (egresses : List String) (i : ι) (n : ℕ) (s : Disk ι × (κ → ConfigCache)) :
    (failOvers k session egresses).eval (memSystem ι κ) () i n s =
      some ((), s.1, Function.update s.2 k (egresses.foldl (ConfigCache.failOver session) (s.2 k))) := by
  induction egresses generalizing s with
  | nil => simp [failOvers, Prog.eval]
  | cons e egresses ih =>
    obtain ⟨res, hres⟩ := eval_emergencyFailover k session e i n s
    rw [failOvers, Prog.eval_bind, hres, Option.bind_some, ih]
    simp

/-- A controller that refreshes a session and moves it, undisturbed, is left with `ConfigCache.moved`. -/
theorem eval_moved {rec : OwnershipRecord} {s : Disk ι × (κ → ConfigCache)}
    (stored : ownershipIn s.1.mem rec.session = some rec) (egresses : List String) (i : ι) (n : ℕ) :
    (do let _ ← refresh memStore onCache k rec.session
        failOvers k rec.session egresses : Prog (MemSig κ) Unit).eval (memSystem ι κ) () i n s =
      some ((), s.1, Function.update s.2 k ((s.2 k).moved rec egresses)) := by
  have hget : (ownershipGet memStore rec.session : Prog (MemSig κ) _).eval (memSystem ι κ) () i n s =
      some (.ok (some rec), s) := by
    rw [memStore, ownershipGet_storeThen]
    change some (decodeOwnership (s.1.mem.get (sessionKey rec.session)), s) = _
    rw [decodeOwnership_eq_some.2 stored]
  have hrefresh : (refresh memStore onCache k rec.session).eval (memSystem ι κ) () i n s =
      some (none, s.1, Function.update s.2 k ((s.2 k).storeOwnership rec)) := by
    rw [refresh, Prog.eval_bind, hget]
    rfl
  rw [Prog.eval_bind, hrefresh, Option.bind_some, eval_failOvers]
  simp [ConfigCache.moved]

/-- A controller that has refreshed a session and fails it over, as often as it may be, leaves the store alone, and
forwards to the last egress, by the stored epoch and the number of failovers. -/
theorem forwards_to_last_failover (rec : OwnershipRecord) {s : Disk ι × (κ → ConfigCache)}
    (stored : ownershipIn s.1.mem rec.session = some rec) (egresses : List String) (i : ι) (n : ℕ) :
    ∃ c, (do let _ ← refresh memStore onCache k rec.session
             failOvers k rec.session egresses : Prog (MemSig κ) Unit).eval (memSystem ι κ) () i n s =
        some ((), s.1, Function.update s.2 k c) ∧
      c.forward rec.session =
        some (egresses.getLast?.getD rec.egress, ⟨rec.epoch, UInt64.ofNat egresses.length⟩) :=
  ⟨_, eval_moved k stored egresses i n, by rw [ConfigCache.forward, ConfigCache.ownership_moved]; rfl⟩

theorem forwards_to_last_failover_twice : ∃ c : ConfigCache, c.forward "7" = some ("gw-y", ⟨5, 2⟩) := by
  obtain ⟨c, -, forward⟩ := forwards_to_last_failover () ⟨"7", "gw-a", "gw-b", 5⟩
    (s := (({ mem := Trial.atFive } : Disk Unit), fun _ => .empty)) (by decide) ["gw-x", "gw-y"] () 0
  exact ⟨c, forward⟩

end Before

/-! ## The race -/

section Race

variable {ι : Type} [DecidableEq ι]

def startReconcile (m₀ : MemStore) (rec : OwnershipRecord) (caches : ι → ConfigCache) :
    Config ι (MemSig ι) (Disk ι × (ι → ConfigCache)) (Bool × Option String) where
  pool i := reconcile memStore onCache i rec.session
  world := ⟨({ mem := m₀ }, caches), []⟩

variable {rec : OwnershipRecord} {egress : ι → String} {i j : ι} {w : CacheWorld ι ι}

/-- No gateway has stored its change yet. -/
structure Open (rec : OwnershipRecord) (w : CacheWorld ι ι) : Prop where
  stored : ownershipIn w.st.1.mem rec.session = some rec
  silent : ∀ i, Silent i w

/-- The change of `j` is stored. -/
structure Won (rec : OwnershipRecord) (egress : ι → String) (j : ι)
    (w : CacheWorld ι ι) : Prop where
  stored : ownershipIn w.st.1.mem rec.session = some (rec.nextEpoch (egress j))
  wrote : Wrote j (rec.nextEpoch (egress j)) w
  silent : ∀ i, i ≠ j → Silent i w
  once : writes w = 1

def raceContract (rec : OwnershipRecord) (egress : ι → String) :
    Contract ι (MemSig ι) (Disk ι × (ι → ConfigCache)) where
  inv w := Open rec w ∨ ∃ j, Won rec egress j w
  guar i w w' := (∀ k, k ≠ i → w'.st.2 k = w.st.2 k) ∧ ∀ j, Won rec egress j w → Won rec egress j w'

omit [DecidableEq ι] in
theorem Won.eq_of_not_silent (won : Won rec egress j w) (h : ¬ Silent i w) : i = j := by
  by_contra hne
  exact h (won.silent i hne)

omit [DecidableEq ι] in
theorem Won.not_silent (won : Won rec egress j w) : ¬ Silent j w := by
  intro silent
  obtain ⟨e, he, htid, hwritten⟩ := won.wrote
  rw [silent e he htid] at hwritten
  cases hwritten

omit [DecidableEq ι] in
theorem Open.writes_eq_zero (fresh : Open rec w) : writes w = 0 := by
  refine List.countP_eq_zero.2 fun e he => ?_
  simp [fresh.silent e.tid e he rfl]

theorem Won.push (won : Won rec egress j w) {o : (MemSig ι).Op} {r : (MemSig ι).Res o}
    {s' : Disk ι × (ι → ConfigCache)} (hex : (memSystem ι ι).exec () i o w.st = some (r, s'))
    (hw : written o r = none) : Won rec egress j (w.push i o r s') := by
  have hm := exec_mem hex
  simp only [hw] at hm
  obtain ⟨e, he, h⟩ := won.wrote
  refine ⟨?_, ⟨e, List.mem_append_left _ he, h⟩, fun k hk => (won.silent k hk).push_any fun _ => hw,
    (writes_push_of_none hw).trans won.once⟩
  rw [World.push_st, hm]
  exact won.stored

theorem race_push (inv : (raceContract rec egress).inv w) {o : (MemSig ι).Op} {r : (MemSig ι).Res o}
    {s' : Disk ι × (ι → ConfigCache)} (hex : (memSystem ι ι).exec () i o w.st = some (r, s'))
    (hw : written o r = none) (own : ∀ k, k ≠ i → s'.2 k = w.st.2 k) :
    (raceContract rec egress).guar i w (w.push i o r s') ∧ (raceContract rec egress).inv (w.push i o r s') := by
  refine ⟨⟨own, fun j won => won.push hex hw⟩, ?_⟩
  rcases inv with fresh | ⟨j, won⟩
  · refine Or.inl ⟨?_, fun k => (fresh.silent k).push_any fun _ => hw⟩
    have hm := exec_mem hex
    simp only [hw] at hm
    rw [World.push_st, hm]
    exact fresh.stored
  · exact Or.inr ⟨j, won.push hex hw⟩

theorem stable_won (j : ι) : Stable (raceContract rec egress) (memSystem ι ι) i (Won rec egress j) := by
  rintro w w' ⟨k, -, -, guar, -⟩ won
  exact guar.2 j won

/-- The cache of `i` has the change of `j`. -/
structure Settled (rec : OwnershipRecord) (egress : ι → String) (i j : ι)
    (w : CacheWorld ι ι) : Prop where
  won : Won rec egress j w
  cached : (w.st.2 i).ownership rec.session = some ⟨rec.nextEpoch (egress j), ⟨rec.epoch + 1, 0⟩⟩

theorem stable_settled (j : ι) : Stable (raceContract rec egress) (memSystem ι ι) i (Settled rec egress i j) := by
  rintro w w' ⟨k, hk, -, guar, -⟩ settled
  refine ⟨guar.2 j settled.won, ?_⟩
  rw [guar.1 i hk.symm]
  exact settled.cached

/-- The thread has not begun. -/
structure Waiting (init : ι → ConfigCache) (i : ι) (w : CacheWorld ι ι) : Prop where
  cache : w.st.2 i = init i
  silent : Silent i w

theorem stable_waiting (init : ι → ConfigCache) :
    Stable (raceContract rec egress) (memSystem ι ι) i (Waiting init i) := by
  rintro w w' ⟨k, hk, ⟨ω, o, r, s', -, rfl⟩, guar, -⟩ waiting
  refine ⟨?_, waiting.silent.push_any fun h => absurd h hk⟩
  rw [guar.1 i hk.symm]
  exact waiting.cache

/-- Who wins keeps its change, the others take it. -/
def racePost (rec : OwnershipRecord) (egress : ι → String) (i : ι) :
    Bool × Option String → CacheWorld ι ι → Prop
  | (true, none), w => Settled rec egress i i w
  | (false, none), w => ∃ j, j ≠ i ∧ Settled rec egress i j w
  | (_, some _), _ => False

theorem triple_store_winner (j : ι) : Triple (raceContract rec egress) (memSystem ι ι) i (Won rec egress j)
      (onCache (.storeOwnership i (rec.nextEpoch (egress j)))) fun _ => Settled rec egress i j := by
  refine Triple.op (R := fun _ => Settled rec egress i j) (stable_won j) ?_
    fun _ => Triple.ret (stable_settled j) fun _ _ h => h
  intro w ω r s' inv won hex
  have hs := exec_storeOwnership hex
  have own : ∀ k, k ≠ i → s'.2 k = w.st.2 k := fun k hk => by rw [hs, Function.update_of_ne hk]
  obtain ⟨guar, inv'⟩ := race_push inv hex rfl own
  refine ⟨guar, inv', won.push hex rfl, ?_⟩
  change (s'.2 i).ownership rec.session = _
  rw [hs, ownership_update_storeOwnership, if_pos ⟨rfl, rfl⟩]
  rfl

theorem triple_get_session (init : ι → ConfigCache) :
    Triple (raceContract rec egress) (memSystem ι ι) i (Waiting init i) (ownershipGet memStore rec.session)
      fun res w => (res = .ok (some rec) ∧ Waiting init i w) ∨
        ∃ j, j ≠ i ∧ res = .ok (some (rec.nextEpoch (egress j))) ∧ Won rec egress j w := by
  rw [memStore, ownershipGet_storeThen]
  refine Triple.op (R := fun data w => (decodeOwnership data = .ok (some rec) ∧ Waiting init i w) ∨
    ∃ j, j ≠ i ∧ decodeOwnership data = .ok (some (rec.nextEpoch (egress j))) ∧ Won rec egress j w)
    (stable_waiting init) ?_ fun data => Triple.ret ?_ fun _ _ h => h
  · intro w ω data s' inv waiting hex
    have hs := exec_inl_snd hex
    obtain ⟨guar, inv'⟩ := race_push inv hex rfl fun k _ => by rw [hs]
    refine ⟨guar, inv', ?_⟩
    obtain ⟨rfl, rfl⟩ := Prod.mk.inj (Option.some.inj hex)
    rcases inv with fresh | ⟨j, won⟩
    · refine Or.inl ⟨decodeOwnership_eq_some.2 fresh.stored, waiting.cache, ?_⟩
      exact waiting.silent.push_any fun _ => rfl
    · refine Or.inr ⟨j, ?_, decodeOwnership_eq_some.2 won.stored, won.push hex rfl⟩
      rintro rfl
      exact won.not_silent waiting.silent
  · rintro w w' other (⟨hd, waiting⟩ | ⟨j, hj, hd, won⟩)
    · exact Or.inl ⟨hd, stable_waiting init w w' other waiting⟩
    · exact Or.inr ⟨j, hj, hd, stable_won j w w' other won⟩

theorem triple_refresh_winner (j : ι) : Triple (raceContract rec egress) (memSystem ι ι) i (Won rec egress j)
      (refresh memStore onCache i rec.session) fun _ => Settled rec egress i j := by
  rw [refresh, memStore, ownershipGet_storeThen]
  refine Triple.bind (R := fun res w => res = .ok (some (rec.nextEpoch (egress j))) ∧ Won rec egress j w)
    ?_ fun res => ?_
  · refine Triple.op (R := fun data w => decodeOwnership data = .ok (some (rec.nextEpoch (egress j))) ∧
      Won rec egress j w) (stable_won j) ?_ fun data => Triple.ret ?_ fun _ _ h => h
    · intro w ω data s' inv won hex
      have hs := exec_inl_snd hex
      obtain ⟨guar, inv'⟩ := race_push inv hex rfl fun k _ => by rw [hs]
      refine ⟨guar, inv', ?_, won.push hex rfl⟩
      cases hex
      exact decodeOwnership_eq_some.2 won.stored
    · rintro w w' other ⟨hd, won⟩
      exact ⟨hd, stable_won j w w' other won⟩
  · intro w inv ⟨hres, won⟩
    subst hres
    refine Triple.bind (Q := fun _ => Settled rec egress i j) (triple_store_winner j) (fun _ => ?_) w inv won
    exact Triple.ret (stable_settled j) fun _ _ h => h

theorem triple_setIfNewer_candidate (init : ι → ConfigCache)
    (hvalid : (rec.nextEpoch (egress i)).validate = .ok ()) (hrise : rec.epoch < rec.epoch + 1) :
    Triple (raceContract rec egress) (memSystem ι ι) i (Waiting init i)
      (setIfNewer memStore (rec.nextEpoch (egress i))) fun res w =>
        (res = (true, none) ∧ Won rec egress i w) ∨
        (res = (false, none) ∧ ∃ j, j ≠ i ∧ Won rec egress j w) := by
  intro w _ waiting
  refine wp_setIfNewer_cases (P := Waiting init i) (Q := fun res w =>
      (res = (true, none) ∧ Won rec egress i w) ∨
      (res = (false, none) ∧ ∃ j, j ≠ i ∧ Won rec egress j w))
    (stable_waiting init) ?_ ?_ ?_ ?_ ?_ waiting
  · rintro res w w' other (⟨hres, won⟩ | ⟨hres, j, hj, won⟩)
    · exact Or.inl ⟨hres, stable_won i w w' other won⟩
    · exact Or.inr ⟨hres, j, hj, stable_won j w w' other won⟩
  · intro w ω o r s' inv waiting peeks hex
    have hw := peeks.written_eq
    cases o with
    | inr o => cases peeks
    | inl o =>
      have hs := exec_inl_snd hex
      obtain ⟨guar, inv'⟩ := race_push inv hex hw fun k _ => by rw [hs]
      exact ⟨guar, inv', (congrFun hs i).trans waiting.cache, waiting.silent.push hw⟩
  · intro w ω o r s' inv waiting hv sup hw hex
    have hs : s'.2 = w.st.2 := by
      cases o with
      | inr o => cases hw
      | inl o => exact exec_inl_snd hex
    have hm := exec_mem hex
    simp only [hw] at hm
    -- the race must still be open: no two candidates differ in their epochs
    have fresh : Open rec w := by
      rcases inv with fresh | ⟨j, won⟩
      · exact fresh
      · rcases sup with hnone | ⟨old, hold, hlt⟩
        · cases (ownershipIn_eq_some.1 won.stored).1.symm.trans hnone
        · cases won.stored.symm.trans hold
          exact absurd hlt (UInt64.lt_irrefl _)
    have won : Won rec egress i (w.push i o r s') := by
      refine ⟨?_, ⟨⟨i, o, r, w.st, s'⟩, List.mem_append_right _ (List.mem_singleton_self _), rfl, hw⟩,
        fun k hk => (fresh.silent k).push_any fun h => absurd h.symm hk,
        by rw [writes_push_of_some hw, fresh.writes_eq_zero]⟩
      rw [World.push_st, hm]
      exact ownershipIn_put_self _ hv
    refine ⟨⟨fun k _ => by rw [World.push_st, hs], fun j won' => ?_⟩, Or.inr ⟨i, won⟩, fun w' env _ => ?_⟩
    · exact absurd (fresh.silent j) won'.not_silent
    · exact Or.inl ⟨rfl, (stable_won i).env env won⟩
  · intro w cur inv waiting hcur hnew
    rcases inv with fresh | ⟨j, won⟩
    · cases fresh.stored.symm.trans hcur
      exact absurd hrise (of_decide_eq_false hnew)
    · refine Or.inr ⟨rfl, j, ?_, won.push (i := i) (o := .inl (.memGet _)) (r := some (.ownership cur)) ?_ rfl⟩
      · rintro rfl
        exact won.not_silent waiting.silent
      · rw [← (ownershipIn_eq_some.1 hcur).1]
        rfl
  · intro w w' e inv _ hrefused
    have hstored : ∃ cur, ownershipIn w.st.1.mem rec.session = some cur := by
      rcases inv with fresh | ⟨j, won⟩
      · exact ⟨_, fresh.stored⟩
      · exact ⟨_, won.stored⟩
    obtain ⟨cur, hcur⟩ := hstored
    rcases hrefused with h | h
    · rw [hvalid] at h
      cases h
    · have : ownershipIn w.st.1.mem rec.session = none := by
        rw [ownershipIn]
        exact congrArg Except.toOption h
      rw [hcur] at this
      cases this

theorem triple_adopt_winner (res : Bool × Option String) : Triple (raceContract rec egress) (memSystem ι ι) i
      (fun w => (res = (true, none) ∧ Won rec egress i w) ∨ (res = (false, none) ∧ ∃ j, j ≠ i ∧ Won rec egress j w))
      (adopt memStore onCache i rec.session (rec.nextEpoch (egress i)) res) (racePost rec egress i) := by
  rintro w inv (⟨rfl, won⟩ | ⟨rfl, j, hj, won⟩)
  · refine Triple.bind (triple_store_winner i) (fun _ => ?_) w inv won
    exact Triple.ret (stable_settled i) fun _ _ h => h
  · refine Triple.bind (triple_refresh_winner j) (fun _ => ?_) w inv won
    exact Triple.ret (stable_settled j) fun _ _ h => ⟨j, hj, h⟩

theorem triple_reconcile_race (init : ι → ConfigCache) {n : UInt64}
    (hcached : (init i).ownership rec.session = some ⟨{ rec with egress := egress i }, ⟨rec.epoch, n⟩⟩)
    (hn : n ≠ 0) (hvalid : (rec.nextEpoch (egress i)).validate = .ok ()) (hrise : rec.epoch < rec.epoch + 1) :
    Triple (raceContract rec egress) (memSystem ι ι) i (Waiting init i)
      (reconcile memStore onCache i rec.session) (racePost rec egress i) := by
  refine Triple.bind (R := fun res w => res = some ⟨{ rec with egress := egress i }, ⟨rec.epoch, n⟩⟩ ∧
    Waiting init i w) ?_ fun res => ?_
  · refine Triple.op (R := fun res w => res = some ⟨{ rec with egress := egress i }, ⟨rec.epoch, n⟩⟩ ∧
      Waiting init i w) (stable_waiting init) ?_ fun res => Triple.ret ?_ fun _ _ h => h
    · intro w ω res s' inv waiting hex
      obtain ⟨guar, inv'⟩ := race_push inv hex rfl fun k _ => by rw [(exec_ownership hex).2]
      obtain ⟨hres, rfl⟩ := exec_ownership hex
      refine ⟨guar, inv', ?_, waiting.cache, waiting.silent.push rfl⟩
      rw [hres, waiting.cache, hcached]
    · rintro w w' other ⟨hres, waiting⟩
      exact ⟨hres, stable_waiting init w w' other waiting⟩
  · intro w inv ⟨hres, waiting⟩
    subst hres
    refine Triple.bind (triple_get_session init) (fun res => ?_) w inv waiting
    rintro w inv (⟨rfl, waiting⟩ | ⟨j, hj, rfl, won⟩)
    · have hnone : (some rec).filter (fun cur => decide (rec.epoch < cur.epoch)) = none := by
        simp [Option.filter]
      dsimp only [reconcileWith]
      rw [hnone]
      unfold settle
      dsimp only
      rw [if_neg hn]
      exact Triple.bind (triple_setIfNewer_candidate init hvalid hrise) triple_adopt_winner w inv waiting
    · have hsome : (some (rec.nextEpoch (egress j))).filter (fun cur => decide (rec.epoch < cur.epoch)) =
          some (rec.nextEpoch (egress j)) := by
        simp [Option.filter, OwnershipRecord.nextEpoch, hrise]
      dsimp only [reconcileWith]
      rw [hsome]
      refine Triple.bind (triple_store_winner j) (fun _ => ?_) w inv won
      exact Triple.ret (stable_settled j) fun _ _ h => ⟨j, hj, h⟩

/-! ## The calls return -/

section Returns

variable {n N : ℕ}

section

variable (session : String)

theorem triple_refresh_spent (hle : n + 2 ≤ N) :
    Triple (budget N) (memSystem ι ι) i (Spent n i) (refresh memStore onCache i session)
      fun _ => Spent (n + 2) i := by
  rw [refresh, memStore, ownershipGet_storeThen]
  refine triple_budget_op (by omega) fun data => ?_
  change Triple _ _ _ _ (Prog.ret (decodeOwnership data) >>= _) _
  rcases decodeOwnership data with e | _ | rec
  · exact Triple.ret stable_spent fun _ _ h => h.mono (Nat.le_succ _)
  · exact Triple.ret stable_spent fun _ _ h => h.mono (Nat.le_succ _)
  · exact triple_budget_op (by omega) fun _ => Triple.ret stable_spent fun _ _ h => h

theorem triple_adopt_spent (candidate : OwnershipRecord) (res : Bool × Option String) (hle : n + 2 ≤ N) :
    Triple (budget N) (memSystem ι ι) i (Spent n i) (adopt memStore onCache i session candidate res)
      fun _ => Spent (n + 2) i := by
  rcases res with ⟨applied, _ | e⟩
  · cases applied with
    | false =>
      exact Triple.bind (triple_refresh_spent session hle) fun _ => Triple.ret stable_spent fun _ _ h => h
    | true =>
      exact triple_budget_op (by omega) fun _ =>
        Triple.ret stable_spent fun _ _ h => h.mono (Nat.le_succ _)
  · exact Triple.ret stable_spent fun _ _ h => h.mono (Nat.le_add_right n 2)

theorem triple_reconcile_spent :
    Triple (budget 7) (memSystem ι ι) i (Spent 0 i) (reconcile memStore onCache i session) fun _ _ => True := by
  have done : ∀ {n : ℕ} (res : Bool × Option String),
      Triple (budget 7) (memSystem ι ι) i (Spent n i) (.ret res) fun _ _ => True :=
    fun _ => Triple.done _
  refine triple_budget_op (by omega) fun res => ?_
  cases res with
  | none => exact done _
  | some cs =>
    change Triple _ _ _ _ (ownershipGet memStore session >>= reconcileWith memStore onCache i session cs) _
    rw [memStore, ownershipGet_storeThen]
    refine triple_budget_op (by omega) fun data => ?_
    change Triple _ _ _ _ (reconcileWith memStore onCache i session cs (decodeOwnership data)) _
    cases decodeOwnership data with
    | error e => exact done _
    | ok current =>
      dsimp only [reconcileWith]
      cases current.filter fun rec => decide (cs.epoch.global < rec.epoch) with
      | some rec => exact triple_budget_op (by omega) fun _ => done _
      | none =>
        unfold settle
        dsimp only
        split_ifs
        · exact done _
        · refine Triple.bind (triple_setIfNewer_spent _ (by omega)) fun res => ?_
          exact (triple_adopt_spent session _ res (by omega)).post fun _ _ _ _ => trivial

omit [DecidableEq ι] in
theorem refresh_prompt : Follows prompt (refresh memStore onCache i session) (fun _ _ => True) () := by
  rw [refresh, memStore, ownershipGet_storeThen]
  intro data
  refine ⟨(), rfl, ?_⟩
  change Follows prompt (Prog.ret (decodeOwnership data) >>= _) _ _
  rcases decodeOwnership data with e | _ | rec
  · trivial
  · trivial
  · exact fun _ => ⟨(), rfl, trivial⟩

omit [DecidableEq ι] in
theorem adopt_prompt (candidate : OwnershipRecord) (res : Bool × Option String) :
    Follows prompt (adopt memStore onCache i session candidate res) (fun _ _ => True) () := by
  rcases res with ⟨applied, _ | e⟩
  · cases applied with
    | false => exact (refresh_prompt session).andThen fun _ _ _ => trivial
    | true => exact fun _ => ⟨(), rfl, trivial⟩
  · trivial

omit [DecidableEq ι] in
theorem reconcile_prompt : Follows prompt (reconcile memStore onCache i session) (fun _ _ => True) () := by
  intro res
  refine ⟨(), rfl, ?_⟩
  cases res with
  | none => trivial
  | some cs =>
    change Follows _ (ownershipGet memStore session >>= reconcileWith memStore onCache i session cs) _ _
    rw [memStore, ownershipGet_storeThen]
    intro data
    refine ⟨(), rfl, ?_⟩
    change Follows _ (reconcileWith memStore onCache i session cs (decodeOwnership data)) _ _
    cases decodeOwnership data with
    | error e => trivial
    | ok current =>
      dsimp only [reconcileWith]
      cases current.filter fun rec => decide (cs.epoch.global < rec.epoch) with
      | some rec => exact fun _ => ⟨(), rfl, trivial⟩
      | none =>
        unfold settle
        dsimp only
        split_ifs
        · trivial
        · exact (setIfNewer_prompt _).andThen fun res _ _ => adopt_prompt session _ res

end

end Returns

/-! ## The outcome -/

theorem validate_nextEpoch {rec : OwnershipRecord} (hv : rec.validate = .ok ()) {newEgress : String}
    (h : newEgress ≠ "") : (rec.nextEpoch newEgress).validate = .ok () := by
  unfold OwnershipRecord.validate at hv ⊢
  split_ifs at hv with hsession haccess hegress
  simp [OwnershipRecord.nextEpoch, hsession, haccess, h]

theorem ofNat_ne_zero {n : ℕ} (h : n % 18446744073709551616 ≠ 0) : UInt64.ofNat n ≠ 0 := by
  intro heq
  have := congrArg UInt64.toNat heq
  rw [UInt64.toNat_ofNat'] at this
  exact h this

theorem race_sound {m₀ : MemStore} (stored : ownershipIn m₀ rec.session = some rec) (caches : ι → ConfigCache)
    (egresses : ι → List String) (room : rec.epoch ≠ 18446744073709551615)
    (named : ∀ i, (egresses i).getLast?.getD rec.egress ≠ "")
    (counted : ∀ i, (egresses i).length % 18446744073709551616 ≠ 0) :
    Sound (raceContract rec fun i => (egresses i).getLast?.getD rec.egress) (memSystem ι ι)
      (racePost rec fun i => (egresses i).getLast?.getD rec.egress)
      (startReconcile m₀ rec fun i => (caches i).moved rec (egresses i)) := by
  have fresh : Open rec (startReconcile m₀ rec fun i => (caches i).moved rec (egresses i)).world :=
    ⟨stored, fun i e he => by cases he⟩
  refine ⟨Or.inl fresh, fun i => ?_⟩
  exact triple_reconcile_race (fun i => (caches i).moved rec (egresses i))
    ((caches i).ownership_moved rec (egresses i)) (ofNat_ne_zero (counted i))
    (validate_nextEpoch (ownershipIn_eq_some.1 stored).2 (named i)) (lt_succ_of_ne_max room) _ (Or.inl fresh)
    ⟨rfl, fresh.silent i⟩

/-- Each controller has refreshed the session at one epoch, moved it to one egress after the other, and calls
`Reconcile` once.  Each call makes ten operations at most, and never waits; when all have returned, one has won, and
its record is stored, and cached everywhere. -/
theorem reconcile_one_winner [Nonempty ι] {m₀ : MemStore} {rec : OwnershipRecord}
    (stored : ownershipIn m₀ rec.session = some rec) (caches : ι → ConfigCache) (egresses : ι → List String)
    (room : rec.epoch ≠ 18446744073709551615) (named : ∀ i, (egresses i).getLast? ≠ some "")
    (counted : ∀ i, (egresses i).length % 18446744073709551616 ≠ 0)
    {c : Config ι (MemSig ι) (Disk ι × (ι → ConfigCache)) (Bool × Option String)}
    (reach : Config.Reaches (memSystem ι ι) (startReconcile m₀ rec fun i => (caches i).moved rec (egresses i)) c) :
    (∀ i, ops i c.world ≤ 10 ∧ ((∃ res, c.pool i = .ret res) ∨ ∃ c', c.step? (memSystem ι ι) i () = some c')) ∧
    ((∀ i, ∃ res, c.pool i = .ret res) → ∃ i, ∃ egress ∈ (egresses i).getLast?,
      c.pool i = .ret (true, none) ∧ (∀ j, j ≠ i → c.pool j = .ret (false, none)) ∧
      ownershipIn c.world.st.1.mem rec.session = some ⟨rec.session, rec.access, egress, rec.epoch + 1⟩ ∧
      ∀ j, (c.world.st.2 j).ownership rec.session =
        some ⟨⟨rec.session, rec.access, egress, rec.epoch + 1⟩, ⟨rec.epoch + 1, 0⟩⟩) := by
  have last : ∀ i, ∃ e, (egresses i).getLast? = some e ∧ e ≠ "" := by
    intro i
    cases h : (egresses i).getLast? with
    | none => exact absurd (by rw [List.getLast?_eq_none_iff.1 h]; rfl) (counted i)
    | some e => exact ⟨e, rfl, fun he => named i (by rw [h, he])⟩
  have sound := (race_sound stored caches egresses room (fun i => by
    obtain ⟨e, he, hne⟩ := last i
    rwa [he]) counted).reaches reach
  constructor
  · intro i
    have spent : Sound (budget 7) (memSystem ι ι) (fun _ _ _ => True)
        (startReconcile m₀ rec fun i => (caches i).moved rec (egresses i)) :=
      ⟨fun _ => Nat.zero_le _, fun i => triple_reconcile_spent rec.session _ (fun _ => Nat.zero_le _) (Nat.zero_le _)⟩
    have hspent : ops i c.world ≤ 7 + 3 * writes c.world := (spent.reaches reach).inv i
    have hwrites : writes c.world ≤ 1 := by
      rcases sound.inv with fresh | ⟨j, won⟩
      · exact fresh.writes_eq_zero.le.trans (Nat.zero_le 1)
      · exact won.once.le
    refine ⟨by omega, ?_⟩
    have start : Tracked prompt (fun _ _ _ => True)
        (startReconcile m₀ rec fun i => (caches i).moved rec (egresses i)) fun _ => () :=
      fun i => reconcile_prompt rec.session
    obtain ⟨hs, tracked, -⟩ := start.reaches (I := fun _ _ => True) (fun _ _ _ _ _ _ _ _ _ _ _ => trivial) trivial
      reach
    refine returned_or_step tracked (fun ω i o s => ?_) i ()
    cases o <;> rfl
  · intro done
    -- whoever has returned knows of a winner, and there is only one
    have known : ∀ i, ∃ j, Settled rec (fun i => (egresses i).getLast?.getD rec.egress) i j c.world ∧
        c.pool i = .ret (decide (i = j), none) := by
      intro i
      obtain ⟨⟨applied, err⟩, hres⟩ := done i
      have post := sound.returned hres
      cases err with
      | some e => cases applied <;> exact post.elim
      | none =>
        cases applied with
        | true => exact ⟨i, post, by rw [hres, decide_eq_true rfl]⟩
        | false =>
          obtain ⟨j, hj, settled⟩ := post
          exact ⟨j, settled, by rw [hres, decide_eq_false hj.symm]⟩
    obtain ⟨i₀⟩ := ‹Nonempty ι›
    obtain ⟨i, ⟨won, -⟩, -⟩ := known i₀
    have same : ∀ j, Settled rec (fun i => (egresses i).getLast?.getD rec.egress) j i c.world ∧
        c.pool j = .ret (decide (j = i), none) := by
      intro j
      obtain ⟨i', settled, hres⟩ := known j
      obtain rfl : i' = i := won.eq_of_not_silent settled.won.not_silent
      exact ⟨settled, hres⟩
    obtain ⟨e, he, -⟩ := last i
    have stored := won.stored
    simp only [he, Option.getD_some] at stored
    refine ⟨i, e, he, by rw [(same i).2, decide_eq_true rfl],
      fun j hj => by rw [(same j).2, decide_eq_false hj], stored, fun j => ?_⟩
    have cached := (same j).1.cached
    simp only [he, Option.getD_some] at cached
    exact cached

end Race

namespace Sample

def both : Bool → List String
  | false => ["gw-x"]
  | true => ["gw-x", "gw-y"]

end Sample

theorem reconcile_one_winner_race :
    ∃ c, Config.Reaches (memSystem Bool Bool) (startReconcile Trial.atFive ⟨"7", "gw-a", "gw-b", 5⟩
        fun i => ConfigCache.empty.moved ⟨"7", "gw-a", "gw-b", 5⟩ (Sample.both i)) c ∧
      c.pool true = .ret (true, none) ∧ c.pool false = .ret (false, none) ∧
      ∀ j, (c.world.st.2 j).ownership "7" = some ⟨⟨"7", "gw-a", "gw-y", 6⟩, ⟨6, 0⟩⟩ := by
  obtain ⟨c, reach, hfalse, htrue⟩ := Config.reaches_of_run_any (memSystem Bool Bool)
    ((List.replicate 5 false ++ List.replicate 7 true ++ List.replicate 6 false).map (·, ()))
    (startReconcile Trial.atFive ⟨"7", "gw-a", "gw-b", 5⟩
      fun i => ConfigCache.empty.moved ⟨"7", "gw-a", "gw-b", 5⟩ (Sample.both i))
    (fun c => (c.pool false).result? = some (false, none) ∧ (c.pool true).result? = some (true, none))
    (by decide)
  have hfalse := Prog.eq_ret_of_result hfalse
  have htrue := Prog.eq_ret_of_result htrue
  have stored : ownershipIn Trial.atFive "7" = some ⟨"7", "gw-a", "gw-b", 5⟩ := by decide
  obtain ⟨i, e, he, hi, -, -, cached⟩ := (reconcile_one_winner stored (fun _ => .empty) Sample.both (by decide)
    (by decide) (by decide) reach).2 fun i => by cases i; exacts [⟨_, hfalse⟩, ⟨_, htrue⟩]
  cases i with
  | false => rw [hfalse] at hi; cases hi
  | true =>
    cases he
    exact ⟨c, reach, htrue, hfalse, cached⟩

/-- A controller that was moved to no egress cannot take that to the store, and is left behind. -/
theorem reconcile_unnamed_egress :
    ∃ c, Config.Reaches (memSystem Bool Bool) (startReconcile Trial.atFive ⟨"7", "gw-a", "gw-b", 5⟩
        fun i => ConfigCache.empty.moved ⟨"7", "gw-a", "gw-b", 5⟩ (if i then [""] else ["gw-x"])) c ∧
      (c.pool true).result? = some (false, some "control: OwnershipRecord.Egress must not be empty") ∧
      (c.pool false).result? = some (true, none) ∧
      ownershipIn c.world.st.1.mem "7" = some ⟨"7", "gw-a", "gw-x", 6⟩ ∧
      (c.world.st.2 true).ownership "7" = some ⟨⟨"7", "gw-a", "", 5⟩, ⟨5, 1⟩⟩ :=
  Config.reaches_of_run_any (memSystem Bool Bool) ((List.replicate 2 true ++ List.replicate 7 false).map (·, ()))
    (startReconcile Trial.atFive ⟨"7", "gw-a", "gw-b", 5⟩
      fun i => ConfigCache.empty.moved ⟨"7", "gw-a", "gw-b", 5⟩ (if i then [""] else ["gw-x"]))
    (fun c => (c.pool true).result? = some (false, some "control: OwnershipRecord.Egress must not be empty") ∧
      (c.pool false).result? = some (true, none) ∧
      ownershipIn c.world.st.1.mem "7" = some ⟨"7", "gw-a", "gw-x", 6⟩ ∧
      (c.world.st.2 true).ownership "7" = some ⟨⟨"7", "gw-a", "", 5⟩, ⟨5, 1⟩⟩) (by decide)

end Egressa.Failover
