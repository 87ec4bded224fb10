import Egressa.Control.Failover

/-!
# Coherence of the failover cache

What a controller has cached of a session should be the record committed at the cached epoch, but for the egress once
an emergency failover has changed it (`Committed`).  `EmergencyFailover` writes back the record it has read, under the
epoch it finds then.
-/

namespace Egressa.Failover

open Conc

variable {ι κ : Type} [DecidableEq ι] [DecidableEq κ] {m₀ : MemStore} {i : ι} {k : κ} {session : String}

def startFailover (m₀ : MemStore) (calls : ι → Call κ) : Config ι (MemSig κ) (Disk ι × (κ → ConfigCache)) Unit where
  pool i := (calls i).run memStore onCache
  world := ⟨({ mem := m₀ }, fun _ => .empty), []⟩

/-- The cached record is one of those committed for the session, at the cached epoch; its egress is
another one at most if there was an emergency failover since. -/
def Committed (committed : List OwnershipRecord) (cs : CachedSession) : Prop :=
  cs.record.epoch = cs.epoch.global ∧ ∃ r ∈ committed, r.epoch = cs.epoch.global ∧
    cs.record = { r with egress := cs.record.egress } ∧ (cs.epoch.loc = 0 → cs.record = r)

/-- An operation on the caches `caches`; an emergency failover finds the epoch of the record it has read, and
the local part does not wrap. -/
def FindsItsRecord (caches : κ → ConfigCache) : (MemSig κ).Op → Prop
  | .inr (.bumpLocal k session rec) => ∀ cs ∈ (caches k).ownership session,
      cs.epoch.global = rec.epoch ∧ cs.epoch.loc ≠ 18446744073709551615
  | _ => True

instance (caches : κ → ConfigCache) : (o : (MemSig κ).Op) → Decidable (FindsItsRecord caches o)
  | .inr (.bumpLocal _ _ _) => inferInstanceAs (Decidable (∀ cs ∈ _, _))
  | .inr (.storeOwnership _ _) | .inr (.ownership _ _) | .inl _ => inferInstanceAs (Decidable True)

/-- No other call has cached a record of another epoch since an emergency failover has read its own. -/
def Undisturbed (e : Entry ι (MemSig κ) (Disk ι × (κ → ConfigCache))) : Prop := FindsItsRecord e.pre.2 e.op

instance (e : Entry ι (MemSig κ) (Disk ι × (κ → ConfigCache))) : Decidable (Undisturbed e) :=
  inferInstanceAs (Decidable (FindsItsRecord _ _))

theorem Committed.mono {l l' : List OwnershipRecord} {cs : CachedSession} (h : Committed l cs) (sub : l ⊆ l') :
    Committed l' cs := by
  obtain ⟨epoch, r, hr, rest⟩ := h
  exact ⟨epoch, r, sub hr, rest⟩

theorem Committed.of_mem {l : List OwnershipRecord} {rec : OwnershipRecord} (h : rec ∈ l) :
    Committed l ⟨rec, ⟨rec.epoch, 0⟩⟩ :=
  ⟨rfl, rec, h, rfl, rfl, fun _ => rfl⟩

theorem Committed.bump {l : List OwnershipRecord} {cs found : CachedSession} (h : Committed l cs)
    (hglobal : found.epoch.global = cs.record.epoch) (hloc : found.epoch.loc ≠ 18446744073709551615)
    (newEgress : String) :
    Committed l ⟨{ cs.record with egress := newEgress }, { found.epoch with loc := found.epoch.loc + 1 }⟩ := by
  obtain ⟨epoch, r, hr, hepoch, hrecord, -⟩ := h
  refine ⟨hglobal.symm, r, hr, ?_, ?_, fun hzero => ?_⟩
  · rw [hepoch, ← epoch]
    exact hglobal.symm
  · rw [hrecord]
  · exact absurd hzero (succ_ne_zero_of_ne_max hloc)

/-! ## The contract -/

/-- No call of the history was disturbed. -/
def Quiet (w : CacheWorld ι κ) : Prop := ∀ e ∈ w.hist, Undisturbed e

/-- Caches hold records that were stored. -/
def Coherent (m₀ : MemStore) (w : CacheWorld ι κ) : Prop :=
  ∀ k session cs, (w.st.2 k).ownership session = some cs → Committed (ledger m₀ w.hist session) cs

def cacheContract (m₀ : MemStore) : Contract ι (MemSig κ) (Disk ι × (κ → ConfigCache)) where
  inv w := Ledger m₀ w ∧ (∀ sid, ∀ r ∈ ledger m₀ w.hist sid, r.session = sid) ∧ (Quiet w → Coherent m₀ w)
  guar _ _ _ := True

variable {w : CacheWorld ι κ}
  {o : (MemSig κ).Op} {r : (MemSig κ).Res o} {s' : Disk ι × (κ → ConfigCache)}

omit [DecidableEq ι] [DecidableEq κ] in
theorem Quiet.of_push (h : Quiet (w.push i o r s')) : Quiet w ∧ Undisturbed ⟨i, o, r, w.st, s'⟩ :=
  ⟨fun e he => h e (List.mem_append_left _ he), h _ (List.mem_append_right _ (List.mem_singleton_self _))⟩

theorem cache_push (inv : (cacheContract m₀).inv w) (hex : (memSystem ι κ).exec () i o w.st = some (r, s'))
    (hw : written o r = none) (cached : Quiet (w.push i o r s') → Coherent m₀ w → ∀ k session cs,
      (s'.2 k).ownership session = some cs → Committed (ledger m₀ w.hist session) cs) :
    (cacheContract m₀).inv (w.push i o r s') := by
  refine ⟨inv.1.push_other hex fun p sid hp => by simp [hw] at hp, Keyed.push inv.2.1 (by simp [hw]), ?_⟩
  intro quiet k session cs hcs
  rw [ledger_push_silent hw]
  exact cached quiet (inv.2.2 quiet.of_push.1) k session cs hcs

theorem cache_push_same (inv : (cacheContract m₀).inv w) (hex : (memSystem ι κ).exec () i o w.st = some (r, s'))
    (hw : written o r = none) (same : s'.2 = w.st.2) : (cacheContract m₀).inv (w.push i o r s') :=
  cache_push inv hex hw fun _ coherent => by rw [same]; exact coherent

def Held (k : κ) (session : String) (w : CacheWorld ι κ) : Prop :=
  ((w.st.2 k).ownership session).isSome = true

theorem stable_held (k : κ) (session : String) : Stable (cacheContract m₀) (memSystem ι κ) i (Held k session) := by
  rintro w w' ⟨j, -, ⟨ω, o, r, s', hex, rfl⟩, -⟩ h
  unfold Held at h ⊢
  rw [World.push_st]
  cases o with
  | inl o => rwa [exec_inl_snd hex]
  | inr o =>
    cases o with
    | ownership k' session' => rwa [(exec_ownership hex).2]
    | storeOwnership k' rec =>
      rw [exec_storeOwnership hex, ownership_update_storeOwnership]
      split_ifs
      · rfl
      · exact h
    | bumpLocal k' session' rec =>
      rw [exec_bumpLocal hex]
      by_cases hk : k = k'
      · subst hk
        simp only [Function.update_self, ConfigCache.bumpLocal, ConfigCache.ownership]
        by_cases hs : session = session'
        · subst hs
          rw [AList.lookup_insert]
          rfl
        · rw [AList.lookup_insert_ne hs]
          exact h
      · rwa [Function.update_of_ne hk]

def Known (m₀ : MemStore) (session : String) (cs : CachedSession)
    (w : CacheWorld ι κ) : Prop :=
  Quiet w → Committed (ledger m₀ w.hist session) cs

omit [DecidableEq ι] [DecidableEq κ] in
theorem persistent_known (session : String) (cs : CachedSession) :
    Persistent (Known m₀ session cs : CacheWorld ι κ → Prop) :=
  fun _ j o r s' h quiet => (h quiet.of_push.1).mono fun _ hr => mem_ledger_push hr j o r s'

/-! ## The calls -/

abbrev Keeping (m₀ : MemStore) (i : ι) {α : Type} (P : CacheWorld ι κ → Prop) (p : Prog (MemSig κ) α)
    (Q : α → CacheWorld ι κ → Prop) : Prop :=
  Triple (cacheContract m₀) (memSystem ι κ) i P p Q

theorem always : Stable (cacheContract m₀) (memSystem ι κ) i fun _ => True := fun _ _ _ _ => trivial

theorem triple_get (session : String) :
    Triple (cacheContract m₀) (memSystem ι κ) i (fun _ => True) (ownershipGet memStore session)
      fun res w => ∀ rec, res = .ok (some rec) → rec ∈ ledger m₀ w.hist session :=
  triple_ownershipGet session (fun _ inv => inv.1) fun _ _ _ _ inv hex =>
    ⟨trivial, cache_push_same inv hex rfl (exec_inl_snd hex)⟩

theorem triple_setIfNewer (rec : OwnershipRecord) :
    Triple (cacheContract m₀) (memSystem ι κ) i (fun _ => True) (setIfNewer memStore rec)
      fun res w => res.1 = true → rec ∈ ledger m₀ w.hist rec.session := by
  intro w _ _
  refine wp_setIfNewer (P := fun _ => True)
    (Q := fun res w => res.1 = true → rec ∈ ledger m₀ w.hist rec.session) always
    (fun _ => persistent_mem_ledger.imp.stable)
    ?_ ?_ ?_ ?_ trivial
  · intro w ω o r s' inv _ peeks hex
    refine ⟨trivial, ?_, trivial⟩
    cases o with
    | inr o => cases peeks
    | inl o => exact cache_push_same inv hex peeks.written_eq (exec_inl_snd hex)
  · intro w ω o r s' inv _ hv sup hw hex
    have hmem : rec ∈ ledger m₀ (w.push i o r s').hist rec.session := by
      rw [ledger_push]
      exact List.mem_append_right _ (by simp [commits, hw])
    have same : s'.2 = w.st.2 := by
      cases o with
      | inr o => cases hw
      | inl o => exact exec_inl_snd hex
    refine ⟨trivial, ⟨inv.1.push_commit hex hw hv sup, Keyed.push inv.2.1 fun p hp => ?_, fun quiet => ?_⟩, ?_⟩
    · exact ⟨rec, Option.some.inj (hp.symm.trans hw)⟩
    · intro k session cs hcs
      rw [World.push_st, same] at hcs
      exact (inv.2.2 quiet.of_push.1 k session cs hcs).mono fun _ hr => mem_ledger_push hr i o r s'
    · exact fun w' env _ _ => persistent_mem_ledger.stable.env env hmem
  · intro _ _ _ _ _ _ h
    cases h
  · intro _ _ _ _ h
    cases h

def Found (m₀ : MemStore) (k : κ) (session : String) (cs : CachedSession)
    (w : CacheWorld ι κ) : Prop :=
  Known m₀ session cs w ∧ Held k session w

section

variable (k : κ)

theorem stable_found (session : String) (cs : CachedSession) :
    Stable (cacheContract m₀) (memSystem ι κ) i (Found m₀ k session cs) :=
  (persistent_known session cs).stable.and (stable_held k session)

theorem triple_read (session : String) : Keeping m₀ i (fun _ => True) (onCache (.ownership k session))
      fun res w => ∀ cs, res = some cs → Found m₀ k session cs w := by
  refine Triple.op (R := fun res w => ∀ cs, res = some cs → Found m₀ k session cs w) always ?_
    fun res => Triple.ret ?_ fun _ _ h => h
  · intro w ω res s' inv _ hex
    obtain ⟨hres, rfl⟩ := exec_ownership hex
    refine ⟨trivial, cache_push_same inv hex rfl rfl, fun cs hcs => ⟨?_, ?_⟩⟩
    · apply persistent_known
      intro quiet
      exact inv.2.2 quiet k session cs (hres.symm.trans hcs)
    · change ((w.st.2 k).ownership session).isSome = true
      rw [← hres, hcs]
      rfl
  · exact fun w w' other h cs hcs => stable_found k session cs w w' other (h cs hcs)

theorem triple_store (rec : OwnershipRecord) : Keeping m₀ i (fun w => rec ∈ ledger m₀ w.hist rec.session)
      (onCache (.storeOwnership k rec)) fun _ _ => True := by
  refine Triple.op (R := fun _ _ => True) persistent_mem_ledger.stable ?_ fun _ => Triple.done _
  intro w ω res s' inv hrec hex
  refine ⟨trivial, cache_push inv hex rfl fun quiet coherent k' session cs hcs => ?_, trivial⟩
  rw [exec_storeOwnership hex, ownership_update_storeOwnership] at hcs
  split_ifs at hcs with hs
  · cases hcs
    rw [hs.2]
    exact Committed.of_mem hrec
  · exact coherent k' session cs hcs

theorem triple_bump (session newEgress : String) (cs : CachedSession) : Keeping m₀ i (Found m₀ k session cs)
      (onCache (.bumpLocal k session { cs.record with egress := newEgress })) fun _ _ => True := by
  refine Triple.op (R := fun _ _ => True) (stable_found k session cs) ?_ fun _ => Triple.done _
  intro w ω res s' inv found hex
  refine ⟨trivial, cache_push inv hex rfl fun quiet coherent k' session' cs' hcs' => ?_, trivial⟩
  obtain ⟨quiet, undisturbed⟩ := quiet.of_push
  obtain ⟨here, hhere⟩ := Option.isSome_iff_exists.1 found.2
  obtain ⟨hglobal, hloc⟩ := undisturbed here hhere
  rw [exec_bumpLocal hex, ownership_update_bumpLocal _ _ _ _ hhere] at hcs'
  split_ifs at hcs' with hs
  · cases hcs'
    rw [hs.2]
    exact (found.1 quiet).bump hglobal hloc newEgress
  · exact coherent k' session' cs' hcs'

theorem triple_store_of_mem (session : String) (rec : OwnershipRecord) :
    Keeping m₀ i (fun w => rec ∈ ledger m₀ w.hist session) (onCache (.storeOwnership k rec)) fun _ _ => True := by
  refine (triple_store k rec).pre fun w inv hrec => ?_
  rwa [inv.2.1 session rec hrec]

theorem triple_refresh (session : String) : Keeping m₀ i (fun _ => True) (refresh memStore onCache k session)
      fun _ _ => True := by
  refine Triple.bind (triple_get session) fun res => ?_
  rcases res with e | _ | rec
  · exact Triple.done _
  · exact Triple.done _
  · refine Triple.bind ((triple_store_of_mem k session rec).pre fun w _ h => h rec rfl) fun _ => ?_
    exact Triple.done _

theorem triple_adopt (session : String) (candidate : OwnershipRecord) (res : Bool × Option String) : Keeping m₀ i
      (fun w => res.1 = true → candidate ∈ ledger m₀ w.hist candidate.session)
      (adopt memStore onCache k session candidate res) fun _ _ => True := by
  rcases res with ⟨applied, _ | e⟩
  · cases applied with
    | false =>
      refine Triple.bind ((triple_refresh k session).pre fun _ _ _ => trivial) fun _ => ?_
      exact Triple.done _
    | true =>
      refine Triple.bind ((triple_store k candidate).pre fun w _ h => h rfl) fun _ => ?_
      exact Triple.done _
  · exact Triple.done _

theorem triple_attemptPlannedMigration (session newEgress : String) : Keeping m₀ i (fun _ => True)
      (attemptPlannedMigration memStore onCache k session newEgress) fun _ _ => True := by
  refine Triple.bind (triple_read k session) fun res => ?_
  cases res with
  | none => exact Triple.done _
  | some cs =>
    refine Triple.bind ((triple_setIfNewer _).pre fun _ _ _ => trivial) fun res => ?_
    refine Triple.bind (triple_adopt k session _ res) fun res => ?_
    rcases res with ⟨applied, _ | e⟩
    · exact Triple.done _
    · exact Triple.done _

theorem triple_emergencyFailover (session newEgress : String) : Keeping m₀ i (fun _ => True)
      (emergencyFailover onCache k session newEgress) fun _ _ => True := by
  refine Triple.bind (triple_read k session) fun res => ?_
  cases res with
  | none => exact Triple.done _
  | some cs =>
    refine Triple.bind ((triple_bump k session newEgress cs).pre fun w _ h => h cs rfl) fun _ => ?_
    exact Triple.done _

theorem triple_settle (session : String) (cs : CachedSession) (newer : Option OwnershipRecord) : Keeping m₀ i
      (fun w => ∀ rec, newer = some rec → rec ∈ ledger m₀ w.hist session)
      (settle memStore onCache k session cs newer) fun _ _ => True := by
  cases newer with
  | some rec =>
    refine Triple.bind ((triple_store_of_mem k session rec).pre fun w _ h => h rec rfl) fun _ => ?_
    exact Triple.done _
  | none =>
    unfold settle
    dsimp only
    split_ifs
    · exact Triple.done _
    · exact Triple.bind ((triple_setIfNewer _).pre fun _ _ _ => trivial) fun res =>
        triple_adopt k session _ res

theorem triple_reconcile (session : String) : Keeping m₀ i (fun _ => True) (reconcile memStore onCache k session)
      fun _ _ => True := by
  refine Triple.bind (triple_read k session) fun res => ?_
  cases res with
  | none => exact Triple.done _
  | some cs =>
    refine Triple.bind ((triple_get session).pre fun _ _ _ => trivial) fun res => ?_
    cases res with
    | error e => exact Triple.done _
    | ok current =>
      refine (triple_settle k session cs _).pre fun w _ h rec hrec => ?_
      exact h rec (by rw [(Option.filter_eq_some_iff.1 hrec).1])

end

theorem triple_call (call : Call κ) : Keeping m₀ i (fun _ => True) (call.run memStore onCache) fun _ _ => True := by
  cases call with
  | refresh k session => exact Triple.bind (triple_refresh k session) fun _ => Triple.done _
  | attemptPlannedMigration k session newEgress =>
    exact Triple.bind (triple_attemptPlannedMigration k session newEgress) fun _ => Triple.done _
  | emergencyFailover k session newEgress =>
    exact Triple.bind (triple_emergencyFailover k session newEgress) fun _ => Triple.done _
  | reconcile k session => exact Triple.bind (triple_reconcile k session) fun _ => Triple.done _
  | setIfNewer rec =>
    exact Triple.bind (triple_setIfNewer rec) fun _ => Triple.done _

/-! ## Runs -/

/-- However calls on any controllers interleave: if each emergency failover finds the epoch of the record it has read,
what is cached of a session is the record committed at its epoch, but for the egress after an emergency failover. -/
theorem cache_coherent {m₀ : MemStore} (keyed : WellKeyed m₀) (calls : ι → Call κ)
    {c : Config ι (MemSig κ) (Disk ι × (κ → ConfigCache)) Unit}
    (reach : Config.Reaches (memSystem ι κ) (startFailover m₀ calls) c)
    (undisturbed : ∀ e ∈ c.world.hist, Undisturbed e) (k : κ) (session : String) (cs : CachedSession)
    (cached : (c.world.st.2 k).ownership session = some cs) :
    cs.record.epoch = cs.epoch.global ∧ ∃ r, (r ∈ ledger m₀ c.world.hist session ∧ r.epoch = cs.epoch.global ∧
          ∀ r' ∈ ledger m₀ c.world.hist session, r'.epoch = cs.epoch.global → r' = r) ∧
        cs.record = { r with egress := cs.record.egress } ∧ (cs.epoch.loc = 0 → cs.record = r) := by
  have start : Sound (cacheContract m₀) (memSystem ι κ) (fun _ _ _ => True) (startFailover m₀ calls) := by
    have inv : (cacheContract m₀).inv (startFailover m₀ calls).world := by
      refine ⟨Ledger.init (startFailover m₀ calls).world.st, keyed.keyed _, fun _ k session cs hcs => ?_⟩
      cases hcs
    exact ⟨inv, fun i => triple_call (calls i) _ inv trivial⟩
  have sound := start.reaches reach
  obtain ⟨epoch, r, hr, hepoch, hrecord, hsame⟩ := sound.inv.2.2 undisturbed k session cs cached
  refine ⟨epoch, r, ⟨hr, hepoch, fun r' hr' hepoch' => ?_⟩, hrecord, hsame⟩
  exact sound.inv.1.eq_of_epoch hr' hr (hepoch'.trans hepoch.symm)

namespace Sample

def moves : Fin 3 → Call Unit
  | 0 => .refresh () "7"
  | 1 => .emergencyFailover () "7" "gw-x"
  | 2 => .attemptPlannedMigration () "7" "gw-y"

end Sample

theorem cache_coherent_migrated :
    ∃ c, Config.Reaches (memSystem (Fin 3) Unit) (startFailover Trial.atFive Sample.moves) c ∧
      (∀ e ∈ c.world.hist, Undisturbed e) ∧
      (c.world.st.2 ()).ownership "7" = some ⟨⟨"7", "gw-a", "gw-y", 6⟩, ⟨6, 0⟩⟩ ∧
      ∃ r ∈ ledger Trial.atFive c.world.hist "7", r.epoch = 6 ∧ ⟨"7", "gw-a", "gw-y", 6⟩ = r := by
  obtain ⟨c, reach, undisturbed, cached⟩ := Config.reaches_of_run_any (memSystem (Fin 3) Unit)
    ([0, 0, 1, 1, 2, 2, 2, 2, 2, 2].map (·, ())) (startFailover Trial.atFive Sample.moves)
    (fun c => (∀ e ∈ c.world.hist, Undisturbed e) ∧
      (c.world.st.2 ()).ownership "7" = some ⟨⟨"7", "gw-a", "gw-y", 6⟩, ⟨6, 0⟩⟩) (by decide)
  obtain ⟨-, r, ⟨hr, hepoch, -⟩, -, hsame⟩ := cache_coherent Trial.wellKeyed_atFive Sample.moves reach
    undisturbed () "7" _ cached
  exact ⟨c, reach, undisturbed, cached, r, hr, hepoch, hsame rfl⟩

/-- The migration is cached between the two steps of the emergency failover: the record of epoch 5 stands
under epoch 6. -/
theorem stale_record_cached : WellKeyed Trial.atFive ∧
    ∃ c, Config.Reaches (memSystem (Fin 3) Unit) (startFailover Trial.atFive Sample.moves) c ∧
      (c.world.st.2 ()).ownership "7" = some ⟨⟨"7", "gw-a", "gw-x", 5⟩, ⟨6, 1⟩⟩ := by
  refine ⟨Trial.wellKeyed_atFive, ?_⟩
  exact Config.reaches_of_run_any (memSystem (Fin 3) Unit)
    ([0, 0, 1, 2, 2, 2, 2, 2, 2, 1].map (·, ())) (startFailover Trial.atFive Sample.moves)
    (fun c => (c.world.st.2 ()).ownership "7" = some ⟨⟨"7", "gw-a", "gw-x", 5⟩, ⟨6, 1⟩⟩) (by decide)

end Egressa.Failover
