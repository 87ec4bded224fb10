import Egressa.Control.SetIfNewer

/-!
# The failover controller

A `FailoverController` (`internal/control/failover.go`) forwards sessions by what its `ConfigCache` (`cache.go`)
holds, and so goes on when the store cannot be reached: an emergency failover changes the cached record alone, and
counts in the local part of the epoch.  Every method of a cache is one operation.  Its times and policy are left out.
-/

namespace Egressa.Failover

open Conc
open Function (update update_of_ne update_self)

/-! ## The cache -/

/-- `control.LocalEpoch`: the stored epoch and the local changes since. -/
structure LocalEpoch where
  global : UInt64
  loc : UInt64
  deriving DecidableEq, Repr, Inhabited

def LocalEpoch.less (e other : LocalEpoch) : Bool :=
  if e.global ≠ other.global then e.global < other.global else e.loc < other.loc

/-- A record with the epoch it is used under. -/
structure CachedSession where
  record : OwnershipRecord
  epoch : LocalEpoch
  deriving DecidableEq, Repr, Inhabited

structure ConfigCache where
  sessions : AList fun _ : String => CachedSession

namespace ConfigCache

def empty : ConfigCache := ⟨∅⟩

def storeOwnership (c : ConfigCache) (rec : OwnershipRecord) : ConfigCache :=
  ⟨c.sessions.insert rec.session ⟨rec, ⟨rec.epoch, 0⟩⟩⟩

def ownership (c : ConfigCache) (session : String) : Option CachedSession := c.sessions.lookup session

/-- A session that is not cached counts as the zero value. -/
def bumpLocal (c : ConfigCache) (session : String) (rec : OwnershipRecord) : LocalEpoch × ConfigCache :=
  let cs := (c.sessions.lookup session).getD default
  let epoch : LocalEpoch := { cs.epoch with loc := cs.epoch.loc + 1 }
  (epoch, ⟨c.sessions.insert session ⟨rec, epoch⟩⟩)

/-- What the data plane reads of the cache. -/
def forward (c : ConfigCache) (session : String) : Option (String × LocalEpoch) :=
  (c.ownership session).map fun cs => (cs.record.egress, cs.epoch)

variable (c : ConfigCache) (rec : OwnershipRecord)

theorem ownership_storeOwnership (session : String) : (c.storeOwnership rec).ownership session =
    if session = rec.session then some ⟨rec, ⟨rec.epoch, 0⟩⟩ else c.ownership session := by
  split_ifs with h
  · subst h
    exact AList.lookup_insert _
  · exact AList.lookup_insert_ne h

theorem ownership_bumpLocal {session : String} {cs : CachedSession} (h : c.ownership session = some cs)
    (session' : String) : (c.bumpLocal session rec).2.ownership session' =
      if session' = session then some ⟨rec, { cs.epoch with loc := cs.epoch.loc + 1 }⟩
      else c.ownership session' := by
  have h : c.sessions.lookup session = some cs := h
  simp only [bumpLocal, ownership, h, Option.getD_some]
  split_ifs with hs
  · subst hs
    exact AList.lookup_insert _
  · exact AList.lookup_insert_ne hs

end ConfigCache

/-- The operations on the caches. -/
inductive CacheOp (κ : Type) where
  | storeOwnership (k : κ) (rec : OwnershipRecord)
  | ownership (k : κ) (session : String)
  | bumpLocal (k : κ) (session : String) (rec : OwnershipRecord)

def CacheOp.Res {κ : Type} : CacheOp κ → Type
  | storeOwnership _ _ => Unit
  | ownership _ _ => Option CachedSession
  | bumpLocal _ _ _ => LocalEpoch

abbrev CacheSig (κ : Type) : Sig := ⟨CacheOp κ, CacheOp.Res⟩

def cacheSystem (ι κ Ω : Type) [DecidableEq κ] : System ι (CacheSig κ) (κ → ConfigCache) Ω where
  exec _ _ o s := match o with
    | .storeOwnership k rec => some ((), update s k ((s k).storeOwnership rec))
    | .ownership k session => some ((s k).ownership session, s)
    | .bumpLocal k session rec =>
      let p := (s k).bumpLocal session rec
      some (p.1, update s k p.2)

section Caches

variable {κ : Type} [DecidableEq κ] (s : κ → ConfigCache) (k k' : κ) (rec : OwnershipRecord)

theorem ownership_update_storeOwnership (session : String) :
    (update s k ((s k).storeOwnership rec) k').ownership session =
      if k' = k ∧ session = rec.session then some ⟨rec, ⟨rec.epoch, 0⟩⟩ else (s k').ownership session := by
  by_cases hk : k' = k
  · subst hk
    simp only [update_self, ConfigCache.ownership_storeOwnership, true_and]
  · simp only [update_of_ne hk, hk, false_and, if_false]

theorem ownership_update_bumpLocal {session : String} {cs : CachedSession}
    (h : (s k).ownership session = some cs) (session' : String) :
    (update s k ((s k).bumpLocal session rec).2 k').ownership session' =
      if k' = k ∧ session' = session then some ⟨rec, { cs.epoch with loc := cs.epoch.loc + 1 }⟩
      else (s k').ownership session' := by
  by_cases hk : k' = k
  · subst hk
    simp only [update_self, ConfigCache.ownership_bumpLocal _ _ h, true_and]
  · simp only [update_of_ne hk, hk, false_and, if_false]

end Caches

/-! ## Epochs that do not wrap -/

theorem lt_succ_of_ne_max {a : UInt64} (h : a ≠ 18446744073709551615) : a < a + 1 := by
  have hne : a.toNat ≠ 18446744073709551615 := fun heq => h (UInt64.toNat_inj.1 heq)
  have hlt := a.toNat_lt
  rw [UInt64.lt_iff_toNat_lt, UInt64.toNat_add, show (1 : UInt64).toNat = 1 from rfl]
  omega

theorem succ_ne_zero_of_ne_max {a : UInt64} (h : a ≠ 18446744073709551615) : a + 1 ≠ 0 := by
  intro hzero
  have hlt := lt_succ_of_ne_max h
  rw [hzero] at hlt
  exact UInt64.not_lt_zero hlt

/-! ## The controller -/

def errSessionNotCached : String := "control: session has no cached ownership record"

section Controller

variable {S : Sig} {κ : Type} (store : KVStore S) (cache : (o : CacheOp κ) → Prog S o.Res) (k : κ)

/-- Reads the stored record into the cache. -/
def refresh (session : String) : Prog S (Option String) := do
  match ← ownershipGet store session with
  | .error e => return some e
  | .ok none => return none
  | .ok (some rec) =>
    cache (.storeOwnership k rec)
    return none

/-- The end of `AttemptPlannedMigration` and `Reconcile`: whether the store applied the record, and its error. -/
def adopt (session : String) (candidate : OwnershipRecord) : Bool × Option String → Prog S (Bool × Option String)
  | (_, some e) => return (false, some e)
  | (false, none) => do
    let _ ← refresh store cache k session
    return (false, none)
  | (true, none) => do
    cache (.storeOwnership k candidate)
    return (true, none)

/-- Whether the migration was applied, whether it is deferred, and the error. -/
def attemptPlannedMigration (session newEgress : String) : Prog S (Bool × Bool × Option String) := do
  match ← cache (.ownership k session) with
  | none => return (false, false, some errSessionNotCached)
  | some cs =>
    let candidate := cs.record.nextEpoch newEgress
    match ← adopt store cache k session candidate (← setIfNewer store candidate) with
    | (_, some _) => return (false, true, none)
    | (applied, none) => return (applied, false, none)

/-- Changes the egress in the cache only. -/
def emergencyFailover (session newEgress : String) : Prog S (LocalEpoch × Option String) := do
  match ← cache (.ownership k session) with
  | none => return (default, some errSessionNotCached)
  | some cs =>
    let epoch ← cache (.bumpLocal k session { cs.record with egress := newEgress })
    return (epoch, none)

/-- Takes a newer record, or tries to store the local change. -/
def settle (session : String) (cs : CachedSession) : Option OwnershipRecord → Prog S (Bool × Option String)
  | some current => do
    cache (.storeOwnership k current)
    return (false, none)
  | none =>
    if cs.epoch.loc = 0 then return (false, none)
    else do
      let candidate := cs.record.nextEpoch cs.record.egress
      adopt store cache k session candidate (← setIfNewer store candidate)

/-- `Reconcile` after its read. -/
def reconcileWith (session : String) (cs : CachedSession) :
    Except String (Option OwnershipRecord) → Prog S (Bool × Option String)
  | .error e => return (false, some e)
  | .ok current => settle store cache k session cs (current.filter fun rec => cs.epoch.global < rec.epoch)

/-- Tries to store the local change; if another is stored, takes that. -/
def reconcile (session : String) : Prog S (Bool × Option String) := do
  match ← cache (.ownership k session) with
  | none => return (false, some errSessionNotCached)
  | some cs => reconcileWith store cache k session cs (← ownershipGet store session)

end Controller

/-- The calls of the failover layer. -/
inductive Call (κ : Type) where
  | refresh (k : κ) (session : String)
  | attemptPlannedMigration (k : κ) (session newEgress : String)
  | emergencyFailover (k : κ) (session newEgress : String)
  | reconcile (k : κ) (session : String)
  | setIfNewer (rec : OwnershipRecord)

def Call.run {S : Sig} {κ : Type} (store : KVStore S) (cache : (o : CacheOp κ) → Prog S o.Res) : Call κ → Prog S Unit
  | .refresh k session => do
    let _ ← Failover.refresh store cache k session
  | .attemptPlannedMigration k session newEgress => do
    let _ ← Failover.attemptPlannedMigration store cache k session newEgress
  | .emergencyFailover k session newEgress => do
    let _ ← Failover.emergencyFailover cache k session newEgress
  | .reconcile k session => do
    let _ ← Failover.reconcile store cache k session
  | .setIfNewer rec => do
    let _ ← Egressa.setIfNewer store rec

/-! ## Controllers over a `MemStore` -/

section Mem

variable {κ : Type}

abbrev MemSig (κ : Type) : Sig := StoreSig.sum (CacheSig κ)

def onCache (o : CacheOp κ) : Prog (MemSig κ) o.Res := .call (S := MemSig κ) (.inr o)

abbrev memSystem (ι κ : Type) [DecidableEq ι] [DecidableEq κ] :
    System ι (MemSig κ) (Disk ι × (κ → ConfigCache)) Unit :=
  (storeSystem ι Unit).sum (cacheSystem ι κ Unit)

abbrev CacheWorld (ι κ : Type) : Type := World ι (MemSig κ) (Disk ι × (κ → ConfigCache))

variable {ι : Type} [DecidableEq ι] [DecidableEq κ] {i : ι} {k : κ} {session : String}
  {s s' : Disk ι × (κ → ConfigCache)}

theorem exec_inl_snd {o : StoreOp} {r : o.Res}
    (hex : (memSystem ι κ).exec () i (.inl o) s = some (r, s')) : s'.2 = s.2 := by
  obtain ⟨p, -, hp⟩ := Option.map_eq_some_iff.1 hex
  rw [← (Prod.mk.inj hp).2]

theorem exec_storeOwnership {rec : OwnershipRecord} {r : Unit}
    (hex : (memSystem ι κ).exec () i (.inr (.storeOwnership k rec)) s = some (r, s')) :
    s'.2 = update s.2 k ((s.2 k).storeOwnership rec) :=
  (congrArg Prod.snd (Prod.mk.inj (Option.some.inj hex)).2).symm

theorem exec_bumpLocal {rec : OwnershipRecord} {r : LocalEpoch}
    (hex : (memSystem ι κ).exec () i (.inr (.bumpLocal k session rec)) s = some (r, s')) :
    s'.2 = update s.2 k ((s.2 k).bumpLocal session rec).2 :=
  (congrArg Prod.snd (Prod.mk.inj (Option.some.inj hex)).2).symm

theorem exec_ownership {r : Option CachedSession}
    (hex : (memSystem ι κ).exec () i (.inr (.ownership k session)) s = some (r, s')) :
    r = (s.2 k).ownership session ∧ s' = s := by
  obtain ⟨hr, hs⟩ := Prod.mk.inj (Option.some.inj hex)
  exact ⟨hr.symm, hs.symm⟩

end Mem

end Egressa.Failover
