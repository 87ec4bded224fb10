import Egressa.Control.Failover

/-!
# The forwarding epoch

What a controller forwards a session by should only move on: to a later epoch, counted locally within one epoch of the
store.  The calls of one controller come one after the other; the store may fail at any operation, and others write to
it, as long as each write to a session raises its epoch.
-/

namespace Egressa.Failover

open Conc

/-! ## One controller over a store that may fail -/

/-- The calls that move sessions. -/
inductive Move where
  | refresh (session : String)
  | attemptPlannedMigration (session newEgress : String)
  | emergencyFailover (session newEgress : String)
  | reconcile (session : String)

def Move.run {S : Sig} {κ : Type} (store : KVStore S) (cache : (o : CacheOp κ) → Prog S o.Res) (k : κ) :
    Move → Prog S Unit
  | .refresh session => do
    let _ ← Failover.refresh store cache k session
  | .attemptPlannedMigration session newEgress => do
    let _ ← Failover.attemptPlannedMigration store cache k session newEgress
  | .emergencyFailover session newEgress => do
    let _ ← Failover.emergencyFailover cache k session newEgress
  | .reconcile session => do
    let _ ← Failover.reconcile store cache k session

inductive EventOp where
  | fault
  | call (m : Move)

def EventOp.Res : EventOp → Type
  | fault => Option String
  | call _ => Unit

abbrev EventSig : Sig := ⟨EventOp, EventOp.Res⟩

/-- Calls are noted, and the store may fail. -/
def eventSystem (ι : Type) : System ι EventSig Unit (Option String) where
  exec ω _ o s := match o with
    | .fault => some (ω, s)
    | .call _ => some ((), s)

abbrev FlakySig (κ : Type) : Sig := StoreSig.sum ((CacheSig κ).sum EventSig)

abbrev FlakyState (ι κ : Type) : Type := Disk ι × (κ → ConfigCache) × Unit

abbrev flakySystem (ι κ : Type) [DecidableEq ι] [DecidableEq κ] :
    System ι (FlakySig κ) (FlakyState ι κ) (Option String) :=
  (storeSystem ι _).sum ((cacheSystem ι κ _).sum (eventSystem ι))

section Programs

variable {κ : Type}

def ofCache (o : CacheOp κ) : Prog (FlakySig κ) o.Res := .call (S := FlakySig κ) (.inr (.inl o))

def onEvent (o : EventOp) : Prog (FlakySig κ) o.Res := .call (S := FlakySig κ) (.inr (.inr o))

def fault : Prog (FlakySig κ) (Option String) := onEvent .fault

/-- An operation fails before it has done anything, or a write when it was made. -/
def flakyFencer : Fencer (FlakySig κ) where
  revision key := do
    match ← fault with
    | some e => return .error e
    | none => (fencerThen fault).revision key
  compareAndSwap key expected value := do
    match ← fault with
    | some e => return (0, false, some e)
    | none => (fencerThen fault).compareAndSwap key expected value

/-- A store each operation of which may fail. -/
def flakyStore (fenced : Bool) : KVStore (FlakySig κ) where
  put key value := do
    match ← fault with
    | some e => return some e
    | none => (storeThen fault).put key value
  get key := do
    match ← fault with
    | some e => return .error e
    | none => (storeThen fault).get key
  list pfx := do
    match ← fault with
    | some e => return .error e
    | none => (storeThen fault).list pfx
  fencer := if fenced then some flakyFencer else none

/-- Calls one after another. -/
def moveAll (fenced : Bool) (k : κ) : List Move → Prog (FlakySig κ) Unit
  | [] => return ()
  | m :: moves => do
    onEvent (.call m)
    m.run (flakyStore fenced) ofCache k
    moveAll fenced k moves

end Programs

variable {ι κ : Type} [DecidableEq ι] [DecidableEq κ]

/-- Thread `me` makes its calls on controller `k`, which has cached nothing; the others run anything. -/
def startMoves (m₀ : MemStore) (fenced : Bool) (me : ι) (k : κ) (moves : List Move)
    (others : ι → Prog (FlakySig κ) Unit) (caches : κ → ConfigCache) :
    Config ι (FlakySig κ) (FlakyState ι κ) Unit where
  pool := Function.update others me (moveAll fenced k moves)
  world := ⟨({ mem := m₀ }, Function.update caches k .empty, ()), []⟩

/-! ## Runs -/

/-- A write of a newer record under its own key. -/
def RisingWrite (m : MemStore) : String × Doc → Prop
  | (key, .ownership rec) => key = sessionKey rec.session ∧ rec.validate = .ok () ∧
      ∀ old ∈ ownershipIn m rec.session, old.epoch < rec.epoch
  | (key, _) => hasPrefix key sessionKeyPrefix = false

instance (m : MemStore) : (p : String × Doc) → Decidable (RisingWrite m p)
  | (_, .ownership _) => inferInstanceAs (Decidable (_ ∧ _ ∧ _))
  | (_, .client _) | (_, .gateway _) | (_, .policy _) | (_, .raw _) => inferInstanceAs (Decidable (_ = _))

def writesCache (k : κ) : (FlakySig κ).Op → Bool
  | .inr (.inl (.storeOwnership k' _)) | .inr (.inl (.bumpLocal k' _ _)) => k' = k
  | _ => false

/-- When a call may be made: `Refresh` if there is no emergency failover to take back, or a newer record; the others if
no counter is at its end. -/
def Move.Timely (c : ConfigCache) (m : MemStore) : Move → Prop
  | .refresh session => ∀ cs ∈ c.ownership session,
      cs.epoch.loc = 0 ∨ ∃ cur ∈ ownershipIn m session, cs.epoch.global < cur.epoch
  | .attemptPlannedMigration session _ | .reconcile session => ∀ cs ∈ c.ownership session,
      cs.epoch.global ≠ 18446744073709551615
  | .emergencyFailover session _ => ∀ cs ∈ c.ownership session, cs.epoch.loc ≠ 18446744073709551615

instance (c : ConfigCache) (m : MemStore) : (v : Move) → Decidable (v.Timely c m)
  | .refresh _ => inferInstanceAs (Decidable (∀ cs ∈ _, _ ∨ ∃ cur ∈ _, _))
  | .attemptPlannedMigration _ _ | .reconcile _ => inferInstanceAs (Decidable (∀ cs ∈ _, _))
  | .emergencyFailover _ _ => inferInstanceAs (Decidable (∀ cs ∈ _, _))

def begins : (FlakySig κ).Op → Option Move
  | .inr (.inr (.call m)) => some m
  | _ => none

/-- Writes are newer, the cache is written by `me` only, whose calls are timely. -/
structure Fair (me : ι) (k : κ) (e : Entry ι (FlakySig κ) (FlakyState ι κ)) : Prop where
  rising : ∀ p ∈ written e.op e.res, RisingWrite e.pre.1.mem p
  own : e.tid ≠ me → writesCache k e.op = false
  timely : e.tid = me → ∀ m ∈ begins e.op, m.Timely (e.pre.2.1 k) e.pre.1.mem

instance (me : ι) (k : κ) (e : Entry ι (FlakySig κ) (FlakyState ι κ)) : Decidable (Fair me k e) :=
  decidable_of_iff ((∀ p ∈ written e.op e.res, RisingWrite e.pre.1.mem p) ∧
      (e.tid ≠ me → writesCache k e.op = false) ∧
      (e.tid = me → ∀ m ∈ begins e.op, m.Timely (e.pre.2.1 k) e.pre.1.mem))
    ⟨fun h => ⟨h.1, h.2.1, h.2.2⟩, fun h => ⟨h.rising, h.own, h.timely⟩⟩

def AllFair (me : ι) (k : κ) (w : World ι (FlakySig κ) (FlakyState ι κ)) : Prop := ∀ e ∈ w.hist, Fair me k e

/-! ## Order -/

theorem LocalEpoch.less_iff {a b : LocalEpoch} :
    a.less b = true ↔ a.global < b.global ∨ (a.global = b.global ∧ a.loc < b.loc) := by
  unfold LocalEpoch.less
  by_cases h : a.global = b.global
  · simp [h]
  · simp [h]

theorem LocalEpoch.less_trans {a b c : LocalEpoch} (hab : a.less b = true) (hbc : b.less c = true) :
    a.less c = true := by
  rw [less_iff] at *
  simp only [UInt64.lt_iff_toNat_lt, ← UInt64.toNat_inj] at *
  omega

theorem LocalEpoch.less_asymm {a b : LocalEpoch} (hab : a.less b = true) : ¬ b.less a = true := by
  rw [less_iff] at *
  simp only [UInt64.lt_iff_toNat_lt, ← UInt64.toNat_inj] at *
  omega

theorem LocalEpoch.less_irrefl (a : LocalEpoch) : ¬ a.less a = true := fun h => less_asymm h h

/-- `y` is later than `x`, or the same. -/
def Later (x y : String × LocalEpoch) : Prop := x.2.less y.2 = true ∨ x = y

theorem Later.trans {x y z : String × LocalEpoch} (hxy : Later x y) (hyz : Later y z) : Later x z := by
  rcases hxy with hxy | rfl
  · rcases hyz with hyz | rfl
    · exact Or.inl (LocalEpoch.less_trans hxy hyz)
    · exact Or.inl hxy
  · exact hyz

/-- Nothing in the cache goes back. -/
def Onward (c c' : ConfigCache) : Prop :=
  ∀ session x, c.forward session = some x → ∃ y, c'.forward session = some y ∧ Later x y

theorem Onward.refl (c : ConfigCache) : Onward c c := fun _ x hx => ⟨x, hx, Or.inr rfl⟩

theorem Onward.trans {c c' c'' : ConfigCache} (h : Onward c c') (h' : Onward c' c'') : Onward c c'' := by
  intro session x hx
  obtain ⟨y, hy, hxy⟩ := h session x hx
  obtain ⟨z, hz, hyz⟩ := h' session y hy
  exact ⟨z, hz, hxy.trans hyz⟩

theorem onward_of_one {c c' : ConfigCache} (session : String) (cs' : CachedSession)
    (hself : c'.ownership session = some cs')
    (hother : ∀ s, s ≠ session → c'.ownership s = c.ownership s)
    (later : ∀ cs, c.ownership session = some cs →
      Later (cs.record.egress, cs.epoch) (cs'.record.egress, cs'.epoch)) : Onward c c' := by
  intro s x hx
  by_cases hs : s = session
  · subst hs
    obtain ⟨cs, hcs, rfl⟩ := Option.map_eq_some_iff.1 hx
    exact ⟨_, by rw [ConfigCache.forward, hself]; rfl, later cs hcs⟩
  · refine ⟨x, ?_, Or.inr rfl⟩
    rwa [ConfigCache.forward, hother s hs]

/-! ## Stores whose epochs rise -/

/-- What fair writes do to a store. -/
structure Rises (m m' : MemStore) : Prop where
  keyed : WellKeyed m → WellKeyed m'
  onward : ∀ sid old, ownershipIn m sid = some old →
    ∃ new, ownershipIn m' sid = some new ∧ (old.epoch < new.epoch ∨ new = old)

theorem superseded_trans {a b c : OwnershipRecord} (h : a.epoch < b.epoch ∨ b = a) (h' : b.epoch < c.epoch ∨ c = b) :
    a.epoch < c.epoch ∨ c = a := by
  rcases h' with hlt | rfl
  · exact .inl (h.elim (UInt64.lt_trans · hlt) (· ▸ hlt))
  · exact h

theorem Rises.refl (m : MemStore) : Rises m m := ⟨id, fun _ old h => ⟨old, h, Or.inr rfl⟩⟩

theorem Rises.trans {m m' m'' : MemStore} (h : Rises m m') (h' : Rises m' m'') : Rises m m'' := by
  refine ⟨h'.keyed ∘ h.keyed, fun sid old hold => ?_⟩
  obtain ⟨mid, hmid, hle⟩ := h.onward sid old hold
  exact (h'.onward sid mid hmid).imp fun _ h => ⟨h.1, superseded_trans hle h.2⟩

theorem Rises.put_other {m : MemStore} {key : String} (h : hasPrefix key sessionKeyPrefix = false)
    (value : Doc) : Rises m (m.put key value) := by
  have hne : ∀ sid, sessionKey sid ≠ key := by
    rintro sid rfl
    rw [sessionKey, hasPrefix_append] at h
    cases h
  have same : ∀ sid, ownershipIn (m.put key value) sid = ownershipIn m sid :=
    fun sid => ownershipIn_put_ne m value (hne sid)
  exact ⟨fun keyed sid r hr => keyed sid r (same sid ▸ hr),
    fun sid old hold => ⟨old, (same sid).trans hold, Or.inr rfl⟩⟩

theorem Rises.put {m : MemStore} : {p : String × Doc} → RisingWrite m p → Rises m (m.put p.1 p.2)
  | (_, .client _), h | (_, .gateway _), h | (_, .policy _), h | (_, .raw _), h => put_other h _
  | (_, .ownership rec), ⟨rfl, hv, hrise⟩ => by
    constructor
    · intro keyed sid r hr
      by_cases hsid : sid = rec.session
      · subst hsid
        cases (ownershipIn_put_self m hv).symm.trans hr
        rfl
      · rw [ownershipIn_put_ne m _ (fun h => hsid (sessionKey_inj.1 h))] at hr
        exact keyed sid r hr
    · intro sid old hold
      by_cases hsid : sid = rec.session
      · subst hsid
        exact ⟨rec, ownershipIn_put_self m hv, Or.inl (hrise old hold)⟩
      · exact ⟨old, (ownershipIn_put_ne m _ fun h => hsid (sessionKey_inj.1 h)).trans hold, Or.inr rfl⟩

/-- The record, or a newer one, is stored. -/
def Stands (rec : OwnershipRecord) (m : MemStore) : Prop :=
  ∃ cur, ownershipIn m rec.session = some cur ∧ (rec.epoch < cur.epoch ∨ cur = rec)

variable {m m' : MemStore}

theorem Stands.mono {rec : OwnershipRecord} (h : Stands rec m) (rises : Rises m m') : Stands rec m' := by
  obtain ⟨cur, hcur, hle⟩ := h
  exact (rises.onward _ cur hcur).imp fun _ h => ⟨h.1, superseded_trans hle h.2⟩

def AtLeast (sid : String) (n : UInt64) (m : MemStore) : Prop := ∃ cur, ownershipIn m sid = some cur ∧ n ≤ cur.epoch

theorem AtLeast.mono {sid : String} {n : UInt64} (h : AtLeast sid n m) (rises : Rises m m') : AtLeast sid n m' := by
  obtain ⟨cur, hcur, hle⟩ := h
  obtain ⟨new, hnew, hle'⟩ := rises.onward _ cur hcur
  refine ⟨new, hnew, ?_⟩
  rcases hle' with hlt | rfl
  · exact UInt64.le_trans hle (UInt64.le_of_lt hlt)
  · exact hle

/-- What is cached is stored, but for the egress, or older. -/
structure Abreast (m : MemStore) (sid : String) (cs : CachedSession) : Prop where
  session : cs.record.session = sid
  epoch : cs.record.epoch = cs.epoch.global
  stored : ∃ cur, ownershipIn m sid = some cur ∧ (cs.epoch.global < cur.epoch ∨
    (cs.record = { cur with egress := cs.record.egress } ∧ (cs.epoch.loc = 0 → cs.record = cur)))

theorem Abreast.mono {session : String} {cs : CachedSession} (h : Abreast m session cs)
    (rises : Rises m m') : Abreast m' session cs := by
  refine ⟨h.session, h.epoch, ?_⟩
  obtain ⟨cur, hcur, hle⟩ := h.stored
  obtain ⟨new, hnew, hle'⟩ := rises.onward _ cur hcur
  refine ⟨new, hnew, ?_⟩
  rcases hle' with hlt | rfl
  · refine Or.inl ?_
    rcases hle with hlt' | ⟨hrec, -⟩
    · exact UInt64.lt_trans hlt' hlt
    · have hsame : cs.epoch.global = cur.epoch := h.epoch.symm.trans (congrArg (·.epoch) hrec)
      rwa [hsame]
  · exact hle

/-- The cache is abreast of the store. -/
structure Tidy (c : ConfigCache) (m : MemStore) : Prop where
  keyed : WellKeyed m
  abreast : ∀ session cs, c.ownership session = some cs → Abreast m session cs

theorem Tidy.mono {c : ConfigCache} (h : Tidy c m) (rises : Rises m m') : Tidy c m' :=
  ⟨rises.keyed h.keyed, fun session cs hcs => (h.abreast session cs hcs).mono rises⟩

/-! ## The contract -/

section Contract

variable {me i : ι} {k : κ} {w : World ι (FlakySig κ) (FlakyState ι κ)}

def forwardContract (me : ι) (k : κ) : Contract ι (FlakySig κ) (FlakyState ι κ) where
  inv w := AllFair me k w → Tidy (w.st.2.1 k) w.st.1.mem ∧ ∀ e ∈ w.hist, Onward (e.pre.2.1 k) (e.post.2.1 k)
  guar _ _ _ := True

variable {o : (FlakySig κ).Op} {r : (FlakySig κ).Res o} {s' : FlakyState ι κ}

omit [DecidableEq ι] in
theorem AllFair.of_push (h : AllFair me k (w.push i o r s')) : AllFair me k w ∧ Fair me k ⟨i, o, r, w.st, s'⟩ :=
  ⟨fun e he => h e (List.mem_append_left _ he), h _ (List.mem_append_right _ (List.mem_singleton_self _))⟩

variable {ω : Option String}

theorem exec_rises {s s' : FlakyState ι κ} (hex : (flakySystem ι κ).exec ω i o s = some (r, s'))
    (rising : ∀ p ∈ written o r, RisingWrite s.1.mem p) : Rises s.1.mem s'.1.mem := by
  have hm := exec_mem hex
  cases hw : written o r with
  | none =>
    simp only [hw] at hm
    rw [hm]
    exact Rises.refl _
  | some p =>
    simp only [hw] at hm
    rw [hm]
    exact Rises.put (rising p hw)

theorem exec_own {s s' : FlakyState ι κ}
    (hex : (flakySystem ι κ).exec ω i o s = some (r, s')) (hk : writesCache k o = false) :
    s'.2.1 k = s.2.1 k := by
  rcases o with o | o | o
  · obtain ⟨p, -, hp⟩ := Option.map_eq_some_iff.1 hex
    rw [← (Prod.mk.inj hp).2]
  · obtain ⟨p, hp, hs⟩ := Option.map_eq_some_iff.1 hex
    obtain ⟨q, hq, rfl⟩ := Option.map_eq_some_iff.1 hp
    rw [← (Prod.mk.inj hs).2]
    cases o with
    | ownership k' session => rw [← (Option.some.inj hq)]
    | storeOwnership k' rec | bumpLocal k' session rec =>
      rw [← (Option.some.inj hq)]
      exact Function.update_of_ne (fun h => of_decide_eq_false hk h.symm) _ _
  · obtain ⟨p, hp, hs⟩ := Option.map_eq_some_iff.1 hex
    obtain ⟨q, hq, rfl⟩ := Option.map_eq_some_iff.1 hp
    rw [← (Prod.mk.inj hs).2]

theorem fair_step (hex : (flakySystem ι κ).exec ω i o w.st = some (r, s')) (hk : i = me → writesCache k o = false)
    (fair : AllFair me k (w.push i o r s')) :
    AllFair me k w ∧ s'.2.1 k = w.st.2.1 k ∧ Rises w.st.1.mem s'.1.mem := by
  obtain ⟨fair, here⟩ := fair.of_push
  refine ⟨fair, exec_own hex ?_, exec_rises hex here.rising⟩
  by_cases hi : i = me
  · exact hk hi
  · exact here.own hi

theorem forward_push (inv : (forwardContract me k).inv w) (hex : (flakySystem ι κ).exec ω i o w.st = some (r, s'))
    (hk : i = me → writesCache k o = false) : (forwardContract me k).inv (w.push i o r s') := by
  intro fair
  obtain ⟨fair, hcache, rises⟩ := fair_step hex hk fair
  obtain ⟨tidy, onward⟩ := inv fair
  constructor
  · rw [World.push_st, hcache]
    exact tidy.mono rises
  · refine List.forall_mem_append.2 ⟨onward, List.forall_mem_singleton.2 ?_⟩
    rw [hcache]
    exact Onward.refl _

def Informed (me : ι) (k : κ) (F : ConfigCache → MemStore → Prop) (w : World ι (FlakySig κ) (FlakyState ι κ)) :
    Prop :=
  AllFair me k w → F (w.st.2.1 k) w.st.1.mem

/-- A fact that newer records do not change. -/
def Upward (F : ConfigCache → MemStore → Prop) : Prop := ∀ c m m', Rises m m' → F c m → F c m'

abbrev Knowing (me : ι) (k : κ) (F : ConfigCache → MemStore → Prop) {α : Type} (p : Prog (FlakySig κ) α)
    (Q : α → World ι (FlakySig κ) (FlakyState ι κ) → Prop) : Prop :=
  Triple (forwardContract me k) (flakySystem ι κ) me (Informed me k F) p Q

variable {F : ConfigCache → MemStore → Prop}

theorem stable_told (hF : Upward F) : Stable (forwardContract me k) (flakySystem ι κ) me (Informed me k F) := by
  rintro w w' ⟨j, hj, ⟨ω, o, r, s', hex, rfl⟩, -⟩ h fair
  obtain ⟨fair, hcache, rises⟩ := fair_step hex (fun hi => absurd hi hj) fair
  rw [World.push_st, hcache]
  exact hF _ _ _ rises (h fair)

theorem triple_told {G : (FlakySig κ).Res o → ConfigCache → MemStore → Prop}
    (hF : Upward F) (hG : ∀ r, Upward (G r)) (hk : writesCache k o = false)
    (exec : ∀ ω s r s', (flakySystem ι κ).exec ω me o s = some (r, s') → (∀ p ∈ written o r, RisingWrite s.1.mem p) →
      (∀ m ∈ begins o, m.Timely (s.2.1 k) s.1.mem) → Tidy (s.2.1 k) s.1.mem → F (s.2.1 k) s.1.mem →
      Rises s.1.mem s'.1.mem → G r (s.2.1 k) s'.1.mem) :
    Knowing me k F (Prog.call o) fun r => Informed me k (G r) := by
  refine Triple.op (R := fun r => Informed me k (G r)) (stable_told hF) ?_ fun r =>
    Triple.ret (stable_told (hG r)) fun _ _ h => h
  intro w ω r s' inv h hex
  refine ⟨trivial, forward_push inv hex fun _ => hk, fun fair => ?_⟩
  have here := fair.of_push.2
  obtain ⟨fair, hcache, rises⟩ := fair_step hex (fun _ => hk) fair
  rw [World.push_st, hcache]
  exact exec ω w.st r s' hex here.rising (here.timely rfl) (inv fair).1 (h fair) rises

end Contract

/-! ## The store -/

section Store

variable {me : ι} {k : κ} {F : ConfigCache → MemStore → Prop}

def Read (F : ConfigCache → MemStore → Prop) (key : String) (data : Option Doc) (c : ConfigCache)
    (m : MemStore) : Prop :=
  ∃ m₁, m₁.get key = data ∧ F c m₁ ∧ Tidy c m₁ ∧ Rises m₁ m

omit [DecidableEq κ] in
theorem upward_read (key : String) (data : Option Doc) : Upward (Read F key data) := by
  rintro c m m' rises ⟨m₁, hget, hF, tidy, rises₁⟩
  exact ⟨m₁, hget, hF, tidy, rises₁.trans rises⟩

theorem triple_fault (hF : Upward F) : Knowing me k F fault fun _ => Informed me k F :=
  triple_told hF (fun _ => hF) rfl fun _ _ _ _ _ _ _ _ h rises => hF _ _ _ rises h

theorem triple_flaky_get (hF : Upward F) (fenced : Bool) (key : String) : Knowing me k F ((flakyStore fenced).get key)
      fun res => Informed me k fun c m => F c m ∧ ∀ data, res = .ok data → Read F key data c m := by
  refine Triple.bind (triple_fault hF) fun err => ?_
  cases err with
  | some e =>
    exact Triple.ret (stable_told hF) fun w _ h fair => ⟨h fair, fun data hdata => by cases hdata⟩
  | none =>
    refine Triple.bind (R := fun data => Informed me k fun c m => F c m ∧ Read F key data c m)
      (triple_told (o := .inl (.memGet key)) (G := fun data c m => F c m ∧ Read F key data c m) hF
        (fun data c m m' rises h => ⟨hF c m m' rises h.1, upward_read key data c m m' rises h.2⟩) rfl ?_)
      fun data => ?_
    · intro ω s data s' hex _ _ tidy h rises
      cases hex
      exact ⟨h, s.1.mem, rfl, h, tidy, Rises.refl _⟩
    · refine Triple.ret (stable_told fun c m m' rises h =>
        ⟨hF c m m' rises h.1, upward_read key data c m m' rises h.2⟩) fun w _ h fair => ?_
      refine ⟨(h fair).1, fun data' hdata => ?_⟩
      cases hdata
      exact (h fair).2

theorem triple_flaky_ownershipGet (hF : Upward F) (fenced : Bool) (session : String) :
    Knowing me k F (ownershipGet (flakyStore fenced) session)
      fun res => Informed me k fun c m => F c m ∧ ∀ rec, res = .ok (some rec) →
        rec.validate = .ok () ∧ Read F (sessionKey session) (some (.ownership rec)) c m := by
  refine Triple.bind (triple_flaky_get hF fenced (sessionKey session)) fun res => ?_
  have hR : Upward fun c m => F c m ∧ ∀ data, res = .ok data → Read F (sessionKey session) data c m :=
    fun c m m' rises h => ⟨hF c m m' rises h.1, fun data hdata => upward_read _ _ c m m' rises (h.2 data hdata)⟩
  rcases res with e | _ | data
  · exact Triple.ret (stable_told hR) fun w _ h fair => ⟨(h fair).1, fun rec hrec => by cases hrec⟩
  · exact Triple.ret (stable_told hR) fun w _ h fair => ⟨(h fair).1, fun rec hrec => by cases hrec⟩
  · dsimp only
    cases hu : unmarshalOwnership (some data) with
    | error e => exact Triple.ret (stable_told hR) fun w _ h fair => ⟨(h fair).1, fun rec hrec => by cases hrec⟩
    | ok rec =>
      obtain ⟨hdata, hv⟩ := unmarshalOwnership_eq_ok.1 hu
      refine Triple.ret (stable_told hR) fun w _ h fair => ⟨(h fair).1, fun rec' hrec => ?_⟩
      cases Except.ok.inj hrec
      exact ⟨hv, (h fair).2 _ (by rw [hdata])⟩

theorem triple_flaky_revision (hF : Upward F) (key : String) :
    Knowing me k F (flakyFencer.revision key) fun _ => Informed me k F := by
  refine Triple.bind (triple_fault hF) fun err => ?_
  cases err with
  | some e => exact Triple.ret (stable_told hF) fun _ _ h => h
  | none =>
    refine Triple.bind (triple_told (o := .inl (.memRevision key)) (G := fun _ => F) hF (fun _ => hF) rfl ?_)
      fun _ => Triple.ret (stable_told hF) fun _ _ h => h
    exact fun _ _ _ _ _ _ _ _ h rises => hF _ _ _ rises h

omit [DecidableEq κ] in
theorem upward_kept (hF : Upward F) (p : Prop) (rec : OwnershipRecord) : Upward fun c m => F c m ∧ (p → Stands rec m) :=
  fun c m m' rises h => ⟨hF c m m' rises h.1, fun hp => (h.2 hp).mono rises⟩

variable {rec : OwnershipRecord}

theorem kept_of_written {o : (FlakySig κ).Op} {r : (FlakySig κ).Res o} {s s' : FlakyState ι κ}
    {ω : Option String} (hv : rec.validate = .ok ()) (hex : (flakySystem ι κ).exec ω me o s = some (r, s'))
    (hw : written o r = some (sessionKey rec.session, .ownership rec)) : Stands rec s'.1.mem := by
  have hm := exec_mem hex
  simp only [hw] at hm
  rw [hm]
  exact ⟨rec, ownershipIn_put_self _ hv, Or.inr rfl⟩

theorem triple_flaky_compareAndSwap (hF : Upward F) (hv : rec.validate = .ok ()) (expected : ℕ) :
    Knowing me k F (flakyFencer.compareAndSwap (sessionKey rec.session) expected (.ownership rec))
      fun res => Informed me k fun c m => F c m ∧ (res.2.1 = true → Stands rec m) := by
  refine Triple.bind (triple_fault hF) fun err => ?_
  cases err with
  | some e => exact Triple.ret (stable_told hF) fun _ _ h fair => ⟨h fair, fun h => by cases h⟩
  | none =>
    refine Triple.bind (R := fun (r : ℕ × Bool) => Informed me k fun c m => F c m ∧ (r.2 = true → Stands rec m))
      (triple_told (o := .inl (.memCAS (sessionKey rec.session) expected (.ownership rec)))
        (G := fun (r : ℕ × Bool) c m => F c m ∧ (r.2 = true → Stands rec m)) hF
        (fun r => upward_kept hF _ rec) rfl ?_) ?_
    · intro ω s r s' hex _ _ _ h rises
      refine ⟨hF _ _ _ rises h, fun hr => kept_of_written hv hex ?_⟩
      simp [written, hr]
    · rintro ⟨rev, ok⟩
      cases ok with
      | false =>
        exact Triple.ret (stable_told (upward_kept hF _ rec)) fun _ _ h fair => ⟨(h fair).1, fun h => by cases h⟩
      | true =>
        refine Triple.bind (triple_fault (upward_kept hF _ rec)) fun err => ?_
        exact Triple.ret (stable_told (upward_kept hF _ rec)) fun _ _ h => h

theorem triple_flaky_put (hF : Upward F) (fenced : Bool) (hv : rec.validate = .ok ()) :
    Knowing me k F ((flakyStore fenced).put (sessionKey rec.session) (.ownership rec))
      fun err => Informed me k fun c m => F c m ∧ (err = none → Stands rec m) := by
  refine Triple.bind (triple_fault hF) fun err => ?_
  cases err with
  | some e => exact Triple.ret (stable_told hF) fun _ _ h fair => ⟨h fair, fun h => by cases h⟩
  | none =>
    refine Triple.bind (R := fun _ => Informed me k fun c m => F c m ∧ (True → Stands rec m))
      (triple_told (o := .inl (.memPut (sessionKey rec.session) (.ownership rec)))
        (G := fun _ c m => F c m ∧ (True → Stands rec m)) hF (fun _ => upward_kept hF _ rec) rfl ?_) fun _ => ?_
    · intro ω s r s' hex _ _ _ h rises
      exact ⟨hF _ _ _ rises h, fun _ => kept_of_written hv hex rfl⟩
    · exact (triple_fault (upward_kept hF True rec)).post fun err w _ h fair =>
        ⟨(h fair).1, fun _ => (h fair).2 trivial⟩

def Answered (F : ConfigCache → MemStore → Prop) (rec : OwnershipRecord) (res : Bool × Option String)
    (c : ConfigCache) (m : MemStore) : Prop :=
  F c m ∧ (res = (true, none) → Stands rec m) ∧ (res = (false, none) → AtLeast rec.session rec.epoch m)

omit [DecidableEq κ] in
theorem upward_answered (hF : Upward F) (rec : OwnershipRecord) (res : Bool × Option String) :
    Upward (Answered F rec res) :=
  fun c m m' rises h => ⟨hF c m m' rises h.1, fun hres => (h.2.1 hres).mono rises,
    fun hres => (h.2.2 hres).mono rises⟩

variable {c : ConfigCache} {m : MemStore}

omit [DecidableEq κ] in
theorem answered_error (h : F c m) (e : String) : Answered F rec (false, some e) c m := by
  refine ⟨h, fun hres => ?_, fun hres => ?_⟩
  · cases hres
  · cases hres

omit [DecidableEq κ] in
theorem answered_stale (h : F c m) (stored : AtLeast rec.session rec.epoch m) : Answered F rec (false, none) c m := by
  refine ⟨h, fun hres => ?_, fun _ => stored⟩
  cases hres

theorem atLeast_of_read {rec cur : OwnershipRecord}
    (hv : cur.validate = .ok ()) (hread : Read F (sessionKey rec.session) (some (.ownership cur)) c m)
    (hnew : rec.newer cur = false) : AtLeast rec.session rec.epoch m := by
  obtain ⟨m₁, hget, -, -, rises⟩ := hread
  have hle : rec.epoch ≤ cur.epoch := UInt64.not_lt.1 (of_decide_eq_false hnew)
  exact AtLeast.mono ⟨cur, ownershipIn_eq_some.2 ⟨hget, hv⟩, hle⟩ rises

def turned (me : ι) (k : κ) (F : ConfigCache → MemStore → Prop) (rec : OwnershipRecord) :
    Unit ⊕ Bool × Option String → World ι (FlakySig κ) (FlakyState ι κ) → Prop
  | .inl _ => Informed me k F
  | .inr res => Informed me k (Answered F rec res)

theorem triple_flaky_swapTurn (hF : Upward F) (hv : rec.validate = .ok ()) (expected : ℕ) :
    Knowing me k F (swapTurn flakyFencer rec expected) (turned me k F rec) := by
  have hm : marshalOwnership rec = .ok (.ownership rec) := by simp [marshalOwnership, hv]
  unfold swapTurn
  rw [hm]
  refine Triple.bind (triple_flaky_compareAndSwap hF hv expected) ?_
  rintro ⟨rev, ok, _ | e⟩
  · cases ok with
    | false =>
      refine Triple.ret (stable_told (upward_kept hF _ rec)) fun _ _ h fair => ?_
      exact (h fair).1
    | true =>
      refine Triple.ret (stable_told (upward_kept hF _ rec)) fun _ _ h fair => ?_
      exact ⟨(h fair).1, fun _ => (h fair).2 rfl, fun h => by cases h⟩
  · refine Triple.ret (stable_told (upward_kept hF _ rec)) fun _ _ h fair => ?_
    exact answered_error (h fair).1 e

theorem triple_flaky_setIfNewer (hF : Upward F) (fenced : Bool) (rec : OwnershipRecord) :
    Knowing me k F (setIfNewer (flakyStore fenced) rec) fun res => Informed me k (Answered F rec res) := by
  have failed : ∀ {G : ConfigCache → MemStore → Prop} (e : String), Upward G → (∀ c m, G c m → F c m) →
      Knowing me k G (.ret (false, some e)) fun res => Informed me k (Answered F rec res) :=
    fun e hG imp => Triple.ret (stable_told hG) fun _ _ h fair => answered_error (imp _ _ (h fair)) e
  unfold setIfNewer
  cases hv : rec.validate with
  | error e => exact failed e hF fun _ _ h => h
  | ok u =>
    cases fenced with
    | false =>
      refine Triple.bind (triple_flaky_ownershipGet hF false rec.session) fun res => ?_
      have hR : Upward fun c m => F c m ∧ ∀ cur, res = .ok (some cur) →
          cur.validate = .ok () ∧ Read F (sessionKey rec.session) (some (.ownership cur)) c m :=
        fun c m m' rises h => ⟨hF c m m' rises h.1, fun cur hcur =>
          ⟨(h.2 cur hcur).1, upward_read _ _ c m m' rises (h.2 cur hcur).2⟩⟩
      cases res with
      | error e => exact failed e hR fun _ _ h => h.1
      | ok current =>
        dsimp only
        split_ifs with hany
        · refine Triple.ret (stable_told hR) fun _ _ h fair => answered_stale (h fair).1 ?_
          obtain ⟨cur, rfl, hnew⟩ := (Option.any_eq_true _ _).1 hany
          obtain ⟨hvalid, hread⟩ := (h fair).2 cur rfl
          exact atLeast_of_read hvalid hread (by simpa using hnew)
        · have hm : marshalOwnership rec = .ok (.ownership rec) := by simp [marshalOwnership, hv]
          rw [hm]
          refine Triple.bind ((triple_flaky_put hF false hv).pre fun _ _ h fair => (h fair).1) fun err => ?_
          refine Triple.ret (stable_told (upward_kept hF _ rec)) fun _ _ h fair => ⟨(h fair).1, fun hres => ?_,
            fun h => by cases h⟩
          exact (h fair).2 (Prod.mk.inj hres).2
    | true =>
      refine Triple.iterate (stable_told hF) (fun res => stable_told (upward_answered hF rec res)) fun _ => ?_
      refine Triple.post (Q := turned me k F rec) ?_ fun d _ _ h => by cases d <;> exact h
      have stopped : ∀ {G : ConfigCache → MemStore → Prop} (e : String), Upward G → (∀ c m, G c m → F c m) →
          Knowing me k G (.ret (.inr (false, some e))) (turned me k F rec) :=
        fun e hG imp => Triple.ret (stable_told hG) fun _ _ h fair => answered_error (imp _ _ (h fair)) e
      refine Triple.bind (triple_flaky_revision hF _) fun rev => ?_
      rcases rev with e | _ | rev
      · exact stopped e hF fun _ _ h => h
      · exact triple_flaky_swapTurn hF hv 0
      · refine Triple.bind (triple_flaky_get hF true _) fun res => ?_
        have hR : Upward fun c m => F c m ∧ ∀ data, res = .ok data → Read F (sessionKey rec.session) data c m :=
          fun c m m' rises h => ⟨hF c m m' rises h.1, fun data hdata =>
            upward_read _ _ c m m' rises (h.2 data hdata)⟩
        cases res with
        | error e => exact stopped e hR fun _ _ h => h.1
        | ok data =>
          dsimp only
          unfold judgeTurn
          cases hu : unmarshalOwnership data with
          | error e => exact stopped e hR fun _ _ h => h.1
          | ok cur =>
            obtain ⟨rfl, hvalid⟩ := unmarshalOwnership_eq_ok.1 hu
            dsimp only
            split_ifs with hnew
            · refine Triple.ret (stable_told hR) fun _ _ h fair => answered_stale (h fair).1 ?_
              exact atLeast_of_read hvalid ((h fair).2 _ rfl) (by simpa using hnew)
            · exact (triple_flaky_swapTurn hF hv rev).pre fun _ _ h fair => (h fair).1

end Store

/-! ## The calls -/

section Calls

variable {me : ι} {k : κ} {session : String} {fenced : Bool}

/-- If there is a local change, a newer record is stored. -/
def Fresh (session : String) (c : ConfigCache) (m : MemStore) : Prop :=
  ∀ cs, c.ownership session = some cs →
    cs.epoch.loc = 0 ∨ ∃ cur, ownershipIn m session = some cur ∧ cs.epoch.global < cur.epoch

theorem upward_fresh : Upward (Fresh session) := by
  intro c m m' rises h cs hcs
  refine (h cs hcs).imp_right ?_
  rintro ⟨cur, hcur, hlt⟩
  obtain ⟨new, hnew, hlt' | rfl⟩ := rises.onward session cur hcur
  · exact ⟨new, hnew, UInt64.lt_trans hlt hlt'⟩
  · exact ⟨new, hnew, hlt⟩

/-- `rec` may go into the cache. -/
structure Ready (rec : OwnershipRecord) (c : ConfigCache) (m : MemStore) : Prop where
  kept : Stands rec m
  later : ∀ cs, c.ownership rec.session = some cs → Later (cs.record.egress, cs.epoch) (rec.egress, ⟨rec.epoch, 0⟩)

theorem upward_ready (rec : OwnershipRecord) : Upward (Ready rec) := fun _ _ _ rises h => ⟨h.kept.mono rises, h.later⟩

theorem upward_true : Upward fun _ _ => True := fun _ _ _ _ _ => trivial

omit [DecidableEq ι] in
theorem forward_push_own {w : World ι (FlakySig κ) (FlakyState ι κ)} (inv : (forwardContract me k).inv w)
    {o : (FlakySig κ).Op} {r : (FlakySig κ).Res o} {s' : FlakyState ι κ} (hmem : s'.1.mem = w.st.1.mem)
    (cached : AllFair me k w → Tidy (w.st.2.1 k) w.st.1.mem →
      Tidy (s'.2.1 k) w.st.1.mem ∧ Onward (w.st.2.1 k) (s'.2.1 k)) :
    (forwardContract me k).inv (w.push me o r s') := by
  intro fair
  have fair := fair.of_push.1
  obtain ⟨tidy, onward⟩ := inv fair
  obtain ⟨tidy', onward'⟩ := cached fair tidy
  refine ⟨by rwa [World.push_st, hmem], fun e he => ?_⟩
  rcases List.mem_append.1 he with he | he
  · exact onward e he
  · obtain rfl := List.mem_singleton.1 he
    exact onward'

theorem triple_cache (rec : OwnershipRecord) :
    Knowing me k (Ready rec) (ofCache (.storeOwnership k rec)) fun _ _ => True := by
  refine Triple.op (R := fun _ _ => True) (stable_told (upward_ready rec)) ?_ fun _ => Triple.done _
  intro w ω r s' inv ready hex
  cases hex
  refine ⟨trivial, forward_push_own inv rfl fun fair tidy => ?_, trivial⟩
  have ready := ready fair
  simp only [Function.update_self]
  constructor
  · refine ⟨tidy.keyed, fun session cs hcs => ?_⟩
    rw [ConfigCache.ownership_storeOwnership] at hcs
    split_ifs at hcs with hs
    · subst hs
      cases hcs
      obtain ⟨cur, hcur, hle⟩ := ready.kept
      refine ⟨rfl, rfl, cur, hcur, hle.imp_right ?_⟩
      rintro rfl
      exact ⟨rfl, fun _ => rfl⟩
    · exact tidy.abreast session cs hcs
  · refine onward_of_one rec.session ⟨rec, ⟨rec.epoch, 0⟩⟩ ?_ (fun s hs => ?_) ready.later
    · rw [ConfigCache.ownership_storeOwnership, if_pos rfl]
    · rw [ConfigCache.ownership_storeOwnership, if_neg hs]

theorem ready_of_read {rec : OwnershipRecord} (hv : rec.validate = .ok ()) {c : ConfigCache} {m : MemStore}
    {F : ConfigCache → MemStore → Prop} (hread : Read F (sessionKey session) (some (.ownership rec)) c m)
    (fresh : ∀ m₁, ownershipIn m₁ session = some rec → F c m₁ → ∀ cs, c.ownership session = some cs →
      cs.epoch.loc = 0 ∨ cs.epoch.global < rec.epoch) : Ready rec c m := by
  obtain ⟨m₁, hget, hF, tidy, rises⟩ := hread
  have hrec := ownershipIn_eq_some.2 ⟨hget, hv⟩
  have hsession := tidy.keyed session rec hrec
  subst hsession
  refine ⟨Stands.mono ⟨rec, hrec, Or.inr rfl⟩ rises, fun cs hcs => ?_⟩
  obtain ⟨-, hepoch, cur, hcur, hle⟩ := tidy.abreast _ cs hcs
  cases hrec.symm.trans hcur
  by_cases hlt : cs.epoch.global < rec.epoch
  · exact Or.inl (LocalEpoch.less_iff.2 (Or.inl hlt))
  · have hloc := (fresh m₁ hrec hF cs hcs).resolve_right hlt
    have hsame := (hle.resolve_left hlt).2 hloc
    refine Or.inr (Prod.ext (congrArg (·.egress) hsame) ?_)
    rcases hcs' : cs with ⟨record, global, loc⟩
    subst hcs'
    simp only at hsame hepoch hloc
    rw [← hepoch, hsame, hloc]

theorem triple_flaky_refresh :
    Knowing me k (Fresh session) (refresh (flakyStore fenced) ofCache k session) fun _ _ => True := by
  refine Triple.bind (triple_flaky_ownershipGet upward_fresh fenced session) fun res => ?_
  rcases res with e | _ | rec
  · exact Triple.done _
  · exact Triple.done _
  · refine Triple.bind ((triple_cache rec).pre fun w _ h fair => ?_) fun _ =>
      Triple.done _
    obtain ⟨hv, hread⟩ := (h fair).2 rec rfl
    refine ready_of_read hv hread fun m₁ hrec fresh cs hcs => (fresh cs hcs).imp_right ?_
    rintro ⟨cur, hcur, hlt⟩
    cases hrec.symm.trans hcur
    exact hlt

structure Seen (sid : String) (cs : CachedSession) (c : ConfigCache) : Prop where
  cached : c.ownership sid = some cs
  session : cs.record.session = sid
  epoch : cs.record.epoch = cs.epoch.global

theorem triple_seen {P : CachedSession → Prop} :
    Knowing me k (fun c _ => ∀ cs ∈ c.ownership session, P cs) (ofCache (.ownership k session))
      fun res => Informed me k fun c _ => ∀ cs, res = some cs → Seen session cs c ∧ P cs := by
  refine triple_told (o := .inr (.inl (.ownership k session)))
    (G := fun res c _ => ∀ cs, res = some cs → Seen session cs c ∧ P cs) (fun _ _ _ _ h => h)
    (fun _ _ _ _ _ h => h) rfl ?_
  intro ω s res s' hex _ _ tidy h _ cs hcs
  have hcached : (s.2.1 k).ownership session = some cs := (Prod.mk.inj (Option.some.inj hex)).1.trans hcs
  obtain ⟨hsession, hepoch, -⟩ := tidy.abreast session cs hcached
  exact ⟨⟨hcached, hsession, hepoch⟩, h cs hcached⟩

theorem triple_flaky_adopt (cs : CachedSession) (newEgress : String) (res : Bool × Option String) :
    Knowing me k (Answered (fun c _ => Seen session cs c ∧ cs.epoch.global ≠ 18446744073709551615)
        (cs.record.nextEpoch newEgress) res)
      (adopt (flakyStore fenced) ofCache k session (cs.record.nextEpoch newEgress) res) fun _ _ => True := by
  have hlt : ∀ {c}, Seen session cs c → cs.epoch.global ≠ 18446744073709551615 →
      cs.epoch.global < (cs.record.nextEpoch newEgress).epoch := by
    intro c seen room
    rw [← seen.epoch] at room ⊢
    exact lt_succ_of_ne_max room
  rcases res with ⟨applied, _ | e⟩
  · cases applied with
    | false =>
      refine Triple.bind (triple_flaky_refresh.pre fun w _ h fair => ?_) fun _ =>
        Triple.done _
      obtain ⟨⟨seen, room⟩, -, stored⟩ := h fair
      obtain ⟨cur, hcur, hle⟩ := stored rfl
      intro cs' hcs'
      cases seen.cached.symm.trans hcs'
      have hsession : (cs.record.nextEpoch newEgress).session = session := seen.session
      rw [hsession] at hcur
      exact Or.inr ⟨cur, hcur, UInt64.lt_of_lt_of_le (hlt seen room) hle⟩
    | true =>
      refine Triple.bind ((triple_cache _).pre fun w _ h fair => ?_) fun _ =>
        Triple.done _
      obtain ⟨⟨seen, room⟩, kept, -⟩ := h fair
      refine ⟨kept rfl, fun cs' hcs' => ?_⟩
      have hsession : (cs.record.nextEpoch newEgress).session = session := seen.session
      rw [hsession] at hcs'
      cases seen.cached.symm.trans hcs'
      exact Or.inl (LocalEpoch.less_iff.2 (Or.inl (hlt seen room)))
  · exact Triple.done _

theorem triple_flaky_attemptPlannedMigration (newEgress : String) :
    Knowing me k (fun c _ => ∀ cs ∈ c.ownership session, cs.epoch.global ≠ 18446744073709551615)
      (attemptPlannedMigration (flakyStore fenced) ofCache k session newEgress) fun _ _ => True := by
  refine Triple.bind triple_seen fun res => ?_
  cases res with
  | none => exact Triple.done _
  | some cs =>
    refine Triple.bind ((triple_flaky_setIfNewer (F := fun c _ => Seen session cs c ∧
      cs.epoch.global ≠ 18446744073709551615) (fun _ _ _ _ h => h) fenced _).pre
        fun w _ h fair => h fair cs rfl) fun res => ?_
    refine Triple.bind (triple_flaky_adopt cs newEgress res) fun res => ?_
    rcases res with ⟨applied, _ | e⟩
    · exact Triple.done _
    · exact Triple.done _

theorem triple_flaky_emergencyFailover (newEgress : String) :
    Knowing me k (fun c _ => ∀ cs ∈ c.ownership session, cs.epoch.loc ≠ 18446744073709551615)
      (emergencyFailover ofCache k session newEgress) fun _ _ => True := by
  refine Triple.bind triple_seen fun res => ?_
  cases res with
  | none => exact Triple.done _
  | some cs =>
    refine Triple.op (R := fun _ _ => True) (stable_told fun _ _ _ _ h => h) ?_ fun _ =>
      Triple.ret (fun _ _ _ _ => trivial) fun _ _ _ => trivial
    intro w ω r s' inv seen hex
    cases hex
    refine ⟨trivial, forward_push_own inv rfl fun fair tidy => ?_, trivial⟩
    obtain ⟨seen, hloc⟩ := seen fair cs rfl
    simp only [Function.update_self]
    constructor
    · refine ⟨tidy.keyed, fun session' cs' hcs' => ?_⟩
      rw [ConfigCache.ownership_bumpLocal _ _ seen.cached] at hcs'
      split_ifs at hcs' with hs
      · subst hs
        cases hcs'
        obtain ⟨cur, hcur, hle⟩ := (tidy.abreast _ cs seen.cached).stored
        refine ⟨seen.session, seen.epoch, cur, hcur, hle.imp_right fun hsame => ⟨?_, fun hzero => ?_⟩⟩
        · rw [hsame.1]
        · exact absurd hzero (succ_ne_zero_of_ne_max hloc)
      · exact tidy.abreast session' cs' hcs'
    · refine onward_of_one session ⟨{ cs.record with egress := newEgress },
        { cs.epoch with loc := cs.epoch.loc + 1 }⟩ ?_ (fun s hs => ?_) fun cs' hcs' => ?_
      · rw [ConfigCache.ownership_bumpLocal _ _ seen.cached, if_pos rfl]
      · rw [ConfigCache.ownership_bumpLocal _ _ seen.cached, if_neg hs]
      · cases seen.cached.symm.trans hcs'
        exact Or.inl (LocalEpoch.less_iff.2 (Or.inr ⟨rfl, lt_succ_of_ne_max hloc⟩))

theorem triple_flaky_reconcile :
    Knowing me k (fun c _ => ∀ cs ∈ c.ownership session, cs.epoch.global ≠ 18446744073709551615)
      (reconcile (flakyStore fenced) ofCache k session) fun _ _ => True := by
  refine Triple.bind triple_seen fun res => ?_
  cases res with
  | none => exact Triple.done _
  | some cs =>
    refine Triple.bind ((triple_flaky_ownershipGet (F := fun c _ => Seen session cs c ∧
      cs.epoch.global ≠ 18446744073709551615) (fun _ _ _ _ h => h) fenced session).pre
        fun w _ h fair => h fair cs rfl) fun res => ?_
    cases res with
    | error e => exact Triple.done _
    | ok current =>
      dsimp only [reconcileWith]
      cases hnewer : current.filter fun rec => decide (cs.epoch.global < rec.epoch) with
      | some rec =>
        obtain ⟨rfl, hlt⟩ := Option.filter_eq_some_iff.1 hnewer
        refine Triple.bind ((triple_cache rec).pre fun w _ h fair => ?_) fun _ =>
          Triple.done _
        obtain ⟨⟨seen, -⟩, hread⟩ := h fair
        obtain ⟨hv, hread⟩ := hread rec rfl
        refine ready_of_read hv hread fun m₁ _ _ cs' hcs' => Or.inr ?_
        cases seen.cached.symm.trans hcs'
        exact of_decide_eq_true hlt
      | none =>
        unfold settle
        dsimp only
        split_ifs
        · exact Triple.done _
        · refine Triple.bind ((triple_flaky_setIfNewer (F := fun c _ => Seen session cs c ∧
            cs.epoch.global ≠ 18446744073709551615) (fun _ _ _ _ h => h) fenced _).pre
              fun w _ h fair => (h fair).1) fun res => ?_
          exact triple_flaky_adopt cs cs.record.egress res

theorem triple_move (m : Move) :
    Knowing me k (fun c s => m.Timely c s) (m.run (flakyStore fenced) ofCache k) fun _ _ => True := by
  cases m with
  | refresh session => exact Triple.bind triple_flaky_refresh fun _ => Triple.done _
  | attemptPlannedMigration session newEgress =>
    exact Triple.bind (triple_flaky_attemptPlannedMigration newEgress) fun _ => Triple.done _
  | emergencyFailover session newEgress =>
    exact Triple.bind (triple_flaky_emergencyFailover newEgress) fun _ => Triple.done _
  | reconcile session => exact Triple.bind triple_flaky_reconcile fun _ => Triple.done _

theorem upward_timely (m : Move) : Upward fun c s => m.Timely c s := by
  cases m with
  | refresh session => exact upward_fresh
  | attemptPlannedMigration | emergencyFailover | reconcile => exact fun _ _ _ _ h => h

theorem triple_moveAll (moves : List Move) :
    Knowing me k (fun _ _ => True) (moveAll fenced k moves) fun _ _ => True := by
  induction moves with
  | nil => exact Triple.done _
  | cons m moves ih =>
    refine Triple.bind (R := fun _ => Informed me k fun c s => m.Timely c s)
      (triple_told (o := .inr (.inr (.call m))) (G := fun _ c s => m.Timely c s) upward_true
        (fun _ => upward_timely m) rfl fun _ _ _ _ _ _ timely _ _ rises => ?_) fun _ => ?_
    · exact upward_timely m _ _ _ rises (timely m rfl)
    · exact Triple.bind (triple_move m) fun _ => ih.pre fun _ _ _ _ => trivial

end Calls

/-! ## Whole runs -/

theorem forward_sound {m₀ : MemStore} (keyed : WellKeyed m₀) (fenced : Bool) (me : ι) (k : κ)
    (moves : List Move) (others : ι → Prog (FlakySig κ) Unit) (caches : κ → ConfigCache) :
    Sound (forwardContract me k) (flakySystem ι κ) (fun _ _ _ => True)
      (startMoves m₀ fenced me k moves others caches) := by
  have inv : (forwardContract me k).inv (startMoves m₀ fenced me k moves others caches).world := by
    refine fun _ => ⟨⟨keyed, fun session cs hcs => ?_⟩, fun e he => ?_⟩
    · simp only [startMoves, Function.update_self] at hcs
      cases hcs
    · cases he
  refine ⟨inv, fun i => ?_⟩
  by_cases hi : i = me
  · subst hi
    simp only [startMoves, Function.update_self]
    exact triple_moveAll moves _ inv fun _ => trivial
  · exact wp_of_keeps (fun w ω o r s' inv hex => ⟨trivial, forward_push inv hex fun h => absurd h hi⟩) _ _

/-- A controller makes one call after the other over a store that may fail at any operation, and whose epochs others
may raise.  If it never refreshes a session with an emergency failover to take back, and no counter wraps, the session
is never forwarded by an earlier epoch than before, and to another egress only by a later one. -/
theorem forwarding_onward {m₀ : MemStore} (keyed : WellKeyed m₀) (fenced : Bool) (me : ι) (k : κ)
    (moves : List Move) (others : ι → Prog (FlakySig κ) Unit) (caches : κ → ConfigCache)
    {c c' : Config ι (FlakySig κ) (FlakyState ι κ) Unit}
    (reach : Config.Reaches (flakySystem ι κ) (startMoves m₀ fenced me k moves others caches) c)
    (reach' : Config.Reaches (flakySystem ι κ) c c') (fair : ∀ e ∈ c'.world.hist, Fair me k e)
    (session egress : String) (epoch : LocalEpoch)
    (before : (c.world.st.2.1 k).forward session = some (egress, epoch)) :
    ∃ egress' epoch', (c'.world.st.2.1 k).forward session = some (egress', epoch') ∧
      epoch'.less epoch = false ∧ (egress' ≠ egress → epoch.less epoch' = true) := by
  have onward : Onward (c.world.st.2.1 k) (c'.world.st.2.1 k) := by
    induction reach' with
    | refl => exact Onward.refl _
    | @tail c₁ c₂ reach₁ step ih =>
      have sound := (forward_sound keyed fenced me k moves others caches).reaches ((reach.trans reach₁).tail step)
      rcases Config.step_cases step with ⟨j, o, p, ω, r, s', -, -, rfl⟩ | ⟨j, β, γ, body, b, p, -, rfl⟩
      · refine (ih fun e he => fair e (List.mem_append_left _ he)).trans ?_
        exact (sound.inv fair).2 _ (List.mem_append_right _ (List.mem_singleton_self _))
      · exact ih fair
  obtain ⟨⟨egress', epoch'⟩, hafter, later⟩ := onward session _ before
  refine ⟨egress', epoch', hafter, ?_, fun hne => ?_⟩
  · rcases later with hless | heq
    · exact Bool.eq_false_iff.2 (LocalEpoch.less_asymm hless)
    · rw [← (Prod.mk.inj heq).2]
      exact Bool.eq_false_iff.2 (LocalEpoch.less_irrefl _)
  · rcases later with hless | heq
    · exact hless
    · exact absurd (Prod.mk.inj heq).1.symm hne

namespace Sample

def alone (moves : List Move) : Config Unit (FlakySig Unit) (FlakyState Unit Unit) Unit :=
  startMoves Trial.atFive true () () moves (fun _ => .ret ()) fun _ => .empty

end Sample

theorem forwarding_onward_reconciled : ∃ c c', Config.Reaches (flakySystem Unit Unit)
        (Sample.alone [.refresh "7", .emergencyFailover "7" "gw-x", .reconcile "7", .reconcile "7"]) c ∧
      Config.Reaches (flakySystem Unit Unit) c c' ∧ (∀ e ∈ c'.world.hist, Fair () () e) ∧
      (c.world.st.2.1 ()).forward "7" = some ("gw-x", ⟨5, 1⟩) ∧
      (c'.world.st.2.1 ()).forward "7" = some ("gw-x", ⟨6, 0⟩) ∧
      (⟨6, 0⟩ : LocalEpoch).less ⟨5, 1⟩ = false := by
  obtain ⟨c, reach, before, rest⟩ := Config.reaches_of_run_any (flakySystem Unit Unit) (List.replicate 7 ((), none))
    (Sample.alone [.refresh "7", .emergencyFailover "7" "gw-x", .reconcile "7", .reconcile "7"])
    (fun c => (c.world.st.2.1 ()).forward "7" = some ("gw-x", ⟨5, 1⟩) ∧ (Config.run? (flakySystem Unit Unit)
        (List.replicate 2 ((), none) ++ ((), some "store unreachable") :: List.replicate 13 ((), none)) c).any
        (fun c' => (∀ e ∈ c'.world.hist, Fair () () e) ∧
          (c'.world.st.2.1 ()).forward "7" = some ("gw-x", ⟨6, 0⟩)) = true) (by decide)
  obtain ⟨c', reach', fair, after⟩ := Config.reaches_of_run_any (flakySystem Unit Unit) _ c
    (fun c' => (∀ e ∈ c'.world.hist, Fair () () e) ∧ (c'.world.st.2.1 ()).forward "7" = some ("gw-x", ⟨6, 0⟩)) rest
  obtain ⟨egress', epoch', hafter, hless, -⟩ := forwarding_onward Trial.wellKeyed_atFive true () () _ _ _ reach
    reach' fair "7" "gw-x" ⟨5, 1⟩ before
  cases after.symm.trans hafter
  exact ⟨c, c', reach, reach', fair, before, after, hless⟩

/-- The session is moved in an emergency and refreshed; the store has nothing newer, and the move is taken
back. -/
theorem refresh_takes_back : WellKeyed Trial.atFive ∧ ∃ c c', Config.Reaches (flakySystem Unit Unit)
        (Sample.alone [.refresh "7", .emergencyFailover "7" "gw-x", .refresh "7"]) c ∧
      Config.Reaches (flakySystem Unit Unit) c c' ∧ c'.world.st.1.mem.get (sessionKey "7") =
        Trial.atFive.get (sessionKey "7") ∧
      (c.world.st.2.1 ()).forward "7" = some ("gw-x", ⟨5, 1⟩) ∧
      (c'.world.st.2.1 ()).forward "7" = some ("gw-b", ⟨5, 0⟩) ∧
      (⟨5, 0⟩ : LocalEpoch).less ⟨5, 1⟩ = true := by
  refine ⟨Trial.wellKeyed_atFive, ?_⟩
  obtain ⟨c, reach, before, rest⟩ := Config.reaches_of_run_any (flakySystem Unit Unit) (List.replicate 7 ((), none))
    (Sample.alone [.refresh "7", .emergencyFailover "7" "gw-x", .refresh "7"])
    (fun c => (c.world.st.2.1 ()).forward "7" = some ("gw-x", ⟨5, 1⟩) ∧
      (Config.run? (flakySystem Unit Unit) (List.replicate 4 ((), none)) c).any
        (fun c' => c'.world.st.1.mem.get (sessionKey "7") = Trial.atFive.get (sessionKey "7") ∧
          (c'.world.st.2.1 ()).forward "7" = some ("gw-b", ⟨5, 0⟩)) = true) (by decide)
  obtain ⟨c', reach', unchanged, after⟩ := Config.reaches_of_run_any (flakySystem Unit Unit) _ c
    (fun c' => c'.world.st.1.mem.get (sessionKey "7") = Trial.atFive.get (sessionKey "7") ∧
      (c'.world.st.2.1 ()).forward "7" = some ("gw-b", ⟨5, 0⟩)) rest
  exact ⟨c, c', reach, reach', unchanged, before, after, by decide⟩

end Egressa.Failover
