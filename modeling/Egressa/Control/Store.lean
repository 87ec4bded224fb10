import Egressa.Conc.Rely
import Egressa.Records

/-!
# Stores

`MemStore` (`internal/control/store.go`) gives every write a fresh revision, and swaps a key only if its revision is
the expected one, 0 meaning that the key is absent.  Revisions do not wrap here.  `Disk` adds what `FileStore`
(`internal/controller/filestore.go`) keeps besides.  Each critical section is one operation of `StoreSig`.
-/

namespace Egressa

open Conc

/-- What a key holds.  The source has an `int64` revision. -/
structure MemEntry where
  value : Doc
  revision : ℕ
  deriving DecidableEq, Repr

/-- The keys with what they hold, and the last revision given out: an `int64` in the source, which is counted up
once a write. -/
structure MemStore where
  data : AList fun _ : String => MemEntry
  nextRev : ℕ
  revs : ∀ key e, data.lookup key = some e → 0 < e.revision ∧ e.revision ≤ nextRev

namespace MemStore

def empty : MemStore where
  data := ∅
  nextRev := 0
  revs _ _ h := by simp at h

def put (m : MemStore) (key : String) (value : Doc) : MemStore where
  data := m.data.insert key ⟨value, m.nextRev + 1⟩
  nextRev := m.nextRev + 1
  revs k e h := by
    by_cases hk : k = key
    · subst hk
      rw [AList.lookup_insert] at h
      cases h
      exact ⟨Nat.succ_pos _, le_rfl⟩
    · rw [AList.lookup_insert_ne hk] at h
      have := m.revs k e h
      exact ⟨this.1, by omega⟩

def get (m : MemStore) (key : String) : Option Doc := (m.data.lookup key).map (·.value)

/-- The entries under a prefix. -/
def list (m : MemStore) (pfx : String) : List (String × Doc) :=
  m.data.entries.filterMap fun e => if hasPrefix e.1 pfx then some (e.1, e.2.value) else none

/-- The revision of a key, which `CompareAndSwap` asks for. -/
def revision (m : MemStore) (key : String) : Option ℕ := (m.data.lookup key).map (·.revision)

/-- Writes if the revision of the key is the expected one. -/
def compareAndSwap (m : MemStore) (key : String) (expected : ℕ) (value : Doc) : (ℕ × Bool) × MemStore :=
  let cur := (m.revision key).getD 0
  if cur ≠ expected then ((cur, false), m) else ((m.nextRev + 1, true), m.put key value)

variable (m : MemStore)

@[simp] theorem get_empty (key : String) : empty.get key = none := rfl

@[simp] theorem get_put_self (key : String) (value : Doc) : (m.put key value).get key = some value := by
  simp [get, put]

theorem get_put_ne {key k : String} (value : Doc) (h : k ≠ key) : (m.put key value).get k = m.get k := by
  simp only [get, put, AList.lookup_insert_ne h]

theorem get_put (key k : String) (value : Doc) :
    (m.put key value).get k = if k = key then some value else m.get k := by
  split_ifs with h
  · subst h; exact m.get_put_self k value
  · exact m.get_put_ne value h

@[simp] theorem revision_put_self (key : String) (value : Doc) :
    (m.put key value).revision key = some (m.nextRev + 1) := by
  simp [revision, put]

theorem revision_put_ne {key k : String} (value : Doc) (h : k ≠ key) :
    (m.put key value).revision k = m.revision k := by
  simp only [revision, put, AList.lookup_insert_ne h]

theorem revision_isSome (key : String) : (m.revision key).isSome = (m.get key).isSome := by
  simp [revision, get]

theorem revision_pos {key : String} {r : ℕ} (h : m.revision key = some r) : 0 < r ∧ r ≤ m.nextRev := by
  obtain ⟨e, he, rfl⟩ := Option.map_eq_some_iff.1 h
  exact m.revs key e he

theorem revision_getD_eq_zero {key : String} (h : (m.revision key).getD 0 = 0) : m.get key = none := by
  cases hr : m.revision key with
  | none =>
    have := m.revision_isSome key
    rw [hr] at this
    simpa using this.symm
  | some r =>
    have := (m.revision_pos hr).1
    simp only [hr, Option.getD_some] at h
    omega

theorem compareAndSwap_cases (key : String) (expected : ℕ) (value : Doc) :
    (m.compareAndSwap key expected value = (((m.revision key).getD 0, false), m)) ∨
    ((m.revision key).getD 0 = expected ∧
      m.compareAndSwap key expected value = ((m.nextRev + 1, true), m.put key value)) := by
  unfold compareAndSwap
  by_cases h : (m.revision key).getD 0 = expected
  · exact Or.inr ⟨h, by simp [h]⟩
  · exact Or.inl (by simp [h])

theorem mem_list {pfx key : String} {value : Doc} :
    (key, value) ∈ m.list pfx ↔ hasPrefix key pfx = true ∧ m.get key = some value := by
  simp only [list, List.mem_filterMap]
  constructor
  · rintro ⟨⟨k, e⟩, he, h⟩
    split_ifs at h with hp
    cases h
    exact ⟨hp, Option.map_eq_some_iff.2 ⟨e, AList.mem_lookup_iff.2 he, rfl⟩⟩
  · rintro ⟨hp, hg⟩
    obtain ⟨e, he, rfl⟩ := Option.map_eq_some_iff.1 hg
    exact ⟨⟨key, e⟩, AList.mem_lookup_iff.1 he, by simp [hp]⟩

theorem nodup_list (pfx : String) : ((m.list pfx).map Prod.fst).Nodup := by
  have keys : ((m.list pfx).map Prod.fst).Sublist (m.data.entries.map Sigma.fst) := by
    unfold list
    induction m.data.entries with
    | nil => simp
    | cons e l ih =>
      simp only [List.filterMap_cons, List.map_cons]
      split_ifs
      · exact ih.cons_cons _
      · exact ih.cons _
  exact List.Nodup.sublist keys m.data.nodupKeys

theorem list_put_other {key pfx : String} (value : Doc) (h : hasPrefix key pfx = false) :
    (m.put key value).list pfx = m.list pfx := by
  have erase (l : List (Sigma fun _ : String => MemEntry)) :
      ((l.kerase key).filterMap fun e => if hasPrefix e.1 pfx then some (e.1, e.2.value) else none) =
        l.filterMap fun e => if hasPrefix e.1 pfx then some (e.1, e.2.value) else none := by
    induction l with
    | nil => rfl
    | cons e l ih =>
      by_cases he : key = e.1
      · rw [List.kerase_cons_eq he, List.filterMap_cons, ← he, h]
        rfl
      · rw [List.kerase_cons_ne he, List.filterMap_cons, List.filterMap_cons, ih]
  simp only [list, put, AList.entries_insert, List.filterMap_cons, h]
  exact erase m.data.entries

/-! ## Loading a saved file -/

/-- `OpenFileStore`: the store with what the file holds. -/
def openFile (kv : List (String × Doc)) : MemStore := kv.foldl (fun m p => m.put p.1 p.2) empty

theorem get_foldl_put (kv : List (String × Doc)) (m : MemStore) (key : String) :
    (kv.foldl (fun m p => m.put p.1 p.2) m).get key =
      ((kv.reverse.find? (·.1 == key)).map Prod.snd).or (m.get key) := by
  induction kv generalizing m with
  | nil => rfl
  | cons p kv ih =>
    rw [List.foldl_cons, ih, List.reverse_cons, List.find?_append, get_put]
    cases hk : kv.reverse.find? (·.1 == key) with
    | some q => rfl
    | none =>
      by_cases hp : key = p.1
      · simp [hp]
      · simp [hp, Ne.symm hp]

theorem get_openFile {kv : List (String × Doc)} (nodup : (kv.map Prod.fst).Nodup) (key : String)
    (value : Doc) : (openFile kv).get key = some value ↔ (key, value) ∈ kv := by
  rw [openFile, get_foldl_put, get_empty, Option.or_none]
  constructor
  · intro h
    obtain ⟨⟨k, v⟩, hf, rfl⟩ := Option.map_eq_some_iff.1 h
    have hk := List.find?_some hf
    simp only [beq_iff_eq] at hk
    subst hk
    exact List.mem_reverse.1 (List.mem_of_find?_eq_some hf)
  · intro h
    have hmem : (key, value) ∈ kv.reverse := List.mem_reverse.2 h
    obtain ⟨⟨k, v⟩, hf⟩ := Option.isSome_iff_exists.1
      (List.find?_isSome (p := fun q : String × Doc => q.1 == key).2 ⟨_, hmem, by simp⟩)
    have hk := List.find?_some hf
    simp only [beq_iff_eq] at hk
    subst hk
    have hv := List.mem_reverse.1 (List.mem_of_find?_eq_some hf)
    have : v = value := by
      have := List.inj_on_of_nodup_map nodup hv h rfl
      exact (Prod.mk.inj this).2
    rw [hf, ← this]
    rfl

end MemStore

/-! ## Operations -/

/-- A `MemStore`, with what a `FileStore` keeps besides. -/
structure Disk (ι : Type) where
  mem : MemStore
  /-- The contents of the file, as last renamed into place. -/
  file : List (String × Doc) := []
  saveMu : Option ι := none
  /-- The outcomes of the coming saves, or writes that may be refused, `none` for success; past the end of the list all
succeed. -/
  faults : List (Option String) := []

/-- The operations on the stores, each of them atomic. -/
inductive StoreOp where
  | memGet (key : String)
  | memList (pfx : String)
  | memPut (key : String) (value : Doc)
  | memRevision (key : String)
  | memCAS (key : String) (expected : ℕ) (value : Doc)
  | saveLock
  | saveUnlock
  | rename (kv : List (String × Doc))
  /-- Whether a write is refused, by a store that then does not make it. -/
  | refuse

def StoreOp.Res : StoreOp → Type
  | memGet _ => Option Doc
  | memList _ => List (String × Doc)
  | memPut _ _ => Unit
  | memRevision _ => Option ℕ
  | memCAS _ _ _ => ℕ × Bool
  | saveLock => Unit
  | saveUnlock => Unit
  | rename _ | refuse => Option String

abbrev StoreSig : Sig := ⟨StoreOp, StoreOp.Res⟩

/-- What the operations do.  `rename` stands for writing and renaming the temporary file, which may fail and leave the
old. -/
def storeSystem (ι : Type) (Ω : Type) [DecidableEq ι] : System ι StoreSig (Disk ι) Ω where
  exec _ i o d := match o with
    | .memGet key => some (d.mem.get key, d)
    | .memList pfx => some (d.mem.list pfx, d)
    | .memPut key value => some ((), { d with mem := d.mem.put key value })
    | .memRevision key => some (d.mem.revision key, d)
    | .memCAS key expected value =>
      let p := d.mem.compareAndSwap key expected value
      some (p.1, { d with mem := p.2 })
    | .saveLock => if d.saveMu = none then some ((), { d with saveMu := some i }) else none
    | .saveUnlock => if d.saveMu = some i then some ((), { d with saveMu := none }) else none
    | .rename kv => match d.faults with
      | [] => some (none, { d with file := kv })
      | none :: rest => some (none, { d with file := kv, faults := rest })
      | some e :: rest => some (some e, { d with faults := rest })
    | .refuse => some (d.faults.headD none, { d with faults := d.faults.tail })

/-! ## Interfaces -/

structure Fencer (S : Sig) where
  revision : String → Prog S (Except String (Option ℕ))
  compareAndSwap : String → ℕ → Doc → Prog S (ℕ × Bool × Option String)

structure KVStore (S : Sig) where
  put : String → Doc → Prog S (Option String)
  get : String → Prog S (Except String (Option Doc))
  list : String → Prog S (Except String (List (String × Doc)))
  fencer : Option (Fencer S)

section Stores

variable {X : Sig}

def onStore (o : StoreOp) : Prog (StoreSig.sum X) o.Res := .call (S := StoreSig.sum X) (.inl o)

def memGet (key : String) : Prog (StoreSig.sum X) (Option Doc) := onStore (.memGet key)
def memList (pfx : String) : Prog (StoreSig.sum X) (List (String × Doc)) := onStore (.memList pfx)
def memPut (key : String) (value : Doc) : Prog (StoreSig.sum X) Unit := onStore (.memPut key value)
def memRevision (key : String) : Prog (StoreSig.sum X) (Option ℕ) := onStore (.memRevision key)
def memCAS (key : String) (expected : ℕ) (value : Doc) : Prog (StoreSig.sum X) (ℕ × Bool) :=
  onStore (.memCAS key expected value)

/-- The `Fencer` of a store that runs `after` behind every write, with the key and what is written there. -/
def fencerWith (after : String → Doc → Prog (StoreSig.sum X) (Option String)) : Fencer (StoreSig.sum X) where
  revision key := do return .ok (← memRevision key)
  compareAndSwap key expected value := do
    let (rev, ok) ← memCAS key expected value
    if !ok then return (rev, ok, none)
    return (rev, ok, ← after key value)

/-- A store in memory that runs `after` behind every write. -/
def storeWith (after : String → Doc → Prog (StoreSig.sum X) (Option String)) : KVStore (StoreSig.sum X) where
  put key value := do
    memPut key value
    after key value
  get key := do return .ok (← memGet key)
  list pfx := do return .ok (← memList pfx)
  fencer := some (fencerWith after)

/-- The same `after` behind every write. -/
abbrev fencerThen (after : Prog (StoreSig.sum X) (Option String)) : Fencer (StoreSig.sum X) :=
  fencerWith fun _ _ => after

/-- The same `after` behind every write. -/
abbrev storeThen (after : Prog (StoreSig.sum X) (Option String)) : KVStore (StoreSig.sum X) :=
  storeWith fun _ _ => after

/-- `MemStore`. -/
def memStore : KVStore (StoreSig.sum X) := storeThen (return none)

/-- `FileStore.save`: the whole store is listed, and written over the file. -/
def save : Prog (StoreSig.sum X) (Option String) := do
  onStore .saveLock
  let all ← memList ""
  let err ← onStore (.rename all)
  onStore .saveUnlock
  return err

/-- A `FileStore`: the write is made in memory, then the file is saved. -/
def fileStore : KVStore (StoreSig.sum X) := storeThen save

end Stores

end Egressa
