import Egressa.Conc.Discipline
import Egressa.Controller.FileStore

/-!
# What a `FileStore` acknowledged

A write is made in memory, then the whole store is listed and written over the file, under a mutex that serializes
saves.  The file holds the store as it was at one moment (`Snapshots.file`), which only moves on, and a write is
acknowledged after a save that listed after it.
-/

namespace Egressa

open Conc
open Function (forall_update_iff update update_of_ne update_self)

variable {ι : Type} [DecidableEq ι]

/-- The writes of a file store. -/
inductive WriteCall where
  | put (key : String) (value : Doc)
  | compareAndSwap (key : String) (expected : ℕ) (value : Doc)

namespace WriteCall

def run : WriteCall → Prog (StoreSig.sum NoSig) (Bool × Option String)
  | .put key value => do
    return (true, ← fileStore.put key value)
  | .compareAndSwap key expected value => do
    match fileStore.fencer with
    | none => return (false, none)
    | some fencer =>
      let (_, ok, err) ← fencer.compareAndSwap key expected value
      return (ok, err)

def write : WriteCall → String × Doc
  | .put key value => (key, value)
  | .compareAndSwap key _ value => (key, value)

end WriteCall

/-- Calls on a store just opened: the keys of the file are put in some order `kv`; `faults` are the outcomes of the
saves. -/
def startWrites (file kv : List (String × Doc)) (faults : List (Option String)) (calls : ι → WriteCall) :
    Config ι (StoreSig.sum NoSig) (Disk ι × Unit) (Bool × Option String) where
  pool i := (calls i).run
  world := ⟨({ mem := .openFile kv, file, faults }, ()), []⟩

/-! ## What a call may do -/

/-- How far the write of a thread is. -/
inductive Saving where
  | ready
  | wrote (p : String × Doc)
  | locked (p : String × Doc)
  | listed (p : String × Doc) (kv : List (String × Doc))
  | kept (p : String × Doc)
  | safe (p : String × Doc)
  | lost
  | unsaved

namespace Saving

def written (p : String × Doc) : Option String → Saving
  | none => .kept p
  | some _ => .lost

/-- The operations a write may make where it is. -/
def next : Saving → (o : (StoreSig.sum NoSig).Op) → (StoreSig.sum NoSig).Res o → Option Saving
  | .ready, .inl (.memPut key value), _ => some (.wrote (key, value))
  | .ready, .inl (.memCAS key _ value), (r : ℕ × Bool) => some (if r.2 then .wrote (key, value) else .unsaved)
  | .wrote p, .inl .saveLock, _ => some (.locked p)
  | .locked p, .inl (.memList pfx), (r : List (String × Doc)) => if pfx = "" then some (.listed p r) else none
  | .listed p kv, .inl (.rename kv'), (r : Option String) =>
    if kv' = kv then some (Saving.written p r) else none
  | .kept p, .inl .saveUnlock, _ => some (.safe p)
  | .lost, .inl .saveUnlock, _ => some .unsaved
  | _, _, _ => none

def saved (p : String × Doc) : Option String → Saving → Prop
  | none, h => h = .safe p
  | some _, h => h = .unsaved

theorem follows_save (p : String × Doc) : Follows next save (saved p) (.wrote p) := by
  refine fun _ => ⟨.locked p, rfl, fun all => ⟨.listed p all, rfl, fun err => ⟨Saving.written p err, if_pos rfl, ?_⟩⟩⟩
  cases err with
  | none => exact fun _ => ⟨.safe p, rfl, rfl⟩
  | some e => exact fun _ => ⟨.unsaved, rfl, rfl⟩

def answers (p : String × Doc) (res : Bool × Option String) (h : Saving) : Prop := res = (true, none) → h = .safe p

theorem follows_run (call : WriteCall) : Follows next call.run (answers call.write) .ready := by
  cases call with
  | put key value =>
    refine fun _ => ⟨.wrote (key, value), rfl, ?_⟩
    refine (follows_save (key, value)).andThen fun err h hsaved => ?_
    cases err with
    | none => exact fun _ => hsaved
    | some e => exact nofun
  | compareAndSwap key expected value =>
    rintro ⟨rev, ok⟩
    cases ok with
    | false => exact ⟨.unsaved, by simp [next], nofun⟩
    | true =>
      refine ⟨.wrote (key, value), by simp [next], ?_⟩
      change Follows _ ((save >>= fun err => .ret (rev, true, err)) >>= fun res => .ret (res.2.1, res.2.2)) _ _
      refine Follows.andThen (Q := fun res h => saved (key, value) res.2.2 h) ?_ fun res h hsaved => ?_
      · exact (follows_save (key, value)).andThen fun _ _ h => h
      · obtain ⟨rev', ok', _ | e⟩ := res
        · exact fun _ => hsaved
        · exact nofun

def write? : Saving → Option (String × Doc)
  | .wrote p | .locked p | .listed p _ | .kept p | .safe p => some p
  | _ => none

def Locks : Saving → Prop
  | .locked _ | .listed _ _ | .kept _ | .lost => True
  | _ => False

/-- Which of the writes a save covers. -/
def Covers (saved listed n : ℕ) : Saving → Prop
  | .listed _ _ => n < listed
  | .kept _ | .safe _ => n < saved
  | _ => True

end Saving

/-! ## The file is the store as it was -/

section Replay

variable {X : Sig} {E : Type}

def MemStore.after (m : MemStore) : Option (String × Doc) → MemStore
  | none => m
  | some p => m.put p.1 p.2

/-- The store after the writes of a history. -/
def replay (m₀ : MemStore) (hist : List (Entry ι (StoreSig.sum X) (Disk ι × E))) : MemStore :=
  hist.foldl (fun m e => m.after (written e.op e.res)) m₀

omit [DecidableEq ι] in
theorem replay_append (m₀ : MemStore) (hist : List (Entry ι (StoreSig.sum X) (Disk ι × E)))
    (e : Entry ι (StoreSig.sum X) (Disk ι × E)) :
    replay m₀ (hist ++ [e]) = (replay m₀ hist).after (written e.op e.res) := by
  simp only [replay, List.foldl_append, List.foldl_cons, List.foldl_nil]

omit [DecidableEq ι] in
theorem get_replay (m₀ : MemStore) {hist : List (Entry ι (StoreSig.sum X) (Disk ι × E))} {n : ℕ}
    {e : Entry ι (StoreSig.sum X) (Disk ι × E)} {key : String} {value : Doc} (he : hist[n]? = some e)
    (hw : written e.op e.res = some (key, value)) :
    ∃ m e' value', n ≤ m ∧ hist[m]? = some e' ∧ written e'.op e'.res = some (key, value') ∧
      (replay m₀ hist).get key = some value' := by
  induction hist using List.reverseRecOn with
  | nil => cases he
  | append_singleton hist last ih =>
    have hlast : (hist ++ [last])[hist.length]? = some last := List.getElem?_concat_length
    have hlt := (List.getElem?_eq_some_iff.1 he).1
    rw [List.length_append, List.length_singleton] at hlt
    have later : (∃ m e' value', n ≤ m ∧ (hist ++ [last])[m]? = some e' ∧
        written e'.op e'.res = some (key, value') ∧ (replay m₀ hist).get key = some value') ∨
        n = hist.length := by
      by_cases hn : n < hist.length
      · rw [List.getElem?_append_left hn] at he
        obtain ⟨m, e', value', hle, he', hw', hget⟩ := ih he
        refine Or.inl ⟨m, e', value', hle, ?_, hw', hget⟩
        rw [List.getElem?_append_left (List.getElem?_eq_some_iff.1 he').1, he']
      · exact Or.inr (by omega)
    rw [replay_append]
    cases hwl : written last.op last.res with
    | none =>
      refine later.resolve_right fun hn => ?_
      rw [hn, hlast] at he
      cases he
      cases hwl.symm.trans hw
    | some p =>
      obtain ⟨k, v⟩ := p
      by_cases hk : key = k
      · subst hk
        exact ⟨hist.length, last, v, by omega, hlast, hwl, MemStore.get_put_self _ _ _⟩
      · refine (later.resolve_right fun hn => ?_).imp fun m ⟨e', value', hle, he', hw', hget⟩ =>
          ⟨e', value', hle, he', hw', (MemStore.get_put_ne _ _ hk).trans hget⟩
        rw [hn, hlast] at he
        cases he
        exact hk (Prod.mk.inj (Option.some.inj (hw.symm.trans hwl))).1

end Replay

/-- The list has the entries of the store. -/
structure ListingOf (kv : List (String × Doc)) (m : MemStore) : Prop where
  nodup : (kv.map Prod.fst).Nodup
  mem_iff : ∀ key value, (key, value) ∈ kv ↔ m.get key = some value

theorem listingOf_list (m : MemStore) : ListingOf (m.list "") m :=
  ⟨m.nodup_list "", fun key value => by simp [m.mem_list, hasPrefix]⟩

theorem listingOf_openFile {file kv : List (String × Doc)} (nodup : (file.map Prod.fst).Nodup)
    (perm : kv.Perm file) : ListingOf file (.openFile kv) := by
  refine ⟨nodup, fun key value => ?_⟩
  rw [MemStore.get_openFile ((perm.map Prod.fst).nodup_iff.2 nodup), perm.mem_iff]

theorem ListingOf.get_openFile {file kv : List (String × Doc)} {m : MemStore} (h : ListingOf file m)
    (perm : kv.Perm file) {key : String} {value : Doc} (hget : m.get key = some value) :
    (MemStore.openFile kv).get key = some value := by
  rw [MemStore.get_openFile ((perm.map Prod.fst).nodup_iff.2 h.nodup), perm.mem_iff, h.mem_iff]
  exact hget

/-- The file is the store after `saved` operations. -/
structure Snapshots (m₀ : MemStore) (w : World ι (StoreSig.sum NoSig) (Disk ι × Unit)) (hs : ι → Saving)
    (saved listed : ℕ) : Prop where
  mem : w.st.1.mem = replay m₀ w.hist
  le : saved ≤ w.hist.length
  file : ListingOf w.st.1.file (replay m₀ (w.hist.take saved))
  lock : ∀ j, (hs j).Locks → w.st.1.saveMu = some j
  listing : ∀ j p kv, hs j = .listed p kv → saved ≤ listed ∧ listed ≤ w.hist.length ∧
    ListingOf kv (replay m₀ (w.hist.take listed))
  made : ∀ j p, (hs j).write? = some p → ∃ n e, w.hist[n]? = some e ∧ e.tid = j ∧
    written e.op e.res = some p ∧ (hs j).Covers saved listed n

theorem exec_saveMu {ω : Unit} {i : ι} {o : StoreOp} {s s' : Disk ι × Unit} {r : o.Res}
    (hex : (bareSystem ι).exec ω i (.inl o) s = some (r, s')) :
    s'.1.saveMu = match o with
      | .saveLock => some i
      | .saveUnlock => none
      | _ => s.1.saveMu := by
  obtain ⟨⟨r', d⟩, hd, hp⟩ := Option.map_eq_some_iff.1 hex
  cases hp
  cases o with
  | memGet | memList | memPut | memRevision | memCAS | refuse =>
    cases hd
    rfl
  | saveLock | saveUnlock =>
    simp only [storeSystem] at hd
    split_ifs at hd
    cases hd
    rfl
  | rename kv =>
    simp only [storeSystem] at hd
    split at hd <;> obtain ⟨-, rfl⟩ := Prod.mk.inj (Option.some.inj hd) <;> rfl

theorem saveMu_of_saveLock {ω : Unit} {i : ι} {s s' : Disk ι × Unit} {r : Unit}
    (hex : (bareSystem ι).exec ω i (.inl .saveLock) s = some (r, s')) : s.1.saveMu = none := by
  by_contra h
  simp [System.sum, storeSystem, h] at hex

namespace Snapshots

variable {m₀ : MemStore} {w : StoreWorld ι NoSig Unit} {hs : ι → Saving} {saved listed : ℕ}
  {i : ι} {o : (StoreSig.sum NoSig).Op} {r : (StoreSig.sum NoSig).Res o} {s' : Disk ι × Unit} {h' : Saving}

omit [DecidableEq ι] in
theorem take_push {n : ℕ} (hn : n ≤ w.hist.length) : (w.push i o r s').hist.take n = w.hist.take n :=
  List.take_append_of_le_length hn

omit [DecidableEq ι] in
theorem getElem?_push {n : ℕ} {e : Entry ι (StoreSig.sum NoSig) (Disk ι × Unit)} (he : w.hist[n]? = some e) :
    (w.push i o r s').hist[n]? = some e := by
  rw [World.push_hist, List.getElem?_append_left (List.getElem?_eq_some_iff.1 he).1, he]

variable {ω : Unit}

section

variable (inv : Snapshots m₀ w hs saved listed)
include inv

theorem mem_push
    (hex : (bareSystem ι).exec ω i o w.st = some (r, s')) : s'.1.mem = replay m₀ (w.push i o r s').hist := by
  rw [exec_mem hex, World.push_hist, replay_append, ← inv.mem]
  cases written o r <;> rfl

omit [DecidableEq ι] in
theorem alone (hi : (hs i).Locks) {j : ι} (hj : (hs j).Locks) : j = i :=
  Option.some.inj ((inv.lock j hj).symm.trans (inv.lock i hi))

theorem lock_same (hmu : s'.1.saveMu = w.st.1.saveMu) (locks : h'.Locks → (hs i).Locks) :
    ∀ j, (update hs i h' j).Locks → s'.1.saveMu = some j := by
  rw [hmu]
  exact (forall_update_iff hs fun j h => h.Locks → _ = some j).2 ⟨fun h => inv.lock i (locks h), fun j _ => inv.lock j⟩

section

variable (hex : (bareSystem ι).exec ω i o w.st = some (r, s'))
include hex

theorem push {saved' listed' : ℕ} (le : saved' ≤ w.hist.length)
    (file : ListingOf s'.1.file (replay m₀ (w.hist.take saved')))
    (lock : ∀ j, (update hs i h' j).Locks → s'.1.saveMu = some j)
    (listing : ∀ j p kv, update hs i h' j = .listed p kv → saved' ≤ listed' ∧ listed' ≤ w.hist.length ∧
      ListingOf kv (replay m₀ (w.hist.take listed')))
    (own : ∀ p, h'.write? = some p → written o r = some p ∧ h' = .wrote p ∨
      (hs i).write? = some p ∧ ∀ n < w.hist.length, (hs i).Covers saved listed n → h'.Covers saved' listed' n)
    (others : ∀ j, j ≠ i → ∀ n, (hs j).Covers saved listed n → (hs j).Covers saved' listed' n) :
    Snapshots m₀ (w.push i o r s') (update hs i h') saved' listed' := by
  have longer : ∀ {n}, n ≤ w.hist.length → n ≤ (w.push i o r s').hist.length := fun h => by
    rw [World.push_hist, List.length_append]
    exact Nat.le_add_right_of_le h
  refine ⟨inv.mem_push hex, longer le, ?_, lock, fun j p kv hj => ?_, fun j p hj => ?_⟩
  · rw [World.push_st, take_push le]
    exact file
  · obtain ⟨hle, hlen, hlist⟩ := listing j p kv hj
    rw [take_push hlen]
    exact ⟨hle, longer hlen, hlist⟩
  · by_cases hji : j = i
    · subst hji
      rw [update_self] at hj ⊢
      rcases own p hj with ⟨hw, rfl⟩ | ⟨hwrote, covers⟩
      · exact ⟨w.hist.length, _, List.getElem?_concat_length, rfl, hw, trivial⟩
      · obtain ⟨n, e, he, ht, hw, hcov⟩ := inv.made j p hwrote
        exact ⟨n, e, getElem?_push he, ht, hw, covers n (List.getElem?_eq_some_iff.1 he).1 hcov⟩
    · rw [update_of_ne hji] at hj ⊢
      obtain ⟨n, e, he, ht, hw, hcov⟩ := inv.made j p hj
      exact ⟨n, e, getElem?_push he, ht, hw, others j hji n hcov⟩

theorem push_same (hfile : renamed o r = none)
    (lock : ∀ j, (update hs i h' j).Locks → s'.1.saveMu = some j) (listing : ∀ p kv, h' ≠ .listed p kv)
    (own : ∀ p, h'.write? = some p → written o r = some p ∧ h' = .wrote p ∨
      (hs i).write? = some p ∧ ∀ n, (hs i).Covers saved listed n → h'.Covers saved listed n) :
    Snapshots m₀ (w.push i o r s') (update hs i h') saved listed := by
  refine inv.push hex inv.le ?_ lock (fun j p kv hj => ?_)
    (fun p hp => (own p hp).imp_right fun h => ⟨h.1, fun n _ => h.2 n⟩) fun _ _ _ h => h
  · rw [exec_file hex, hfile]
    exact inv.file
  · by_cases hji : j = i
    · subst hji
      rw [update_self] at hj
      exact absurd hj (listing p kv)
    · rw [update_of_ne hji] at hj
      exact inv.listing j p kv hj

theorem push_list {p : String × Doc} (hfile : renamed o r = none)
    (hmu : s'.1.saveMu = w.st.1.saveMu) (hi : hs i = .locked p) :
    Snapshots m₀ (w.push i o r s') (update hs i (.listed p (w.st.1.mem.list ""))) saved w.hist.length := by
  have locks : (hs i).Locks := by rw [hi]; trivial
  refine inv.push hex inv.le ?_ (inv.lock_same hmu fun _ => locks) (fun j p' kv hj => ?_) (fun p' hp => ?_)
    fun j hji n hcov => ?_
  · rw [exec_file hex, hfile]
    exact inv.file
  · by_cases hji : j = i
    · subst hji
      rw [update_self] at hj
      obtain ⟨-, rfl⟩ := Saving.listed.inj hj
      rw [List.take_length, ← inv.mem]
      exact ⟨inv.le, le_rfl, listingOf_list _⟩
    · rw [update_of_ne hji] at hj
      exact absurd (inv.alone locks (by rw [hj]; trivial)) hji
  · exact Or.inr ⟨by rw [hi]; exact hp, fun n hn _ => hn⟩
  · cases h : hs j with
    | listed q kv => exact absurd (inv.alone locks (by rw [h]; trivial)) hji
    | _ =>
      rw [h] at hcov
      exact hcov

theorem push_rename {p : String × Doc} {kv : List (String × Doc)} (hfile : renamed o r = some kv)
    (hmu : s'.1.saveMu = w.st.1.saveMu) (hi : hs i = .listed p kv) :
    Snapshots m₀ (w.push i o r s') (update hs i (.kept p)) listed listed := by
  have locks : (hs i).Locks := by rw [hi]; trivial
  obtain ⟨hle, hlen, hlist⟩ := inv.listing i p kv hi
  refine inv.push hex hlen ?_ (inv.lock_same hmu fun _ => locks) (fun j p' kv hj => ?_) (fun p' hp => ?_)
    fun j hji n hcov => ?_
  · rw [exec_file hex, hfile]
    exact hlist
  · by_cases hji : j = i
    · subst hji
      rw [update_self] at hj
      cases hj
    · rw [update_of_ne hji] at hj
      exact absurd (inv.alone locks (by rw [hj]; trivial)) hji
  · rw [hi]
    exact Or.inr ⟨hp, fun n _ hcov => hcov⟩
  · cases h : hs j with
    | listed q kv => exact absurd (inv.alone locks (by rw [h]; trivial)) hji
    | kept q | safe q =>
      rw [h] at hcov
      exact Nat.lt_of_lt_of_le hcov hle
    | _ => trivial

end

theorem exec {o : StoreOp} {r : o.Res}
    (hex : (bareSystem ι).exec ω i (.inl o) w.st = some (r, s')) (next : (hs i).next (.inl o) r = some h') :
    ∃ saved' listed', Snapshots m₀ (w.push i (.inl o) r s') (update hs i h') saved' listed' := by
  have hmu := exec_saveMu hex
  -- a call that gives back the mutex
  have unlock (locks : (hs i).Locks) (free : ¬ h'.Locks) : ∀ j, (update hs i h' j).Locks → s'.1.saveMu = some j :=
    (forall_update_iff hs fun j h => h.Locks → s'.1.saveMu = some j).2
      ⟨fun h => absurd h free, fun _ hji hj => absurd (inv.alone locks hj) hji⟩
  generalize hi : hs i = h at next
  cases h with
  | ready =>
    cases o with
    | memPut key value =>
      cases next
      exact ⟨saved, listed, inv.push_same hex rfl (inv.lock_same hmu False.elim) nofun
        fun p hp => Or.inl ⟨hp, by rw [Option.some.inj hp]⟩⟩
    | memCAS key expected value =>
      obtain ⟨rev, ok⟩ := r
      cases ok with
      | false =>
        cases next
        exact ⟨saved, listed, inv.push_same hex rfl (inv.lock_same hmu False.elim) nofun nofun⟩
      | true =>
        cases next
        exact ⟨saved, listed, inv.push_same hex rfl (inv.lock_same hmu False.elim) nofun
          fun p hp => Or.inl ⟨hp, by rw [← Option.some.inj hp]; rfl⟩⟩
    | _ => cases next
  | wrote p =>
    cases o with
    | saveLock =>
      cases next
      refine ⟨saved, listed, inv.push_same hex rfl (fun j hj => ?_) nofun fun q hq => Or.inr ?_⟩
      · by_cases hji : j = i
        · subst hji
          exact hmu
        · rw [update_of_ne hji] at hj
          have free : w.st.1.saveMu = none := saveMu_of_saveLock hex
          cases free.symm.trans (inv.lock j hj)
      · rw [hi]
        exact ⟨hq, fun _ h => h⟩
    | _ => cases next
  | locked p =>
    cases o with
    | memList pfx =>
      simp only [Saving.next] at next
      split_ifs at next with hpfx
      subst hpfx
      cases next
      obtain ⟨rfl, -⟩ := Prod.mk.inj (Option.some.inj hex)
      exact ⟨saved, w.hist.length, inv.push_list hex rfl hmu hi⟩
    | _ => cases next
  | listed p kv =>
    cases o with
    | rename kv' =>
      simp only [Saving.next] at next
      split_ifs at next with hkv
      subst hkv
      cases next
      cases r with
      | none => exact ⟨listed, listed, inv.push_rename hex rfl hmu hi⟩
      | some e =>
        exact ⟨saved, listed, inv.push_same hex rfl (inv.lock_same hmu fun _ => by rw [hi]; trivial) nofun nofun⟩
    | _ => cases next
  | kept p =>
    cases o with
    | saveUnlock =>
      cases next
      refine ⟨saved, listed, inv.push_same hex rfl (unlock (by rw [hi]; trivial) id) nofun fun q hq => Or.inr ?_⟩
      rw [hi]
      exact ⟨hq, fun _ h => h⟩
    | _ => cases next
  | lost =>
    cases o with
    | saveUnlock =>
      cases next
      exact ⟨saved, listed, inv.push_same hex rfl (unlock (by rw [hi]; trivial) id) nofun nofun⟩
    | _ => cases next
  | _ => cases next

end

omit [DecidableEq ι] in
theorem start {file kv : List (String × Doc)} (nodup : (file.map Prod.fst).Nodup) (perm : kv.Perm file)
    (faults : List (Option String)) (calls : ι → WriteCall) :
    Snapshots (.openFile kv) (startWrites file kv faults calls).world (fun _ => .ready) 0 0 where
  mem := rfl
  le := le_rfl
  file := listingOf_openFile nodup perm
  lock _ h := h.elim
  listing _ _ _ h := by cases h
  made _ _ h := by cases h

end Snapshots

/-- However puts and compare-and-swaps interleave, and whichever saves fail: whenever the store crashes, opening the
file, in whatever order its keys are put, finds for every call answered without an error what it wrote, or what was
written to its key later. -/
theorem acknowledged_kept {file kv : List (String × Doc)} (nodup : (file.map Prod.fst).Nodup) (perm : kv.Perm file)
    (faults : List (Option String)) (calls : ι → WriteCall)
    {c : Config ι (StoreSig.sum NoSig) (Disk ι × Unit) (Bool × Option String)}
    (reach : Config.Reaches (bareSystem ι) (startWrites file kv faults calls) c) :
    ∀ i, c.pool i = .ret (true, none) →
      ∃ (n : ℕ) (e : Entry ι (StoreSig.sum NoSig) (Disk ι × Unit)), c.world.hist[n]? = some e ∧ e.tid = i ∧
        written e.op e.res = some (calls i).write ∧
        ∀ kv' : List (String × Doc), kv'.Perm c.world.st.1.file →
          ∃ (m : ℕ) (e' : Entry ι (StoreSig.sum NoSig) (Disk ι × Unit)) (value : Doc), n ≤ m ∧
            c.world.hist[m]? = some e' ∧ written e'.op e'.res = some ((calls i).write.1, value) ∧
            (MemStore.openFile kv').get (calls i).write.1 = some value := by
  intro i acknowledged
  obtain ⟨hs, tracked, saved, listed, inv⟩ := Tracked.reaches (Q := fun i => Saving.answers (calls i).write)
    (I := fun w hs => ∃ saved listed, Snapshots (.openFile kv) w hs saved listed)
    (fun i => Saving.follows_run (calls i))
    (fun w hs i ω o r s' h' inv hex next => by
      obtain ⟨saved, listed, inv⟩ := inv
      cases o with
      | inl o => exact inv.exec hex next
      | inr x => exact x.elim)
    ⟨0, 0, Snapshots.start nodup perm faults calls⟩ reach
  have safe : hs i = .safe (calls i).write := by
    have hi := tracked i
    rw [acknowledged] at hi
    exact hi rfl
  obtain ⟨n, e, he, ht, hw, hcov⟩ := inv.made i (calls i).write (by rw [safe]; rfl)
  rw [safe] at hcov
  refine ⟨n, e, he, ht, hw, fun kv' perm' => ?_⟩
  -- the file is of a moment after the write
  have he' : (c.world.hist.take saved)[n]? = some e := by rwa [List.getElem?_take_of_lt hcov]
  obtain ⟨m, e', value, hle, hm, hw', hget⟩ := get_replay (.openFile kv) he' hw
  refine ⟨m, e', value, hle, ?_, hw', inv.file.get_openFile perm' hget⟩
  rw [List.getElem?_take] at hm
  split_ifs at hm
  exact hm

/-- Of two puts of a key the second is made while the first is saving; the first is acknowledged, and the second
one's save fails. -/
theorem acknowledged_kept_overtaken :
    let calls (i : Bool) : WriteCall := .put "k" (.raw (if i then "new" else "old"))
    ∃ c, Config.Reaches (bareSystem Bool) (startWrites [] [] [none, some "disk full"] calls) c ∧
      c.pool false = .ret (true, none) ∧ c.pool true = .ret (true, some "disk full") ∧
      c.world.st.1.file = [("k", .raw "new")] ∧
      ∃ (n : ℕ) (e : Entry Bool (StoreSig.sum NoSig) (Disk Bool × Unit)), c.world.hist[n]? = some e ∧ e.tid = false ∧
        written e.op e.res = some ("k", .raw "old") ∧
        ∃ (m : ℕ) (e' : Entry Bool (StoreSig.sum NoSig) (Disk Bool × Unit)) (value : Doc), n ≤ m ∧
          c.world.hist[m]? = some e' ∧ written e'.op e'.res = some ("k", value) ∧
          (MemStore.openFile c.world.st.1.file).get "k" = some value := by
  intro calls
  obtain ⟨c, reach, hfalse, htrue, hfile⟩ := Config.reaches_of_run_any (bareSystem Bool)
    ([false, false, true, false, false, false, true, true, true, true].map (·, ()))
    (startWrites [] [] [none, some "disk full"] calls)
    (fun c => (c.pool false).result? = some (true, none) ∧ (c.pool true).result? = some (true, some "disk full") ∧
      c.world.st.1.file = [("k", .raw "new")]) (by decide)
  have hret := Prog.eq_ret_of_result hfalse
  have nodup : (([] : List (String × Doc)).map Prod.fst).Nodup := List.nodup_nil
  obtain ⟨n, e, he, ht, hw, kept⟩ :=
    acknowledged_kept nodup (List.Perm.refl []) [none, some "disk full"] calls reach false hret
  exact ⟨c, reach, hret, Prog.eq_ret_of_result htrue, hfile, n, e, he, ht, hw, kept _ (List.Perm.refl _)⟩

end Egressa
