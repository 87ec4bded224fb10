import Egressa.Conc.Discipline
import Egressa.Control.Store

/-!
# Watching a `MemStore`

`MemStore.Watch` hands out a channel of 16 events.  A write collects the channels of the watchers under the lock, and
sends to them, without blocking, when it has released it.  A cancelled watch closes its channel under the lock.
-/

namespace Egressa

open Conc
open Function (forall_update_iff update update_of_ne update_self)

/-! ## Watchers -/

structure WatchEvent where
  key : String
  value : Doc
  deleted : Bool := false
  deriving DecidableEq, Repr

/-- A Go channel. -/
structure Chan where
  buf : List WatchEvent := []
  closed : Bool := false
  deriving DecidableEq, Repr

/-- The watchers by prefix, and their channels. -/
structure Watchers where
  watchers : AList fun _ : String => List ℕ
  chans : ℕ → Chan
  next : ℕ

/-- What becomes of a send that does not block; on a closed channel it panics. -/
inductive Sent where
  | sent
  | dropped
  | closed
  deriving DecidableEq, Repr

namespace Watchers

def empty : Watchers := ⟨∅, fun _ => {}, 0⟩

def buffer : ℕ := 16

def registered (s : Watchers) (pfx : String) : List ℕ := (s.watchers.lookup pfx).getD []

/-- `Watch`, up to the goroutine it starts. -/
def watch (s : Watchers) (pfx : String) : ℕ × Watchers :=
  (s.next, ⟨s.watchers.insert pfx (s.registered pfx ++ [s.next]), update s.chans s.next {}, s.next + 1⟩)

/-- What the goroutine of a watch does once it is cancelled. -/
def cleanup (s : Watchers) (pfx : String) (ch : ℕ) : Watchers where
  watchers := if ch ∈ s.registered pfx then s.watchers.insert pfx ((s.registered pfx).erase ch) else s.watchers
  chans := update s.chans ch { s.chans ch with closed := true }
  next := s.next

/-- The channels to notify of a change of `key`, if the prefixes are ranged over in this order. -/
def collect (s : Watchers) (order : List String) (key : String) : List ℕ :=
  (order.filter (hasPrefix key)).flatMap s.registered

/-- A send that does not block. -/
def send (s : Watchers) (ch : ℕ) (ev : WatchEvent) : Sent × Watchers :=
  if (s.chans ch).closed then (.closed, s)
  else if (s.chans ch).buf.length < buffer then
    (.sent, { s with chans := update s.chans ch { s.chans ch with buf := (s.chans ch).buf ++ [ev] } })
  else (.dropped, s)

def recv (s : Watchers) (ch : ℕ) : Option (Option WatchEvent × Watchers) :=
  match (s.chans ch).buf with
  | ev :: rest => some (some ev, { s with chans := update s.chans ch { s.chans ch with buf := rest } })
  | [] => if (s.chans ch).closed then some (none, s) else none

end Watchers

inductive WatchOp where
  | watch (pfx : String)
  | cleanup (pfx : String) (ch : ℕ)
  | collect (key : String)
  | send (ch : ℕ) (ev : WatchEvent)
  | recv (ch : ℕ)

def WatchOp.Res : WatchOp → Type
  | watch _ => ℕ
  | cleanup _ _ => Unit
  | collect _ => List ℕ
  | send _ _ => Sent
  | recv _ => Option WatchEvent

abbrev WatchSig : Sig := ⟨WatchOp, WatchOp.Res⟩

/-- The order in which a map is ranged over is any order of its keys. -/
def watchSystem (ι : Type) : System ι WatchSig Watchers (List String) where
  exec ω _ o s := match o with
    | .watch pfx => some (s.watch pfx)
    | .cleanup pfx ch => some ((), s.cleanup pfx ch)
    | .collect key => if ω.Perm s.watchers.keys then some (s.collect ω key, s) else none
    | .send ch ev => some (s.send ch ev)
    | .recv ch => s.recv ch

section Programs

variable {S : Sig} (watch : (o : WatchOp) → Prog S o.Res)

/-- Sends to the channels collected before. -/
def tellAll (ev : WatchEvent) : List ℕ → Prog S Unit
  | [] => return ()
  | ch :: rest => do
    let _ ← watch (.send ch ev)
    tellAll ev rest

/-- Tells the watchers of a key. -/
def notify (ev : WatchEvent) : Prog S Unit := do
  tellAll watch ev (← watch (.collect ev.key))

def notifyWrite (key : String) (value : Doc) : Prog S (Option String) := do
  notify watch ⟨key, value, false⟩
  return none

def notifyingStore {X : Sig} (watch : (o : WatchOp) → Prog (StoreSig.sum X) o.Res) : KVStore (StoreSig.sum X) :=
  storeWith (notifyWrite watch)

end Programs

/-! ## Writers and watchers -/

abbrev WatchedSig : Sig := StoreSig.sum WatchSig

abbrev watchedSystem (ι : Type) [DecidableEq ι] : System ι WatchedSig (Disk ι × Watchers) (List String) :=
  (storeSystem ι _).sum (watchSystem ι)

def onWatch (o : WatchOp) : Prog WatchedSig o.Res := .call (S := WatchedSig) (.inr o)

inductive WatchCall where
  | put (key : String) (value : Doc)
  | compareAndSwap (key : String) (expected : ℕ) (value : Doc)
  | watch (pfx : String)

/-- The calls on a watched store. -/
def WatchCall.run : WatchCall → Prog WatchedSig Unit
  | .put key value => do
    let _ ← (notifyingStore onWatch).put key value
  | .compareAndSwap key expected value => do
    match (notifyingStore onWatch).fencer with
    | none => return ()
    | some fencer =>
      let _ ← fencer.compareAndSwap key expected value
  | .watch pfx => do
    let ch ← onWatch (.watch pfx)
    onWatch (.cleanup pfx ch)

variable {ι : Type} [DecidableEq ι]

def startWatched (m₀ : MemStore) (calls : ι → WatchCall) : Config ι WatchedSig (Disk ι × Watchers) Unit where
  pool i := (calls i).run
  world := ⟨({ mem := m₀ }, .empty), []⟩

/-! ## What a thread may do -/

/-- The channels a notify has still to send to, and the own watch. -/
structure WatchDuty where
  pending : List ℕ := []
  own : Option (String × ℕ) := none
  deriving DecidableEq

def WatchDuty.next (h : WatchDuty) : (o : WatchedSig.Op) → WatchedSig.Res o → Option WatchDuty
  | .inl _, _ => some h
  | .inr (.collect _), (chs : List ℕ) => some { h with pending := chs }
  | .inr (.send ch _), _ => if h.pending.head? = some ch then some { h with pending := h.pending.tail } else none
  | .inr (.watch pfx), (ch : ℕ) => if h.own = none then some { h with own := some (pfx, ch) } else none
  | .inr (.cleanup pfx ch), _ => if h.own = some (pfx, ch) then some { h with own := none } else none
  | .inr (.recv _), _ => some h

theorem follows_tellAll (ev : WatchEvent) (chs : List ℕ) (own : Option (String × ℕ)) :
    Follows WatchDuty.next (tellAll onWatch ev chs) (fun _ _ => True) ⟨chs, own⟩ := by
  induction chs with
  | nil => trivial
  | cons ch rest ih => exact fun _ => ⟨⟨rest, own⟩, by simp [WatchDuty.next], ih⟩

theorem follows_notifyWrite (key : String) (value : Doc) (h : WatchDuty) :
    Follows WatchDuty.next (notifyWrite onWatch key value) (fun _ _ => True) h := by
  refine Follows.andThen (Q := fun _ _ => True) ?_ fun _ _ _ => trivial
  exact fun chs => ⟨⟨chs, h.own⟩, rfl, follows_tellAll _ chs h.own⟩

theorem follows_watchCall (call : WatchCall) : Follows WatchDuty.next call.run (fun _ _ => True) {} := by
  cases call with
  | put key value =>
    refine fun _ => ⟨{}, rfl, ?_⟩
    change Follows _ (notifyWrite onWatch key value >>= fun _ => .ret ()) _ _
    exact (follows_notifyWrite key value {}).andThen fun _ _ _ => trivial
  | compareAndSwap key expected value =>
    rintro ⟨rev, ok⟩
    refine ⟨{}, rfl, ?_⟩
    cases ok with
    | false => trivial
    | true =>
      change Follows _ ((notifyWrite onWatch key value >>= fun err => .ret (rev, true, err)) >>= fun _ => .ret ()) _ _
      refine Follows.andThen (Q := fun _ _ => True) ?_ fun _ _ _ => trivial
      exact (follows_notifyWrite key value {}).andThen fun _ _ _ => trivial
  | watch pfx => exact fun ch => ⟨⟨[], some (pfx, ch)⟩, rfl, fun _ => ⟨{}, by simp [WatchDuty.next], trivial⟩⟩

/-! ## Channels that are open -/

namespace Watchers

/-- What is registered is open, and once. -/
structure Tidy (s : Watchers) : Prop where
  isOpen : ∀ pfx, ∀ ch ∈ s.registered pfx, ch < s.next ∧ (s.chans ch).closed = false
  nodup : ∀ pfx, (s.registered pfx).Nodup

variable {s : Watchers}

theorem registered_watch (s : Watchers) (pfx p : String) : (s.watch pfx).2.registered p =
    if p = pfx then s.registered p ++ [s.next] else s.registered p := by
  split_ifs with h
  · subst h
    simp only [registered, watch, AList.lookup_insert, Option.getD_some]
  · simp only [registered, watch, AList.lookup_insert_ne h]

theorem registered_cleanup (s : Watchers) (pfx p : String) (ch : ℕ) : (s.cleanup pfx ch).registered p =
    if p = pfx then (s.registered p).erase ch else s.registered p := by
  by_cases hch : ch ∈ s.registered pfx
  · have hw : (s.cleanup pfx ch).watchers = s.watchers.insert pfx ((s.registered pfx).erase ch) := if_pos hch
    rw [registered, hw]
    split_ifs with h
    · subst h
      rw [AList.lookup_insert, Option.getD_some]
    · rw [AList.lookup_insert_ne h]
      rfl
  · have hw : (s.cleanup pfx ch).watchers = s.watchers := if_neg hch
    rw [registered, hw]
    split_ifs with h
    · subst h
      exact (List.erase_of_not_mem hch).symm
    · rfl

variable {ch : ℕ}

theorem closed_watch (s : Watchers) (pfx : String) (h : (s.chans ch).closed = false) :
    ((s.watch pfx).2.chans ch).closed = false := by
  by_cases hch : ch = s.next
  · subst hch
    simp [watch]
  · simpa [watch, hch] using h

theorem Tidy.watch (tidy : Tidy s) (pfx : String) : Tidy (s.watch pfx).2 := by
  constructor
  · intro p ch hch
    rw [registered_watch] at hch
    have old : ∀ p, ch ∈ s.registered p → ch < s.next + 1 ∧ ((s.watch pfx).2.chans ch).closed = false :=
      fun p h => ⟨Nat.lt_succ_of_lt (tidy.isOpen p ch h).1, closed_watch s pfx (tidy.isOpen p ch h).2⟩
    split_ifs at hch with hp
    · rcases List.mem_append.1 hch with hch | hch
      · exact old p hch
      · obtain rfl := List.mem_singleton.1 hch
        exact ⟨Nat.lt_succ_self _, by simp [Watchers.watch]⟩
    · exact old p hch
  · intro p
    rw [registered_watch]
    split_ifs with hp
    · refine List.nodup_append.2 ⟨tidy.nodup p, List.nodup_singleton _, fun a ha b hb => ?_⟩
      obtain rfl := List.mem_singleton.1 hb
      exact (tidy.isOpen p a ha).1.ne
    · exact tidy.nodup p

theorem Tidy.cleanup (tidy : Tidy s) {pfx : String}
    (own : ∀ p, ch ∈ s.registered p → p = pfx) : Tidy (s.cleanup pfx ch) := by
  constructor
  · intro p c hc
    rw [registered_cleanup] at hc
    have hne : c ≠ ch ∧ c ∈ s.registered p := by
      split_ifs at hc with hp
      · exact ((tidy.nodup p).mem_erase_iff).1 hc
      · exact ⟨fun h => hp (own p (h ▸ hc)), hc⟩
    refine ⟨(tidy.isOpen p c hne.2).1, ?_⟩
    simpa [Watchers.cleanup, hne.1] using (tidy.isOpen p c hne.2).2
  · intro p
    rw [registered_cleanup]
    split_ifs with hp
    · exact (tidy.nodup p).erase _
    · exact tidy.nodup p

theorem mem_collect {order : List String} {key : String} (h : ch ∈ s.collect order key) :
    ∃ pfx, ch ∈ s.registered pfx := by
  obtain ⟨pfx, -, hch⟩ := List.mem_flatMap.1 h
  exact ⟨pfx, hch⟩

theorem mem_collect_of {order : List String} {key pfx : String} (h : ch ∈ s.registered pfx)
    (horder : order.Perm s.watchers.keys) (hkey : hasPrefix key pfx = true) : ch ∈ s.collect order key := by
  refine List.mem_flatMap.2 ⟨pfx, List.mem_filter.2 ⟨horder.mem_iff.2 ?_, hkey⟩, h⟩
  cases hl : s.watchers.lookup pfx with
  | none => simp [registered, hl] at h
  | some chs => exact AList.mem_keys.1 (AList.lookup_isSome.1 (by simp [hl]))

/-- Sends and receives leave the registration as it is. -/
structure Same (s s' : Watchers) : Prop where
  watchers : s'.watchers = s.watchers
  next : s'.next = s.next
  closed : ∀ ch, (s'.chans ch).closed = (s.chans ch).closed

theorem Same.refl (s : Watchers) : Same s s := ⟨rfl, rfl, fun _ => rfl⟩

variable {s' : Watchers}

theorem Same.registered (same : Same s s') (pfx : String) : s'.registered pfx = s.registered pfx := by
  rw [Watchers.registered, same.watchers]
  rfl

theorem same_update (s : Watchers) (ch : ℕ) (buf : List WatchEvent) :
    Same s { s with chans := update s.chans ch { s.chans ch with buf := buf } } := by
  refine ⟨rfl, rfl, fun c => ?_⟩
  by_cases hc : c = ch
  · subst hc
    simp
  · simp [hc]

theorem same_send (s : Watchers) (ch : ℕ) (ev : WatchEvent) : Same s (s.send ch ev).2 := by
  unfold send
  split_ifs
  · exact Same.refl s
  · exact same_update s ch _
  · exact Same.refl s

theorem same_recv {r : Option WatchEvent} (h : s.recv ch = some (r, s')) : Same s s' := by
  unfold recv at h
  cases hbuf : (s.chans ch).buf with
  | nil =>
    simp only [hbuf] at h
    split_ifs at h
    cases h
    exact Same.refl s
  | cons ev rest =>
    simp only [hbuf] at h
    cases h
    exact same_update s ch rest

theorem Tidy.same (tidy : Tidy s) (same : Same s s') : Tidy s' := by
  refine ⟨fun pfx ch hch => ?_, fun pfx => ?_⟩
  · rw [same.registered] at hch
    rw [same.next, same.closed]
    exact tidy.isOpen pfx ch hch
  · rw [same.registered]
    exact tidy.nodup pfx

end Watchers

/-! ## Runs -/

/-- A channel is closed while nobody is about to send on it. -/
def Quiesced (hist : List (Entry ι WatchedSig (Disk ι × Watchers))) (e : Entry ι WatchedSig (Disk ι × Watchers)) :
    Prop :=
  match e.op with
  | .inr (.cleanup _ ch) => ∀ j, ∀ h ∈ track WatchDuty.next {} hist j, ch ∉ h.pending
  | _ => True

instance [Fintype ι] (hist : List (Entry ι WatchedSig (Disk ι × Watchers)))
    (e : Entry ι WatchedSig (Disk ι × Watchers)) : Decidable (Quiesced hist e) := by
  rcases e with ⟨_, o | o, _, _, _⟩
  · exact .isTrue trivial
  · cases o with
    | cleanup => exact inferInstanceAs (Decidable (∀ _ : ι, ∀ h ∈ _, _))
    | _ => exact .isTrue trivial

def SendsOnClosed (e : Entry ι WatchedSig (Disk ι × Watchers)) : Prop :=
  match e.op with
  | .inr (.send ch _) => (e.pre.2.chans ch).closed = true
  | _ => False

instance (e : Entry ι WatchedSig (Disk ι × Watchers)) : Decidable (SendsOnClosed e) := by
  rcases e with ⟨_, o | o, _, _, _⟩
  · exact .isFalse id
  · cases o with
    | send => exact inferInstanceAs (Decidable (_ = _))
    | _ => exact .isFalse id

/-- The channels and what threads owe them. -/
structure Channels (w : World ι WatchedSig (Disk ι × Watchers)) (hs : ι → WatchDuty) : Prop where
  tidy : w.st.2.Tidy
  pending : ∀ j, ∀ ch ∈ (hs j).pending, ch < w.st.2.next ∧ (w.st.2.chans ch).closed = false
  own : ∀ j pfx ch, (hs j).own = some (pfx, ch) → ch < w.st.2.next ∧ ∀ p, ch ∈ w.st.2.registered p → p = pfx
  sends : ∀ e ∈ w.hist, ¬ SendsOnClosed e

namespace Channels

variable {w : World ι WatchedSig (Disk ι × Watchers)} {hs : ι → WatchDuty} {i : ι} {o : WatchedSig.Op}
  {r : WatchedSig.Res o} {s' : Disk ι × Watchers} {h' : WatchDuty}

section

variable (inv : Channels w hs)
include inv

theorem push (same : w.st.2.Same s'.2) (hp : h'.pending ⊆ (hs i).pending)
    (ho : h'.own = (hs i).own) (onOpen : ¬ SendsOnClosed ⟨i, o, r, w.st, s'⟩) :
    Channels (w.push i o r s') (update hs i h') := by
  have hpending : ∀ j, (update hs i h' j).pending ⊆ (hs j).pending :=
    (forall_update_iff hs fun j h => h.pending ⊆ (hs j).pending).2 ⟨hp, fun _ _ => List.Subset.refl _⟩
  have hown : ∀ j, (update hs i h' j).own = (hs j).own := update_same WatchDuty.own ho
  refine ⟨inv.tidy.same same, fun j ch hch => ?_, fun j pfx ch hch => ?_,
    List.forall_mem_append.2 ⟨inv.sends, List.forall_mem_singleton.2 onOpen⟩⟩
  · rw [World.push_st, same.next, same.closed]
    exact inv.pending j ch (hpending j hch)
  · rw [World.push_st, same.next]
    obtain ⟨hlt, hreg⟩ := inv.own j pfx ch ((hown j).symm.trans hch)
    exact ⟨hlt, fun p hp => hreg p (by rwa [same.registered] at hp)⟩

theorem push_collect {key : String} {chs : List ℕ} {order : List String} (hchs : chs = w.st.2.collect order key) :
    Channels (w.push i (.inr (.collect key)) chs w.st) (update hs i { hs i with pending := chs }) := by
  refine ⟨inv.tidy, fun j ch hch => ?_, fun j pfx ch hch => inv.own j pfx ch ?_,
    List.forall_mem_append.2 ⟨inv.sends, List.forall_mem_singleton.2 id⟩⟩
  · by_cases hj : j = i
    · subst hj
      rw [update_self] at hch
      obtain ⟨pfx, hreg⟩ := Watchers.mem_collect (hchs ▸ hch)
      exact inv.tidy.isOpen pfx ch hreg
    · rw [update_of_ne hj] at hch
      exact inv.pending j ch hch
  · simpa only [update_same WatchDuty.own] using hch

theorem push_watch (pfx : String) : Channels (w.push i (.inr (.watch pfx)) w.st.2.next (w.st.1, (w.st.2.watch pfx).2))
      (update hs i { hs i with own := some (pfx, w.st.2.next) }) := by
  refine ⟨inv.tidy.watch pfx, fun j ch hch => ?_, fun j p ch hch => ?_,
    List.forall_mem_append.2 ⟨inv.sends, List.forall_mem_singleton.2 id⟩⟩
  · simp only [update_same WatchDuty.pending] at hch
    obtain ⟨hlt, hopen⟩ := inv.pending j ch hch
    exact ⟨Nat.lt_succ_of_lt hlt, Watchers.closed_watch _ pfx hopen⟩
  · change ch < w.st.2.next + 1 ∧ ∀ q, ch ∈ (w.st.2.watch pfx).2.registered q → q = p
    by_cases hj : j = i
    · subst hj
      rw [update_self] at hch
      cases hch
      refine ⟨Nat.lt_succ_self _, fun q hq => ?_⟩
      rw [Watchers.registered_watch] at hq
      by_contra hne
      rw [if_neg hne] at hq
      exact lt_irrefl _ (inv.tidy.isOpen q _ hq).1
    · rw [update_of_ne hj] at hch
      obtain ⟨hlt, hreg⟩ := inv.own j p ch hch
      refine ⟨Nat.lt_succ_of_lt hlt, fun q hq => hreg q ?_⟩
      rw [Watchers.registered_watch] at hq
      split_ifs at hq
      · rcases List.mem_append.1 hq with hq | hq
        · exact hq
        · exact absurd (List.mem_singleton.1 hq) hlt.ne
      · exact hq

theorem push_cleanup {pfx : String} {ch : ℕ} (own : (hs i).own = some (pfx, ch)) (quiet : ∀ j, ch ∉ (hs j).pending) :
    Channels (w.push i (.inr (.cleanup pfx ch)) () (w.st.1, w.st.2.cleanup pfx ch))
      (update hs i { hs i with own := none }) := by
  have hreg := (inv.own i pfx ch own).2
  refine ⟨inv.tidy.cleanup hreg, fun j c hc => ?_, fun j p c hc => ?_,
    List.forall_mem_append.2 ⟨inv.sends, List.forall_mem_singleton.2 id⟩⟩
  · simp only [update_same WatchDuty.pending] at hc
    obtain ⟨hlt, hopen⟩ := inv.pending j c hc
    refine ⟨hlt, ?_⟩
    have hne : c ≠ ch := fun h => quiet j (h ▸ hc)
    change ((w.st.2.cleanup pfx ch).chans c).closed = false
    simpa [Watchers.cleanup, hne] using hopen
  · change c < w.st.2.next ∧ ∀ q, c ∈ (w.st.2.cleanup pfx ch).registered q → q = p
    by_cases hj : j = i
    · subst hj
      rw [update_self] at hc
      cases hc
    · rw [update_of_ne hj] at hc
      obtain ⟨hlt, hreg⟩ := inv.own j p c hc
      refine ⟨hlt, fun q hq => hreg q ?_⟩
      rw [Watchers.registered_cleanup] at hq
      split_ifs at hq
      · exact List.mem_of_mem_erase hq
      · exact hq

theorem exec (tracked : ∀ j, track WatchDuty.next {} w.hist j = some (hs j))
    {ω : List String} (hex : (watchedSystem ι).exec ω i o w.st = some (r, s')) (next : (hs i).next o r = some h')
    (quiet : Quiesced w.hist ⟨i, o, r, w.st, s'⟩) : Channels (w.push i o r s') (update hs i h') := by
  rcases o with o | o
  · obtain ⟨p, -, hp⟩ := Option.map_eq_some_iff.1 hex
    obtain ⟨-, rfl⟩ := Prod.mk.inj hp
    cases next
    exact inv.push (Watchers.Same.refl _) (List.Subset.refl _) rfl id
  · obtain ⟨⟨r', s''⟩, hexec, hp⟩ := Option.map_eq_some_iff.1 hex
    cases hp
    cases o with
    | watch pfx =>
      cases hexec
      simp only [WatchDuty.next] at next
      split_ifs at next
      cases next
      exact inv.push_watch pfx
    | cleanup pfx ch =>
      obtain ⟨-, rfl⟩ := Prod.mk.inj (Option.some.inj hexec)
      simp only [WatchDuty.next] at next
      split_ifs at next with hown
      cases next
      exact inv.push_cleanup hown fun j => quiet j (hs j) (tracked j)
    | collect key =>
      simp only [watchSystem] at hexec
      split_ifs at hexec
      obtain ⟨hchs, rfl⟩ := Prod.mk.inj (Option.some.inj hexec)
      cases next
      exact inv.push_collect hchs.symm
    | send ch ev =>
      obtain ⟨-, rfl⟩ := Prod.mk.inj (Option.some.inj hexec)
      simp only [WatchDuty.next] at next
      split_ifs at next with hhead
      cases next
      refine inv.push (Watchers.same_send _ ch ev) (List.tail_subset _) rfl ?_
      intro hclosed
      exact Bool.eq_false_iff.1 (inv.pending i ch (List.mem_of_mem_head? hhead)).2 hclosed
    | recv ch =>
      cases next
      exact inv.push (Watchers.same_recv hexec) (List.Subset.refl _) rfl id

end

omit [DecidableEq ι] in
theorem start (m₀ : MemStore) (calls : ι → WatchCall) : Channels (startWatched m₀ calls).world fun _ => {} := by
  have none_registered : ∀ pfx, Watchers.empty.registered pfx = [] := fun _ => rfl
  refine ⟨⟨fun pfx ch h => ?_, fun pfx => ?_⟩, fun _ _ h => ?_, fun _ _ _ h => ?_, fun _ h => ?_⟩
  · rw [show (startWatched m₀ calls).world.st.2 = Watchers.empty from rfl, none_registered] at h
    cases h
  · rw [show (startWatched m₀ calls).world.st.2 = Watchers.empty from rfl, none_registered]
    exact List.nodup_nil
  · cases h
  · cases h
  · cases h

end Channels

/-- However writes, watches and the cleanups of cancelled watches interleave: if no write is about to send to a channel
when it is closed, no send is ever made on a closed channel. -/
theorem no_send_on_closed (m₀ : MemStore) (calls : ι → WatchCall) {c : Config ι WatchedSig (Disk ι × Watchers) Unit}
    (reach : Config.Reaches (watchedSystem ι) (startWatched m₀ calls) c)
    (quiet : Throughout Quiesced c.world.hist) :
    ∀ e ∈ c.world.hist, ¬ SendsOnClosed e := by
  have start : Tracked WatchDuty.next (fun _ _ _ => True) (startWatched m₀ calls) fun _ => {} :=
    fun i => follows_watchCall (calls i)
  obtain ⟨hs, -, -, inv⟩ := start.holds (I := Channels) rfl (Channels.start m₀ calls)
    (fun w hs i ω o r s' h' inv tracked hex next quiet => inv.exec tracked hex next quiet) reach quiet
  exact inv.sends

namespace Trial

def watchedPut : Bool → WatchCall
  | false => .watch ""
  | true => .put "k" (.raw "v")

end Trial

theorem no_send_on_closed_notified :
    ∃ c, Config.Reaches (watchedSystem Bool) (startWatched .empty Trial.watchedPut) c ∧
      Throughout Quiesced c.world.hist ∧ (c.pool false).result? = some () ∧ (c.pool true).result? = some () ∧
      ∀ e ∈ c.world.hist, ¬ SendsOnClosed e := by
  obtain ⟨c, reach, quiet, hfalse, htrue⟩ := Config.reaches_of_run_any (watchedSystem Bool)
    ([false, true, true, true, false].map (·, [""])) (startWatched .empty Trial.watchedPut)
    (fun c => Throughout Quiesced c.world.hist ∧ (c.pool false).result? = some () ∧
      (c.pool true).result? = some ()) (by decide)
  exact ⟨c, reach, quiet, hfalse, htrue, no_send_on_closed .empty Trial.watchedPut reach quiet⟩

/-- The watch is cancelled between the collection of its channel and the send. -/
theorem send_after_cancel : ∃ c, Config.Reaches (watchedSystem Bool) (startWatched .empty Trial.watchedPut) c ∧
      ∃ e ∈ c.world.hist, SendsOnClosed e :=
  Config.reaches_of_run_any (watchedSystem Bool)
    ([false, true, true, false, true].map (·, [""])) (startWatched .empty Trial.watchedPut)
    (fun c => ∃ e ∈ c.world.hist, SendsOnClosed e) (by decide)

end Egressa
