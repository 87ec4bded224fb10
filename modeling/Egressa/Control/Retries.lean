import Egressa.Conc.Discipline
import Egressa.Control.SetIfNewer

/-!
# The retries of `SetIfNewer`

The loop of `SetIfNewer` goes round again only if its swap has failed, and that only if someone has written
since it read the revision.  So each turn but the last is paid for by a write of someone else (`Spent`), and
no call waits for another: a call returns unless others keep on writing.
-/

namespace Egressa

open Conc

variable {ι E Ω : Type} {X : Sig} [DecidableEq ι] {ext : System ι X E Ω}

/-- The operations of a thread. -/
def ops (i : ι) (w : StoreWorld ι X E) : ℕ := w.hist.countP fun e => e.tid = i

/-- The writes of all threads. -/
def writes (w : StoreWorld ι X E) : ℕ := w.hist.countP fun e => (written e.op e.res).isSome

/-- The operations are at most `n`, and three for each write. -/
def Spent (n : ℕ) (i : ι) (w : StoreWorld ι X E) : Prop := ops i w ≤ n + 3 * writes w

def budget (N : ℕ) : Contract ι (StoreSig.sum X) (Disk ι × E) where
  inv w := ∀ i, Spent N i w
  guar _ _ _ := True

section Counts

variable {w : StoreWorld ι X E} {i j : ι} {o : (StoreSig.sum X).Op}
  {r : (StoreSig.sum X).Res o} {s' : Disk ι × E} {n N : ℕ}

theorem ops_push_self : ops i (w.push i o r s') = ops i w + 1 := by
  simp [ops, List.countP_append]

theorem ops_push_of_ne (h : j ≠ i) : ops i (w.push j o r s') = ops i w := by
  simp [ops, List.countP_append, h]

omit [DecidableEq ι] in
theorem writes_push_of_none (h : written o r = none) : writes (w.push j o r s') = writes w := by
  simp [writes, List.countP_append, h]

omit [DecidableEq ι] in
theorem writes_push_of_some {p : String × Doc} (h : written o r = some p) :
    writes (w.push j o r s') = writes w + 1 := by
  simp [writes, List.countP_append, h]

omit [DecidableEq ι] in
theorem writes_le_push : writes w ≤ writes (w.push j o r s') := by
  simp [writes, List.countP_append]

theorem Spent.push (h : Spent n i w) : Spent (n + 1) i (w.push i o r s') := by
  have : writes w ≤ writes (w.push i o r s') := writes_le_push
  unfold Spent at h ⊢
  rw [ops_push_self]
  omega

theorem Spent.push_of_ne (h : Spent n i w) (hne : j ≠ i) : Spent n i (w.push j o r s') := by
  have : writes w ≤ writes (w.push j o r s') := writes_le_push
  unfold Spent at h ⊢
  rw [ops_push_of_ne hne]
  omega

omit [DecidableEq ι] in
theorem Spent.mono {m : ℕ} [DecidableEq ι] (h : Spent n i w) (hle : n ≤ m) : Spent m i w :=
  le_trans h (Nat.add_le_add_right hle _)

theorem stable_spent {C : Contract ι (StoreSig.sum X) (Disk ι × E)} :
    Stable C ((storeSystem ι Ω).sum ext) i (Spent n i) := by
  rintro w w' ⟨j, hj, ⟨ω, o, r, s', -, rfl⟩, -⟩ h
  exact h.push_of_ne hj

theorem budget_push (inv : (budget N).inv w) (h : Spent n i w) (hle : n + 1 ≤ N) :
    (budget N).inv (w.push i o r s') := by
  intro k
  by_cases hk : i = k
  · subst hk
    exact h.push.mono hle
  · exact (inv k).push_of_ne hk

theorem triple_budget_op {α : Type} {k : (StoreSig.sum X).Res o → Prog (StoreSig.sum X) α}
    {Q : α → StoreWorld ι X E → Prop} (hle : n + 1 ≤ N)
    (next : ∀ r, Triple (budget N) ((storeSystem ι Ω).sum ext) i (Spent (n + 1) i) (k r) Q) :
    Triple (budget N) ((storeSystem ι Ω).sum ext) i (Spent n i) (.op o k) Q :=
  Triple.op (R := fun _ => Spent (n + 1) i) stable_spent
    (fun _ _ _ _ inv h _ => ⟨trivial, budget_push inv h hle, h.push⟩) next

end Counts

section Turn

variable {i : ι} {n N d : ℕ} {key : String} {expected : ℕ}

/-- Where in a turn a thread is, and what its turn may still cost. -/
def Turning (n d : ℕ) (key : String) (expected : ℕ) (i : ι) (w : StoreWorld ι X E) :
    Prop :=
  ((w.st.1.mem.revision key).getD 0 = expected ∧ ops i w ≤ n + d + 3 * writes w) ∨ ops i w + 3 ≤ n + d + 3 * writes w

variable {w : StoreWorld ι X E}

theorem Turning.spent (h : Turning n d key expected i w) : Spent (n + d) i w := by
  rcases h with ⟨-, h⟩ | h
  · exact h
  · exact le_trans (Nat.le_add_right _ 3) h

theorem stable_turning {C : Contract ι (StoreSig.sum X) (Disk ι × E)} :
    Stable C ((storeSystem ι Ω).sum ext) i (Turning n d key expected i) := by
  rintro w w' ⟨j, hj, ⟨ω, o, r, s', hex, rfl⟩, -⟩ h
  have hm := exec_mem hex
  have hops : ops i (w.push j o r s') = ops i w := ops_push_of_ne hj
  cases hw : written o r with
  | none =>
    simp only [hw] at hm
    unfold Turning
    rw [World.push_st, hm, hops, writes_push_of_none hw]
    exact h
  | some p =>
    have hspent : ops i w ≤ n + d + 3 * writes w := h.spent
    refine Or.inr ?_
    rw [hops, writes_push_of_some hw]
    omega

theorem Turning.push {o : (StoreSig.sum X).Op}
    {r : (StoreSig.sum X).Res o} {s' : Disk ι × E} (h : Turning n d key expected i w)
    (hw : written o r = none) (hm : s'.1.mem = w.st.1.mem) :
    Turning n (d + 1) key expected i (w.push i o r s') := by
  unfold Turning at h ⊢
  rw [World.push_st, hm, ops_push_self, writes_push_of_none hw]
  omega

theorem Turning.paid {o : (StoreSig.sum X).Op}
    {r : (StoreSig.sum X).Res o} {s' : Disk ι × E} (h : Turning n 2 key expected i w)
    (hrev : (w.st.1.mem.revision key).getD 0 ≠ expected) (hw : written o r = none) :
    Spent n i (w.push i o r s') := by
  have hpaid := h.resolve_left fun h => hrev h.1
  unfold Spent
  rw [ops_push_self, writes_push_of_none hw]
  omega

theorem triple_swapTurn_spent (rec : OwnershipRecord) (hle : n + 3 ≤ N) :
    Triple (budget N) ((storeSystem ι Ω).sum ext) i (Turning n 2 (sessionKey rec.session) expected i)
      (swapTurn (fencerThen (return none)) rec expected) (turnPost (Spent n i) fun _ => Spent (n + 3) i) := by
  unfold swapTurn
  cases marshalOwnership rec with
  | error e => exact Triple.ret stable_turning fun w _ h => h.spent.mono (Nat.le_succ _)
  | ok data =>
    refine Triple.op (R := fun (r : ℕ × Bool) w => Spent (if r.2 then n + 3 else n) i w) stable_turning ?_ ?_
    · intro w ω r s' inv h hex
      refine ⟨trivial, budget_push inv h.spent hle, ?_⟩
      obtain ⟨hr, hs⟩ := Prod.mk.inj (Option.some.inj hex)
      by_cases hrev : (w.st.1.mem.revision (sessionKey rec.session)).getD 0 = expected
      · have hok : r.2 = true := by
          rw [← hr]
          simp [MemStore.compareAndSwap, hrev]
        rw [if_pos hok]
        exact h.spent.push
      · have hok : r.2 = false := by
          rw [← hr]
          simp [MemStore.compareAndSwap, hrev]
        have hw : written (X := X) (.inl (.memCAS (sessionKey rec.session) expected data)) r = none := by
          simp [written, hok]
        rw [if_neg (by simp [hok])]
        exact h.paid hrev hw
    · rintro ⟨rev, ok⟩
      cases ok with
      | false => exact Triple.ret stable_spent fun _ _ h => h
      | true => exact Triple.ret stable_spent fun _ _ h => h

theorem Turning.mono {m : ℕ} (h : Turning n d key expected i w) (hle : d ≤ m) : Turning n m key expected i w := by
  unfold Turning at h ⊢
  omega

theorem triple_setIfNewer_spent (rec : OwnershipRecord) (hle : n + 3 ≤ N) :
    Triple (budget N) ((storeSystem ι Ω).sum ext) i (Spent n i) (setIfNewer memStore rec)
      fun _ => Spent (n + 3) i := by
  unfold setIfNewer
  cases rec.validate with
  | error e => exact Triple.ret stable_spent fun _ _ h => h.mono (Nat.le_add_right n 3)
  | ok u =>
    refine Triple.iterate stable_spent (fun _ => stable_spent) fun _ => ?_
    refine Triple.post (Q := turnPost (Spent n i) fun _ => Spent (n + 3) i) ?_ fun d w _ h => by
      cases d <;> exact h
    refine Triple.op (R := fun (rev : Option ℕ) => Turning n 1 (sessionKey rec.session) (rev.getD 0) i)
      stable_spent ?_ fun rev => ?_
    · intro w ω rev s' inv h hex
      refine ⟨trivial, budget_push inv h (by omega), Or.inl ⟨?_, h.push⟩⟩
      cases hex
      rfl
    · cases rev with
      | none => exact fun w inv h => triple_swapTurn_spent rec hle w inv (Turning.mono h (Nat.le_succ 1))
      | some rev =>
        refine Triple.op (R := fun _ => Turning n 2 (sessionKey rec.session) rev i) stable_turning ?_ fun data => ?_
        · intro w ω data s' inv h hex
          refine ⟨trivial, budget_push inv h.spent (by omega), h.push rfl ?_⟩
          cases hex
          rfl
        · change Triple _ _ _ _ (judgeTurn (fencerThen (return none)) rec rev data) _
          unfold judgeTurn
          cases unmarshalOwnership data with
          | error e => exact Triple.ret stable_turning fun w _ h => h.spent.mono (Nat.le_succ _)
          | ok cur =>
            dsimp only
            split_ifs
            · exact Triple.ret stable_turning fun w _ h => h.spent.mono (Nat.le_succ _)
            · exact triple_swapTurn_spent rec hle

end Turn

/-! ## No call waits -/

def prompt (_ : Unit) : (o : (StoreSig.sum X).Op) → (StoreSig.sum X).Res o → Option Unit
  | .inl .saveLock, _ | .inl .saveUnlock, _ => none
  | _, _ => some ()

theorem returned_or_step {α : Type} {c : Config ι (StoreSig.sum X) (Disk ι × E) α} {hs : ι → Unit}
    (tracked : Tracked prompt (fun _ _ _ => True) c hs) (total : ∀ ω i o s, (ext.exec ω i o s).isSome)
    (i : ι) (ω : Ω) :
    (∃ a, c.pool i = .ret a) ∨ ∃ c', c.step? ((storeSystem ι Ω).sum ext) i ω = some c' := by
  have hi := tracked i
  cases hp : c.pool i with
  | ret a => exact Or.inl ⟨a, rfl⟩
  | loop body b k =>
    exact Or.inr ⟨⟨Function.update c.pool i (Prog.unroll body b k), c.world⟩, by simp only [Config.step?, hp]⟩
  | op o k =>
    rw [hp] at hi
    have hex : (((storeSystem ι Ω).sum ext).exec ω i o c.world.st).isSome := by
      rcases o with o | o
      · cases o with
        | saveLock =>
          obtain ⟨_, h, _⟩ := hi ()
          cases h
        | saveUnlock =>
          obtain ⟨_, h, _⟩ := hi ()
          cases h
        | rename kv =>
          simp only [System.sum, storeSystem, Option.isSome_map]
          split <;> rfl
        | memGet | memList | memPut | memRevision | memCAS | refuse => rfl
      · simpa only [System.sum, Option.isSome_map] using total ω i o c.world.st.2
    obtain ⟨p, hp'⟩ := Option.isSome_iff_exists.1 hex
    exact Or.inr ⟨⟨Function.update c.pool i (k p.1), c.world.push i o p.1 p.2⟩, by
      simp only [Config.step?, hp, hp', Option.map_some]⟩

theorem swapTurn_prompt (rec : OwnershipRecord) (expected : ℕ) :
    Follows prompt (swapTurn (fencerThen (X := X) (return none)) rec expected) (fun _ _ => True) () := by
  unfold swapTurn
  cases marshalOwnership rec with
  | error e => trivial
  | ok data =>
    rintro ⟨rev, ok⟩
    cases ok <;> exact ⟨(), rfl, trivial⟩

theorem setIfNewer_prompt (rec : OwnershipRecord) :
    Follows prompt (setIfNewer (memStore (X := X)) rec) (fun _ _ => True) () := by
  unfold setIfNewer
  cases rec.validate with
  | error e => trivial
  | ok u =>
    refine Follows.iterate (fun _ _ => True) trivial fun _ _ _ => ?_
    refine Follows.mono (Q := fun _ _ => True) ?_ fun d _ _ => by cases d <;> trivial
    intro rev
    refine ⟨(), rfl, ?_⟩
    cases rev with
    | none => exact swapTurn_prompt rec 0
    | some rev =>
      intro data
      refine ⟨(), rfl, ?_⟩
      change Follows prompt (judgeTurn (fencerThen (return none)) rec rev data) _ _
      unfold judgeTurn
      cases unmarshalOwnership data with
      | error e => trivial
      | ok cur =>
        dsimp only
        split_ifs
        · trivial
        · exact swapTurn_prompt rec rev

end Egressa
