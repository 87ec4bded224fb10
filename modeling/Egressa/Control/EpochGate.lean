import Mathlib

/-!
# The epoch gate

`internal/control/epochgate.go`: the highest epoch seen of each session, and the rule that an older
one is not admitted.
-/

namespace Egressa

structure EpochGate where
  known : AList fun _ : String => UInt64

namespace EpochGate

def empty : EpochGate := ⟨∅⟩

def update (g : EpochGate) (session : String) (epoch : UInt64) : EpochGate :=
  match g.known.lookup session with
  | none => ⟨g.known.insert session epoch⟩
  | some cur => if cur < epoch then ⟨g.known.insert session epoch⟩ else g

def admits (g : EpochGate) (session : String) (epoch : UInt64) : Bool :=
  match g.known.lookup session with
  | none => true
  | some cur => cur ≤ epoch

def latest (cur : Option UInt64) (epoch : UInt64) : UInt64 :=
  match cur with
  | none => epoch
  | some cur => if cur < epoch then epoch else cur

theorem known_update (g : EpochGate) (session s : String) (epoch : UInt64) : (g.update session epoch).known.lookup s =
      if s = session then some (latest (g.known.lookup session) epoch) else g.known.lookup s := by
  unfold update
  by_cases hs : s = session
  · subst hs
    cases hk : g.known.lookup s with
    | none => simp [latest]
    | some cur =>
      by_cases hlt : cur < epoch
      · simp [latest, hlt]
      · simp [latest, hlt, hk]
  · rw [if_neg hs]
    cases g.known.lookup session with
    | none => exact AList.lookup_insert_ne hs
    | some cur =>
      dsimp only
      split_ifs
      · exact AList.lookup_insert_ne hs
      · rfl

/-- The gate knows the session at the epoch or later. -/
def Reached (g : EpochGate) (session : String) (epoch : UInt64) : Prop :=
  ∃ cur, g.known.lookup session = some cur ∧ epoch ≤ cur

theorem reached_update_self (g : EpochGate) (session : String) (epoch : UInt64) :
    (g.update session epoch).Reached session epoch := by
  refine ⟨latest (g.known.lookup session) epoch, by simp [known_update], ?_⟩
  unfold latest
  cases g.known.lookup session with
  | none => exact UInt64.le_refl _
  | some cur =>
    dsimp only
    split_ifs with h
    · exact UInt64.le_refl _
    · exact UInt64.not_lt.1 h

variable {g : EpochGate} {epoch : UInt64}

theorem Reached.update {session : String} (h : g.Reached session epoch) (s : String) (e : UInt64) :
    (g.update s e).Reached session epoch := by
  obtain ⟨cur, hcur, hle⟩ := h
  rw [Reached, known_update]
  by_cases hs : session = s
  · subst hs
    rw [if_pos rfl, hcur]
    refine ⟨_, rfl, UInt64.le_trans hle ?_⟩
    unfold latest
    dsimp only
    split_ifs with hlt
    · exact UInt64.le_of_lt hlt
    · exact UInt64.le_refl _
  · rw [if_neg hs]
    exact ⟨cur, hcur, hle⟩

def updateAll (g : EpochGate) (l : List (Sigma fun _ : String => UInt64)) : EpochGate :=
  l.foldl (fun g s => g.update s.1 s.2) g

theorem Reached.updateAll {session : String}
    (h : g.Reached session epoch) (l : List (Sigma fun _ : String => UInt64)) :
    (g.updateAll l).Reached session epoch := by
  induction l generalizing g with
  | nil => exact h
  | cons s l ih => exact ih (h.update s.1 s.2)

theorem reached_updateAll (g : EpochGate) {l : List (Sigma fun _ : String => UInt64)}
    {session : String} (h : ⟨session, epoch⟩ ∈ l) :
    (g.updateAll l).Reached session epoch := by
  induction l generalizing g with
  | nil => cases h
  | cons s l ih =>
    rcases List.mem_cons.1 h with rfl | h
    · exact (g.reached_update_self session epoch).updateAll l
    · exact ih _ h

theorem known_update_cases {session s : String} {epoch cur : UInt64}
    (h : (g.update session epoch).known.lookup s = some cur) :
    g.known.lookup s = some cur ∨ (s = session ∧ cur = epoch) := by
  rw [known_update] at h
  split_ifs at h with hs
  · subst hs
    rw [← Option.some.inj h]
    unfold latest
    cases hk : g.known.lookup s with
    | none => exact Or.inr ⟨rfl, rfl⟩
    | some old =>
      dsimp only
      split_ifs
      · exact Or.inr ⟨rfl, rfl⟩
      · exact Or.inl rfl
  · exact Or.inl h

theorem known_updateAll {l : List (Sigma fun _ : String => UInt64)} {s : String}
    {cur : UInt64} (h : (g.updateAll l).known.lookup s = some cur) :
    g.known.lookup s = some cur ∨ ⟨s, cur⟩ ∈ l := by
  induction l generalizing g with
  | nil => exact Or.inl h
  | cons p l ih =>
    rcases ih h with hk | hl
    · rcases known_update_cases hk with hk | ⟨rfl, rfl⟩
      · exact Or.inl hk
      · exact Or.inr (by simp)
    · exact Or.inr (by simp [hl])

theorem admits_eq_false {session : String} {epoch later : UInt64}
    (h : g.Reached session later) (old : epoch < later) : g.admits session epoch = false := by
  obtain ⟨cur, hcur, hle⟩ := h
  have : epoch < cur := UInt64.lt_of_lt_of_le old hle
  simp [admits, hcur, this]

end EpochGate

end Egressa
