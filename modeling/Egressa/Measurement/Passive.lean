import Egressa.Pathmon.Window

/-!
# Passive loss accounting

A `PassiveTracker` (`internal/measurement/passive.go`) counts what arrives of a sequence of packets.  A number above
the expected one counts all between as lost; one below is late or a copy, and takes nothing back.  So what is
counted as lost is at least what is missing, and the counters balance (`passive_balances`).
-/

namespace Egressa.Measurement

open Pathmon (Analytic)

structure PassiveTracker (F : Type) where
  started : Bool
  expectedNext : UInt64
  received : UInt64
  lost : UInt64
  outOfOrder : UInt64
  /-- Read only if `started`. -/
  lastArrival : ℤ
  lastInterarrival : Duration
  haveLastInterarrival : Bool
  jitterMicros : F

section Tracker

variable {F : Type} [Analytic F]

def jitterGain : F := 1 / Analytic.ofInt 16

def newPassiveTracker : PassiveTracker F := ⟨false, 0, 0, 0, 0, 0, 0, false, 0⟩

namespace PassiveTracker

def recordArrival (p : PassiveTracker F) (now : ℤ) (comparable : Bool) : PassiveTracker F :=
  let interarrival : Duration := .ofInt (Time.sub now p.lastArrival)
  let d := interarrival - p.lastInterarrival
  let d := if d < 0 then -d else d
  { p with
    lastArrival := now
    jitterMicros :=
      if comparable && p.haveLastInterarrival then
        p.jitterMicros + (Analytic.ofInt (d / 1000).toInt - p.jitterMicros) * jitterGain
      else p.jitterMicros
    lastInterarrival := interarrival
    haveLastInterarrival := comparable }

/-- Counts a packet; a gap counts as lost, also if it is filled later. -/
def observe (p : PassiveTracker F) (now : ℤ) (seq : UInt64) : PassiveTracker F :=
  let p := { p with received := p.received + 1 }
  if !p.started then { p with started := true, expectedNext := seq + 1, lastArrival := now }
  else if seq = p.expectedNext then { p with expectedNext := seq + 1 }.recordArrival now true
  else if p.expectedNext < seq then
    { p with lost := p.lost + (seq - p.expectedNext), expectedNext := seq + 1 }.recordArrival now false
  else { p with outOfOrder := p.outOfOrder + 1 }

/-- `Reset`: of the fields only the clock is left. -/
def reset (_ : PassiveTracker F) : PassiveTracker F := newPassiveTracker

def observeAll (p : PassiveTracker F) (arrivals : List (ℤ × UInt64)) : PassiveTracker F :=
  arrivals.foldl (fun p a => p.observe a.1 a.2) p

end PassiveTracker

end Tracker

/-- The numbers in between that have not been seen. -/
def missing (first next : UInt64) (seen : List UInt64) : Finset ℕ :=
  (Finset.Ico first.toNat next.toNat).filter fun n => ∀ s ∈ seen, s.toNat ≠ n

/-- What the counters say of the arrivals. -/
structure Accounts {F : Type} (first : UInt64) (seen : List UInt64) (p : PassiveTracker F) : Prop where
  started : p.started = true
  balance : p.received - p.outOfOrder + p.lost = p.expectedNext - first
  top : ∃ s ∈ seen, p.expectedNext = s + 1
  above : ∀ s ∈ seen, s < p.expectedNext
  lost : (missing first p.expectedNext seen).card ≤ p.lost.toNat
  room : p.lost.toNat + first.toNat < p.expectedNext.toNat

namespace Accounts

variable {F : Type} {first seq : UInt64} {seen : List UInt64} {p p' : PassiveTracker F}

theorem toNat_succ (h : seq < 18446744073709551615) : (seq + 1).toNat = seq.toNat + 1 := by
  have : seq.toNat < 18446744073709551615 := UInt64.lt_iff_toNat_lt.1 h
  rw [UInt64.toNat_add]
  exact Nat.mod_eq_of_lt (by simpa using Nat.succ_lt_succ this)

theorem missing_subset (first next : UInt64) (seen : List UInt64) (below : seq < 18446744073709551615) :
    missing first (seq + 1) (seen ++ [seq]) ⊆ missing first next seen ∪ Finset.Ico next.toNat seq.toNat := by
  intro n hn
  simp only [missing, Finset.mem_filter, Finset.mem_Ico, toNat_succ below, List.mem_append, List.mem_singleton] at hn
  obtain ⟨⟨low, high⟩, unseen⟩ := hn
  have other : seq.toNat ≠ n := unseen seq (Or.inr rfl)
  rw [Finset.mem_union, Finset.mem_Ico, missing, Finset.mem_filter, Finset.mem_Ico]
  by_cases h : n < next.toNat
  · exact Or.inl ⟨⟨low, h⟩, fun s hs => unseen s (Or.inl hs)⟩
  · exact Or.inr ⟨by omega, by omega⟩

theorem advance (acc : Accounts first seen p) (below : seq < 18446744073709551615) (ahead : p.expectedNext ≤ seq)
    (started : p'.started = true) (next : p'.expectedNext = seq + 1) (received : p'.received = p.received + 1)
    (late : p'.outOfOrder = p.outOfOrder) (lost : p'.lost = p.lost + (seq - p.expectedNext)) :
    Accounts first (seen ++ [seq]) p' ∧ p.lost ≤ p'.lost := by
  have hnext := toNat_succ below
  have hle : p.expectedNext.toNat ≤ seq.toNat := UInt64.le_iff_toNat_le.1 ahead
  have room := acc.room
  have hlost : p'.lost.toNat = p.lost.toNat + (seq.toNat - p.expectedNext.toNat) := by
    have := seq.toNat_lt
    rw [lost, UInt64.toNat_add, UInt64.toNat_sub_of_le _ _ ahead]
    exact Nat.mod_eq_of_lt (by omega)
  refine ⟨⟨started, ?_, ⟨seq, by simp, next⟩, fun s hs => ?_, ?_, ?_⟩, ?_⟩
  · have := acc.balance
    rw [received, late, lost, next]
    grind
  · rw [next, UInt64.lt_iff_toNat_lt, hnext]
    rcases List.mem_append.1 hs with hs | hs
    · have := UInt64.lt_iff_toNat_lt.1 (acc.above s hs)
      omega
    · rw [List.mem_singleton.1 hs]
      omega
  · rw [next, hlost]
    have counted := (Finset.card_le_card (missing_subset first p.expectedNext seen below)).trans
      (Finset.card_union_le _ _)
    rw [Nat.card_Ico] at counted
    have := acc.lost
    omega
  · rw [next, hnext, hlost]
    omega
  · rw [UInt64.le_iff_toNat_le, hlost]
    omega

theorem late (acc : Accounts first seen p) (behind : seq < p.expectedNext) : Accounts first (seen ++ [seq])
      { p with received := p.received + 1, outOfOrder := p.outOfOrder + 1 } where
  started := acc.started
  balance := by
    have := acc.balance
    grind
  top := acc.top.imp fun s h => ⟨List.mem_append_left _ h.1, h.2⟩
  above s hs := by
    rcases List.mem_append.1 hs with hs | hs
    · exact acc.above s hs
    · rwa [List.mem_singleton.1 hs]
  lost := by
    refine (Finset.card_le_card fun n hn => ?_).trans acc.lost
    obtain ⟨inside, unseen⟩ := Finset.mem_filter.1 hn
    exact Finset.mem_filter.2 ⟨inside, fun s hs => unseen s (List.mem_append_left _ hs)⟩
  room := acc.room

variable [Analytic F]

theorem observe (acc : Accounts first seen p) (now : ℤ) (below : seq < 18446744073709551615) :
    Accounts first (seen ++ [seq]) (p.observe now seq) ∧ p.lost ≤ (p.observe now seq).lost := by
  unfold PassiveTracker.observe
  simp only [acc.started, Bool.not_true, Bool.false_eq_true, if_false]
  split_ifs with same gap
  · refine acc.advance below (UInt64.le_of_eq same.symm) rfl rfl rfl rfl ?_
    simp [PassiveTracker.recordArrival, same]
  · exact acc.advance below (UInt64.le_of_lt gap) rfl rfl rfl rfl rfl
  · have behind := UInt64.lt_of_le_of_ne (UInt64.not_lt.1 gap) same
    exact ⟨acc.started ▸ acc.late behind, UInt64.le_refl _⟩

theorem observeAll (acc : Accounts first seen p) (arrivals : List (ℤ × UInt64))
    (below : ∀ a ∈ arrivals, a.2 < 18446744073709551615) :
    Accounts first (seen ++ arrivals.map Prod.snd) (p.observeAll arrivals) ∧
      p.lost ≤ (p.observeAll arrivals).lost := by
  induction arrivals generalizing p seen with
  | nil => exact ⟨by simpa [PassiveTracker.observeAll] using acc, UInt64.le_refl _⟩
  | cons a arrivals ih =>
    obtain ⟨acc, grows⟩ := acc.observe a.1 (below a (by simp))
    obtain ⟨acc', grows'⟩ := ih acc fun a ha => below a (by simp [ha])
    exact ⟨by simpa [PassiveTracker.observeAll] using acc', UInt64.le_trans grows grows'⟩

theorem first_observed (p : PassiveTracker F) (now : ℤ) (below : first < 18446744073709551615) :
    Accounts first [first] (p.reset.observe now first) where
  started := rfl
  balance := by
    change (0 + 1 - 0 + 0 : UInt64) = first + 1 - first
    grind
  top := ⟨first, by simp, rfl⟩
  above s hs := by
    rw [List.mem_singleton.1 hs, UInt64.lt_iff_toNat_lt]
    exact (toNat_succ below).symm ▸ Nat.lt_succ_self _
  lost := by
    refine (Finset.card_eq_zero.2 (Finset.filter_eq_empty_iff.2 fun n hn unseen => ?_)).le
    have hn := Finset.mem_Ico.1 hn
    have : (first + 1).toNat = first.toNat + 1 := toNat_succ below
    refine unseen first (by simp) ?_
    have : n < (first + 1).toNat := hn.2
    omega
  room := by
    change 0 + first.toNat < (first + 1).toNat
    rw [toNat_succ below]
    omega

end Accounts

/-- From a `Reset` on: the counters balance, the next number expected is behind the largest seen, at least what is
missing is counted as lost, and that count does not go back. -/
theorem passive_balances {F : Type} [Analytic F] (p : PassiveTracker F) (now : ℤ) (first : UInt64)
    (arrivals : List (ℤ × UInt64)) (below : ∀ s ∈ first :: arrivals.map Prod.snd, s < 18446744073709551615) :
    let q := (p.reset.observe now first).observeAll arrivals
    let seen := first :: arrivals.map Prod.snd
    q.received - q.outOfOrder + q.lost = q.expectedNext - first ∧
    (∃ s ∈ seen, (∀ s' ∈ seen, s' ≤ s) ∧ q.expectedNext.toNat = s.toNat + 1) ∧
    ((Finset.Ico first.toNat q.expectedNext.toNat).filter fun n => ∀ s ∈ seen, s.toNat ≠ n).card ≤ q.lost.toNat ∧
    ∀ more : List (ℤ × UInt64), (∀ a ∈ more, a.2 < 18446744073709551615) → q.lost ≤ (q.observeAll more).lost := by
  obtain ⟨acc, -⟩ := (Accounts.first_observed p now (below first (by simp))).observeAll arrivals
    fun a ha => below a.2 (by simpa using Or.inr ⟨a.1, ha⟩)
  refine ⟨acc.balance, ?_, acc.lost, fun more hmore => (acc.observeAll more hmore).2⟩
  obtain ⟨s, hs, next⟩ := acc.top
  have hnext := Accounts.toNat_succ (below s hs)
  refine ⟨s, hs, fun s' hs' => ?_, by rw [next, hnext]⟩
  have := UInt64.lt_iff_toNat_lt.1 (acc.above s' hs')
  rw [next, hnext] at this
  exact UInt64.le_iff_toNat_le.2 (Nat.le_of_lt_succ this)

/-- Of 5, 9, 6 and 6 again: three are counted as lost, two are missing. -/
theorem passive_balances_late :
    let q := (newPassiveTracker (F := Float).reset.observe 0 5).observeAll [(1, 9), (2, 6), (3, 6)]
    (q.received, q.outOfOrder, q.lost, q.expectedNext) = (4, 2, 3, 10) ∧
    q.received - q.outOfOrder + q.lost = q.expectedNext - 5 :=
  ⟨rfl, (passive_balances newPassiveTracker 0 5 [(1, 9), (2, 6), (3, 6)] (by simp)).1⟩

end Egressa.Measurement
