import Mathlib

/-!
# Binary tries

A trie keeps values under strings of bits.  `longest` walks down along a string and keeps the last value that it
meets: the one under the longest beginning of the string that has one (`isLongest_longest`).
-/

namespace Tries

variable {α : Type}

/-- `nil` is where there is no node. -/
inductive Trie (α : Type) where
  | nil
  | node (value : Option α) (zero one : Trie α)
  deriving DecidableEq, Repr

namespace Trie

def value : Trie α → Option α
  | nil => none
  | node v _ _ => v

def child (b : Bool) : Trie α → Trie α
  | nil => nil
  | node _ zero one => if b then one else zero

def setValue (v : α) (t : Trie α) : Trie α := node (some v) (t.child false) (t.child true)

def setChild (t : Trie α) (b : Bool) (c : Trie α) : Trie α :=
  if b then node t.value (t.child false) c else node t.value c (t.child true)

def insert (v : α) : List Bool → Trie α → Trie α
  | [], t => t.setValue v
  | b :: bs, t => t.setChild b (insert v bs (t.child b))

def get : Trie α → List Bool → Option α
  | t, [] => t.value
  | t, b :: bs => get (t.child b) bs

/-- The last value on the way down. -/
def longest : List Bool → Trie α → Option α → Option α
  | [], t, best => t.value.or best
  | b :: bs, t, best => longest bs (t.child b) (t.value.or best)

@[simp] theorem child_setValue (v : α) (t : Trie α) (b : Bool) : (t.setValue v).child b = t.child b := by
  cases b <;> rfl

@[simp] theorem value_setChild (t : Trie α) (b : Bool) (c : Trie α) : (t.setChild b c).value = t.value := by
  cases b <;> rfl

theorem child_setChild (t : Trie α) (b b' : Bool) (c : Trie α) :
    (t.setChild b c).child b' = if b' = b then c else t.child b' := by
  cases b <;> cases b' <;> rfl

@[simp] theorem get_nil (k : List Bool) : (nil : Trie α).get k = none := by
  induction k with
  | nil => rfl
  | cons b k ih => exact ih

@[simp] theorem longest_nil (bits : List Bool) (best : Option α) : (nil : Trie α).longest bits best = best := by
  induction bits with
  | nil => rfl
  | cons b bits ih => exact ih

theorem get_insert (v : α) (k k' : List Bool) (t : Trie α) :
    (t.insert v k).get k' = if k' = k then some v else t.get k' := by
  induction k generalizing k' t with
  | nil =>
    cases k' with
    | nil => rfl
    | cons b k' => simp [insert, get]
  | cons b k ih =>
    cases k' with
    | nil => simp [insert, get]
    | cons b' k' =>
      by_cases h : b' = b
      · subst h
        simp [insert, get, child_setChild, ih]
      · simp [insert, get, child_setChild, h]

/-- The value at the longest prefix that has one. -/
def IsLongest (f : List Bool → Option α) (bits : List Bool) : Option α → Prop
  | none => ∀ k, k <+: bits → f k = none
  | some v => ∃ k, k <+: bits ∧ f k = some v ∧ ∀ k', k' <+: bits → k.length < k'.length → f k' = none

theorem longest_eq_or (bits : List Bool) (t : Trie α) (best : Option α) :
    t.longest bits best = (t.longest bits none).or best := by
  induction bits generalizing t best with
  | nil => simp [longest]
  | cons b bs ih =>
    rw [longest, longest, ih, ih _ (t.value.or none), Option.or_none, Option.or_assoc]

theorem isLongest_longest (bits : List Bool) (t : Trie α) : IsLongest t.get bits (t.longest bits none) := by
  induction bits generalizing t with
  | nil =>
    rw [longest, Option.or_none]
    cases h : t.value with
    | none => simpa [IsLongest, get] using h
    | some v => exact ⟨[], List.nil_prefix, h, by simp +contextual⟩
  | cons b bs ih =>
    rw [longest, longest_eq_or, Option.or_none]
    have below := ih (t.child b)
    cases h : (t.child b).longest bs none with
    | some v =>
      rw [h] at below
      obtain ⟨k, hk, found, last⟩ := below
      refine ⟨b :: k, by simpa using hk, found, fun k' hk' longer => ?_⟩
      rcases List.prefix_cons_iff.1 hk' with rfl | ⟨k'', rfl, hk''⟩
      · simp at longer
      · exact last k'' hk'' (by simpa using longer)
    | none =>
      rw [h] at below
      rw [Option.none_or]
      cases here : t.value with
      | none =>
        intro k hk
        rcases List.prefix_cons_iff.1 hk with rfl | ⟨k', rfl, hk'⟩
        · exact here
        · exact below k' hk'
      | some v =>
        refine ⟨[], List.nil_prefix, here, fun k hk longer => ?_⟩
        rcases List.prefix_cons_iff.1 hk with rfl | ⟨k', rfl, hk'⟩
        · simp at longer
        · exact below k' hk'

end Trie

end Tries
