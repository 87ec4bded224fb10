import Mathlib

/-!
# Slices with checked bounds

Code that indexes and slices a string of bytes returns a value or an error, or panics.  `Outcome` tells the three
apart.
-/

namespace Slices

variable {ε α β : Type}

/-- The outcome of Go code: a value, an error or a panic. -/
inductive Outcome (ε α : Type) where
  | ok (a : α)
  | err (e : ε)
  | panic
  deriving DecidableEq, Repr

namespace Outcome

def bind : Outcome ε α → (α → Outcome ε β) → Outcome ε β
  | ok a, f => f a
  | err e, _ => err e
  | panic, _ => panic

instance : Monad (Outcome ε) where
  pure := ok
  bind := bind

@[simp] theorem ok_bind (a : α) (f : α → Outcome ε β) : (ok a >>= f) = f a := rfl

@[simp] theorem panic_bind (f : α → Outcome ε β) : (panic >>= f) = panic := rfl

end Outcome

/-- `l[i]`. -/
def index (l : List α) (i : ℕ) : Outcome ε α :=
  match l[i]? with
  | some a => .ok a
  | none => .panic

/-- `l[i:j]`. -/
def slice (l : List α) (i j : ℕ) : Outcome ε (List α) :=
  if i ≤ j ∧ j ≤ l.length then .ok ((l.take j).drop i) else .panic

/-- `l[i:]`. -/
def sliceFrom (l : List α) (i : ℕ) : Outcome ε (List α) :=
  if i ≤ l.length then .ok (l.drop i) else .panic

/-- `l[i] = a`. -/
def assign (l : List α) (i : ℕ) (a : α) : Outcome ε (List α) := if i < l.length then .ok (l.set i a) else .panic

/-- `copy(dst, src)`. -/
def copy (dst src : List α) : List α := src.take dst.length ++ dst.drop src.length

variable {l : List α} {i : ℕ}

theorem index_of_lt (h : i < l.length) : index (ε := ε) l i = .ok l[i] := by
  rw [index, List.getElem?_eq_getElem h]

theorem slice_of_le {i j : ℕ} (hij : i ≤ j) (hj : j ≤ l.length) : slice (ε := ε) l i j = .ok ((l.take j).drop i) :=
  if_pos ⟨hij, hj⟩

theorem sliceFrom_of_le (h : i ≤ l.length) : sliceFrom (ε := ε) l i = .ok (l.drop i) := if_pos h

theorem index_of_getElem? {a : α} (h : l[i]? = some a) : index (ε := ε) l i = .ok a := by
  rw [index, h]

theorem assign_of_lt (h : i < l.length) (a : α) : assign (ε := ε) l i a = .ok (l.set i a) := if_pos h

theorem length_copy (dst src : List α) : (copy dst src).length = dst.length := by
  rw [copy, List.length_append, List.length_take, List.length_drop]
  omega

theorem take_copy {dst src : List α} (room : src.length ≤ dst.length) : (copy dst src).take src.length = src := by
  rw [copy, List.take_of_length_le room, List.take_left]

end Slices
