import Mathlib

/-!
# Integers as bytes in network order

`bigEndian k n` is the last `k` bytes of `n`, most significant first, and `ofBigEndian` reads such
a string back.
-/

namespace Bytes

/-- The `k` low bytes of a number, the highest first. -/
def bigEndian : ℕ → ℕ → List UInt8
  | 0, _ => []
  | k + 1, n => UInt8.ofNat (n / 256 ^ k) :: bigEndian k n

def ofBigEndian (l : List UInt8) : ℕ := l.foldl (fun n b => 256 * n + b.toNat) 0

@[simp] theorem length_bigEndian (k n : ℕ) : (bigEndian k n).length = k := by
  induction k with
  | zero => rfl
  | succ k ih => rw [bigEndian, List.length_cons, ih]

theorem getElem?_bigEndian {k n j : ℕ} (h : j < k) :
    (bigEndian k n)[j]? = some (UInt8.ofNat (n / 256 ^ (k - 1 - j))) := by
  induction k generalizing j with
  | zero => omega
  | succ k ih =>
    cases j with
    | zero => rfl
    | succ j =>
      rw [bigEndian, List.getElem?_cons_succ, ih (by omega)]
      congr 4
      omega

theorem foldl_bigEndian (k n acc : ℕ) :
    (bigEndian k n).foldl (fun n b => 256 * n + b.toNat) acc = 256 ^ k * acc + n % 256 ^ k := by
  induction k generalizing acc with
  | zero => simp [bigEndian, Nat.mod_one]
  | succ k ih =>
    have digit : n % 256 ^ (k + 1) = 256 ^ k * (n / 256 ^ k % 256) + n % 256 ^ k := by
      rw [Nat.pow_succ, Nat.mod_mul]
      omega
    have byte : (UInt8.ofNat (n / 256 ^ k)).toNat = n / 256 ^ k % 256 := UInt8.toNat_ofNat'
    calc
      (bigEndian (k + 1) n).foldl (fun n b => 256 * n + b.toNat) acc
        = 256 ^ k * (256 * acc + n / 256 ^ k % 256) + n % 256 ^ k := by
          rw [bigEndian, List.foldl_cons, ih, byte]
      _ = 256 ^ (k + 1) * acc + n % 256 ^ (k + 1) := by
          rw [digit, Nat.mul_add, ← Nat.mul_assoc, ← Nat.pow_succ, Nat.add_assoc]

theorem ofBigEndian_bigEndian {k n : ℕ} (h : n < 256 ^ k) : ofBigEndian (bigEndian k n) = n := by
  rw [ofBigEndian, foldl_bigEndian, Nat.mul_zero, Nat.zero_add, Nat.mod_eq_of_lt h]

theorem ofBigEndian_concat (l : List UInt8) (b : UInt8) : ofBigEndian (l ++ [b]) = 256 * ofBigEndian l + b.toNat := by
  rw [ofBigEndian, List.foldl_append]
  rfl

theorem ofBigEndian_lt (l : List UInt8) : ofBigEndian l < 256 ^ l.length := by
  induction l using List.reverseRecOn with
  | nil => exact Nat.one_pos
  | append_singleton l b ih =>
    rw [ofBigEndian_concat, List.length_append, List.length_singleton, Nat.pow_succ]
    have := b.toNat_lt
    omega

theorem ofBigEndian_inj {l l' : List UInt8} (length : l.length = l'.length) (h : ofBigEndian l = ofBigEndian l') :
    l = l' := by
  induction l using List.reverseRecOn generalizing l' with
  | nil => exact (List.length_eq_zero_iff.1 length.symm).symm
  | append_singleton l b ih =>
    obtain rfl | ⟨l', b', rfl⟩ := List.eq_nil_or_concat' l'
    · simp at length
    rw [ofBigEndian_concat, ofBigEndian_concat] at h
    have hb := b.toNat_lt
    have hb' := b'.toNat_lt
    have low : b = b' := UInt8.toNat_inj.1 (by omega)
    rw [ih (by simpa using length) (by omega), low]

theorem take_append_of_length {α : Type} {l rest : List α} {k : ℕ} (h : l.length = k) : (l ++ rest).take k = l := by
  rw [← h, List.take_left]

end Bytes
