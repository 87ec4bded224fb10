import Egressa.Measurement.Arith

/-!
# Comparing numbers that may not be numbers

What the choice of a path relies on is little: how comparisons behave when one side is not a number,
and what infinity does.  `IEEE` lists it, and the binary64 numbers meet it.
-/

namespace Egressa.Measurement

variable {F : Type} [Arith F]

def isNaN (x : F) : Bool := !Arith.eq x x

/-- The rules of comparison, and of infinity. -/
class IEEE (F : Type) [Arith F] : Prop where
  lt_irrefl (x : F) : Arith.lt x x = false
  lt_trans (x y z : F) : Arith.lt x y = true → Arith.lt y z = true → Arith.lt x z = true
  nan_lt (x y : F) : isNaN x = true → Arith.lt x y = false
  lt_nan (x y : F) : isNaN y = true → Arith.lt x y = false
  le_of_not_lt (x y : F) : isNaN x = false → isNaN y = false → Arith.lt y x = false → Arith.le x y = true
  lt_of_lt_of_le (x y z : F) : Arith.lt x y = true → Arith.le y z = true → Arith.lt x z = true
  inf_lt (x : F) : Arith.lt Arith.inf x = false
  lt_sub_inf (x y : F) : Arith.lt x (y - Arith.inf) = false

namespace Binary64

open Float.Model (UnpackedFloat)

/-- Where a number stands: by its sign, then by its exponent and its mantissa. -/
def key : UnpackedFloat → Option (ℤ ×ₗ ℤ ×ₗ ℤ)
  | .notANumber => none
  | .infinity .positive => some (toLex (2, toLex (0, 0)))
  | .infinity .negative => some (toLex (-2, toLex (0, 0)))
  | .zero _ => some (toLex (0, toLex (0, 0)))
  | .finite .positive m e _ => some (toLex (1, toLex (e, (m : ℤ))))
  | .finite .negative m e _ => some (toLex (-1, toLex (-e, -(m : ℤ))))

theorem compare_lex (s e e' m m' : ℤ) : compare (toLex (s, toLex (e, m)) : ℤ ×ₗ ℤ ×ₗ ℤ) (toLex (s, toLex (e', m'))) =
      (compare e e').then (compare m m') := by
  rcases lt_trichotomy e e' with h | rfl | h
  · rw [compare_lt_iff_lt.2 h]
    exact compare_lt_iff_lt.2 (Prod.Lex.lt_iff.2 (Or.inr ⟨rfl, Prod.Lex.lt_iff.2 (Or.inl h)⟩))
  · rw [compare_eq_iff_eq.2 (rfl : e = e), Ordering.then]
    rcases lt_trichotomy m m' with h | rfl | h
    · rw [compare_lt_iff_lt.2 h]
      exact compare_lt_iff_lt.2 (Prod.Lex.lt_iff.2 (Or.inr ⟨rfl, Prod.Lex.lt_iff.2 (Or.inr ⟨rfl, h⟩)⟩))
    · rw [compare_eq_iff_eq.2 (rfl : m = m)]
      exact compare_eq_iff_eq.2 rfl
    · rw [compare_gt_iff_gt.2 h]
      exact compare_gt_iff_gt.2 (Prod.Lex.lt_iff.2 (Or.inr ⟨rfl, Prod.Lex.lt_iff.2 (Or.inr ⟨rfl, h⟩)⟩))
  · rw [compare_gt_iff_gt.2 h]
    exact compare_gt_iff_gt.2 (Prod.Lex.lt_iff.2 (Or.inr ⟨rfl, Prod.Lex.lt_iff.2 (Or.inl h)⟩))

theorem compare_neg (a b : ℤ) : compare (-a) (-b) = (compare a b).swap := by
  rcases lt_trichotomy a b with h | rfl | h
  · rw [compare_lt_iff_lt.2 h]
    exact compare_gt_iff_gt.2 (neg_lt_neg h)
  · simp
  · rw [compare_gt_iff_gt.2 h]
    exact compare_lt_iff_lt.2 (neg_lt_neg h)

theorem compare_natCast (m n : ℕ) : compare (m : ℤ) (n : ℤ) = compare m n := by
  rcases lt_trichotomy m n with h | rfl | h
  · rw [compare_lt_iff_lt.2 h]
    exact compare_lt_iff_lt.2 (Int.ofNat_lt.2 h)
  · simp
  · rw [compare_gt_iff_gt.2 h]
    exact compare_gt_iff_gt.2 (Int.ofNat_lt.2 h)

variable {a b : UnpackedFloat}

theorem compare_of_key {ka kb : ℤ ×ₗ ℤ ×ₗ ℤ} (ha : key a = some ka)
    (hb : key b = some kb) : a.compare b = some (compare ka kb) := by
  unfold key at ha hb
  rcases a with s | _ | s | ⟨s, m, e, h⟩ <;> rcases b with s' | _ | s' | ⟨s', m', e', h'⟩ <;>
    (try cases s) <;> (try cases s') <;> simp only [Option.some.injEq, reduceCtorEq] at ha hb <;>
    subst ha hb <;> try rfl
  · rw [compare_lex, compare_neg, compare_neg, compare_natCast, ← Ordering.swap_then]
    rfl
  · rw [compare_lex, compare_natCast]
    rfl

theorem compare_eq_none : a.compare b = none ↔ key a = none ∨ key b = none := by
  unfold key
  rcases a with s | _ | s | ⟨s, m, e, h⟩ <;> rcases b with s' | _ | s' | ⟨s', m', e', h'⟩ <;>
    (try cases s) <;> (try cases s') <;> simp [UnpackedFloat.compare]

theorem lt_iff : a.lt b = true ↔ ∃ ka kb, key a = some ka ∧ key b = some kb ∧ ka < kb := by
  unfold UnpackedFloat.lt
  cases ha : key a with
  | none => simp [compare_eq_none.2 (Or.inl ha)]
  | some ka =>
    cases hb : key b with
    | none => simp [compare_eq_none.2 (Or.inr hb)]
    | some kb => simp [compare_of_key ha hb, compare_lt_iff_lt]

theorem le_iff : a.le b = true ↔ ∃ ka kb, key a = some ka ∧ key b = some kb ∧ ka ≤ kb := by
  unfold UnpackedFloat.le
  cases ha : key a with
  | none => simp [compare_eq_none.2 (Or.inl ha)]
  | some ka =>
    cases hb : key b with
    | none => simp [compare_eq_none.2 (Or.inr hb)]
    | some kb => simp [compare_of_key ha hb, Ordering.isLE_iff_ne_gt, compare_gt_iff_gt]

theorem key_bounds {a : UnpackedFloat} {k : ℤ ×ₗ ℤ ×ₗ ℤ} (h : key a = some k) :
    toLex (-2, toLex (0, 0)) ≤ k ∧ k ≤ toLex (2, toLex (0, 0)) := by
  unfold key at h
  rcases a with s | _ | s | ⟨s, m, e, hm⟩ <;> (try cases s) <;>
    simp only [Option.some.injEq, reduceCtorEq] at h <;> subst h <;> simp [Prod.Lex.le_iff]

theorem beq_self {a : UnpackedFloat} : a.beq a = true ↔ ∃ ka, key a = some ka := by
  unfold UnpackedFloat.beq
  cases ha : key a with
  | none => simp [compare_eq_none.2 (Or.inl ha)]
  | some ka => simp [compare_of_key ha ha]

def place (x : Float) : Option (ℤ ×ₗ ℤ ×ₗ ℤ) := key x.toModel.unpack

theorem lt_eq (x y : Float) : Arith.lt x y = x.toModel.unpack.lt y.toModel.unpack := by
  change decide (decide (x.toModel.unpack.lt y.toModel.unpack = true) = true) = _
  simp

theorem unpack_inf : (Arith.inf : Float).toModel.unpack = .infinity .positive := rfl

theorem unpack_pack_negInf : (Float.Model.pack (.infinity .negative)).unpack = .infinity .negative := rfl

theorem unpack_sub_inf (y : Float) : (y - Arith.inf).toModel.unpack = .notANumber ∨
    (y - Arith.inf).toModel.unpack = .infinity .negative := by
  change (Float.Model.pack (UnpackedFloat.sub Float.Model.Format.binary64 y.toModel.unpack
    (Arith.inf : Float).toModel.unpack)).unpack = _ ∨ (Float.Model.pack (UnpackedFloat.sub
    Float.Model.Format.binary64 y.toModel.unpack (Arith.inf : Float).toModel.unpack)).unpack = _
  rw [unpack_inf]
  cases y.toModel.unpack with
  | notANumber => exact Or.inl rfl
  | infinity s =>
    cases s with
    | positive => exact Or.inl rfl
    | negative => exact Or.inr rfl
  | zero s => exact Or.inr unpack_pack_negInf
  | finite s m e h => exact Or.inr unpack_pack_negInf

theorem eq_eq (x y : Float) : Arith.eq x y = x.toModel.unpack.beq y.toModel.unpack := rfl

theorem le_eq (x y : Float) : Arith.le x y = x.toModel.unpack.le y.toModel.unpack := by
  change decide (decide (x.toModel.unpack.le y.toModel.unpack = true) = true) = _
  simp

theorem lt_place {x y : Float} : Arith.lt x y = true ↔ ∃ px py, place x = some px ∧ place y = some py ∧ px < py := by
  rw [lt_eq]
  exact lt_iff

theorem le_place {x y : Float} : Arith.le x y = true ↔ ∃ px py, place x = some px ∧ place y = some py ∧ px ≤ py := by
  rw [le_eq]
  exact le_iff

theorem isNaN_place {x : Float} : isNaN x = true ↔ place x = none := by
  unfold isNaN
  rw [eq_eq, Bool.not_eq_true', ← Bool.not_eq_true, beq_self, not_exists]
  exact Option.eq_none_iff_forall_ne_some.symm

end Binary64

open Binary64 in
instance : IEEE Float where
  lt_irrefl x := by
    rw [← Bool.not_eq_true, lt_place]
    rintro ⟨p, q, hp, hq, h⟩
    rw [Option.some.inj (hp.symm.trans hq)] at h
    exact lt_irrefl q h
  lt_trans x y z := by
    rw [lt_place, lt_place, lt_place]
    rintro ⟨p, q, hp, hq, h⟩ ⟨q', r, hq', hr, h'⟩
    rw [Option.some.inj (hq.symm.trans hq')] at h
    exact ⟨p, r, hp, hr, h.trans h'⟩
  nan_lt x y hx := by
    rw [← Bool.not_eq_true, lt_place, isNaN_place.1 hx]
    simp
  lt_nan x y hy := by
    rw [← Bool.not_eq_true, lt_place, isNaN_place.1 hy]
    simp
  le_of_not_lt x y hx hy h := by
    rw [← Bool.not_eq_true, isNaN_place, ← ne_eq, Option.ne_none_iff_exists'] at hx hy
    obtain ⟨p, hp⟩ := hx
    obtain ⟨q, hq⟩ := hy
    rw [← Bool.not_eq_true, lt_place] at h
    exact le_place.2 ⟨p, q, hp, hq, not_lt.1 fun hlt => h ⟨q, p, hq, hp, hlt⟩⟩
  lt_of_lt_of_le x y z := by
    rw [lt_place, le_place, lt_place]
    rintro ⟨p, q, hp, hq, h⟩ ⟨q', r, hq', hr, h'⟩
    rw [Option.some.inj (hq.symm.trans hq')] at h
    exact ⟨p, r, hp, hr, h.trans_le h'⟩
  inf_lt x := by
    rw [← Bool.not_eq_true, lt_place]
    rintro ⟨p, q, hp, hq, h⟩
    rw [place, unpack_inf] at hp
    cases hp
    exact (key_bounds hq).2.not_gt h
  lt_sub_inf x y := by
    rw [← Bool.not_eq_true, lt_place]
    rintro ⟨p, q, hp, hq, h⟩
    rw [place] at hq
    rcases unpack_sub_inf y with hy | hy
    · rw [hy] at hq
      cases hq
    · rw [hy] at hq
      cases hq
      exact (key_bounds hp).1.not_gt h

end Egressa.Measurement
