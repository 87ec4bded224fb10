import Egressa.Measurement.Order

/-!
# The extended reals

The real numbers with two infinities and what is not a number, under the IEEE rules.  Results are exact.  Zero has no
sign, and is taken as positive when it divides.
-/

namespace Egressa.Measurement

/-- Extended reals with a NaN: arithmetic without rounding. -/
inductive Extended
  | nan
  | of (x : EReal)

namespace Extended

noncomputable section

open Classical

def add : Extended → Extended → Extended
  | of x, of y => if x = ⊤ ∧ y = ⊥ ∨ x = ⊥ ∧ y = ⊤ then nan else of (x + y)
  | _, _ => nan

def neg : Extended → Extended
  | of x => of (-x)
  | nan => nan

def mul : Extended → Extended → Extended
  | of x, of y =>
    if x = 0 ∧ (y = ⊤ ∨ y = ⊥) ∨ y = 0 ∧ (x = ⊤ ∨ x = ⊥) then nan else of (x * y)
  | _, _ => nan

def div : Extended → Extended → Extended
  | of x, of y =>
    if y = 0 then (if x = 0 then nan else if 0 < x then of ⊤ else of ⊥)
    else if (x = ⊤ ∨ x = ⊥) ∧ (y = ⊤ ∨ y = ⊥) then nan
    else of (x / y)
  | _, _ => nan

def sqrt : Extended → Extended
  | of x => if x < 0 then nan else if x = ⊤ then of ⊤ else of (Real.sqrt x.toReal : ℝ)
  | nan => nan

def log : Extended → Extended
  | of x =>
    if x < 0 then nan
    else if x = 0 then of ⊥
    else if x = ⊤ then of ⊤
    else of (Real.log x.toReal : ℝ)
  | nan => nan

def lt : Extended → Extended → Bool
  | of x, of y => decide (x < y)
  | _, _ => false

def le : Extended → Extended → Bool
  | of x, of y => decide (x ≤ y)
  | _, _ => false

def eq : Extended → Extended → Bool
  | of x, of y => decide (x = y)
  | _, _ => false

instance : Arith Extended where
  zero := of 0
  one := of 1
  add := add
  sub x y := add x (neg y)
  mul := mul
  div := div
  neg := neg
  inf := of ⊤
  sqrt := sqrt
  log := log
  ofUInt64 n := of ((n.toNat : ℝ) : EReal)
  lt := lt
  le := le
  eq := eq

end

/-! ## Real numbers -/

def real (r : ℝ) : Extended := of (r : EReal)

theorem zero_eq : (0 : Extended) = real 0 := rfl

theorem one_eq : (1 : Extended) = real 1 := rfl

@[simp] theorem real_add (a b : ℝ) : real a + real b = real (a + b) := by
  change add (real a) (real b) = _
  simp [add, real]

@[simp] theorem neg_real (a : ℝ) : -real a = real (-a) := rfl

@[simp] theorem real_sub (a b : ℝ) : real a - real b = real (a - b) := by
  rw [sub_eq_add_neg a b, ← real_add]
  rfl

@[simp] theorem real_mul (a b : ℝ) : real a * real b = real (a * b) := by
  change mul (real a) (real b) = _
  simp [mul, real]

theorem real_div {a b : ℝ} (hb : b ≠ 0) : real a / real b = real (a / b) := by
  change div (real a) (real b) = _
  simp [div, real, hb, EReal.coe_div]

theorem sqrt_real {a : ℝ} (ha : 0 ≤ a) : Arith.sqrt (real a) = real √a := by
  change sqrt (real a) = _
  simp [sqrt, real, not_lt.2 ha]

theorem log_real {a : ℝ} (ha : 0 < a) : Arith.log (real a) = real (Real.log a) := by
  change log (real a) = _
  simp [log, real, not_lt.2 ha.le, ha.ne']

@[simp] theorem lt_real (a b : ℝ) : Arith.lt (real a) (real b) = decide (a < b) := by
  change lt (real a) (real b) = _
  simp [lt, real]

@[simp] theorem le_real (a b : ℝ) : Arith.le (real a) (real b) = decide (a ≤ b) := by
  change le (real a) (real b) = _
  simp [le, real]

section

variable (a : ℝ)

@[simp] theorem real_eq_inf : isPosInf (real a) = false := by
  change eq (real a) (of ⊤) = _
  simp [eq, real]

@[simp] theorem real_eq_negInf : isNegInf (real a) = false := by
  change eq (real a) (of (-⊤)) = _
  simp [eq, real]

@[simp] theorem inf_sub_real : Arith.inf - real a = Arith.inf := by
  change add (of ⊤) (neg (real a)) = of ⊤
  simp [add, neg, real]

@[simp] theorem lt_inf : Arith.lt (real a) Arith.inf = true := by
  change lt (real a) (of ⊤) = true
  simp [lt, real]

@[simp] theorem inf_lt_real : Arith.lt Arith.inf (real a) = false := by
  change lt (of ⊤) (real a) = false
  simp [lt, real]

@[simp] theorem real_add_inf : real a + Arith.inf = Arith.inf := by
  change add (real a) (of ⊤) = of ⊤
  simp [add, real]

@[simp] theorem real_sub_inf : real a - Arith.inf = -Arith.inf := by
  change add (real a) (neg (of ⊤)) = neg (of ⊤)
  simp [add, neg, real]

@[simp] theorem real_sub_negInf : real a - -Arith.inf = Arith.inf := by
  change add (real a) (neg (neg (of ⊤))) = of ⊤
  simp [add, neg, real]

@[simp] theorem negInf_sub_real : -Arith.inf - real a = -Arith.inf := by
  change add (neg (of ⊤)) (neg (real a)) = neg (of ⊤)
  simp [add, neg, real]

end

@[simp] theorem negInf_sub_inf : (-Arith.inf - Arith.inf : Extended) = -Arith.inf := by
  change add (neg (of ⊤)) (neg (of ⊤)) = neg (of ⊤)
  simp [add, neg]

@[simp] theorem inf_sub_negInf : (Arith.inf - -Arith.inf : Extended) = Arith.inf := by
  change add (of ⊤) (neg (neg (of ⊤))) = of ⊤
  simp [add, neg]

@[simp] theorem negInf_le (x : EReal) : Arith.le (-Arith.inf) (of x) = true := by
  change le (neg (of ⊤)) (of x) = true
  simp [le, neg]

@[simp] theorem le_inf (x : EReal) : Arith.le (of x) Arith.inf = true := by
  change le (of x) (of ⊤) = true
  simp [le]

@[simp] theorem lt_negInf (x : Extended) : Arith.lt x (-Arith.inf) = false := by
  change lt x (neg (of ⊤)) = false
  cases x <;> simp [lt, neg]

@[simp] theorem isPosInf_inf : isPosInf (Arith.inf : Extended) = true := by
  change eq (of ⊤) (of ⊤) = true
  simp [eq]

/-! ## Comparisons -/

theorem isNaN_iff {x : Extended} : isNaN x = true ↔ x = nan := by
  cases x with
  | nan => simp [isNaN, Arith.eq, eq]
  | of x => simp [isNaN, Arith.eq, eq]

theorem lt_iff {x y : Extended} : Arith.lt x y = true ↔ ∃ a b, x = of a ∧ y = of b ∧ a < b := by
  cases x <;> cases y <;> simp [Arith.lt, lt]

theorem le_iff {x y : Extended} : Arith.le x y = true ↔ ∃ a b, x = of a ∧ y = of b ∧ a ≤ b := by
  cases x <;> cases y <;> simp [Arith.le, le]

theorem lt_of_lt_of_le {x y z : Extended} (hxy : Arith.lt x y = true) (hyz : Arith.le y z = true) :
    Arith.lt x z = true := by
  obtain ⟨a, b, rfl, rfl, hab⟩ := lt_iff.1 hxy
  obtain ⟨b', c, hb, rfl, hbc⟩ := le_iff.1 hyz
  obtain rfl : b = b' := by simpa using hb
  exact lt_iff.2 ⟨a, c, rfl, rfl, hab.trans_le hbc⟩

theorem sub_inf (x : Extended) : x - Arith.inf = nan ∨ x - Arith.inf = of ⊥ := by
  change add x (neg (of ⊤)) = nan ∨ add x (neg (of ⊤)) = of ⊥
  cases x with
  | nan => exact Or.inl rfl
  | of x =>
    by_cases hx : x = ⊤
    · simp [add, neg, hx]
    · simp [add, neg, hx]

/-- The operands whose sum or difference is NaN. -/
def Clash (x y : Extended) : Prop := x = nan ∨ y = nan ∨ x = of ⊤ ∧ y = of ⊤ ∨ x = of ⊥ ∧ y = of ⊥

theorem isNaN_sub_iff {x y : Extended} : isNaN (x - y) = true ↔ Clash x y := by
  rw [isNaN_iff]
  change add x (neg y) = nan ↔ Clash x y
  unfold Clash
  cases x with
  | nan => simp [add]
  | of x =>
    cases y with
    | nan => simp [add, neg]
    | of y =>
      by_cases h : x = ⊤ ∧ y = ⊤ ∨ x = ⊥ ∧ y = ⊥
      · simp [add, neg, h]
      · simp [add, neg, h]

instance : IEEE Extended where
  lt_irrefl x := by
    rw [← Bool.not_eq_true, lt_iff]
    rintro ⟨a, b, rfl, h, hlt⟩
    cases h
    exact lt_irrefl a hlt
  lt_trans x y z := by
    rw [lt_iff, lt_iff, lt_iff]
    rintro ⟨a, b, rfl, rfl, hab⟩ ⟨b', c, h, rfl, hbc⟩
    cases h
    exact ⟨a, c, rfl, rfl, hab.trans hbc⟩
  nan_lt x y hx := by
    rw [isNaN_iff.1 hx]
    rfl
  lt_nan x y hy := by
    rw [isNaN_iff.1 hy]
    cases x <;> rfl
  le_of_not_lt x y hx hy h := by
    rw [← Bool.not_eq_true, isNaN_iff] at hx hy
    cases x with
    | nan => exact absurd rfl hx
    | of a =>
      cases y with
      | nan => exact absurd rfl hy
      | of b =>
        rw [← Bool.not_eq_true, lt_iff] at h
        exact le_iff.2 ⟨a, b, rfl, rfl, not_lt.1 fun hlt => h ⟨b, a, rfl, rfl, hlt⟩⟩
  lt_of_lt_of_le x y z := by
    rw [lt_iff, le_iff, lt_iff]
    rintro ⟨a, b, rfl, rfl, hab⟩ ⟨b', c, h, rfl, hbc⟩
    cases h
    exact ⟨a, c, rfl, rfl, hab.trans_le hbc⟩
  inf_lt x := by
    rw [← Bool.not_eq_true, lt_iff]
    rintro ⟨a, b, h, rfl, hlt⟩
    cases h
    exact not_top_lt hlt
  lt_sub_inf x y := by
    rw [← Bool.not_eq_true, lt_iff]
    rintro ⟨a, b, rfl, h, hlt⟩
    rcases sub_inf y with hy | hy
    · rw [hy] at h
      cases h
    · rw [hy] at h
      cases h
      exact not_lt_bot hlt

end Extended

end Egressa.Measurement
