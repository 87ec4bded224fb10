import Mathlib

/-!
# Decimal renderings

`strconv.FormatUint` and `strconv.ParseUint` in base 10, for 64 bits, and bytes in base 16.  A rendering parses back to
the number it renders.  `ParseUint` accepts leading zeros, and that is all that is in the way of the converse.  Looked
for in a text (`strings.Contains`), a rendering finds every rendering that begins with it.
-/

namespace Egressa

def formatUint (n : UInt64) : String := n.toNat.repr

/-- One more digit of a number; `none` is a syntax error for what is no digit, or a range error past 64 bits. -/
def parseDigit (n : ℕ) (c : Char) : Option ℕ :=
  if c.isDigit ∧ 10 * n + (c.toNat - '0'.toNat) < 2 ^ 64 then
    some (10 * n + (c.toNat - '0'.toNat))
  else none

/-- `strconv.ParseUint` in base 10. -/
def parseUint (s : String) : Option UInt64 :=
  if s = "" then none else (s.toList.foldlM parseDigit 0).map UInt64.ofNat

/-- The value only grows along the digits, so no prefix of a number in range is out of range. -/
theorem foldlM_parseDigit {l : List Char} (digits : ∀ c ∈ l, c.isDigit) {n : ℕ}
    (h : Nat.ofDigitChars 10 l n < 2 ^ 64) :
    l.foldlM parseDigit n = some (Nat.ofDigitChars 10 l n) := by
  induction l generalizing n with
  | nil => rfl
  | cons c l ih =>
    rw [Nat.ofDigitChars_cons] at h ⊢
    have grows : 10 * n + (c.toNat - '0'.toNat) < 2 ^ 64 := by
      rw [Nat.ofDigitChars_eq_ofDigitChars_zero] at h
      have pos : 0 < 10 ^ l.length := Nat.pow_pos (by omega)
      have := Nat.le_mul_of_pos_left (10 * n + (c.toNat - '0'.toNat)) pos
      omega
    have head : parseDigit n c = some (10 * n + (c.toNat - '0'.toNat)) := by
      simp only [parseDigit, if_pos (And.intro (digits c (by simp)) grows)]
    rw [List.foldlM_cons, head]
    exact ih (fun c hc => digits c (by simp [hc])) h

theorem parseUint_formatUint (n : UInt64) : parseUint (formatUint n) = some n := by
  have hlist : (formatUint n).toList = Nat.toDigits 10 n.toNat := by
    simp [formatUint, Nat.repr_eq_ofList_toDigits]
  have hparse : (Nat.toDigits 10 n.toNat).foldlM parseDigit 0 = some n.toNat := by
    rw [foldlM_parseDigit (fun c hc => Nat.isDigit_of_mem_toDigits (by omega) (by omega) hc),
      Nat.ofDigitChars_ten_toDigits]
    rw [Nat.ofDigitChars_ten_toDigits]
    exact n.toNat_lt
  have hne : formatUint n ≠ "" := Nat.repr_ne_empty
  rw [parseUint, if_neg hne, hlist, hparse]
  simp

theorem formatUint_inj {a b : UInt64} : formatUint a = formatUint b ↔ a = b := by
  constructor
  · intro h
    have := parseUint_formatUint a
    rw [h, parseUint_formatUint b] at this
    exact (Option.some.inj this).symm
  · exact congrArg formatUint

theorem of_foldlM_parseDigit {l : List Char} {n m : ℕ} (h : l.foldlM parseDigit n = some m) :
    (∀ c ∈ l, c.isDigit) ∧ m = Nat.ofDigitChars 10 l n ∧ (n < 2 ^ 64 → m < 2 ^ 64) := by
  induction l generalizing n with
  | nil =>
    cases h
    exact ⟨fun _ hc => (by cases hc), rfl, id⟩
  | cons c l ih =>
    rw [List.foldlM_cons] at h
    obtain ⟨k, head, rest⟩ := Option.bind_eq_some_iff.mp h
    unfold parseDigit at head
    split_ifs at head with digit
    cases head
    obtain ⟨digits, value, below⟩ := ih rest
    refine ⟨?_, by rw [Nat.ofDigitChars_cons, value], fun _ => below digit.2⟩
    intro c' hc'
    rcases List.mem_cons.mp hc' with rfl | old
    · exact digit.1
    · exact digits c' old

theorem digitChar_of_isDigit {c : Char} (digit : c.isDigit) :
    c.toNat - '0'.toNat < 10 ∧ Nat.digitChar (c.toNat - '0'.toNat) = c := by
  have range : 48 ≤ c.toNat ∧ c.toNat ≤ 57 := by simpa [Char.isDigit, UInt32.le_iff_toNat_le] using digit
  rw [← Char.ofNat_toNat c]
  generalize c.toNat = n at range
  obtain ⟨low, high⟩ := range
  interval_cases n <;> decide

theorem toDigits_ofDigitChars {l : List Char} (digits : ∀ c ∈ l, c.isDigit) (nonempty : l ≠ [])
    (lead : l.head? ≠ some '0') :
    0 < Nat.ofDigitChars 10 l 0 ∧ Nat.toDigits 10 (Nat.ofDigitChars 10 l 0) = l := by
  induction l using List.reverseRecOn with
  | nil => exact absurd rfl nonempty
  | append_singleton l c ih =>
    obtain ⟨small, char⟩ := digitChar_of_isDigit (digits c (by simp))
    have value : Nat.ofDigitChars 10 (l ++ [c]) 0 = 10 * Nat.ofDigitChars 10 l 0 + (c.toNat - '0'.toNat) := by
      rw [Nat.ofDigitChars_append, Nat.ofDigitChars_cons, Nat.ofDigitChars_nil]
    rw [value]
    by_cases first : l = []
    · subst first
      rw [Nat.ofDigitChars_nil, Nat.mul_zero, Nat.zero_add]
      refine ⟨?_, by rw [Nat.toDigits_of_lt_base small, char]; rfl⟩
      by_contra zero
      refine lead ?_
      rw [← char, Nat.eq_zero_of_not_pos zero]
      rfl
    · rw [List.head?_append_of_ne_nil _ first] at lead
      obtain ⟨pos, rest⟩ := ih (fun c hc => digits c (by simp [hc])) first lead
      refine ⟨by omega, ?_⟩
      rw [← Nat.toDigits_append_toDigits (by omega) pos small, rest, Nat.toDigits_of_lt_base small, char]

theorem head_toDigits {n : ℕ} (pos : 0 < n) : (Nat.toDigits 10 n).head? ≠ some '0' := by
  induction n using Nat.strongRecOn with
  | ind n ih =>
    by_cases small : n < 10
    · rw [Nat.toDigits_of_lt_base small]
      interval_cases n <;> decide
    · rw [Nat.toDigits_of_base_le (by omega) (by omega), List.head?_append_of_ne_nil _ Nat.toDigits_ne_nil]
      exact ih (n / 10) (by omega) (by omega)

theorem formatUint_lead (n : UInt64) : (formatUint n).toList.length ≤ 1 ∨ (formatUint n).toList.head? ≠ some '0' := by
  rw [formatUint, Nat.toList_repr]
  rcases Nat.eq_zero_or_pos n.toNat with zero | pos
  · left
    rw [zero]
    decide
  · exact Or.inr (head_toDigits pos)

theorem formatUint_of_parseUint {s : String} {n : UInt64} (h : parseUint s = some n)
    (lead : s.toList.length ≤ 1 ∨ s.toList.head? ≠ some '0') : formatUint n = s := by
  unfold parseUint at h
  split_ifs at h with empty
  obtain ⟨m, value, rfl⟩ := Option.map_eq_some_iff.mp h
  obtain ⟨digits, hm, below⟩ := of_foldlM_parseDigit value
  have nonempty : s.toList ≠ [] := fun h => empty (String.toList_eq_nil_iff.mp h)
  have rendered : Nat.toDigits 10 m = s.toList := by
    rw [hm]
    by_cases zero : s.toList.head? = some '0'
    · have single : s.toList = ['0'] := by
        have short := lead.resolve_right (not_not.mpr zero)
        rw [List.head?_eq_some_iff] at zero
        obtain ⟨rest, hrest⟩ := zero
        rw [hrest] at short ⊢
        rw [List.length_eq_zero_iff.mp (show rest.length = 0 by simpa using short)]
      rw [single]
      rfl
    · exact (toDigits_ofDigitChars digits nonempty zero).2
  rw [formatUint, UInt64.toNat_ofNat_of_lt' (below (by omega)), Nat.repr_eq_ofList_toDigits, rendered,
    String.ofList_toList]

example : parseUint "007" = some 7 ∧ parseUint "18446744073709551616" = none := by decide

/-! ## Bytes -/

def hexByte (b : UInt8) : List Char := [Nat.digitChar (b.toNat / 16), Nat.digitChar (b.toNat % 16)]

def encodeToString (bytes : List UInt8) : String := String.ofList (bytes.flatMap hexByte)

def hexValue (c : Char) : Option ℕ :=
  if '0' ≤ c ∧ c ≤ '9' then some (c.toNat - '0'.toNat)
  else if 'a' ≤ c ∧ c ≤ 'f' then some (c.toNat - 'a'.toNat + 10)
  else if 'A' ≤ c ∧ c ≤ 'F' then some (c.toNat - 'A'.toNat + 10)
  else none

def decodeString : List Char → Option (List UInt8)
  | [] => some []
  | [_] => none
  | a :: b :: s => do
    let high ← hexValue a
    let low ← hexValue b
    let rest ← decodeString s
    return UInt8.ofNat (16 * high + low) :: rest

theorem hexValue_digitChar {n : ℕ} (h : n < 16) : hexValue (Nat.digitChar n) = some n := by
  interval_cases n <;> rfl

theorem decodeString_encodeToString (bytes : List UInt8) : decodeString (encodeToString bytes).toList = some bytes := by
  rw [encodeToString, String.toList_ofList]
  induction bytes with
  | nil => rfl
  | cons b bytes ih =>
    have high : b.toNat / 16 < 16 := by
      have := b.toNat_lt
      omega
    have low : b.toNat % 16 < 16 := Nat.mod_lt _ (by omega)
    have byte : UInt8.ofNat (16 * (b.toNat / 16) + b.toNat % 16) = b := by rw [Nat.div_add_mod, UInt8.ofNat_toNat]
    rw [List.flatMap_cons, hexByte, List.cons_append, List.cons_append, List.nil_append, decodeString,
      hexValue_digitChar high, hexValue_digitChar low, ih]
    exact congrArg (fun b => some (b :: bytes)) byte

section Texts

variable {α : Type*} {a : α} {l l₁ l₂ n₁ n₂ x y : List α}

/-- Where a letter stands once, a word with it is found there or not at all. -/
theorem infix_iff_of_once (before : a ∉ l₁) (behind : a ∉ l₂) :
    n₁ ++ a :: n₂ <:+: l₁ ++ a :: l₂ ↔ n₁ <:+ l₁ ∧ n₂ <+: l₂ := by
  constructor
  · rintro ⟨s, t, h⟩
    have h : l₁ ++ a :: l₂ = (s ++ n₁) ++ a :: (n₂ ++ t) := by simp [← h]
    obtain ⟨rfl, -, rfl⟩ := (List.append_cons_inj_of_notMem before behind).1 h
    exact ⟨List.suffix_append s n₁, List.prefix_append n₂ t⟩
  · rintro ⟨⟨s, rfl⟩, t, rfl⟩
    exact ⟨s, t, by simp⟩

theorem prefix_append_cons_iff (h : a ∉ l) : l <+: x ++ a :: y ↔ l <+: x := by
  refine ⟨fun hl => ?_, fun hl => hl.trans (List.prefix_append _ _)⟩
  rcases List.prefix_or_prefix_of_prefix hl (List.prefix_append x _) with hl | ⟨r, rfl⟩
  · exact hl
  · rw [List.prefix_append_right_inj] at hl
    cases r with
    | nil => simp
    | cons b r =>
      obtain ⟨rfl, -⟩ := List.cons_prefix_cons.1 hl
      simp at h

theorem notMem_toDigits {c : Char} {b : ℕ} (base : 1 < b) (h : ∀ d < b, c ≠ Nat.digitChar d) (n : ℕ) :
    c ∉ Nat.toDigits b n := by
  induction n using Nat.strong_induction_on with
  | _ n ih =>
    by_cases small : n < b
    · simpa [Nat.toDigits_of_lt_base small] using h n small
    · rw [Nat.toDigits_of_base_le base (by omega), List.mem_append, List.mem_singleton]
      exact not_or.2 ⟨ih _ (Nat.div_lt_self (by omega) base), h _ (Nat.mod_lt _ (by omega))⟩

end Texts

end Egressa
