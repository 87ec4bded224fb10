import Mathlib

/-!
# Choosing the best of a list

A loop that keeps the best element so far, and replaces it when the next one is better, ends with an
element that no other is better than, as long as "better" is a strict order.  Nothing is asked of
elements that cannot be compared; but if the first of them cannot be compared with anything, it
stays.
-/

namespace Select

variable {α : Type*} (better : α → α → Bool)

/-- One turn of a loop that keeps the best. -/
def keepBetter : Option α → α → Option α
  | none, x => some x
  | some b, x => if better b x then some x else some b

/-- The best element by a loop, the first of equals. -/
def select (xs : List α) : Option α := xs.foldl (keepBetter better) none

variable {better}

@[simp] theorem keepBetter_none (x : α) : keepBetter better none x = some x := rfl

theorem keepBetter_some (b x : α) : keepBetter better (some b) x = if better b x then some x else some b := rfl

@[simp] theorem select_cons (x : α) (xs : List α) :
    select better (x :: xs) = xs.foldl (keepBetter better) (some x) := rfl

variable (better) in
theorem foldl_some (b : α) (xs : List α) : ∃ c, xs.foldl (keepBetter better) (some b) = some c := by
  induction xs generalizing b with
  | nil => exact ⟨b, rfl⟩
  | cons x xs ih =>
    rw [List.foldl_cons, keepBetter_some]
    by_cases h : better b x = true
    · rw [if_pos h]
      exact ih x
    · rw [if_neg h]
      exact ih b

theorem select_eq_none {xs : List α} : select better xs = none ↔ xs = [] := by
  cases xs with
  | nil => exact ⟨fun _ => rfl, fun _ => rfl⟩
  | cons x xs =>
    obtain ⟨c, hc⟩ := foldl_some better x xs
    simp [hc]

theorem foldl_stuck {b : α} (stuck : ∀ x, better b x = false) (xs : List α) :
    xs.foldl (keepBetter better) (some b) = some b := by
  induction xs with
  | nil => rfl
  | cons x xs ih =>
    rw [List.foldl_cons, keepBetter_some, stuck x]
    exact ih

/-- The loop ends with the element it began with, or with a better one it has seen, and it has seen
none that is better still. -/
theorem foldl_spec (irrefl : ∀ a, better a a = false)
    (trans : ∀ a b c, better a b = true → better b c = true → better a c = true)
    {b c : α} {xs : List α} (h : xs.foldl (keepBetter better) (some b) = some c) :
    (c = b ∨ better b c = true ∧ c ∈ xs) ∧ ∀ x ∈ b :: xs, better c x = false := by
  induction xs generalizing b with
  | nil =>
    cases h
    refine ⟨Or.inl rfl, fun x hx => ?_⟩
    rw [List.mem_singleton.1 hx]
    exact irrefl c
  | cons x xs ih =>
    rw [List.foldl_cons, keepBetter_some] at h
    by_cases hx : better b x = true
    · rw [if_pos hx] at h
      obtain ⟨hc, hbest⟩ := ih h
      have hbc : better b c = true := by
        rcases hc with rfl | ⟨hxc, -⟩
        · exact hx
        · exact trans _ _ _ hx hxc
      constructor
      · right
        refine ⟨hbc, ?_⟩
        rcases hc with rfl | ⟨-, hc⟩
        · exact List.mem_cons_self
        · exact List.mem_cons_of_mem x hc
      · intro y hy
        rcases List.mem_cons.1 hy with rfl | hy
        · by_contra hcy
          have := trans _ _ _ hbc (by simpa using hcy)
          rw [irrefl] at this
          cases this
        · exact hbest y hy
    · rw [if_neg hx] at h
      obtain ⟨hc, hbest⟩ := ih h
      constructor
      · exact hc.imp_right fun hc => ⟨hc.1, List.mem_cons_of_mem x hc.2⟩
      · intro y hy
        rcases List.mem_cons.1 hy with rfl | hy
        · exact hbest y List.mem_cons_self
        · rcases List.mem_cons.1 hy with rfl | hy
          · by_contra hcy
            -- `y` was passed over for `b`, and `c` is `b` or better
            apply hx
            rcases hc with rfl | ⟨hbc, -⟩
            · simpa using hcy
            · exact trans _ _ _ hbc (by simpa using hcy)
          · exact hbest y (List.mem_cons_of_mem b hy)

theorem mem_of_select (irrefl : ∀ a, better a a = false)
    (trans : ∀ a b c, better a b = true → better b c = true → better a c = true)
    {c : α} {xs : List α} (h : select better xs = some c) :
    c ∈ xs ∧ ∀ x ∈ xs, better c x = false := by
  cases xs with
  | nil => cases h
  | cons b xs =>
    obtain ⟨hc, hbest⟩ := foldl_spec irrefl trans h
    refine ⟨?_, hbest⟩
    rcases hc with rfl | ⟨-, hc⟩
    · exact List.mem_cons_self
    · exact List.mem_cons_of_mem b hc

end Select
