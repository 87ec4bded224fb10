import Mathlib

/-!
# Machines

A machine is a function that tells where an event leads, if it can happen.  Runs may be restricted to
events that meet a condition on the state they happen in.
-/

namespace Conc

variable {σ ε : Type*}

/-- Runs of a partial step function in which every step meets `P`. -/
def Runs (step? : σ → ε → Option σ) (P : σ → ε → Prop) : σ → σ → Prop :=
  Relation.ReflTransGen fun s s' => ∃ e, P s e ∧ step? s e = some s'

namespace Runs

variable {step? : σ → ε → Option σ} {P : σ → ε → Prop} {s s' s'' : σ}

theorem refl : Runs step? P s s := Relation.ReflTransGen.refl

theorem tail (run : Runs step? P s s') {e : ε} (h : P s' e) (step : step? s' e = some s'') : Runs step? P s s'' :=
  Relation.ReflTransGen.tail run ⟨e, h, step⟩

theorem invariant {I : σ → Prop} (keeps : ∀ s e s', I s → P s e → step? s e = some s' → I s')
    (run : Runs step? P s s') (h : I s) : I s' := by
  induction run with
  | refl => exact h
  | tail _ step ih =>
    obtain ⟨e, he, step⟩ := step
    exact keeps _ e _ ih he step

theorem of_foldlM {events : List ε} (h : events.foldlM step? s = some s') : Runs step? (fun _ _ => True) s s' := by
  induction events generalizing s with
  | nil =>
    cases h
    exact refl
  | cons e events ih =>
    rw [List.foldlM_cons] at h
    obtain ⟨s₁, h₁, h⟩ := Option.bind_eq_some_iff.1 h
    exact Relation.ReflTransGen.head ⟨e, trivial, h₁⟩ (ih h)

theorem exists_of_foldlM (step? : σ → ε → Option σ) (s : σ) (events : List ε) {β : Type*} (f : σ → β) {b : β}
    (h : (events.foldlM step? s).map f = some b) : ∃ s', Runs step? (fun _ _ => True) s s' ∧ f s' = b := by
  obtain ⟨s', hs', rfl⟩ := Option.map_eq_some_iff.1 h
  exact ⟨s', of_foldlM hs', rfl⟩

theorem exists_of_checked (step? : σ → ε → Option σ) (P : σ → ε → Prop) [∀ s e, Decidable (P s e)] (s : σ)
    (events : List ε) {β : Type*} (f : σ → β) {b : β}
    (h : (events.foldlM (fun s e => if P s e then step? s e else none) s).map f = some b) :
    ∃ s', Runs step? P s s' ∧ f s' = b := by
  obtain ⟨s', hs', rfl⟩ := Option.map_eq_some_iff.1 h
  refine ⟨s', ?_, rfl⟩
  clear h
  induction events generalizing s with
  | nil =>
    cases hs'
    exact refl
  | cons e events ih =>
    rw [List.foldlM_cons] at hs'
    obtain ⟨s₁, h₁, hs'⟩ := Option.bind_eq_some_iff.1 hs'
    split_ifs at h₁ with hP
    exact Relation.ReflTransGen.head ⟨e, hP, h₁⟩ (ih s₁ hs')

end Runs

end Conc
