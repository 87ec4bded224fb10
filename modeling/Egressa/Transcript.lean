import Mathlib.Data.List.Induction

/-!
# Transcripts

A machine that answers its inputs one after another, and what it has been asked and has answered so far.
-/

namespace Transcript

variable {σ ι ω : Type*} (step : σ → ι → ω × σ)

/-- One step, on the record. -/
def answer (s : σ × List (ι × ω)) (i : ι) : σ × List (ι × ω) := ((step s.1 i).2, s.2 ++ [(i, (step s.1 i).1)])

/-- A run with its answers. -/
def run (s : σ) (inputs : List ι) : σ × List (ι × ω) := inputs.foldl (answer step) (s, [])

variable {step} {s : σ}

theorem run_concat (inputs : List ι) (i : ι) : run step s (inputs ++ [i]) = answer step (run step s inputs) i := by
  rw [run, run, List.foldl_append, List.foldl_cons, List.foldl_nil]

theorem inputs_run (inputs : List ι) : (run step s inputs).2.map Prod.fst = inputs := by
  induction inputs using List.reverseRecOn with
  | nil => rfl
  | append_singleton inputs i ih =>
    rw [run_concat, answer, List.map_append, ih]
    rfl

/-- What holds of a machine and its transcript at first, and is kept by every answer, holds after any inputs. -/
theorem run_invariant {P : σ × List (ι × ω) → Prop} (start : P (s, []))
    (keep : ∀ t i, P t → P (answer step t i)) (inputs : List ι) : P (run step s inputs) :=
  List.foldlRecOn inputs (answer step) start fun t h i _ => keep t i h

/-- The same of inputs that are `ok`, if what came before ok ones was. -/
theorem run_invariant_of {ok : List ι → Prop} {P : σ × List (ι × ω) → Prop} (closed : ∀ l i, ok (l ++ [i]) → ok l)
    (start : P (s, [])) (keep : ∀ l i, ok (l ++ [i]) → P (run step s l) → P (answer step (run step s l) i))
    {inputs : List ι} (h : ok inputs) : P (run step s inputs) := by
  induction inputs using List.reverseRecOn with
  | nil => exact start
  | append_singleton inputs i ih =>
    rw [run_concat]
    exact keep inputs i h (ih (closed inputs i h))

end Transcript
