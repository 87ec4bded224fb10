import Mathlib.Algebra.BigOperators.Finprod
import Mathlib.Algebra.BigOperators.Ring.Finset
import Egressa.Conc.Pool

/-!
# How long a run is

The next turn of a loop is a step without an operation.  Where every turn of a loop has an operation first, the
steps of a run are bounded by its operations.
-/

namespace Conc

open Function (update update_of_ne update_self)

variable {ι : Type} {S : Sig} {σ Ω : Type} {α β γ : Type}

theorem finsum_update {α : Type*} [DecidableEq ι] (f : α → ℕ) (g : ι → α) (i : ι) (a : α)
    (fin : {j | f (g j) ≠ 0}.Finite) :
    ∑ᶠ j, f (update g i a j) + f (g i) = ∑ᶠ j, f (g j) + f a := by
  have moved : ∀ j, f (update g i a j) = update (fun j => f (g j)) i (f a) j :=
    Function.apply_update (fun _ => f) g i a
  let l : Finset ι := insert i fin.toFinset
  have before : ∑ᶠ j, f (g j) = ∑ j ∈ l, f (g j) := by
    refine finsum_eq_sum_of_support_subset _ fun j hj => ?_
    simpa [l] using Or.inr hj
  have after : ∑ᶠ j, f (update g i a j) = ∑ j ∈ l, f (update g i a j) := by
    refine finsum_eq_sum_of_support_subset _ fun j hj => ?_
    by_cases hji : j = i
    · simp [l, hji]
    · rw [Function.mem_support, update_of_ne hji] at hj
      simpa [l] using Or.inr hj
  have here : i ∈ l := Finset.mem_insert_self i _
  rw [before, after, Finset.sum_congr rfl fun j _ => moved j, Finset.sum_update_of_mem here,
    Finset.sum_eq_add_sum_sdiff_singleton_of_mem here fun j => f (g j)]
  omega

theorem sum_update {α : Type*} [Fintype ι] [DecidableEq ι] (f : α → ℕ) (g : ι → α) (i : ι) (a : α) :
    ∑ j, f (update g i a j) + f (g i) = ∑ j, f (g j) + f a := by
  rw [← finsum_eq_sum_of_fintype, ← finsum_eq_sum_of_fintype]
  exact finsum_update f g i a (Set.toFinite _)

namespace Prog

/-- Whether the next step is a turn of a loop. -/
def turns : {α : Type} → Prog S α → ℕ
  | _, .loop _ _ _ => 1
  | _, _ => 0

/-- Every turn of a loop starts with an operation. -/
def Active : {α : Type} → Prog S α → Prop
  | _, .ret _ => True
  | _, .op _ k => ∀ r, (k r).Active
  | _, .loop body _ k => (∀ b, (∃ o k', body b = .op o k') ∧ (body b).Active) ∧ ∀ c, (k c).Active

theorem turns_le {α : Type} (p : Prog S α) : p.turns ≤ 1 := by
  cases p <;> simp [turns]

theorem Active.bind {p : Prog S α} {f : α → Prog S β} (active : p.Active) (next : ∀ a, (f a).Active) :
    (p >>= f).Active := by
  induction p with
  | ret a => exact next a
  | op o k ih => exact fun r => ih r (active r) next
  | loop body b k _ ih => exact ⟨active.1, fun c => ih c (active.2 c) next⟩

theorem Active.unroll {body : β → Prog S (β ⊕ γ)} {b : β} {k : γ → Prog S α} (active : (loop body b k).Active) :
    (Prog.unroll body b k).Active ∧ (Prog.unroll body b k).turns = 0 := by
  constructor
  · refine (active.1 b).2.bind fun d => ?_
    cases d with
    | inl b' => exact active
    | inr c => exact active.2 c
  · obtain ⟨⟨o, k', hbody⟩, -⟩ := active.1 b
    rw [Prog.unroll, hbody]
    rfl

end Prog

namespace Config

variable [DecidableEq ι] [Fintype ι] {sys : System ι S σ Ω} {c c' : Config ι S σ α}

theorem step_length (active : ∀ i, (c.pool i).Active) (step : c.Step sys c') : (∀ i, (c'.pool i).Active) ∧
    1 + 2 * c.world.hist.length + ∑ i, (c'.pool i).turns ≤ 2 * c'.world.hist.length + ∑ i, (c.pool i).turns := by
  rcases step_cases step with ⟨i, o, k, ω, r, s', hp, -, rfl⟩ | ⟨i, β, γ, body, b, k, hp, rfl⟩
  · have now := active i
    rw [hp] at now
    refine ⟨fun j => ?_, ?_⟩
    · by_cases hj : j = i
      · subst hj
        simpa only [update_self] using now r
      · simpa only [update_of_ne hj] using active j
    · have sum := sum_update Prog.turns c.pool i (k r)
      have most := (k r).turns_le
      rw [World.push_hist, List.length_append, List.length_singleton]
      simp only
      omega
  · have now := active i
    rw [hp] at now
    refine ⟨fun j => ?_, ?_⟩
    · by_cases hj : j = i
      · subst hj
        simpa only [update_self] using now.unroll.1
      · simpa only [update_of_ne hj] using active j
    · have sum := sum_update Prog.turns c.pool i (Prog.unroll body b k)
      rw [now.unroll.2, hp] at sum
      simp only [Prog.turns] at sum ⊢
      omega

theorem run_length {sched : List (ι × Ω)} (active : ∀ i, (c.pool i).Active) (run : run? sys sched c = some c') :
    sched.length + 2 * c.world.hist.length ≤ 2 * c'.world.hist.length + ∑ i, (c.pool i).turns := by
  suffices sched.length + 2 * c.world.hist.length + ∑ i, (c'.pool i).turns ≤
      2 * c'.world.hist.length + ∑ i, (c.pool i).turns by omega
  induction sched generalizing c with
  | nil =>
    cases run
    simp
  | cons p rest ih =>
    obtain ⟨c₁, h₁, h₂⟩ := Option.bind_eq_some_iff.1 run
    obtain ⟨active₁, one⟩ := step_length active ⟨p.1, p.2, h₁⟩
    have more := ih active₁ h₂
    rw [List.length_cons]
    omega

end Config

end Conc
