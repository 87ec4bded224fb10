import Egressa.Conc.Prog

/-!
# Interleaving

A pool of programs, one per thread, shares a state.  Each step is one operation of one thread.  The world carries the
history of the operations so far, each with the state before and after it.
-/

namespace Conc

open Function (update)

variable {ι : Type} {S : Sig} {σ Ω : Type} {α : Type}

/-- One operation of a history. -/
structure Entry (ι : Type) (S : Sig) (σ : Type) where
  tid : ι
  op : S.Op
  res : S.Res op
  pre : σ
  post : σ

/-- The state with the history that led to it. -/
structure World (ι : Type) (S : Sig) (σ : Type) where
  st : σ
  hist : List (Entry ι S σ)

namespace World

def push (w : World ι S σ) (i : ι) (o : S.Op) (r : S.Res o) (s' : σ) : World ι S σ :=
  ⟨s', w.hist ++ [⟨i, o, r, w.st, s'⟩]⟩

@[simp] theorem push_st (w : World ι S σ) (i : ι) (o : S.Op) (r : S.Res o) (s' : σ) : (w.push i o r s').st = s' := rfl

@[simp] theorem push_hist (w : World ι S σ) (i : ι) (o : S.Op) (r : S.Res o) (s' : σ) :
    (w.push i o r s').hist = w.hist ++ [⟨i, o, r, w.st, s'⟩] := rfl

end World

/-- A pool of threads over a shared world. -/
structure Config (ι : Type) (S : Sig) (σ α : Type) where
  pool : ι → Prog S α
  world : World ι S σ

namespace Config

variable [DecidableEq ι] (sys : System ι S σ Ω)

/-- One step of thread `i`: an operation, or the next turn of a loop. -/
def step? (c : Config ι S σ α) (i : ι) (ω : Ω) : Option (Config ι S σ α) :=
  match c.pool i with
  | .ret _ => none
  | .op o k => (sys.exec ω i o c.world.st).map fun p =>
      ⟨update c.pool i (k p.1), c.world.push i o p.1 p.2⟩
  | .loop body b k => some ⟨update c.pool i (Prog.unroll body b k), c.world⟩

/-- One thread makes one operation. -/
def Step (c c' : Config ι S σ α) : Prop := ∃ i ω, c.step? sys i ω = some c'

def Reaches : Config ι S σ α → Config ι S σ α → Prop := Relation.ReflTransGen (Step sys)

/-- Runs a schedule. -/
def run? : List (ι × Ω) → Config ι S σ α → Option (Config ι S σ α)
  | [], c => some c
  | (i, ω) :: rest, c => (c.step? sys i ω).bind (run? rest)

variable {sys}

theorem step_of_exec {c : Config ι S σ α} {i : ι} {o : S.Op} {k : S.Res o → Prog S α} {ω : Ω} {r : S.Res o} {s' : σ}
    (hp : c.pool i = .op o k) (hex : sys.exec ω i o c.world.st = some (r, s')) :
    Step sys c ⟨update c.pool i (k r), c.world.push i o r s'⟩ :=
  ⟨i, ω, by simp only [step?, hp, hex, Option.map_some]⟩

theorem step_cases {c c' : Config ι S σ α} (step : Step sys c c') :
    (∃ i o k ω r s', c.pool i = .op o k ∧ sys.exec ω i o c.world.st = some (r, s') ∧
      c' = ⟨update c.pool i (k r), c.world.push i o r s'⟩) ∨
    (∃ (i : ι) (β γ : Type) (body : β → Prog S (β ⊕ γ)) (b : β) (k : γ → Prog S α), c.pool i = .loop body b k ∧
      c' = ⟨update c.pool i (Prog.unroll body b k), c.world⟩) := by
  obtain ⟨i, ω, h⟩ := step
  unfold step? at h
  cases hp : c.pool i with
  | ret a => simp [hp] at h
  | op o k =>
    rw [hp] at h
    obtain ⟨⟨r, s'⟩, hex, rfl⟩ := Option.map_eq_some_iff.1 h
    exact Or.inl ⟨i, o, k, ω, r, s', hp, hex, rfl⟩
  | loop body b k =>
    rw [hp] at h
    cases h
    exact Or.inr ⟨i, _, _, body, b, k, hp, rfl⟩

/-- A thread of a pool that cannot go on has returned, or its operation is held. -/
theorem stuck_cases [Nonempty Ω] {c : Config ι S σ α} (final : ∀ c', ¬ Step sys c c') (j : ι) :
    (∃ a, c.pool j = .ret a) ∨ ∃ o k, c.pool j = .op o k ∧ ∀ ω, sys.exec ω j o c.world.st = none := by
  cases hp : c.pool j with
  | ret a => exact Or.inl ⟨a, rfl⟩
  | op o k =>
    refine Or.inr ⟨o, k, rfl, fun ω => ?_⟩
    cases hex : sys.exec ω j o c.world.st with
    | none => rfl
    | some p =>
      exact absurd (step_of_exec hp hex) (final ⟨update c.pool j (k p.1), c.world.push j o p.1 p.2⟩)
  | loop body b k =>
    obtain ⟨ω⟩ := ‹Nonempty Ω›
    refine absurd ?_ (final ⟨update c.pool j (Prog.unroll body b k), c.world⟩)
    exact ⟨j, ω, by simp only [step?, hp]⟩

theorem reaches_of_run {sched : List (ι × Ω)} {c c' : Config ι S σ α}
    (h : run? sys sched c = some c') : Reaches sys c c' := by
  induction sched generalizing c with
  | nil =>
    cases h
    exact Relation.ReflTransGen.refl
  | cons p rest ih =>
    obtain ⟨c₁, h₁, h₂⟩ := Option.bind_eq_some_iff.1 h
    exact Relation.ReflTransGen.head ⟨p.1, p.2, h₁⟩ (ih h₂)

variable (sys) in
theorem reaches_of_run_any (sched : List (ι × Ω)) (c : Config ι S σ α) (p : Config ι S σ α → Prop) [DecidablePred p]
    (h : (run? sys sched c).any (fun c' => p c') = true) : ∃ c', Reaches sys c c' ∧ p c' := by
  cases hr : run? sys sched c with
  | none => simp [hr] at h
  | some c' => exact ⟨c', reaches_of_run hr, by simpa [hr] using h⟩

theorem Reaches.past {c₀ c : Config ι S σ α} (reach : Reaches sys c₀ c) (new : c₀.world.hist = [])
    {n : ℕ} {e : Entry ι S σ} (he : c.world.hist[n]? = some e) :
    ∃ c₁, Reaches sys c₀ c₁ ∧ c₁.world = ⟨e.pre, c.world.hist.take n⟩ ∧
      ∃ ω, sys.exec ω e.tid e.op e.pre = some (e.res, e.post) := by
  induction reach with
  | refl => simp [new] at he
  | @tail c c' reach step ih =>
    rcases step_cases step with ⟨j, o, k, ω, r, s', -, hex, rfl⟩ | ⟨j, β, γ, body, b, k, -, rfl⟩
    · rw [World.push_hist] at he ⊢
      by_cases hn : n < c.world.hist.length
      · rw [List.getElem?_append_left hn] at he
        rw [List.take_append_of_le_length (Nat.le_of_lt hn)]
        exact ih he
      · have hlt := (List.getElem?_eq_some_iff.1 he).1
        rw [List.length_append, List.length_singleton] at hlt
        obtain rfl : n = c.world.hist.length := by omega
        rw [List.getElem?_concat_length] at he
        cases he
        refine ⟨c, reach, ?_, ω, hex⟩
        rw [List.take_left]
    · exact ih he

end Config

end Conc
