import Mathlib

/-!
# Programs over a signature of atomic operations

A program is a tree of operations, each with a continuation for every answer, and unbounded loops.  A `System` gives
each operation its effect on a shared state.  A program can be run alone (`Prog.eval`), or interleaved with others at
the granularity of its operations (`Conc.Config`).
-/

namespace Conc

/-- Operations, and the type of each one's answer. -/
structure Sig where
  Op : Type
  Res : Op → Type

/-- The operations of both signatures. -/
def Sig.sum (S T : Sig) : Sig where
  Op := S.Op ⊕ T.Op
  Res o := match o with
    | .inl o => S.Res o
    | .inr o => T.Res o

/-- A program: a result, an operation with its continuation, or a loop that runs `body` from `b`
until it answers on the right. -/
inductive Prog (S : Sig) : Type → Type 1
  | ret {α : Type} (a : α) : Prog S α
  | op {α : Type} (o : S.Op) (k : S.Res o → Prog S α) : Prog S α
  | loop {α β γ : Type} (body : β → Prog S (β ⊕ γ)) (b : β) (k : γ → Prog S α) : Prog S α

namespace Prog

variable {S : Sig} {α β γ : Type}

/-- Runs a program and then what its answer calls for. -/
def bind : {α β : Type} → Prog S α → (α → Prog S β) → Prog S β
  | _, _, ret a, f => f a
  | _, _, op o k, f => op o fun r => bind (k r) f
  | _, _, loop body b k, f => loop body b fun c => bind (k c) f

instance : Monad (Prog S) where
  pure := ret
  bind := bind

@[simp] theorem pure_eq (a : α) : (pure a : Prog S α) = ret a := rfl

@[simp] theorem ret_bind (a : α) (f : α → Prog S β) : (ret a : Prog S α) >>= f = f a := rfl

@[simp] theorem op_bind (o : S.Op) (k : S.Res o → Prog S α) (f : α → Prog S β) :
    op o k >>= f = op o fun r => k r >>= f := rfl

@[simp] theorem loop_bind {δ : Type} (body : β → Prog S (β ⊕ γ)) (b : β) (k : γ → Prog S α)
    (f : α → Prog S δ) : loop body b k >>= f = loop body b fun c => k c >>= f := rfl

def call (o : S.Op) : Prog S (S.Res o) := op o ret

@[simp] theorem call_bind (o : S.Op) (f : S.Res o → Prog S β) : call o >>= f = op o f := rfl

def result? : {α : Type} → Prog S α → Option α
  | _, ret a => some a
  | _, _ => none

theorem eq_ret_of_result {p : Prog S α} {a : α} (h : p.result? = some a) : p = ret a := by
  cases p with
  | ret b => rw [Option.some.inj h]
  | op o k => cases h
  | loop body b k => cases h

/-- A loop that returns what ends it. -/
def iterate (body : β → Prog S (β ⊕ γ)) (b : β) : Prog S γ := loop body b ret

/-- One turn of a loop. -/
def unroll (body : β → Prog S (β ⊕ γ)) (b : β) (k : γ → Prog S α) : Prog S α :=
  body b >>= Sum.elim (fun b' => loop body b' k) k

end Prog

/-- What the operations of `S` do to a state `σ`.  The choice `ω` settles whatever the caller does
not; `none` means the operation is blocked. -/
structure System (ι : Type) (S : Sig) (σ Ω : Type) where
  exec : Ω → ι → (o : S.Op) → σ → Option (S.Res o × σ)

/-- Two systems side by side, under one scheduler. -/
def System.sum {ι : Type} {S T : Sig} {σ τ Ω : Type} (A : System ι S σ Ω) (B : System ι T τ Ω) :
    System ι (S.sum T) (σ × τ) Ω where
  exec ω i o s := match o with
    | .inl o => (A.exec ω i o s.1).map fun p => (p.1, (p.2, s.2))
    | .inr o => (B.exec ω i o s.2).map fun p => (p.1, (s.1, p.2))

/-! ## Running a program alone -/

section Eval

variable {ι : Type} {S : Sig} {σ Ω : Type} (sys : System ι S σ Ω) (ω : Ω) (i : ι)

/-- A loop run without interference, with fuel. -/
def turns {β γ : Type} (turn : β → σ → Option ((β ⊕ γ) × σ)) : ℕ → β → σ → Option (γ × σ)
  | 0, _, _ => none
  | n + 1, b, s => match turn b s with
    | none => none
    | some (.inl b', s') => turns turn n b' s'
    | some (.inr c, s') => some (c, s')

/-- The result of running `p` alone from `s`, with at most `n` turns of each loop. -/
def Prog.eval (n : ℕ) : {α : Type} → Prog S α → σ → Option (α × σ)
  | _, .ret a, s => some (a, s)
  | _, .op o k, s => (sys.exec ω i o s).bind fun p => eval n (k p.1) p.2
  | _, .loop body b k, s => (turns (fun b s => eval n (body b) s) n b s).bind fun p =>
      eval n (k p.1) p.2

variable {sys ω i} {n : ℕ} {α β : Type}

theorem Prog.eval_bind (p : Prog S α) (f : α → Prog S β) (s : σ) :
    (p >>= f).eval sys ω i n s = (p.eval sys ω i n s).bind fun q => (f q.1).eval sys ω i n q.2 := by
  induction p generalizing s with
  | ret a => rfl
  | op o k ih => simp only [Prog.op_bind, Prog.eval, ih, Option.bind_assoc]
  | loop body b k _ ih => simp only [Prog.loop_bind, Prog.eval, ih, Option.bind_assoc]

end Eval

end Conc
