import Egressa.Conc.Pool

/-!
# Disciplines

A discipline says what a thread may do next, by what it has done so far: `next h o r` is the state of a thread that
was in the state `h` and whose operation `o` has been answered `r`, if it may make it there.  In a pool whose programs
follow one, what ties the states of the threads to the world is an invariant (`Tracked.reaches`).
-/

namespace Conc

open Function (update update_of_ne update_self)

variable {ι : Type} {S : Sig} {σ Ω H : Type} {α β γ : Type}

theorem update_same [DecidableEq ι] (f : H → α) {hs : ι → H} {i : ι} {h' : H} (h : f h' = f (hs i)) :
    ∀ j, f (update hs i h' j) = f (hs j) :=
  (Function.forall_update_iff hs fun j x => f x = f (hs j)).2 ⟨h, fun _ _ => rfl⟩

/-- `p` may be run from `h`, and returns in `Q`. -/
def Follows (next : H → (o : S.Op) → S.Res o → Option H) : {α : Type} → Prog S α → (α → H → Prop) → H → Prop
  | _, .ret a, Q, h => Q a h
  | _, .op o k, Q, h => ∀ r, ∃ h', next h o r = some h' ∧ Follows next (k r) Q h'
  | _, @Prog.loop _ _ β _ body b k, Q, h => ∃ I : β → H → Prop, I b h ∧ ∀ b h, I b h →
      Follows next (body b) (fun d h' => match d with
        | .inl b' => I b' h'
        | .inr c => Follows next (k c) Q h') h

namespace Follows

variable {next : H → (o : S.Op) → S.Res o → Option H} {Q R : α → H → Prop} {h : H} {p : Prog S α}

theorem mono (hp : Follows next p Q h) (imp : ∀ a h, Q a h → R a h) :
    Follows next p R h := by
  induction p generalizing h with
  | ret a => exact imp a h hp
  | op o k ih =>
    intro r
    obtain ⟨h', hnext, hk⟩ := hp r
    exact ⟨h', hnext, ih r hk imp⟩
  | loop body b k ihBody ih =>
    obtain ⟨I, hI, turn⟩ := hp
    refine ⟨I, hI, fun b h hb => ihBody b (turn b h hb) fun d h' hd => ?_⟩
    cases d with
    | inl b' => exact hd
    | inr c => exact ih c hd imp

theorem bind {f : α → Prog S β} {Q : β → H → Prop}
    (hp : Follows next p (fun a => Follows next (f a) Q) h) : Follows next (p >>= f) Q h := by
  induction p generalizing h with
  | ret a => exact hp
  | op o k ih =>
    intro r
    obtain ⟨h', hnext, hk⟩ := hp r
    exact ⟨h', hnext, ih r hk⟩
  | loop body b k ihBody ih =>
    obtain ⟨I, hI, turn⟩ := hp
    refine ⟨I, hI, fun b h hb => mono (turn b h hb) fun d h' hd => ?_⟩
    cases d with
    | inl b' => exact hd
    | inr c => exact ih c hd

theorem andThen {f : α → Prog S β} {R : β → H → Prop} (hp : Follows next p Q h)
    (hf : ∀ a h, Q a h → Follows next (f a) R h) : Follows next (p >>= f) R h :=
  bind (hp.mono hf)

theorem iterate {body : β → Prog S (β ⊕ γ)} {b : β} {Q : γ → H → Prop} (I : β → H → Prop) (hb : I b h)
    (turn : ∀ b h, I b h → Follows next (body b) (fun d h' => match d with
      | .inl b' => I b' h'
      | .inr c => Q c h') h) : Follows next (Prog.iterate body b) Q h := by
  refine ⟨I, hb, fun b h hb => (turn b h hb).mono fun d h' hd => ?_⟩
  cases d with
  | inl b' => exact hd
  | inr c => exact hd

end Follows

section Sum

variable {T : Sig}

/-- A program over one of two signatures. -/
def Prog.inl : {α : Type} → Prog S α → Prog (S.sum T) α
  | _, .ret a => .ret a
  | _, .op o k => .op (S := S.sum T) (.inl o) fun r => (k r).inl
  | _, .loop body b k => .loop (fun b => (body b).inl) b fun c => (k c).inl

theorem Follows.inl {G : Type} {next : H → (o : S.Op) → S.Res o → Option H}
    {next' : G → (o : (S.sum T).Op) → (S.sum T).Res o → Option G} {f : H → G}
    (lifts : ∀ h (o : S.Op) (r : S.Res o) h', next h o r = some h' → next' (f h) (.inl o) r = some (f h'))
    {p : Prog S α} {Q : α → H → Prop} {R : α → G → Prop} {h : H} (hp : Follows next p Q h)
    (post : ∀ a h, Q a h → R a (f h)) : Follows next' (p.inl (T := T)) R (f h) := by
  induction p generalizing h with
  | ret a => exact post a h hp
  | op o k ih =>
    intro r
    obtain ⟨h', hnext, hk⟩ := hp r
    exact ⟨f h', lifts h o r h' hnext, ih r hk post⟩
  | loop body b k ihBody ih =>
    obtain ⟨I, hI, turn⟩ := hp
    refine ⟨fun b g => ∃ h, g = f h ∧ I b h, ⟨h, rfl, hI⟩, ?_⟩
    rintro b _ ⟨h, rfl, hb⟩
    refine ihBody b (turn b h hb) fun d h' hd => ?_
    cases d with
    | inl b' => exact ⟨h', rfl, hd⟩
    | inr c => exact ih c hd post

end Sum

/-- Each thread is about to run a program that may be run from its state. -/
def Tracked (next : H → (o : S.Op) → S.Res o → Option H) (Q : ι → α → H → Prop)
    (c : Config ι S σ α) (hs : ι → H) : Prop :=
  ∀ i, Follows next (c.pool i) (Q i) (hs i)

namespace Tracked

variable [DecidableEq ι] {sys : System ι S σ Ω} {next : H → (o : S.Op) → S.Res o → Option H}
  {Q : ι → α → H → Prop} {c c' : Config ι S σ α} {hs : ι → H}

theorem step (tracked : Tracked next Q c hs) (step : c.Step sys c') :
    (∃ i ω o r s' h', sys.exec ω i o c.world.st = some (r, s') ∧ next (hs i) o r = some h' ∧
      c'.world = c.world.push i o r s' ∧ Tracked next Q c' (update hs i h')) ∨
    (c'.world = c.world ∧ Tracked next Q c' hs) := by
  rcases Config.step_cases step with
    ⟨i, o, k, ω, r, s', hp, hex, rfl⟩ | ⟨i, β, γ, body, b, k, hp, rfl⟩
  · have hi := tracked i
    rw [hp] at hi
    obtain ⟨h', hnext, hk⟩ := hi r
    refine Or.inl ⟨i, ω, o, r, s', h', hex, hnext, rfl, fun j => ?_⟩
    by_cases hj : j = i
    · subst hj
      simpa only [update_self] using hk
    · simpa only [update_of_ne hj] using tracked j
  · refine Or.inr ⟨rfl, fun j => ?_⟩
    by_cases hj : j = i
    · subst hj
      simp only [update_self]
      have hi := tracked j
      rw [hp] at hi
      obtain ⟨I, hI, turn⟩ := hi
      refine Follows.bind ((turn b _ hI).mono fun d h' hd => ?_)
      cases d with
      | inl b' => exact ⟨I, hd, turn⟩
      | inr x => exact hd
    · simpa only [update_of_ne hj] using tracked j

/-- What every operation that may be made keeps holds in every world. -/
theorem reaches {I : World ι S σ → (ι → H) → Prop} (tracked : Tracked next Q c hs)
    (keeps : ∀ w hs i ω o r s' h', I w hs → sys.exec ω i o w.st = some (r, s') →
      next (hs i) o r = some h' → I (w.push i o r s') (update hs i h'))
    (hI : I c.world hs) (reach : c.Reaches sys c') :
    ∃ hs', Tracked next Q c' hs' ∧ I c'.world hs' := by
  induction reach with
  | refl => exact ⟨hs, tracked, hI⟩
  | tail _ step ih =>
    obtain ⟨hs₁, tracked₁, hI₁⟩ := ih
    rcases tracked₁.step step with ⟨i, ω, o, r, s', h', hex, hnext, hw, tracked'⟩ | ⟨hw, tracked'⟩
    · exact ⟨_, tracked', hw ▸ keeps _ _ i ω o r s' h' hI₁ hex hnext⟩
    · exact ⟨_, tracked', hw ▸ hI₁⟩

end Tracked

/-! ## Conditions on a run -/

section Conditions

variable [DecidableEq ι] {sys : System ι S σ Ω} {next : H → (o : S.Op) → S.Res o → Option H}

/-- The ghost state of a thread after a history. -/
def track (next : H → (o : S.Op) → S.Res o → Option H) (h₀ : H) (hist : List (Entry ι S σ)) (i : ι) :
    Option H :=
  (hist.filter fun e => e.tid = i).foldlM (fun h e => next h e.op e.res) h₀

variable {hist : List (Entry ι S σ)} {e : Entry ι S σ}

theorem track_append_self {h₀ h h' : H} (ht : track next h₀ hist e.tid = some h) (hn : next h e.op e.res = some h') :
    track next h₀ (hist ++ [e]) e.tid = some h' := by
  unfold track at ht ⊢
  rw [List.filter_append, List.foldlM_append, ht]
  simp [hn]

theorem track_append_of_ne {h₀ : H} {i : ι} (hne : i ≠ e.tid) :
    track next h₀ (hist ++ [e]) i = track next h₀ hist i := by
  unfold track
  rw [List.filter_append]
  simp [hne.symm]

/-- Every operation of a history meets `C`, which may look at those before it. -/
def Throughout (C : List (Entry ι S σ) → Entry ι S σ → Prop) (hist : List (Entry ι S σ)) : Prop :=
  ∀ (n : ℕ) (e : Entry ι S σ), hist[n]? = some e → C (hist.take n) e

instance (C : List (Entry ι S σ) → Entry ι S σ → Prop) [∀ hist e, Decidable (C hist e)]
    (hist : List (Entry ι S σ)) : Decidable (Throughout C hist) :=
  decidable_of_iff (∀ n : Fin hist.length, C (hist.take n) (hist.get n)) <| by
    refine ⟨fun h n e he => ?_, fun h n => h n _ (List.getElem?_eq_getElem n.2)⟩
    obtain ⟨hn, rfl⟩ := List.getElem?_eq_some_iff.1 he
    exact h ⟨n, hn⟩

variable {C : List (Entry ι S σ) → Entry ι S σ → Prop}

omit [DecidableEq ι] in
theorem throughout_append (h : Throughout C (hist ++ [e])) : Throughout C hist ∧ C hist e := by
  constructor
  · intro n e' he'
    have hlt := (List.getElem?_eq_some_iff.1 he').1
    have := h n e' (by rw [List.getElem?_append_left hlt, he'])
    rwa [List.take_append_of_le_length (Nat.le_of_lt hlt)] at this
  · have := h hist.length e List.getElem?_concat_length
    rwa [List.take_left] at this

theorem throughout_of_step {c c' : Config ι S σ α}
    (step : c.Step sys c') (h : Throughout C c'.world.hist) : Throughout C c.world.hist := by
  rcases Config.step_cases step with ⟨i, o, k, ω, r, s', -, -, rfl⟩ | ⟨i, β, γ, body, b, k, -, rfl⟩
  · exact (throughout_append h).1
  · exact h

theorem Tracked.holds {h₀ : H} {Q : ι → α → H → Prop} {c₀ c : Config ι S σ α} {I : World ι S σ → (ι → H) → Prop}
    (tracked : Tracked next Q c₀ fun _ => h₀) (new : c₀.world.hist = []) (hI : I c₀.world fun _ => h₀)
    (keeps : ∀ w hs i ω o r s' h', I w hs → (∀ j, track next h₀ w.hist j = some (hs j)) →
      sys.exec ω i o w.st = some (r, s') → next (hs i) o r = some h' → C w.hist ⟨i, o, r, w.st, s'⟩ →
      I (w.push i o r s') (update hs i h'))
    (reach : c₀.Reaches sys c) (cond : Throughout C c.world.hist) :
    ∃ hs, Tracked next Q c hs ∧ (∀ j, track next h₀ c.world.hist j = some (hs j)) ∧ I c.world hs := by
  induction reach with
  | refl => exact ⟨_, tracked, fun j => by simp [track, new], hI⟩
  | tail _ step ih =>
    obtain ⟨hs, tracked₁, htrack, hI₁⟩ := ih (throughout_of_step step cond)
    rcases tracked₁.step step with ⟨i, ω, o, r, s', h', hex, hnext, hw, tracked'⟩ | ⟨hw, tracked'⟩
    · rw [hw] at cond
      refine ⟨_, tracked', fun j => ?_, hw ▸ keeps _ _ i ω o r s' h' hI₁ htrack hex hnext (throughout_append cond).2⟩
      rw [hw]
      by_cases hj : j = i
      · subst hj
        rw [update_self]
        exact track_append_self (e := ⟨j, o, r, _, s'⟩) (htrack j) hnext
      · rw [update_of_ne hj]
        exact (track_append_of_ne (e := ⟨i, o, r, _, s'⟩) hj).trans (htrack j)
    · exact ⟨hs, tracked', hw ▸ htrack, hw ▸ hI₁⟩

end Conditions

end Conc
