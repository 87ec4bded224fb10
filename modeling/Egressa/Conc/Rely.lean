import Egressa.Conc.Pool

/-!
# Rely and guarantee

A `Contract` is what the threads of a pool promise each other.  `wp C sys i p Q w` says that thread `i`, about to run
`p` in the world `w`, keeps it whatever the others do within it between its operations (`Env`), and that `Q` holds
whenever it has returned.  If every thread does, the invariant holds in every run (`Sound.reaches`).
-/

namespace Conc

variable {ι : Type} {S : Sig} {σ Ω : Type}

/-- The invariant of a system and what each thread guarantees. -/
structure Contract (ι : Type) (S : Sig) (σ : Type) where
  inv : World ι S σ → Prop
  guar : ι → World ι S σ → World ι S σ → Prop

/-- Thread `j` makes an operation. -/
def System.Moves (sys : System ι S σ Ω) (j : ι) (w w' : World ι S σ) : Prop :=
  ∃ ω o r s', sys.exec ω j o w.st = some (r, s') ∧ w' = w.push j o r s'

section

variable (C : Contract ι S σ) (sys : System ι S σ Ω) (i : ι)

/-- A step of another thread, in the bounds of the contract. -/
def Other (w w' : World ι S σ) : Prop := ∃ j, j ≠ i ∧ sys.Moves j w w' ∧ C.guar j w w' ∧ C.inv w ∧ C.inv w'

def Env : World ι S σ → World ι S σ → Prop := Relation.ReflTransGen (Other C sys i)

/-- Other threads do not destroy `P`. -/
def Stable (P : World ι S σ → Prop) : Prop := ∀ w w', Other C sys i w w' → P w → P w'

/-- Thread `i` keeps the contract while it runs `p` from `w`, and returns in `Q`. -/
def wp : {α : Type} → Prog S α → (α → World ι S σ → Prop) → World ι S σ → Prop
  | _, .ret a, Q, w => ∀ w', Env C sys i w w' → C.inv w' → Q a w'
  | _, .op o k, Q, w => ∀ w', Env C sys i w w' → C.inv w' →
      ∀ ω r s', sys.exec ω i o w'.st = some (r, s') →
        C.guar i w' (w'.push i o r s') ∧ C.inv (w'.push i o r s') ∧ wp (k r) Q (w'.push i o r s')
  | _, @Prog.loop _ _ β _ body b k, Q, w => ∃ I : β → World ι S σ → Prop,
      (∀ b, Stable C sys i (I b)) ∧ I b w ∧ ∀ b w, C.inv w → I b w → wp (body b) (fun d w' => match d with
          | .inl b' => I b' w'
          | .inr c => wp (k c) Q w') w

end

variable {C : Contract ι S σ} {sys : System ι S σ Ω} {i : ι} {α β γ : Type}

theorem Stable.env {P : World ι S σ → Prop} (stable : Stable C sys i P) {w w' : World ι S σ}
    (env : Env C sys i w w') (h : P w) : P w' := by
  induction env with
  | refl => exact h
  | tail _ step ih => exact stable _ _ step ih

/-! ## Rules -/

variable {p : Prog S α}

theorem wp_env {Q : α → World ι S σ → Prop} {w w' : World ι S σ}
    (env : Env C sys i w w') (h : wp C sys i p Q w) : wp C sys i p Q w' := by
  cases p with
  | ret a => exact fun w₁ env₁ inv₁ => h w₁ (env.trans env₁) inv₁
  | op o k => exact fun w₁ env₁ inv₁ => h w₁ (env.trans env₁) inv₁
  | loop body b k =>
    obtain ⟨I, stable, hI, turn⟩ := h
    exact ⟨I, stable, (stable b).env env hI, turn⟩

theorem wp_mono {Q Q' : α → World ι S σ → Prop} {w : World ι S σ}
    (h : wp C sys i p Q w) (imp : ∀ a w', C.inv w' → Q a w' → Q' a w') : wp C sys i p Q' w := by
  induction p generalizing w with
  | ret a => exact fun w₁ env₁ inv₁ => imp a w₁ inv₁ (h w₁ env₁ inv₁)
  | op o k ih =>
    intro w₁ env₁ inv₁ ω r s' hex
    obtain ⟨hg, hi, hk⟩ := h w₁ env₁ inv₁ ω r s' hex
    exact ⟨hg, hi, ih r hk imp⟩
  | loop body b k ihBody ih =>
    obtain ⟨I, stable, hI, turn⟩ := h
    refine ⟨I, stable, hI, fun b w inv hb => ihBody b (turn b w inv hb) ?_⟩
    intro d w' _ hd
    cases d with
    | inl b' => exact hd
    | inr c => exact ih c hd imp

theorem wp_bind {f : α → Prog S β} {Q : β → World ι S σ → Prop} {w : World ι S σ}
    (inv : C.inv w) (h : wp C sys i p (fun a => wp C sys i (f a) Q) w) :
    wp C sys i (p >>= f) Q w := by
  induction p generalizing w with
  | ret a => exact h w Relation.ReflTransGen.refl inv
  | op o k ih =>
    intro w₁ env₁ inv₁ ω r s' hex
    obtain ⟨hg, hi, hk⟩ := h w₁ env₁ inv₁ ω r s' hex
    exact ⟨hg, hi, ih r hi hk⟩
  | loop body b k ihBody ih =>
    obtain ⟨I, stable, hI, turn⟩ := h
    refine ⟨I, stable, hI, fun b w inv hb => wp_mono (turn b w inv hb) ?_⟩
    intro d w' inv' hd
    cases d with
    | inl b' => exact hd
    | inr c => exact ih c inv' hd

theorem wp_of_keeps (keeps : ∀ w ω (o : S.Op) (r : S.Res o) s', C.inv w → sys.exec ω i o w.st = some (r, s') →
      C.guar i w (w.push i o r s') ∧ C.inv (w.push i o r s'))
    (p : Prog S α) (w : World ι S σ) : wp C sys i p (fun _ _ => True) w := by
  induction p generalizing w with
  | ret a => exact fun _ _ _ => trivial
  | op o k ih =>
    intro w₁ _ inv₁ ω r s' hex
    obtain ⟨hg, hi⟩ := keeps w₁ ω o r s' inv₁ hex
    exact ⟨hg, hi, ih r _⟩
  | loop body b k ihBody ih =>
    refine ⟨fun _ _ => True, fun _ _ _ _ _ => trivial, trivial, fun b w _ _ => wp_mono (ihBody b w) ?_⟩
    intro d w' _ _
    cases d with
    | inl _ => trivial
    | inr c => exact ih c w'

/-! ## Triples -/

/-- An assertion that no operation of any thread can undo. -/
def Persistent (F : World ι S σ → Prop) : Prop := ∀ w j (o : S.Op) (r : S.Res o) s', F w → F (w.push j o r s')

theorem Persistent.stable {F : World ι S σ → Prop} (h : Persistent F) : Stable C sys i F := by
  rintro w w' ⟨j, -, ⟨ω, o, r, s', -, rfl⟩, -⟩ hF
  exact h w j o r s' hF

theorem Persistent.and {F G : World ι S σ → Prop} (hF : Persistent F) (hG : Persistent G) :
    Persistent fun w => F w ∧ G w :=
  fun w j o r s' h => ⟨hF w j o r s' h.1, hG w j o r s' h.2⟩

theorem Persistent.all {δ : Type} {F : δ → World ι S σ → Prop} (h : ∀ x, Persistent (F x)) :
    Persistent fun w => ∀ x, F x w :=
  fun w j o r s' hF x => h x w j o r s' (hF x)

theorem Persistent.imp {A : Prop} {F : World ι S σ → Prop} (h : Persistent F) : Persistent fun w => A → F w :=
  fun w j o r s' hF a => h w j o r s' (hF a)

theorem Stable.and {P P' : World ι S σ → Prop} (h : Stable C sys i P) (h' : Stable C sys i P') :
    Stable C sys i fun w => P w ∧ P' w :=
  fun w w' other hP => ⟨h w w' other hP.1, h' w w' other hP.2⟩

/-- From every world of the contract in which `P` holds, thread `i` runs `p` within the contract and
returns in `Q`. -/
def Triple (C : Contract ι S σ) (sys : System ι S σ Ω) (i : ι) (P : World ι S σ → Prop)
    (p : Prog S α) (Q : α → World ι S σ → Prop) : Prop :=
  ∀ w, C.inv w → P w → wp C sys i p Q w

section Triple

variable {P P' : World ι S σ → Prop} {Q : α → World ι S σ → Prop} {R : β → World ι S σ → Prop}

theorem Triple.ret {a : α} (stable : Stable C sys i P) (post : ∀ w, C.inv w → P w → Q a w) :
    Triple C sys i P (.ret a) Q :=
  fun _ _ hP w' env inv => post w' inv (stable.env env hP)

theorem Triple.done (a : α) : Triple C sys i P (.ret a) fun _ _ => True := fun _ _ _ _ _ _ => trivial

theorem Triple.op {o : S.Op} {k : S.Res o → Prog S α} {R : S.Res o → World ι S σ → Prop} (stable : Stable C sys i P)
    (exec : ∀ w ω r s', C.inv w → P w → sys.exec ω i o w.st = some (r, s') →
      C.guar i w (w.push i o r s') ∧ C.inv (w.push i o r s') ∧ R r (w.push i o r s'))
    (next : ∀ r, Triple C sys i (R r) (k r) Q) : Triple C sys i P (.op o k) Q := by
  intro w _ hP w₁ env₁ inv₁ ω r s' hex
  obtain ⟨hg, hi, hR⟩ := exec w₁ ω r s' inv₁ (stable.env env₁ hP) hex
  exact ⟨hg, hi, next r _ hi hR⟩

theorem Triple.bind {p : Prog S β} {f : β → Prog S α} (first : Triple C sys i P p R)
    (next : ∀ b, Triple C sys i (R b) (f b) Q) : Triple C sys i P (p >>= f) Q :=
  fun w inv hP => wp_bind inv (wp_mono (first w inv hP) fun b w' inv' hR => next b w' inv' hR)

variable {p : Prog S α}

theorem Triple.pre {R : World ι S σ → Prop} (h : Triple C sys i R p Q)
    (imp : ∀ w, C.inv w → P w → R w) : Triple C sys i P p Q :=
  fun w inv hP => h w inv (imp w inv hP)

theorem Triple.post {R : α → World ι S σ → Prop} (h : Triple C sys i P p Q)
    (imp : ∀ a w, C.inv w → Q a w → R a w) : Triple C sys i P p R :=
  fun w inv hP => wp_mono (h w inv hP) imp

theorem Triple.left (h : Triple C sys i P p Q) : Triple C sys i (fun w => P w ∧ P' w) p Q := h.pre fun _ _ h => h.1

theorem Triple.fst (h : Triple C sys i P p fun a w => P' w ∧ Q a w) : Triple C sys i P p fun _ => P' :=
  h.post fun _ _ _ h => h.1

theorem Triple.exists {δ : Type} {F : δ → World ι S σ → Prop}
    (h : ∀ x, Triple C sys i (F x) p Q) : Triple C sys i (fun w => ∃ x, F x w) p Q :=
  fun w inv ⟨x, hx⟩ => h x w inv hx

theorem Triple.iterate {γ : Type} {body : β → Prog S (β ⊕ γ)} {b : β}
    {Q : γ → World ι S σ → Prop} (stable : Stable C sys i P)
    (stableQ : ∀ c, Stable C sys i (Q c))
    (turn : ∀ b, Triple C sys i P (body b) fun d w => match d with
      | .inl _ => P w
      | .inr c => Q c w) : Triple C sys i P (Prog.iterate body b) Q := by
  intro w _ hP
  refine ⟨fun _ => P, fun _ => stable, hP, fun b w inv hb => wp_mono (turn b w inv hb) ?_⟩
  intro d w' _ hd
  cases d with
  | inl _ => exact hd
  | inr c => exact fun w'' env _ => (stableQ c).env env hd

end Triple

/-! ## Pools -/

/-- Every thread meets its specification from here on. -/
structure Sound (C : Contract ι S σ) (sys : System ι S σ Ω) (Q : ι → α → World ι S σ → Prop)
    (c : Config ι S σ α) : Prop where
  inv : C.inv c.world
  threads : ∀ i, wp C sys i (c.pool i) (Q i) c.world

variable {Q : ι → α → World ι S σ → Prop}

theorem Sound.returned {c : Config ι S σ α} (h : Sound C sys Q c) {i : ι} {a : α}
    (hp : c.pool i = .ret a) : Q i a c.world := by
  have hi := h.threads i
  rw [hp] at hi
  exact hi c.world Relation.ReflTransGen.refl h.inv

variable [DecidableEq ι] {c c' : Config ι S σ α}

/-- A step of any thread keeps the specifications. -/
theorem Sound.step (h : Sound C sys Q c) (step : Config.Step sys c c') : Sound C sys Q c' := by
  rcases Config.step_cases step with
    ⟨j, o, k, ω, r, s', hp, hex, rfl⟩ | ⟨j, β, γ, body, b, k, hp, rfl⟩
  · have hj := h.threads j
    rw [hp] at hj
    obtain ⟨hg, hi, hk⟩ := hj c.world Relation.ReflTransGen.refl h.inv ω r s' hex
    refine ⟨hi, fun i => ?_⟩
    by_cases hij : i = j
    · subst hij
      simpa only [Function.update_self] using hk
    · simp only [Function.update_of_ne hij]
      have other : Other C sys i c.world (c.world.push j o r s') :=
        ⟨j, Ne.symm hij, ⟨ω, o, r, s', hex, rfl⟩, hg, h.inv, hi⟩
      exact wp_env (Relation.ReflTransGen.single other) (h.threads i)
  · refine ⟨h.inv, fun i => ?_⟩
    by_cases hij : i = j
    · subst hij
      simp only [Function.update_self]
      have hi := h.threads i
      rw [hp] at hi
      obtain ⟨I, stable, hI, turn⟩ := hi
      refine wp_bind h.inv (wp_mono (turn b c.world h.inv hI) ?_)
      intro d w' _ hd
      cases d with
      | inl b' => exact ⟨I, stable, hd, turn⟩
      | inr x => exact hd
    · simpa only [Function.update_of_ne hij] using h.threads i

theorem Persistent.step {F : World ι S σ → Prop} (h : Persistent F)
    (step : Config.Step sys c c') (hF : F c.world) : F c'.world := by
  rcases Config.step_cases step with ⟨j, o, k, ω, r, s', -, -, rfl⟩ | ⟨j, β, γ, body, b, k, -, rfl⟩
  · exact h c.world j o r s' hF
  · exact hF

/-- Hence they hold along every run. -/
theorem Sound.reaches (h : Sound C sys Q c) (reach : Config.Reaches sys c c') : Sound C sys Q c' := by
  induction reach with
  | refl => exact h
  | tail _ step ih => exact ih.step step

end Conc
