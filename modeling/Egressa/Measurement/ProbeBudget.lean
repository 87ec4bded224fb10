import Egressa.Measurement.FlapGuard
import Egressa.Transcript

/-!
# The probe budget

All probes are paid for from one `ProbeBudget` (`internal/measurement/probebudget.go`), a token bucket.  Its numbers
are exact here.
-/

namespace Egressa.Measurement

/-- `ProbeBudget`: a token bucket. -/
structure ProbeBudget where
  ratePerSecond : ℚ
  capacity : ℚ
  tokens : ℚ
  lastRefill : ℤ
  deriving DecidableEq, Repr

/-- `NewProbeBudget`: the bucket is full at first. -/
def newProbeBudget (ratePerSecond burstBytes : ℚ) (now : ℤ) : ProbeBudget where
  ratePerSecond := if ratePerSecond < 0 then 0 else ratePerSecond
  capacity := if burstBytes < 0 then 0 else burstBytes
  tokens := if burstBytes < 0 then 0 else burstBytes
  lastRefill := now

def seconds (d : ℤ) : ℚ := d / second

namespace ProbeBudget

/-- The tokens up to now. -/
def refill (b : ProbeBudget) (now : ℤ) : ProbeBudget :=
  let elapsed := seconds (Time.sub now b.lastRefill)
  let tokens :=
    if 0 < elapsed then
      let tokens := b.tokens + elapsed * b.ratePerSecond
      if b.capacity < tokens then b.capacity else tokens
    else b.tokens
  { b with tokens := tokens, lastRefill := now }

/-- Takes the tokens of a probe, if there are enough. -/
def tryTake (b : ProbeBudget) (now : ℤ) (size : ℤ) : Bool × ProbeBudget :=
  let b := b.refill now
  if b.tokens < size then (false, b) else (true, { b with tokens := b.tokens - size })

end ProbeBudget

structure Take where
  now : ℤ
  size : ℤ
  deriving DecidableEq, Repr

def ProbeBudget.answer (b : ProbeBudget) (c : Take) : Bool × ProbeBudget := b.tryTake c.now c.size

def ProbeBudget.answers (b : ProbeBudget) (calls : List Take) : ProbeBudget × List (Take × Bool) :=
  Transcript.run ProbeBudget.answer b calls

/-- The bytes admitted in an interval. -/
def admitted (t₁ t₂ : ℤ) (log : List (Take × Bool)) : ℚ :=
  ((log.filter fun e => e.2 && t₁ ≤ e.1.now && e.1.now ≤ t₂).map fun e => (e.1.size : ℚ)).sum

theorem admitted_concat (t₁ t₂ : ℤ) (log : List (Take × Bool)) (e : Take × Bool) : admitted t₁ t₂ (log ++ [e]) =
      admitted t₁ t₂ log + if e.2 = true ∧ t₁ ≤ e.1.now ∧ e.1.now ≤ t₂ then (e.1.size : ℚ) else 0 := by
  unfold admitted
  rw [List.filter_append, List.map_append, List.sum_append]
  congr 1
  by_cases h : e.2 = true ∧ t₁ ≤ e.1.now ∧ e.1.now ≤ t₂
  · simp [h]
  · rw [if_neg h, List.filter_cons_of_neg (by simpa [and_assoc] using h)]
    simp

/-! ## What a call does -/

theorem seconds_mono {d d' : ℤ} (h : d ≤ d') : seconds d ≤ seconds d' := by
  unfold seconds second
  have : (d : ℚ) ≤ d' := by exact_mod_cast h
  gcongr

theorem seconds_add (d d' : ℤ) : seconds (d + d') = seconds d + seconds d' := by
  unfold seconds
  push_cast
  ring

theorem seconds_nonneg {d : ℤ} (h : 0 ≤ d) : 0 ≤ seconds d := by
  have := seconds_mono h
  simpa [seconds] using this

/-- The bucket holds between nothing and its capacity. -/
structure ProbeBudget.Sound (b : ProbeBudget) : Prop where
  rate : 0 ≤ b.ratePerSecond
  tokens : 0 ≤ b.tokens
  capacity : b.tokens ≤ b.capacity

namespace ProbeBudget

variable {b : ProbeBudget} {now : ℤ}

theorem newProbeBudget_sound (ratePerSecond burstBytes : ℚ) (now : ℤ) :
    (newProbeBudget ratePerSecond burstBytes now).Sound := by
  unfold newProbeBudget
  refine ⟨?_, ?_, le_refl _⟩
  · dsimp only
    split_ifs <;> linarith
  · dsimp only
    split_ifs <;> linarith

@[simp] theorem lastRefill_refill (b : ProbeBudget) (now : ℤ) : (b.refill now).lastRefill = now := rfl

theorem tokens_refill (sound : b.Sound) (forward : b.lastRefill ≤ now) : (b.refill now).tokens =
    min b.capacity (b.tokens + seconds (Time.sub now b.lastRefill) * b.ratePerSecond) := by
  unfold refill
  dsimp only
  split_ifs with elapsed full
  · exact (min_eq_left full.le).symm
  · exact (min_eq_right (not_lt.1 full)).symm
  · have : 0 ≤ seconds (Time.sub now b.lastRefill) := by
      refine seconds_nonneg ?_
      unfold Time.sub
      omega
    have zero : seconds (Time.sub now b.lastRefill) = 0 := le_antisymm (not_lt.1 elapsed) this
    rw [zero, zero_mul, add_zero, min_eq_right sound.capacity]

theorem refill_sound (sound : b.Sound) (forward : b.lastRefill ≤ now) : (b.refill now).Sound := by
  have elapsed : 0 ≤ seconds (Time.sub now b.lastRefill) * b.ratePerSecond := by
    refine mul_nonneg (seconds_nonneg ?_) sound.rate
    unfold Time.sub
    omega
  refine ⟨sound.rate, ?_, ?_⟩
  · rw [tokens_refill sound forward]
    exact le_min (sound.tokens.trans sound.capacity) (add_nonneg sound.tokens elapsed)
  · rw [tokens_refill sound forward]
    exact min_le_left _ _

theorem tokens_refill_le (sound : b.Sound) (forward : b.lastRefill ≤ now) :
    (b.refill now).tokens ≤ b.tokens + seconds (now - b.lastRefill) * b.ratePerSecond := by
  have elapsed : seconds (Time.sub now b.lastRefill) ≤ seconds (now - b.lastRefill) := by
    refine seconds_mono ?_
    unfold Time.sub
    omega
  rw [tokens_refill sound forward]
  have := mul_le_mul_of_nonneg_right elapsed sound.rate
  exact (min_le_right _ _).trans (by linarith)

theorem tryTake_cases (b : ProbeBudget) (now size : ℤ) :
    (b.refill now).tokens < size ∧ b.tryTake now size = (false, b.refill now) ∨ (size : ℚ) ≤ (b.refill now).tokens ∧
        b.tryTake now size = (true, { b.refill now with tokens := (b.refill now).tokens - size }) := by
  unfold tryTake
  dsimp only
  split_ifs with short
  · exact .inl ⟨short, rfl⟩
  · exact .inr ⟨not_lt.1 short, rfl⟩

end ProbeBudget

/-! ## What a budget admits -/

/-- What is known of the answers so far. -/
structure Bounded (b₀ : ProbeBudget) (t₁ t₂ : ℤ) (s : ProbeBudget × List (Take × Bool)) : Prop where
  sound : s.1.Sound
  rate : s.1.ratePerSecond = b₀.ratePerSecond
  capacity : s.1.capacity = b₀.capacity
  recent : s.1.lastRefill ∈ b₀.lastRefill :: s.2.map (·.1.now)
  past : ∀ e ∈ s.2, e.1.now ≤ s.1.lastRefill
  total : admitted t₁ t₂ s.2 ≤ b₀.capacity + seconds (t₂ - t₁) * b₀.ratePerSecond
  level : s.1.lastRefill ≤ t₂ → admitted t₁ t₂ s.2 + s.1.tokens ≤
    b₀.capacity + seconds (max 0 (s.1.lastRefill - t₁)) * b₀.ratePerSecond

theorem admitted_of_past {t₁ t₂ r : ℤ} {log : List (Take × Bool)} (past : ∀ e ∈ log, e.1.now ≤ r) (before : r < t₁) :
    admitted t₁ t₂ log = 0 := by
  have none_ : (log.filter fun e => e.2 && t₁ ≤ e.1.now && e.1.now ≤ t₂) = [] := by
    refine List.filter_eq_nil_iff.2 fun e he => ?_
    have := past e he
    simp only [Bool.and_eq_true, decide_eq_true_eq, not_and]
    omega
  rw [admitted, none_, List.map_nil, List.sum_nil]

namespace Bounded

variable {b₀ : ProbeBudget} {t₁ t₂ : ℤ} {s : ProbeBudget × List (Take × Bool)}

theorem start (sound : b₀.Sound) (interval : t₁ ≤ t₂) : Bounded b₀ t₁ t₂ (b₀, []) := by
  have time : 0 ≤ seconds (t₂ - t₁) * b₀.ratePerSecond := mul_nonneg (seconds_nonneg (by omega)) sound.rate
  have time' : 0 ≤ seconds (max 0 (b₀.lastRefill - t₁)) * b₀.ratePerSecond :=
    mul_nonneg (seconds_nonneg (by omega)) sound.rate
  have none_ : admitted t₁ t₂ [] = 0 := rfl
  refine ⟨sound, rfl, rfl, by simp, by simp, ?_, fun _ => ?_⟩
  · have := sound.tokens.trans sound.capacity
    rw [none_]
    linarith
  · have := sound.capacity
    dsimp only
    rw [none_]
    linarith

theorem refill (h : Bounded b₀ t₁ t₂ s) {now : ℤ} (forward : s.1.lastRefill ≤ now) (within : now ≤ t₂) :
    admitted t₁ t₂ s.2 + (s.1.refill now).tokens ≤ b₀.capacity + seconds (max 0 (now - t₁)) * b₀.ratePerSecond := by
  have rate : 0 ≤ b₀.ratePerSecond := h.rate ▸ h.sound.rate
  by_cases before : s.1.lastRefill < t₁
  · -- Nothing of the interval has been admitted yet, and the bucket is full at most.
    have full := (ProbeBudget.refill_sound h.sound forward).capacity
    have capacity : (s.1.refill now).capacity = b₀.capacity := h.capacity
    have time : 0 ≤ seconds (max 0 (now - t₁)) * b₀.ratePerSecond := mul_nonneg (seconds_nonneg (by omega)) rate
    rw [admitted_of_past h.past before]
    linarith
  · have level := h.level (forward.trans within)
    have more := ProbeBudget.tokens_refill_le h.sound forward
    rw [h.rate] at more
    have times : max 0 (now - t₁) = max 0 (s.1.lastRefill - t₁) + (now - s.1.lastRefill) := by omega
    rw [times, seconds_add, add_mul]
    linarith

theorem answer (h : Bounded b₀ t₁ t₂ s) {c : Take} (forward : s.1.lastRefill ≤ c.now)
    (positive : 0 < c.size) : Bounded b₀ t₁ t₂ (Transcript.answer ProbeBudget.answer s c) := by
  obtain ⟨now, size⟩ := c
  have positive : (0 : ℚ) < size := by exact_mod_cast positive
  have rate : 0 ≤ b₀.ratePerSecond := h.rate ▸ h.sound.rate
  have sound := ProbeBudget.refill_sound h.sound forward
  have past : ∀ ok : Bool, ∀ e ∈ s.2 ++ [((⟨now, size⟩ : Take), ok)], e.1.now ≤ now := by
    intro ok e he
    rcases List.mem_append.1 he with he | he
    · exact (h.past e he).trans forward
    · rw [List.mem_singleton.1 he]
  unfold Transcript.answer ProbeBudget.answer
  rcases ProbeBudget.tryTake_cases s.1 now size with ⟨-, taken⟩ | ⟨enough, taken⟩
  · rw [taken]
    refine ⟨sound, h.rate, h.capacity, by simp, past false, ?_, fun within => ?_⟩
    · simpa [admitted_concat] using h.total
    · simpa [admitted_concat] using h.refill forward within
  · rw [taken]
    have left : (s.1.refill now).tokens - size ≤ (s.1.refill now).capacity := by linarith [sound.capacity]
    refine ⟨⟨sound.rate, sub_nonneg.2 enough, left⟩, h.rate, h.capacity, by simp, past true, ?_, fun within => ?_⟩
    · rw [admitted_concat]
      by_cases inside : t₁ ≤ now ∧ now ≤ t₂
      · have level := h.refill forward inside.2
        have time : seconds (max 0 (now - t₁)) ≤ seconds (t₂ - t₁) := seconds_mono (by omega)
        have := mul_le_mul_of_nonneg_right time rate
        rw [if_pos ⟨rfl, inside⟩]
        linarith
      · rw [if_neg fun all => inside all.2, add_zero]
        exact h.total
    · have level := h.refill forward within
      rw [admitted_concat]
      simp only [ProbeBudget.lastRefill_refill] at within ⊢
      split_ifs
      · linarith
      · linarith

end Bounded

/-- Calls at times that do not go back, from the start of the budget on, for some bytes each. -/
structure Paced (t₀ : ℤ) (calls : List Take) : Prop where
  timely : (t₀ :: calls.map (·.now)).Pairwise (· ≤ ·)
  positive : ∀ c ∈ calls, 0 < c.size

theorem Paced.closed {t₀ : ℤ} (l : List Take) (c : Take) (h : Paced t₀ (l ++ [c])) : Paced t₀ l := by
  refine ⟨h.timely.sublist ?_, fun d hd => h.positive d (by simp [hd])⟩
  simp

theorem forward_of_paced {b : ProbeBudget} {l : List Take} {c : Take} {t₁ t₂ : ℤ} (h : Bounded b t₁ t₂ (b.answers l))
    (paced : Paced b.lastRefill (l ++ [c])) : (b.answers l).1.lastRefill ≤ c.now := by
  have logged : (b.answers l).2.map Prod.fst = l := Transcript.inputs_run l
  have inputs : (b.answers l).2.map (·.1.now) = l.map (·.now) := by
    conv_rhs => rw [← logged, List.map_map]
    rfl
  have recent := h.recent
  have timely := paced.timely
  rw [inputs] at recent
  rw [List.map_append, ← List.cons_append, List.pairwise_append] at timely
  exact timely.2.2 _ recent _ (by simp)

theorem answers_bounded {b : ProbeBudget} (sound : b.Sound) {calls : List Take} (paced : Paced b.lastRefill calls)
    {t₁ t₂ : ℤ} (interval : t₁ ≤ t₂) : Bounded b t₁ t₂ (b.answers calls) := by
  refine Transcript.run_invariant_of Paced.closed (Bounded.start sound interval) (fun l c paced h => ?_) paced
  exact h.answer (forward_of_paced h paced) (paced.positive c (by simp))

/-- The budget is a token bucket: it holds between nothing and its capacity, admits in no interval more than its
capacity and what the interval gives, and refuses only what it lacks after a refill. -/
theorem budget_bounds (ratePerSecond burstBytes : ℚ) (t₀ : ℤ) (calls : List Take) (paced : Paced t₀ calls) :
    let b₀ := newProbeBudget ratePerSecond burstBytes t₀
    let s := b₀.answers calls
    (0 ≤ s.1.tokens ∧ s.1.tokens ≤ b₀.capacity) ∧
    (∀ t₁ t₂, t₁ ≤ t₂ → admitted t₁ t₂ s.2 ≤ b₀.capacity + seconds (t₂ - t₁) * b₀.ratePerSecond) ∧
    ∀ c, Paced t₀ (calls ++ [c]) → (s.1.tryTake c.now c.size).1 = false →
      min b₀.capacity (s.1.tokens + seconds (Time.sub c.now s.1.lastRefill) * b₀.ratePerSecond) < c.size := by
  intro b₀ s
  have sound : b₀.Sound := ProbeBudget.newProbeBudget_sound ratePerSecond burstBytes t₀
  have always : ∀ t₁ t₂, t₁ ≤ t₂ → Bounded b₀ t₁ t₂ s := fun _ _ interval => answers_bounded sound paced interval
  have state := always 0 0 (le_refl 0)
  refine ⟨⟨state.sound.tokens, state.capacity ▸ state.sound.capacity⟩,
    fun t₁ t₂ interval => (always t₁ t₂ interval).total,
    fun c next refused => ?_⟩
  rcases ProbeBudget.tryTake_cases s.1 c.now c.size with ⟨short, -⟩ | ⟨-, taken⟩
  · rwa [ProbeBudget.tokens_refill state.sound (forward_of_paced state next), state.capacity, state.rate] at short
  · rw [taken] at refused
    cases refused

/-- A budget of 100 bytes, and 50 a second: the third of four calls is refused. -/
theorem budget_bounds_four : (0 : ℚ) ≤ ((newProbeBudget 50 100 0).answers
      [⟨0, 64⟩, ⟨second, 64⟩, ⟨second, 64⟩, ⟨2 * second, 64⟩]).1.tokens ∧
    ((newProbeBudget 50 100 0).answers [⟨0, 64⟩, ⟨second, 64⟩, ⟨second, 64⟩, ⟨2 * second, 64⟩]).2.map Prod.snd =
      [true, true, false, true] :=
  ⟨(budget_bounds 50 100 0 [⟨0, 64⟩, ⟨second, 64⟩, ⟨second, 64⟩, ⟨2 * second, 64⟩]
    ⟨by decide, by decide⟩).1.1, by decide +kernel⟩

end Egressa.Measurement
