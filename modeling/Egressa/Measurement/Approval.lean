import Egressa.Measurement.FlapGuard
import Egressa.Transcript

/-!
# What a guard approves

A guard keeps two times and a candidate, of which it makes an answer.  What its answers mean is said here of the calls
themselves: a call is approved iff the candidate has qualified in an unbroken row of calls for the confirmation window,
and the last approval, or the start, is long enough ago (`evaluate_iff_promised`).
-/

namespace Egressa.Measurement

/-- One call of `Evaluate`. -/
structure Evaluation where
  now : ℤ
  qualifies : Bool
  candidateID : String
  deriving DecidableEq, Repr

abbrev Answered := Evaluation × Bool

/-- `Evaluate`, as a machine that answers calls. -/
def FlapGuard.answer (f : FlapGuard) (c : Evaluation) : Bool × FlapGuard := f.evaluate c.now c.qualifies c.candidateID

def FlapGuard.answers (cfg : FlapGuardConfig) (t₀ : ℤ) (calls : List Evaluation) : FlapGuard × List Answered :=
  Transcript.run FlapGuard.answer (newFlapGuard cfg t₀) calls

def confirms (c : String) (e : Answered) : Bool := e.1.qualifies && e.1.candidateID == c && !e.2

/-- A call at `now` is to be approved.  The calls of the confirmation are `late` and the call itself. -/
structure Promised (cfg : FlapGuardConfig) (t₀ : ℤ) (log : List Answered) (call : Evaluation) : Prop where
  qualifies : call.qualifies = true
  confirmed : ∃ early late, log = early ++ late ∧ (∀ e ∈ late, confirms call.candidateID e = true) ∧
    cfg.confirmationWindow.toInt ≤ call.now - late.head?.elim call.now (·.1.now)
  first : (log.filter Prod.snd).getLast? = none → cfg.minResidence.toInt ≤ call.now - t₀
  spaced : ∀ e, (log.filter Prod.snd).getLast? = some e →
    max cfg.minResidence.toInt cfg.cooldown.toInt ≤ call.now - e.1.now

/-! ## What the guard remembers -/

/-- Since when the last evaluations confirm `c`. -/
def confirmedSince (log : List Answered) (c : String) : Option ℤ :=
  ((log.rtakeWhile (confirms c)).head?).map (·.1.now)

def lastApproval (log : List Answered) : Option ℤ := ((log.filter Prod.snd).getLast?).map (·.1.now)

theorem confirmedSince_concat (log : List Answered) (c : String) (e : Answered) : confirmedSince (log ++ [e]) c =
      if confirms c e then some ((confirmedSince log c).getD e.1.now) else none := by
  unfold confirmedSince
  rw [List.rtakeWhile_concat]
  split_ifs
  · cases log.rtakeWhile (confirms c) with
    | nil => rfl
    | cons d l => rfl
  · rfl

theorem lastApproval_concat (log : List Answered) (e : Answered) :
    lastApproval (log ++ [e]) = if e.2 then some e.1.now else lastApproval log := by
  unfold lastApproval
  rw [List.filter_append, List.getLast?_append]
  cases h : e.2 <;> simp [h]

/-- The guard remembers what the log shows. -/
structure Remembers (cfg : FlapGuardConfig) (t₀ : ℤ) (s : FlapGuard × List Answered) : Prop where
  cfg : s.1.cfg = cfg
  pending : ∀ c, confirmedSince s.2 c =
    if s.1.havePending ∧ s.1.pendingCandidate = c then some s.1.pendingSince else none
  active : s.1.activeSince = (lastApproval s.2).getD t₀
  migrated : s.1.haveMigrated = (lastApproval s.2).isSome
  last : s.1.haveMigrated = true → s.1.lastMigrationAt = s.1.activeSince

namespace Remembers

variable {cfg : FlapGuardConfig} {t₀ : ℤ} {s : FlapGuard × List Answered}

theorem start (cfg : FlapGuardConfig) (t₀ : ℤ) : Remembers cfg t₀ (newFlapGuard cfg t₀, []) where
  cfg := rfl
  pending _ := by simp [confirmedSince, newFlapGuard]
  active := rfl
  migrated := rfl
  last h := by cases h

theorem pendingSince_track (h : Remembers cfg t₀ s) (now : ℤ) (c : String) :
    (s.1.track now c).pendingSince = (confirmedSince s.2 c).getD now := by
  rw [h.pending c]
  by_cases same : s.1.havePending = true ∧ s.1.pendingCandidate = c
  · rw [if_pos same, FlapGuard.track_of_pending same.1 same.2]
    rfl
  · rw [if_neg same]
    rcases s.1.track_cases now c with ⟨hp, hc, -⟩ | since
    · exact absurd ⟨hp, hc⟩ same
    · exact since

theorem answer (h : Remembers cfg t₀ s) (call : Evaluation) : 
    Remembers cfg t₀ (Transcript.answer FlapGuard.answer s call) := by
  obtain ⟨now, qualifies, c⟩ := call
  unfold Transcript.answer FlapGuard.answer
  cases qualifies with
  | false =>
    rw [FlapGuard.evaluate_false]
    refine ⟨h.cfg, fun d => ?_, ?_, ?_, h.last⟩
    · simp [confirmedSince_concat, confirms]
    · simpa [lastApproval_concat] using h.active
    · simpa [lastApproval_concat] using h.migrated
  | true =>
    by_cases ripe : (s.1.track now c).Ripe now
    · rw [FlapGuard.evaluate_of_ripe ripe]
      refine ⟨by simpa [FlapGuard.commit] using h.cfg, fun d => ?_, ?_, ?_, fun _ => rfl⟩
      · simp [confirmedSince_concat, confirms, FlapGuard.commit]
      · simp [lastApproval_concat, FlapGuard.commit]
      · simp [lastApproval_concat, FlapGuard.commit]
    · rw [FlapGuard.evaluate_of_not_ripe ripe]
      refine ⟨by simpa using h.cfg, fun d => ?_, ?_, ?_, by simpa using h.last⟩
      · by_cases same : c = d
        · simp [confirmedSince_concat, confirms, same, ← h.pendingSince_track now d]
        · simp [confirmedSince_concat, confirms, same]
      · simpa [lastApproval_concat] using h.active
      · simpa [lastApproval_concat] using h.migrated

theorem answers (cfg : FlapGuardConfig) (t₀ : ℤ) (calls : List Evaluation) :
    Remembers cfg t₀ (FlapGuard.answers cfg t₀ calls) :=
  Transcript.run_invariant (start cfg t₀) (fun _ c h => h.answer c) calls

end Remembers

/-! ## The promise -/

section

variable {log : List Answered} {now : ℤ} {c : String}

theorem confirmed_iff {d : ℤ} (ordered : log.Pairwise fun a b => a.1.now ≤ b.1.now) (past : ∀ e ∈ log, e.1.now ≤ now) :
    (∃ early late, log = early ++ late ∧ (∀ e ∈ late, confirms c e = true) ∧
      d ≤ now - late.head?.elim now (·.1.now)) ↔ d ≤ now - (confirmedSince log c).getD now := by
  have since : (confirmedSince log c).getD now = (log.rtakeWhile (confirms c)).head?.elim now (·.1.now) := by
    unfold confirmedSince
    cases log.rtakeWhile (confirms c) <;> rfl
  rw [since]
  constructor
  · rintro ⟨early, late, rfl, row, hd⟩
    have longest : (early ++ late).rtakeWhile (confirms c) = early.rtakeWhile (confirms c) ++ late := by
      rw [List.rtakeWhile, List.reverse_append,
        List.takeWhile_append_of_pos (by simpa using row), List.reverse_append, List.reverse_reverse]
      rfl
    rw [longest]
    cases hmore : early.rtakeWhile (confirms c) with
    | nil => exact hd
    | cons a more =>
      have ha : a ∈ early := by
        refine (List.rtakeWhile_suffix (confirms c) early).subset ?_
        rw [hmore]
        exact List.mem_cons_self
      have earlier : a.1.now ≤ late.head?.elim now (·.1.now) := by
        cases late with
        | nil => exact past a (by simp [ha])
        | cons b late => exact (List.pairwise_append.1 ordered).2.2 a ha b List.mem_cons_self
      exact hd.trans (Int.sub_le_sub_left earlier now)
  · intro hd
    exact ⟨_, _, List.rdropWhile_append_rtakeWhile.symm, fun e he => List.mem_rtakeWhile_imp he, hd⟩

theorem confirmedSince_le (past : ∀ e ∈ log, e.1.now ≤ now) : (confirmedSince log c).getD now ≤ now := by
  unfold confirmedSince
  cases hrow : log.rtakeWhile (confirms c) with
  | nil => exact le_refl now
  | cons e row => exact past e ((List.rtakeWhile_suffix (confirms c) log).subset (hrow ▸ List.mem_cons_self))

theorem lastApproval_le {t₀ : ℤ} (started : t₀ ≤ now) (past : ∀ e ∈ log, e.1.now ≤ now) :
    (lastApproval log).getD t₀ ≤ now := by
  unfold lastApproval
  cases hlast : (log.filter Prod.snd).getLast? with
  | none => exact started
  | some e => exact past e (List.mem_of_mem_filter (List.mem_of_getLast? hlast))

end

theorem Remembers.ripe_iff {cfg : FlapGuardConfig} {t₀ : ℤ} {s : FlapGuard × List Answered} (h : Remembers cfg t₀ s)
    {now : ℤ} (started : t₀ ≤ now) (past : ∀ e ∈ s.2, e.1.now ≤ now) (c : String) :
    (s.1.track now c).Ripe now ↔ cfg.confirmationWindow.toInt ≤ now - (confirmedSince s.2 c).getD now ∧
      cfg.minResidence.toInt ≤ now - (lastApproval s.2).getD t₀ ∧
      ((lastApproval s.2).isSome = true → cfg.cooldown.toInt ≤ now - (lastApproval s.2).getD t₀) := by
  have last : s.1.haveMigrated = true → s.1.lastMigrationAt = (lastApproval s.2).getD t₀ :=
    fun migrated => (h.last migrated).trans h.active
  have ripe : (s.1.track now c).Ripe now ↔
      cfg.confirmationWindow.toInt ≤ Time.sub now ((confirmedSince s.2 c).getD now) ∧
      cfg.minResidence.toInt ≤ Time.sub now ((lastApproval s.2).getD t₀) ∧
      ((lastApproval s.2).isSome = true → cfg.cooldown.toInt ≤ Time.sub now ((lastApproval s.2).getD t₀)) := by
    rw [← h.migrated, ← h.pendingSince_track now c, ← h.active, ← h.cfg]
    constructor
    · rintro ⟨confirmed, resident, cooled⟩
      simp only [FlapGuard.cfg_track, FlapGuard.activeSince_track, FlapGuard.haveMigrated_track,
        FlapGuard.lastMigrationAt_track] at confirmed resident cooled
      exact ⟨confirmed, resident, fun migrated => by rw [← h.last migrated]; exact cooled migrated⟩
    · rintro ⟨confirmed, resident, cooled⟩
      refine ⟨by simpa using confirmed, by simpa using resident, ?_⟩
      simp only [FlapGuard.cfg_track, FlapGuard.haveMigrated_track, FlapGuard.lastMigrationAt_track]
      intro migrated
      rw [h.last migrated]
      exact cooled migrated
  rw [ripe, Time.le_sub_iff (confirmedSince_le past), Time.le_sub_iff (lastApproval_le started past),
    Time.le_sub_iff (lastApproval_le started past)]

def Timely (t₀ : ℤ) (calls : List Evaluation) : Prop := (t₀ :: calls.map (·.now)).Pairwise (· ≤ ·)

instance (t₀ : ℤ) (calls : List Evaluation) : Decidable (Timely t₀ calls) :=
  inferInstanceAs (Decidable (List.Pairwise _ _))

/-- Whatever its calls were, a guard approves a call iff it is promised to. -/
theorem evaluate_iff_promised (cfg : FlapGuardConfig) (t₀ : ℤ) (calls : List Evaluation) (call : Evaluation)
    (timely : Timely t₀ (calls ++ [call])) :
    ((FlapGuard.answers cfg t₀ calls).1.evaluate call.now call.qualifies call.candidateID).1 = true ↔
      Promised cfg t₀ (FlapGuard.answers cfg t₀ calls).2 call := by
  have h := Remembers.answers cfg t₀ calls
  have logged : (FlapGuard.answers cfg t₀ calls).2.map Prod.fst = calls := Transcript.inputs_run calls
  generalize FlapGuard.answers cfg t₀ calls = s at h logged
  obtain ⟨now, qualifies, c⟩ := call
  rw [Timely, List.pairwise_cons, List.map_append, List.pairwise_append, ← logged, List.map_map] at timely
  obtain ⟨afterStart, ordered, -, beforeNow⟩ := timely
  have past : ∀ e ∈ s.2, e.1.now ≤ now := fun e he => beforeNow e.1.now (List.mem_map_of_mem he) now (by simp)
  have started : t₀ ≤ now := afterStart now (by simp)
  have ordered : s.2.Pairwise fun a b => a.1.now ≤ b.1.now := List.pairwise_map.1 ordered
  have row := confirmed_iff (c := c) (d := cfg.confirmationWindow.toInt) ordered past
  have ripe := h.ripe_iff started past c
  cases qualifies with
  | false =>
    rw [FlapGuard.evaluate_false]
    exact iff_of_false (by simp) fun promised => absurd promised.qualifies (by simp)
  | true =>
    have approved : (s.1.evaluate now true c).1 = true ↔ (s.1.track now c).Ripe now := by
      by_cases hripe : (s.1.track now c).Ripe now
      · simp [FlapGuard.evaluate_of_ripe hripe, hripe]
      · simp [FlapGuard.evaluate_of_not_ripe hripe, hripe]
    rw [approved, ripe, ← row]
    unfold lastApproval
    cases hlast : (s.2.filter Prod.snd).getLast? with
    | none =>
      constructor
      · rintro ⟨confirmed, resident, -⟩
        exact ⟨rfl, confirmed, fun _ => resident, by simp [hlast]⟩
      · intro promised
        exact ⟨promised.confirmed, promised.first hlast, by simp⟩
    | some e =>
      constructor
      · rintro ⟨confirmed, resident, cooled⟩
        refine ⟨rfl, confirmed, by simp [hlast], fun e' he' => ?_⟩
        cases hlast.symm.trans he'
        exact max_le resident (cooled rfl)
      · intro promised
        have spaced := promised.spaced e hlast
        exact ⟨promised.confirmed, (le_max_left _ _).trans spaced, fun _ => (le_max_right _ _).trans spaced⟩

theorem evaluate_iff_promised_default : Promised defaultFlapGuardConfig 0
      (FlapGuard.answers defaultFlapGuardConfig 0 [⟨10 * second, true, "a"⟩, ⟨35 * second, true, "b"⟩]).2
      ⟨40 * second, true, "b"⟩ :=
  (evaluate_iff_promised defaultFlapGuardConfig 0 [⟨10 * second, true, "a"⟩, ⟨35 * second, true, "b"⟩]
    ⟨40 * second, true, "b"⟩ (by decide)).1 (by decide)

end Egressa.Measurement
