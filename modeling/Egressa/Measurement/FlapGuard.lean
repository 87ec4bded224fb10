import Mathlib

/-!
# The flap guard

A `FlapGuard` (`internal/measurement/flapguard.go`) approves a migration when its candidate has qualified without a
break for the confirmation window, the path in use is old enough, and so is the previous migration.
-/

namespace Egressa.Measurement

abbrev Duration := Int64

/-- `t.Sub(u)`: a difference outside the range of a duration is cut off. -/
def Time.sub (t u : ℤ) : ℤ := max (-2 ^ 63) (min (t - u) (2 ^ 63 - 1))

theorem Time.le_sub_iff {t u : ℤ} (h : u ≤ t) (d : Duration) : d.toInt ≤ Time.sub t u ↔ d.toInt ≤ t - u := by
  have hd := d.toInt_lt
  unfold Time.sub
  omega

theorem Time.lt_of_lt_sub {t u : ℤ} {d : Duration} (h : d.toInt < Time.sub t u) : d.toInt < t - u := by
  have hd := d.le_toInt
  unfold Time.sub at h
  omega

/-- How long decisions must wait. -/
structure FlapGuardConfig where
  confirmationWindow : Duration
  minResidence : Duration
  cooldown : Duration
  deriving DecidableEq, Repr

def second : ℤ := 1000000000

def defaultFlapGuardConfig : FlapGuardConfig := ⟨.ofInt (5 * second), .ofInt (30 * second), .ofInt (10 * second)⟩

/-- `FlapGuard`: what it remembers of past decisions. -/
structure FlapGuard where
  cfg : FlapGuardConfig
  activeSince : ℤ
  /-- Read only if `haveMigrated`. -/
  lastMigrationAt : ℤ
  haveMigrated : Bool
  /-- Read only if `havePending`, as `pendingSince` is. -/
  pendingCandidate : String
  pendingSince : ℤ
  havePending : Bool
  deriving DecidableEq, Repr

def newFlapGuard (cfg : FlapGuardConfig) (now : ℤ) : FlapGuard where
  cfg := cfg
  activeSince := now
  lastMigrationAt := 0
  haveMigrated := false
  pendingCandidate := ""
  pendingSince := 0
  havePending := false

namespace FlapGuard

/-- Begins a confirmation, or goes on with it. -/
def track (f : FlapGuard) (now : ℤ) (candidateID : String) : FlapGuard :=
  if !f.havePending || f.pendingCandidate ≠ candidateID then
    { f with havePending := true, pendingCandidate := candidateID, pendingSince := now }
  else f

/-- A migration takes place. -/
def commit (f : FlapGuard) (now : ℤ) : FlapGuard :=
  { f with activeSince := now, lastMigrationAt := now, haveMigrated := true, havePending := false }

/-- Whether a qualifying candidate may be taken now. -/
def evaluate (f : FlapGuard) (now : ℤ) (qualifies : Bool) (candidateID : String) : Bool × FlapGuard :=
  if !qualifies then (false, { f with havePending := false })
  else
    let f := f.track now candidateID
    if Time.sub now f.pendingSince < f.cfg.confirmationWindow.toInt then (false, f)
    else if Time.sub now f.activeSince < f.cfg.minResidence.toInt then (false, f)
    else if f.haveMigrated && Time.sub now f.lastMigrationAt < f.cfg.cooldown.toInt then (false, f)
    else (true, f.commit now)

/-! ## What an evaluation does -/

/-- All the waits are over. -/
structure Ripe (f : FlapGuard) (now : ℤ) : Prop where
  confirmed : f.cfg.confirmationWindow.toInt ≤ Time.sub now f.pendingSince
  resident : f.cfg.minResidence.toInt ≤ Time.sub now f.activeSince
  cooled : f.haveMigrated = true → f.cfg.cooldown.toInt ≤ Time.sub now f.lastMigrationAt

variable {f : FlapGuard} {now : ℤ} {candidateID : String}

theorem evaluate_false : f.evaluate now false candidateID = (false, { f with havePending := false }) := rfl

theorem evaluate_of_ripe (h : (f.track now candidateID).Ripe now) :
    f.evaluate now true candidateID = (true, (f.track now candidateID).commit now) := by
  have hcool : ¬ ((f.track now candidateID).haveMigrated = true ∧
      Time.sub now (f.track now candidateID).lastMigrationAt < (f.track now candidateID).cfg.cooldown.toInt) :=
    fun hlt => absurd (h.cooled hlt.1) (not_le.2 hlt.2)
  simp [evaluate, not_lt.2 h.confirmed, not_lt.2 h.resident, hcool]

theorem evaluate_of_not_ripe (h : ¬ (f.track now candidateID).Ripe now) :
    f.evaluate now true candidateID = (false, f.track now candidateID) := by
  unfold evaluate
  dsimp only
  split_ifs with hq hconf hres hcool
  · cases hq
  · rfl
  · rfl
  · rfl
  · refine absurd ⟨not_lt.1 hconf, not_lt.1 hres, fun hm => ?_⟩ h
    by_contra hlt
    exact hcool (by simp [hm, not_le.1 hlt])

@[simp] theorem cfg_track : (f.track now candidateID).cfg = f.cfg := by
  unfold track
  split <;> rfl

@[simp] theorem activeSince_track : (f.track now candidateID).activeSince = f.activeSince := by
  unfold track
  split <;> rfl

@[simp] theorem haveMigrated_track : (f.track now candidateID).haveMigrated = f.haveMigrated := by
  unfold track
  split <;> rfl

@[simp] theorem lastMigrationAt_track : (f.track now candidateID).lastMigrationAt = f.lastMigrationAt := by
  unfold track
  split <;> rfl

@[simp] theorem havePending_track : (f.track now candidateID).havePending = true := by
  unfold track
  split <;> simp_all

@[simp] theorem pendingCandidate_track : (f.track now candidateID).pendingCandidate = candidateID := by
  unfold track
  split <;> simp_all

theorem track_of_pending (hpending : f.havePending = true) (hcandidate : f.pendingCandidate = candidateID) :
    f.track now candidateID = f := by
  simp [track, hpending, hcandidate]

theorem track_cases (f : FlapGuard) (now : ℤ) (candidateID : String) :
    (f.havePending = true ∧ f.pendingCandidate = candidateID ∧ f.track now candidateID = f) ∨
      (f.track now candidateID).pendingSince = now := by
  by_cases h : f.havePending = true ∧ f.pendingCandidate = candidateID
  · exact Or.inl ⟨h.1, h.2, track_of_pending h.1 h.2⟩
  · right
    unfold track
    split <;> simp_all

@[simp] theorem cfg_evaluate (qualifies : Bool) : (f.evaluate now qualifies candidateID).2.cfg = f.cfg := by
  cases qualifies with
  | false => rfl
  | true =>
    by_cases h : (f.track now candidateID).Ripe now
    · simp [evaluate_of_ripe h, commit]
    · simp [evaluate_of_not_ripe h]

end FlapGuard

end Egressa.Measurement
