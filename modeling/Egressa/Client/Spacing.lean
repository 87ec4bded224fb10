import Egressa.Client.Confirmation

/-!
# The spacing of better-path migrations

The client calls `Decide` at every tick, and `Reset` when it has adopted a new path (`Agent.adopt`).  `Reset` makes a
new flap guard, which does not know of earlier migrations: if there was a path change, the cooldown is not asked for.
-/

namespace Egressa.Client

open Measurement

variable {F : Type} [Arith F]

/-- A decision, or a session that is adopted. -/
inductive Event (F : Type)
  | decide (t : Tick F)
  | adopt (now : ℤ)

def Event.time : Event F → ℤ
  | .decide t => t.now
  | .adopt now => now

/-- A decider, the latest time, the last better-path migration it called for, and the last path change (or the start).
-/
structure Timeline (F : Type) where
  decider : Decider F
  now : ℤ
  migratedAt : Option ℤ
  changedAt : ℤ

namespace Timeline

def start (policy : PolicyDocument F) (now : ℤ) : Timeline F := ⟨newDecider policy now, now, none, now⟩

/-- The decision migrates to a better path. -/
def Migrates (s : Timeline F) (t : Tick F) : Prop := ∃ b, (s.decider.decide t).1.BetterPath b

instance (s : Timeline F) (t : Tick F) : Decidable (s.Migrates t) :=
  decidable_of_iff ((s.decider.decide t).1.BetterPath (s.decider.decide t).1.access)
    ⟨fun h => ⟨_, h⟩, fun ⟨_, h⟩ => ⟨h.1, h.2.1, rfl⟩⟩

def event (s : Timeline F) : Event F → Timeline F
  | .decide t =>
    { s with
      decider := (s.decider.decide t).2
      now := t.now
      migratedAt := if s.Migrates t then some t.now else s.migratedAt }
  | .adopt now => { s with decider := s.decider.reset now, now, changedAt := now }

abbrev Runs : Timeline F → Timeline F → Prop := Conc.Runs (fun s e => some (s.event e)) fun s e => s.now ≤ e.time

theorem migrates_iff (s : Timeline F) (t : Tick F) : s.Migrates t ↔ ∃ b, s.decider.policy.report t = some (true, b) ∧
      (s.decider.flap.track t.now b).Ripe t.now := by
  refine exists_congr fun b => (s.decider.betterPath_iff t b).trans (and_congr_right fun _ => ?_)
  by_cases hripe : (s.decider.flap.track t.now b).Ripe t.now
  · simp [FlapGuard.evaluate_of_ripe hripe, hripe]
  · simp [FlapGuard.evaluate_of_not_ripe hripe, hripe]

theorem decide_cases (s : Timeline F) (t : Tick F) :
    (s.decider.policy.report t = none ∧ s.event (.decide t) = { s with now := t.now }) ∨
    ((∃ b, s.decider.policy.report t = some (false, b)) ∧ s.event (.decide t) =
      { s with now := t.now, decider.flap.havePending := false }) ∨
    ∃ b, s.decider.policy.report t = some (true, b) ∧
      (((s.decider.flap.track t.now b).Ripe t.now ∧ s.event (.decide t) =
        { s with
          now := t.now, migratedAt := some t.now
          decider.flap := (s.decider.flap.track t.now b).commit t.now }) ∨
      (¬ (s.decider.flap.track t.now b).Ripe t.now ∧ s.event (.decide t) =
        { s with now := t.now, decider.flap := s.decider.flap.track t.now b })) := by
  have hmig := s.migrates_iff t
  have hdecider : (s.decider.decide t).2 = ⟨s.decider.policy, (s.decider.decide t).2.flap⟩ := by
    rw [← s.decider.policy_decide t]
  rw [s.decider.flap_decide t] at hdecider
  cases hr : s.decider.policy.report t with
  | none =>
    left
    have hno : ¬ s.Migrates t := by simp [hmig, hr]
    exact ⟨rfl, by simp [event, hdecider, hr, hno]⟩
  | some r =>
    obtain ⟨qualifies, b⟩ := r
    right
    cases qualifies with
    | false =>
      left
      have hno : ¬ s.Migrates t := by simp [hmig, hr]
      exact ⟨⟨b, rfl⟩, by simp [event, hdecider, hr, hno, FlapGuard.evaluate_false]⟩
    | true =>
      refine Or.inr ⟨b, rfl, ?_⟩
      by_cases hripe : (s.decider.flap.track t.now b).Ripe t.now
      · have hyes : s.Migrates t := hmig.2 ⟨b, hr, hripe⟩
        exact Or.inl ⟨hripe, by simp [event, hdecider, hr, hyes, FlapGuard.evaluate_of_ripe hripe]⟩
      · have hno : ¬ s.Migrates t := by
          rw [hmig, hr]
          rintro ⟨b', hb', hripe'⟩
          obtain rfl : b = b' := by simpa using hb'
          exact hripe hripe'
        exact Or.inr ⟨hripe, by
          simp [event, hdecider, hr, hno, FlapGuard.evaluate_of_not_ripe hripe]⟩

end Timeline

/-! ## What the guard remembers -/

/-- What the guard remembers of the migrations so far. -/
structure Remembers (policy : PolicyDocument F) (s : Timeline F) : Prop where
  policy_eq : s.decider.policy = policy
  cfg : s.decider.flap.cfg = policy.flapGuard
  changed : s.changedAt ≤ s.now
  active : s.changedAt ≤ s.decider.flap.activeSince ∧ s.decider.flap.activeSince ≤ s.now
  pending : s.decider.flap.havePending = true →
    s.changedAt ≤ s.decider.flap.pendingSince ∧ s.decider.flap.pendingSince ≤ s.now
  migrated : s.decider.flap.haveMigrated = true →
    s.decider.flap.lastMigrationAt ≤ s.now ∧ s.migratedAt = some s.decider.flap.lastMigrationAt
  forgotten : s.decider.flap.haveMigrated = false → ∀ m, s.migratedAt = some m → m ≤ s.changedAt

namespace Remembers

variable {policy : PolicyDocument F} {s : Timeline F}

omit [Arith F] in
theorem start (policy : PolicyDocument F) (now : ℤ) : Remembers policy (.start policy now) where
  policy_eq := rfl
  cfg := rfl
  changed := le_refl _
  active := ⟨le_refl _, le_refl _⟩
  pending h := by cases h
  migrated h := by cases h
  forgotten _ m h := by cases h

omit [Arith F] in
theorem migratedAt_le (h : Remembers policy s) {m : ℤ} (hm : s.migratedAt = some m) : m ≤ s.now := by
  cases hmig : s.decider.flap.haveMigrated with
  | true =>
    obtain ⟨hle, hlast⟩ := h.migrated hmig
    rwa [Option.some.inj (hm.symm.trans hlast)]
  | false => exact (h.forgotten hmig m hm).trans h.changed

omit [Arith F] in
theorem track (h : Remembers policy s) {now : ℤ} (hnow : s.now ≤ now) (b : String) :
    s.changedAt ≤ (s.decider.flap.track now b).pendingSince ∧ (s.decider.flap.track now b).pendingSince ≤ now := by
  rcases FlapGuard.track_cases s.decider.flap now b with ⟨hpending, -, htrack⟩ | hsince
  · rw [htrack]
    have := h.pending hpending
    omega
  · rw [hsince]
    have := h.changed
    omega

theorem decide (h : Remembers policy s) {t : Tick F} (hnow : s.now ≤ t.now) :
    Remembers policy (s.event (.decide t)) := by
  have hchanged : s.changedAt ≤ t.now := h.changed.trans hnow
  have hactive : s.decider.flap.activeSince ≤ t.now := h.active.2.trans hnow
  have hmigrated (hm : s.decider.flap.haveMigrated = true) :
      s.decider.flap.lastMigrationAt ≤ t.now ∧ s.migratedAt = some s.decider.flap.lastMigrationAt :=
    ⟨(h.migrated hm).1.trans hnow, (h.migrated hm).2⟩
  rcases s.decide_cases t with ⟨-, heq⟩ | ⟨-, heq⟩ | ⟨b, -, ⟨-, heq⟩ | ⟨-, heq⟩⟩
  · rw [heq]
    exact ⟨h.policy_eq, h.cfg, hchanged, ⟨h.active.1, hactive⟩,
      fun hp => ⟨(h.pending hp).1, (h.pending hp).2.trans hnow⟩, hmigrated, h.forgotten⟩
  · rw [heq]
    exact ⟨h.policy_eq, h.cfg, hchanged, ⟨h.active.1, hactive⟩, (fun hp => by cases hp), hmigrated, h.forgotten⟩
  · rw [heq]
    exact ⟨h.policy_eq, by simp [FlapGuard.commit, h.cfg], hchanged, ⟨hchanged, le_refl _⟩,
      (fun hp => by cases hp), fun _ => ⟨le_refl _, rfl⟩, fun hm => by cases hm⟩
  · rw [heq]
    refine ⟨h.policy_eq, by simp [h.cfg], hchanged, ?_, fun _ => h.track hnow b, fun hm => ?_, fun hm => ?_⟩
    · rw [FlapGuard.activeSince_track]
      exact ⟨h.active.1, hactive⟩
    · rw [FlapGuard.haveMigrated_track] at hm
      rw [FlapGuard.lastMigrationAt_track]
      exact hmigrated hm
    · rw [FlapGuard.haveMigrated_track] at hm
      exact h.forgotten hm

theorem adopt (h : Remembers policy s) {now : ℤ} (hnow : s.now ≤ now) : Remembers policy (s.event (.adopt now)) where
  policy_eq := h.policy_eq
  cfg := congrArg PolicyDocument.flapGuard h.policy_eq
  changed := le_refl _
  active := ⟨le_refl _, le_refl _⟩
  pending hp := by cases hp
  migrated hm := by cases hm
  forgotten _ _ hm := (h.migratedAt_le hm).trans hnow

theorem runs {now : ℤ} (run : Timeline.Runs (.start policy now) s) : Remembers policy s := by
  refine run.invariant (I := Remembers policy) ?_ (start policy now)
  intro s e s' h hnow step
  cases step
  cases e with
  | decide t => exact h.decide hnow
  | adopt now => exact h.adopt hnow

theorem migrates (h : Remembers policy s) {t : Tick F} (hnow : s.now ≤ t.now) (hmig : s.Migrates t) :
    policy.flapGuard.confirmationWindow.toInt ≤ t.now - s.changedAt ∧
      policy.flapGuard.minResidence.toInt ≤ t.now - s.changedAt ∧
      ∀ m, s.migratedAt = some m → m ≤ s.changedAt ∨ policy.flapGuard.cooldown.toInt ≤ t.now - m := by
  obtain ⟨b, -, ripe⟩ := (s.migrates_iff t).1 hmig
  obtain ⟨hconf, hres, hcool⟩ := ripe
  rw [FlapGuard.cfg_track, h.cfg] at hconf hres hcool
  rw [FlapGuard.activeSince_track] at hres
  rw [FlapGuard.haveMigrated_track, FlapGuard.lastMigrationAt_track] at hcool
  have hsince := h.track hnow b
  have hactive := h.active
  rw [Time.le_sub_iff hsince.2] at hconf
  rw [Time.le_sub_iff (hactive.2.trans hnow)] at hres
  refine ⟨by omega, by omega, fun m hm => ?_⟩
  cases hmigrated : s.decider.flap.haveMigrated with
  | false => exact Or.inl (h.forgotten hmigrated m hm)
  | true =>
    obtain ⟨hle, hlast⟩ := h.migrated hmigrated
    rw [Option.some.inj (hm.symm.trans hlast)]
    exact Or.inr ((Time.le_sub_iff (hle.trans hnow) _).1 (hcool hmigrated))

end Remembers

/-! ## Which policies space migrations -/

/-- No candidate ever qualifies. -/
def PolicyDocument.Idle (policy : PolicyDocument F) : Prop := ∀ t b, policy.report t ≠ some (true, b)

/-- How long after a change there is no migration. -/
def delay (cfg : FlapGuardConfig) : ℤ := max 0 (max cfg.minResidence.toInt cfg.confirmationWindow.toInt)

theorem ripe_iff_delay (cfg : FlapGuardConfig) (b : String) {since now : ℤ} (hnow : since ≤ now) :
    ((newFlapGuard cfg since).track since b).Ripe now ↔ delay cfg ≤ now - since := by
  unfold delay
  constructor
  · rintro ⟨hconf, hres, -⟩
    have hconf := (Time.le_sub_iff hnow cfg.confirmationWindow).1 hconf
    have hres := (Time.le_sub_iff hnow cfg.minResidence).1 hres
    omega
  · intro h
    refine ⟨?_, ?_, fun hm => by cases hm⟩
    · exact (Time.le_sub_iff hnow cfg.confirmationWindow).2 (by omega)
    · exact (Time.le_sub_iff hnow cfg.minResidence).2 (by omega)

variable {policy : PolicyDocument F}

theorem migrates_after_delay {s : Timeline F} (hpolicy : s.decider.policy = policy) {t : Tick F} {b : String}
    (hreport : policy.report t = some (true, b)) {since : ℤ}
    (hnew : s.decider.flap = newFlapGuard policy.flapGuard since) (hnow : s.now ≤ since) :
    ∃ s', Timeline.Runs s s' ∧ s'.now ≤ since + delay policy.flapGuard ∧
      s'.migratedAt = s.migratedAt ∧ s'.Migrates { t with now := since + delay policy.flapGuard } := by
  subst hpolicy
  have hdelay : 0 ≤ delay s.decider.policy.flapGuard := le_max_left _ _
  by_cases hzero : delay s.decider.policy.flapGuard = 0
  · refine ⟨s, Conc.Runs.refl, by omega, rfl, (s.migrates_iff _).2 ⟨b, hreport, ?_⟩⟩
    rw [hzero, add_zero, hnew, ripe_iff_delay _ _ (le_refl since)]
    omega
  -- the first tick starts the confirmation
  let first : Tick F := { t with now := since }
  have hwait : ¬ (s.decider.flap.track since b).Ripe since := by
    rw [hnew, ripe_iff_delay _ _ (le_refl since)]
    omega
  rcases s.decide_cases first with ⟨hr, -⟩ | ⟨⟨b', hr⟩, -⟩ | ⟨b', hr, ⟨hripe, -⟩ | ⟨-, heq⟩⟩
  · exact absurd (hreport.symm.trans hr) (by simp)
  · exact absurd (hreport.symm.trans hr) (by simp)
  · obtain rfl : b = b' := by simpa using hreport.symm.trans hr
    exact absurd hripe hwait
  · obtain rfl : b = b' := by simpa using hreport.symm.trans hr
    have run : Timeline.Runs s (s.event (.decide first)) := Conc.Runs.refl.tail (e := .decide first) hnow rfl
    rw [heq] at run
    refine ⟨_, run, ?_, rfl, (Timeline.migrates_iff _ _).2 ⟨b, hreport, ?_⟩⟩
    · dsimp only [first]
      omega
    · dsimp only [first]
      rw [FlapGuard.track_of_pending (by simp) (by simp), hnew, ripe_iff_delay _ _ (by omega)]
      omega

/-- Migrations are at least the cooldown apart. -/
def PolicyDocument.Spaced (policy : PolicyDocument F) : Prop :=
  ∀ now s, Timeline.Runs (.start policy now) s → ∀ t : Tick F, s.now ≤ t.now → s.Migrates t →
    ∀ m, s.migratedAt = some m → policy.flapGuard.cooldown.toInt ≤ t.now - m

theorem spaced_of_cooldown_le (h : policy.flapGuard.cooldown.toInt ≤ delay policy.flapGuard) : policy.Spaced := by
  intro now s run t hnow hmig m hm
  have remembers := Remembers.runs run
  obtain ⟨hconf, hres, hcool⟩ := remembers.migrates hnow hmig
  rcases hcool m hm with hle | hcool
  · have hchanged := remembers.changed
    unfold delay at h
    omega
  · exact hcool

theorem cooldown_le_of_spaced (spaced : policy.Spaced) {t : Tick F}
    {b : String} (hreport : policy.report t = some (true, b)) :
    policy.flapGuard.cooldown.toInt ≤ delay policy.flapGuard := by
  have hstart : (Timeline.start policy 0).decider.policy = policy := rfl
  obtain ⟨s₁, run₁, hnow₁, -, hmig₁⟩ := migrates_after_delay hstart hreport rfl (le_refl _)
  generalize hd : 0 + delay policy.flapGuard = d at hnow₁ hmig₁
  let s₂ := s₁.event (.decide { t with now := d })
  let s₃ := s₂.event (.adopt d)
  have run₂ : Timeline.Runs (.start policy 0) s₂ := run₁.tail (e := .decide { t with now := d }) hnow₁ rfl
  have run₃ : Timeline.Runs (.start policy 0) s₃ := run₂.tail (e := .adopt d) (le_refl d) rfl
  have hmigrated : s₃.migratedAt = some d := if_pos hmig₁
  have hpolicy : s₃.decider.policy = policy := (Remembers.runs run₃).policy_eq
  have hnew : s₃.decider.flap = newFlapGuard policy.flapGuard d := by rw [← hpolicy]; rfl
  obtain ⟨s₄, run₄, hnow₄, hmigrated₄, hmig₄⟩ := migrates_after_delay hpolicy hreport hnew (le_refl _)
  have hspace := spaced 0 s₄ (run₃.trans run₄) _ hnow₄ hmig₄ d (hmigrated₄.trans hmigrated)
  dsimp only at hspace
  omega

/-- A better-path migration comes at least the minimum residence after the last path change.  Two of them are always at
least the cooldown apart just under the policies whose cooldown is not longer than the delay of a new guard, and those
under which nothing ever qualifies. -/
theorem spacing_iff (policy : PolicyDocument F) :
    (∀ now s, Timeline.Runs (.start policy now) s → ∀ t : Tick F, s.now ≤ t.now → s.Migrates t →
      policy.flapGuard.minResidence.toInt ≤ t.now - s.changedAt) ∧
    ((∀ now s, Timeline.Runs (.start policy now) s → ∀ t : Tick F, s.now ≤ t.now → s.Migrates t →
        ∀ m, s.migratedAt = some m → policy.flapGuard.cooldown.toInt ≤ t.now - m) ↔
      policy.flapGuard.cooldown.toInt ≤
          max 0 (max policy.flapGuard.minResidence.toInt policy.flapGuard.confirmationWindow.toInt) ∨
        policy.Idle) := by
  refine ⟨fun now s run t hnow hmig => ((Remembers.runs run).migrates hnow hmig).2.1, ?_, ?_⟩
  · intro spaced
    by_cases hidle : policy.Idle
    · exact Or.inr hidle
    · unfold PolicyDocument.Idle at hidle
      push Not at hidle
      obtain ⟨t, b, hreport⟩ := hidle
      exact Or.inl (cooldown_le_of_spaced spaced hreport)
  · rintro (hle | hidle)
    · exact spaced_of_cooldown_le hle
    · intro now s run t hnow hmig
      obtain ⟨b, hreport, -⟩ := (s.migrates_iff t).1 hmig
      rw [(Remembers.runs run).policy_eq] at hreport
      exact absurd hreport (hidle t b)

namespace Sample

def slow : PolicyDocument Float := { defaultPolicyDocument with flapGuard.cooldown := .ofInt (60 * second) }

def faster (access other : String) (seconds : ℤ) : Tick Float where
  now := seconds * second
  access := access
  egress := "us"
  paths := [⟨access, "us", [steady 180000, steady 20000], true⟩, ⟨other, "us", [steady 30000, steady 20000], true⟩]
  currentDead := false

def flapping : List (Event Float) :=
  [.decide (faster "sg" "hk" 25), .decide (faster "sg" "hk" 30), .adopt (30 * second), .decide (faster "hk" "sg" 55)]

end Sample

open Sample

/-- The session moves back at second 60, half a cooldown after it moved away. -/
theorem cooldown_forgotten :
    let s := flapping.foldl Timeline.event (.start slow 0)
    let t := faster "hk" "sg" 60
    Timeline.Runs (.start slow 0) s ∧ s.now ≤ t.now ∧ s.Migrates t ∧ s.migratedAt = some (30 * second) ∧
      ¬ slow.flapGuard.cooldown.toInt ≤ t.now - 30 * second := by
  refine ⟨?_, by decide +kernel⟩
  exact (((Conc.Runs.refl.tail (e := .decide (faster "sg" "hk" 25)) (by decide +kernel) rfl).tail
    (e := .decide (faster "sg" "hk" 30)) (by decide +kernel) rfl).tail
    (e := .adopt (30 * second)) (by decide +kernel) rfl).tail
    (e := .decide (faster "hk" "sg" 55)) (by decide +kernel) rfl

end Egressa.Client
