import Egressa.Client.Decide
import Egressa.Conc.Machine

/-!
# Continuous confirmation

A better-path migration is to a candidate that has qualified in every tick of a confirmation window.  A tick in which
the current path is dead reports nothing, so that a window that was open stays open across it.
-/

namespace Egressa.Client

open Measurement

variable {F : Type} [Arith F]

/-- A decider with the decisions asked of it. -/
structure Trace (F : Type) where
  decider : Decider F
  ticks : List (Tick F)

namespace Trace

def start (policy : PolicyDocument F) (now : ℤ) : Trace F := ⟨newDecider policy now, []⟩

def tick (s : Trace F) (t : Tick F) : Trace F := ⟨(s.decider.decide t).2, s.ticks ++ [t]⟩

/-- The clock does not go back. -/
def Timely (s : Trace F) (t : Tick F) : Prop := ∀ u ∈ s.ticks, u.now ≤ t.now

/-- A dead access gateway is met while nothing is being confirmed. -/
def Attended (s : Trace F) (t : Tick F) : Prop := t.currentDead = true → s.decider.flap.havePending = false

instance (s : Trace F) (t : Tick F) : Decidable (s.Timely t) :=
  inferInstanceAs (Decidable (∀ u ∈ s.ticks, u.now ≤ t.now))

instance (s : Trace F) (t : Tick F) : Decidable (s.Attended t) :=
  inferInstanceAs (Decidable (t.currentDead = true → s.decider.flap.havePending = false))

abbrev Runs : Trace F → Trace F → Prop := Conc.Runs (fun s t => some (s.tick t)) fun s t => s.Timely t ∧ s.Attended t

end Trace

/-- The last of these ticks, from one at `since` on, all report the candidate `b`. -/
def ReportedSince (policy : PolicyDocument F) (ticks : List (Tick F)) (since : ℤ) (b : String) : Prop :=
  ∃ early first late, ticks = early ++ first :: late ∧ first.now = since ∧
    ∀ u ∈ first :: late, policy.report u = some (true, b)

theorem ReportedSince.concat {policy : PolicyDocument F} {ticks : List (Tick F)} {since : ℤ} {b : String}
    (h : ReportedSince policy ticks since b) {t : Tick F} (ht : policy.report t = some (true, b)) :
    ReportedSince policy (ticks ++ [t]) since b := by
  obtain ⟨early, first, late, rfl, hfirst, hall⟩ := h
  exact ⟨early, first, late ++ [t], by simp, hfirst,
    List.forall_mem_append.2 ⟨hall, List.forall_mem_singleton.2 ht⟩⟩

/-- What the guard remembers of the ticks so far. -/
structure Confirming (policy : PolicyDocument F) (s : Trace F) : Prop where
  policy_eq : s.decider.policy = policy
  cfg : s.decider.flap.cfg = policy.flapGuard
  pending : s.decider.flap.havePending = true →
    ReportedSince policy s.ticks s.decider.flap.pendingSince s.decider.flap.pendingCandidate

namespace Confirming

variable {policy : PolicyDocument F} {s : Trace F} {t : Tick F}

theorem start (policy : PolicyDocument F) (now : ℤ) : Confirming policy (.start policy now) :=
  ⟨rfl, rfl, fun h => by cases h⟩

theorem track (h : Confirming policy s) {b : String} (ht : policy.report t = some (true, b)) :
    ReportedSince policy (s.ticks ++ [t]) (s.decider.flap.track t.now b).pendingSince b := by
  rcases FlapGuard.track_cases s.decider.flap t.now b with ⟨hpending, hb, htrack⟩ | hnow
  · rw [htrack, ← hb]
    rw [← hb] at ht
    exact (h.pending hpending).concat ht
  · rw [hnow]
    exact ⟨s.ticks, t, [], rfl, rfl, by simpa using ht⟩

theorem tick (h : Confirming policy s) (attended : s.Attended t) : Confirming policy (s.tick t) := by
  have hpolicy : (s.tick t).decider.policy = policy := (s.decider.policy_decide t).trans h.policy_eq
  have hflap : (s.tick t).decider.flap = _ := s.decider.flap_decide t
  rw [h.policy_eq] at hflap
  refine ⟨hpolicy, ?_, ?_⟩
  · rw [hflap]
    cases policy.report t with
    | none => exact h.cfg
    | some r => exact FlapGuard.cfg_evaluate _ |>.trans h.cfg
  · rw [hflap]
    cases hr : policy.report t with
    | none =>
      -- only a dead tick reports nothing
      have hdead : t.currentDead = true := by
        by_contra hlive
        unfold PolicyDocument.report at hr
        cases hn : policy.nominee t <;> simp [hlive, hn] at hr
      intro hpending
      exact absurd (hpending.symm.trans (attended hdead)) (by decide)
    | some r =>
      obtain ⟨qualifies, b⟩ := r
      dsimp only
      cases qualifies with
      | false =>
        intro hpending
        cases hpending
      | true =>
        by_cases hripe : (s.decider.flap.track t.now b).Ripe t.now
        · rw [FlapGuard.evaluate_of_ripe hripe]
          intro hpending
          cases hpending
        · rw [FlapGuard.evaluate_of_not_ripe hripe]
          intro _
          rw [FlapGuard.pendingCandidate_track]
          exact h.track hr

theorem runs {now : ℤ} (run : Trace.Runs (.start policy now) s) : Confirming policy s :=
  run.invariant (fun _ _ _ h attended step => by
      cases step
      exact h.tick attended.2)
    (start policy now)

end Confirming

/-- A better-path migration to `b` ends a confirmation window in which the current path was never dead and `b` always
qualified as the best candidate, if no candidate was pending when the path was dead. -/
theorem continuous_confirmation {policy : PolicyDocument F} {now : ℤ} {s : Trace F}
    (run : Trace.Runs (.start policy now) s) {t : Tick F} (timely : s.Timely t) {b : String}
    (migrates : (s.decider.decide t).1.BetterPath b) :
    ∃ early first late, s.ticks ++ [t] = early ++ first :: late ∧
      policy.flapGuard.confirmationWindow.toInt ≤ t.now - first.now ∧
      ∀ u ∈ first :: late, u.currentDead = false ∧ ∃ p, policy.nominee u = some p ∧ p.access = b := by
  have confirming := Confirming.runs run
  obtain ⟨hreport, happroved⟩ := (s.decider.betterPath_iff t b).1 migrates
  rw [confirming.policy_eq] at hreport
  have hripe : (s.decider.flap.track t.now b).Ripe t.now := by
    by_contra hripe
    rw [FlapGuard.evaluate_of_not_ripe hripe] at happroved
    cases happroved
  have hwindow := hripe.confirmed
  rw [FlapGuard.cfg_track, confirming.cfg] at hwindow
  obtain ⟨early, first, late, hticks, hsince, hall⟩ := confirming.track hreport
  rw [← hsince] at hwindow
  have hle : first.now ≤ t.now := by
    have hmem : first ∈ s.ticks ++ [t] := by simp [hticks]
    rcases List.mem_append.1 hmem with hmem | hmem
    · exact timely first hmem
    · rw [List.mem_singleton.1 hmem]
  exact ⟨early, first, late, hticks, (Time.le_sub_iff hle _).1 hwindow,
    fun u hu => PolicyDocument.nominee_of_report (hall u hu)⟩

namespace Sample

def steady (micros : Float) : SegmentStats Float := ⟨micros, micros, 0, 0, 30, 1⟩

def atSg (seconds : ℤ) (dead hkReachable : Bool) : Tick Float where
  now := seconds * second
  access := "sg"
  egress := "sg"
  paths := [⟨"sg", "sg", [steady 180000], !dead⟩, ⟨"hk", "sg", [steady 30000, steady 20000], hkReachable⟩]
  currentDead := dead

def trace (ticks : List (Tick Float)) : Trace Float := ticks.foldl Trace.tick (.start defaultPolicyDocument 0)

end Sample

open Sample

instance (dec : Decision F) (access : String) : Decidable (dec.BetterPath access) :=
  inferInstanceAs (Decidable (_ ∧ _ ∧ _))

theorem continuous_confirmation_default :
    let s := trace [atSg 30 false true, atSg 32 false true]
    (s.decider.decide (atSg 35 false true)).1.BetterPath "hk" ∧
    ∃ early first late, s.ticks ++ [atSg 35 false true] = early ++ first :: late ∧
      (5 * second : ℤ) ≤ 35 * second - first.now ∧
      ∀ u ∈ first :: late, u.currentDead = false ∧
        ∃ p, defaultPolicyDocument.nominee u = some p ∧ p.access = "hk" := by
  intro s
  have run : Trace.Runs (.start defaultPolicyDocument 0) s :=
    (Conc.Runs.refl.tail (e := atSg 30 false true) ⟨by decide, by decide⟩ rfl).tail
      (e := atSg 32 false true) ⟨by decide +kernel, by decide +kernel⟩ rfl
  have migrates : (s.decider.decide (atSg 35 false true)).1.BetterPath "hk" := by
    decide +kernel
  exact ⟨migrates, continuous_confirmation run (by decide +kernel) migrates⟩

/-- `hk` is confirmed at second 35, although the path was dead at second 33 and `hk` did not answer
then. -/
theorem confirmed_across_dead_tick :
    let s := trace [atSg 30 false true, atSg 33 true false]
    let t := atSg 35 false true
    (s.decider.decide t).1.BetterPath "hk" ∧
    ¬ ∃ early first late, s.ticks ++ [t] = early ++ first :: late ∧
      defaultPolicyDocument.flapGuard.confirmationWindow.toInt ≤ t.now - first.now ∧
      ∀ u ∈ first :: late, u.currentDead = false ∧
        ∃ p, defaultPolicyDocument.nominee u = some p ∧ p.access = "hk" := by
  intro s t
  refine ⟨by decide +kernel, ?_⟩
  rintro ⟨early, first, late, hticks, hwindow, hall⟩
  have hticks : [atSg 30 false true, atSg 33 true false, t] = early ++ first :: late := hticks
  rcases early with _ | ⟨_, _ | ⟨_, _ | ⟨_, _⟩⟩⟩
  · cases hticks
    exact absurd (hall (atSg 33 true false) (by simp)).1 (by decide)
  · obtain ⟨-, hticks⟩ := List.cons.inj hticks
    cases hticks
    exact absurd (hall (atSg 33 true false) (by simp)).1 (by decide)
  · obtain ⟨-, hticks⟩ := List.cons.inj hticks
    obtain ⟨-, hticks⟩ := List.cons.inj hticks
    cases hticks
    exact absurd hwindow (by decide)
  · simp at hticks

end Egressa.Client
