import Egressa.Client.Decide
import Egressa.Maps
import Egressa.Records

/-!
# The paths a client could use

`Agent.paths` (`internal/client/agent.go`) lists a path through each access gateway the client can enter through, to
each egress gateway that is alive or in use.  The age of a measurement is left out.
-/

namespace Egressa.Client

open Measurement Maps

variable {F : Type} [Arith F]

/-- `api.Link`: what a gateway has measured of its link to another one. -/
structure Link (F : Type) where
  src : String
  dst : String
  stats : SegmentStats F
  staleness : Duration

def maxLinkStaleness : Duration := .ofInt (10 * second)

/-- What `Monitor.Stats` answers: the statistics, the time of the last reply, and whether the target is
known. -/
structure Probed (F : Type) where
  stats : SegmentStats F
  lastReply : ℤ
  known : Bool

/-- What the paths of a client depend on. -/
structure AgentConfig where
  backend : String
  deadAfter : Duration

def AgentConfig.usableAccess (cfg : AgentConfig) (g : Gateway) : Bool :=
  g.roles.has roleAccess && (cfg.backend != backendIPsec || g.ipsec)

/-- What the agent has heard from the controller. -/
structure Knowledge (F : Type) where
  session : Session
  since : ℤ
  gateways : List Gateway
  links : Map (String × String) (Link F)

/-- The last report on each link. -/
def linkMap (links : List (Link F)) : Map (String × String) (Link F) :=
  collect (fun l => some ((l.src, l.dst), l)) links

/-- A segment without measurements. -/
def unmeasured : SegmentStats F := ⟨0, 0, 0, 0, 0, 0⟩

namespace Knowledge

-- `decay` is how much confidence is left in a measurement of this age: `2^(-staleness/halfLife)`
variable (decay : Duration → F) (cfg : AgentConfig) (probe : String → Probed F) (now : ℤ) (k : Knowledge F)

/-- The gateway has replied of late. -/
def reachable (acc : Gateway) : Bool :=
  (probe acc.id).known && decide (0 < (probe acc.id).stats.n) &&
    decide (Time.sub now (probe acc.id).lastReply ≤ cfg.deadAfter.toInt)

/-- No reply for long, and the session has been there for long. -/
def accessDead (acc : Gateway) : Bool :=
  let last := if (probe acc.id).lastReply < k.since then k.since else (probe acc.id).lastReply
  decide (cfg.deadAfter.toInt < Time.sub now last)

/-- The path over an access gateway to an egress. -/
def path (acc eg : Gateway) : Path F :=
  if acc.id = eg.id then ⟨acc.id, eg.id, [(probe acc.id).stats], reachable cfg probe now acc⟩
  else match k.links.lookup (acc.id, eg.id) with
    | none => ⟨acc.id, eg.id, [(probe acc.id).stats, unmeasured], false⟩
    | some l =>
      if maxLinkStaleness < l.staleness then
        ⟨acc.id, eg.id, [(probe acc.id).stats, unmeasured], false⟩
      else
        let stats := { l.stats with confidence := l.stats.confidence * decay l.staleness }
        ⟨acc.id, eg.id, [(probe acc.id).stats, stats], reachable cfg probe now acc⟩

/-- The egresses in question. -/
def egresses : List Gateway :=
  k.gateways.filter fun eg => eg.roles.has roleEgress && (eg.alive || eg.id == k.session.egress)

/-- One turn of the loop over the access gateways. -/
def through (s : List (Path F) × Bool) (acc : Gateway) : List (Path F) × Bool :=
  if !cfg.usableAccess acc then s
  else
    (s.1 ++ k.egresses.map (k.path decay cfg probe now acc),
      if acc.id = k.session.access then k.accessDead cfg probe now acc else s.2)

/-- All paths, and whether the access gateway is dead. -/
def paths : List (Path F) × Bool := k.gateways.foldl (k.through decay cfg probe now) ([], false)

variable {decay cfg probe now k}

theorem path_reachable {acc eg : Gateway} (h : (k.path decay cfg probe now acc eg).reachable = true) :
    reachable cfg probe now acc = true := by
  unfold path at h
  split_ifs at h
  · exact h
  · cases hl : k.links.lookup (acc.id, eg.id) with
    | none => simp [hl] at h
    | some l =>
      simp only [hl] at h
      split_ifs at h
      exact h

theorem path_access (acc eg : Gateway) : (k.path decay cfg probe now acc eg).access = acc.id := by
  unfold path
  split_ifs
  · rfl
  · cases k.links.lookup (acc.id, eg.id) with
    | none => rfl
    | some l =>
      dsimp only
      split_ifs <;> rfl

/-- The access of a usable path has answered lately; that of the path in use, if it is said to be dead, has not for
long. -/
structure Judged (cfg : AgentConfig) (probe : String → Probed F) (now : ℤ) (k : Knowledge F)
    (s : List (Path F) × Bool) : Prop where
  paths : ∀ p ∈ s.1, p.reachable = true → Time.sub now (probe p.access).lastReply ≤ cfg.deadAfter.toInt
  dead : s.2 = true → cfg.deadAfter.toInt < Time.sub now (max (probe k.session.access).lastReply k.since)

theorem Judged.through {s : List (Path F) × Bool} (h : Judged cfg probe now k s) (acc : Gateway) :
    Judged cfg probe now k (k.through decay cfg probe now s acc) := by
  unfold Knowledge.through
  by_cases husable : (!cfg.usableAccess acc) = true
  · rwa [if_pos husable]
  rw [if_neg husable]
  refine ⟨fun p hp hreach => ?_, ?_⟩
  · rcases List.mem_append.1 hp with hp | hp
    · exact h.paths p hp hreach
    · obtain ⟨eg, -, rfl⟩ := List.mem_map.1 hp
      have := path_reachable hreach
      unfold reachable at this
      simp only [Bool.and_eq_true, decide_eq_true_eq] at this
      rw [path_access]
      exact this.2
  · dsimp only
    by_cases hacc : acc.id = k.session.access
    · rw [if_pos hacc, accessDead, hacc]
      simp only [decide_eq_true_eq]
      intro hlate
      split_ifs at hlate with hlast
      · rwa [max_eq_right hlast.le]
      · rwa [max_eq_left (not_lt.1 hlast)]
    · rw [if_neg hacc]
      exact h.dead

theorem judged_paths : Judged cfg probe now k (k.paths decay cfg probe now) := by
  unfold paths
  refine List.foldlRecOn k.gateways _ ?_ fun s h acc _ => h.through acc
  exact ⟨fun _ hp => (by cases hp), fun h => (by cases h)⟩

theorem unreachable_of_dead (h : (k.paths decay cfg probe now).2 = true) {p : Path F}
    (hp : p ∈ (k.paths decay cfg probe now).1) (hacc : p.access = k.session.access) :
    p.reachable = false := by
  rw [Bool.eq_false_iff]
  intro hreach
  have hlate := judged_paths.paths p hp hreach
  have hsilent := judged_paths.dead h
  rw [hacc] at hlate
  unfold Time.sub at hlate hsilent
  omega

/-- The input of a decision. -/
def tick (k : Knowledge F) (decay : Duration → F) (cfg : AgentConfig) (probe : String → Probed F)
    (now : ℤ) : Tick F where
  now := now
  access := k.session.access
  egress := k.session.egress
  paths := (k.paths decay cfg probe now).1
  currentDead := (k.paths decay cfg probe now).2

end Knowledge

end Egressa.Client
