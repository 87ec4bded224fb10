import Egressa.Conc.Length
import Egressa.Conc.Machine
import Egressa.Measurement.Prober
import Egressa.Pathmon
import Egressa.Pathmon.Window

/-!
# Counting probes

The goroutines of a `Monitor` (`internal/pathmon/monitor.go`) tick, receive and set targets; a step is what one of
them holds a lock for.  Targets are shared by reference and stay in a heap, with what their windows were told of which
probe.  A probe is with a goroutine, waited for, or told to the window, and never at two of these places.
-/

namespace Egressa.Pathmon.Probing

open Conc Maps Measurement
open Function (update update_of_ne update_self forall_update_iff)

/-- A target; `window` tells which probe a sample is of. -/
structure Target where
  index : UInt32
  addr : AddrPort
  prober : Prober
  sent : Map UInt32 ℤ
  lastReply : ℤ
  window : List (UInt32 × Recorded)

namespace Target

def new (index : UInt32) (addr : AddrPort) : Target := ⟨index, addr, .new, ∅, zeroTime, []⟩

/-- One turn of `expire`. -/
def lose (timeout : Duration) (now : ℤ) (t : Target) (e : Entry UInt32 ℤ) : Target :=
  if timeout.toInt ≤ Time.sub now e.2 then
    { t with sent := t.sent.erase e.1, window := t.window ++ [(e.1, ⟨now, none⟩)] }
  else t

def expire (t : Target) (timeout : Duration) (now : ℤ) : Target := t.sent.entries.foldl (lose timeout now) t

end Target

/-- `Monitor`, its targets on a heap: a loop may hold one that has gone. -/
structure Monitor where
  /-- How many targets there have been. -/
  count : ℕ
  heap : ℕ → Target
  targets : Map String ℕ
  byIndex : Map UInt32 ℕ
  nextIndex : UInt32
  budget : ProbeBudget

namespace Monitor

def new (budget : ProbeBudget) : Monitor := ⟨0, fun _ => .new 0 (.zero, 0), ∅, ∅, 0, budget⟩

def drop (addrs : Map String AddrPort) (m : Monitor) (e : Entry String ℕ) : Monitor :=
  if addrs.lookup e.1 = some (m.heap e.2).addr then m
  else { m with targets := m.targets.erase e.1, byIndex := m.byIndex.erase (m.heap e.2).index }

/-- The second loop of `Set`.  The configuration is valid here, so that `NewProber` makes a prober. -/
def add (m : Monitor) (e : Entry String AddrPort) : Monitor :=
  if e.1 ∈ m.targets then m
  else { m with
    count := m.count + 1
    heap := update m.heap m.count (.new m.nextIndex e.2)
    targets := m.targets.insert e.1 m.count
    byIndex := m.byIndex.insert m.nextIndex m.count
    nextIndex := m.nextIndex + 1 }

def set (m : Monitor) (addrs : Map String AddrPort) : Monitor :=
  addrs.entries.foldl add (m.targets.entries.foldl (drop addrs) m)

/-- `tick`, as far as it holds the lock. -/
def tick (m : Monitor) (timeout : Duration) (now : ℤ) : Monitor :=
  { m with heap := fun i => if i ∈ values m.targets then (m.heap i).expire timeout now else m.heap i }

/-- `receive`, as far as it holds the lock, with the target and the time its probe took. -/
def receive (m : Monitor) (now : ℤ) (index id : UInt32) : Option (ℕ × Target × Duration) := do
  let i ← m.byIndex.lookup index
  let t := m.heap i
  let sentAt ← t.sent.lookup id
  some (i, { t with sent := t.sent.erase id, lastReply := now }, .ofInt (Time.sub now sentAt))

end Monitor

/-- Where a goroutine of the monitor is. -/
inductive Stage
  | idle
  | expiring (i : ℕ) (ts : List ℕ)
  | probing (i : ℕ) (ts : List ℕ)
  | sending (i : ℕ) (id : UInt32) (ts : List ℕ)
  | observing (i : ℕ) (id : UInt32) (rtt : Duration)
  | replying (i : ℕ) (id : UInt32)
  deriving DecidableEq

def Stage.loop : List ℕ → Stage
  | [] => idle
  | i :: ts => expiring i ts

/-- A step of a goroutine that is not idle: the target it works on, and what becomes of it. -/
def work (cfg : ProberConfig) (m : Monitor) (now paid : ℤ) : Stage → Option (ℕ × Target × ProbeBudget × Stage)
  | .idle => none
  | .expiring i ts =>
    let t := m.heap i
    some (i, { t with prober := t.prober.expireTimeouts cfg.timeout now }, m.budget, .probing i ts)
  | .probing i ts =>
    let t := m.heap i
    let (id?, p, b) := t.prober.maybeProbe cfg m.budget now paid
    some (i, { t with prober := p }, b, id?.elim (.loop ts) (.sending i · ts))
  | .sending i id ts =>
    let t := m.heap i
    some (i, { t with sent := t.sent.insert id now }, m.budget, .loop ts)
  | .observing i id rtt =>
    let t := m.heap i
    some (i, { t with window := t.window ++ [(id, ⟨now, some rtt⟩)] }, m.budget, .replying i id)
  | .replying i id =>
    let t := m.heap i
    some (i, { t with prober := t.prober.onReply id }, m.budget, .idle)

/-- A call begins, or a goroutine goes on. -/
inductive Act
  | set (addrs : Map String AddrPort)
  | tick (now : ℤ) (ts : List ℕ)
  | datagram (now : ℤ) (index id : UInt32)
  | next (now paid : ℤ)

/-- The monitor and its goroutines. -/
structure State (ι : Type) where
  mon : Monitor
  stage : ι → Stage

variable {ι : Type} [DecidableEq ι]

namespace State

def new (budget : ProbeBudget) : State ι := ⟨.new budget, fun _ => .idle⟩

def turn (s : State ι) (j : ι) (i : ℕ) (t : Target) (b : ProbeBudget) (st : Stage) : State ι :=
  ⟨{ s.mon with heap := update s.mon.heap i t, budget := b }, update s.stage j st⟩

/-- One critical section. -/
def step? (cfg : ProberConfig) (s : State ι) : ι × Act → Option (State ι)
  | (j, .set addrs) => if s.stage j = .idle then some { s with mon := s.mon.set addrs } else none
  | (j, .tick now ts) =>
    -- the range over the targets is in any order
    if s.stage j = .idle ∧ ts.Perm (values s.mon.targets) then
      some ⟨s.mon.tick cfg.timeout now, update s.stage j (.loop ts)⟩
    else none
  | (j, .datagram now index id) =>
    if s.stage j = .idle then
      match s.mon.receive now index id with
      | none => some s
      | some (i, t, rtt) => some (s.turn j i t s.mon.budget (.observing i id rtt))
    else none
  | (j, .next now paid) => (work cfg s.mon now paid (s.stage j)).map fun (i, t, b, st) => s.turn j i t b st

end State

/-! ## Where a probe is -/

namespace Stage

/-- Whether the goroutine has a probe in hand. -/
def holds (i : ℕ) (id : UInt32) : Stage → ℕ
  | sending i' id' _ | observing i' id' _ => if i' = i ∧ id' = id then 1 else 0
  | _ => 0

def ahead : Stage → List ℕ
  | idle => []
  | expiring i ts | probing i ts | sending i _ ts => i :: ts
  | observing i _ _ | replying i _ => [i]

@[simp] theorem ahead_loop (ts : List ℕ) : (loop ts).ahead = ts := by cases ts <;> rfl

@[simp] theorem holds_loop (ts : List ℕ) (i : ℕ) (id : UInt32) : (loop ts).holds i id = 0 := by cases ts <;> rfl

end Stage

namespace Target

/-- How often a target counts a probe. -/
def holds (t : Target) (id : UInt32) : ℕ := (if id ∈ t.sent then 1 else 0) + t.window.countP (·.1 = id)

def drawn (t : Target) (id : UInt32) : ℕ := if id.toNat < t.prober.sent then 1 else 0

def books (t : Target) : Prober × (UInt32 → ℕ) := (t.prober, t.holds)

variable {t : Target}

theorem holds_told (t : Target) (id : UInt32) (r : Recorded) (id' : UInt32) :
    { t with window := t.window ++ [(id, r)] }.holds id' = t.holds id' + if id = id' then 1 else 0 := by
  simp [holds, List.countP_append, List.countP_singleton, Nat.add_assoc]

theorem holds_taken {id : UInt32} (here : id ∈ t.sent) (now : ℤ) (id' : UInt32) :
    { t with sent := t.sent.erase id, lastReply := now }.holds id' + (if id = id' then 1 else 0) = t.holds id' := by
  unfold holds
  by_cases h : id = id'
  · subst h
    simp [here, Nat.add_comm]
  · simp [h, Ne.symm h]

theorem holds_sent {id : UInt32} (fresh : id ∉ t.sent) (now : ℤ) (id' : UInt32) :
    { t with sent := t.sent.insert id now }.holds id' = t.holds id' + if id = id' then 1 else 0 := by
  unfold holds
  by_cases h : id = id'
  · subst h
    simp [fresh, Nat.add_comm]
  · simp [h, Ne.symm h]

theorem books_expire (t : Target) (timeout : Duration) (now : ℤ) :
    (t.expire timeout now).books = t.books ∧ (t.expire timeout now).index = t.index := by
  have sweeps : Sweeps Target.sent (fun e => ¬ timeout.toInt ≤ Time.sub now e.2) (lose timeout now) :=
    { kept := fun t e h => by rw [lose, if_neg h]
      dropped := fun t e h => by rw [lose, if_pos (not_not.1 h)] }
  refine (sweeps.foldl (P := fun u => u.books = t.books ∧ u.index = t.index) ?_ (.refl _) ⟨rfl, rfl⟩).1
  rintro u e here ⟨books, index⟩
  unfold lose
  split_ifs
  · refine ⟨books ▸ Prod.ext rfl (funext fun id => ?_), index⟩
    have told := holds_told { u with sent := u.sent.erase e.1 } e.1 ⟨now, none⟩ id
    exact told.trans (holds_taken (mem_of_lookup here) u.lastReply id)
  · exact ⟨books, index⟩

end Target

namespace Monitor

structure Sound (m : Monitor) : Prop where
  fresh : ∀ i, m.count ≤ i → m.heap i = .new 0 (.zero, 0)
  next : m.nextIndex = .ofNat m.count
  index : ∀ i < m.count, (m.heap i).index = .ofNat i
  found : ∀ k i, m.byIndex.lookup k = some i → i < m.count ∧ (m.heap i).index = k
  named : ∀ n i, m.targets.lookup n = some i → i < m.count

structure Keeps (m m' : Monitor) : Prop where
  sound : m'.Sound
  more : m.count ≤ m'.count
  books : ∀ i, (m'.heap i).books = (m.heap i).books

namespace Sound

variable {m : Monitor}

theorem heap (h : m.Sound) {f : ℕ → Target} (b : ProbeBudget) (index : ∀ i, (f i).index = (m.heap i).index)
    (fresh : ∀ i, m.count ≤ i → f i = m.heap i) : Sound { m with heap := f, budget := b } where
  fresh i hi := (fresh i hi).trans (h.fresh i hi)
  next := h.next
  index i hi := (index i).trans (h.index i hi)
  found k i hk := ⟨(h.found k i hk).1, (index i).trans (h.found k i hk).2⟩
  named := h.named

theorem inj (h : m.Sound) (few : m.count ≤ 2 ^ 32) {i i' : ℕ} (hi : i < m.count) (hi' : i' < m.count)
    (same : (m.heap i').index = (m.heap i).index) : i' = i := by
  rw [h.index i hi, h.index i' hi', ← UInt32.toNat_inj, UInt32.toNat_ofNat_of_lt' (hi'.trans_le few),
    UInt32.toNat_ofNat_of_lt' (hi.trans_le few)] at same
  exact same

theorem tick (h : m.Sound) (timeout : Duration) (now : ℤ) : m.Keeps (m.tick timeout now) := by
  have aged : ∀ i, ((m.tick timeout now).heap i).books = (m.heap i).books ∧
      ((m.tick timeout now).heap i).index = (m.heap i).index := fun i => by
    unfold Monitor.tick
    dsimp only
    split_ifs
    · exact (m.heap i).books_expire timeout now
    · exact ⟨rfl, rfl⟩
  refine ⟨h.heap m.budget (fun i => (aged i).2) fun i hi => if_neg fun here => ?_, le_rfl, fun i => (aged i).1⟩
  obtain ⟨n, hn⟩ := mem_values.1 here
  exact (h.named n i hn).not_ge hi

theorem drop (h : m.Sound) (addrs : Map String AddrPort) (e : Entry String ℕ) : m.Keeps (m.drop addrs e) := by
  unfold Monitor.drop
  split_ifs
  · exact ⟨h, le_rfl, fun _ => rfl⟩
  · exact ⟨{ h with
      found := fun k i hk => h.found k i (sub_erase _ _ k i hk)
      named := fun n i hn => h.named n i (sub_erase _ _ n i hn) }, le_rfl, fun _ => rfl⟩

theorem add (h : m.Sound) (e : Entry String AddrPort) : m.Keeps (m.add e) := by
  unfold Monitor.add
  split_ifs
  · exact ⟨h, le_rfl, fun _ => rfl⟩
  have older : ∀ i < m.count, update m.heap m.count (.new m.nextIndex e.2) i = m.heap i :=
    fun i hi => update_of_ne hi.ne _ _
  refine ⟨⟨fun i hi => ?_, ?_, fun i hi => ?_, fun k i hk => ?_, fun n i hn => ?_⟩, Nat.le_succ _, ?_⟩
  · exact (update_of_ne (Nat.lt_of_succ_le hi).ne' _ _).trans (h.fresh i (Nat.le_of_succ_le hi))
  · rw [h.next, UInt32.ofNat_add]
    rfl
  · rcases Nat.lt_succ_iff_lt_or_eq.1 hi with hi | rfl
    · exact (congrArg Target.index (older i hi)).trans (h.index i hi)
    · exact (congrArg Target.index (update_self _ _ _)).trans h.next
  · rw [lookup_insert_eq] at hk
    split_ifs at hk with same
    · cases hk
      exact ⟨Nat.lt_succ_self _, (congrArg Target.index (update_self _ _ _)).trans same.symm⟩
    · obtain ⟨hi, index⟩ := h.found k i hk
      exact ⟨Nat.lt_succ_of_lt hi, (congrArg Target.index (older i hi)).trans index⟩
  · rw [lookup_insert_eq] at hn
    split_ifs at hn
    · cases hn
      exact Nat.lt_succ_self _
    · exact Nat.lt_succ_of_lt (h.named n i hn)
  · refine (forall_update_iff m.heap fun i t => t.books = (m.heap i).books).2 ⟨?_, fun _ _ => rfl⟩
    rw [h.fresh _ le_rfl]
    rfl

theorem foldl {β : Type} {f : Monitor → β → Monitor} (step : ∀ m b, Sound m → m.Keeps (f m b)) (h : m.Sound)
    (l : List β) : m.Keeps (l.foldl f m) := by
  refine List.foldlRecOn (motive := m.Keeps) l f ⟨h, le_rfl, fun _ => rfl⟩ fun m' hm' b _ => ?_
  obtain ⟨sound, more, books⟩ := step m' b hm'.sound
  exact ⟨sound, hm'.more.trans more, fun i => (books i).trans (hm'.books i)⟩

end Sound

end Monitor

namespace State

/-- No target has had as many probes as there are IDs. -/
abbrev Few (s : State ι) : Prop := ∀ i < s.mon.count, (s.mon.heap i).prober.sent < 2 ^ 32

variable [Fintype ι] {s : State ι}

/-- The invariant of the monitor and its goroutines. -/
structure Sound (s : State ι) : Prop where
  mon : s.mon.Sound
  ahead : ∀ j, ∀ i ∈ (s.stage j).ahead, i < s.mon.count
  balanced : ∀ i, (s.mon.heap i).prober.Balanced
  counted : ∀ i id, ∑ j, (s.stage j).holds i id + (s.mon.heap i).holds id = (s.mon.heap i).drawn id

namespace Sound

omit [DecidableEq ι] in
theorem once (h : s.Sound) (j : ι) (i : ℕ) (id : UInt32) :
    (s.stage j).holds i id + (s.mon.heap i).holds id ≤ 1 := by
  have one := Finset.single_le_sum (f := fun j => (s.stage j).holds i id) (fun _ _ => Nat.zero_le _) (Finset.mem_univ j)
  have all := h.counted i id
  have drawn : (s.mon.heap i).drawn id ≤ 1 := by
    unfold Target.drawn
    split_ifs <;> omega
  omega

omit [DecidableEq ι] in
theorem keeps (h : s.Sound) {m : Monitor} (keeps : s.mon.Keeps m) : Sound { s with mon := m } where
  mon := keeps.sound
  ahead j i hi := (h.ahead j i hi).trans_le keeps.more
  balanced i := by
    rw [(Prod.mk.inj (keeps.books i)).1]
    exact h.balanced i
  counted i id := by
    obtain ⟨prober, holds⟩ := Prod.mk.inj (keeps.books i)
    rw [holds, Target.drawn, prober]
    exact h.counted i id

variable {j : ι} {st₀ st : Stage}

theorem turn {i : ℕ} {t : Target} (h : s.Sound) (hst : s.stage j = st₀) (b : ProbeBudget) (here : i < s.mon.count)
    (index : t.index = (s.mon.heap i).index) (ahead : ∀ i ∈ st.ahead, i < s.mon.count) (balanced : t.prober.Balanced)
    (others : ∀ i' id, i' ≠ i → st.holds i' id = st₀.holds i' id)
    (counted : ∀ id, st.holds i id + t.holds id + (s.mon.heap i).drawn id =
      st₀.holds i id + (s.mon.heap i).holds id + t.drawn id) : Sound (s.turn j i t b st) where
  mon := by
    refine h.mon.heap b ?_ fun i' hi' => update_of_ne (here.trans_le hi').ne' _ _
    exact (forall_update_iff s.mon.heap fun i' t => t.index = (s.mon.heap i').index).2 ⟨index, fun _ _ => rfl⟩
  ahead := (forall_update_iff s.stage fun _ st => ∀ i ∈ st.ahead, i < s.mon.count).2 ⟨ahead, fun j' _ => h.ahead j'⟩
  balanced := (forall_update_iff s.mon.heap fun _ t => t.prober.Balanced).2 ⟨balanced, fun i' _ => h.balanced i'⟩
  counted i' id := by
    have sum := sum_update (Stage.holds i' id) s.stage j st
    have old := h.counted i' id
    rw [hst] at sum
    unfold State.turn
    dsimp only
    by_cases hi' : i' = i
    · subst hi'
      have new := counted id
      rw [update_self]
      omega
    · rw [update_of_ne hi']
      have same := others i' id hi'
      omega

theorem work {cfg : ProberConfig} {now paid : ℤ} {i : ℕ} {t : Target} {b : ProbeBudget} (h : s.Sound) (few : s.Few)
    (hst : s.stage j = st₀) (hw : work cfg s.mon now paid st₀ = some (i, t, b, st)) : (s.turn j i t b st).Sound := by
  have ahead : ∀ i ∈ st₀.ahead, i < s.mon.count := hst ▸ h.ahead j
  cases st₀ with
  | idle => cases hw
  | expiring i ts =>
    cases hw
    obtain ⟨balanced, sent⟩ := (h.balanced i).expireTimeouts cfg.timeout now
    refine h.turn hst _ (ahead i List.mem_cons_self) rfl ahead balanced (fun _ _ _ => rfl) fun id => ?_
    rw [Target.drawn, Target.drawn, sent]
    rfl
  | probing i ts =>
    obtain ⟨here, later⟩ := List.forall_mem_cons.1 ahead
    rcases Prober.maybeProbe_cases (h.balanced i) (few i here) cfg s.mon.budget now paid with
      ⟨b', hp⟩ | ⟨p, b', hp, balanced, sent⟩
    · simp only [Probing.work, hp] at hw
      cases hw
      refine h.turn hst _ here rfl (by simpa using later) (h.balanced i) (fun i' id _ => ?_) fun id => ?_
      · exact Stage.holds_loop ts i' id
      · exact congrArg (· + _ + _) (Stage.holds_loop ts i id)
    · simp only [Probing.work, hp] at hw
      cases hw
      refine h.turn hst _ here rfl ahead balanced (fun i' id ne => if_neg fun eq => ne eq.1.symm) fun id => ?_
      have number : (UInt32.ofNat (s.mon.heap i).prober.sent).toNat = _ := UInt32.toNat_ofNat_of_lt' (few i here)
      have same : UInt32.ofNat (s.mon.heap i).prober.sent = id ↔ id.toNat = (s.mon.heap i).prober.sent := by
        rw [← UInt32.toNat_inj, number, eq_comm]
      simp only [Option.elim, Stage.holds, Target.holds, Target.drawn, sent, true_and, same]
      split_ifs <;> omega
  | sending i id ts =>
    cases hw
    obtain ⟨here, later⟩ := List.forall_mem_cons.1 ahead
    have fresh : id ∉ (s.mon.heap i).sent := fun sent => by
      have := h.once j i id
      simp [hst, Stage.holds, Target.holds, sent] at this
    refine h.turn hst _ here rfl (by simpa using later) (h.balanced i) (fun i' id' ne => ?_) fun id' => ?_
    · rw [Stage.holds_loop]
      exact (if_neg fun eq => ne eq.1.symm).symm
    · have sent := Target.holds_sent fresh now id'
      rw [Stage.holds_loop]
      simp only [Stage.holds, true_and, Target.drawn, sent]
      omega
  | observing i id rtt =>
    cases hw
    refine h.turn hst _ (ahead i List.mem_cons_self) rfl ahead (h.balanced i)
      (fun i' id' ne => (if_neg fun eq => ne eq.1.symm).symm) fun id' => ?_
    have told := Target.holds_told (s.mon.heap i) id ⟨now, some rtt⟩ id'
    simp only [Stage.holds, true_and, Target.drawn, told]
    omega
  | replying i id =>
    cases hw
    refine h.turn hst _ (ahead i List.mem_cons_self) rfl nofun ((h.balanced i).onReply id) (fun _ _ _ => rfl)
      fun id' => ?_
    have sent : ((s.mon.heap i).prober.onReply id).sent = (s.mon.heap i).prober.sent := by
      unfold Prober.onReply
      split_ifs <;> rfl
    rw [Target.drawn, Target.drawn, sent]
    rfl

theorem datagram {cfg : ProberConfig} {now : ℤ} {index id : UInt32} {s' : State ι} (h : s.Sound)
    (step : s.step? cfg (j, .datagram now index id) = some s') : s'.Sound ∧ (s' = s ∨ ∃ i rtt, i < s.mon.count ∧
      (s.mon.heap i).index = index ∧ id ∈ (s.mon.heap i).sent ∧
      s' = s.turn j i { s.mon.heap i with sent := (s.mon.heap i).sent.erase id, lastReply := now } s.mon.budget
        (.observing i id rtt)) := by
  simp only [step?] at step
  split_ifs at step with idle
  cases hr : s.mon.receive now index id with
  | none =>
    simp only [hr] at step
    cases step
    exact ⟨h, Or.inl rfl⟩
  | some r =>
    simp only [hr] at step
    cases step
    obtain ⟨i, hi, hr⟩ := Option.bind_eq_some_iff.1 hr
    obtain ⟨sentAt, hsent, hr⟩ := Option.bind_eq_some_iff.1 hr
    cases hr
    obtain ⟨here, found⟩ := h.mon.found index i hi
    refine ⟨h.turn idle _ here rfl (List.forall_mem_singleton.2 here) (h.balanced i)
      (fun i' id' ne => if_neg fun eq => ne eq.1.symm) fun id' => ?_,
      Or.inr ⟨i, _, here, found, mem_of_lookup hsent, rfl⟩⟩
    have taken := Target.holds_taken (mem_of_lookup hsent) now id'
    simp only [Stage.holds, true_and, Target.drawn]
    omega

/-- One critical section. -/
theorem step {cfg : ProberConfig} (h : s.Sound) (few : s.Few) {e : ι × Act} {s' : State ι}
    (step : s.step? cfg e = some s') : s'.Sound := by
  rcases e with ⟨j, addrs | ⟨now, ts⟩ | ⟨now, index, id⟩ | ⟨now, paid⟩⟩
  · simp only [step?] at step
    split_ifs at step
    cases step
    have dropped := Monitor.Sound.foldl (fun m e h => h.drop addrs e) h.mon s.mon.targets.entries
    exact (h.keeps dropped).keeps (Monitor.Sound.foldl (fun m e h => h.add e) dropped.sound addrs.entries)
  · simp only [step?] at step
    split_ifs at step with ok
    cases step
    have ticked := h.keeps (h.mon.tick cfg.timeout now)
    refine ⟨ticked.mon, ?_, ticked.balanced, fun i id => ?_⟩
    · refine (forall_update_iff s.stage fun _ st => ∀ i ∈ st.ahead, i < s.mon.count).2 ⟨fun i hi => ?_, ?_⟩
      · rw [Stage.ahead_loop] at hi
        obtain ⟨n, hn⟩ := mem_values.1 (ok.2.mem_iff.1 hi)
        exact h.mon.named n i hn
      · exact fun j' _ => h.ahead j'
    · have sum := sum_update (Stage.holds i id) s.stage j (.loop ts)
      rw [ok.1, Stage.holds_loop] at sum
      exact (congrArg (· + _) sum).trans (ticked.counted i id)
  · exact (h.datagram step).1
  · obtain ⟨⟨i, t, b, st⟩, hw, rfl⟩ := Option.map_eq_some_iff.1 step
    exact h.work few rfl hw

end Sound

omit [DecidableEq ι] in
theorem sound_new (budget : ProbeBudget) : (new budget : State ι).Sound where
  mon := ⟨fun _ _ => rfl, rfl, nofun, nofun, nofun⟩
  ahead _ := nofun
  balanced _ := ⟨rfl, nofun, rfl⟩
  counted _ _ := by simp [new, Monitor.new, Target.new, Prober.new, Stage.holds, Target.holds, Target.drawn]

end State

/-- Whatever the goroutines do, and whatever datagrams arrive: the books of every prober balance; when all goroutines
are idle, each probe is waited for, or its target's window has been told of it once; a reply counts only for the target
and the probe that it names; and one that comes again, or late, changes nothing. -/
theorem probes_counted_once [Fintype ι] (cfg : ProberConfig) (budget : ProbeBudget) {s : State ι}
    (run : Runs (State.step? cfg) (fun s _ => s.Few) (.new budget) s) (few : s.mon.count ≤ 2 ^ 32) {i : ℕ}
    (hi : i < s.mon.count) {t : Target} (ht : s.mon.heap i = t) :
    t.prober.sent = t.prober.replied + t.prober.lost + t.prober.outstanding.keys.length ∧
      ((∀ j, s.stage j = .idle) → ∀ id, (if id ∈ t.sent then 1 else 0) + t.window.countP (·.1 = id) =
        if id.toNat < t.prober.sent then 1 else 0) ∧
      (∀ i' < s.mon.count, (s.mon.heap i').index = t.index → i' = i) ∧
      (∀ j now index id s', s.step? cfg (j, .datagram now index id) = some s' → s' = s ∨ ∃ i rtt, i < s.mon.count ∧
        (s.mon.heap i).index = index ∧ id ∈ (s.mon.heap i).sent ∧
        s' = s.turn j i { s.mon.heap i with sent := (s.mon.heap i).sent.erase id, lastReply := now } s.mon.budget
          (.observing i id rtt)) ∧
      ∀ id, (∃ r, (id, r) ∈ t.window) ∨ (∃ j rtt, s.stage j = .observing i id rtt) → ∀ j now s',
        s.step? cfg (j, .datagram now t.index id) = some s' → s' = s := by
  subst ht
  have h : s.Sound := run.invariant (fun _ _ _ sound few step => sound.step few step) (State.sound_new budget)
  refine ⟨(h.balanced i).sum, fun idle id => ?_, fun i' => h.mon.inj few hi, fun _ _ _ _ _ step => (h.datagram step).2,
    fun id past j now s' step => ?_⟩
  · have counted := h.counted i id
    simpa [idle, Stage.holds, Target.holds, Target.drawn] using counted
  · rcases (h.datagram step).2 with same | ⟨i', rtt, here, index, sent, -⟩
    · exact same
    obtain rfl := h.mon.inj few hi here index
    exfalso
    rcases past with ⟨r, hr⟩ | ⟨j, rtt, hj⟩
    · have told : 0 < (s.mon.heap i').window.countP (·.1 = id) := List.countP_pos_iff.2 ⟨_, hr, by simp⟩
      have once := h.once j i' id
      simp only [Target.holds, if_pos sent] at once
      omega
    · have once := h.once j i' id
      simp [hj, Stage.holds, Target.holds, sent] at once

def Sample.cfg : ProberConfig := defaultConfig fun _ => "1s"

theorem probes_counted_once_replied : ∃ s : State Bool,
    Runs (State.step? Sample.cfg) (fun s _ => s.Few) (.new (newProbeBudget 65536 65536 0)) s ∧
      (s.mon.heap 0).prober.sent = 1 ∧ (s.mon.heap 0).window.countP (·.1 = 0) = 1 := by
  obtain ⟨s, run, hs⟩ := Runs.exists_of_checked (State.step? Sample.cfg) (fun s _ => s.Few)
    (.new (newProbeBudget 65536 65536 0))
    [(false, .set (AList.insert "a" (.v4 1, 7000) ∅)), (false, .tick 1 [0]), (false, .next 1 1), (false, .next 1 1),
      (false, .next 2 2), (true, .datagram 3 0 0), (true, .next 3 3), (true, .next 4 4)]
    (fun s => (s.mon.count, s.stage false, s.stage true, (s.mon.heap 0).prober.sent, decide (0 ∈ (s.mon.heap 0).sent)))
    (b := (1, .idle, .idle, 1, false)) (by decide +kernel)
  simp only [Prod.mk.injEq, decide_eq_false_iff_not] at hs
  obtain ⟨count, ticker, receiver, sent, gone⟩ := hs
  have once := (probes_counted_once Sample.cfg _ run (by omega) (i := 0) (by omega) rfl).2.1
    (Bool.forall_bool.2 ⟨ticker, receiver⟩) 0
  rw [if_neg gone, sent, Nat.zero_add] at once
  exact ⟨s, run, sent, once⟩

end Egressa.Pathmon.Probing
