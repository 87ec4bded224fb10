import Egressa.Measurement.Prober
import Egressa.Records

/-!
# Probing the access gateways

A `Monitor` (`internal/pathmon/monitor.go`) probes a changing set of targets.  Of the history of a target only the time
of the last reply is kept here.
-/

namespace Egressa.Pathmon

open Measurement Maps

/-- The zero `time.Time`, the first of January of the year 1. -/
def zeroTime : ℤ := -62135596800 * second

abbrev AddrPort := Addr × UInt16

/-- `DefaultConfig`, as `Set` hands it to `NewProber`. -/
def defaultConfig (text : Duration → String) : ProberConfig where
  probeSize := 64
  timeout := .ofInt second
  fastInterval := .ofInt (second / 5)
  steadyInterval := .ofInt (second / 4)
  rampSamples := 20
  text := text

/-- A gateway that is probed. -/
structure Target where
  index : UInt32
  addr : AddrPort
  /-- The probes that are waited for, and when they were sent. -/
  sent : Map UInt32 ℤ
  lastReply : ℤ

/-- A target that has not been probed. -/
def Target.new (index : UInt32) (addr : AddrPort) : Target := ⟨index, addr, ∅, zeroTime⟩

/-- A turn of the loop of `tick` over the probes of a target. -/
def forget (timeout : Duration) (now : ℤ) (sent : Map UInt32 ℤ) (e : Entry UInt32 ℤ) : Map UInt32 ℤ :=
  if timeout.toInt ≤ Time.sub now e.2 then sent.erase e.1 else sent

def Target.expire (t : Target) (timeout : Duration) (now : ℤ) : Target :=
  { t with sent := t.sent.entries.foldl (forget timeout now) t.sent }

/-- A probe, as it was sent. -/
structure Probe where
  target : String
  index : UInt32
  id : UInt32
  time : ℤ

/-- `Monitor`: targets by name and by index. -/
structure Monitor where
  targets : Map String Target
  byIndex : Map UInt32 String
  nextIndex : UInt32

namespace Monitor

/-- `NewMonitor`. -/
def new : Monitor := ⟨∅, ∅, 0⟩

/-- A turn of the loop of `Set` over the targets. -/
def drop (addrs : Map String AddrPort) (m : Monitor) (e : Entry String Target) : Monitor :=
  if addrs.lookup e.1 = some e.2.addr then m
  else { m with targets := m.targets.erase e.1, byIndex := m.byIndex.erase e.2.index }

/-- A new target at the next index. -/
def add (m : Monitor) (e : Entry String AddrPort) : Monitor where
  targets := m.targets.insert e.1 (.new m.nextIndex e.2)
  byIndex := m.byIndex.insert m.nextIndex e.1
  nextIndex := m.nextIndex + 1

/-- The loop of `Set` over the wanted targets, with its error.  An index is taken before `NewProber` fails. -/
def addAll (cfg : ProberConfig) (m : Monitor) : List (Entry String AddrPort) → Option String × Monitor
  | [] => (none, m)
  | e :: l =>
    if e.1 ∈ m.targets then addAll cfg m l
    else match cfg.validate with
      | some err => (some err, { m with nextIndex := m.nextIndex + 1 })
      | none => addAll cfg (m.add e) l

/-- `Set`, with its error. -/
def set (cfg : ProberConfig) (m : Monitor) (addrs : Map String AddrPort) : Option String × Monitor :=
  (m.targets.entries.foldl (drop addrs) m).addAll cfg addrs.entries

/-- Writes a target back. -/
def put (m : Monitor) (name : String) (t : Target) : Monitor := { m with targets := m.targets.insert name t }

/-- `sender`: a probe of a target, as far as the lock is held. -/
def send (m : Monitor) (now : ℤ) (name : String) (id : UInt32) : Monitor :=
  match m.targets.lookup name with
  | none => m
  | some t => m.put name { t with sent := t.sent.insert id now }

/-- `tick`, as far as it holds the lock. -/
def tick (m : Monitor) (timeout : Duration) (now : ℤ) : Monitor :=
  m.targets.entries.foldl (fun m e => m.put e.1 (e.2.expire timeout now)) m

/-- `receive`. -/
def receive (m : Monitor) (now : ℤ) (index id : UInt32) : Monitor :=
  match m.byIndex.lookup index with
  | none => m
  | some name => match m.targets.lookup name with
    | none => m
    | some t =>
      if id ∈ t.sent then m.put name { t with sent := t.sent.erase id, lastReply := now } else m

/-- What `Stats` answers besides the statistics. -/
def lastReply (m : Monitor) (name : String) : ℤ := (m.targets.lookup name).elim zeroTime Target.lastReply

variable {m : Monitor} {t : Target} {cfg : ProberConfig} {addrs : Map String AddrPort} {name : String}

/-! ## Setting the targets -/

theorem sweeps_drop (addrs : Map String AddrPort) :
    Sweeps Monitor.targets (fun e => addrs.lookup e.1 = some e.2.addr) (drop addrs) where
  kept s e h := by rw [drop, if_pos h]
  dropped s e h := by rw [drop, if_neg h]

theorem lookup_dropped (m : Monitor) (addrs : Map String AddrPort) (name : String) :
    (m.targets.entries.foldl (drop addrs) m).targets.lookup name =
      (addrs.lookup name).bind fun addr => (m.targets.lookup name).filter (·.addr = addr) := by
  have swept := ((sweeps_drop addrs).foldl (P := fun _ => True) (fun _ _ _ _ => trivial) (.refl m.targets.entries)
    trivial).2 name
  refine Option.ext fun t => ?_
  rw [swept, Option.bind_eq_some_iff]
  constructor
  · rintro ⟨here, wanted⟩
    exact ⟨t.addr, wanted, Option.filter_eq_some_iff.2 ⟨here, by simp⟩⟩
  · rintro ⟨addr, wanted, kept⟩
    obtain ⟨here, same⟩ := Option.filter_eq_some_iff.1 kept
    exact ⟨here, by rw [wanted, of_decide_eq_true same]⟩

/-- A target of this name, unless there is one. -/
def ensure (m : Monitor) (e : Entry String AddrPort) : Monitor := if e.1 ∈ m.targets then m else m.add e

theorem addAll_of_valid (valid : cfg.validate = none) (m : Monitor) (l : List (Entry String AddrPort)) :
    m.addAll cfg l = (none, l.foldl ensure m) := by
  induction l generalizing m with
  | nil => rfl
  | cons e l ih =>
    rw [addAll, List.foldl_cons, ensure, valid]
    split_ifs <;> exact ih _

theorem addAll_of_invalid {err : String} (invalid : cfg.validate = some err) (m : Monitor)
    (l : List (Entry String AddrPort)) : m.addAll cfg l =
      if ∀ e ∈ l, e.1 ∈ m.targets then (none, m) else (some err, { m with nextIndex := m.nextIndex + 1 }) := by
  induction l with
  | nil => rfl
  | cons e l ih =>
    rw [addAll, invalid, ih]
    by_cases here : e.1 ∈ m.targets <;> simp [here]

theorem lookup_ensures (l : List (Entry String AddrPort)) (m : Monitor) (name : String) : ∃ index,
    (l.foldl ensure m).targets.lookup name = (m.targets.lookup name).or ((l.dlookup name).map (.new index)) := by
  induction l generalizing m with
  | nil => exact ⟨0, by simp⟩
  | cons e l ih =>
    obtain ⟨index, rest⟩ := ih (m.ensure e)
    obtain ⟨key, addr⟩ := e
    rw [List.foldl_cons, rest]
    by_cases hn : name = key
    · subst hn
      by_cases here : name ∈ m.targets
      · obtain ⟨t, ht⟩ := lookup_of_mem here
        exact ⟨0, by simp [ensure, here, ht]⟩
      · exact ⟨m.nextIndex, by simp [ensure, add, here, AList.lookup_eq_none.2 here, List.dlookup_cons_eq]⟩
    · refine ⟨index, ?_⟩
      rw [List.dlookup_cons_ne _ _ hn]
      unfold ensure
      split_ifs
      · rfl
      · rw [add, AList.lookup_insert_ne hn]

/-- `Set` leaves one target for each wanted name, at its address: the one there was, if the address is the same, or else
a fresh one.  If it fails, the configuration is invalid and a wanted target is new; then the targets that have not
changed are left, and no others. -/
theorem set_exact (cfg : ProberConfig) (m : Monitor) (addrs : Map String AddrPort) :
    let kept name addr := (m.targets.lookup name).filter (·.addr = addr)
    match m.set cfg addrs with
    | (none, m') => ∀ name, ∃ index, m'.targets.lookup name =
        (addrs.lookup name).map fun addr => (kept name addr).getD (.new index addr)
    | (some err, m') => cfg.validate = some err ∧ (∃ name addr, addrs.lookup name = some addr ∧ kept name addr = none) ∧
        ∀ name, m'.targets.lookup name = (addrs.lookup name).bind (kept name) := by
  intro kept
  have dropped := lookup_dropped m addrs
  unfold set
  generalize m.targets.entries.foldl (drop addrs) m = m₁ at dropped ⊢
  cases valid : cfg.validate with
  | none =>
    rw [addAll_of_valid valid]
    intro name
    obtain ⟨index, filled⟩ := lookup_ensures addrs.entries m₁ name
    refine ⟨index, filled.trans ?_⟩
    rw [dropped]
    change Option.or _ ((addrs.lookup name).map _) = _
    cases addrs.lookup name with
    | none => rfl
    | some addr => cases h : kept name addr <;> simp [h, kept]
  | some err =>
    rw [addAll_of_invalid valid]
    split_ifs with all
    · intro name
      refine ⟨0, (dropped name).trans ?_⟩
      cases wanted : addrs.lookup name with
      | none => rfl
      | some addr =>
        obtain ⟨t, ht⟩ := lookup_of_mem (all ⟨name, addr⟩ (AList.mem_lookup_iff.1 wanted))
        rw [dropped, wanted] at ht
        change kept name addr = some ((kept name addr).getD _)
        rw [show kept name addr = some t from ht, Option.getD_some]
    · push Not at all
      obtain ⟨e, he, absent⟩ := all
      have wanted := lookup_of_mem_entries he
      refine ⟨rfl, ⟨e.1, e.2, wanted, ?_⟩, dropped⟩
      have := AList.lookup_eq_none.2 absent
      rwa [dropped, wanted] at this

/-! ## Last replies -/

theorem lastReply_of_lookup (h : m.targets.lookup name = some t) : m.lastReply name = t.lastReply := by
  simp [lastReply, h]

theorem lookup_put (m : Monitor) (name : String) (t : Target) (x : String) :
    (m.put name t).targets.lookup x = if x = name then some t else m.targets.lookup x :=
  lookup_insert_eq m.targets name x t

theorem lastReply_put (m : Monitor) (name : String) (t : Target) (x : String) :
    (m.put name t).lastReply x = if x = name then t.lastReply else m.lastReply x := by
  unfold lastReply
  rw [lookup_put]
  split_ifs <;> rfl

theorem lastReply_send (m : Monitor) (now : ℤ) (name : String) (id : UInt32) (x : String) :
    (m.send now name id).lastReply x = m.lastReply x := by
  unfold send
  cases h : m.targets.lookup name with
  | none => rfl
  | some t =>
    rw [lastReply_put]
    split_ifs with hx
    · rw [hx, lastReply_of_lookup h]
    · rfl

/-- In the middle of a tick a target has been looked at or not. -/
theorem lookup_tick (m : Monitor) (timeout : Duration) (now : ℤ) (name : String) :
    (m.tick timeout now).targets.lookup name = m.targets.lookup name ∨
      (m.tick timeout now).targets.lookup name = (m.targets.lookup name).map (·.expire timeout now) := by
  refine List.foldlRecOn (motive := fun s : Monitor => ∀ name, s.targets.lookup name = m.targets.lookup name ∨
    s.targets.lookup name = (m.targets.lookup name).map (·.expire timeout now)) m.targets.entries _
    (fun _ => Or.inl rfl) (fun s hs e he name => ?_) name
  rw [lookup_put]
  split_ifs with hname
  · rw [hname, lookup_of_mem_entries he]
    exact Or.inr rfl
  · exact hs name

theorem tick_indices (m : Monitor) (timeout : Duration) (now : ℤ) :
    (m.tick timeout now).byIndex = m.byIndex ∧ (m.tick timeout now).nextIndex = m.nextIndex :=
  List.foldlRecOn (motive := fun s : Monitor => s.byIndex = m.byIndex ∧ s.nextIndex = m.nextIndex) m.targets.entries _
    ⟨rfl, rfl⟩ fun _ hs _ _ => hs

theorem lastReply_tick (m : Monitor) (timeout : Duration) (now : ℤ) (x : String) :
    (m.tick timeout now).lastReply x = m.lastReply x := by
  unfold lastReply
  rcases m.lookup_tick timeout now x with h | h
  · rw [h]
  · rw [h]
    cases m.targets.lookup x <;> rfl

theorem receive_cases (m : Monitor) (now : ℤ) (index id : UInt32) : m.receive now index id = m ∨
    ∃ name t, m.byIndex.lookup index = some name ∧ m.targets.lookup name = some t ∧
      m.receive now index id = m.put name { t with sent := t.sent.erase id, lastReply := now } := by
  unfold receive
  cases hi : m.byIndex.lookup index with
  | none => exact Or.inl rfl
  | some name =>
    cases ht : m.targets.lookup name with
    | none => simp [ht]
    | some t =>
      by_cases here : id ∈ t.sent
      · exact Or.inr ⟨name, t, rfl, ht, by simp [ht, here]⟩
      · exact Or.inl (by simp [ht, here])

/-- The target of this name, if there is one, is wanted at its address. -/
def Keeps (m : Monitor) (addrs : Map String AddrPort) (name : String) : Prop :=
  ∀ t, m.targets.lookup name = some t → addrs.lookup name = some t.addr

instance (m : Monitor) (addrs : Map String AddrPort) (name : String) : Decidable (m.Keeps addrs name) :=
  match h : m.targets.lookup name with
  | none => isTrue fun t ht => by simp [h] at ht
  | some t =>
    if ha : addrs.lookup name = some t.addr then
      isTrue fun t' ht => by
        cases h.symm.trans ht
        exact ha
    else isFalse fun keeps => ha (keeps t h)

theorem lastReply_set (cfg : ProberConfig) (keeps : m.Keeps addrs name) :
    (m.set cfg addrs).2.lastReply name = m.lastReply name := by
  have dropped : (m.targets.entries.foldl (drop addrs) m).lastReply name = m.lastReply name := by
    unfold lastReply
    rw [lookup_dropped]
    cases h : m.targets.lookup name with
    | none => cases addrs.lookup name <;> rfl
    | some t => simp [keeps t h, Option.filter]
  unfold set
  cases valid : cfg.validate with
  | none =>
    rw [addAll_of_valid valid, ← dropped]
    obtain ⟨index, filled⟩ := lookup_ensures addrs.entries (m.targets.entries.foldl (drop addrs) m) name
    unfold lastReply
    rw [filled]
    cases (m.targets.entries.foldl (drop addrs) m).targets.lookup name with
    | none => cases addrs.entries.dlookup name <;> rfl
    | some t => rfl
  | some err =>
    rw [addAll_of_invalid valid]
    split_ifs <;> exact dropped

/-! ## Indices -/

/-- The index of a target. -/
def indexOf (m : Monitor) (name : String) : Option UInt32 := (m.targets.lookup name).map Target.index

/-- Every target is found by its index, and the next index is not in use. -/
structure Indexed (m : Monitor) : Prop where
  found : ∀ index name, m.byIndex.lookup index = some name ↔ m.indexOf name = some index
  below : ∀ index name, m.indexOf name = some index → index < m.nextIndex

/-- What becomes of the indices when targets are set. -/
structure Grows (m m' : Monitor) : Prop where
  indexed : m'.Indexed
  next : m.nextIndex ≤ m'.nextIndex
  fresh : ∀ name t, m'.targets.lookup name = some t → m.targets.lookup name = some t ∨ m.nextIndex ≤ t.index

theorem Grows.trans {m' m'' : Monitor} (h : m.Grows m') (h' : m'.Grows m'') : m.Grows m'' where
  indexed := h'.indexed
  next := UInt32.le_trans h.next h'.next
  fresh name t ht := by
    rcases h'.fresh name t ht with here | later
    · exact h.fresh name t here
    · exact Or.inr (UInt32.le_trans h.next later)

namespace Indexed

theorem of_indexOf (h : m.Indexed) {m' : Monitor} (same : ∀ name, m'.indexOf name = m.indexOf name)
    (byIndex : m'.byIndex = m.byIndex) (next : m'.nextIndex = m.nextIndex) : m'.Indexed where
  found index name := by rw [same, byIndex, h.found]
  below index name := by
    rw [same, next]
    exact h.below index name

theorem put (h : m.Indexed) (ht : m.targets.lookup name = some t) {t' : Target} (same : t'.index = t.index) :
    (m.put name t').Indexed := by
  refine h.of_indexOf (fun x => ?_) rfl rfl
  unfold indexOf
  rw [lookup_put]
  split_ifs with hx
  · rw [hx, ht, Option.map_some, Option.map_some, same]
  · rfl

theorem send (h : m.Indexed) (now : ℤ) (name : String) (id : UInt32) : (m.send now name id).Indexed := by
  unfold Monitor.send
  cases ht : m.targets.lookup name with
  | none => exact h
  | some t => exact h.put ht rfl

theorem receive (h : m.Indexed) (now : ℤ) (index id : UInt32) : (m.receive now index id).Indexed := by
  rcases m.receive_cases now index id with same | ⟨name, t, -, ht, taken⟩
  · rwa [same]
  · exact taken ▸ h.put ht rfl

theorem tick (h : m.Indexed) (timeout : Duration) (now : ℤ) : (m.tick timeout now).Indexed := by
  have same : ∀ name, (m.tick timeout now).indexOf name = m.indexOf name := fun name => by
    unfold indexOf
    rcases m.lookup_tick timeout now name with same | aged
    · rw [same]
    · rw [aged]
      cases m.targets.lookup name <;> rfl
  obtain ⟨byIndex, next⟩ := m.tick_indices timeout now
  exact h.of_indexOf same byIndex next

theorem drop (h : m.Indexed) {e : Entry String Target} (here : m.targets.lookup e.1 = some e.2) :
    (m.drop addrs e).Indexed := by
  unfold Monitor.drop
  split_ifs
  · exact h
  have index : m.indexOf e.1 = some e.2.index := by simp [indexOf, here]
  have gone : ∀ name,
      ({ m with targets := m.targets.erase e.1, byIndex := m.byIndex.erase e.2.index } : Monitor).indexOf
      name = if name = e.1 then none else m.indexOf name := fun name => by
    unfold indexOf
    rw [lookup_erase_eq]
    split_ifs <;> rfl
  -- the index of another target is another
  have unique : ∀ i name, m.indexOf name = some i → (i = e.2.index ↔ name = e.1) := fun i name hi => by
    refine ⟨fun same => ?_, fun same => ?_⟩
    · exact Option.some.inj (((h.found _ _).2 (same ▸ hi)).symm.trans ((h.found _ _).2 index))
    · exact Option.some.inj (hi.symm.trans (same ▸ index))
  refine ⟨fun i name => ?_, fun i name hi => ?_⟩
  · have old := h.found i name
    rw [gone, lookup_erase_eq]
    grind
  · rw [gone] at hi
    split_ifs at hi
    exact h.below i name hi

theorem lt_next {i : UInt32} (room : i.toNat + 1 < 2 ^ 32) : i < i + 1 := by
  rw [UInt32.lt_iff_toNat_lt, UInt32.toNat_add]
  simp only [UInt32.reduceToNat]
  omega

theorem add (h : m.Indexed) (room : m.nextIndex.toNat + 1 < 2 ^ 32) {e : Entry String AddrPort}
    (absent : e.1 ∉ m.targets) :
    m.Grows (m.add e) := by
  have next := lt_next room
  have index : ∀ name, (m.add e).indexOf name = if name = e.1 then some m.nextIndex else m.indexOf name :=
      fun name => by
    unfold indexOf Monitor.add
    rw [lookup_insert_eq]
    split_ifs <;> rfl
  have unused : ∀ name, m.indexOf name ≠ some m.nextIndex := fun name same => UInt32.lt_irrefl _ (h.below _ _ same)
  have none : m.indexOf e.1 = none := by simp [indexOf, AList.lookup_eq_none.2 absent]
  refine ⟨⟨fun i name => ?_, fun i name hi => ?_⟩, UInt32.le_of_lt next, fun name t ht => ?_⟩
  · rw [index]
    change (m.byIndex.insert m.nextIndex e.1).lookup i = _ ↔ _
    rw [lookup_insert_eq]
    by_cases hi : i = m.nextIndex
    · rw [if_pos hi, hi]
      split_ifs with hn
      · simp [hn]
      · simpa [unused name, eq_comm] using hn
    · rw [if_neg hi, h.found]
      split_ifs with hn
      · simp [hn, none, Ne.symm hi]
      · rfl
  · rw [index] at hi
    split_ifs at hi
    · cases hi
      exact next
    · exact UInt32.lt_trans (h.below i name hi) next
  · change (m.targets.insert e.1 _).lookup name = _ at ht
    rw [lookup_insert_eq] at ht
    split_ifs at ht
    · cases ht
      exact Or.inr (UInt32.le_refl _)
    · exact Or.inl ht

theorem refl (h : m.Indexed) : m.Grows m := ⟨h, UInt32.le_refl _, fun _ _ ht => Or.inl ht⟩

theorem ensures (h : m.Indexed) (l : List (Entry String AddrPort)) (room : m.nextIndex.toNat + l.length < 2 ^ 32) :
    m.Grows (l.foldl ensure m) := by
  induction l generalizing m with
  | nil => exact h.refl
  | cons e l ih =>
    rw [List.length_cons] at room
    rw [List.foldl_cons, ensure]
    split_ifs with here
    · exact ih h (by omega)
    · have grown := h.add (by omega) here
      refine grown.trans (ih grown.indexed ?_)
      have : (m.add e).nextIndex.toNat = m.nextIndex.toNat + 1 := by
        simp only [Monitor.add, UInt32.toNat_add, UInt32.reduceToNat]
        omega
      omega

theorem set (h : m.Indexed) (cfg : ProberConfig) (room : m.nextIndex.toNat + addrs.entries.length < 2 ^ 32) :
    m.Grows (m.set cfg addrs).2 := by
  obtain ⟨⟨indexed, next⟩, kept⟩ := (sweeps_drop addrs).foldl (P := fun s => s.Indexed ∧ s.nextIndex = m.nextIndex)
    (fun s e here hs => ⟨hs.1.drop here, by unfold Monitor.drop; split_ifs <;> exact hs.2⟩) (.refl m.targets.entries)
    ⟨h, rfl⟩
  unfold Monitor.set
  generalize m.targets.entries.foldl (Monitor.drop addrs) m = s at indexed next kept ⊢
  have dropped : m.Grows s := ⟨indexed, next ▸ UInt32.le_refl _, fun name t ht => Or.inl ((kept name t).1 ht).1⟩
  rw [← next] at room
  cases valid : cfg.validate with
  | none =>
    rw [addAll_of_valid valid]
    exact dropped.trans (indexed.ensures addrs.entries room)
  | some err =>
    rw [addAll_of_invalid valid]
    split_ifs with all
    · exact dropped
    · have later : s.nextIndex < s.nextIndex + 1 := lt_next (by
        have : addrs.entries ≠ [] := fun none => all (by simp [none])
        have := List.length_pos_iff.2 this
        omega)
      exact dropped.trans ⟨⟨indexed.found, fun i name hi => UInt32.lt_trans (indexed.below i name hi) later⟩,
        UInt32.le_of_lt later, fun _ _ ht => Or.inl ht⟩

end Indexed

/-! ## Probes in flight -/

theorem lookup_expire (t : Target) (timeout : Duration) (now : ℤ) (n : UInt32) (τ : ℤ) :
    (t.expire timeout now).sent.lookup n = some τ ↔ t.sent.lookup n = some τ ∧ Time.sub now τ < timeout.toInt := by
  have sweeps : Sweeps id (fun e : Entry UInt32 ℤ => Time.sub now e.2 < timeout.toInt) (forget timeout now) :=
    { kept := fun s e h => by rw [forget, if_neg (not_le.2 h)]
      dropped := fun s e h => by
        rw [forget, if_pos (not_lt.1 h)]
        rfl }
  exact (sweeps.foldl (P := fun _ => True) (fun _ _ _ _ => trivial) (.refl t.sent.entries) trivial).2 n τ

/-- As long as its target is not replaced, a probe is waited for until the timeout. -/
structure Awaits (m : Monitor) (timeout : Duration) (now : ℤ) (p : Probe) : Prop where
  old : p.index < m.nextIndex
  sent : ∀ t, m.targets.lookup p.target = some t → t.index = p.index → now - p.time < timeout.toInt →
    ∃ τ, t.sent.lookup p.id = some τ ∧ p.time ≤ τ ∧ τ ≤ now

namespace Awaits

variable {timeout : Duration} {now : ℤ} {p : Probe}

theorem later (h : m.Awaits timeout now p) {now' : ℤ} (past : now ≤ now') : m.Awaits timeout now' p := by
  refine ⟨h.old, fun t ht index young => ?_⟩
  obtain ⟨τ, sent, after, before⟩ := h.sent t ht index (by omega)
  exact ⟨τ, sent, after, before.trans past⟩

theorem put (h : m.Awaits timeout now p) (ht : m.targets.lookup name = some t) {t' : Target}
    (index : t'.index = t.index) (sent : p.target = name → p.index = t.index → ∀ τ, t.sent.lookup p.id = some τ →
      p.time ≤ τ → τ ≤ now → ∃ τ, t'.sent.lookup p.id = some τ ∧ p.time ≤ τ ∧ τ ≤ now) :
    (m.put name t').Awaits timeout now p := by
  refine ⟨h.old, fun u hu same young => ?_⟩
  rw [lookup_put] at hu
  split_ifs at hu with here
  · cases hu
    obtain ⟨τ, hτ, after, before⟩ := h.sent t (here ▸ ht) (index ▸ same) young
    exact sent here (same.symm.trans index) τ hτ after before
  · exact h.sent u hu same young

theorem send (h : m.Awaits timeout now p) (past : p.time ≤ now) (name : String) (id : UInt32) :
    (m.send now name id).Awaits timeout now p := by
  unfold Monitor.send
  cases ht : m.targets.lookup name with
  | none => exact h
  | some t =>
    refine h.put ht rfl fun _ _ τ hτ after before => ?_
    rw [lookup_insert_eq]
    split_ifs
    · exact ⟨now, rfl, past, le_rfl⟩
    · exact ⟨τ, hτ, after, before⟩

theorem new (indexed : m.Indexed) (ht : m.targets.lookup name = some t) (timeout : Duration) (now : ℤ) (id : UInt32) :
    (m.send now name id).Awaits timeout now ⟨name, t.index, id, now⟩ := by
  have index : m.indexOf name = some t.index := by simp [indexOf, ht]
  simp only [Monitor.send, ht]
  refine ⟨indexed.below _ _ index, fun u hu _ _ => ?_⟩
  rw [lookup_put, if_pos rfl] at hu
  cases hu
  exact ⟨now, by simp, le_rfl, le_rfl⟩

theorem tick (h : m.Awaits timeout now p) : (m.tick timeout now).Awaits timeout now p := by
  have next : (m.tick timeout now).nextIndex = m.nextIndex := (m.tick_indices timeout now).2
  refine ⟨next ▸ h.old, fun t' ht' index young => ?_⟩
  rcases m.lookup_tick timeout now p.target with same | aged
  · exact h.sent t' (same ▸ ht') index young
  rw [aged] at ht'
  obtain ⟨t, ht, rfl⟩ := Option.map_eq_some_iff.1 ht'
  obtain ⟨τ, sent, after, before⟩ := h.sent t ht index young
  refine ⟨τ, (lookup_expire t timeout now p.id τ).2 ⟨sent, ?_⟩, after, before⟩
  -- it was sent less than a timeout ago
  rw [← not_le, Time.le_sub_iff before]
  omega

theorem receive (h : m.Awaits timeout now p) (indexed : m.Indexed) {index id : UInt32}
    (other : ¬ (p.index = index ∧ p.id = id)) : (m.receive now index id).Awaits timeout now p := by
  rcases m.receive_cases now index id with same | ⟨name, t, hi, ht, taken⟩
  · rwa [same]
  rw [taken]
  refine h.put ht rfl fun _ hp τ hτ after before => ⟨τ, ?_, after, before⟩
  have found := (indexed.found index name).1 hi
  have : p.id ≠ id := fun same => other ⟨hp.trans (by simpa [indexOf, ht] using found), same⟩
  rwa [AList.lookup_erase_ne this]

theorem set (h : m.Awaits timeout now p) {m' : Monitor} (grows : m.Grows m') : m'.Awaits timeout now p := by
  refine ⟨UInt32.lt_of_lt_of_le h.old grows.next, fun t ht index young => ?_⟩
  rcases grows.fresh p.target t ht with here | fresh
  · exact h.sent t here index young
  · exact absurd (index ▸ h.old) (UInt32.not_lt.2 fresh)

end Awaits

/-- A reply in time is accepted. -/
theorem lastReply_receive (indexed : m.Indexed) {timeout : Duration} {now : ℤ} {p : Probe}
    (awaits : m.Awaits timeout now p)
    (young : now - p.time < timeout.toInt) (here : m.indexOf p.target = some p.index) :
    (m.receive now p.index p.id).lastReply p.target = now := by
  obtain ⟨t, ht, index⟩ := Option.map_eq_some_iff.1 here
  obtain ⟨τ, sent, -⟩ := awaits.sent t ht index young
  simp [receive, (indexed.found _ _).2 here, ht, mem_of_lookup sent, lastReply_put]

end Monitor

end Egressa.Pathmon
