import Egressa.Control.EpochGate
import Egressa.Strconv
import Egressa.Wire.Header

/-!
# The packet fence of a gateway

`Agent.admit` (`internal/gateway/agent.go`, here `admits`) decides on every client packet from `fence`, a map from
session numbers to epochs that `apply` rebuilds after it has told the gate the plan's epochs.  A plan's list of
sessions stands for any order of the map.
-/

namespace Egressa

open Wire

/-- The fields of a gateway's `Agent` that fence packets. -/
structure GatewayAgent where
  gate : EpochGate
  fenced : AList fun _ : String => UInt64
  fence : AList fun _ : UInt64 => UInt64

namespace GatewayAgent

def new : GatewayAgent := ⟨.empty, ∅, ∅⟩

def admits (a : GatewayAgent) (h : SessionHeader) : Bool :=
  if h.sessionID = 0 then true
  else match a.fence.lookup h.sessionID with
    | some known => !(decide (h.epoch.toUInt64 < known))
    | none => true

/-- Remembers the number of a session, if it is one. -/
def parseSession (fenced : AList fun _ : String => UInt64) (session : String) : AList fun _ : String => UInt64 :=
  if session ∈ fenced then fenced
  else match parseUint session with
    | some id => fenced.insert session id
    | none => fenced

/-- Copies what the gate knows of a session into the fence. -/
def copySession (gate : EpochGate) (next : AList fun _ : UInt64 => UInt64)
    (s : Sigma fun _ : String => UInt64) : AList fun _ : UInt64 => UInt64 :=
  match gate.known.lookup s.1 with
  | some epoch => next.insert s.2 epoch
  | none => next

def updateFenceLocked (a : GatewayAgent) (epochs : AList fun _ : String => UInt64) : GatewayAgent :=
  let fenced := epochs.keys.foldl parseSession a.fenced
  { a with fenced, fence := fenced.entries.foldl (copySession a.gate) ∅ }

def apply (a : GatewayAgent) (epochs : AList fun _ : String => UInt64) : GatewayAgent :=
  updateFenceLocked { a with gate := a.gate.updateAll epochs.entries } epochs

/-! ## The fence follows the gate -/

/-- A session ID as `randomSessionID` makes them. -/
def CanonicalID (session : String) : Prop := ∃ id : UInt64, id ≠ 0 ∧ session = formatUint id

/-- The `Epochs` of a plan for sessions with canonical IDs. -/
structure Epochs where
  epochs : AList fun _ : String => UInt64
  canonical : ∀ session ∈ epochs, CanonicalID session

def Epochs.single (id : UInt64) (hid : id ≠ 0) (epoch : UInt64) : Epochs where
  epochs := AList.singleton (formatUint id) epoch
  canonical session hs := ⟨id, hid, by simpa [AList.mem_keys, AList.singleton, AList.keys] using hs⟩

@[simp] theorem Epochs.lookup_single (id : UInt64) (hid : id ≠ 0) (epoch : UInt64) :
    (single id hid epoch).epochs.lookup (formatUint id) = some epoch := by
  simp [single, AList.lookup, AList.singleton]

/-- Names are remembered with the number they denote. -/
def Parsed (fenced : AList fun _ : String => UInt64) : Prop :=
  ∀ session id, fenced.lookup session = some id → session = formatUint id

theorem Parsed.parseSession {fenced : AList fun _ : String => UInt64} (h : Parsed fenced)
    {session : String} (hs : CanonicalID session) : Parsed (parseSession fenced session) := by
  obtain ⟨id, -, rfl⟩ := hs
  unfold GatewayAgent.parseSession
  split_ifs with hm
  · exact h
  · rw [parseUint_formatUint]
    intro s id' hl
    by_cases hs : s = formatUint id
    · subst hs
      rw [AList.lookup_insert] at hl
      rw [Option.some.inj hl]
    · rw [AList.lookup_insert_ne hs] at hl
      exact h s id' hl

theorem mem_parseSession {fenced : AList fun _ : String => UInt64} {session s : String}
    (hs : CanonicalID session) : s ∈ parseSession fenced session ↔ s = session ∨ s ∈ fenced := by
  obtain ⟨id, -, rfl⟩ := hs
  unfold parseSession
  split_ifs with hm
  · exact ⟨Or.inr, fun h => h.elim (fun h => h ▸ hm) (fun h => h)⟩
  · rw [parseUint_formatUint]
    exact AList.mem_insert _

theorem foldl_parseSession {l : List String} (canonical : ∀ s ∈ l, CanonicalID s)
    {fenced : AList fun _ : String => UInt64} (h : Parsed fenced) :
    Parsed (l.foldl parseSession fenced) ∧ ∀ s, s ∈ l.foldl parseSession fenced ↔ s ∈ l ∨ s ∈ fenced := by
  induction l generalizing fenced with
  | nil => exact ⟨h, fun s => by simp⟩
  | cons session l ih =>
    have hs := canonical session (by simp)
    obtain ⟨parsed, mem⟩ := ih (fun s hl => canonical s (by simp [hl])) (h.parseSession hs)
    refine ⟨parsed, fun s => ?_⟩
    rw [List.foldl_cons, mem, mem_parseSession hs, List.mem_cons]
    tauto

theorem lookup_foldl_copySession (gate : EpochGate) {l : List (Sigma fun _ : String => UInt64)}
    (parsed : ∀ s ∈ l, s.1 = formatUint s.2) (next : AList fun _ : UInt64 => UInt64) (id : UInt64) :
    (l.foldl (copySession gate) next).lookup id =
      if formatUint id ∈ l.map Sigma.fst then
        (gate.known.lookup (formatUint id)).or (next.lookup id)
      else next.lookup id := by
  induction l generalizing next with
  | nil => simp
  | cons s l ih =>
    have copied : (copySession gate next s).lookup id =
        if s.2 = id then (gate.known.lookup (formatUint id)).or (next.lookup id)
        else next.lookup id := by
      have hs := parsed s (by simp)
      unfold copySession
      by_cases hid : s.2 = id
      · subst hid
        rw [if_pos rfl, hs]
        cases gate.known.lookup (formatUint s.2) <;> simp
      · rw [if_neg hid]
        cases gate.known.lookup s.1 with
        | none => rfl
        | some epoch => exact AList.lookup_insert_ne (Ne.symm hid)
    have mem : formatUint id ∈ (s :: l).map Sigma.fst ↔ s.2 = id ∨ formatUint id ∈ l.map Sigma.fst := by
      rw [List.map_cons, List.mem_cons, parsed s (by simp), formatUint_inj, eq_comm]
    rw [List.foldl_cons, ih (fun s hl => parsed s (by simp [hl])), copied]
    simp only [mem]
    by_cases hid : s.2 = id
    · simp only [hid, true_or, if_true]
      cases gate.known.lookup (formatUint id) <;> simp
    · simp only [hid, false_or, if_false]

/-- The fence holds what the gate knows. -/
structure Fenced (a : GatewayAgent) : Prop where
  parsed : Parsed a.fenced
  known : ∀ session, (a.gate.known.lookup session).isSome → session ∈ a.fenced
  fence : ∀ id, a.fence.lookup id = a.gate.known.lookup (formatUint id)

theorem fenced_new : Fenced new where
  parsed := fun _ _ h => by simp [new] at h
  known := fun _ h => by simp [new, EpochGate.empty] at h
  fence := fun _ => rfl

theorem Fenced.apply {a : GatewayAgent} (h : Fenced a) (p : Epochs) : Fenced (a.apply p.epochs) := by
  have canonical : ∀ s ∈ p.epochs.keys, CanonicalID s := fun s hs => p.canonical s hs
  obtain ⟨parsed, mem⟩ := foldl_parseSession canonical h.parsed
  have known : ∀ s, ((a.gate.updateAll p.epochs.entries).known.lookup s).isSome →
      s ∈ p.epochs.keys.foldl parseSession a.fenced := by
    intro s hs
    obtain ⟨cur, hcur⟩ := Option.isSome_iff_exists.1 hs
    rw [mem]
    rcases EpochGate.known_updateAll hcur with hk | hp
    · exact Or.inr (h.known s (by simp [hk]))
    · exact Or.inl (List.mem_map_of_mem hp)
  refine ⟨parsed, known, fun id => ?_⟩
  have entries : ∀ s ∈ (p.epochs.keys.foldl parseSession a.fenced).entries,
      s.1 = formatUint s.2 := fun s hs => parsed s.1 s.2 (AList.mem_lookup_iff.2 hs)
  refine (lookup_foldl_copySession _ entries ∅ id).trans ?_
  rw [AList.lookup_empty, Option.or_none]
  split_ifs with hid
  · rfl
  · -- a session that is not fenced is none the gate knows
    cases hk : (a.gate.updateAll p.epochs.entries).known.lookup (formatUint id) with
    | none => exact hk.symm
    | some epoch => exact absurd (known _ (by simp [hk])) hid

theorem Fenced.admits_eq {a : GatewayAgent} (hf : Fenced a) {h : SessionHeader} (hid : h.sessionID ≠ 0) :
    a.admits h = a.gate.admits (formatUint h.sessionID) h.epoch.toUInt64 := by
  rw [GatewayAgent.admits, if_neg hid, hf.fence, EpochGate.admits]
  cases a.gate.known.lookup (formatUint h.sessionID) with
  | none => rfl
  | some cur =>
    dsimp only
    by_cases hlt : h.epoch.toUInt64 < cur
    · simp [hlt, UInt64.not_le.2 hlt]
    · simp [hlt, UInt64.not_lt.1 hlt]

/-! ## Runs -/

/-- The agent after a run of `apply`. -/
def applied (plans : List Epochs) : GatewayAgent := plans.foldl (fun a p => a.apply p.epochs) new

theorem fenced_applied (plans : List Epochs) : Fenced (applied plans) := by
  unfold applied
  induction plans using List.reverseRecOn with
  | nil => exact fenced_new
  | append_singleton plans p ih =>
    rw [List.foldl_append]
    exact ih.apply p

theorem reached_applied {plans : List Epochs} {p : Epochs} (hp : p ∈ plans) {session : String}
    {e : UInt64} (he : p.epochs.lookup session = some e) :
    (applied plans).gate.Reached session e := by
  unfold applied
  induction plans using List.reverseRecOn with
  | nil => cases hp
  | append_singleton plans q ih =>
    rw [List.foldl_append]
    rcases List.mem_append.1 hp with hp | hp
    · exact (ih hp).updateAll q.epochs.entries
    · obtain rfl := List.mem_singleton.1 hp
      exact EpochGate.reached_updateAll _ (AList.mem_lookup_iff.1 he)

theorem known_applied {plans : List Epochs} {session : String} {cur : UInt64}
    (h : (applied plans).gate.known.lookup session = some cur) :
    ∃ p ∈ plans, p.epochs.lookup session = some cur := by
  unfold applied at h
  induction plans using List.reverseRecOn with
  | nil => simp [new, EpochGate.empty] at h
  | append_singleton plans q ih =>
    rw [List.foldl_append] at h
    rcases EpochGate.known_updateAll h with hk | hq
    · obtain ⟨p, hp, he⟩ := ih hk
      exact ⟨p, List.mem_append_left _ hp, he⟩
    · exact ⟨q, by simp, AList.mem_lookup_iff.2 hq⟩

/-- The lock-free fence decides as the gate does after any plans, and does not reopen: once a plan with session `s` at
epoch `e` is applied, no packet of `s` with an older epoch is admitted, also while a further plan has told the gate
some epochs (`part`) and not yet stored its fence. -/
theorem admits_refines_gate (plans : List Epochs) (h : SessionHeader) (hid : h.sessionID ≠ 0) :
    (applied plans).admits h = (applied plans).gate.admits (formatUint h.sessionID) h.epoch.toUInt64 ∧
    ∀ p ∈ plans, ∀ e, p.epochs.lookup (formatUint h.sessionID) = some e → h.epoch.toUInt64 < e →
      (applied plans).admits h = false ∧
      ∀ part, { applied plans with gate := (applied plans).gate.updateAll part }.admits h = false := by
  have hadm := (fenced_applied plans).admits_eq hid
  refine ⟨hadm, fun p hp e he hlt => ?_⟩
  have shut : (applied plans).admits h = false := by
    rw [hadm]
    exact EpochGate.admits_eq_false (reached_applied hp he) hlt
  exact ⟨shut, fun part => shut⟩

theorem admits_refines_gate_back : (applied [.single 7 (by decide) 3, .single 7 (by decide) 1]).admits
      ⟨version, packetTypeData, .upstream, 7, 2, 1⟩ = false :=
  ((admits_refines_gate [.single 7 (by decide) 3, .single 7 (by decide) 1]
    ⟨version, packetTypeData, .upstream, 7, 2, 1⟩ (by decide)).2
    (.single 7 (by decide) 3) (by simp) 3 (Epochs.lookup_single 7 (by decide) 3) (by decide)).1

end GatewayAgent

end Egressa
