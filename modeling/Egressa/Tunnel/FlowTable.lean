import Egressa.Partition
import Egressa.Tunnel.Flow

/-!
# Flow tables

A `FlowTable` (`internal/tunnel/flow.go`) pins a flow to the egress it was assigned when it was first seen, until the
flow has been idle for long enough.  A `ShardedFlowTable` (`shard.go`) is several of them, by a hash of the key.  A
policy may have a state of its own, which the shards share.
-/

namespace Egressa.Tunnel

open Bytes Maps
open IPsec (NetAddr)

variable {π : Type}

/-! ## One table -/

/-- `FlowPolicy`, with whatever state its closure has. -/
abbrev FlowPolicy (π : Type) : Type := FlowKey → π → String × π

structure FlowEntry where
  egressID : String
  createdAt : ℤ
  lastSeen : ℤ
  deriving DecidableEq, Repr

structure FlowTable where
  flows : Map FlowKey FlowEntry
  idleTTL : ℤ

def newFlowTable (idleTTL : ℤ) : FlowTable := ⟨∅, idleTTL⟩

namespace FlowTable

/-- The egress of a flow, pinned at its first packet. -/
def egress (policy : FlowPolicy π) (now : ℤ) (key : FlowKey) (t : FlowTable) (p : π) : String × FlowTable × π :=
  match t.flows.lookup key with
  | some entry =>
    (entry.egressID, { t with flows := t.flows.insert key { entry with lastSeen := now } }, p)
  | none =>
    let (egressID, p) := policy key p
    (egressID, { t with flows := t.flows.insert key ⟨egressID, now, now⟩ }, p)

def lookup (t : FlowTable) (key : FlowKey) : Option String := (t.flows.lookup key).map FlowEntry.egressID

def snapshot (t : FlowTable) (key : FlowKey) : Option FlowEntry := t.flows.lookup key

def len (t : FlowTable) : ℕ := t.flows.entries.length

def evict (cutoff : ℤ) (r : ℕ × Map FlowKey FlowEntry) (e : Entry FlowKey FlowEntry) : ℕ × Map FlowKey FlowEntry :=
  if e.2.lastSeen < cutoff then (r.1 + 1, r.2.erase e.1) else r

/-- Drops flows not seen for the idle time. -/
def evictIdle (now : ℤ) (t : FlowTable) : ℕ × FlowTable :=
  if t.idleTTL ≤ 0 then (0, t)
  else
    let (removed, flows) := t.flows.entries.foldl (evict (now - t.idleTTL)) (0, t.flows)
    (removed, { t with flows })

end FlowTable

/-! ## Shards -/

def hashByte (h b : UInt64) : UInt64 := (h ^^^ b) * 1099511628211

/-- FNV-1a over the fields of the key. -/
def hashFlowKey (key : FlowKey) : UInt64 :=
  let h := hashByte 14695981039346656037 key.proto.toUInt64
  let h := key.srcAddr.as16.foldl (fun h b => hashByte h b.toUInt64) h
  let h := hashByte h key.srcPort.toUInt64
  let h := key.dstAddr.as16.foldl (fun h b => hashByte h b.toUInt64) h
  hashByte h key.dstPort.toUInt64

abbrev ShardedFlowTable (n : ℕ) : Type := Fin (n + 1) → FlowTable

def newShardedFlowTable (n : ℕ) (idleTTL : ℤ) : ShardedFlowTable n := fun _ => newFlowTable idleTTL

def shardIndex (n : ℕ) (key : FlowKey) : Fin (n + 1) :=
  ⟨(hashFlowKey key).toNat % (n + 1), Nat.mod_lt _ (Nat.succ_pos n)⟩

namespace ShardedFlowTable

variable {n : ℕ}

/-- The call on the shard of the key. -/
def egress (policy : FlowPolicy π) (now : ℤ) (key : FlowKey) (s : ShardedFlowTable n) (p : π) :
    String × ShardedFlowTable n × π :=
  let (id, shard, p) := (s (shardIndex n key)).egress policy now key p
  (id, Function.update s (shardIndex n key) shard, p)

def lookup (s : ShardedFlowTable n) (key : FlowKey) : Option String := (s (shardIndex n key)).lookup key

def snapshot (s : ShardedFlowTable n) (key : FlowKey) : Option FlowEntry := (s (shardIndex n key)).snapshot key

def len (s : ShardedFlowTable n) : ℕ := (List.finRange (n + 1)).foldl (fun total i => total + (s i).len) 0

/-- `EvictIdle`.  Every shard reads the clock. -/
def evictIdle (now : Fin (n + 1) → ℤ) (s : ShardedFlowTable n) : ℕ × ShardedFlowTable n :=
  ((List.finRange (n + 1)).foldl (fun total i => total + ((s i).evictIdle (now i)).1) 0,
    fun i => ((s i).evictIdle (now i)).2)

end ShardedFlowTable

/-! ## Calls -/

/-- The calls on either table. -/
inductive FlowCall where
  | egress (key : FlowKey)
  | lookup (key : FlowKey)
  | snapshot (key : FlowKey)
  | len
  | evictIdle
  deriving DecidableEq

inductive FlowResult where
  | egress (id : String)
  | lookup (id : Option String)
  | snapshot (entry : Option FlowEntry)
  | len (n : ℕ)
  | evictIdle (removed : ℕ)
  deriving DecidableEq

def FlowTable.exec (policy : FlowPolicy π) (now : ℤ) (s : FlowTable × π) : FlowCall → FlowResult × FlowTable × π
  | .egress key => let (id, s') := s.1.egress policy now key s.2; (.egress id, s')
  | .lookup key => (.lookup (s.1.lookup key), s)
  | .snapshot key => (.snapshot (s.1.snapshot key), s)
  | .len => (.len s.1.len, s)
  | .evictIdle => let (removed, t) := s.1.evictIdle now; (.evictIdle removed, t, s.2)

def ShardedFlowTable.exec {n : ℕ} (policy : FlowPolicy π) (now : ℤ) (s : ShardedFlowTable n × π) :
    FlowCall → FlowResult × ShardedFlowTable n × π
  | .egress key => let (id, s') := s.1.egress policy now key s.2; (.egress id, s')
  | .lookup key => (.lookup (s.1.lookup key), s)
  | .snapshot key => (.snapshot (s.1.snapshot key), s)
  | .len => (.len s.1.len, s)
  | .evictIdle => let (removed, t) := s.1.evictIdle fun _ => now; (.evictIdle removed, t, s.2)

/-- The answers of a run of calls. -/
def results {σ : Type} (exec : ℤ → σ → FlowCall → FlowResult × σ) (s : σ) : List (ℤ × FlowCall) → List FlowResult
  | [] => []
  | c :: calls => (exec c.1 s c.2).1 :: results exec (exec c.1 s c.2).2 calls

/-! ## What the calls do -/

section Evict

variable {t : FlowTable} {now : ℤ}

theorem sweeps_evict (cutoff : ℤ) :
    Sweeps (Prod.snd : ℕ × Map FlowKey FlowEntry → Map FlowKey FlowEntry) (fun e => ¬ e.2.lastSeen < cutoff)
      (FlowTable.evict cutoff) where
  kept s e h := by rw [FlowTable.evict, if_neg h]
  dropped s e h := by rw [FlowTable.evict, if_pos (not_not.1 h)]

theorem length_erase {m : Map FlowKey FlowEntry} {key : FlowKey} {e : FlowEntry} (h : m.lookup key = some e) :
    (m.erase key).entries.length + 1 = m.entries.length := by
  have := (values_perm_erase h).length_eq
  simpa [values] using this.symm

theorem FlowTable.evictIdle_spec (t : FlowTable) (now : ℤ) :
    (t.evictIdle now).1 + (t.evictIdle now).2.len = t.len ∧ (t.evictIdle now).2.idleTTL = t.idleTTL ∧
    ∀ key e, (t.evictIdle now).2.flows.lookup key = some e ↔
      t.flows.lookup key = some e ∧ ¬ (0 < t.idleTTL ∧ e.lastSeen < now - t.idleTTL) := by
  unfold evictIdle
  split_ifs with off
  · refine ⟨Nat.zero_add _, rfl, fun key e => ?_⟩
    have : ¬ 0 < t.idleTTL := by omega
    simp [this]
  · have on : 0 < t.idleTTL := by omega
    obtain ⟨count, kept⟩ := (sweeps_evict (now - t.idleTTL)).foldl
      (P := fun r => r.1 + r.2.entries.length = t.flows.entries.length)
      (fun r e here hr => by
        unfold evict
        split_ifs
        · have := length_erase here
          simp only
          omega
        · exact hr)
      (s := (0, t.flows)) (List.Perm.refl _) (Nat.zero_add _)
    refine ⟨count, rfl, fun key e => ?_⟩
    simpa [on] using kept key e

end Evict

/-- What `Egress` does to the entry of its flow. -/
def pin (policy : FlowPolicy π) (now : ℤ) (key : FlowKey) (p : π) : Option FlowEntry → FlowEntry × π
  | some entry => ({ entry with lastSeen := now }, p)
  | none => (⟨(policy key p).1, now, now⟩, (policy key p).2)

theorem FlowTable.egress_eq (policy : FlowPolicy π) (now : ℤ) (key : FlowKey) (t : FlowTable) (p : π) :
    t.egress policy now key p = ((pin policy now key p (t.flows.lookup key)).1.egressID,
        { t with flows := t.flows.insert key (pin policy now key p (t.flows.lookup key)).1 },
        (pin policy now key p (t.flows.lookup key)).2) := by
  unfold egress
  cases t.flows.lookup key with
  | some entry => rfl
  | none => rfl

/-! ## A sharded table is one table -/

section Sharded

variable {n : ℕ} {s : ShardedFlowTable n} {t : FlowTable}

/-- The shards are the parts of one table. -/
structure Splits (s : ShardedFlowTable n) (t : FlowTable) : Prop where
  parts : Parts (shardIndex n) (fun i => (s i).flows) t.flows
  ttl : ∀ i, (s i).idleTTL = t.idleTTL

theorem Splits.new (n : ℕ) (idleTTL : ℤ) : Splits (newShardedFlowTable n idleTTL) (newFlowTable idleTTL) :=
  ⟨.empty, fun _ => rfl⟩

theorem foldl_finRange {k : ℕ} (f : Fin k → ℕ) :
    (List.finRange k).foldl (fun total i => total + f i) 0 = ∑ i, f i := by
  rw [Fin.sum_univ_def, List.sum_eq_foldl, List.foldl_map]

theorem Splits.len (splits : Splits s t) : s.len = t.len := by
  rw [ShardedFlowTable.len, foldl_finRange]
  exact splits.parts.length

theorem Splits.insert (splits : Splits s t) (key : FlowKey) (entry : FlowEntry) :
    Splits (Function.update s (shardIndex n key)
        { s (shardIndex n key) with flows := (s (shardIndex n key)).flows.insert key entry })
      { t with flows := t.flows.insert key entry } where
  parts := by
    have flows : (fun i => (Function.update s (shardIndex n key)
        { s (shardIndex n key) with flows := (s (shardIndex n key)).flows.insert key entry } i).flows) =
        Function.update (fun i => (s i).flows) (shardIndex n key) ((s (shardIndex n key)).flows.insert key entry) := by
      funext i
      by_cases hi : i = shardIndex n key
      · subst hi
        simp only [Function.update_self]
      · simp only [Function.update_of_ne hi]
    rw [flows]
    exact splits.parts.insert key entry
  ttl i := by
    by_cases hi : i = shardIndex n key
    · subst hi
      simp only [Function.update_self]
      exact splits.ttl _
    · simp only [Function.update_of_ne hi]
      exact splits.ttl i

theorem Splits.evictIdle (splits : Splits s t) (now : ℤ) : (s.evictIdle fun _ => now).1 = (t.evictIdle now).1 ∧
      Splits (s.evictIdle fun _ => now).2 (t.evictIdle now).2 := by
  have after : Splits (s.evictIdle fun _ => now).2 (t.evictIdle now).2 := by
    have shards : ∀ i key e, ((s i).evictIdle now).2.flows.lookup key = some e ↔
        (s i).flows.lookup key = some e ∧ ¬ (0 < t.idleTTL ∧ e.lastSeen < now - t.idleTTL) := by
      intro i key e
      rw [((s i).evictIdle_spec now).2.2 key e, splits.ttl i]
    refine ⟨splits.parts.sweep shards (t.evictIdle_spec now).2.2, fun i => ?_⟩
    · rw [(t.evictIdle_spec now).2.1, ← splits.ttl i]
      exact ((s i).evictIdle_spec now).2.1
  refine ⟨?_, after⟩
  -- each shard has removed what it has lost
  have hlen := after.len
  rw [ShardedFlowTable.len, foldl_finRange] at hlen
  have hbefore := splits.len
  rw [ShardedFlowTable.len, foldl_finRange] at hbefore
  have hsum : ∑ i, ((s i).evictIdle now).1 + ∑ i, ((s i).evictIdle now).2.len = ∑ i, (s i).len := by
    rw [← Finset.sum_add_distrib]
    exact Finset.sum_congr rfl fun i _ => ((s i).evictIdle_spec now).1
  have hone := (t.evictIdle_spec now).1
  rw [ShardedFlowTable.evictIdle] at hlen ⊢
  simp only at hlen ⊢
  rw [foldl_finRange]
  omega

theorem Splits.exec (splits : Splits s t) (policy : FlowPolicy π) (now : ℤ) (p : π) (call : FlowCall) :
    (ShardedFlowTable.exec policy now (s, p) call).1 = (FlowTable.exec policy now (t, p) call).1 ∧
    (ShardedFlowTable.exec policy now (s, p) call).2.2 = (FlowTable.exec policy now (t, p) call).2.2 ∧
    Splits (ShardedFlowTable.exec policy now (s, p) call).2.1 (FlowTable.exec policy now (t, p) call).2.1 := by
  cases call with
  | egress key =>
    have found := splits.parts.lookup key
    simp only [ShardedFlowTable.exec, ShardedFlowTable.egress, FlowTable.exec, FlowTable.egress_eq, found]
    exact ⟨trivial, trivial, splits.insert key _⟩
  | lookup key =>
    have found := splits.parts.lookup key
    simp only [ShardedFlowTable.exec, ShardedFlowTable.lookup, FlowTable.exec, FlowTable.lookup, found]
    exact ⟨trivial, trivial, splits⟩
  | snapshot key => exact ⟨congrArg FlowResult.snapshot (splits.parts.lookup key).symm, rfl, splits⟩
  | len => exact ⟨congrArg FlowResult.len splits.len, rfl, splits⟩
  | evictIdle =>
    obtain ⟨removed, after⟩ := splits.evictIdle now
    exact ⟨congrArg FlowResult.evictIdle removed, rfl, after⟩

theorem Splits.results (splits : Splits s t) (policy : FlowPolicy π) (p : π) (calls : List (ℤ × FlowCall)) :
    results (ShardedFlowTable.exec policy) (s, p) calls = results (FlowTable.exec policy) (t, p) calls := by
  induction calls generalizing s t p with
  | nil => rfl
  | cons c calls ih =>
    obtain ⟨result, state, after⟩ := splits.exec policy c.1 p c.2
    rw [Tunnel.results, Tunnel.results, result]
    congr 1
    rw [← Prod.mk.eta (p := (ShardedFlowTable.exec policy c.1 (s, p) c.2).2), state]
    exact ih after _

end Sharded

/-! ## Flows stay where they are -/

/-- When the flow was last asked for. -/
def lastSeen (key : FlowKey) (calls : List (ℤ × FlowCall)) : Option ℤ :=
  (calls.filterMap fun c => if c.2 = .egress key then some c.1 else none).getLast?

/-- Between two calls of `Egress` that return different egresses for a flow, there is one of `EvictIdle` when the
flow has been idle for more than the time allowed. -/
def Pinned (idleTTL : ℤ) (calls : List (ℤ × FlowCall)) (results : List FlowResult) : Prop :=
  ∀ (i j : ℕ) (key : FlowKey) (t t' : ℤ) (id id' : String), i < j →
    calls[i]? = some (t, .egress key) → results[i]? = some (.egress id) →
    calls[j]? = some (t', .egress key) → results[j]? = some (.egress id') → id ≠ id' →
    ∃ (m : ℕ) (now seen : ℤ), i < m ∧ m < j ∧ calls[m]? = some (now, .evictIdle) ∧
      lastSeen key (calls.take m) = some seen ∧ idleTTL < now - seen

section Pinned

variable {policy : FlowPolicy π} {key : FlowKey} {entry : FlowEntry} {s : FlowTable × π}

theorem FlowTable.exec_pinned (policy : FlowPolicy π) (now : ℤ) (call : FlowCall)
    (here : s.1.flows.lookup key = some entry) :
    (call = .evictIdle ∧ s.1.idleTTL < now - entry.lastSeen) ∨
    (exec policy now s call).2.1.flows.lookup key =
      some { entry with lastSeen := if call = .egress key then now else entry.lastSeen } := by
  cases call with
  | egress key' =>
    right
    simp only [exec, egress_eq, lookup_insert_eq]
    by_cases hkey : key = key'
    · subst hkey
      simp [here, pin]
    · have hne : FlowCall.egress key' ≠ .egress key := fun h => hkey (FlowCall.egress.inj h).symm
      rw [if_neg hkey, if_neg hne, here]
  | lookup _ | snapshot _ | len => exact Or.inr here
  | evictIdle =>
    have spec := (s.1.evictIdle_spec now).2.2 key entry
    by_cases old : 0 < s.1.idleTTL ∧ entry.lastSeen < now - s.1.idleTTL
    · exact Or.inl ⟨rfl, by omega⟩
    · exact Or.inr (spec.2 ⟨here, old⟩)

theorem FlowTable.exec_idleTTL (policy : FlowPolicy π) (now : ℤ) (s : FlowTable × π) (call : FlowCall) :
    (exec policy now s call).2.1.idleTTL = s.1.idleTTL := by
  cases call with
  | egress key => simp only [exec, egress_eq]
  | lookup _ | snapshot _ | len => rfl
  | evictIdle => exact (s.1.evictIdle_spec now).2.1

def after {σ : Type} (exec : ℤ → σ → FlowCall → FlowResult × σ) (s : σ) (calls : List (ℤ × FlowCall)) : σ :=
  calls.foldl (fun s c => (exec c.1 s c.2).2) s

theorem getElem?_results {σ : Type} {exec : ℤ → σ → FlowCall → FlowResult × σ} {s : σ} {calls : List (ℤ × FlowCall)}
    {i : ℕ} {c : ℤ × FlowCall} (hc : calls[i]? = some c) :
    (results exec s calls)[i]? = some (exec c.1 (after exec s (calls.take i)) c.2).1 := by
  induction calls generalizing s i with
  | nil => simp at hc
  | cons c₀ calls ih =>
    cases i with
    | zero =>
      obtain rfl : c₀ = c := by simpa using hc
      rfl
    | succ i => exact ih (by simpa using hc)

theorem take_succ_of_getElem? {α : Type} {l : List α} {i : ℕ} {a : α} (h : l[i]? = some a) :
    l.take (i + 1) = l.take i ++ [a] := by
  rw [List.take_add_one, h]
  rfl

theorem after_take_succ {σ : Type} (exec : ℤ → σ → FlowCall → FlowResult × σ) (s : σ)
    {calls : List (ℤ × FlowCall)} {i : ℕ} {c : ℤ × FlowCall} (hc : calls[i]? = some c) :
    after exec s (calls.take (i + 1)) = (exec c.1 (after exec s (calls.take i)) c.2).2 := by
  rw [take_succ_of_getElem? hc, after, List.foldl_append]
  rfl

theorem lastSeen_concat (key : FlowKey) (calls : List (ℤ × FlowCall)) (c : ℤ × FlowCall) :
    lastSeen key (calls ++ [c]) = if c.2 = .egress key then some c.1 else lastSeen key calls := by
  unfold lastSeen
  rw [List.filterMap_append]
  split_ifs with h <;> simp [h]

section

variable (policy : FlowPolicy π)

theorem after_idleTTL (s : FlowTable × π) (calls : List (ℤ × FlowCall)) :
    (after (FlowTable.exec policy) s calls).1.idleTTL = s.1.idleTTL := by
  induction calls generalizing s with
  | nil => rfl
  | cons c calls ih => exact (ih _).trans (FlowTable.exec_idleTTL policy c.1 s c.2)

theorem FlowTable.exec_egress (now : ℤ) (s : FlowTable × π) (key : FlowKey) :
    ∃ entry, (exec policy now s (.egress key)).2.1.flows.lookup key = some entry ∧ entry.lastSeen = now ∧
      (exec policy now s (.egress key)).1 = .egress entry.egressID := by
  simp only [exec, egress_eq, lookup_insert_eq, if_pos]
  refine ⟨_, rfl, ?_, rfl⟩
  cases s.1.flows.lookup key with
  | some entry => rfl
  | none => rfl

theorem pinned_since (s : FlowTable × π) {calls : List (ℤ × FlowCall)} {i : ℕ} {key : FlowKey}
    {now : ℤ} {id : String} (hi : calls[i]? = some (now, .egress key))
    (hid : (results (FlowTable.exec policy) s calls)[i]? = some (.egress id)) (d : ℕ) (hd : i + d < calls.length) :
    (∃ (m : ℕ) (now seen : ℤ), i < m ∧ m ≤ i + d ∧ calls[m]? = some (now, .evictIdle) ∧
      lastSeen key (calls.take m) = some seen ∧ s.1.idleTTL < now - seen) ∨
    ∃ entry : FlowEntry, (after (FlowTable.exec policy) s (calls.take (i + d + 1))).1.flows.lookup key = some entry ∧
      entry.egressID = id ∧ lastSeen key (calls.take (i + d + 1)) = some entry.lastSeen := by
  induction d with
  | zero =>
    right
    obtain ⟨entry, here, seen, result⟩ := FlowTable.exec_egress policy now
      (after (FlowTable.exec policy) s (calls.take i)) key
    rw [getElem?_results hi, result] at hid
    refine ⟨entry, ?_, by simpa using hid, ?_⟩
    · rw [Nat.add_zero, after_take_succ _ _ hi]
      exact here
    · rw [Nat.add_zero, take_succ_of_getElem? hi, lastSeen_concat, if_pos rfl, seen]
  | succ d ih =>
    have hc : calls[i + (d + 1)]? = some calls[i + (d + 1)] := List.getElem?_eq_getElem hd
    rcases ih (by omega) with ⟨m, now, seen, hm⟩ | ⟨entry, here, hegress, hseen⟩
    · exact Or.inl ⟨m, now, seen, hm.1, by omega, hm.2.2⟩
    rcases FlowTable.exec_pinned policy calls[i + (d + 1)].1 calls[i + (d + 1)].2 here with ⟨evicts, idle⟩ | still
    · refine Or.inl ⟨i + (d + 1), calls[i + (d + 1)].1, entry.lastSeen, by omega, le_rfl, ?_, hseen, ?_⟩
      · rw [hc, ← evicts]
      · rwa [after_idleTTL] at idle
    · refine Or.inr ⟨{ entry with lastSeen := if calls[i + (d + 1)].2 = .egress key then calls[i + (d + 1)].1
        else entry.lastSeen }, ?_, hegress, ?_⟩
      · rw [after_take_succ _ _ hc]
        exact still
      · rw [take_succ_of_getElem? hc, lastSeen_concat]
        split_ifs with h
        · rfl
        · exact hseen

theorem pinned_results (p : π) (idleTTL : ℤ) (calls : List (ℤ × FlowCall)) :
    Pinned idleTTL calls (results (FlowTable.exec policy) (newFlowTable idleTTL, p) calls) := by
  intro i j key t t' id id' hij hi hid hj hid' hne
  have hlen : j < calls.length := (List.getElem?_eq_some_iff.1 hj).1
  obtain ⟨d, rfl⟩ : ∃ d, j = i + d + 1 := ⟨j - i - 1, by omega⟩
  rcases pinned_since policy _ hi hid d (by omega) with ⟨m, now, seen, hm⟩ | ⟨entry, here, hegress, -⟩
  · exact ⟨m, now, seen, hm.1, by omega, hm.2.2⟩
  · refine absurd ?_ hne
    rw [getElem?_results hj] at hid'
    simpa [FlowTable.exec, FlowTable.egress_eq, here, pin, hegress] using hid'

end

end Pinned

/-- A table with any number of shards returns what a single table does, whatever the calls and the policy; a flow keeps
its egress in both, unless it was evicted when idle for too long. -/
theorem sharded_as_one (n : ℕ) (policy : FlowPolicy π) (p : π) (idleTTL : ℤ) (calls : List (ℤ × FlowCall)) :
    results (ShardedFlowTable.exec policy) (newShardedFlowTable n idleTTL, p) calls =
      results (FlowTable.exec policy) (newFlowTable idleTTL, p) calls ∧
    Pinned idleTTL calls (results (FlowTable.exec policy) (newFlowTable idleTTL, p) calls) ∧
    Pinned idleTTL calls (results (ShardedFlowTable.exec policy) (newShardedFlowTable n idleTTL, p) calls) := by
  have same := (Splits.new n idleTTL).results policy p calls
  refine ⟨same, pinned_results policy p idleTTL calls, ?_⟩
  rw [same]
  exact pinned_results policy p idleTTL calls

end Egressa.Tunnel
