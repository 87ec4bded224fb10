import Egressa.Conc.Discipline
import Egressa.Conc.Length
import Egressa.Tunnel.FlowTable

/-!
# A pool of workers

`WorkerPool.Submit` (`internal/tunnel/shard.go`) distributes the packets of a batch over scratch batches, one for each
shard of the flow table, hands each of them to the worker of the shard, and waits for the workers.  The channels are
unbuffered: who sends offers a value and waits until it is taken.  The pool is not closed meanwhile.
-/

namespace Egressa.Tunnel

open Conc Maps Slices
open Function (update update_of_ne update_self)

abbrev Packet : Type := List UInt8

/-! ## Batches -/

/-- `PacketBatch`: up to `cap` packets. -/
structure PacketBatch where
  packets : List Packet
  cap : ℕ

namespace PacketBatch

def add (b : PacketBatch) (pkt : Packet) : Bool × PacketBatch :=
  if b.cap ≤ b.packets.length then (false, b) else (true, { b with packets := b.packets ++ [pkt] })

end PacketBatch

variable {n : ℕ} {π : Type}

/-- The batches of the workers. -/
structure Scratch (n : ℕ) where
  batch : Fin (n + 1) → PacketBatch
  used : Fin (n + 1) → Bool

/-- `Submit`, before its loop over the packets. -/
def Scratch.reset (n cap : ℕ) : Scratch n := ⟨fun _ => ⟨[], cap⟩, fun _ => false⟩

/-- Puts a packet into the batch of its shard. -/
def Scratch.place (s : Scratch n) (pkt : Packet) : Scratch n :=
  match parseFlowKey pkt with
  | .ok key =>
    let id := shardIndex n key
    let (added, b) := (s.batch id).add pkt
    ⟨update s.batch id b, if added then update s.used id true else s.used⟩
  | _ => s

def scatter (n cap : ℕ) (batch : List Packet) : Scratch n := batch.foldl Scratch.place (.reset n cap)

/-- The packets that parse. -/
def accepted (batch : List Packet) : List (FlowKey × Packet) :=
  batch.filterMap fun pkt => match parseFlowKey pkt with
    | .ok key => some (key, pkt)
    | _ => none

def ofShard (n : ℕ) (batch : List Packet) (i : Fin (n + 1)) : List (FlowKey × Packet) :=
  (accepted batch).filter fun a => shardIndex n a.1 = i

/-! ## The pool -/

structure Handled (n : ℕ) where
  worker : Fin (n + 1)
  key : FlowKey
  egress : String
  pkt : Packet
  deriving DecidableEq

/-- The table, and the channels of the workers. -/
structure PoolState (n : ℕ) (π : Type) where
  table : ShardedFlowTable n
  policy : π
  work : Fin (n + 1) → Option (List Packet)
  done : Fin (n + 1) → Bool
  handled : List (Handled n)

/-- The operations, with a send in its two halves. -/
inductive PoolOp (n : ℕ) where
  | offerWork (i : Fin (n + 1)) (b : List Packet)
  | workTaken (i : Fin (n + 1))
  | recvWork (i : Fin (n + 1))
  | egress (i : Fin (n + 1)) (key : FlowKey)
  | handle (i : Fin (n + 1)) (key : FlowKey) (egress : String) (pkt : Packet)
  | offerDone (i : Fin (n + 1))
  | doneTaken (i : Fin (n + 1))
  | recvDone (i : Fin (n + 1))

def PoolOp.Res : PoolOp n → Type
  | recvWork _ => List Packet
  | egress _ _ => String
  | _ => Unit

abbrev PoolSig (n : ℕ) : Sig := ⟨PoolOp n, PoolOp.Res⟩

inductive PoolThread (n : ℕ) where
  | submit
  | worker (i : Fin (n + 1))
  deriving DecidableEq, Fintype

/-- The operations; what is not settled is what a reading of the clock gives. -/
def poolSystem (n : ℕ) (policy : FlowPolicy π) : System (PoolThread n) (PoolSig n) (PoolState n π) ℤ where
  exec now _ o s := match o with
    | .offerWork i b => if s.work i = none then some ((), { s with work := update s.work i (some b) }) else none
    | .workTaken i => if s.work i = none then some ((), s) else none
    | .recvWork i => (s.work i).map fun b => (b, { s with work := update s.work i none })
    | .egress i key =>
      let (id, shard, p) := (s.table i).egress policy now key s.policy
      some (id, { s with table := update s.table i shard, policy := p })
    | .handle i key egress pkt => some ((), { s with handled := s.handled ++ [⟨i, key, egress, pkt⟩] })
    | .offerDone i => if s.done i then none else some ((), { s with done := update s.done i true })
    | .doneTaken i => if s.done i then none else some ((), s)
    | .recvDone i => if s.done i then some ((), { s with done := update s.done i false }) else none

/-- The loop of `Submit` that hands out the work. -/
def sendAll (s : Scratch n) : List (Fin (n + 1)) → Prog (PoolSig n) Unit
  | [] => return
  | i :: is =>
    if s.used i then do
      Prog.call (S := PoolSig n) (.offerWork i (s.batch i).packets)
      Prog.call (S := PoolSig n) (.workTaken i)
      sendAll s is
    else sendAll s is

/-- The loop of `Submit` that waits for the workers. -/
def recvAll (s : Scratch n) : List (Fin (n + 1)) → Prog (PoolSig n) Unit
  | [] => return
  | i :: is =>
    if s.used i then do
      Prog.call (S := PoolSig n) (.recvDone i)
      recvAll s is
    else recvAll s is

def submit (cap : ℕ) (batch : List Packet) : Prog (PoolSig n) Unit := do
  sendAll (scatter n cap batch) (List.finRange (n + 1))
  recvAll (scatter n cap batch) (List.finRange (n + 1))

/-- The loop of `runWorker` over a batch. -/
def handleAll (i : Fin (n + 1)) : List Packet → Prog (PoolSig n) Unit
  | [] => return
  | pkt :: rest =>
    match parseFlowKey pkt with
    | .ok key => do
      let egress ← Prog.call (S := PoolSig n) (.egress i key)
      Prog.call (S := PoolSig n) (.handle i key egress pkt)
      handleAll i rest
    | _ => handleAll i rest

/-- The loop of a worker. -/
def runWorker (i : Fin (n + 1)) : Prog (PoolSig n) Unit :=
  Prog.iterate (fun _ : Unit => do
    let b ← Prog.call (S := PoolSig n) (.recvWork i)
    handleAll i b
    Prog.call (S := PoolSig n) (.offerDone i)
    Prog.call (S := PoolSig n) (.doneTaken i)
    return .inl ()) ()

def startPool (table : ShardedFlowTable n) (p : π) (cap : ℕ) (batch : List Packet) :
    Config (PoolThread n) (PoolSig n) (PoolState n π) Unit where
  pool
    | .submit => submit cap batch
    | .worker i => runWorker i
  world := ⟨⟨table, p, fun _ => none, fun _ => false, []⟩, []⟩

/-! ## One packet after another -/

/-- `FastPath.Decide`. -/
def fastPathDecide (policy : FlowPolicy π) (now : ℤ) (pkt : Packet) (table : ShardedFlowTable n) (p : π) :
    Outcome String (FlowKey × String) × ShardedFlowTable n × π :=
  match parseFlowKey pkt with
  | .ok key =>
    let (id, table, p) := table.egress policy now key p
    (.ok (key, id), table, p)
  | .err e => (.err e, table, p)
  | .panic => (.panic, table, p)

/-- What `FastPathDecide` decides for one packet after another, each with the time of its call. -/
def decided (policy : FlowPolicy π) : List (ℤ × Packet) → ShardedFlowTable n → π → List (FlowKey × String × Packet)
  | [], _, _ => []
  | (now, pkt) :: rest, table, p =>
    match fastPathDecide policy now pkt table p with
    | (.ok (key, id), table, p) => (key, id, pkt) :: decided policy rest table p
    | (_, table, p) => decided policy rest table p

/-- The policy looks at the key only. -/
def FlowPolicy.Is (policy : FlowPolicy π) (f : FlowKey → String) : Prop := ∀ key p, (policy key p).1 = f key

/-- Nothing of a batch is lost, handled twice, handled elsewhere or in another order, and the decisions are those
that are taken for one packet after another. -/
structure HandledAll (policy : FlowPolicy π) (table : ShardedFlowTable n) (p : π) (batch : List Packet)
    (handled : List (Handled n)) : Prop where
  once : (handled.map fun h => (h.worker, h.key, h.pkt)).Perm ((accepted batch).map fun a => (shardIndex n a.1, a))
  order : ∀ key, (handled.filter fun h => h.key = key).map Handled.pkt =
    ((accepted batch).filter fun a => a.1 = key).map Prod.snd
  results : ∀ f, policy.Is f → ∀ timed : List (ℤ × Packet), timed.map Prod.snd = batch →
    (handled.map fun h => (h.key, h.egress, h.pkt)).Perm (decided policy timed table p)

/-! ## What is in the scratch batches -/

theorem accepted_concat (batch : List Packet) (pkt : Packet) :
    accepted (batch ++ [pkt]) = accepted batch ++ accepted [pkt] := List.filterMap_append

variable {pkt : Packet}

theorem accepted_of_ok {key : FlowKey} (h : parseFlowKey pkt = .ok key) (rest : List Packet) :
    accepted (pkt :: rest) = (key, pkt) :: accepted rest := by
  simp [accepted, h]

theorem accepted_of_not_ok (h : ∀ key, parseFlowKey pkt ≠ .ok key) (rest : List Packet) :
    accepted (pkt :: rest) = accepted rest := by
  unfold accepted
  rw [List.filterMap_cons]
  split
  · rfl
  · rename_i heq
    split at heq
    · exact absurd ‹_› (h _)
    · cases heq

theorem ofShard_concat (batch : List Packet) (pkt : Packet) (i : Fin (n + 1)) :
    ofShard n (batch ++ [pkt]) i = ofShard n batch i ++ (accepted [pkt]).filter fun a => shardIndex n a.1 = i := by
  rw [ofShard, accepted_concat, List.filter_append]
  rfl

structure Holds (cap : ℕ) (b : PacketBatch) (used : Bool) (l : List (FlowKey × Packet)) : Prop where
  room : b.cap = cap
  packets : b.packets = (l.take cap).map Prod.snd
  flows : accepted b.packets = l.take cap
  marked : used = true ↔ l.take cap ≠ []

theorem Holds.add {cap : ℕ} {b : PacketBatch} {used : Bool} {l : List (FlowKey × Packet)}
    {key : FlowKey} (holds : Holds cap b used l) (h : parseFlowKey pkt = .ok key) :
    Holds cap (b.add pkt).2 ((b.add pkt).1 || used) (l ++ [(key, pkt)]) := by
  have length : b.packets.length = min cap l.length := by rw [holds.packets, List.length_map, List.length_take]
  unfold PacketBatch.add
  split_ifs with full
  · rw [holds.room] at full
    have same : (l ++ [(key, pkt)]).take cap = l.take cap := List.take_append_of_le_length (by omega)
    exact ⟨holds.room, by rw [same]; exact holds.packets, by rw [same]; exact holds.flows, by
      rw [same, Bool.false_or]
      exact holds.marked⟩
  · rw [holds.room] at full
    have all : l.take cap = l := List.take_of_length_le (by omega)
    have more : (l ++ [(key, pkt)]).take cap = l ++ [(key, pkt)] := List.take_of_length_le (by simp; omega)
    refine ⟨holds.room, ?_, ?_, ?_⟩
    · rw [more, holds.packets, all, List.map_append]
      rfl
    · rw [more, accepted_concat, holds.flows, all, accepted_of_ok h]
      rfl
    · simp [more]

theorem holds_scatter (n cap : ℕ) (batch : List Packet) (i : Fin (n + 1)) :
    Holds cap ((scatter n cap batch).batch i) ((scatter n cap batch).used i) (ofShard n batch i) := by
  induction batch using List.reverseRecOn with
  | nil => exact ⟨rfl, by simp [scatter, Scratch.reset, ofShard, accepted], by
      simp [scatter, Scratch.reset, ofShard, accepted], by simp [scatter, Scratch.reset, ofShard, accepted]⟩
  | append_singleton batch pkt ih =>
    have step : scatter n cap (batch ++ [pkt]) = (scatter n cap batch).place pkt := by
      rw [scatter, List.foldl_append]
      rfl
    rw [step, ofShard_concat, Scratch.place]
    cases h : parseFlowKey pkt with
    | err _ | panic =>
      rw [accepted_of_not_ok (by simp [h])]
      simpa [accepted] using ih
    | ok key =>
      rw [accepted_of_ok h]
      by_cases hi : shardIndex n key = i
      · subst hi
        have grown := ih.add h
        simp only [update_self]
        cases hadd : ((scatter n cap batch).batch (shardIndex n key)).add pkt with
        | mk added b =>
          rw [hadd] at grown
          cases added <;> simpa [accepted] using grown
      · have hi' : i ≠ shardIndex n key := fun h => hi h.symm
        simp only [update_of_ne hi']
        split_ifs
        · simpa [accepted, hi, hi'] using ih
        · simpa [accepted, hi] using ih

/-! ## What a thread may do -/

/-- What a worker is at. -/
inductive Work where
  | idle
  | working (rest : List (FlowKey × Packet))
  | pinned (key : FlowKey) (egress : String) (pkt : Packet) (rest : List (FlowKey × Packet))
  | reporting
  | retired

/-- What `Submit` or a worker has still to do. -/
inductive PoolDuty (n : ℕ) where
  | sending (l : List (Fin (n + 1)))
  | offered (i : Fin (n + 1)) (l : List (Fin (n + 1)))
  | collecting (l : List (Fin (n + 1)))
  | worker (i : Fin (n + 1)) (w : Work)

def Scratch.shards (s : Scratch n) : List (Fin (n + 1)) := (List.finRange (n + 1)).filter fun i => s.used i

namespace PoolDuty

def onward (s : Scratch n) : List (Fin (n + 1)) → PoolDuty n
  | [] => .collecting s.shards
  | i :: l => .sending (i :: l)

/-- The operations a thread may make where it is. -/
def next (s : Scratch n) : PoolDuty n → (o : (PoolSig n).Op) → (PoolSig n).Res o → Option (PoolDuty n)
  | .sending (i :: l), .offerWork j b, _ =>
    if j = i ∧ b = (s.batch i).packets then some (.offered i l) else none
  | .offered i l, .workTaken j, _ => if j = i then some (onward s l) else none
  | .collecting (i :: l), .recvDone j, _ => if j = i then some (.collecting l) else none
  | .worker i .idle, .recvWork j, b | .worker i .retired, .recvWork j, b =>
    if j = i then some (.worker i (.working (accepted b))) else none
  | .worker i (.working ((key, pkt) :: rest)), .egress j key', egress =>
    if j = i ∧ key' = key then some (.worker i (.pinned key egress pkt rest)) else none
  | .worker i (.pinned key egress pkt rest), .handle j key' egress' pkt', _ =>
    if j = i ∧ key' = key ∧ egress' = egress ∧ pkt' = pkt then some (.worker i (.working rest)) else none
  | .worker i (.working []), .offerDone j, _ => if j = i then some (.worker i .reporting) else none
  | .worker i .reporting, .doneTaken j, _ => if j = i then some (.worker i .retired) else none
  | _, _, _ => none

inductive Turn (s : Scratch n) : PoolDuty n → (o : (PoolSig n).Op) → (PoolSig n).Res o → PoolDuty n → Prop
  | offer {i : Fin (n + 1)} {l : List (Fin (n + 1))} {r : Unit} :
      Turn s (.sending (i :: l)) (.offerWork i (s.batch i).packets) r (.offered i l)
  | taken {i : Fin (n + 1)} {l : List (Fin (n + 1))} {r : Unit} : Turn s (.offered i l) (.workTaken i) r (onward s l)
  | collect {i : Fin (n + 1)} {l : List (Fin (n + 1))} {r : Unit} :
      Turn s (.collecting (i :: l)) (.recvDone i) r (.collecting l)
  | work {i : Fin (n + 1)} {k : Work} {b : List Packet} (free : k = .idle ∨ k = .retired) :
      Turn s (.worker i k) (.recvWork i) b (.worker i (.working (accepted b)))
  | pin {i : Fin (n + 1)} {key : FlowKey} {egress : String} {pkt : Packet} {rest : List (FlowKey × Packet)} :
      Turn s (.worker i (.working ((key, pkt) :: rest))) (.egress i key) egress
        (.worker i (.pinned key egress pkt rest))
  | handle {i : Fin (n + 1)} {key : FlowKey} {egress : String} {pkt : Packet} {rest : List (FlowKey × Packet)}
      {r : Unit} :
      Turn s (.worker i (.pinned key egress pkt rest)) (.handle i key egress pkt) r (.worker i (.working rest))
  | report {i : Fin (n + 1)} {r : Unit} : Turn s (.worker i (.working [])) (.offerDone i) r (.worker i .reporting)
  | retire {i : Fin (n + 1)} {r : Unit} : Turn s (.worker i .reporting) (.doneTaken i) r (.worker i .retired)

theorem Turn.of_next {s : Scratch n} {h h' : PoolDuty n} {o : (PoolSig n).Op} {r : (PoolSig n).Res o}
    (step : next s h o r = some h') : Turn s h o r h' := by
  unfold next at step
  split at step
  all_goals first | (split_ifs at step with cond; cases step) | cases step
  · obtain ⟨rfl, rfl⟩ := cond
    exact .offer
  · subst cond
    exact .taken
  · subst cond
    exact .collect
  · subst cond
    exact .work (.inl rfl)
  · subst cond
    exact .work (.inr rfl)
  · obtain ⟨rfl, rfl⟩ := cond
    exact .pin
  · obtain ⟨rfl, rfl, rfl, rfl⟩ := cond
    exact .handle
  · subst cond
    exact .report
  · subst cond
    exact .retire

end PoolDuty

section Follows

variable {s : Scratch n}

theorem follows_sendAll (l : List (Fin (n + 1))) :
    Follows (PoolDuty.next s) (sendAll s l) (fun _ h => h = .collecting s.shards)
      (PoolDuty.onward s (l.filter fun i => s.used i)) := by
  induction l with
  | nil => rfl
  | cons i l ih =>
    unfold sendAll
    by_cases used : s.used i = true
    · rw [if_pos used, List.filter_cons_of_pos used]
      exact fun _ => ⟨_, if_pos ⟨rfl, rfl⟩, fun _ => ⟨_, if_pos rfl, ih⟩⟩
    · rw [if_neg used, List.filter_cons_of_neg used]
      exact ih

theorem follows_recvAll (l : List (Fin (n + 1))) :
    Follows (PoolDuty.next s) (recvAll s l) (fun _ h => h = .collecting [])
      (.collecting (l.filter fun i => s.used i)) := by
  induction l with
  | nil => rfl
  | cons i l ih =>
    unfold recvAll
    by_cases used : s.used i = true
    · rw [if_pos used, List.filter_cons_of_pos used]
      exact fun _ => ⟨_, if_pos rfl, ih⟩
    · rw [if_neg used, List.filter_cons_of_neg used]
      exact ih

theorem follows_handleAll (i : Fin (n + 1)) (b : List Packet) :
    Follows (PoolDuty.next s) (handleAll i b) (fun _ h => h = .worker i (.working []))
      (.worker i (.working (accepted b))) := by
  induction b with
  | nil => rfl
  | cons pkt rest ih =>
    unfold handleAll
    cases h : parseFlowKey pkt with
    | err _ | panic =>
      rw [accepted_of_not_ok (by simp [h])]
      exact ih
    | ok key =>
      rw [accepted_of_ok h]
      exact fun egress => ⟨.worker i (.pinned key egress pkt (accepted rest)), if_pos ⟨rfl, rfl⟩,
        fun _ => ⟨_, if_pos ⟨rfl, rfl, rfl, rfl⟩, ih⟩⟩

theorem follows_runWorker (i : Fin (n + 1)) :
    Follows (PoolDuty.next s) (runWorker i) (fun _ _ => False) (.worker i .idle) := by
  refine Follows.iterate (fun _ h => h = .worker i .idle ∨ h = .worker i .retired) (Or.inl rfl) fun _ h hh b => ?_
  have recv : PoolDuty.next s h (.recvWork i) b = some (.worker i (.working (accepted b))) := by
    rcases hh with rfl | rfl <;> exact if_pos rfl
  refine ⟨_, recv, (follows_handleAll i b).andThen fun _ _ hh => ?_⟩
  subst hh
  exact fun _ => ⟨_, if_pos rfl, fun _ => ⟨_, if_pos rfl, Or.inr rfl⟩⟩

theorem follows_submit (cap : ℕ) (batch : List Packet) :
    Follows (PoolDuty.next (scatter n cap batch)) (submit cap batch) (fun _ h => h = .collecting [])
      (PoolDuty.onward (scatter n cap batch) (scatter n cap batch).shards) :=
  (follows_sendAll _).andThen fun _ _ hh => by
    subst hh
    exact follows_recvAll _

end Follows

/-! ## Where the work of a shard is -/

/-- What `Submit` knows of the work of a shard.  A shard without work stays `unsent`. -/
inductive View where
  | unsent
  | offered
  | sent
  | collected
  deriving DecidableEq

/-- How far a shard is. -/
def PoolDuty.view (s : Scratch n) (i : Fin (n + 1)) : PoolDuty n → View
  | .sending l => if i ∈ s.shards ∧ i ∉ l then .sent else .unsent
  | .offered j l => if i = j then .offered else if i ∈ s.shards ∧ i ∉ l then .sent else .unsent
  | .collecting l => if i ∈ l then .sent else if i ∈ s.shards then .collected else .unsent
  | .worker _ _ => .unsent

/-- Where the work of a shard is: `packets` is its scratch batch, and `log` what its worker has handled. -/
inductive At (packets : List Packet) (log : List (FlowKey × Packet)) (work : Option (List Packet)) (done : Bool) :
    View → Work → Prop
  | unsent (none : work = none) (quiet : done = false) (new : log = []) : At packets log work done .unsent .idle
  | offered (here : work = some packets) (quiet : done = false) (new : log = []) :
      At packets log work done .offered .idle
  | working {v : View} {rest : List (FlowKey × Packet)} (out : v = .offered ∨ v = .sent) (none : work = none)
      (quiet : done = false) (left : log ++ rest = accepted packets) : At packets log work done v (.working rest)
  | pinned {v : View} {key : FlowKey} {egress : String} {pkt : Packet} {rest : List (FlowKey × Packet)}
      (out : v = .offered ∨ v = .sent) (none : work = none) (quiet : done = false)
      (left : log ++ (key, pkt) :: rest = accepted packets) :
      At packets log work done v (.pinned key egress pkt rest)
  | reporting {v : View} (out : v = .offered ∨ v = .sent) (none : work = none) (reports : done = true)
      (all : log = accepted packets) : At packets log work done v .reporting
  | reported {w : Work} (ends : w = .reporting ∨ w = .retired) (none : work = none) (quiet : done = false)
      (all : log = accepted packets) : At packets log work done .collected w

def logOf (i : Fin (n + 1)) (s : PoolState n π) : List (FlowKey × Packet) :=
  (s.handled.filter fun h => h.worker = i).map fun h => (h.key, h.pkt)

def PoolDuty.Along (s : Scratch n) : PoolDuty n → Prop
  | .sending l | .collecting l => l <:+ s.shards
  | .offered i l => i :: l <:+ s.shards
  | .worker _ _ => False

/-- The operations left, for termination. -/
def PoolDuty.left (s : Scratch n) : PoolDuty n → ℕ
  | .sending l => 2 * l.length + s.shards.length
  | .offered _ l => 1 + 2 * l.length + s.shards.length
  | .collecting l => l.length
  | .worker i .idle => 3 + 2 * (accepted (s.batch i).packets).length
  | .worker _ (.working rest) => 2 + 2 * rest.length
  | .worker _ (.pinned _ _ _ rest) => 3 + 2 * rest.length
  | .worker _ .reporting => 1
  | .worker _ .retired => 0

namespace PoolDuty

variable {s : Scratch n} {l : List (Fin (n + 1))}

theorem along_onward (along : l <:+ s.shards) : (onward s l).Along s := by
  cases l with
  | nil => exact List.suffix_rfl
  | cons => exact along

theorem left_onward : (onward s l).left s = 2 * l.length + s.shards.length := by
  cases l with
  | nil => simp [onward, left]
  | cons => rfl

theorem view_onward {i : Fin (n + 1)} : (onward s l).view s i = if i ∈ s.shards ∧ i ∉ l then .sent else .unsent := by
  cases l with
  | nil => by_cases h : i ∈ s.shards <;> simp [onward, view, h]
  | cons => rfl

end PoolDuty

namespace At

variable {packets : List Packet} {log : List (FlowKey × Packet)} {work : Option (List Packet)} {done : Bool}
  {v : View} {k : Work}

theorem here (at_ : At packets log work done v k) {b : List Packet} (found : work = some b) :
    b = packets ∧ k = .idle ∧ v = .offered ∧ done = false ∧ log = [] := by
  subst found
  cases at_ with
  | offered here quiet new => exact ⟨Option.some.inj here, rfl, rfl, quiet, new⟩
  | unsent none | working _ none | pinned _ none | reporting _ none | reported _ none => cases none

theorem of_working {rest : List (FlowKey × Packet)} (at_ : At packets log work done v (.working rest)) :
    (v = .offered ∨ v = .sent) ∧ work = none ∧ done = false ∧ log ++ rest = accepted packets := by
  cases at_ with
  | working out none quiet left => exact ⟨out, none, quiet, left⟩
  | reported ends => cases ends <;> contradiction

theorem of_pinned {key : FlowKey} {egress : String} {pkt : Packet} {rest : List (FlowKey × Packet)}
    (at_ : At packets log work done v (.pinned key egress pkt rest)) :
    (v = .offered ∨ v = .sent) ∧ work = none ∧ done = false ∧ log ++ (key, pkt) :: rest = accepted packets := by
  cases at_ with
  | pinned out none quiet left => exact ⟨out, none, quiet, left⟩
  | reported ends => cases ends <;> contradiction

theorem taken (at_ : At packets log work done .offered k) (free : work = none) : At packets log work done .sent k := by
  cases at_ with
  | offered here => rw [here] at free; cases free
  | working out none quiet left => exact .working (.inr rfl) none quiet left
  | pinned out none quiet left => exact .pinned (.inr rfl) none quiet left
  | reporting out none reports all => exact .reporting (.inr rfl) none reports all

theorem collected (at_ : At packets log work done .sent k) (reports : done = true) :
    At packets log work false .collected k := by
  cases at_ with
  | working _ _ quiet | pinned _ _ quiet => rw [quiet] at reports; cases reports
  | reporting _ none _ all => exact .reported (.inl rfl) none rfl all

theorem retired (at_ : At packets log work done v .reporting) (quiet : ¬ done = true) :
    At packets log work done v .retired := by
  cases at_ with
  | reporting _ _ reports => exact absurd reports quiet
  | reported _ none quiet all => exact .reported (.inr rfl) none quiet all

end At

def egressOf (f : FlowKey → String) (table : ShardedFlowTable n) (key : FlowKey) : String :=
  ((table (shardIndex n key)).flows.lookup key).elim (f key) FlowEntry.egressID

theorem egressOf_egress {policy : FlowPolicy π} {f : FlowKey → String} (pure : policy.Is f) (now : ℤ)
    (table : ShardedFlowTable n) {i : Fin (n + 1)} {key : FlowKey} (hi : shardIndex n key = i) (p : π) :
    ((table i).egress policy now key p).1 = egressOf f table key ∧
    ∀ key', egressOf f (update table i ((table i).egress policy now key p).2.1) key' = egressOf f table key' := by
  have entry : (pin policy now key p ((table i).flows.lookup key)).1.egressID =
      ((table i).flows.lookup key).elim (f key) FlowEntry.egressID := by
    cases (table i).flows.lookup key with
    | some entry => rfl
    | none => exact pure key p
  rw [FlowTable.egress_eq]
  simp only [egressOf]
  refine ⟨by rw [hi]; exact entry, fun key' => ?_⟩
  by_cases hshard : shardIndex n key' = i
  · rw [hshard, update_self]
    simp only [lookup_insert_eq]
    by_cases hkey : key' = key
    · rw [if_pos hkey, hkey, ← entry]
      rfl
    · rw [if_neg hkey]
  · rw [update_of_ne hshard]

theorem decided_eq {policy : FlowPolicy π} {f : FlowKey → String} (pure : policy.Is f) (timed : List (ℤ × Packet))
    (table : ShardedFlowTable n) (p : π) :
    decided policy timed table p = (accepted (timed.map Prod.snd)).map fun a => (a.1, egressOf f table a.1, a.2) := by
  induction timed generalizing table p with
  | nil => rfl
  | cons call rest ih =>
    obtain ⟨now, pkt⟩ := call
    unfold decided fastPathDecide
    cases h : parseFlowKey pkt with
    | err _ | panic =>
      rw [List.map_cons, accepted_of_not_ok (by simp [h])]
      exact ih table p
    | ok key =>
      obtain ⟨first, same⟩ := egressOf_egress pure now table (rfl : shardIndex n key = _) p
      rw [List.map_cons, accepted_of_ok h, List.map_cons]
      refine congrArg₂ List.cons (congrArg (fun e => (key, e, pkt)) first) ?_
      rw [ih]
      exact List.map_congr_left fun a _ => congrArg (fun e => (a.1, e, a.2)) (same a.1)

/-- The invariant of the pool. -/
structure Dispatched (policy : FlowPolicy π) (table : ShardedFlowTable n) (scr : Scratch n)
    (w : World (PoolThread n) (PoolSig n) (PoolState n π)) (hs : PoolThread n → PoolDuty n) : Prop where
  along : (hs .submit).Along scr
  shard : ∀ i, ∃ k, hs (.worker i) = .worker i k ∧
    At (scr.batch i).packets (logOf i w.st) (w.st.work i) (w.st.done i) ((hs .submit).view scr i) k
  count : w.hist.length + ∑ t, (hs t).left scr =
    3 * scr.shards.length + ∑ i, (3 + 2 * (accepted (scr.batch i).packets).length)
  pins : ∀ f, policy.Is f → ∀ key, egressOf f w.st.table key = egressOf f table key
  handled : ∀ f, policy.Is f → ∀ h ∈ w.st.handled, h.egress = egressOf f table h.key
  pinned : ∀ f, policy.Is f → ∀ i key egress pkt rest,
    hs (.worker i) = .worker i (.pinned key egress pkt rest) → egress = egressOf f table key

section Dispatched

variable {policy : FlowPolicy π} {table : ShardedFlowTable n} {scr : Scratch n}
  {w : World (PoolThread n) (PoolSig n) (PoolState n π)} {hs : PoolThread n → PoolDuty n}
  {o : (PoolSig n).Op} {r : (PoolSig n).Res o} {s' : PoolState n π}

namespace Dispatched

variable {h' : PoolDuty n}

section

variable (inv : Dispatched policy table scr w hs)
include inv

theorem count_push (t : PoolThread n) (left : h'.left scr + 1 = (hs t).left scr) :
    (w.push t o r s').hist.length + ∑ u, (update hs t h' u).left scr =
      3 * scr.shards.length + ∑ i, (3 + 2 * (accepted (scr.batch i).packets).length) := by
  have total := inv.count
  have sum := sum_update (PoolDuty.left scr) hs t h'
  rw [World.push_hist, List.length_append, List.length_singleton]
  omega

theorem bySubmit (along : h'.Along scr)
    (left : h'.left scr + 1 = (hs .submit).left scr) (sameTable : s'.table = w.st.table)
    (sameLog : s'.handled = w.st.handled)
    (shard : ∀ i k, At (scr.batch i).packets (logOf i w.st) (w.st.work i) (w.st.done i) ((hs .submit).view scr i) k →
      At (scr.batch i).packets (logOf i w.st) (s'.work i) (s'.done i) (h'.view scr i) k) :
    Dispatched policy table scr (w.push .submit o r s') (update hs .submit h') where
  along := by rwa [update_self]
  shard i := by
    obtain ⟨k, hk, at_⟩ := inv.shard i
    refine ⟨k, by rw [update_of_ne (by simp), hk], ?_⟩
    have hlog : logOf i s' = logOf i w.st := by rw [logOf, sameLog, logOf]
    rw [update_self, World.push_st, hlog]
    exact shard i k at_
  count := inv.count_push .submit left
  pins f pure key := by rw [World.push_st, sameTable, inv.pins f pure]
  handled f pure h hh := inv.handled f pure h (by rwa [World.push_st, sameLog] at hh)
  pinned f pure i key egress pkt rest hi :=
    inv.pinned f pure i key egress pkt rest (by rwa [update_of_ne (by simp)] at hi)

theorem byWorker {i : Fin (n + 1)} {k k' : Work} (hk : hs (.worker i) = .worker i k)
    (left : (PoolDuty.worker i k').left scr + 1 = (PoolDuty.worker i k).left scr)
    (shard : At (scr.batch i).packets (logOf i s') (s'.work i) (s'.done i) ((hs .submit).view scr i) k')
    (others : ∀ j, j ≠ i → logOf j s' = logOf j w.st ∧ s'.work j = w.st.work j ∧ s'.done j = w.st.done j)
    (sameTable : ∀ f, policy.Is f → ∀ key, egressOf f s'.table key = egressOf f table key)
    (log : ∀ f, policy.Is f → ∀ h ∈ s'.handled, h.egress = egressOf f table h.key)
    (pinned : ∀ f, policy.Is f → ∀ key egress pkt rest, k' = .pinned key egress pkt rest →
      egress = egressOf f table key) :
    Dispatched policy table scr (w.push (.worker i) o r s') (update hs (.worker i) (.worker i k')) where
  along := by
    rw [update_of_ne (by simp)]
    exact inv.along
  shard j := by
    rw [update_of_ne (show PoolThread.submit ≠ .worker i by simp), World.push_st]
    by_cases hj : j = i
    · subst hj
      exact ⟨k', update_self _ _ _, shard⟩
    · obtain ⟨kj, hkj, at_⟩ := inv.shard j
      obtain ⟨hlog, hwork, hdone⟩ := others j hj
      refine ⟨kj, by rw [update_of_ne (by simpa using hj), hkj], ?_⟩
      rwa [hlog, hwork, hdone]
  count := inv.count_push (.worker i) (by rw [hk]; exact left)
  pins := sameTable
  handled := log
  pinned f pure j key egress pkt rest hj := by
    by_cases hji : j = i
    · subst hji
      rw [update_self] at hj
      have : k' = .pinned key egress pkt rest := by injection hj
      exact pinned f pure key egress pkt rest this
    · rw [update_of_ne (by simpa using hji)] at hj
      exact inv.pinned f pure j key egress pkt rest hj

theorem push_submit {now : ℤ} (exec : (poolSystem n policy).exec now .submit o w.st = some (r, s'))
    (turn : PoolDuty.Turn scr (hs .submit) o r h') :
    Dispatched policy table scr (w.push .submit o r s') (update hs .submit h') := by
  have along := inv.along
  have nodup : scr.shards.Nodup := (List.nodup_finRange _).filter _
  generalize hh : hs .submit = h at turn along
  cases turn with
  | @offer i l =>
    change (if w.st.work i = none then some _ else none) = some _ at exec
    split_ifs at exec with free
    cases exec
    have rest : i ∉ l := (List.nodup_cons.mp (nodup.sublist along.sublist)).1
    refine inv.bySubmit along (by rw [hh]; simp only [PoolDuty.left, List.length_cons]; omega) rfl rfl fun j k at_ => ?_
    rw [hh] at at_
    by_cases hj : j = i
    · subst hj
      have before : (PoolDuty.sending (j :: l)).view scr j = .unsent := by simp [PoolDuty.view]
      have after : (PoolDuty.offered j l).view scr j = .offered := by simp [PoolDuty.view]
      rw [before] at at_
      rw [after]
      cases at_ with
      | unsent _ quiet new => exact .offered (update_self _ _ _) quiet new
      | working out | pinned out | reporting out => cases out <;> contradiction
    · have same : (PoolDuty.offered i l).view scr j = (PoolDuty.sending (i :: l)).view scr j :=
        by simp [PoolDuty.view, hj]
      rw [same]
      simpa only [update_of_ne hj] using at_
  | @taken i l =>
    change (if w.st.work i = none then some _ else none) = some _ at exec
    split_ifs at exec with free
    cases exec
    have rest : i ∉ l := (List.nodup_cons.mp (nodup.sublist along.sublist)).1
    have mem : i ∈ scr.shards := along.subset List.mem_cons_self
    refine inv.bySubmit (PoolDuty.along_onward ((List.suffix_cons i l).trans along))
      (by rw [hh, PoolDuty.left_onward]; simp only [PoolDuty.left]; omega) rfl rfl fun j k at_ => ?_
    rw [hh] at at_
    rw [PoolDuty.view_onward]
    by_cases hj : j = i
    · subst hj
      have before : (PoolDuty.offered j l).view scr j = .offered := by simp [PoolDuty.view]
      rw [before] at at_
      rw [if_pos ⟨mem, rest⟩]
      exact at_.taken free
    · simpa only [PoolDuty.view, if_neg hj] using at_
  | @collect i l =>
    change (if w.st.done i = true then some _ else none) = some _ at exec
    split_ifs at exec with reports
    cases exec
    have rest : i ∉ l := (List.nodup_cons.mp (nodup.sublist along.sublist)).1
    have mem : i ∈ scr.shards := along.subset List.mem_cons_self
    refine inv.bySubmit ((List.suffix_cons i l).trans along) (by rw [hh]; rfl) rfl rfl fun j k at_ => ?_
    rw [hh] at at_
    by_cases hj : j = i
    · subst hj
      have before : (PoolDuty.collecting (j :: l)).view scr j = .sent := by simp [PoolDuty.view]
      have after : (PoolDuty.collecting l).view scr j = .collected := by simp [PoolDuty.view, rest, mem]
      rw [before] at at_
      rw [after]
      simpa only [update_self] using at_.collected reports
    · have same : (PoolDuty.collecting l).view scr j = (PoolDuty.collecting (i :: l)).view scr j :=
        by simp [PoolDuty.view, hj]
      rw [same]
      simpa only [update_of_ne hj] using at_
  | work | pin | handle | report | retire => exact along.elim

theorem push_worker
    (homed : ∀ i, ∀ a ∈ accepted (scr.batch i).packets, shardIndex n a.1 = i) {now : ℤ} {i : Fin (n + 1)}
    (exec : (poolSystem n policy).exec now (.worker i) o w.st = some (r, s')) {k : Work}
    (hk : hs (.worker i) = .worker i k)
    (at_ : At (scr.batch i).packets (logOf i w.st) (w.st.work i) (w.st.done i) ((hs .submit).view scr i) k)
    (turn : PoolDuty.Turn scr (.worker i k) o r h') :
    Dispatched policy table scr (w.push (.worker i) o r s') (update hs (.worker i) h') := by
  cases turn with
  | @work _ _ b free =>
    cases found : w.st.work i with
    | none =>
      change (w.st.work i).map _ = some _ at exec
      rw [found] at exec
      cases exec
    | some b' =>
      change (w.st.work i).map _ = some _ at exec
      rw [found] at exec
      cases exec
      obtain ⟨rfl, rfl, out, quiet, new⟩ := at_.here found
      refine inv.byWorker hk (by simp only [PoolDuty.left]; omega) ?_ (fun j hj => ⟨rfl, update_of_ne hj _ _, rfl⟩)
        inv.pins inv.handled fun _ _ _ _ _ _ h => by cases h
      exact .working (.inl out) (update_self _ _ _) quiet (by
        change logOf i w.st ++ _ = _
        rw [new]
        rfl)
  | @pin _ key egress pkt rest =>
    obtain ⟨out, none, quiet, left⟩ := at_.of_working
    have home : shardIndex n key = i := homed i (key, pkt) (by rw [← left]; simp)
    cases exec
    refine inv.byWorker hk (by simp only [PoolDuty.left, List.length_cons]; omega) (.pinned out none quiet left)
      (fun j _ => ⟨rfl, rfl, rfl⟩) ?_ inv.handled ?_
    · intro f pure key'
      exact ((egressOf_egress pure now w.st.table home w.st.policy).2 key').trans (inv.pins f pure key')
    · intro f pure key' egress' pkt' rest' h
      cases h
      exact (egressOf_egress pure now w.st.table home w.st.policy).1.trans (inv.pins f pure key)
  | @handle _ key egress pkt rest =>
    obtain ⟨out, none, quiet, left⟩ := at_.of_pinned
    cases exec
    refine inv.byWorker hk (by simp only [PoolDuty.left]; omega) (.working out none quiet ?_)
      (fun j hj => ⟨by simp [logOf, hj.symm], rfl, rfl⟩) inv.pins ?_ fun _ _ _ _ _ _ h => by cases h
    · rw [← left]
      simp [logOf]
    · intro f pure h hmem
      rcases List.mem_append.mp hmem with old | new
      · exact inv.handled f pure h old
      · rw [List.mem_singleton.mp new]
        exact inv.pinned f pure i key egress pkt rest hk
  | report =>
    obtain ⟨out, none, quiet, left⟩ := at_.of_working
    change (if w.st.done i = true then _ else some _) = some _ at exec
    rw [quiet] at exec
    cases exec
    rw [List.append_nil] at left
    exact inv.byWorker hk rfl (.reporting out none (update_self _ _ _) left)
      (fun j hj => ⟨rfl, rfl, update_of_ne hj _ _⟩) inv.pins inv.handled fun _ _ _ _ _ _ h => by cases h
  | retire =>
    change (if w.st.done i = true then _ else some _) = some _ at exec
    split_ifs at exec with reports
    cases exec
    refine inv.byWorker hk rfl ?_ (fun _ _ => ⟨rfl, rfl, rfl⟩) inv.pins inv.handled fun _ _ _ _ _ _ h => by cases h
    exact at_.retired reports

theorem push (homed : ∀ i, ∀ a ∈ accepted (scr.batch i).packets, shardIndex n a.1 = i) {now : ℤ} {t : PoolThread n}
    (exec : (poolSystem n policy).exec now t o w.st = some (r, s'))
    (next : PoolDuty.next scr (hs t) o r = some h') :
    Dispatched policy table scr (w.push t o r s') (update hs t h') := by
  cases t with
  | submit => exact inv.push_submit exec (.of_next next)
  | worker i =>
    obtain ⟨k, hk, at_⟩ := inv.shard i
    rw [hk] at next
    exact inv.push_worker homed exec hk at_ (.of_next next)

end

end Dispatched

end Dispatched

/-! ## Runs -/

section Runs

variable {policy : FlowPolicy π} {table : ShardedFlowTable n} {p : π} {cap : ℕ} {batch : List Packet}
  {c : Config (PoolThread n) (PoolSig n) (PoolState n π) Unit}

theorem active_sendAll (s : Scratch n) (l : List (Fin (n + 1))) : (sendAll s l).Active := by
  induction l with
  | nil => trivial
  | cons i l ih =>
    unfold sendAll
    split_ifs
    · exact fun _ _ => ih
    · exact ih

theorem active_recvAll (s : Scratch n) (l : List (Fin (n + 1))) : (recvAll s l).Active := by
  induction l with
  | nil => trivial
  | cons i l ih =>
    unfold recvAll
    split_ifs
    · exact fun _ => ih
    · exact ih

theorem active_handleAll (i : Fin (n + 1)) (b : List Packet) : (handleAll i b).Active := by
  induction b with
  | nil => trivial
  | cons pkt rest ih =>
    unfold handleAll
    split
    · exact fun _ _ => ih
    · exact ih

theorem active_runWorker (i : Fin (n + 1)) : (runWorker i).Active :=
  ⟨fun _ => ⟨⟨_, _, rfl⟩, fun b => (active_handleAll i b).bind fun _ _ _ => trivial⟩, fun _ => trivial⟩

theorem active_startPool (t : PoolThread n) : ((startPool table p cap batch).pool t).Active := by
  cases t with
  | submit => exact (active_sendAll _ _).bind fun _ => active_recvAll _ _
  | worker i => exact active_runWorker i

def duties (n cap : ℕ) (batch : List Packet) : PoolThread n → PoolDuty n
  | .submit => .onward (scatter n cap batch) (scatter n cap batch).shards
  | .worker i => .worker i .idle

theorem mem_shards {s : Scratch n} {i : Fin (n + 1)} : i ∈ s.shards ↔ s.used i = true := by
  simp [Scratch.shards]

theorem sum_poolThread (f : PoolThread n → ℕ) : ∑ t, f t = f .submit + ∑ i, f (.worker i) := by
  let e : PoolThread n ≃ Option (Fin (n + 1)) :=
    { toFun := fun
        | .submit => none
        | .worker i => some i
      invFun := fun
        | none => .submit
        | some i => .worker i
      left_inv := by rintro (_ | _) <;> rfl
      right_inv := by rintro (_ | _) <;> rfl }
  rw [← e.symm.sum_comp, Fintype.sum_option]
  rfl

theorem dispatched_start : Dispatched policy table (scatter n cap batch) (startPool table p cap batch).world
    (duties n cap batch) where
  along := PoolDuty.along_onward List.suffix_rfl
  shard i := by
    refine ⟨.idle, rfl, ?_⟩
    have view : (duties n cap batch .submit).view (scatter n cap batch) i = .unsent := by
      rw [duties, PoolDuty.view_onward, if_neg (by tauto)]
    rw [view]
    exact .unsent rfl rfl rfl
  count := by
    rw [sum_poolThread]
    change 0 + ((PoolDuty.onward _ _).left _ + _) = _
    rw [PoolDuty.left_onward]
    simp only [duties, PoolDuty.left]
    omega
  pins _ _ _ := rfl
  handled _ _ _ h := by cases h
  pinned _ _ _ _ _ _ _ h := by cases h

theorem homed_scatter (i : Fin (n + 1)) :
    ∀ a ∈ accepted ((scatter n cap batch).batch i).packets, shardIndex n a.1 = i := by
  intro a ha
  rw [(holds_scatter n cap batch i).flows] at ha
  have mem := List.mem_of_mem_take ha
  simpa using (List.mem_filter.mp mem).2

def PoolEnds (t : PoolThread n) (_ : Unit) (h : PoolDuty n) : Prop := t = .submit ∧ h = .collecting []

theorem tracked_start : Tracked (PoolDuty.next (scatter n cap batch)) PoolEnds
    (startPool table p cap batch) (duties n cap batch) := by
  intro t
  cases t with
  | submit => exact (follows_submit cap batch).mono fun _ _ hh => ⟨rfl, hh⟩
  | worker i => exact (follows_runWorker i).mono fun _ _ no => no.elim

/-- The invariant along every run. -/
theorem dispatched_reaches (reach : (startPool table p cap batch).Reaches (poolSystem n policy) c) :
    ∃ hs, Tracked (PoolDuty.next (scatter n cap batch)) PoolEnds c hs ∧
      Dispatched policy table (scatter n cap batch) c.world hs :=
  tracked_start.reaches (fun _ _ _ _ _ _ _ _ inv exec next => inv.push homed_scatter exec next) dispatched_start reach

theorem bounded_run {sched : List (PoolThread n × ℤ)}
    (run : Config.run? (poolSystem n policy) sched (startPool table p cap batch) = some c) :
    sched.length ≤ 2 * (3 * (scatter n cap batch).shards.length +
      ∑ i, (3 + 2 * (accepted ((scatter n cap batch).batch i).packets).length)) +
      ∑ t, ((startPool table p cap batch).pool t).turns := by
  obtain ⟨hs, -, inv⟩ := dispatched_reaches (Config.reaches_of_run run)
  have operations := inv.count
  have steps := Config.run_length active_startPool run
  omega

theorem stuck_turn {scr : Scratch n} {hs : PoolThread n → PoolDuty n}
    (tracked : Tracked (PoolDuty.next scr) PoolEnds c hs)
    (final : ∀ c', ¬ c.Step (poolSystem n policy) c') (t : PoolThread n) :
    (t = .submit ∧ c.pool t = .ret ()) ∨
    ∃ o r h', (∀ now, (poolSystem n policy).exec now t o c.world.st = none) ∧ PoolDuty.Turn scr (hs t) o r h' := by
  have follows := tracked t
  rcases Config.stuck_cases final t with ⟨a, ha⟩ | ⟨o, k, ho, blocked⟩
  · rw [ha] at follows
    exact .inl ⟨follows.1, ha⟩
  · rw [ho] at follows
    obtain ⟨r⟩ : Nonempty ((PoolSig n).Res o) := by
      cases o with
      | recvWork => exact ⟨([] : List Packet)⟩
      | egress => exact ⟨""⟩
      | _ => exact ⟨()⟩
    obtain ⟨h', next, -⟩ := follows r
    exact .inr ⟨o, r, h', blocked, .of_next next⟩

theorem stuck_worker {scr : Scratch n} {hs : PoolThread n → PoolDuty n}
    (tracked : Tracked (PoolDuty.next scr) PoolEnds c hs)
    (final : ∀ c', ¬ c.Step (poolSystem n policy) c') {i : Fin (n + 1)} {k : Work}
    (hk : hs (.worker i) = .worker i k) :
    ((k = .idle ∨ k = .retired) ∧ c.world.st.work i = none) ∨
    ((k = .working [] ∨ k = .reporting) ∧ c.world.st.done i = true) := by
  rcases stuck_turn tracked final (.worker i) with ⟨no, -⟩ | ⟨o, r, h', blocked, turn⟩
  · cases no
  · rw [hk] at turn
    have blocked := blocked 0
    cases turn with
    | work free => exact .inl ⟨free, Option.map_eq_none_iff.mp blocked⟩
    | pin => cases blocked
    | handle => cases blocked
    | report =>
      change (if c.world.st.done i = true then none else some _) = none at blocked
      split_ifs at blocked with reports
      exact .inr ⟨.inl rfl, reports⟩
    | retire =>
      change (if c.world.st.done i = true then none else some _) = none at blocked
      split_ifs at blocked with reports
      exact .inr ⟨.inr rfl, reports⟩

theorem returned_of_stuck (reach : (startPool table p cap batch).Reaches (poolSystem n policy) c)
    (final : ∀ c', ¬ c.Step (poolSystem n policy) c') : c.pool .submit = .ret () := by
  obtain ⟨hs, tracked, inv⟩ := dispatched_reaches reach
  rcases stuck_turn tracked final .submit with ⟨-, done⟩ | ⟨o, r, h', blocked, turn⟩
  · exact done
  exfalso
  have blocked := blocked 0
  have along := inv.along
  have shard := inv.shard
  generalize hs .submit = h at turn along shard
  cases turn with
  | @offer i l =>
    obtain ⟨k, hk, at_⟩ := shard i
    have view : (PoolDuty.sending (i :: l)).view (scatter n cap batch) i = .unsent := by simp [PoolDuty.view]
    change (if c.world.st.work i = none then some _ else none) = none at blocked
    split_ifs at blocked with busy
    obtain ⟨b, found⟩ := Option.ne_none_iff_exists'.mp busy
    have offered := (at_.here found).2.2.1
    rw [view] at offered
    cases offered
  | @taken i l =>
    obtain ⟨k, hk, at_⟩ := shard i
    change (if c.world.st.work i = none then some _ else none) = none at blocked
    split_ifs at blocked with busy
    obtain ⟨b, found⟩ := Option.ne_none_iff_exists'.mp busy
    obtain ⟨-, rfl, -⟩ := at_.here found
    rcases stuck_worker tracked final hk with ⟨-, none⟩ | ⟨no, -⟩
    · exact busy none
    · rcases no with no | no <;> cases no
  | @collect i l =>
    obtain ⟨k, hk, at_⟩ := shard i
    have view : (PoolDuty.collecting (i :: l)).view (scatter n cap batch) i = .sent := by simp [PoolDuty.view]
    change (if c.world.st.done i = true then some _ else none) = none at blocked
    split_ifs at blocked with quiet
    rw [view] at at_
    rcases stuck_worker tracked final hk with ⟨free, -⟩ | ⟨-, reports⟩
    · rcases free with rfl | rfl <;> cases at_
    · exact quiet reports
  | work | pin | handle | report | retire => exact along

theorem log_of_returned (reach : (startPool table p cap batch).Reaches (poolSystem n policy) c)
    (done : c.pool .submit = .ret ()) (i : Fin (n + 1)) :
    logOf i c.world.st = (ofShard n batch i).take cap := by
  obtain ⟨hs, tracked, inv⟩ := dispatched_reaches reach
  have ends : hs .submit = .collecting [] := by
    have follows := tracked .submit
    rw [done] at follows
    exact follows.2
  obtain ⟨k, -, at_⟩ := inv.shard i
  have holds := holds_scatter n cap batch i
  rw [ends] at at_
  by_cases used : i ∈ (scatter n cap batch).shards
  · have view : (PoolDuty.collecting []).view (scatter n cap batch) i = .collected := by simp [PoolDuty.view, used]
    rw [view] at at_
    cases at_ with
    | reported _ _ _ all => rw [all, holds.flows]
    | working out | pinned out | reporting out => rcases out with out | out <;> cases out
  · have view : (PoolDuty.collecting []).view (scatter n cap batch) i = .unsent := by simp [PoolDuty.view, used]
    have empty : (ofShard n batch i).take cap = [] := by
      by_contra h
      exact used (mem_shards.mpr (holds.marked.mpr h))
    rw [view] at at_
    cases at_ with
    | unsent _ _ new => rw [new, empty]
    | working out | pinned out | reporting out => rcases out with out | out <;> cases out

theorem perm_of_tags {α β ι δ : Type} [DecidableEq ι] [DecidableEq δ] {l : List α} {l' : List β} {tag : α → ι}
    {tag' : β → ι} {f : α → δ} {f' : β → δ}
    (same : ∀ i, (l.filter fun a => tag a = i).map f = (l'.filter fun b => tag' b = i).map f') :
    (l.map fun a => (tag a, f a)).Perm (l'.map fun b => (tag' b, f' b)) := by
  have count : ∀ {α : Type} (l : List α) (tag : α → ι) (f : α → δ) (i : ι) (d : δ),
      (l.map fun a => (tag a, f a)).count (i, d) = ((l.filter fun a => tag a = i).map f).count d := by
    intro α l tag f i d
    induction l with
    | nil => rfl
    | cons a l ih =>
      by_cases hi : tag a = i
      · simp [List.count_cons, hi, ih]
      · simp [hi, ih]
  refine List.perm_iff_count.mpr fun x => ?_
  rw [count, count, same]

theorem handledAll_of_logs (reach : (startPool table p cap batch).Reaches (poolSystem n policy) c)
    (logs : ∀ i, logOf i c.world.st = ofShard n batch i) : HandledAll policy table p batch c.world.st.handled := by
  obtain ⟨hs, -, inv⟩ := dispatched_reaches reach
  have once : (c.world.st.handled.map fun h => (h.worker, h.key, h.pkt)).Perm
      ((accepted batch).map fun a => (shardIndex n a.1, a)) :=
    perm_of_tags fun i => (logs i).trans (List.map_id _).symm
  refine ⟨once, fun key => ?_, fun f pure timed htimed => ?_⟩
  · -- A handled packet of the flow is in the log of the shard of the flow.
    have home : ∀ h ∈ c.world.st.handled, h.key = key → h.worker = shardIndex n key := by
      rintro h hh rfl
      have mem := once.mem_iff.mp (List.mem_map_of_mem hh)
      obtain ⟨a, -, ha⟩ := List.mem_map.mp mem
      rw [Prod.mk.injEq] at ha
      rw [← ha.1, ha.2]
    calc (c.world.st.handled.filter fun h => h.key = key).map Handled.pkt
        = ((logOf (shardIndex n key) c.world.st).filter fun a => a.1 = key).map Prod.snd := by
          rw [logOf, List.filter_map, List.map_map, List.filter_filter]
          refine congrArg (List.map Handled.pkt) (List.filter_congr fun h hh => ?_)
          by_cases hkey : h.key = key
          · simp [hkey, home h hh hkey]
          · simp [hkey]
      _ = ((accepted batch).filter fun a => a.1 = key).map Prod.snd := by
          rw [logs, ofShard, List.filter_filter]
          refine congrArg (List.map Prod.snd) (List.filter_congr fun a _ => ?_)
          by_cases hkey : a.1 = key
          · simp [hkey]
          · simp [hkey]
  · rw [decided_eq pure, htimed]
    have pinned : (c.world.st.handled.map fun h => (h.key, h.egress, h.pkt)) =
        (c.world.st.handled.map fun h => (h.worker, h.key, h.pkt)).map
          fun x => (x.2.1, egressOf f table x.2.1, x.2.2) := by
      rw [List.map_map]
      exact List.map_congr_left fun h hh => by rw [inv.handled f pure h hh]; rfl
    rw [pinned]
    refine (once.map _).trans ?_
    rw [List.map_map]
    exact List.Perm.refl _

/-- `Submit` returns; and then it has lost nothing, unless a shard had more packets than there is room for. -/
theorem submit_handles (policy : FlowPolicy π) (table : ShardedFlowTable n) (p : π) (cap : ℕ) (batch : List Packet) :
    (∃ bound, ∀ sched c, Config.run? (poolSystem n policy) sched (startPool table p cap batch) = some c →
      sched.length ≤ bound) ∧
    ∀ c, (startPool table p cap batch).Reaches (poolSystem n policy) c →
      ((∀ c', ¬ c.Step (poolSystem n policy) c') → c.pool .submit = .ret ()) ∧
      (c.pool .submit = .ret () →
        (HandledAll policy table p batch c.world.st.handled ↔ ∀ i, (ofShard n batch i).length ≤ cap)) := by
  refine ⟨⟨_, fun _ _ run => bounded_run run⟩,
    fun c reach => ⟨returned_of_stuck reach, fun done => ⟨fun all i => ?_, fun room => ?_⟩⟩⟩
  · -- The log of a shard is at most as long as there is room.
    have same := (all.once.filter fun x => x.1 = i).length_eq
    have log := congrArg List.length (log_of_returned reach done i)
    rw [List.filter_map, List.filter_map, List.length_map, List.length_map] at same
    rw [logOf, List.length_map, List.length_take] at log
    have shard : (ofShard n batch i).length = min cap (ofShard n batch i).length := same.symm.trans log
    omega
  · exact handledAll_of_logs reach fun i => by
      rw [log_of_returned reach done, List.take_of_length_le (room i)]

end Runs

namespace Sample

def oneFlow : List Packet := [udp [0, 0] (ports ++ [1]), udp [0, 0] (ports ++ [2])]

def fixed : FlowPolicy Unit := fun _ p => ("a", p)

end Sample

open Sample

/-- There is room for one packet.  The second one is lost. -/
theorem submit_drops : ∃ c, (startPool (newShardedFlowTable 0 0) () 1 oneFlow).Reaches (poolSystem 0 fixed) c ∧
      c.pool .submit = .ret () ∧
      ¬ HandledAll fixed (newShardedFlowTable 0 0) () oneFlow c.world.st.handled := by
  obtain ⟨c, reach, done, one⟩ := Config.reaches_of_run_any (poolSystem 0 fixed)
    [(.submit, 0), (.worker 0, 0), (.worker 0, 0), (.submit, 0), (.worker 0, 0), (.worker 0, 0), (.worker 0, 0),
      (.submit, 0)]
    (startPool (newShardedFlowTable 0 0) () 1 oneFlow)
    (fun c => (c.pool .submit).result? = some () ∧ c.world.st.handled.length = 1) (by decide +kernel)
  refine ⟨c, reach, Prog.eq_ret_of_result done, fun all => ?_⟩
  have same := all.once.length_eq
  rw [List.length_map, List.length_map, one] at same
  revert same
  decide

end Egressa.Tunnel
