import Egressa.Maps

/-!
# The reorder buffer

A `Receiver` (`internal/reorder/receiver.go`) takes packets in any order and hands them on in the order of their
sequence numbers.  Every method holds its lock: a `History` is a receiver with what its calls have answered so far.
-/

namespace Egressa.Reorder

open Maps

/-- A packet; nothing reads the payload. -/
structure Packet (Payload : Type) where
  epoch : UInt64
  seq : UInt64
  payload : Payload
  deriving DecidableEq, Repr

inductive DropReason
  | notDropped
  | dropEpochStale
  | dropDuplicate
  | dropOutOfWindow
  | dropClosed
  deriving DecidableEq, Repr

structure Config where
  windowSize : UInt64
  deriving DecidableEq, Repr

def defaultConfig : Config := ⟨64⟩

structure Receiver (Payload : Type) where
  cfg : Config
  currentEpoch : UInt64
  /-- The highest sequence number delivered so far. -/
  delivered : UInt64
  pending : Map UInt64 (Packet Payload)
  closed : Bool

variable {Payload : Type}

def newReceiver (cfg : Config) (epoch seedSeq : UInt64) : Receiver Payload where
  cfg := cfg
  currentEpoch := epoch
  delivered := seedSeq
  pending := ∅
  closed := false

/-- What a drain has delivered, and what is left. -/
structure Drained (Payload : Type) where
  out : List (Packet Payload)
  delivered : UInt64
  pending : Map UInt64 (Packet Payload)

/-- The loop of `Receive`; as many turns as there are packets are enough (`drain_stops`). -/
def drain : ℕ → UInt64 → Map UInt64 (Packet Payload) → Drained Payload
  | 0, delivered, pending => ⟨[], delivered, pending⟩
  | fuel + 1, delivered, pending =>
    let next := delivered + 1
    match pending.lookup next with
    | none => ⟨[], delivered, pending⟩
    | some p =>
      let rest := drain fuel next (pending.erase next)
      { rest with out := p :: rest.out }

/-- The loop of `Close`: the packets numbered `seqs`, in that order. -/
def takeAll : List UInt64 → Map UInt64 (Packet Payload) → List (Packet Payload) × Map UInt64 (Packet Payload)
  | [], pending => ([], pending)
  | seq :: seqs, pending =>
    let rest := takeAll seqs (pending.erase seq)
    ((pending.lookup seq).toList ++ rest.1, rest.2)

namespace Receiver

/-- Later packets of older epochs are stale. -/
def advanceEpoch (r : Receiver Payload) (epoch : UInt64) : Receiver Payload :=
  if r.currentEpoch < epoch then { r with currentEpoch := epoch } else r

/-- `Receive`: the packets that can be delivered now, and why `pkt` was dropped, if it was.  The sum with the window
size wraps. -/
def receive (r : Receiver Payload) (pkt : Packet Payload) : (List (Packet Payload) × DropReason) × Receiver Payload :=
  if r.closed then (([], .dropClosed), r)
  else if pkt.epoch < r.currentEpoch then (([], .dropEpochStale), r)
  else if pkt.seq ≤ r.delivered then (([], .dropDuplicate), r)
  else if pkt.seq ∈ r.pending then (([], .dropDuplicate), r)
  else if r.cfg.windowSize + 1 < pkt.seq - r.delivered then (([], .dropOutOfWindow), r)
  else
    let pending := r.pending.insert pkt.seq pkt
    let d := drain pending.entries.length r.delivered pending
    ((d.out, .notDropped), { r with delivered := d.delivered, pending := d.pending })

/-- `Close`: the packets still waiting, by sequence number. -/
def close (r : Receiver Payload) : List (Packet Payload) × Receiver Payload :=
  if r.closed then ([], r)
  else if r.pending.entries.length = 0 then ([], { r with closed := true })
  else
    let seqs := r.pending.keys.insertionSort fun a b => a.toNat ≤ b.toNat
    let taken := takeAll seqs r.pending
    (taken.1, { r with closed := true, pending := taken.2 })

end Receiver

/-! ## Histories -/

inductive ReceiverCall (Payload : Type)
  | receive (pkt : Packet Payload)
  | advanceEpoch (epoch : UInt64)
  | close

/-- A receiver with all it has answered. -/
structure History (Payload : Type) where
  receiver : Receiver Payload
  /-- The packets `Receive` answered `NotDropped` for. -/
  accepted : List (Packet Payload)
  dropped : List (Packet Payload)
  /-- The slices returned by `Receive`, one after the other. -/
  out : List (Packet Payload)
  /-- The slices returned by `Close`. -/
  closes : List (List (Packet Payload))

namespace History

def start (cfg : Config) (epoch seedSeq : UInt64) : History Payload := ⟨newReceiver cfg epoch seedSeq, [], [], [], []⟩

/-- One call, on the record. -/
def call (h : History Payload) : ReceiverCall Payload → History Payload
  | .receive pkt =>
    let answer := h.receiver.receive pkt
    { h with
      receiver := answer.2
      accepted := if answer.1.2 = .notDropped then h.accepted ++ [pkt] else h.accepted
      dropped := if answer.1.2 = .notDropped then h.dropped else h.dropped ++ [pkt]
      out := h.out ++ answer.1.1 }
  | .advanceEpoch epoch => { h with receiver := h.receiver.advanceEpoch epoch }
  | .close =>
    let answer := h.receiver.close
    { h with receiver := answer.2, closes := h.closes ++ [answer.1] }

def closing (h : History Payload) : List (Packet Payload) := h.closes.headD []

/-- The packets that are buffered. -/
def waiting (h : History Payload) : List (Packet Payload) := values h.receiver.pending

end History

def history (cfg : Config) (epoch seedSeq : UInt64) (calls : List (ReceiverCall Payload)) : History Payload :=
  calls.foldl History.call (.start cfg epoch seedSeq)

def ReceiverCall.packet? : ReceiverCall Payload → Option (Packet Payload)
  | .receive pkt => some pkt
  | _ => none

/-- The packets of a list of calls. -/
def received (calls : List (ReceiverCall Payload)) : List (Packet Payload) := calls.filterMap ReceiverCall.packet?

theorem history_append (cfg : Config) (epoch seedSeq : UInt64) (calls more : List (ReceiverCall Payload)) :
    history cfg epoch seedSeq (calls ++ more) = more.foldl History.call (history cfg epoch seedSeq calls) :=
  List.foldl_append

theorem received_concat (calls : List (ReceiverCall Payload)) (c : ReceiverCall Payload) :
    received (calls ++ [c]) = received calls ++ c.packet?.toList := by
  cases c <;> simp [received, ReceiverCall.packet?]

/-! ## The two loops -/

/-- Each waiting packet is kept under its own number, which is still to come. -/
def Waiting (delivered : UInt64) (pending : Map UInt64 (Packet Payload)) : Prop :=
  ∀ seq p, pending.lookup seq = some p → p.seq = seq ∧ delivered < seq

theorem toNat_succ_of_lt {d seq : UInt64} (h : d < seq) : (d + 1).toNat = d.toNat + 1 := by
  have hlt := UInt64.lt_iff_toNat_lt.1 h
  have hseq := seq.toNat_lt
  rw [UInt64.toNat_add, show (1 : UInt64).toNat = 1 from rfl]
  omega

theorem lt_of_ne_succ {d seq : UInt64} (h : d < seq) (hne : seq ≠ d + 1) : d + 1 < seq := by
  have hne' : seq.toNat ≠ (d + 1).toNat := fun heq => hne (UInt64.toNat_inj.1 heq)
  rw [toNat_succ_of_lt h] at hne'
  have hlt := UInt64.lt_iff_toNat_lt.1 h
  rw [UInt64.lt_iff_toNat_lt, toNat_succ_of_lt h]
  omega

namespace Waiting

variable {delivered seq : UInt64} {pending : Map UInt64 (Packet Payload)}

theorem empty : Waiting delivered (∅ : Map UInt64 (Packet Payload)) := by
  intro seq p h
  simp at h

section

variable (h : Waiting delivered pending)
include h

theorem insert {p : Packet Payload} (hp : delivered < p.seq) : Waiting delivered (pending.insert p.seq p) := by
  intro seq q hq
  rw [lookup_insert_eq] at hq
  by_cases hseq : seq = p.seq
  · rw [if_pos hseq] at hq
    cases hq
    exact ⟨hseq.symm, hseq ▸ hp⟩
  · rw [if_neg hseq] at hq
    exact h seq q hq

theorem erase (seq : UInt64) : Waiting delivered (pending.erase seq) :=
  fun seq' q hq => h seq' q (sub_erase _ _ _ _ hq)

theorem next : Waiting (delivered + 1) (pending.erase (delivered + 1)) := by
  intro seq q hq
  obtain ⟨hseq, hlt⟩ := h.erase _ seq q hq
  refine ⟨hseq, lt_of_ne_succ hlt fun heq => ?_⟩
  rw [heq, AList.lookup_erase] at hq
  cases hq

theorem lt_of_mem {p : Packet Payload} (hp : p ∈ values pending) : delivered < p.seq := by
  obtain ⟨seq, hseq⟩ := mem_values.1 hp
  obtain ⟨rfl, hlt⟩ := h seq p hseq
  exact hlt

end

end Waiting

/-- What a drain does: it delivers while there is no gap. -/
structure Drains (delivered : UInt64) (pending : Map UInt64 (Packet Payload)) (d : Drained Payload) : Prop where
  seqs : d.out.map (·.seq.toNat) = List.range' (delivered.toNat + 1) d.out.length
  delivered_eq : d.delivered.toNat = delivered.toNat + d.out.length
  waiting : Waiting d.delivered d.pending
  kept : (values pending).Perm (d.out ++ values d.pending)

variable {delivered : UInt64} {pending : Map UInt64 (Packet Payload)}

theorem drain_of_none {fuel : ℕ} (h : pending.lookup (delivered + 1) = none) :
    drain fuel delivered pending = ⟨[], delivered, pending⟩ := by
  cases fuel with
  | zero => rfl
  | succ fuel => simp only [drain, h]

theorem drain_of_some {fuel : ℕ} {p : Packet Payload} (h : pending.lookup (delivered + 1) = some p) :
    drain (fuel + 1) delivered pending =
      { drain fuel (delivered + 1) (pending.erase (delivered + 1)) with
        out := p :: (drain fuel (delivered + 1) (pending.erase (delivered + 1))).out } := by
  simp only [drain, h]

theorem drains_nil (h : Waiting delivered pending) : Drains delivered pending ⟨[], delivered, pending⟩ :=
  ⟨rfl, rfl, h, List.Perm.refl _⟩

theorem drain_drains (fuel : ℕ)
    (h : Waiting delivered pending) : Drains delivered pending (drain fuel delivered pending) := by
  induction fuel generalizing delivered pending with
  | zero => exact drains_nil h
  | succ fuel ih =>
    cases hp : pending.lookup (delivered + 1) with
    | none =>
      rw [drain_of_none hp]
      exact drains_nil h
    | some p =>
      rw [drain_of_some hp]
      obtain ⟨hseq, hlt⟩ := h _ p hp
      -- the next number did not wrap: a packet with a higher number than `delivered` has it
      have hnext : (delivered + 1).toNat = delivered.toNat + 1 := toNat_succ_of_lt hlt
      have rest := ih h.next
      have hout := rest.seqs
      have hdel := rest.delivered_eq
      rw [hnext] at hout hdel
      refine ⟨?_, ?_, rest.waiting, ?_⟩
      · rw [List.map_cons, List.length_cons, List.range'_succ, hout, hseq, hnext]
      · rw [hdel, List.length_cons]
        omega
      · exact (values_perm_erase hp).trans (rest.kept.cons p)

theorem drain_stops {fuel : ℕ} (h : (values pending).length ≤ fuel) :
    (drain fuel delivered pending).pending.lookup ((drain fuel delivered pending).delivered + 1) =
      none := by
  induction fuel generalizing delivered pending with
  | zero =>
    cases hp : pending.lookup (delivered + 1) with
    | none => exact hp
    | some p =>
      have hlen := (values_perm_erase hp).length_eq
      rw [List.length_cons] at hlen
      omega
  | succ fuel ih =>
    cases hp : pending.lookup (delivered + 1) with
    | none =>
      rw [drain_of_none hp]
      exact hp
    | some p =>
      rw [drain_of_some hp]
      have hlen := (values_perm_erase hp).length_eq
      rw [List.length_cons] at hlen
      have hfuel : (values (pending.erase (delivered + 1))).length ≤ fuel := by omega
      exact ih hfuel

theorem takeAll_spec {seqs : List UInt64} (nodup : seqs.Nodup) (h : Waiting delivered pending)
    (here : ∀ seq ∈ seqs, seq ∈ pending) :
    (takeAll seqs pending).1.map (·.seq) = seqs ∧
      (values pending).Perm ((takeAll seqs pending).1 ++ values (takeAll seqs pending).2) ∧
      ∀ seq, seq ∈ (takeAll seqs pending).2 → seq ∈ pending ∧ seq ∉ seqs := by
  induction seqs generalizing pending with
  | nil => exact ⟨rfl, List.Perm.refl _, fun seq hseq => ⟨hseq, List.not_mem_nil⟩⟩
  | cons seq seqs ih =>
    obtain ⟨fresh, nodup⟩ := List.nodup_cons.1 nodup
    obtain ⟨p, hp⟩ := lookup_of_mem (here seq List.mem_cons_self)
    have here' : ∀ seq' ∈ seqs, seq' ∈ pending.erase seq := by
      intro seq' hseq'
      apply AList.mem_erase.2
      exact ⟨fun heq => fresh (heq ▸ hseq'), here seq' (List.mem_cons_of_mem _ hseq')⟩
    obtain ⟨hseqs, hperm, hrest⟩ := ih nodup (h.erase seq) here'
    simp only [takeAll, hp, Option.toList_some, List.singleton_append]
    refine ⟨?_, ?_, fun seq' hseq' => ?_⟩
    · rw [List.map_cons, hseqs, (h seq p hp).1]
    · exact (values_perm_erase hp).trans (hperm.cons p)
    · obtain ⟨hmem, hnot⟩ := hrest seq' hseq'
      obtain ⟨hne, hmem⟩ := AList.mem_erase.1 hmem
      exact ⟨hmem, List.not_mem_cons_of_ne_of_not_mem hne hnot⟩

theorem sorted_by_toNat (l : List UInt64) :
    (l.insertionSort fun a b => a.toNat ≤ b.toNat).Pairwise fun a b => a.toNat ≤ b.toNat := by
  have : Std.Total fun a b : UInt64 => a.toNat ≤ b.toNat := ⟨fun a b => Nat.le_total _ _⟩
  have : IsTrans UInt64 fun a b => a.toNat ≤ b.toNat := ⟨fun a b c => Nat.le_trans⟩
  exact List.pairwise_insertionSort _ _

/-! ## What one call does -/

namespace Receiver

/-- A packet is dropped and nothing changes, or it is new and the loop runs with it among those
that are waiting. -/
theorem receive_cases (r : Receiver Payload) (pkt : Packet Payload) :
    (∃ reason ≠ DropReason.notDropped, r.receive pkt = (([], reason), r)) ∨
    (r.closed = false ∧ r.currentEpoch ≤ pkt.epoch ∧ r.delivered < pkt.seq ∧ pkt.seq ∉ r.pending ∧
      ∃ d, d = drain (r.pending.insert pkt.seq pkt).entries.length r.delivered (r.pending.insert pkt.seq pkt) ∧
        r.receive pkt = ((d.out, .notDropped), { r with delivered := d.delivered, pending := d.pending })) := by
  unfold receive
  by_cases hclosed : r.closed
  · exact Or.inl ⟨.dropClosed, by decide, by simp [hclosed]⟩
  by_cases hepoch : pkt.epoch < r.currentEpoch
  · exact Or.inl ⟨.dropEpochStale, by decide, by simp [hclosed, hepoch]⟩
  by_cases hseq : pkt.seq ≤ r.delivered
  · exact Or.inl ⟨.dropDuplicate, by decide, by simp [hclosed, hepoch, hseq]⟩
  by_cases hmem : pkt.seq ∈ r.pending
  · exact Or.inl ⟨.dropDuplicate, by decide, by simp [hclosed, hepoch, hseq, hmem]⟩
  by_cases hwindow : r.cfg.windowSize + 1 < pkt.seq - r.delivered
  · exact Or.inl ⟨.dropOutOfWindow, by decide, by simp [hclosed, hepoch, hseq, hmem, hwindow]⟩
  · refine Or.inr ⟨by simpa using hclosed, UInt64.not_lt.1 hepoch, UInt64.not_le.1 hseq, hmem, _, rfl, ?_⟩
    simp only [hclosed, hepoch, hseq, hmem, hwindow, if_false, Bool.false_eq_true]

theorem close_cases {r : Receiver Payload} (h : Waiting r.delivered r.pending) :
    (r.closed = true ∧ r.close = ([], r)) ∨
    (r.closed = false ∧ r.close.2 = { r with closed := true, pending := ∅ } ∧ (values r.pending).Perm r.close.1 ∧
      (r.close.1.map (·.seq.toNat)).Pairwise (· < ·)) := by
  by_cases hclosed : r.closed
  · exact Or.inl ⟨hclosed, by simp [close, hclosed]⟩
  have hopen : r.closed = false := by simpa using hclosed
  refine Or.inr ⟨hopen, ?_⟩
  by_cases hlen : r.pending.entries.length = 0
  · have hentries : r.pending.entries = [] := List.length_eq_zero_iff.1 hlen
    have hempty : r.pending = ∅ := AList.ext hentries
    simp [close, hopen, hempty]
  have hclose : r.close =
      let seqs := r.pending.keys.insertionSort fun a b => a.toNat ≤ b.toNat
      ((takeAll seqs r.pending).1, { r with closed := true, pending := (takeAll seqs r.pending).2 }) := by
    simp only [close, hopen, hlen, if_false, Bool.false_eq_true]
  rw [hclose]
  generalize hseqs : r.pending.keys.insertionSort (fun a b => a.toNat ≤ b.toNat) = seqs
  dsimp only
  have hperm : seqs.Perm r.pending.keys := hseqs ▸ List.perm_insertionSort _ _
  have hnodup : seqs.Nodup := hperm.nodup_iff.2 r.pending.keys_nodup
  have hsorted : seqs.Pairwise fun a b => a.toNat ≤ b.toNat := hseqs ▸ sorted_by_toNat _
  obtain ⟨hmap, hkept, hrest⟩ := takeAll_spec hnodup h fun seq hseq => AList.mem_keys.2 (hperm.mem_iff.1 hseq)
  have hempty : (takeAll seqs r.pending).2 = ∅ := by
    apply eq_empty_of_notMem
    intro seq hseq
    obtain ⟨hmem, hnot⟩ := hrest seq hseq
    exact hnot (hperm.mem_iff.2 (AList.mem_keys.1 hmem))
  rw [hempty, values_empty, List.append_nil] at hkept
  refine ⟨by rw [hempty], hkept, ?_⟩
  have hlt : seqs.Pairwise fun a b => a.toNat < b.toNat := by
    refine (hsorted.and hnodup).imp fun {a b} hab => ?_
    exact lt_of_le_of_ne hab.1 fun heq => hab.2 (UInt64.toNat_inj.1 heq)
  rw [← hmap, List.pairwise_map] at hlt
  exact List.pairwise_map.2 hlt

end Receiver

theorem History.receive_cases {h : History Payload}
    (waiting : Waiting h.receiver.delivered h.receiver.pending) (pkt : Packet Payload) :
    h.call (.receive pkt) = { h with dropped := h.dropped ++ [pkt] } ∨
    (h.receiver.closed = false ∧ h.receiver.currentEpoch ≤ pkt.epoch ∧ pkt.seq ∉ h.receiver.pending ∧
      ∃ d, Drains h.receiver.delivered (h.receiver.pending.insert pkt.seq pkt) d ∧
        d.pending.lookup (d.delivered + 1) = none ∧
        h.call (.receive pkt) =
          { h with
            receiver := { h.receiver with delivered := d.delivered, pending := d.pending }
            accepted := h.accepted ++ [pkt]
            out := h.out ++ d.out }) := by
  rcases h.receiver.receive_cases pkt with ⟨reason, hreason, hr⟩ | ⟨hopen, hepoch, hlt, hmem, d, hd, hr⟩
  · left
    simp [History.call, hr, hreason]
  · right
    refine ⟨hopen, hepoch, hmem, d, hd ▸ drain_drains _ (waiting.insert hlt), ?_, ?_⟩
    · rw [hd]
      exact drain_stops (by simp [values])
    · simp [History.call, hr]

end Egressa.Reorder
