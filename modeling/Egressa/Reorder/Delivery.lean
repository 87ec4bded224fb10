import Egressa.Reorder.Receiver

/-!
# Delivery from the reorder buffer

The packets a receiver hands on are numbered from the seed without a gap, and every packet it has accepted was handed
on, is waiting, or was returned when the receiver was closed (`Exact`).
-/

namespace Egressa.Reorder

open Maps

variable {Payload : Type}

/-- An open receiver has returned nothing from `Close`.  Afterwards nothing waits: the first `Close` returned it all,
in order, and later ones nothing. -/
inductive Lifecycle (h : History Payload) : Prop
  | opened (closed : h.receiver.closed = false) (closes : h.closes = [])
  | closed (closed : h.receiver.closed = true) (pending : h.receiver.pending = ∅)
      (later : ∀ slice ∈ h.closes.tail, slice = [])
      (sorted : (h.closing.map (·.seq.toNat)).Pairwise (· < ·))
      (ahead : ∀ p ∈ h.closing, h.receiver.delivered < p.seq) (some : h.closes ≠ [])

theorem Lifecycle.congr {h h' : History Payload} (lifecycle : Lifecycle h)
    (closed : h'.receiver.closed = h.receiver.closed) (pending : h'.receiver.pending = h.receiver.pending)
    (delivered : h'.receiver.delivered = h.receiver.delivered) (closes : h'.closes = h.closes) :
    Lifecycle h' := by
  have closing : h'.closing = h.closing := by rw [History.closing, closes, History.closing]
  cases lifecycle with
  | opened hclosed hcloses => exact .opened (closed.trans hclosed) (closes.trans hcloses)
  | closed hclosed hpending later sorted ahead some =>
    refine .closed (closed.trans hclosed) (pending.trans hpending) ?_ ?_ ?_ ?_
    · rwa [closes]
    · rwa [closing]
    · rwa [closing, delivered]
    · rwa [closes]

/-- Delivery is in order, without gaps, and exact, for a receiver that started at `seedSeq`. -/
structure Exact (seedSeq : UInt64) (h : History Payload) : Prop where
  seqs : h.out.map (·.seq.toNat) = List.range' (seedSeq.toNat + 1) h.out.length
  delivered : h.receiver.delivered.toNat = seedSeq.toNat + h.out.length
  waiting : Waiting h.receiver.delivered h.receiver.pending
  gap : h.receiver.pending.lookup (h.receiver.delivered + 1) = none
  kept : h.accepted.Perm (h.out ++ (h.waiting ++ h.closing))
  lifecycle : Lifecycle h

namespace Exact

variable {seedSeq : UInt64} {h : History Payload}

theorem start (cfg : Config) (epoch seedSeq : UInt64) :
    Exact seedSeq (.start cfg epoch seedSeq : History Payload) where
  seqs := rfl
  delivered := rfl
  waiting := Waiting.empty
  gap := by simp [History.start, newReceiver]
  kept := List.Perm.refl _
  lifecycle := .opened rfl rfl

section

variable (exact : Exact seedSeq h)
include exact

theorem closes_eq_nil (hopen : h.receiver.closed = false) : h.closes = [] := by
  cases exact.lifecycle with
  | opened _ closes => exact closes
  | closed closed => exact absurd (hopen.symm.trans closed) (by decide)

theorem receive (pkt : Packet Payload) : Exact seedSeq (h.call (.receive pkt)) := by
  rcases History.receive_cases exact.waiting pkt with hcall | ⟨hopen, -, hmem, d, drains, stops, hcall⟩
  · rw [hcall]
    exact ⟨exact.seqs, exact.delivered, exact.waiting, exact.gap, exact.kept, exact.lifecycle.congr rfl rfl rfl rfl⟩
  · have hcloses := exact.closes_eq_nil hopen
    have hdel := drains.delivered_eq
    rw [exact.delivered] at hdel
    rw [hcall]
    refine ⟨?_, ?_, drains.waiting, stops, ?_, .opened hopen hcloses⟩
    · have hrest := drains.seqs
      rw [exact.delivered] at hrest
      rw [List.map_append, List.length_append, exact.seqs, hrest, ← List.range'_append_1]
      congr 2
      omega
    · rw [hdel, List.length_append]
      omega
    · have hold := exact.kept
      have hnew := drains.kept
      rw [values_insert hmem] at hnew
      simp only [History.waiting, History.closing, hcloses, List.headD_nil, List.append_nil] at hold ⊢
      rw [List.append_assoc]
      calc
        List.Perm (h.accepted ++ [pkt]) (pkt :: h.accepted) := List.perm_append_singleton _ _
        List.Perm _ (pkt :: (h.out ++ values h.receiver.pending)) := hold.cons _
        List.Perm _ (h.out ++ pkt :: values h.receiver.pending) := List.perm_middle.symm
        List.Perm _ (h.out ++ (d.out ++ values d.pending)) := hnew.append_left _

theorem advanceEpoch (epoch : UInt64) : Exact seedSeq (h.call (.advanceEpoch epoch)) := by
  have hcall : ∃ e, h.call (.advanceEpoch epoch) = { h with receiver := { h.receiver with currentEpoch := e } } := by
    by_cases hlt : h.receiver.currentEpoch < epoch
    · exact ⟨epoch, by simp [History.call, Receiver.advanceEpoch, hlt]⟩
    · exact ⟨h.receiver.currentEpoch, by simp [History.call, Receiver.advanceEpoch, hlt]⟩
  obtain ⟨e, hcall⟩ := hcall
  rw [hcall]
  exact ⟨exact.seqs, exact.delivered, exact.waiting, exact.gap, exact.kept, exact.lifecycle.congr rfl rfl rfl rfl⟩

theorem close : Exact seedSeq (h.call .close) := by
  rcases Receiver.close_cases exact.waiting with ⟨hclosed, hclose⟩ | ⟨hopen, hr, hperm, hsorted⟩
  · have hcall : h.call .close = { h with closes := h.closes ++ [[]] } := by
      simp [History.call, hclose]
    cases exact.lifecycle with
    | opened closed => exact absurd (hclosed.symm.trans closed) (by decide)
    | closed closed pending later sorted ahead some =>
      obtain ⟨first, rest, hcloses⟩ := List.exists_cons_of_ne_nil some
      have hclosing : (h.call .close).closing = h.closing := by
        simp [hcall, History.closing, hcloses]
      have hkept := exact.kept
      rw [← hclosing] at hkept sorted ahead
      rw [hcall] at hkept sorted ahead ⊢
      refine ⟨exact.seqs, exact.delivered, exact.waiting, exact.gap, hkept,
        .closed closed pending ?_ sorted ahead (by simp)⟩
      intro slice hslice
      rw [hcloses] at later hslice
      rcases List.mem_append.1 hslice with hslice | hslice
      · exact later slice hslice
      · exact List.mem_singleton.1 hslice
  · have hcloses := exact.closes_eq_nil hopen
    have hcall : h.call .close =
        { h with
          receiver := { h.receiver with closed := true, pending := ∅ }
          closes := [h.receiver.close.1] } := by
      simp [History.call, hr, hcloses]
    have ahead : ∀ p ∈ h.receiver.close.1, h.receiver.delivered < p.seq :=
      fun p hp => exact.waiting.lt_of_mem (hperm.mem_iff.2 hp)
    have hold := exact.kept
    rw [hcall]
    refine ⟨exact.seqs, exact.delivered, Waiting.empty, by simp, ?_,
      .closed rfl rfl (by simp) hsorted ahead (by simp)⟩
    simp only [History.waiting, History.closing, hcloses, List.headD_nil, List.append_nil,
      values_empty, List.nil_append, List.headD_cons] at hold ⊢
    exact hold.trans (hperm.append_left _)

theorem call (c : ReceiverCall Payload) : Exact seedSeq (h.call c) := by
  cases c with
  | receive pkt => exact Exact.receive ‹_› pkt
  | advanceEpoch epoch => exact Exact.advanceEpoch ‹_› epoch
  | close => exact Exact.close ‹_›

end

theorem history (cfg : Config) (epoch seedSeq : UInt64) (calls : List (ReceiverCall Payload)) :
    Exact seedSeq (history cfg epoch seedSeq calls) :=
  List.foldlRecOn calls _ (start cfg epoch seedSeq) fun _ ih c _ => ih.call c

section

variable (exact : Exact seedSeq h)
include exact

theorem sorted : (h.closing.map (·.seq.toNat)).Pairwise (· < ·) := by
  cases exact.lifecycle with
  | opened _ closes => simp [History.closing, closes]
  | closed _ _ _ sorted => exact sorted

theorem le_of_mem_out {p : Packet Payload} (hp : p ∈ h.out) : p.seq ≤ h.receiver.delivered := by
  have hmem : p.seq.toNat ∈ h.out.map (·.seq.toNat) := List.mem_map_of_mem hp
  rw [exact.seqs, List.mem_range'_1] at hmem
  rw [UInt64.le_iff_toNat_le, exact.delivered]
  omega

theorem nodup_out : (h.out.map (·.seq)).Nodup := by
  have hnodup : (h.out.map (·.seq.toNat)).Nodup := exact.seqs ▸ List.nodup_range'
  rw [show (fun p : Packet Payload => p.seq.toNat) = UInt64.toNat ∘ (·.seq) from rfl, ← List.map_map] at hnodup
  exact hnodup.of_map _

theorem nodup_waiting : (h.waiting.map (·.seq)).Nodup := by
  have hkeys : h.waiting.map (·.seq) = h.receiver.pending.keys := by
    rw [History.waiting, values, List.map_map]
    refine List.map_congr_left fun e he => ?_
    exact (exact.waiting e.1 e.2 (lookup_of_mem_entries he)).1
  rw [hkeys]
  exact h.receiver.pending.keys_nodup

theorem nodup_rest : ((h.waiting ++ h.closing).map (·.seq)).Nodup ∧
      ∀ p ∈ h.waiting ++ h.closing, h.receiver.delivered < p.seq := by
  cases exact.lifecycle with
  | opened _ closes =>
    have hclosing : h.closing = [] := by simp [History.closing, closes]
    rw [hclosing, List.append_nil]
    exact ⟨exact.nodup_waiting, fun p hp => exact.waiting.lt_of_mem hp⟩
  | closed _ pending _ sorted ahead =>
    have hwaiting : h.waiting = [] := by simp [History.waiting, pending]
    rw [hwaiting, List.nil_append]
    refine ⟨?_, ahead⟩
    rw [List.pairwise_map] at sorted
    exact List.pairwise_map.2 (sorted.imp fun hlt heq => hlt.ne (congrArg UInt64.toNat heq))

theorem nodup : ((h.out ++ (h.waiting ++ h.closing)).map (·.seq)).Nodup := by
  obtain ⟨hrest, ahead⟩ := exact.nodup_rest
  rw [List.map_append]
  refine List.Nodup.append exact.nodup_out hrest ?_
  intro seq hout hseq
  obtain ⟨p, hp, rfl⟩ := List.mem_map.1 hout
  obtain ⟨q, hq, heq⟩ := List.mem_map.1 hseq
  have hlt := ahead q hq
  rw [heq] at hlt
  exact UInt64.not_lt.2 (exact.le_of_mem_out hp) hlt

end

end Exact

theorem accepted_or_dropped (cfg : Config) (epoch seedSeq : UInt64) (calls : List (ReceiverCall Payload)) :
    ((history cfg epoch seedSeq calls).accepted ++ (history cfg epoch seedSeq calls).dropped).Perm
      (received calls) := by
  induction calls using List.reverseRecOn with
  | nil => exact List.Perm.refl _
  | append_singleton calls c ih =>
    rw [history_append, received_concat]
    generalize history cfg epoch seedSeq calls = h at ih ⊢
    cases c with
    | receive pkt =>
      by_cases hr : (h.receiver.receive pkt).1.2 = .notDropped
      · simp only [List.foldl_cons, List.foldl_nil, History.call, hr, if_true]
        rw [List.append_assoc, List.singleton_append]
        exact List.perm_middle.trans ((ih.cons pkt).trans (List.perm_append_singleton pkt (received calls)).symm)
      · simp only [List.foldl_cons, List.foldl_nil, History.call, hr, if_false]
        rw [← List.append_assoc]
        exact ih.append_right _
    | advanceEpoch e =>
      rw [show (ReceiverCall.advanceEpoch e : ReceiverCall Payload).packet?.toList = [] from rfl, List.append_nil]
      exact ih
    | close =>
      rw [show (ReceiverCall.close : ReceiverCall Payload).packet?.toList = [] from rfl, List.append_nil]
      exact ih

/-- Exactly-once, in-order, gap-free delivery, after any calls of a new receiver; no packet waits that could be handed
on.  A dropped packet is nowhere, if it differs from those of the other calls. -/
theorem exactly_once (cfg : Config) (epoch seedSeq : UInt64) (calls : List (ReceiverCall Payload)) :
    let h := history cfg epoch seedSeq calls
    (seedSeq ≤ h.receiver.delivered ∧
      h.out.map (·.seq.toNat) = List.Ico (seedSeq.toNat + 1) (h.receiver.delivered.toNat + 1) ∧
      h.receiver.pending.lookup (h.receiver.delivered + 1) = none) ∧
    ((h.accepted ++ h.dropped).Perm (received calls) ∧ h.accepted.Perm (h.out ++ (h.waiting ++ h.closing)) ∧
      ((h.out ++ (h.waiting ++ h.closing)).map (·.seq)).Nodup) ∧
    ((h.closing.map (·.seq.toNat)).Pairwise (· < ·) ∧ ∀ slice ∈ h.closes.tail, slice = []) ∧
    ((received calls).Nodup → ∀ pkt ∈ h.dropped, pkt ∉ h.out ++ (h.waiting ++ h.closing)) := by
  intro h
  have exact : Exact seedSeq h := Exact.history cfg epoch seedSeq calls
  have hreceived : (h.accepted ++ h.dropped).Perm (received calls) := accepted_or_dropped cfg epoch seedSeq calls
  have hdel := exact.delivered
  refine ⟨⟨?_, ?_, exact.gap⟩, ⟨hreceived, exact.kept, exact.nodup⟩, ⟨exact.sorted, ?_⟩, ?_⟩
  · rw [UInt64.le_iff_toNat_le]
    omega
  · rw [exact.seqs, List.Ico]
    congr 1
    omega
  · cases exact.lifecycle with
    | opened _ closes => simp [closes]
    | closed _ _ later => exact later
  · intro hnodup pkt hdropped hplace
    have hdisjoint := List.disjoint_of_nodup_append (hreceived.nodup_iff.2 hnodup)
    exact hdisjoint (exact.kept.mem_iff.2 hplace) hdropped

end Egressa.Reorder
