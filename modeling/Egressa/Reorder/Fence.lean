import Egressa.Conc.Machine
import Egressa.Reorder.Delivery

/-!
# The epoch fence of the reorder buffer

`Receive` rejects a packet that is older than the epoch of the receiver.  `AdvanceEpoch` does not look at the packets
that are waiting.
-/

namespace Egressa.Reorder

open Maps

variable {Payload : Type}

/-- The epoch is advanced only when nothing older is waiting. -/
def ReceiverCall.Quiet (h : History Payload) : ReceiverCall Payload → Prop
  | .advanceEpoch epoch => ∀ p ∈ h.waiting, epoch ≤ p.epoch
  | _ => True

abbrev QuietRuns : History Payload → History Payload → Prop := Conc.Runs (fun h c => some (h.call c)) ReceiverCall.Quiet

/-- What is buffered is not stale. -/
def Fenced (h : History Payload) : Prop := ∀ p ∈ h.waiting, h.receiver.currentEpoch ≤ p.epoch

theorem le_advanceEpoch (r : Receiver Payload) (epoch : UInt64) : epoch ≤ (r.advanceEpoch epoch).currentEpoch := by
  unfold Receiver.advanceEpoch
  split
  · exact UInt64.le_refl _
  · exact UInt64.not_lt.1 ‹_›

theorem currentEpoch_le_advanceEpoch (r : Receiver Payload) (epoch : UInt64) :
    r.currentEpoch ≤ (r.advanceEpoch epoch).currentEpoch := by
  unfold Receiver.advanceEpoch
  split
  · exact UInt64.le_of_lt ‹_›
  · exact UInt64.le_refl _

theorem advanceEpoch_eq (r : Receiver Payload) (epoch : UInt64) : (r.advanceEpoch epoch).currentEpoch = epoch ∨
      (r.advanceEpoch epoch).currentEpoch = r.currentEpoch := by
  unfold Receiver.advanceEpoch
  split
  · exact Or.inl rfl
  · exact Or.inr rfl

theorem waiting_advanceEpoch (h : History Payload) (epoch : UInt64) :
    (h.call (.advanceEpoch epoch)).waiting = h.waiting := by
  simp only [History.call, History.waiting, Receiver.advanceEpoch]
  split <;> rfl

/-- What a quiet run may do. -/
structure Passes (h h' : History Payload) : Prop where
  epoch : h.receiver.currentEpoch ≤ h'.receiver.currentEpoch
  grows : ∃ slice, h'.out = h.out ++ slice ∧ ∀ p ∈ slice, h.receiver.currentEpoch ≤ p.epoch
  fenced : Fenced h'

namespace Fenced

variable {seedSeq : UInt64} {h : History Payload}

theorem receive (fenced : Fenced h) (exact : Exact seedSeq h) (pkt : Packet Payload) :
    Passes h (h.call (.receive pkt)) := by
  rcases History.receive_cases exact.waiting pkt with hcall | ⟨-, hepoch, hmem, d, drains, -, hcall⟩
  · rw [hcall]
    exact ⟨UInt64.le_refl _, ⟨[], by simp, by simp⟩, fenced⟩
  · have kept := drains.kept
    rw [values_insert hmem] at kept
    have young : ∀ p ∈ d.out ++ values d.pending, h.receiver.currentEpoch ≤ p.epoch := by
      intro p hp
      rcases List.mem_cons.1 (kept.mem_iff.2 hp) with rfl | hp
      · exact hepoch
      · exact fenced p hp
    rw [hcall]
    exact ⟨UInt64.le_refl _, ⟨d.out, rfl, fun p hp => young p (List.mem_append_left _ hp)⟩,
      fun p hp => young p (List.mem_append_right _ hp)⟩

theorem advanceEpoch (fenced : Fenced h) {epoch : UInt64} (quiet : ∀ p ∈ h.waiting, epoch ≤ p.epoch) :
    Passes h (h.call (.advanceEpoch epoch)) := by
  refine ⟨currentEpoch_le_advanceEpoch _ _, ⟨[], by simp [History.call], by simp⟩, fun p hp => ?_⟩
  rw [waiting_advanceEpoch] at hp
  rcases advanceEpoch_eq h.receiver epoch with heq | heq
  · exact heq.symm ▸ quiet p hp
  · exact heq.symm ▸ fenced p hp

theorem close (fenced : Fenced h) (exact : Exact seedSeq h) : Passes h (h.call .close) := by
  have hout : (h.call .close).out = h.out ++ [] := by simp [History.call]
  have heq : (h.call .close).receiver = h.receiver.close.2 := rfl
  rcases Receiver.close_cases exact.waiting with ⟨-, hclose⟩ | ⟨-, hclose, -⟩
  · rw [hclose] at heq
    refine ⟨heq.symm ▸ UInt64.le_refl _, ⟨[], hout, by simp⟩, ?_⟩
    unfold Fenced History.waiting
    rw [heq]
    exact fenced
  · rw [hclose] at heq
    refine ⟨heq.symm ▸ UInt64.le_refl _, ⟨[], hout, by simp⟩, ?_⟩
    unfold Fenced History.waiting
    rw [heq]
    simp

theorem call (fenced : Fenced h) (exact : Exact seedSeq h) {c : ReceiverCall Payload} (quiet : c.Quiet h) :
    Passes h (h.call c) := by
  cases c with
  | receive pkt => exact fenced.receive ‹_› pkt
  | advanceEpoch epoch => exact fenced.advanceEpoch quiet
  | close => exact fenced.close ‹_›

end Fenced

/-- The invariant of quiet runs after a change of epoch. -/
structure FencedSince (seedSeq epoch : UInt64) (n : ℕ) (h : History Payload) : Prop where
  exact : Exact seedSeq h
  fenced : Fenced h
  advanced : epoch ≤ h.receiver.currentEpoch
  length : n ≤ h.out.length
  young : ∀ p ∈ h.out.drop n, epoch ≤ p.epoch

theorem FencedSince.call {seedSeq epoch : UInt64} {n : ℕ} {h : History Payload}
    (since : FencedSince seedSeq epoch n h) {c : ReceiverCall Payload} (quiet : c.Quiet h) :
    FencedSince seedSeq epoch n (h.call c) := by
  obtain ⟨hepoch, ⟨slice, hout, hslice⟩, fenced⟩ := since.fenced.call since.exact quiet
  refine ⟨since.exact.call c, fenced, UInt64.le_trans since.advanced hepoch, ?_, fun p hp => ?_⟩
  · rw [hout, List.length_append]
    exact Nat.le_add_right_of_le since.length
  · rw [hout, List.drop_append_of_le_length since.length] at hp
    rcases List.mem_append.1 hp with hp | hp
    · exact since.young p hp
    · exact UInt64.le_trans since.advanced (hslice p hp)

/-- After `AdvanceEpoch(epoch)` no older packet is handed on, if the epoch is only ever advanced
when nothing older is waiting. -/
theorem fence_on_delivery {cfg : Config} {initial seedSeq epoch : UInt64} {h h' : History Payload}
    (before : QuietRuns (.start cfg initial seedSeq) h) (quiet : ∀ p ∈ h.waiting, epoch ≤ p.epoch)
    (after : QuietRuns (h.call (.advanceEpoch epoch)) h') :
    ∀ p ∈ h'.out.drop h.out.length, epoch ≤ p.epoch := by
  have hstart : Exact seedSeq h ∧ Fenced h := by
    refine before.invariant (I := fun h => Exact seedSeq h ∧ Fenced h) ?_
      ⟨Exact.start cfg initial seedSeq, by simp [Fenced, History.waiting, History.start, newReceiver]⟩
    rintro h c h' ⟨exact, fenced⟩ quiet ⟨⟩
    exact ⟨exact.call c, (fenced.call exact quiet).fenced⟩
  have hadvance : FencedSince seedSeq epoch h.out.length (h.call (.advanceEpoch epoch)) :=
    ⟨hstart.1.call _, (hstart.2.advanceEpoch quiet).fenced, le_advanceEpoch _ _, Nat.le_refl _, by
      simp [History.call]⟩
  refine (after.invariant ?_ hadvance).young
  rintro h c h' since quiet ⟨⟩
  exact since.call quiet

namespace Sample

def swapped : List (ReceiverCall String) := [.receive ⟨1, 2, "b"⟩, .receive ⟨1, 1, "a"⟩]

end Sample

theorem fence_on_delivery_cutover :
    let h := history defaultConfig 1 0 Sample.swapped
    let h' := (h.call (.advanceEpoch 2)).call (.receive ⟨2, 3, "c"⟩)
    h'.out.drop h.out.length = [⟨2, 3, "c"⟩] ∧ ∀ p ∈ h'.out.drop h.out.length, 2 ≤ p.epoch := by
  intro h h'
  have before : QuietRuns (.start defaultConfig 1 0) h :=
    (Conc.Runs.refl.tail (e := .receive ⟨1, 2, "b"⟩) trivial rfl).tail (e := .receive ⟨1, 1, "a"⟩) trivial rfl
  have after : QuietRuns (h.call (.advanceEpoch 2)) h' := Conc.Runs.refl.tail (e := .receive ⟨2, 3, "c"⟩) trivial rfl
  exact ⟨by decide, fence_on_delivery before (by decide) after⟩

/-- A packet of epoch 1 is handed on after the receiver has moved to epoch 2. -/
theorem stale_packet_delivered :
    let before : List (ReceiverCall String) := [.receive ⟨1, 2, "b"⟩]
    let after : List (ReceiverCall String) := [.receive ⟨2, 1, "a"⟩]
    let h := history defaultConfig 1 0 before
    let h' := history defaultConfig 1 0 (before ++ .advanceEpoch 2 :: after)
    h'.out.drop h.out.length = [⟨2, 1, "a"⟩, ⟨1, 2, "b"⟩] ∧ ¬ ∀ p ∈ h'.out.drop h.out.length, 2 ≤ p.epoch := by
  decide

end Egressa.Reorder
