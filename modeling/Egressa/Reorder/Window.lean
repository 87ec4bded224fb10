import Egressa.Reorder.Delivery

/-!
# The window of the reorder buffer

`Config.WindowSize` bounds how far ahead of the next expected packet another one may be.  `Receive` adds one to it,
which wraps for the largest one: such a receiver accepts nothing at all.
-/

namespace Egressa.Reorder

open Maps

variable {Payload : Type} {cfg : Config} {epoch seedSeq : UInt64} {n : ℕ} {l : List (Packet Payload)}

/-- The next sequence number that has not arrived. -/
def Expected (seedSeq : UInt64) (before : List (Packet Payload)) : ℕ → Prop :=
  IsLeast {k | seedSeq.toNat < k ∧ ∀ q ∈ before, q.seq.toNat ≠ k}

/-- The packets `seedSeq + 1`, …, `seedSeq + n` arrive as `l`, each at least once, and first when it is no further
beyond the next expected one than the window size. -/
structure Arrivals (cfg : Config) (epoch seedSeq : UInt64) (n : ℕ) (l : List (Packet Payload)) : Prop where
  epochs : ∀ p ∈ l, p.epoch = epoch
  range : ∀ p ∈ l, seedSeq.toNat < p.seq.toNat ∧ p.seq.toNat ≤ seedSeq.toNat + n
  all : ∀ k, seedSeq.toNat < k → k ≤ seedSeq.toNat + n → ∃ p ∈ l, p.seq.toNat = k
  window : ∀ before p after, l = before ++ p :: after → p.seq ∉ before.map (·.seq) →
    ∀ next, Expected seedSeq before next → p.seq.toNat ≤ next + cfg.windowSize.toNat

def afterArrivals (cfg : Config) (epoch seedSeq : UInt64) (l : List (Packet Payload)) : History Payload :=
  history cfg epoch seedSeq (l.map .receive)

/-- Every first arrival is accepted, and all packets have been handed on, in order. -/
structure Complete (cfg : Config) (epoch seedSeq : UInt64) (n : ℕ) (l : List (Packet Payload)) : Prop where
  accepted : ∀ before p after, l = before ++ p :: after → p.seq ∉ before.map (·.seq) →
    ((afterArrivals cfg epoch seedSeq before).receiver.receive p).1.2 = .notDropped
  out : (afterArrivals cfg epoch seedSeq l).out.map (·.seq.toNat) = List.range' (seedSeq.toNat + 1) n
  waiting : (afterArrivals cfg epoch seedSeq l).waiting = []

theorem afterArrivals_concat (l : List (Packet Payload)) (p : Packet Payload) :
    afterArrivals cfg epoch seedSeq (l ++ [p]) = (afterArrivals cfg epoch seedSeq l).call (.receive p) := by
  rw [afterArrivals, List.map_append, history_append]
  rfl

theorem received_map_receive (l : List (Packet Payload)) : received (l.map .receive) = l := by
  rw [received, List.filterMap_map]
  exact List.filterMap_some

/-! ## One packet -/

namespace Receiver

variable {r : Receiver Payload} {p : Packet Payload}

theorem dropped_of_known (h : p.seq ≤ r.delivered ∨ p.seq ∈ r.pending) :
    ∃ reason ≠ DropReason.notDropped, r.receive p = (([], reason), r) := by
  rcases r.receive_cases p with hdrop | ⟨-, -, hlt, hmem, -⟩
  · exact hdrop
  · rcases h with hle | hpending
    · exact absurd hlt (UInt64.not_lt.2 hle)
    · exact absurd hpending hmem

theorem accepted_of_new (hopen : r.closed = false) (hepoch : p.epoch = r.currentEpoch)
    (hlt : r.delivered < p.seq) (hmem : p.seq ∉ r.pending)
    (hsize : r.cfg.windowSize.toNat + 1 < 2 ^ 64)
    (hwindow : p.seq.toNat ≤ r.delivered.toNat + 1 + r.cfg.windowSize.toNat) :
    (r.receive p).1.2 = .notDropped := by
  have hsum : (r.cfg.windowSize + 1).toNat = r.cfg.windowSize.toNat + 1 := by
    rw [UInt64.toNat_add, show (1 : UInt64).toNat = 1 from rfl]
    exact Nat.mod_eq_of_lt hsize
  have hdiff : (p.seq - r.delivered).toNat = p.seq.toNat - r.delivered.toNat :=
    UInt64.toNat_sub_of_le _ _ (UInt64.le_of_lt hlt)
  have hwithin : ¬ r.cfg.windowSize + 1 < p.seq - r.delivered := by
    rw [UInt64.lt_iff_toNat_lt, hsum, hdiff]
    omega
  have hfresh : ¬ p.epoch < r.currentEpoch := by
    rw [hepoch]
    exact UInt64.lt_irrefl _
  have hnew : ¬ p.seq ≤ r.delivered := UInt64.not_le.2 hlt
  simp only [receive, hopen, hfresh, hnew, hmem, hwithin, if_false, Bool.false_eq_true]

theorem not_accepted_of_max (hsize : r.cfg.windowSize + 1 = 0) (p : Packet Payload) :
    (r.receive p).1.2 ≠ .notDropped := by
  unfold receive
  split_ifs with hclosed hepoch hseq hmem hwindow
  · exact nofun
  · exact nofun
  · exact nofun
  · exact nofun
  · exact nofun
  · have hlt := UInt64.lt_iff_toNat_lt.1 (UInt64.not_le.1 hseq)
    have hdiff := UInt64.toNat_sub_of_le p.seq r.delivered (UInt64.le_of_lt (UInt64.not_le.1 hseq))
    rw [hsize, UInt64.lt_iff_toNat_lt, hdiff] at hwindow
    have hzero : (0 : UInt64).toNat = 0 := rfl
    omega

end Receiver

/-! ## Runs -/

/-- The receiver after arrivals in one epoch. -/
structure Holds (cfg : Config) (epoch : UInt64) (l : List (Packet Payload)) (h : History Payload) : Prop where
  cfg_eq : h.receiver.cfg = cfg
  epoch_eq : h.receiver.currentEpoch = epoch
  opened : h.receiver.closed = false
  known : ∀ p ∈ l, p.seq ≤ h.receiver.delivered ∨ p.seq ∈ h.receiver.pending

section Runs

variable {h : History Payload} {p : Packet Payload}

theorem mem_of_mem_waiting (exact : Exact seedSeq h) {seq : UInt64} (hseq : seq ∈ h.receiver.pending) :
    ∃ q ∈ h.waiting, q.seq = seq := by
  obtain ⟨q, hq⟩ := lookup_of_mem hseq
  exact ⟨q, mem_values.2 ⟨seq, hq⟩, (exact.waiting seq q hq).1⟩

theorem arrived_of_known (cfg : Config) (epoch : UInt64) {k : ℕ} (hk : seedSeq.toNat < k)
    (known : k ≤ (afterArrivals cfg epoch seedSeq l).receiver.delivered.toNat ∨
      ∃ q ∈ (afterArrivals cfg epoch seedSeq l).waiting, q.seq.toNat = k) : ∃ q ∈ l, q.seq.toNat = k := by
  have exact : Exact seedSeq (afterArrivals cfg epoch seedSeq l) := Exact.history _ _ _ _
  have hplace : ∃ q ∈ (afterArrivals cfg epoch seedSeq l).accepted, q.seq.toNat = k := by
    rcases known with hle | ⟨q, hq, hqk⟩
    · rw [exact.delivered] at hle
      have hmem : k ∈ (afterArrivals cfg epoch seedSeq l).out.map (·.seq.toNat) := by
        rw [exact.seqs, List.mem_range'_1]
        omega
      obtain ⟨q, hq, hqk⟩ := List.mem_map.1 hmem
      exact ⟨q, exact.kept.mem_iff.2 (List.mem_append_left _ hq), hqk⟩
    · exact ⟨q, exact.kept.mem_iff.2 (List.mem_append_right _ (List.mem_append_left _ hq)), hqk⟩
  obtain ⟨q, hq, hqk⟩ := hplace
  have hreceived := (accepted_or_dropped cfg epoch seedSeq (l.map .receive)).mem_iff.1 (List.mem_append_left _ hq)
  rw [received_map_receive] at hreceived
  exact ⟨q, hreceived, hqk⟩

theorem expected_delivered (holds : Holds cfg epoch l (afterArrivals cfg epoch seedSeq l))
    (hsucc : (afterArrivals cfg epoch seedSeq l).receiver.delivered.toNat + 1 < 2 ^ 64) :
    Expected seedSeq l ((afterArrivals cfg epoch seedSeq l).receiver.delivered.toNat + 1) := by
  have exact : Exact seedSeq (afterArrivals cfg epoch seedSeq l) := Exact.history _ _ _ _
  have hdel := exact.delivered
  refine ⟨⟨by omega, fun q hq heq => ?_⟩, fun k hk => ?_⟩
  · rcases holds.known q hq with hle | hmem
    · rw [UInt64.le_iff_toNat_le] at hle
      omega
    · obtain ⟨p, hp⟩ := lookup_of_mem hmem
      have hseq : q.seq = (afterArrivals cfg epoch seedSeq l).receiver.delivered + 1 := by
        rw [← UInt64.toNat_inj, UInt64.toNat_add, heq, show (1 : UInt64).toNat = 1 from rfl]
        exact (Nat.mod_eq_of_lt hsucc).symm
      rw [hseq, exact.gap] at hp
      cases hp
  · obtain ⟨hk, hnot⟩ := hk
    by_contra hlt
    obtain ⟨q, hq, hqk⟩ := arrived_of_known cfg epoch (l := l) hk (Or.inl (by omega))
    exact hnot q hq hqk

theorem Holds.dropped (holds : Holds cfg epoch l h)
    (known : p.seq ≤ h.receiver.delivered ∨ p.seq ∈ h.receiver.pending) :
    Holds cfg epoch (l ++ [p]) (h.call (.receive p)) := by
  obtain ⟨reason, hreason, hr⟩ := Receiver.dropped_of_known known
  have hcall : (h.call (.receive p)).receiver = h.receiver := by simp [History.call, hr]
  refine ⟨hcall ▸ holds.cfg_eq, hcall ▸ holds.epoch_eq, hcall ▸ holds.opened, fun q hq => ?_⟩
  rw [hcall]
  rcases List.mem_append.1 hq with hq | hq
  · exact holds.known q hq
  · rw [List.mem_singleton.1 hq]
    exact known

theorem Holds.accepted (exact : Exact seedSeq h) (holds : Holds cfg epoch l h)
    (hp : (h.receiver.receive p).1.2 = .notDropped) : Holds cfg epoch (l ++ [p]) (h.call (.receive p)) := by
  rcases History.receive_cases exact.waiting p with hcall | ⟨-, -, hmem, d, drains, -, hcall⟩
  · have hdropped := congrArg History.dropped hcall
    simp [History.call, hp] at hdropped
  rw [hcall]
  refine ⟨holds.cfg_eq, holds.epoch_eq, holds.opened, fun q hq => ?_⟩
  -- it was waiting before, as `p` is, or it has been handed on before
  have hbefore : q.seq ≤ h.receiver.delivered ∨ q.seq ∈ h.receiver.pending.insert p.seq p := by
    rcases List.mem_append.1 hq with hq | hq
    · exact (holds.known q hq).imp_right fun hmem => (AList.mem_insert _).2 (Or.inr hmem)
    · exact Or.inr ((AList.mem_insert _).2 (Or.inl (by rw [List.mem_singleton.1 hq])))
  have hdel := drains.delivered_eq
  rcases hbefore with hle | hin
  · left
    rw [UInt64.le_iff_toNat_le] at hle ⊢
    change _ ≤ d.delivered.toNat
    omega
  · obtain ⟨q', hq'⟩ := lookup_of_mem hin
    have hlt : h.receiver.delivered < p.seq := by
      rcases h.receiver.receive_cases p with ⟨reason, hreason, hr⟩ | ⟨-, -, hlt, -⟩
      · rw [hr] at hp
        exact absurd hp hreason
      · exact hlt
    have hseq' : q'.seq = q.seq := ((exact.waiting.insert hlt) q.seq q' hq').1
    have hplace := drains.kept.mem_iff.1 (mem_values.2 ⟨q.seq, hq'⟩)
    rcases List.mem_append.1 hplace with hout | hrest
    · left
      have hmem : q'.seq.toNat ∈ d.out.map (·.seq.toNat) := List.mem_map_of_mem hout
      rw [drains.seqs, List.mem_range'_1, hseq'] at hmem
      rw [UInt64.le_iff_toNat_le]
      change _ ≤ d.delivered.toNat
      omega
    · right
      obtain ⟨seq, hseq⟩ := mem_values.1 hrest
      have heq := (drains.waiting seq q' hseq).1
      change q.seq ∈ d.pending
      rw [← hseq', heq]
      exact mem_of_lookup hseq

section

variable (arrivals : Arrivals cfg epoch seedSeq n l)
include arrivals

theorem accepted_of_first (hn : seedSeq.toNat + n < 2 ^ 64)
    (hsize : cfg.windowSize.toNat + 1 < 2 ^ 64) {before after : List (Packet Payload)}
    (hl : l = before ++ p :: after) (first : p.seq ∉ before.map (·.seq))
    (holds : Holds cfg epoch before (afterArrivals cfg epoch seedSeq before)) :
    ((afterArrivals cfg epoch seedSeq before).receiver.receive p).1.2 = .notDropped := by
  have exact : Exact seedSeq (afterArrivals cfg epoch seedSeq before) := Exact.history _ _ _ _
  have hp : p ∈ l := by simp [hl]
  have hrange := arrivals.range p hp
  have hnot : ∀ q ∈ before, q.seq.toNat ≠ p.seq.toNat :=
    fun q hq heq => first (List.mem_map.2 ⟨q, hq, UInt64.toNat_inj.1 heq⟩)
  have hlt : (afterArrivals cfg epoch seedSeq before).receiver.delivered < p.seq := by
    rw [UInt64.lt_iff_toNat_lt]
    by_contra hle
    obtain ⟨q, hq, hqk⟩ := arrived_of_known cfg epoch (l := before) hrange.1 (Or.inl (by omega))
    exact hnot q hq hqk
  have hmem : p.seq ∉ (afterArrivals cfg epoch seedSeq before).receiver.pending := by
    intro hmem
    obtain ⟨w, hw, hseq⟩ := mem_of_mem_waiting exact hmem
    obtain ⟨q, hq, hqk⟩ := arrived_of_known cfg epoch (l := before) hrange.1 (Or.inr ⟨w, hw, by rw [hseq]⟩)
    exact hnot q hq hqk
  have hnat := UInt64.lt_iff_toNat_lt.1 hlt
  have hexpected := expected_delivered holds (by omega)
  have hwindow := arrivals.window before p after hl first _ hexpected
  refine Receiver.accepted_of_new holds.opened ?_ hlt hmem ?_ ?_
  · rw [arrivals.epochs p hp, holds.epoch_eq]
  · rwa [holds.cfg_eq]
  · rwa [holds.cfg_eq]

theorem holds_of_arrivals (hn : seedSeq.toNat + n < 2 ^ 64)
    (hsize : cfg.windowSize.toNat + 1 < 2 ^ 64) (before after : List (Packet Payload)) (hl : l = before ++ after) :
    Holds cfg epoch before (afterArrivals cfg epoch seedSeq before) := by
  induction before using List.reverseRecOn generalizing after with
  | nil => exact ⟨rfl, rfl, rfl, by simp⟩
  | append_singleton before p ih =>
    have hl' : l = before ++ p :: after := by rw [hl, List.append_assoc, List.singleton_append]
    have holds := ih (p :: after) hl'
    rw [afterArrivals_concat]
    by_cases first : p.seq ∈ before.map (·.seq)
    · obtain ⟨q, hq, hseq⟩ := List.mem_map.1 first
      exact holds.dropped (hseq ▸ holds.known q hq)
    · exact holds.accepted (Exact.history _ _ _ _) (accepted_of_first arrivals hn hsize hl' first holds)

theorem waiting_eq_nil
    (holds : Holds cfg epoch l (afterArrivals cfg epoch seedSeq l)) (hn : seedSeq.toNat + n < 2 ^ 64) :
    (afterArrivals cfg epoch seedSeq l).waiting = [] := by
  have exact : Exact seedSeq (afterArrivals cfg epoch seedSeq l) := Exact.history _ _ _ _
  apply List.eq_nil_iff_forall_not_mem.2
  intro w hw
  have hdel := exact.delivered
  have hlt := UInt64.lt_iff_toNat_lt.1 (exact.waiting.lt_of_mem hw)
  -- a waiting packet is numbered up to `n`, so that the one before the gap has arrived as well
  obtain ⟨q, hq, hqk⟩ := arrived_of_known cfg epoch (l := l)
    (by omega : seedSeq.toNat < w.seq.toNat) (Or.inr ⟨w, hw, rfl⟩)
  have hrange := arrivals.range q hq
  obtain ⟨⟨-, hmissing⟩, -⟩ := expected_delivered holds (by omega)
  obtain ⟨p, hp, hpk⟩ := arrivals.all _ (by omega :
    seedSeq.toNat < (afterArrivals cfg epoch seedSeq l).receiver.delivered.toNat + 1) (by omega)
  exact hmissing p hp hpk

theorem delivered_eq
    (holds : Holds cfg epoch l (afterArrivals cfg epoch seedSeq l)) (hn : seedSeq.toNat + n < 2 ^ 64) :
    (afterArrivals cfg epoch seedSeq l).out.length = n := by
  have exact : Exact seedSeq (afterArrivals cfg epoch seedSeq l) := Exact.history _ _ _ _
  have hdel := exact.delivered
  apply le_antisymm
  · by_contra hlt
    obtain ⟨q, hq, hqk⟩ := arrived_of_known cfg epoch (l := l)
      (by omega : seedSeq.toNat < seedSeq.toNat + n + 1) (Or.inl (by omega))
    have hrange := arrivals.range q hq
    omega
  · by_contra hlt
    obtain ⟨⟨-, hmissing⟩, -⟩ := expected_delivered holds (by omega)
    obtain ⟨p, hp, hpk⟩ := arrivals.all _ (by omega :
      seedSeq.toNat < (afterArrivals cfg epoch seedSeq l).receiver.delivered.toNat + 1) (by omega)
    exact hmissing p hp hpk

theorem complete_of_arrivals (hn : seedSeq.toNat + n < 2 ^ 64)
    (hsize : cfg.windowSize.toNat + 1 < 2 ^ 64) : Complete cfg epoch seedSeq n l := by
  have exact : Exact seedSeq (afterArrivals cfg epoch seedSeq l) := Exact.history _ _ _ _
  have holds := holds_of_arrivals arrivals hn hsize l [] (by simp)
  refine ⟨fun before p after hl first => ?_, ?_, waiting_eq_nil arrivals holds hn⟩
  · exact accepted_of_first arrivals hn hsize hl first (holds_of_arrivals arrivals hn hsize before (p :: after) hl)
  · rw [exact.seqs, delivered_eq arrivals holds hn]

end

end Runs

/-! ## The window size that wraps -/

def inOrder [Inhabited Payload] (epoch seedSeq : UInt64) (n : ℕ) : List (Packet Payload) :=
  (List.range' 1 n).map fun k => ⟨epoch, seedSeq + .ofNat k, default⟩

theorem toNat_inOrder {k : ℕ} (hn : seedSeq.toNat + n < 2 ^ 64) (hk : k ≤ n) :
    (seedSeq + .ofNat k).toNat = seedSeq.toNat + k := by
  rw [UInt64.toNat_add, UInt64.toNat_ofNat', Nat.mod_eq_of_lt (by omega : k < 2 ^ 64)]
  exact Nat.mod_eq_of_lt (by omega)

theorem arrivals_inOrder [Inhabited Payload] (hn : seedSeq.toNat + n < 2 ^ 64)
    (hsize : cfg.windowSize.toNat + 1 = 2 ^ 64) :
    Arrivals cfg epoch seedSeq n (inOrder epoch seedSeq n : List (Packet Payload)) := by
  refine ⟨?_, ?_, ?_, ?_⟩
  · intro p hp
    obtain ⟨k, -, rfl⟩ := List.mem_map.1 hp
    rfl
  · intro p hp
    obtain ⟨k, hk, rfl⟩ := List.mem_map.1 hp
    rw [List.mem_range'_1] at hk
    have := toNat_inOrder hn (by omega : k ≤ n)
    dsimp only
    omega
  · intro k hlt hle
    refine ⟨⟨epoch, seedSeq + .ofNat (k - seedSeq.toNat), default⟩, ?_, ?_⟩
    · exact List.mem_map.2 ⟨k - seedSeq.toNat, List.mem_range'_1.2 (by omega), rfl⟩
    · have := toNat_inOrder hn (by omega : k - seedSeq.toNat ≤ n)
      dsimp only
      omega
  · intro before p after _ _ next _
    have := p.seq.toNat_lt
    omega

/-- The window keeps its promise to every arrival sequence, unless the window size is the largest number
there is and a packet arrives at all. -/
theorem complete_iff [Inhabited Payload] (cfg : Config) (epoch seedSeq : UInt64) (n : ℕ)
    (hn : seedSeq.toNat + n < 2 ^ 64) :
    (∀ l : List (Packet Payload), Arrivals cfg epoch seedSeq n l → Complete cfg epoch seedSeq n l) ↔
      cfg.windowSize.toNat ≠ 2 ^ 64 - 1 ∨ n = 0 := by
  have hlt := cfg.windowSize.toNat_lt
  constructor
  · intro promise
    by_contra hmax
    rw [not_or, not_not] at hmax
    obtain ⟨hsize, hpos⟩ := hmax
    have complete := promise _ (arrivals_inOrder hn (by omega))
    obtain ⟨m, rfl⟩ := Nat.exists_eq_succ_of_ne_zero hpos
    refine Receiver.not_accepted_of_max ?_ _ (complete.accepted [] _ _ rfl (by simp))
    apply UInt64.toNat_inj.1
    change (cfg.windowSize + 1).toNat = 0
    rw [UInt64.toNat_add, hsize]
    rfl
  · rintro (hsize | rfl) l arrivals
    · exact complete_of_arrivals arrivals hn (by omega)
    · have hnil : l = [] := by
        apply List.eq_nil_iff_forall_not_mem.2
        intro p hp
        have := arrivals.range p hp
        omega
      subst hnil
      refine ⟨fun before p after hl => ?_, rfl, rfl⟩
      simp at hl

theorem complete_iff_sixty_four : (0 : UInt64).toNat + 3 < 2 ^ 64 ∧
    ∀ l : List (Packet Unit), Arrivals defaultConfig 1 0 3 l → Complete defaultConfig 1 0 3 l :=
  ⟨by decide, (complete_iff defaultConfig 1 0 3 (by decide)).2 (Or.inl (by decide))⟩

/-- With the largest window size the next packet is dropped as out of the window. -/
theorem next_packet_dropped : Arrivals ⟨18446744073709551615⟩ 1 0 1 [(⟨1, 1, ()⟩ : Packet Unit)] ∧
      ((afterArrivals ⟨18446744073709551615⟩ 1 0 []).receiver.receive (⟨1, 1, ()⟩ : Packet Unit)).1 =
        ([], .dropOutOfWindow) ∧
      ¬ Complete ⟨18446744073709551615⟩ 1 0 1 [(⟨1, 1, ()⟩ : Packet Unit)] := by
  have inOrder : Arrivals ⟨18446744073709551615⟩ 1 0 1 (inOrder 1 0 1 : List (Packet Unit)) :=
    arrivals_inOrder (by decide) (by decide)
  refine ⟨inOrder, by decide, fun complete => ?_⟩
  exact absurd (complete.accepted [] _ [] rfl (by simp)) (by decide)

/-! ## The size of the buffer -/

theorem Receiver.near_of_accepted {r : Receiver Payload} {p : Packet Payload} (h : (r.receive p).1.2 = .notDropped) :
    p.seq.toNat ≤ r.delivered.toNat + 1 + r.cfg.windowSize.toNat := by
  by_contra far
  have later : r.delivered ≤ p.seq := UInt64.le_iff_toNat_le.2 (by omega)
  have outside : r.cfg.windowSize + 1 < p.seq - r.delivered := by
    rw [UInt64.lt_iff_toNat_lt, UInt64.toNat_sub_of_le _ _ later, UInt64.toNat_add, UInt64.toNat_one]
    omega
  simp only [receive, if_pos outside] at h
  split_ifs at h

/-- The packets that wait are within the window. -/
structure Near (cfg : Config) (h : History Payload) : Prop where
  cfg_eq : h.receiver.cfg = cfg
  near : ∀ p ∈ h.waiting, p.seq.toNat ≤ h.receiver.delivered.toNat + 1 + cfg.windowSize.toNat

theorem Near.call {cfg : Config} {seedSeq : UInt64} {h : History Payload} (near : Near cfg h) (exact : Exact seedSeq h)
    (c : ReceiverCall Payload) : Near cfg (h.call c) := by
  obtain ⟨rfl, near⟩ := near
  cases c with
  | receive pkt =>
    rcases History.receive_cases exact.waiting pkt with hcall | ⟨-, -, hmem, d, drains, -, hcall⟩
    · rw [hcall]
      exact ⟨rfl, near⟩
    · have accepted : (h.receiver.receive pkt).1.2 = .notDropped := by
        by_contra hne
        have := congrArg History.accepted hcall
        simp [History.call, hne] at this
      rw [hcall]
      refine ⟨rfl, fun p hp => ?_⟩
      have further := drains.delivered_eq
      have old := drains.kept.mem_iff.2 (List.mem_append_right d.out hp)
      rw [values_insert hmem, List.mem_cons] at old
      dsimp only
      rcases old with rfl | old
      · have := Receiver.near_of_accepted accepted
        omega
      · have := near p old
        omega
  | advanceEpoch epoch =>
    simp only [History.call, Receiver.advanceEpoch]
    split_ifs <;> exact ⟨rfl, near⟩
  | close =>
    rcases Receiver.close_cases exact.waiting with ⟨-, hclose⟩ | ⟨-, hclose, -⟩
    · simp only [History.call, hclose]
      exact ⟨rfl, near⟩
    · simp only [History.call, hclose]
      exact ⟨rfl, by simp [History.waiting]⟩

/-- However packets arrive, no more of them wait than the window has room for. -/
theorem waiting_within_window (cfg : Config) (epoch seedSeq : UInt64) (calls : List (ReceiverCall Payload)) :
    (history cfg epoch seedSeq calls).waiting.length ≤ cfg.windowSize.toNat := by
  obtain ⟨exact, near⟩ : Exact seedSeq (history cfg epoch seedSeq calls) ∧ Near cfg (history cfg epoch seedSeq calls) :=
    List.foldlRecOn (motive := fun h => Exact seedSeq h ∧ Near cfg h) calls History.call
      ⟨.start cfg epoch seedSeq, rfl, nofun⟩ fun h ih c _ => ⟨ih.1.call c, ih.2.call ih.1 c⟩
  generalize history cfg epoch seedSeq calls = h at exact near ⊢
  -- the next number is not among those that wait
  have within : ∀ p ∈ h.waiting, h.receiver.delivered.toNat + 2 ≤ p.seq.toNat ∧
      p.seq.toNat < h.receiver.delivered.toNat + 2 + cfg.windowSize.toNat := by
    intro p hp
    have later := exact.waiting.lt_of_mem hp
    have gap : p.seq ≠ h.receiver.delivered + 1 := by
      intro next
      obtain ⟨seq, hseq⟩ := mem_values.1 hp
      rw [← (exact.waiting seq p hseq).1, next, exact.gap] at hseq
      cases hseq
    have lower := UInt64.lt_iff_toNat_lt.1 (lt_of_ne_succ later gap)
    have upper := near.near p hp
    rw [toNat_succ_of_lt later] at lower
    omega
  have nodup : (h.waiting.map (·.seq.toNat)).Nodup := by
    have := exact.nodup_waiting.map fun _ _ => UInt64.toNat_inj.1
    rwa [List.map_map] at this
  have sub : h.waiting.map (·.seq.toNat) ⊆ List.range' (h.receiver.delivered.toNat + 2) cfg.windowSize.toNat := by
    intro n hn
    obtain ⟨p, hp, rfl⟩ := List.mem_map.1 hn
    exact List.mem_range'_1.2 (within p hp)
  simpa using (nodup.subperm sub).length_le

end Egressa.Reorder
