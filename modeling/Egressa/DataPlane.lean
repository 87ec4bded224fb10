import Egressa.Client.Agent
import Egressa.Gateway.Fence

/-!
# Epochs on the data plane

A client stamps the low 32 bits of its session's epoch in every header, and a gateway compares them
with the whole epoch it has applied.  The two agree for an epoch exactly if it has 32 bits
(`dataPlaneAgrees_iff`): beyond that, a client that holds the very epoch the gateway has applied is
fenced.
-/

namespace Egressa

open Tunnel Wire GatewayAgent

namespace ClientAgent

/-- A connected client: it opened a session of the controller, whose IDs are canonical, and has
adopted sessions and sent datagrams since. -/
inductive Connected : ClientAgent → Prop
  | run {session : Session} (ipsec : Bool) {a : ClientAgent} (hid : CanonicalID session.id)
      (h : connect session ipsec = some a) : Connected a
  | adopt {a : ClientAgent} (h : Connected a) {sess : Session} (hid : sess.id = a.session.id) :
      Connected (a.adopt sess)
  | send {session : Session} {b b' : SessionBind} (h : Connected ⟨session, some b⟩)
      {bufs frames : List (List UInt8)} (hs : b.send bufs = .ok (frames, b')) :
      Connected ⟨session, some b'⟩

/-- The client stamps its session and the epoch it is at. -/
structure Stamps (a : ClientAgent) : Prop where
  canonical : CanonicalID a.session.id
  sessionID : ∀ b ∈ a.dev, a.session.id = formatUint b.sessionID
  epoch : ∀ b ∈ a.dev, b.epoch = a.session.epoch.toUInt32

theorem stamps_connect {session : Session} {ipsec : Bool} {a : ClientAgent}
    (hid : CanonicalID session.id) (h : connect session ipsec = some a) : Stamps a := by
  have hid₀ := hid
  obtain ⟨n, -, hid'⟩ := hid₀
  rw [connect, hid', parseUint_formatUint] at h
  cases ipsec with
  | true =>
    cases h
    exact ⟨hid, by simp, by simp⟩
  | false =>
    cases h
    exact ⟨hid, by simp [newSessionBind, hid'], by simp [newSessionBind]⟩

theorem send_stamps {b b' : SessionBind} {bufs frames : List (List UInt8)}
    (hs : b.send bufs = .ok (frames, b')) : b'.sessionID = b.sessionID ∧ b'.epoch = b.epoch := by
  induction bufs generalizing b frames with
  | nil =>
    cases hs
    exact ⟨rfl, rfl⟩
  | cons buf bufs ih =>
    rw [SessionBind.send] at hs
    split at hs
    · cases hs
    · split at hs
      · cases hs
      · next hrest =>
        cases hs
        exact ih (b := { b with seq := b.seq + 1 }) hrest

theorem Connected.stamps {a : ClientAgent} (h : Connected a) : Stamps a := by
  induction h with
  | run ipsec hid h => exact stamps_connect hid h
  | @adopt a _ sess hid ih =>
    unfold ClientAgent.adopt
    split_ifs with hle
    · exact ih
    · refine ⟨hid ▸ ih.canonical, fun b hb => ?_, fun b hb => ?_⟩
      · obtain ⟨b₀, hb₀, rfl⟩ := Option.map_eq_some_iff.1 hb
        exact hid.trans (ih.sessionID b₀ hb₀)
      · obtain ⟨b₀, -, rfl⟩ := Option.map_eq_some_iff.1 hb
        rfl
  | send h hs ih =>
    obtain ⟨hid, hepoch⟩ := send_stamps hs
    refine ⟨ih.canonical, fun b hb => ?_, fun b hb => ?_⟩
    · cases hb
      rw [hid]
      exact ih.sessionID _ rfl
    · cases hb
      rw [hepoch]
      exact ih.epoch _ rfl

end ClientAgent

/-- The data plane agrees with the control plane on `E`: a client that holds `E` gets through to a gateway that has
applied no later epoch of its session, and one at an older epoch does not get through to a gateway that has applied
`E`. -/
def DataPlaneAgrees (E : UInt64) : Prop :=
  (∀ session b, ClientAgent.Connected ⟨session, some b⟩ → session.epoch = E →
    ∀ plans : List Epochs, (∀ p ∈ plans, ∀ e, p.epochs.lookup session.id = some e → e ≤ E) →
    ∀ bufs frames b', b.send bufs = .ok (frames, b') → receive (applied plans).admits frames = bufs) ∧
  (∀ session b, ClientAgent.Connected ⟨session, some b⟩ → session.epoch < E →
    ∀ plans : List Epochs, (∃ p ∈ plans, p.epochs.lookup session.id = some E) →
    ∀ bufs frames b', b.send bufs = .ok (frames, b') → receive (applied plans).admits frames = [])

theorem admits_stamped {session : Session} {b : SessionBind}
    (h : ClientAgent.Connected ⟨session, some b⟩) (plans : List Epochs) {hdr : SessionHeader}
    (hid : hdr.sessionID = b.sessionID) (hepoch : hdr.epoch = b.epoch) :
    (applied plans).admits hdr = (applied plans).gate.admits session.id session.epoch.toUInt32.toUInt64 := by
  have stamps := h.stamps
  have hsid : session.id = formatUint b.sessionID := stamps.sessionID b rfl
  have hne : hdr.sessionID ≠ 0 := by
    obtain ⟨id, hid0, hid'⟩ := stamps.canonical
    rw [hid, formatUint_inj.1 (hsid.symm.trans hid')]
    exact hid0
  have hstamp : b.epoch = session.epoch.toUInt32 := stamps.epoch b rfl
  rw [(fenced_applied plans).admits_eq hne, hid, hepoch, hsid, hstamp]

theorem toUInt32_toUInt64_of_lt {E : UInt64} (h : E < 4294967296) : E.toUInt32.toUInt64 = E := by
  rw [UInt64.toUInt64_toUInt32]
  apply UInt64.toNat_inj.1
  rw [UInt64.lt_iff_toNat_lt] at h
  rw [UInt64.toNat_mod]
  exact Nat.mod_eq_of_lt h

theorem toUInt32_toUInt64_le (E : UInt64) : E.toUInt32.toUInt64 ≤ E := by
  rw [UInt64.toUInt64_toUInt32, UInt64.le_iff_toNat_le, UInt64.toNat_mod]
  exact Nat.mod_le _ _

theorem toUInt32_toUInt64_lt (E : UInt64) : E.toUInt32.toUInt64 < 4294967296 := by
  rw [UInt64.lt_iff_toNat_lt, UInt32.toNat_toUInt64]
  exact E.toUInt32.toNat_lt

theorem receive_of_behind {session : Session} {b : SessionBind}
    (h : ClientAgent.Connected ⟨session, some b⟩) {E : UInt64} (hlt : session.epoch.toUInt32.toUInt64 < E)
    {plans : List Epochs} (hp : ∃ p ∈ plans, p.epochs.lookup session.id = some E)
    {bufs frames : List (List UInt8)} {b' : SessionBind} (hs : b.send bufs = .ok (frames, b')) :
    receive (applied plans).admits frames = [] := by
  obtain ⟨p, hmem, he⟩ := hp
  have shut : ∀ hdr : SessionHeader, hdr.sessionID = b.sessionID → hdr.epoch = b.epoch →
      (applied plans).admits hdr = false := by
    intro hdr hid hepoch
    rw [admits_stamped h plans hid hepoch]
    exact EpochGate.admits_eq_false (reached_applied hmem he) hlt
  exact receive_send shut hs

def sessionAt (E : UInt64) : Session := { id := formatUint 1, epoch := E }

theorem not_dataPlaneAgrees {E : UInt64} (h : 4294967296 ≤ E) : ¬ DataPlaneAgrees E := by
  intro agrees
  have hid : CanonicalID (sessionAt E).id := ⟨1, by decide, rfl⟩
  let b := newSessionBind 1 E.toUInt32
  have client : ClientAgent.Connected ⟨sessionAt E, some b⟩ :=
    .run false hid (by simp [ClientAgent.connect, sessionAt, parseUint_formatUint, b])
  let plan := Epochs.single 1 (by decide) E
  have epochs : ∀ p ∈ [plan], ∀ e, p.epochs.lookup (sessionAt E).id = some e → e ≤ E := by
    intro p hp e he
    obtain rfl := List.mem_singleton.1 hp
    rw [sessionAt, Epochs.lookup_single] at he
    rw [Option.some.inj he]
    exact UInt64.le_refl _
  obtain ⟨frames, b', hs⟩ : ∃ frames b', b.send [[]] = .ok (frames, b') :=
    ⟨[b.header.encode ++ []], { b with seq := b.seq + 1 }, by simp [SessionBind.send, SessionHeader.encodeTo]⟩
  have through := agrees.1 _ b client rfl [plan] epochs [[]] frames b' hs
  have seen : ∃ p ∈ [plan], p.epochs.lookup (sessionAt E).id = some E :=
    ⟨plan, List.mem_singleton_self _, Epochs.lookup_single 1 (by decide) E⟩
  have fenced := receive_of_behind client (UInt64.lt_of_lt_of_le (toUInt32_toUInt64_lt E) h) seen hs
  rw [through] at fenced
  cases fenced

/-- The data plane agrees with the control plane on exactly the epochs of 32 bits. -/
theorem dataPlaneAgrees_iff (E : UInt64) : DataPlaneAgrees E ↔ E < 4294967296 := by
  constructor
  · intro agrees
    by_contra hE
    exact not_dataPlaneAgrees (UInt64.not_lt.1 hE) agrees
  · intro hE
    refine ⟨?_, ?_⟩
    · intro session b client hepoch plans epochs bufs frames b' hs
      have open' : ∀ hdr : SessionHeader, hdr.sessionID = b.sessionID → hdr.epoch = b.epoch →
          (applied plans).admits hdr = true := by
        intro hdr hid hstamp
        rw [admits_stamped client plans hid hstamp, hepoch, toUInt32_toUInt64_of_lt hE, EpochGate.admits]
        cases hk : (applied plans).gate.known.lookup session.id with
        | none => rfl
        | some cur =>
          obtain ⟨p, hp, he⟩ := known_applied hk
          simpa using epochs p hp cur he
      exact receive_send open' hs
    · intro session b client hlt plans hp bufs frames b' hs
      exact receive_of_behind client (UInt64.lt_of_le_of_lt (toUInt32_toUInt64_le session.epoch) hlt) hp hs

/-- The first epoch that is too wide: a client that holds it stamps epoch 0. -/
theorem not_dataPlaneAgrees_two_pow_32 : ¬ DataPlaneAgrees 4294967296 := not_dataPlaneAgrees (UInt64.le_refl _)

end Egressa
