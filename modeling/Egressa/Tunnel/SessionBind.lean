import Egressa.Wire.Header

/-!
# Session framing

`sessionBind` (`internal/tunnel/sessionbind.go`) puts a session header in front of every datagram it sends and takes it
off every datagram it receives, dropping those that `admits` does not accept.
-/

namespace Egressa.Tunnel

open Wire

/-- `tunnel.SessionBind`, as far as headers depend on it. -/
structure SessionBind where
  sessionID : UInt64
  epoch : UInt32
  seq : UInt64
  deriving DecidableEq, Repr

def newSessionBind (sessionID : UInt64) (epoch : UInt32) : SessionBind := ⟨sessionID, epoch, 0⟩

namespace SessionBind

def setEpoch (b : SessionBind) (epoch : UInt32) : SessionBind := { b with epoch }

def header (b : SessionBind) : SessionHeader where
  version := version
  type := packetTypeData
  direction := .upstream
  sessionID := b.sessionID
  epoch := b.epoch
  sessionSeq := b.seq + 1

/-- `Send`: the framed datagrams, and the bind with its sequence number advanced. -/
def send (b : SessionBind) : List (List UInt8) → Except String (List (List UInt8) × SessionBind)
  | [] => .ok ([], b)
  | buf :: bufs =>
    match b.header.encodeTo (List.replicate sessionHeaderSize 0) with
    | .error e => .error ("tunnel: encode session header: " ++ e)
    | .ok framed => match send { b with seq := b.seq + 1 } bufs with
      | .error e => .error e
      | .ok (rest, b') => .ok ((framed ++ buf) :: rest, b')

end SessionBind

/-- One datagram of a received batch: what is delivered of it, if anything. -/
def deliver (admits : SessionHeader → Bool) (data : List UInt8) : Option (List UInt8) :=
  if data.length < sessionHeaderSize then none
  else match decode data with
    | .error _ => none
    | .ok (h, consumed) => if !admits h then none else some (data.drop consumed)

/-- The receive function of `wrapReceiveFunc`. -/
def receive (admits : SessionHeader → Bool) (packets : List (List UInt8)) : List (List UInt8) :=
  packets.filterMap (deliver admits)

theorem deliver_encode (admits : SessionHeader → Bool) (h : SessionHeader) (buf : List UInt8) :
    deliver admits (h.encode ++ buf) = if admits h then some buf else none := by
  have room : ¬ (h.encode ++ buf).length < sessionHeaderSize := by simp
  have hdrop : (h.encode ++ buf).drop sessionHeaderSize = buf := by
    rw [← length_encode h, List.drop_left]
  rw [deliver, if_neg room, decode_encode]
  cases ha : admits h <;> simp [ha, hdrop]

theorem receive_send {admits : SessionHeader → Bool} {b b' : SessionBind} {bufs frames : List (List UInt8)}
    {verdict : Bool}
    (judged : ∀ h : SessionHeader, h.sessionID = b.sessionID → h.epoch = b.epoch → admits h = verdict)
    (sent : b.send bufs = .ok (frames, b')) :
    receive admits frames = if verdict then bufs else [] := by
  induction bufs generalizing b frames with
  | nil =>
    cases sent
    cases verdict <;> rfl
  | cons buf bufs ih =>
    have room : b.header.encodeTo (List.replicate sessionHeaderSize 0) = .ok b.header.encode := by
      simp [SessionHeader.encodeTo]
    simp only [SessionBind.send, room] at sent
    cases hrest : SessionBind.send { b with seq := b.seq + 1 } bufs with
    | error e => simp [hrest] at sent
    | ok p =>
      obtain ⟨rest, b''⟩ := p
      simp only [hrest, Except.ok.injEq, Prod.mk.injEq] at sent
      obtain ⟨rfl, rfl⟩ := sent
      have tail := ih (b := { b with seq := b.seq + 1 }) judged hrest
      have head : deliver admits (b.header.encode ++ buf) = if verdict then some buf else none := by
        rw [deliver_encode, judged b.header rfl rfl]
      rw [receive] at tail ⊢
      cases verdict with
      | true => rw [List.filterMap_cons, head, if_pos rfl, tail, if_pos rfl, if_pos rfl]
      | false => rw [List.filterMap_cons, head, if_neg (by decide), tail, if_neg (by decide),
          if_neg (by decide)]

end Egressa.Tunnel
