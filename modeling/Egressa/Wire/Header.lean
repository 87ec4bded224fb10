import Egressa.Bytes

/-!
# The session header

`pkg/wire/header.go`: the fixed 24-byte header in front of every datagram of the data plane.
Decoding gives back what was encoded, whatever follows it.
-/

namespace Egressa.Wire

open Bytes

def sessionHeaderSize : ℕ := 24

/-- The version this build encodes. -/
def version : UInt8 := 1

def packetTypeData : UInt8 := 0

inductive Direction where
  | upstream
  | downstream
  deriving DecidableEq, Repr

/-- The header before each datagram. -/
structure SessionHeader where
  version : UInt8
  type : UInt8
  direction : Direction
  sessionID : UInt64
  epoch : UInt32
  sessionSeq : UInt64
  deriving DecidableEq, Repr

def flagDirectionBit : UInt8 := 1

def SessionHeader.encode (h : SessionHeader) : List UInt8 :=
  let flags := if h.direction = .downstream then flagDirectionBit else 0
  [h.version, h.type, flags, 0] ++ bigEndian 8 h.sessionID.toNat ++ bigEndian 4 h.epoch.toNat ++
    bigEndian 8 h.sessionSeq.toNat

/-- `EncodeTo`: the header over the front of `buf`, or an error if there is no room for it. -/
def SessionHeader.encodeTo (h : SessionHeader) (buf : List UInt8) : Except String (List UInt8) :=
  if buf.length < sessionHeaderSize then
    .error ("wire: EncodeTo: buffer too small: have " ++ buf.length.repr ++ " bytes, need " ++ sessionHeaderSize.repr)
  else .ok (h.encode ++ buf.drop sessionHeaderSize)

def decode (buf : List UInt8) : Except String (SessionHeader × ℕ) :=
  if buf.length < sessionHeaderSize then
    .error ("wire: Decode: short buffer: have " ++ buf.length.repr ++ " bytes, need " ++ sessionHeaderSize.repr)
  else
    let flags := buf.getD 2 0
    .ok ({
      version := buf.getD 0 0
      type := buf.getD 1 0
      direction := if flags &&& flagDirectionBit != 0 then .downstream else .upstream
      sessionID := .ofNat (ofBigEndian ((buf.drop 4).take 8))
      epoch := .ofNat (ofBigEndian ((buf.drop 12).take 4))
      sessionSeq := .ofNat (ofBigEndian ((buf.drop 16).take 8)) }, sessionHeaderSize)

@[simp] theorem length_encode (h : SessionHeader) : h.encode.length = sessionHeaderSize := by
  simp [SessionHeader.encode, sessionHeaderSize]

theorem decode_encode (h : SessionHeader) (rest : List UInt8) :
    decode (h.encode ++ rest) = .ok (h, sessionHeaderSize) := by
  have room : ¬ (h.encode ++ rest).length < sessionHeaderSize := by simp
  have id : ofBigEndian (bigEndian 8 h.sessionID.toNat) = h.sessionID.toNat :=
    ofBigEndian_bigEndian h.sessionID.toNat_lt
  have epoch : ofBigEndian (bigEndian 4 h.epoch.toNat) = h.epoch.toNat := ofBigEndian_bigEndian h.epoch.toNat_lt
  have seq : ofBigEndian (bigEndian 8 h.sessionSeq.toNat) = h.sessionSeq.toNat :=
    ofBigEndian_bigEndian h.sessionSeq.toNat_lt
  -- the fields stand at the offsets the decoder reads them from
  have at4 : ((h.encode ++ rest).drop 4).take 8 = bigEndian 8 h.sessionID.toNat := by
    simp only [SessionHeader.encode, List.append_assoc, List.cons_append, List.nil_append,
      List.drop_succ_cons, List.drop_zero]
    exact take_append_of_length (by simp)
  have at12 : ((h.encode ++ rest).drop 12).take 4 = bigEndian 4 h.epoch.toNat := by
    rw [show 12 = 4 + (bigEndian 8 h.sessionID.toNat).length by simp, ← List.drop_drop]
    simp only [SessionHeader.encode, List.append_assoc, List.cons_append, List.nil_append,
      List.drop_succ_cons, List.drop_zero, List.drop_left]
    exact take_append_of_length (by simp)
  have at16 : ((h.encode ++ rest).drop 16).take 8 = bigEndian 8 h.sessionSeq.toNat := by
    rw [show 16 = 4 + (bigEndian 8 h.sessionID.toNat).length + (bigEndian 4 h.epoch.toNat).length by
      simp, ← List.drop_drop, ← List.drop_drop]
    simp only [SessionHeader.encode, List.append_assoc, List.cons_append, List.nil_append,
      List.drop_succ_cons, List.drop_zero, List.drop_left]
    exact take_append_of_length (by simp)
  rw [decode, if_neg room, at4, at12, at16, id, epoch, seq]
  cases h with
  | mk version type direction sessionID epoch sessionSeq =>
    cases direction <;> simp [SessionHeader.encode, flagDirectionBit]

end Egressa.Wire
