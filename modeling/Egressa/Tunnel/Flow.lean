import Egressa.Bytes
import Egressa.IPsec.Config
import Egressa.Slices

/-!
# Flows of packets

`ParseFlowKey` (`internal/tunnel/flow.go`) reads the flow of an IP packet off its headers, and `parseIPHeader`
(`internal/measurement/egress.go`) reads an IP header for the measurements.  `ParseFlowKey` takes the ports from where
the transport header begins, also of a fragment that has none.
-/

namespace Egressa.Tunnel

open Bytes Slices
open IPsec (NetAddr)

/-! ## The two parsers -/

def protoICMP : UInt8 := 1
def protoTCP : UInt8 := 6
def protoUDP : UInt8 := 17
def protoICMPv6 : UInt8 := 58

structure FlowKey where
  proto : UInt8
  srcAddr : NetAddr
  srcPort : UInt16 := 0
  dstAddr : NetAddr
  dstPort : UInt16 := 0
  deriving DecidableEq, Repr

def addrFrom4 (b : List UInt8) : NetAddr := .v4 (.ofNat 32 (ofBigEndian b))

def addrFrom16 (b : List UInt8) : NetAddr := .v6 (.ofNat 128 (ofBigEndian b)) ""

def uint16 (b : List UInt8) : UInt16 := .ofNat (ofBigEndian b)

/-- Reads the ports of TCP and UDP. -/
def setPorts (key : FlowKey) (transport : List UInt8) : Outcome String FlowKey :=
  if transport.length < 4 then
    .err ("tunnel: transport header too short (" ++ transport.length.repr ++ " bytes) for proto " ++
      key.proto.toNat.repr)
  else do
    let src ← slice transport 0 2
    let dst ← slice transport 2 4
    return { key with srcPort := uint16 src, dstPort := uint16 dst }

def parseFlowKeyIPv4 (packet : List UInt8) : Outcome String FlowKey :=
  if packet.length < 20 then
    .err ("tunnel: IPv4 packet too short (" ++ packet.length.repr ++ " bytes)")
  else do
    let first ← index packet 0
    let ihl := (first &&& 0x0f).toNat * 4
    if ihl < 20 ∨ packet.length < ihl then
      .err ("tunnel: invalid IPv4 header length " ++ ihl.repr ++ " (packet " ++ packet.length.repr ++ " bytes)")
    else do
      let proto ← index packet 9
      let src ← slice packet 12 16
      let dst ← slice packet 16 20
      let key : FlowKey := { proto, srcAddr := addrFrom4 src, dstAddr := addrFrom4 dst }
      if proto = protoTCP ∨ proto = protoUDP then do
        let transport ← sliceFrom packet ihl
        setPorts key transport
      else if proto = protoICMP then return key
      else .err ("tunnel: unsupported IPv4 protocol " ++ proto.toNat.repr)

def parseFlowKeyIPv6 (packet : List UInt8) : Outcome String FlowKey :=
  if packet.length < 40 then
    .err ("tunnel: IPv6 packet too short (" ++ packet.length.repr ++ " bytes)")
  else do
    let proto ← index packet 6
    let src ← slice packet 8 24
    let dst ← slice packet 24 40
    let key : FlowKey := { proto, srcAddr := addrFrom16 src, dstAddr := addrFrom16 dst }
    if proto = protoTCP ∨ proto = protoUDP then do
      let transport ← sliceFrom packet 40
      setPorts key transport
    else if proto = protoICMPv6 then return key
    else .err ("tunnel: unsupported IPv6 next header " ++ proto.toNat.repr)

def parseFlowKey (packet : List UInt8) : Outcome String FlowKey :=
  if packet.length < 1 then .err "tunnel: empty packet"
  else do
    let first ← index packet 0
    if first >>> 4 = 4 then parseFlowKeyIPv4 packet
    else if first >>> 4 = 6 then parseFlowKeyIPv6 packet
    else .err ("tunnel: unrecognized IP version " ++ (first >>> 4).toNat.repr)

/-- What `measurement` reads of a packet. -/
structure IPHeader where
  src : NetAddr
  dst : NetAddr
  proto : UInt8
  payload : List UInt8
  deriving DecidableEq, Repr

def parseIPHeader (packet : List UInt8) : Outcome String IPHeader :=
  if packet.length < 1 then .err "measurement: empty packet"
  else do
    let first ← index packet 0
    if first >>> 4 = 4 then
      if packet.length < 20 then
        .err ("measurement: IPv4 packet too short (" ++ packet.length.repr ++ " bytes)")
      else
        let ihl := (first &&& 0x0f).toNat * 4
        if ihl < 20 ∨ packet.length < ihl then
          .err ("measurement: invalid IPv4 header length " ++ ihl.repr ++ " (packet " ++ packet.length.repr ++
            " bytes)")
        else do
          let src ← slice packet 12 16
          let dst ← slice packet 16 20
          let proto ← index packet 9
          let payload ← sliceFrom packet ihl
          return { src := addrFrom4 src, dst := addrFrom4 dst, proto, payload }
    else if first >>> 4 = 6 then
      if packet.length < 40 then
        .err ("measurement: IPv6 packet too short (" ++ packet.length.repr ++ " bytes)")
      else do
        let src ← slice packet 8 24
        let dst ← slice packet 24 40
        let proto ← index packet 6
        let payload ← sliceFrom packet 40
        return { src := addrFrom16 src, dst := addrFrom16 dst, proto, payload }
    else .err ("measurement: unrecognized IP version " ++ (first >>> 4).toNat.repr)

/-! ## They agree -/

def ipVersion (packet : List UInt8) : UInt8 := packet.headD 0 >>> 4

def Supported (version proto : UInt8) : Prop :=
  proto = protoTCP ∨ proto = protoUDP ∨ (version = 4 ∧ proto = protoICMP) ∨ (version = 6 ∧ proto = protoICMPv6)

def HasPorts (proto : UInt8) : Prop := proto = protoTCP ∨ proto = protoUDP

instance (proto : UInt8) : Decidable (HasPorts proto) := inferInstanceAs (Decidable (_ ∨ _))

/-- The flow of a header, in its own terms. -/
def flowOf (version : UInt8) (h : IPHeader) : Option FlowKey :=
  if HasPorts h.proto then
    if h.payload.length < 4 then none
    else some
      { proto := h.proto
        srcAddr := h.src
        srcPort := uint16 (h.payload.take 2)
        dstAddr := h.dst
        dstPort := uint16 ((h.payload.take 4).drop 2) }
  else if version = 4 ∧ h.proto = protoICMP ∨ version = 6 ∧ h.proto = protoICMPv6 then
    some { proto := h.proto, srcAddr := h.src, dstAddr := h.dst }
  else none

variable {h : IPHeader}

theorem flowOf_eq_none {version : UInt8} (none : flowOf version h = none) :
    ¬ Supported version h.proto ∨ HasPorts h.proto ∧ h.payload.length < 4 := by
  unfold flowOf at none
  split_ifs at none with ports short other
  · exact Or.inr ⟨ports, short⟩
  · left
    rintro (tcp | udp | icmp)
    · exact ports (Or.inl tcp)
    · exact ports (Or.inr udp)
    · exact other icmp

theorem flowOf_eq_some {version : UInt8} {key : FlowKey} (some : flowOf version h = some key) :
    h.src = key.srcAddr ∧ h.dst = key.dstAddr ∧ h.proto = key.proto ∧ (HasPorts key.proto → 4 ≤ h.payload.length ∧
      key.srcPort = uint16 (h.payload.take 2) ∧ key.dstPort = uint16 ((h.payload.take 4).drop 2)) := by
  unfold flowOf at some
  split_ifs at some with ports short other
  · cases some
    exact ⟨rfl, rfl, rfl, fun _ => ⟨by omega, rfl, rfl⟩⟩
  · cases some
    exact ⟨rfl, rfl, rfl, fun has => absurd has ports⟩

theorem setPorts_of_le {key : FlowKey} {transport : List UInt8} (h : ¬ transport.length < 4) :
    setPorts key transport = .ok
      { key with srcPort := uint16 (transport.take 2), dstPort := uint16 ((transport.take 4).drop 2) } := by
  rw [setPorts, if_neg h, slice_of_le (by omega) (by omega), slice_of_le (by omega) (by omega)]
  rfl

def Gives (flow : Option FlowKey) (r : Outcome String FlowKey) : Prop :=
  match flow with
  | some key => r = .ok key
  | none => ∃ e, r = .err e

theorem gives_flowOf {version icmp : UInt8} {e : String}
    (hicmp : version = 4 ∧ h.proto = protoICMP ∨ version = 6 ∧ h.proto = protoICMPv6 ↔ h.proto = icmp) :
    Gives (flowOf version h) (if h.proto = protoTCP ∨ h.proto = protoUDP then
        setPorts { proto := h.proto, srcAddr := h.src, dstAddr := h.dst } h.payload
      else if h.proto = icmp then .ok { proto := h.proto, srcAddr := h.src, dstAddr := h.dst }
      else .err e) := by
  unfold flowOf
  by_cases ports : h.proto = protoTCP ∨ h.proto = protoUDP
  · rw [if_pos (show HasPorts h.proto from ports), if_pos ports]
    by_cases short : h.payload.length < 4
    · rw [if_pos short]
      exact ⟨_, if_pos short⟩
    · rw [if_neg short]
      exact setPorts_of_le short
  · rw [if_neg (show ¬ HasPorts h.proto from ports), if_neg ports]
    by_cases is : h.proto = icmp
    · rw [if_pos (hicmp.2 is), if_pos is]
      rfl
    · rw [if_neg fun h => is (hicmp.1 h), if_neg is]
      exact ⟨e, rfl⟩

/-- The parsers agree on a packet: both refuse it, or there is a header, which gives the flow. -/
def Agree (packet : List UInt8) : Prop :=
  ((∃ e, parseIPHeader packet = .err e) ∧ ∃ e, parseFlowKey packet = .err e) ∨
  ∃ h, parseIPHeader packet = .ok h ∧ Gives (flowOf (ipVersion packet) h) (parseFlowKey packet)

variable {packet : List UInt8}

theorem ipVersion_eq (h : 0 < packet.length) : ipVersion packet = packet[0] >>> 4 := by
  cases packet with
  | nil => simp at h
  | cons b packet => rfl

theorem agree_ipv4 (room : 0 < packet.length) (four : packet[0] >>> 4 = 4) :
    Agree packet := by
  have hflow : parseFlowKey packet = parseFlowKeyIPv4 packet := by
    rw [parseFlowKey, if_neg (by omega), index_of_lt room]
    exact if_pos four
  unfold Agree
  rw [hflow, parseIPHeader, if_neg (by omega), index_of_lt room, Outcome.ok_bind, if_pos four]
  by_cases short : packet.length < 20
  · rw [if_pos short]
    exact Or.inl ⟨⟨_, rfl⟩, _, if_pos short⟩
  rw [if_neg short, parseFlowKeyIPv4, if_neg short, index_of_lt room, Outcome.ok_bind]
  by_cases bad : (packet[0] &&& 0x0f).toNat * 4 < 20 ∨ packet.length < (packet[0] &&& 0x0f).toNat * 4
  · exact Or.inl ⟨⟨_, if_pos bad⟩, _, if_pos bad⟩
  -- from here on every index is within the header
  have ihl : (packet[0] &&& 0x0f).toNat * 4 ≤ packet.length := by omega
  rw [if_neg bad, if_neg bad, slice_of_le (by omega) (by omega), slice_of_le (by omega) (by omega),
    index_of_lt (by omega), sliceFrom_of_le ihl]
  refine Or.inr ⟨_, rfl, ?_⟩
  rw [(ipVersion_eq room).trans four]
  exact gives_flowOf (by simp)

theorem agree_ipv6 (room : 0 < packet.length) (six : packet[0] >>> 4 = 6) :
    Agree packet := by
  have notFour : ¬ packet[0] >>> 4 = 4 := by
    rw [six]
    decide
  have hflow : parseFlowKey packet = parseFlowKeyIPv6 packet := by
    rw [parseFlowKey, if_neg (by omega), index_of_lt room]
    exact (if_neg notFour).trans (if_pos six)
  unfold Agree
  rw [hflow, parseIPHeader, if_neg (by omega), index_of_lt room, Outcome.ok_bind, if_neg notFour, if_pos six]
  by_cases short : packet.length < 40
  · rw [if_pos short]
    exact Or.inl ⟨⟨_, rfl⟩, _, if_pos short⟩
  rw [if_neg short, parseFlowKeyIPv6, if_neg short, slice_of_le (by omega) (by omega),
    slice_of_le (by omega) (by omega), index_of_lt (by omega), sliceFrom_of_le (by omega)]
  refine Or.inr ⟨_, rfl, ?_⟩
  rw [(ipVersion_eq room).trans six]
  exact gives_flowOf (by simp)

theorem agree (packet : List UInt8) : Agree packet := by
  by_cases empty : packet.length < 1
  · exact Or.inl ⟨⟨_, if_pos empty⟩, _, if_pos empty⟩
  have room : 0 < packet.length := by omega
  by_cases four : packet[0] >>> 4 = 4
  · exact agree_ipv4 room four
  by_cases six : packet[0] >>> 4 = 6
  · exact agree_ipv6 room six
  refine Or.inl ⟨?_, ?_⟩
  · rw [parseIPHeader, if_neg empty, index_of_lt room]
    exact ⟨_, (if_neg four).trans (if_neg six)⟩
  · rw [parseFlowKey, if_neg empty, index_of_lt room]
    exact ⟨_, (if_neg four).trans (if_neg six)⟩

/-- Neither parser panics.  A flow is that of the header, with the ports its payload begins with; a header has one
unless its protocol is not supported, or its ports are missing. -/
theorem parsers_agree (packet : List UInt8) : parseFlowKey packet ≠ .panic ∧ parseIPHeader packet ≠ .panic ∧
    (∀ key, parseFlowKey packet = .ok key → ∃ h, parseIPHeader packet = .ok h ∧ h.src = key.srcAddr ∧
      h.dst = key.dstAddr ∧ h.proto = key.proto ∧ (HasPorts key.proto → 4 ≤ h.payload.length ∧
        key.srcPort = uint16 (h.payload.take 2) ∧ key.dstPort = uint16 ((h.payload.take 4).drop 2))) ∧
    ∀ h e, parseIPHeader packet = .ok h → parseFlowKey packet = .err e →
      ¬ Supported (ipVersion packet) h.proto ∨ HasPorts h.proto ∧ h.payload.length < 4 := by
  rcases agree packet with ⟨⟨e, he⟩, e', he'⟩ | ⟨h, hh, gives⟩
  · simp [he, he']
  cases hf : flowOf (ipVersion packet) h with
  | none =>
    rw [hf] at gives
    obtain ⟨e, he⟩ := gives
    refine ⟨by simp [he], by simp [hh], by simp [he], fun h' e' hh' _ => ?_⟩
    cases hh.symm.trans hh'
    exact (flowOf_eq_none hf)
  | some key =>
    rw [hf] at gives
    have gives : parseFlowKey packet = .ok key := gives
    refine ⟨by simp [gives], by simp [hh], fun key' hkey' => ⟨h, hh, ?_⟩, by simp [gives]⟩
    cases gives.symm.trans hkey'
    exact flowOf_eq_some hf

/-! ## Fragments -/

namespace IPv4

def field (p : List UInt8) (i j : ℕ) : List UInt8 := (p.take j).drop i

def headerLength (p : List UInt8) : ℕ := (p.headD 0 &&& 0x0f).toNat * 4

def protocol (p : List UInt8) : UInt8 := p.getD 9 0

def payload (p : List UInt8) : List UInt8 := p.drop (headerLength p)

def offset (p : List UInt8) : ℕ := ofBigEndian (field p 6 8) % 8192 * 8

def moreFragments (p : List UInt8) : Bool := ofBigEndian (field p 6 8) / 8192 % 2 == 1

/-- A well-formed IPv4 packet. -/
structure Valid (p : List UInt8) : Prop where
  version : ipVersion p = 4
  header : 20 ≤ headerLength p
  whole : headerLength p ≤ p.length
  total : ofBigEndian (field p 2 4) = p.length

/-- A datagram with ports, not itself a fragment. -/
structure Datagram (d : List UInt8) : Prop extends Valid d where
  ports : HasPorts (protocol d)
  first : offset d = 0
  unfragmented : moreFragments d = false

/-- A fragment of `d` that begins at `off`.  Its options may be others. -/
structure Piece (d : List UInt8) (off : ℕ) (f : List UInt8) : Prop extends Valid f where
  ident : field f 4 6 = field d 4 6
  proto : protocol f = protocol d
  src : field f 12 16 = field d 12 16
  dst : field f 16 20 = field d 16 20
  at_ : offset f = off
  data : payload f = ((payload d).drop off).take (payload f).length

instance (p : List UInt8) : Decidable (Valid p) :=
  decidable_of_iff (ipVersion p = 4 ∧ 20 ≤ headerLength p ∧ headerLength p ≤ p.length ∧
      ofBigEndian (field p 2 4) = p.length)
    ⟨fun ⟨version, header, whole, total⟩ => ⟨version, header, whole, total⟩,
      fun h => ⟨h.version, h.header, h.whole, h.total⟩⟩

instance (d : List UInt8) : Decidable (Datagram d) :=
  decidable_of_iff (Valid d ∧ HasPorts (protocol d) ∧ offset d = 0 ∧ moreFragments d = false)
    ⟨fun ⟨valid, ports, first, whole⟩ => ⟨valid, ports, first, whole⟩,
      fun h => ⟨h.toValid, h.ports, h.first, h.unfragmented⟩⟩

instance (d : List UInt8) (off : ℕ) (f : List UInt8) : Decidable (Piece d off f) :=
  decidable_of_iff (Valid f ∧ field f 4 6 = field d 4 6 ∧ protocol f = protocol d ∧
      field f 12 16 = field d 12 16 ∧ field f 16 20 = field d 16 20 ∧ offset f = off ∧
      payload f = ((payload d).drop off).take (payload f).length)
    ⟨fun ⟨valid, ident, proto, src, dst, at_, data⟩ => ⟨valid, ident, proto, src, dst, at_, data⟩,
      fun h => ⟨h.toValid, h.ident, h.proto, h.src, h.dst, h.at_, h.data⟩⟩

/-- The fragments of the rest of `d` from `off` on, in order. -/
inductive Pieces (d : List UInt8) : ℕ → List (List UInt8) → Prop
  | last {off : ℕ} {f : List UInt8} (piece : Piece d off f) (more : moreFragments f = false)
      (ends : off + (payload f).length = (payload d).length) : Pieces d off [f]
  | cons {off : ℕ} {f : List UInt8} {fs : List (List UInt8)} (piece : Piece d off f)
      (more : moreFragments f = true) (pos : 0 < (payload f).length) (blocks : (payload f).length % 8 = 0)
      (rest : Pieces d (off + (payload f).length) fs) : Pieces d off (f :: fs)

theorem Valid.parseIPHeader {p : List UInt8} (valid : Valid p) : parseIPHeader p = .ok
      { src := addrFrom4 (field p 12 16)
        dst := addrFrom4 (field p 16 20)
        proto := protocol p
        payload := payload p } := by
  have long : 20 ≤ p.length := valid.header.trans valid.whole
  have room : 0 < p.length := by omega
  have four : p[0] >>> 4 = 4 := (ipVersion_eq room).symm.trans valid.version
  have ihl : headerLength p = (p[0] &&& 0x0f).toNat * 4 := by
    cases p with
    | nil => simp at room
    | cons b p => rfl
  have hproto : protocol p = p[9] := List.getD_eq_getElem p 0 (by omega)
  have good : ¬ ((p[0] &&& 0x0f).toNat * 4 < 20 ∨ p.length < (p[0] &&& 0x0f).toNat * 4) := by
    have := valid.header
    have := valid.whole
    omega
  rw [Tunnel.parseIPHeader, if_neg (by omega), index_of_lt room, Outcome.ok_bind, if_pos four,
    if_neg (by omega), if_neg good, slice_of_le (by omega) (by omega), slice_of_le (by omega) (by omega),
    index_of_lt (by omega), sliceFrom_of_le (by omega), hproto, payload, ihl]
  rfl

theorem Valid.parseFlowKey {p : List UInt8} (valid : Valid p) (ports : HasPorts (protocol p)) :
    Gives (if (payload p).length < 4 then none else some
      { proto := protocol p
        srcAddr := addrFrom4 (field p 12 16)
        srcPort := uint16 ((payload p).take 2)
        dstAddr := addrFrom4 (field p 16 20)
        dstPort := uint16 (((payload p).take 4).drop 2) }) (parseFlowKey p) := by
  rcases agree p with ⟨⟨e, he⟩, -⟩ | ⟨h, hh, gives⟩
  · rw [valid.parseIPHeader] at he
    cases he
  · rw [valid.parseIPHeader] at hh
    cases hh
    rwa [flowOf, if_pos ports] at gives

theorem uint16_inj {b b' : List UInt8} (h : b.length = 2) (h' : b'.length = 2) (heq : uint16 b = uint16 b') :
    b = b' := by
  have hb := ofBigEndian_lt b
  have hb' := ofBigEndian_lt b'
  rw [h] at hb
  rw [h'] at hb'
  refine ofBigEndian_inj (h.trans h'.symm) ?_
  have := congrArg UInt16.toNat heq
  rw [uint16, uint16, UInt16.toNat_ofNat', UInt16.toNat_ofNat'] at this
  omega

section Fragments

variable {d f g : List UInt8} {off : ℕ} {fs : List (List UInt8)}

theorem Pieces.piece (pieces : Pieces d off fs) (hf : f ∈ fs) : ∃ off, Piece d off f := by
  induction pieces with
  | last piece =>
    obtain rfl := List.mem_singleton.1 hf
    exact ⟨_, piece⟩
  | cons piece _ _ _ _ ih =>
    rcases List.mem_cons.1 hf with rfl | hf
    · exact ⟨_, piece⟩
    · exact ih hf

/-- The flow of datagram `d`, as its fragment `f` is read. -/
def Piece.flow (d f : List UInt8) : FlowKey where
  proto := protocol d
  srcAddr := addrFrom4 (field d 12 16)
  srcPort := uint16 ((payload f).take 2)
  dstAddr := addrFrom4 (field d 16 20)
  dstPort := uint16 (((payload f).take 4).drop 2)

theorem Piece.parseFlowKey (datagram : Datagram d) (piece : Piece d off f) {key : FlowKey} :
    parseFlowKey f = .ok key ↔ 4 ≤ (payload f).length ∧ key = Piece.flow d f := by
  have gives := piece.toValid.parseFlowKey (piece.proto ▸ datagram.ports)
  by_cases short : (payload f).length < 4
  · rw [if_pos short] at gives
    obtain ⟨e, he⟩ := gives
    simp [he, short]
  · rw [if_neg short, piece.proto, piece.src, piece.dst] at gives
    have gives : Tunnel.parseFlowKey f = .ok (Piece.flow d f) := gives
    rw [gives]
    constructor
    · intro h
      exact ⟨by omega, (Outcome.ok.inj h).symm⟩
    · rintro ⟨-, rfl⟩
      rfl

theorem Piece.flow_inj (hf : 4 ≤ (payload f).length) (hg : 4 ≤ (payload g).length) :
    Piece.flow d f = Piece.flow d g ↔ (payload f).take 4 = (payload g).take 4 := by
  constructor
  · intro h
    have src := uint16_inj (by simp; omega) (by simp; omega) (congrArg FlowKey.srcPort h)
    have dst := uint16_inj (by simp; omega) (by simp; omega) (congrArg FlowKey.dstPort h)
    calc (payload f).take 4
        = (payload f).take 2 ++ ((payload f).take 4).drop 2 := by
          conv_lhs => rw [← List.take_append_drop 2 ((payload f).take 4), List.take_take]
          rfl
      _ = (payload g).take 2 ++ ((payload g).take 4).drop 2 := by rw [src, dst]
      _ = (payload g).take 4 := by
          conv_rhs => rw [← List.take_append_drop 2 ((payload g).take 4), List.take_take]
          rfl
  · intro h
    have h2 : (payload f).take 2 = (payload g).take 2 := by
      have := congrArg (List.take 2) h
      rwa [List.take_take, List.take_take] at this
    rw [Piece.flow, Piece.flow, h, h2]

theorem Piece.take_of_first (piece : Piece d 0 f) (long : 4 ≤ (payload f).length) :
    (payload f).take 4 = (payload d).take 4 := by
  rw [piece.data, List.drop_zero, List.take_take, Nat.min_eq_left long]

end Fragments

end IPv4

/-- Those fragments of a datagram that have a flow have the same if and only if each begins with the four bytes the
datagram begins with, its ports. -/
theorem fragments_one_flow {d : List UInt8} (datagram : IPv4.Datagram d) {fs : List (List UInt8)}
    (pieces : IPv4.Pieces d 0 fs) :
    (∀ f ∈ fs, ∀ g ∈ fs, ∀ key key', parseFlowKey f = .ok key → parseFlowKey g = .ok key' → key = key') ↔
      ∀ f ∈ fs, 4 ≤ (IPv4.payload f).length → (IPv4.payload f).take 4 = (IPv4.payload d).take 4 := by
  constructor
  · intro same f hf long
    obtain ⟨off, piece⟩ := pieces.piece hf
    cases pieces with
    | last first =>
      obtain rfl := List.mem_singleton.1 hf
      exact first.take_of_first long
    | @cons _ f₀ fs first _ pos blocks _ =>
      -- the first of several fragments has eight bytes at least
      have long₀ : 4 ≤ (IPv4.payload f₀).length := by omega
      have h := same f hf f₀ (by simp) _ _ ((piece.parseFlowKey datagram).2 ⟨long, rfl⟩)
        ((first.parseFlowKey datagram).2 ⟨long₀, rfl⟩)
      exact ((IPv4.Piece.flow_inj long long₀).1 h).trans (first.take_of_first long₀)
  · intro alike f hf g hg key key' hkey hkey'
    obtain ⟨_, piece⟩ := pieces.piece hf
    obtain ⟨_, piece'⟩ := pieces.piece hg
    obtain ⟨long, rfl⟩ := (piece.parseFlowKey datagram).1 hkey
    obtain ⟨long', rfl⟩ := (piece'.parseFlowKey datagram).1 hkey'
    exact (IPv4.Piece.flow_inj long long').2 ((alike f hf long).trans (alike g hg long').symm)

namespace Sample

def udp (flags : List UInt8) (payload : List UInt8) : List UInt8 :=
  [0x45, 0, 0, .ofNat (20 + payload.length), 0, 7] ++ flags ++ [64, 17, 0, 0, 10, 0, 0, 1, 10, 0, 0, 2] ++ payload

def ports : List UInt8 := [0x30, 0x39, 0, 53, 0, 16, 0, 0]

def inTwo (data : List UInt8) : List (List UInt8) := [udp [0x20, 0] ports, udp [0, 1] data]

end Sample

open Sample

theorem fragments_one_flow_alike : IPv4.Datagram (udp [0, 0] (ports ++ ports)) ∧
    IPv4.Pieces (udp [0, 0] (ports ++ ports)) 0 (inTwo ports) ∧
    ∀ f ∈ inTwo ports, ∀ g ∈ inTwo ports, ∀ key key',
      parseFlowKey f = .ok key → parseFlowKey g = .ok key' → key = key' := by
  have datagram : IPv4.Datagram (udp [0, 0] (ports ++ ports)) := by decide
  have pieces : IPv4.Pieces (udp [0, 0] (ports ++ ports)) 0 (inTwo ports) :=
    .cons (by decide) (by decide) (by decide) (by decide) (.last (by decide) (by decide) (by decide))
  exact ⟨datagram, pieces, (fragments_one_flow datagram pieces).2 (by decide)⟩

/-- A datagram in two fragments, which are taken for packets of two flows. -/
theorem fragments_two_flows : IPv4.Datagram (udp [0, 0] (ports ++ [1, 2, 3, 4, 5, 6, 7, 8])) ∧
    IPv4.Pieces (udp [0, 0] (ports ++ [1, 2, 3, 4, 5, 6, 7, 8])) 0 (inTwo [1, 2, 3, 4, 5, 6, 7, 8]) ∧
    ∃ f ∈ inTwo [1, 2, 3, 4, 5, 6, 7, 8], ∃ g ∈ inTwo [1, 2, 3, 4, 5, 6, 7, 8], ∃ key key',
      parseFlowKey f = .ok key ∧ parseFlowKey g = .ok key' ∧ key ≠ key' := by
  refine ⟨by decide, .cons (by decide) (by decide) (by decide) (by decide)
    (.last (by decide) (by decide) (by decide)), ?_⟩
  refine ⟨_, List.mem_cons_self, _, List.mem_cons_of_mem _ List.mem_cons_self,
    { proto := 17, srcAddr := .v4 0x0a000001, srcPort := 12345, dstAddr := .v4 0x0a000002, dstPort := 53 },
    { proto := 17, srcAddr := .v4 0x0a000001, srcPort := 258, dstAddr := .v4 0x0a000002, dstPort := 772 }, ?_⟩
  decide

end Egressa.Tunnel
