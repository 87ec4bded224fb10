import Egressa.Records

/-!
# The peers of a WireGuard device

`peerManager` (`internal/tunnel/peermanager.go`) sets the peers of a wireguard-go device.  A device routes an allowed
IP to the one peer that holds it, so adding a peer moves the allowed IPs it lists to it.
-/

namespace Egressa.Tunnel

/-- A WireGuard key, `[KeySize]byte`. -/
abbrev Key := BitVec 256

/-- The letters of standard base64, in the order of their values. -/
def base64Letters : List Char := "ABCDEFGHIJKLMNOPQRSTUVWXYZabcdefghijklmnopqrstuvwxyz0123456789+/".toList

/-- `DecodeBase64`, but for what its error says: 32 bytes are 43 letters and one padding, line breaks apart, and the
last two bits are not read. -/
def decodeBase64 (s : String) : Except String Key :=
  let t := s.toList.filter fun c => c != '\n' && c != '\r'
  let letters := t.take 43
  if t.length == 44 && letters.all base64Letters.contains && t.drop 43 == ['='] then
    .ok (BitVec.ofNat 256 (letters.foldl (fun n c => 64 * n + base64Letters.idxOf c) 0 / 4))
  else .error "tunnel: decode base64 key"

/-- An allowed IP: one address (`netip.PrefixFrom(a, 32)`), or `0.0.0.0/0`. -/
inductive AllowedIP where
  | host (a : Addr)
  | all
  deriving DecidableEq, Repr, Inhabited

/-- The endpoint of a peer, empty if it has none, and its keepalive interval in seconds, 0 for
none. -/
structure PeerConfig where
  endpoint : String := ""
  keepalive : ℕ := 0
  deriving DecidableEq, Repr, Inhabited

/-- `tunnel.WgPeers`: the peers, and the routing of allowed IPs. -/
structure WgPeers where
  peer : Key → Option PeerConfig
  /-- The peer an allowed IP is routed to. -/
  holder : AllowedIP → Option Key

namespace WgPeers

def empty : WgPeers := ⟨fun _ => none, fun _ => none⟩

/-- `AddPeer`: an empty endpoint and a zero interval leave those of a peer that is there. -/
def addPeer (w : WgPeers) (key : Key) (allowedIPs : List AllowedIP) (endpoint : String)
    (keepalive : ℕ) : WgPeers where
  peer := Function.update w.peer key (let old := (w.peer key).getD {}
     some ⟨if endpoint = "" then old.endpoint else endpoint,
      if keepalive = 0 then old.keepalive else keepalive⟩)
  holder ip := if ip ∈ allowedIPs then some key else w.holder ip

/-- `RemovePeer`: its allowed IPs go nowhere. -/
def removePeer (w : WgPeers) (key : Key) : WgPeers where
  peer := Function.update w.peer key none
  holder ip := if w.holder ip = some key then none else w.holder ip

@[simp] theorem holder_addPeer (w : WgPeers) (key : Key) (ips : List AllowedIP) (endpoint : String)
    (keepalive : ℕ) (ip : AllowedIP) :
    (w.addPeer key ips endpoint keepalive).holder ip = if ip ∈ ips then some key else w.holder ip :=
  rfl

@[simp] theorem holder_removePeer (w : WgPeers) (key : Key) (ip : AllowedIP) :
    (w.removePeer key).holder ip = if w.holder ip = some key then none else w.holder ip := rfl

theorem peer_addPeer_ne_none (w : WgPeers) (key : Key) (ips : List AllowedIP) (endpoint : String)
    (keepalive : ℕ) (k : Key) :
    (w.addPeer key ips endpoint keepalive).peer k ≠ none ↔ k = key ∨ w.peer k ≠ none := by
  by_cases h : k = key
  · simp [addPeer, h]
  · simp [addPeer, h]

theorem peer_removePeer_ne_none (w : WgPeers) (key k : Key) :
    (w.removePeer key).peer k ≠ none ↔ k ≠ key ∧ w.peer k ≠ none := by
  by_cases h : k = key
  · simp [removePeer, h]
  · simp [removePeer, h]

end WgPeers

end Egressa.Tunnel
