import Egressa.Records
import Egressa.Strconv
import Egressa.Tunnel.SessionBind

/-!
# The client agent

The session a client holds and the device that stamps its epoch (`internal/client/agent.go`):
`Run` opens the device with the session's epoch, and `adopt` moves both to a newer session.  The
epoch in the header is 32 bits wide, and that in the session 64.  Peers, routes, probes, the
decider and the metrics are left out.
-/

namespace Egressa

open Tunnel

/-- What `adopt` and the framing read of the client agent. -/
structure ClientAgent where
  session : Session
  /-- The framing of the WireGuard device; the IPsec data plane has none. -/
  dev : Option SessionBind
  deriving DecidableEq, Repr

namespace ClientAgent

/-- `Run`, until the client is connected to the session `open` answered; it ends if the session's ID is no number. -/
def connect (session : Session) (ipsec : Bool) : Option ClientAgent :=
  match parseUint session.id with
  | none => none
  | some sessionID =>
    if ipsec then some ⟨session, none⟩
    else some ⟨session, some (newSessionBind sessionID session.epoch.toUInt32)⟩

/-- Takes a newer session. -/
def adopt (a : ClientAgent) (sess : Session) : ClientAgent :=
  if sess.epoch ≤ a.session.epoch then a
  else ⟨sess, a.dev.map fun b => b.setEpoch sess.epoch.toUInt32⟩

theorem session_connect {session : Session} {ipsec : Bool} {a : ClientAgent}
    (h : connect session ipsec = some a) : a.session = session := by
  unfold connect at h
  cases hid : parseUint session.id with
  | none => simp [hid] at h
  | some n =>
    simp only [hid] at h
    split_ifs at h
    · exact congrArg ClientAgent.session (Option.some.inj h).symm
    · exact congrArg ClientAgent.session (Option.some.inj h).symm

theorem epoch_le_adopt (a : ClientAgent) (sess : Session) : a.session.epoch ≤ (a.adopt sess).session.epoch := by
  unfold adopt
  split_ifs with h
  · exact UInt64.le_refl _
  · exact UInt64.le_of_lt (UInt64.not_le.1 h)

theorem session_adopt (a : ClientAgent) (sess : Session) :
    (a.adopt sess).session = a.session ∨ (a.adopt sess).session = sess := by
  unfold adopt
  split_ifs
  · exact Or.inl rfl
  · exact Or.inr rfl

end ClientAgent

end Egressa
