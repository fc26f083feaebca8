import Mathlib.Tactic

/-!
# Session lifecycle

The state machine of `session.rs` in the core crate. A transition that is not
listed leaves the state alone and answers with an error.
-/
namespace GravitalTalk

inductive SessionState
  | idle | handshaking | active | paused | closing | closed | error | reconnecting
  deriving DecidableEq, Repr

inductive SessionEvent
  | startConnect | startAccept | handshakeOk | handshakeTimeout | pause | resume
  | close | peerClosed | peerTimeout | fatalError | reconnect | reconnectOk
  deriving DecidableEq, Repr

namespace SessionState

/-- `SessionStateMachine::transition`; `none` is the refused transition. -/
def transition : SessionState → SessionEvent → Option SessionState
  | idle, .startConnect | idle, .startAccept => some handshaking
  | handshaking, .handshakeOk => some active
  | handshaking, .handshakeTimeout | handshaking, .close => some closed
  | handshaking, .fatalError => some error
  | active, .pause => some paused
  | active, .close | active, .peerClosed | active, .peerTimeout => some closing
  | active, .fatalError => some error
  | paused, .resume => some active
  | paused, .close | paused, .peerClosed | paused, .peerTimeout => some closing
  | paused, .fatalError => some error
  | closing, .peerClosed | closing, .close => some closed
  | error, .reconnect | closed, .reconnect => some reconnecting
  | reconnecting, .startConnect | reconnecting, .startAccept
  | reconnecting, .reconnectOk => some handshaking
  | reconnecting, .handshakeTimeout | reconnecting, .fatalError => some error
  | _, _ => none

/-- The state after an event whose refusal the caller ignores. -/
def next (s : SessionState) (e : SessionEvent) : SessionState := (s.transition e).getD s

/-- What a state comes to when the peer goes or falls silent. -/
def Sinks (a b : SessionState) : Prop := b = a ∨ b = closing ∨ b = closed

@[refl] theorem Sinks.refl (a : SessionState) : a.Sinks a := .inl rfl

@[trans] theorem Sinks.trans {a b c : SessionState} (h : a.Sinks b) (h' : b.Sinks c) :
    a.Sinks c := by
  rcases h' with rfl | h'
  · exact h
  · exact .inr h'

theorem sinks_peerClosed (a : SessionState) : a.Sinks (a.next .peerClosed) := by
  cases a <;> simp [Sinks, next, transition]

theorem sinks_peerTimeout (a : SessionState) : a.Sinks (a.next .peerTimeout) := by
  cases a <;> simp [Sinks, next, transition]

/-- Two `Close` events, as `Session::close` applies them, end in a state from
which `Reconnect` is accepted unless the session had not started (again). -/
theorem reconnect_after_close (s : SessionState) :
    ((s.next .close).next .close).transition .reconnect =
      if s = idle ∨ s = reconnecting then none else some reconnecting := by
  cases s <;> rfl

end SessionState
end GravitalTalk
