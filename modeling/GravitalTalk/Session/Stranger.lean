import GravitalTalk.Session.Reopen

/-!
# Datagrams from strangers

A datagram from an unknown address that is no message of the room, is part of
no admission and verifies under no key should leave no trace but in the
counters. The receive loops, however, note the time of every valid packet before
they know who sent it.
-/
namespace GravitalTalk
namespace Session

open Rendezvous

variable {cfg : Config} (C : Crypto) (env : Env)

/-- `raw` from `sender` is nobody's: not of a peer, not of the room, not of an
admission, and under no peer's key. -/
structure Stranger (raw : Bytes) (sender : SocketAddr) (s : Session cfg) : Prop where
  unknown : sender ∉ s.peers.book.peers
  rendezvous : ∀ msg, Message.decode raw ≠ some (s.roomKey C, msg)
  greeting : ∀ view, PacketView.decode raw = .ok view → s.peekNewPeer view sender = none
  joining : ∀ view, PacketView.decode raw = .ok view →
    view.header.msgType = MessageType.handshakeKeyExchange.code →
    s.pendingJoins.lookup sender = none
  unverified : ∀ view, PacketView.decode raw = .ok view → ∀ a, s.openAs C a view raw = none

/-- Only the counters differ. -/
def CountsOnly (s t : Session cfg) : Prop := ∃ c, t = { s with traffic.counters := c }

namespace CountsOnly

variable {s t u : Session cfg}

theorem pendingJoins (h : CountsOnly s t) : t.pendingJoins = s.pendingJoins := by
  obtain ⟨c, rfl⟩ := h
  rfl

theorem of_eq (h : t = s) : CountsOnly s t := ⟨s.traffic.counters, h⟩

theorem symm (h : CountsOnly s t) : CountsOnly t s := by
  obtain ⟨c, rfl⟩ := h
  exact ⟨s.traffic.counters, rfl⟩

theorem trans (h : CountsOnly s t) (h' : CountsOnly t u) : CountsOnly s u := by
  obtain ⟨c, rfl⟩ := h
  obtain ⟨c', rfl⟩ := h'
  exact ⟨c', rfl⟩

end CountsOnly

/-- A packet that nobody's key opens moves nobody. -/
theorem tryMigrate_unverified {view : PacketView} {raw : Bytes} {s : Session cfg}
    (h : ∀ a, s.openAs C a view raw = none) (sender : SocketAddr) :
    s.tryMigrate C env view raw sender = (false, s) := by
  have hnone : s.owners C view raw = ∅ := by
    apply Finset.eq_empty_of_forall_notMem
    intro a ha
    simp [owners, h a] at ha
  unfold tryMigrate
  split_ifs
  · rfl
  · rw [hnone]
    split
    · rfl
    · rename_i old hold
      exact absurd (env.first_mem hold) (Finset.notMem_empty old)

theorem dispatchPacket_unverified {view : PacketView} {raw : Bytes} {sender : SocketAddr}
    {s : Session cfg} (hbook : sender ∉ s.peers.book.peers)
    (h : ∀ a, s.openAs C a view raw = none) :
    s.dispatchPacket C env view raw sender = (.ok (), s) := by
  have hc : ¬ s.peers.book.contains sender = true := by simpa using hbook
  rw [dispatchPacket, if_neg hc, tryMigrate_unverified C env h]

/-- Rendezvous messages and packets begin differently. -/
theorem decode_of_isRendezvous {raw : Bytes} (h : isRendezvous raw = true) (view : PacketView) :
    PacketView.decode raw ≠ .ok view := by
  have hmagic : raw.take 4 = magic := by
    simp only [isRendezvous, Bool.and_eq_true, beq_iff_eq] at h
    exact h.2
  have hsecond : raw.getD 1 0 = 0x54 := by
    have := congrArg (fun l : Bytes => l.getD 1 0) hmagic
    simpa [magic, List.getElem?_take] using this
  intro hok
  unfold PacketView.decode PacketHeader.decode at hok
  have hbad : raw.getD 1 0 ≠ magicBytes.2 := by rw [hsecond]; decide
  split_ifs at hok with h1 h2 h3
  exact absurd (Or.inr hbad) h3

theorem onRendezvous_foreign {raw : Bytes} {s : Session cfg}
    (h : ∀ msg, Message.decode raw ≠ some (s.roomKey C, msg)) (sender : SocketAddr) :
    s.onRendezvous C env raw sender = s := by
  unfold onRendezvous
  split
  · rfl
  · rename_i key msg hdec
    rw [if_pos]
    rintro rfl
    exact h msg hdec

/-! ## What a stranger changes -/

/-- A packet of a stranger in either loop: the time, and nothing else. -/
theorem recvDatagram_stranger {raw : Bytes} {sender : SocketAddr} {s : Session cfg}
    {view : PacketView} (h : Stranger C raw sender s) (hdec : PacketView.decode raw = .ok view) :
    (s.recvDatagram C env raw sender).2 = (s.recordReceived raw.length).heard env := by
  have hrv : ¬ isRendezvous raw = true := fun hrv => decode_of_isRendezvous hrv view hdec
  have hpeek : ((s.recordReceived raw.length).heard env).peekNewPeer view sender = none :=
    h.greeting view hdec
  have hjoin : ((s.recordReceived raw.length).heard env).finishJoin env view sender =
      (false, (s.recordReceived raw.length).heard env) := by
    unfold finishJoin
    split_ifs with hke
    · rfl
    · rw [show ((s.recordReceived raw.length).heard env).pendingJoins.lookup sender = none from
        h.joining view hdec (not_not.mp hke)]
  have hdis := dispatchPacket_unverified C env (s := (s.recordReceived raw.length).heard env)
    h.unknown (h.unverified view hdec)
  simp only [recvDatagram, hrv, hdec, hpeek, hjoin, hdis, if_false, Bool.false_eq_true]

theorem pollDatagram_stranger {raw : Bytes} {sender : SocketAddr} {s : Session cfg}
    {view : PacketView} (h : Stranger C raw sender s) (hdec : PacketView.decode raw = .ok view) :
    (s.pollDatagram C env raw sender).2 = (s.recordReceived raw.length).heard env := by
  have hpeek : ((s.recordReceived raw.length).heard env).peekNewPeer view sender = none :=
    h.greeting view hdec
  have hdis := dispatchPacket_unverified C env (s := (s.recordReceived raw.length).heard env)
    h.unknown (h.unverified view hdec)
  simp only [pollDatagram, hdec, hpeek, hdis]

theorem countsOnly_heard (s : Session cfg) (n : ℕ) :
    CountsOnly s ((s.recordReceived n).heard env) ↔ s.live.lastRx = env.now := by
  constructor
  · rintro ⟨c, hc⟩
    exact (congrArg (fun t : Session cfg => t.live.lastRx) hc).symm
  · intro h
    refine ⟨s.traffic.counters.recordReceived n, ?_⟩
    unfold heard recordReceived
    rw [← h]

/-- A datagram that is no packet at all only counts, in either loop. -/
theorem countsOnly_of_malformed {raw : Bytes} {sender : SocketAddr} {s : Session cfg}
    (h : Stranger C raw sender s) (hdec : ∀ view, PacketView.decode raw ≠ .ok view) :
    CountsOnly s (s.recvDatagram C env raw sender).2 ∧
      CountsOnly s (s.pollDatagram C env raw sender).2 := by
  obtain ⟨e, he⟩ : ∃ e, PacketView.decode raw = .error e := by
    cases hd : PacketView.decode raw with
    | error e => exact ⟨e, rfl⟩
    | ok view => exact absurd hd (hdec view)
  have hrv : (s.recordReceived raw.length).onRendezvous C env raw sender =
      s.recordReceived raw.length :=
    onRendezvous_foreign C env (s := s.recordReceived raw.length) h.rendezvous sender
  constructor
  · unfold recvDatagram
    dsimp only
    split_ifs
    · rw [hrv]
      exact ⟨_, rfl⟩
    · rw [he]
      exact ⟨_, rfl⟩
  · rw [pollDatagram, he]
    exact ⟨_, rfl⟩

/-- A heartbeat packet that anybody can build. -/
def strangeHeartbeat : PacketHeader := PacketHeader.new MessageType.heartbeat.code 0 0 0

end Session
end GravitalTalk
