import GravitalTalk.Session.Handshake

/-!
# Receiving, closing and reopening

`dispatch_packet` and the two loops around it, `recv_audio` and `poll_once`;
then `close` and `reopen`. A datagram is what the transport's `recv` returned.
-/
namespace GravitalTalk
namespace Session

variable {cfg : Config} (C : Crypto) (env : Env)

/-- `room_sequence`: the local number of a frame of `sender`, if nobody else
has the floor. A new speaker continues where the buffer is. -/
def roomSequence (sender : SocketAddr) (audioSeq : UInt32) (s : Session cfg) :
    Option UInt32 × Session cfg :=
  let takeFloor (offset : UInt32) :=
    (some (audioSeq + offset),
      { s with media.floor := some (sender, env.now + floorHoldMs * 1000, offset) })
  match s.media.floor with
  | some (holder, till, offset) =>
    if holder = sender then takeFloor offset
    else if env.now < till then (none, s)
    else takeFloor (s.media.jitter.nextSeq - audioSeq)
  | none => takeFloor (s.media.jitter.nextSeq - audioSeq)

/-- A frame under its local number reaches the decoder and the buffer. -/
def playFrame (seq : UInt32) (timestamp : UInt64) (payload : Bytes) (s : Session cfg) :
    Session cfg :=
  let frame : Frame := ⟨seq, timestamp, payload⟩
  { s with
    media := { s.media with
      loss := s.media.loss.record seq
      jitterEstimate := s.media.jitterEstimate.record timestamp (UInt64.ofNat env.now)
      fecDec := (s.media.fecDec.pushData seq payload).2
      jitter := (s.media.jitter.push frame).2 }
    history.pushed := ⟨frame, false⟩ :: s.history.pushed }

/-- The rest of the `AudioFrame` branch, on the plaintext. -/
def hearFrame (sender : SocketAddr) (timestamp : UInt64) (plain : Bytes) (s : Session cfg) :
    Session cfg :=
  if plain.length < 4 then s.recordIntegrityError
  else
    let senderSeq := fromBe32 (plain.take 4)
    let payload := plain.drop 4
    if s.settings.multiPeer then
      match s.roomSequence env sender senderSeq with
      | (none, s) => s
      | (some seq, s) => (s.playFrame env seq timestamp payload).forwardAudio C env sender payload
    else s.playFrame env senderSeq timestamp payload

/-- The local number of the first frame of a group `sender` protects. In a room
only the parity of the current speaker counts. -/
def parityBase (sender : SocketAddr) (senderBase : UInt32) (s : Session cfg) : Option UInt32 :=
  if s.settings.multiPeer then
    match s.media.floor with
    | some (holder, _, offset) => if holder = sender then some (senderBase + offset) else none
    | none => none
  else some senderBase

/-- The rest of the `AudioFec` branch, on the plaintext. -/
def hearParity (sender : SocketAddr) (plain : Bytes) (s : Session cfg) : Session cfg :=
  if plain.length < 5 then s
  else match s.parityBase sender (fromBe32 (plain.take 4)) with
    | none => s
    | some base =>
      let r := s.media.fecDec.pushParity ⟨base, plain.getD 4 0, plain.drop 5⟩
      let s := { s with media.fecDec := r.2 }
      match r.1 with
      | none => s
      | some (seq, payload) =>
        let frame : Frame := ⟨seq, 0, payload⟩
        { s with
          media.jitter := (s.media.jitter.push frame).2
          history.pushed := ⟨frame, true⟩ :: s.history.pushed }

def onAudioFrame (view : PacketView) (raw : Bytes) (sender : SocketAddr) (s : Session cfg) :
    Session cfg :=
  if view.header.flags.contains .encrypted then
    match s.peers.decKeyFor sender with
    | none => s.recordIntegrityError
    | some key =>
      match s.openWith C key view raw with
      | none => s.recordIntegrityError
      | some plain =>
        (s.noteOpened sender key view raw plain).hearFrame C env sender view.header.timestamp
          plain
  else s.hearFrame C env sender view.header.timestamp view.payload

def onAudioFec (view : PacketView) (raw : Bytes) (sender : SocketAddr) (s : Session cfg) :
    Session cfg :=
  if view.header.flags.contains .encrypted then
    match s.peers.decKeyFor sender with
    | none => s
    | some key =>
      match s.openWith C key view raw with
      | none => s.recordIntegrityError
      | some plain => (s.noteOpened sender key view raw plain).hearParity sender plain
  else s

/-- The branches of `dispatch_packet` by message type. -/
def handlePacket (view : PacketView) (raw : Bytes) (sender : SocketAddr) (s : Session cfg) :
    Except TransportError Unit × Session cfg :=
  match MessageType.fromCode view.header.msgType with
  | .error _ => (.ok (), s.recordIntegrityError)
  | .ok .audioFrame => (.ok (), s.onAudioFrame C env view raw sender)
  | .ok .audioFec => (.ok (), s.onAudioFec C view raw sender)
  | .ok .heartbeat => s.sendControl env .heartbeatAck s.status.sessionId [] sender
  | .ok .heartbeatAck => (.ok (), { s with path.lastAck := env.now })
  | .ok .controlPause => (.ok (), { s with status.peerPttActive := false })
  | .ok .controlResume => (.ok (), { s with status.peerPttActive := true })
  | .ok .floorRequest =>
    if s.status.pttActive then (.ok (), s)
    else (.ok (), (s.sendControl env .floorGrant s.status.sessionId
      (be32 s.status.sessionId) sender).2)
  | .ok .floorDeny => (.ok (), { s with status.pttActive := false })
  | .ok .floorRelease => (.ok (), { s with status.peerPttActive := false })
  | .ok .controlBitrate =>
    match ControlBitrateMsg.decode view.payload with
    | .ok bitrate => (.ok (), { s with congestion := s.congestion.setBitrate bitrate })
    | .error _ => (.ok (), s)
  | .ok .close =>
    if s.settings.multiPeer then (.ok (), s.dropPeer sender)
    else (.error (.peerClosed "remote close"), s.transition .peerClosed)
  | .ok _ => (.ok (), s)

/-- The replay window of the sender, consulted once there are keys. -/
def antiReplay (view : PacketView) (raw : Bytes) (sender : SocketAddr) (s : Session cfg) :
    Bool × Session cfg :=
  if s.peers.decryptKey.isNone then (true, s)
  else
    let seq := view.header.sequence
    let w := s.peers.windowOf sender
    let r := w.checkAndMark seq
    let s := { s with
      peers := s.peers.mark sender seq
      history.marked :=
        ⟨sender, (s.peers.peerKeys.lookup sender).map Prod.snd, raw, seq, r.1,
          Serial.ahead r.2.highest seq, w.advance seq⟩ :: s.history.marked }
    if r.1 then (true, s) else (false, s.recordReplayDrop)

/-- A packet of a known sender: liveness, replay window, then its branch. -/
def acceptPacket (view : PacketView) (raw : Bytes) (sender : SocketAddr) (s : Session cfg) :
    Except TransportError Unit × Session cfg :=
  match (s.see sender env.now).antiReplay view raw sender with
  | (false, s) => (.ok (), s)
  | (true, s) => s.handlePacket C env view raw sender

/-- `dispatch_packet`. -/
def dispatchPacket (view : PacketView) (raw : Bytes) (sender : SocketAddr) (s : Session cfg) :
    Except TransportError Unit × Session cfg :=
  if s.peers.book.contains sender then s.acceptPacket C env view raw sender
  else match s.tryMigrate C env view raw sender with
    | (false, s) => (.ok (), s)
    | (true, s) => s.acceptPacket C env view raw sender

/-! ## The receive loops -/

/-- How a datagram ends in a receive loop: handled, or the start of a handshake
that goes on reading from the socket. -/
inductive Followup
  | done (result : Except TransportError Unit)
  | promote (first : FirstHandshake)

/-- A valid packet was received. -/
def heard (s : Session cfg) : Session cfg := { s with live.lastRx := env.now }

/-- A datagram in `recv_audio`. -/
def recvDatagram (raw : Bytes) (sender : SocketAddr) (s : Session cfg) : Followup × Session cfg :=
  let s := s.recordReceived raw.length
  if Rendezvous.isRendezvous raw then (.done (.ok ()), s.onRendezvous C env raw sender)
  else match PacketView.decode raw with
    | .error _ => (.done (.ok ()), s.recordIntegrityError)
    | .ok view =>
      let s := s.heard env
      match s.peekNewPeer view sender with
      | some (.noise msg1) => (.done (.ok ()), s.beginJoin C env sender msg1)
      | some first => (.promote first, s)
      | none =>
        match s.finishJoin env view sender with
        | (true, s) => (.done (.ok ()), s)
        | (false, s) =>
          let r := s.dispatchPacket C env view raw sender
          (.done r.1, r.2)

/-- A datagram in `poll_once`. -/
def pollDatagram (raw : Bytes) (sender : SocketAddr) (s : Session cfg) : Followup × Session cfg :=
  let s := s.recordReceived raw.length
  match PacketView.decode raw with
  | .error _ => (.done (.ok ()), s.recordIntegrityError)
  | .ok view =>
    let s := s.heard env
    match s.peekNewPeer view sender with
    | some first => (.promote first, s)
    | none =>
      let r := s.dispatchPacket C env view raw sender
      (.done r.1, r.2)

theorem recvDatagram_of_view {raw : Bytes} {view : PacketView} {s : Session cfg}
    (hrv : ¬ Rendezvous.isRendezvous raw = true) (hview : PacketView.decode raw = .ok view)
    (sender : SocketAddr) :
    s.recvDatagram C env raw sender =
      match s.peekNewPeer view sender with
      | some (.noise msg1) =>
        (.done (.ok ()), ((s.recordReceived raw.length).heard env).beginJoin C env sender msg1)
      | some first => (.promote first, (s.recordReceived raw.length).heard env)
      | none =>
        match ((s.recordReceived raw.length).heard env).finishJoin env view sender with
        | (true, s) => (.done (.ok ()), s)
        | (false, s) => (.done (s.dispatchPacket C env view raw sender).1,
            (s.dispatchPacket C env view raw sender).2) := by
  unfold recvDatagram
  simp only [hrv, hview, Bool.false_eq_true, if_false]
  rfl

theorem pollDatagram_of_view {raw : Bytes} {view : PacketView} {s : Session cfg}
    (hview : PacketView.decode raw = .ok view) (sender : SocketAddr) :
    s.pollDatagram C env raw sender =
      match s.peekNewPeer view sender with
      | some first => (.promote first, (s.recordReceived raw.length).heard env)
      | none =>
        (.done (((s.recordReceived raw.length).heard env).dispatchPacket C env view raw sender).1,
          (((s.recordReceived raw.length).heard env).dispatchPacket C env view raw sender).2) := by
  unfold pollDatagram
  simp only [hview]
  rfl

/-- Heartbeat timeout: nothing was received for too long. -/
def heartbeatExpired (s : Session cfg) : Bool :=
  s.live.lastRx != 0 && heartbeatTimeoutMs * 1000 < env.now - s.live.lastRx

/-- `check_liveness`. -/
def checkLiveness (s : Session cfg) : Except TransportError Unit × Session cfg :=
  if s.heartbeatExpired env then
    (.error (.peerClosed "heartbeat timeout"), s.transition .peerTimeout)
  else
    let rttUs := (s.rtt.currentUs.getD 0).toNat
    (.ok (), { s with congestion := s.congestion.update s.media.loss.lost rttUs })

/-- `poll_once` when nothing arrives in its interval. -/
def pollTimeout (s : Session cfg) : Except TransportError Unit × Session cfg :=
  if s.status.state = .active ∨ s.status.state = .paused then
    (s.sendHeartbeat env).checkLiveness env
  else (.ok (), s)

/-- The head of the loop in `recv_audio`: deliver a frame, or maintain the path
and give up on a missing frame that is overdue. -/
def turn (s : Session cfg) : Option Frame × Session cfg :=
  match s.media.jitter.pop with
  | (some frame, jitter) =>
    (some frame, { s with media := { s.media with jitter := jitter, gapSince := 0 } })
  | (none, jitter) =>
    let s := maintainPath C env { s with media.jitter := jitter }
    if !s.media.jitter.hasPending then (none, { s with media.gapSince := 0 })
    else if s.media.gapSince = 0 then (none, { s with media.gapSince := max env.now 1 })
    else if cfg.jitterBufferMs.toNat * 1000 ≤ env.now - s.media.gapSince then
      (none, { s with media := { s.media with
        jitter := s.media.jitter.skipToAvailable
        gapSince := 0 } })
    else (none, s)

/-! ## Closing and reopening -/

/-- `close`: the result is always `Ok`. -/
def close (s : Session cfg) : Session cfg :=
  let s := { s with
    status.closed := true
    peers := { s.peers with encryptKey := none, decryptKey := none } }
  let s := s.peers.book.all.foldl
    (fun s' peer => (s'.sendControl env .close s.status.sessionId [] peer).2) s
  let s := (s.transition .close).transition .close
  { s with peers := { s.peers with book := s.peers.book.clear, replayByPeer := ∅ } }

/-- The stores of `reopen` before it asks the state machine. -/
def wiped (s : Session cfg) : Session cfg :=
  { s with
    peers := Peers.new
    pendingJoins := ∅
    live := ⟨0, ∅⟩
    status := { s.status with
      sessionId := 0
      negotiatedCodec := 0
      localSsrc := 0
      pttActive := false
      peerPttActive := false }
    traffic := { s.traffic with txSequence := 0, counters := Counters.new }
    media := { s.media with
      jitter := s.media.jitter.reset
      fecDec := FecDecoder.new fecWindow
      loss := LossTracker.new
      jitterEstimate := JitterEstimator.new }
    voice := ⟨0, FecEncoder.new fecWindow⟩
    congestion := s.congestion.reset
    rtt := RttEstimator.new }

/-- `reopen`. -/
def reopen (s : Session cfg) : Except TransportError Unit × Session cfg :=
  if !s.status.closed then
    (.error (.invalidState "session is still open: close() it before reopening"), s)
  else
    let s := s.wiped
    match s.status.state.transition .reconnect with
    | none => (.error (.invalidState "cannot reopen from current state"), s)
    | some state =>
      (.ok (), { s with status := { s.status with state := state, closed := false } })

end Session
end GravitalTalk
