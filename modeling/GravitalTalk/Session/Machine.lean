import GravitalTalk.Session.Receive

/-!
# The session as a machine

A session runs one operation on its socket at a time. Most run in one piece;
a handshake waits for datagrams, and what it waits for is the `Task`. Calls
that do not read the socket (sending, closing, settings) may come in between.

`step` is one call, or one event of the running task. The loops of the source
look at `closed` before every wait, so a datagram that is already being received
when the session is closed is still handled.
-/
namespace GravitalTalk

/-- Who started a server-side handshake, and so what its end means. -/
inductive Caller
  | handshake | acceptLoop | additional | promote
  deriving DecidableEq, Repr

/-- What reading the socket gave to a waiting handshake. -/
inductive Input
  | datagram (sender : SocketAddr) (raw : Bytes)
  /-- The short timeout of one wait. -/
  | timeout
  | ioError (e : TransportError)
  /-- The deadline of the whole attempt. -/
  | expire

/-- The handshake in progress. -/
inductive Task (C : Crypto)
  | idle
  /-- `wait_first_handshake_packet`. -/
  | waitFirst (caller : Caller) (expect : Option SocketAddr) (allowNoise allowLegacy : Bool)
      (cycle nextRegister : ℕ)
  /-- The loops that wait for `KeyExchange`. -/
  | legacyKe (caller : Caller) (peer : SocketAddr) (wait : Session.LegacyWait)
  | noiseKe (caller : Caller) (peer : SocketAddr) (pending : PendingJoin)
  /-- The client waits for `ServerHello` or for the second Noise message. -/
  | helloSent (peer : SocketAddr) (wait : Session.HelloWait) (attempt : ℕ)
  | noiseSent (peer : SocketAddr) (fallback : Bool) (hs : C.Noise)
      (clientNonce : Vector UInt8 32) (presetSid : UInt32) (msg1 : Bytes) (attempt : ℕ)
  /-- `recv_session_confirm`. -/
  | confirm (peer : SocketAddr) (noise fallback : Bool) (wait : Session.ConfirmWait)

structure Machine (C : Crypto) (cfg : Config) where
  session : Session cfg
  task : Task C

namespace Machine

open Session Rendezvous

variable {cfg : Config} (C : Crypto) (env : Env)

/-- A machine that waits for nothing. -/
def rest (s : Session cfg) : Machine C cfg := ⟨s, .idle⟩

/-! ## Waiting for the first message -/

/-- One hint of the waiting loop: a probe, and its neighbours when it is time. -/
def punchHint (sweep : Bool) (hint : SocketAddr) (s : Session cfg) : Session cfg :=
  let nonce := env.punchNonce hint
  let s := s.sendRv C env (.punch nonce) hint
  if sweep && !hint.isLocal then s.punchNeighbours C env hint nonce else s

/-- What an open wait sends every interval. -/
def announce (cycle : ℕ) (s : Session cfg) : Session cfg :=
  let sweep := cycle % punchSpreadEvery == 0
  let s := match s.rendezvousServer with
    | none => s
    | some server =>
      let s := s.sendRv C env .register server
      if sweep then (s.sendControl env .heartbeat s.settings.presetSessionId [] server).2 else s
  s.path.pathHints.foldl (fun s hint => punchHint C env sweep hint s) s

/-- The head of the waiting loop, when the session is open. -/
def waitHead (caller : Caller) (expect : Option SocketAddr) (allowNoise allowLegacy : Bool)
    (cycle nextRegister : ℕ) (s : Session cfg) : Machine C cfg :=
  if expect.isNone ∧ nextRegister ≤ env.now then
    ⟨announce C env cycle s, .waitFirst caller expect allowNoise allowLegacy (cycle + 1)
      (env.now + punchIntervalMs * 1000)⟩
  else ⟨s, .waitFirst caller expect allowNoise allowLegacy cycle nextRegister⟩

def allowNoise (s : Session cfg) : Bool := s.settings.handshakeMode ≠ .legacy
def allowLegacy (s : Session cfg) : Bool := s.settings.handshakeMode ≠ .noise

/-- Start waiting, with the flags computed from the mode as every caller does. -/
def beginWait (caller : Caller) (expect : Option SocketAddr) (s : Session cfg) : Machine C cfg :=
  waitHead C env caller expect (allowNoise s) (allowLegacy s) 0 env.now s

/-! ## The end of a server-side handshake -/

/-- An attempt of `accept_loop` failed: back to the start, unless closed. -/
def retryAccept (s : Session cfg) : Machine C cfg :=
  let s := ((s.transition .handshakeTimeout).transition .reconnect).transition .startAccept
  let s := { s with peers := s.peers.clearBook }
  if s.status.closed then rest C (s.transition .close)
  else beginWait C env .acceptLoop none s

/-- A server-side handshake with `peer` ended with `result`. -/
def finished (caller : Caller) (peer : Option SocketAddr) (result : Except TransportError Unit)
    (s : Session cfg) : Machine C cfg :=
  match caller, result with
  | .handshake, .ok _ => rest C (s.transition .handshakeOk)
  | .handshake, .error _ => rest C (s.transition .handshakeTimeout)
  | .acceptLoop, .ok _ => rest C (s.transition .handshakeOk)
  | .acceptLoop, .error (.peerClosed _) => rest C (s.transition .close)
  | .acceptLoop, .error _ => retryAccept C env s
  | .additional, _ => rest C s
  | .promote, .ok _ => rest C s
  | .promote, .error _ =>
    match peer with
    | some p => rest C { s with peers := s.peers.remove p }
    | none => rest C s

/-- The head of a loop that only looks at `closed`. -/
def unlessClosed (caller : Caller) (peer : Option SocketAddr) (s : Session cfg) (task : Task C) :
    Machine C cfg :=
  if s.status.closed then
    finished C env caller peer (.error (.peerClosed "session closed")) s
  else ⟨s, task⟩

/-- `handshake_noise_server_after_hello1` up to its wait. -/
def beginNoise (caller : Caller) (peer : SocketAddr) (msg1 : Bytes) (s : Session cfg) :
    Machine C cfg :=
  match s.noiseServerBegin C env msg1 with
  | (.error e, s) => finished C env caller peer (.error e) s
  | (.ok p, s) =>
    match s.sendControl env .handshakeNoiseHello2 p.sessionId p.msg2 peer with
    | (.error e, s) => finished C env caller peer (.error e) s
    | (.ok _, s) => unlessClosed C env caller peer s (.noiseKe caller peer p)

/-- `handshake_server_after_hello` up to its wait. -/
def beginLegacy (caller : Caller) (peer : SocketAddr) (hello : ClientHello) (s : Session cfg) :
    Machine C cfg :=
  match s.legacyServerBegin C env peer hello with
  | (.error e, s) => finished C env caller peer (.error e) s
  | (.ok w, s) => unlessClosed C env caller peer s (.legacyKe caller peer w)

def beginServer (caller : Caller) (peer : SocketAddr) (s : Session cfg) :
    FirstHandshake → Machine C cfg
  | .noise msg1 => beginNoise C env caller peer msg1 s
  | .legacy hello => beginLegacy C env caller peer hello s

/-- The handshake message a waiting server accepts. -/
def firstMessage (allowNoise allowLegacy : Bool) (view : PacketView) : Option FirstHandshake :=
  if allowNoise && view.header.msgType == MessageType.handshakeNoiseHello1.code then
    some (.noise view.payload)
  else if allowLegacy && view.header.msgType == MessageType.handshakeClientHello.code then
    match ClientHello.decode view.payload with
    | .ok hello => some (.legacy hello)
    | .error _ => none
  else none

/-- `handshake_server_any` registers the peer before it goes on; the other
callers have done so already, or do not. -/
def registerPeer (caller : Caller) (peer : SocketAddr) (s : Session cfg) : Session cfg :=
  if caller = .acceptLoop then { s with peers := s.peers.insert peer } else s

/-- A datagram while waiting for the first message: the message with the session
left behind, or the session to wait on with. -/
def hearFirst (expect : Option SocketAddr) (allowNoise allowLegacy : Bool) (sender : SocketAddr)
    (raw : Bytes) (s : Session cfg) : Option FirstHandshake × Session cfg :=
  if isRendezvous raw then
    (none, if expect.isNone then s.onRendezvous C env raw sender else s)
  else if expect.isSome ∧ expect ≠ some sender then (none, s)
  else match PacketView.decode raw with
    | .error _ => (none, s)
    | .ok view => (firstMessage allowNoise allowLegacy view, s)

/-! ## The client -/

/-- A client-side handshake ended. -/
def clientEnded (result : Except TransportError Unit) (s : Session cfg) : Machine C cfg :=
  match result with
  | .ok _ => rest C (s.transition .handshakeOk)
  | .error _ => rest C (s.transition .handshakeTimeout)

/-- Send `ClientHello` (again) and wait. -/
def sendHello (peer : SocketAddr) (wait : HelloWait) (attempt : ℕ) (s : Session cfg) :
    Machine C cfg :=
  match s.sendControl env .handshakeClientHello wait.presetSid wait.payload peer with
  | (.error e, s) => clientEnded C (.error e) s
  | (.ok _, s) => ⟨s, .helloSent peer wait attempt⟩

def startLegacyClient (peer : SocketAddr) (s : Session cfg) : Machine C cfg :=
  sendHello C env peer (s.clientHello C env) 0 s

/-- The Noise attempt of a client failed: the legacy handshake follows when the
mode allows it and no answer came. -/
def noiseEnded (peer : SocketAddr) (fallback : Bool) (e : TransportError) (s : Session cfg) :
    Machine C cfg :=
  if fallback ∧ e = .timeout then startLegacyClient C env peer s
  else clientEnded C (.error e) s

/-- The head of the loop in `handshake_noise_client`. -/
def sendNoise (peer : SocketAddr) (fallback : Bool) (hs : C.Noise)
    (clientNonce : Vector UInt8 32) (presetSid : UInt32) (msg1 : Bytes) (attempt : ℕ)
    (s : Session cfg) : Machine C cfg :=
  if s.status.closed then clientEnded C (.error (.peerClosed "session closed")) s
  else if 8 < attempt then noiseEnded C env peer fallback .timeout s
  else match s.sendControl env .handshakeNoiseHello1 presetSid msg1 peer with
    | (.error e, s) => noiseEnded C env peer fallback e s
    | (.ok _, s) => ⟨s, .noiseSent peer fallback hs clientNonce presetSid msg1 attempt⟩

def startNoiseClient (peer : SocketAddr) (fallback : Bool) (s : Session cfg) : Machine C cfg :=
  match s.noiseClientBegin C env with
  | .error e => noiseEnded C env peer fallback e s
  | .ok (hs, msg1) =>
    sendNoise C env peer fallback hs env.nonce32 s.settings.presetSessionId msg1 0 s

/-- `run_client_handshake`: with a room token there is no way back to legacy. -/
def startClient (peer : SocketAddr) (s : Session cfg) : Machine C cfg :=
  match s.settings.handshakeMode with
  | .legacy => startLegacyClient C env peer s
  | .noise => startNoiseClient C env peer false s
  | .auto => startNoiseClient C env peer (!s.hasRoomToken) s

/-- The packet is a reply of type `msg` from `peer`. -/
def isReply (peer : SocketAddr) (msg : MessageType) (sender : SocketAddr) (raw : Bytes) :
    Option PacketView :=
  if sender ≠ peer then none
  else match PacketView.decode raw with
    | .ok view => if view.header.msgType = msg.code then some view else none
    | .error _ => none

/-! ## Events of a waiting task -/

def onWaitFirst (caller : Caller) (expect : Option SocketAddr) (noise legacy : Bool)
    (cycle nextRegister : ℕ) (input : Input) (s : Session cfg) : Machine C cfg :=
  let again (s : Session cfg) :=
    if s.status.closed then
      finished C env caller none (.error (.peerClosed "session closed")) s
    else waitHead C env caller expect noise legacy cycle nextRegister s
  match input with
  | .datagram sender raw =>
    match hearFirst C env expect noise legacy sender raw s with
    | (none, s) => again s
    | (some first, s) => beginServer C env caller sender (registerPeer caller sender s) first
  | .timeout => again s
  | .ioError e => finished C env caller none (.error e) s
  | .expire =>
    if caller = .handshake ∨ caller = .acceptLoop then
      finished C env caller none (.error .timeout) s
    else ⟨s, .waitFirst caller expect noise legacy cycle nextRegister⟩

/-- A `KeyExchange` wait of the server; `resend` is the message whose loss makes
the client repeat its greeting `greeting`. -/
def onKeyExchange (caller : Caller) (peer : SocketAddr) (greeting : MessageType)
    (resend : Session cfg → Except TransportError Unit × Session cfg)
    (finish : KeyExchangeMsg → Session cfg → Except TransportError Unit × Session cfg)
    (task : Task C) (input : Input) (s : Session cfg) : Machine C cfg :=
  match input with
  | .datagram sender raw =>
    match isReply peer greeting sender raw with
    | some _ =>
      match resend s with
      | (.error e, s) => finished C env caller peer (.error e) s
      | (.ok _, s) => unlessClosed C env caller peer s task
    | none =>
      match isReply peer .handshakeKeyExchange sender raw with
      | none => unlessClosed C env caller peer s task
      | some view =>
        match TagMsg.decode view.payload with
        | .error e => finished C env caller peer (.error (.protocol e)) s
        | .ok ke =>
          let r := finish ke s
          finished C env caller peer r.1 r.2
  | .timeout => unlessClosed C env caller peer s task
  | .ioError e => finished C env caller peer (.error e) s
  | .expire =>
    if caller = .handshake ∨ caller = .acceptLoop then
      finished C env caller peer (.error .timeout) s
    else ⟨s, task⟩

/-- The client waits for `ServerHello`. -/
def onHelloSent (peer : SocketAddr) (wait : HelloWait) (attempt : ℕ) (input : Input)
    (s : Session cfg) : Machine C cfg :=
  match input with
  | .datagram sender raw =>
    match isReply peer .handshakeServerHello sender raw with
    | none => ⟨s, .helloSent peer wait attempt⟩
    | some view =>
      match s.clientAnswer C env peer wait view.payload with
      | (.error e, s) => clientEnded C (.error e) s
      | (.ok w, s) => ⟨s, .confirm peer false false w⟩
  | .timeout =>
    if 6 < attempt + 1 then clientEnded C (.error (.handshake "client retries exhausted")) s
    else sendHello C env peer wait (attempt + 1) s
  | .ioError e => clientEnded C (.error e) s
  | .expire => clientEnded C (.error .timeout) s

/-- The client waits for the second Noise message. -/
def onNoiseSent (peer : SocketAddr) (fallback : Bool) (hs : C.Noise)
    (clientNonce : Vector UInt8 32) (presetSid : UInt32) (msg1 : Bytes) (attempt : ℕ)
    (input : Input) (s : Session cfg) : Machine C cfg :=
  match input with
  | .datagram sender raw =>
    match isReply peer .handshakeNoiseHello2 sender raw with
    | none => ⟨s, .noiseSent peer fallback hs clientNonce presetSid msg1 attempt⟩
    | some view =>
      match C.noiseRead hs view.payload with
      | none => noiseEnded C env peer fallback (.handshake "noise msg2 invalid") s
      | some (payload, hs) =>
        match NoiseHello2.decode payload with
        | .error _ =>
          sendNoise C env peer fallback hs clientNonce presetSid msg1 (attempt + 1) s
        | .ok hello2 =>
          match s.noiseClientAnswer C env peer hs clientNonce presetSid hello2 with
          | (.error e, s) => noiseEnded C env peer fallback e s
          | (.ok w, s) => ⟨s, .confirm peer true fallback w⟩
  | .timeout => sendNoise C env peer fallback hs clientNonce presetSid msg1 (attempt + 1) s
  | .ioError e => noiseEnded C env peer fallback e s
  | .expire => noiseEnded C env peer fallback .timeout s

/-- The client waits for `SessionConfirm`. -/
def onConfirm (peer : SocketAddr) (noise fallback : Bool) (wait : ConfirmWait) (input : Input)
    (s : Session cfg) : Machine C cfg :=
  let failed (e : TransportError) (s : Session cfg) :=
    if noise then noiseEnded C env peer fallback e s else clientEnded C (.error e) s
  match input with
  | .datagram sender raw =>
    match isReply peer .handshakeSessionConfirm sender raw with
    | none => ⟨s, .confirm peer noise fallback wait⟩
    | some view =>
      let r := if noise then s.noiseClientFinish C env peer wait view.payload
        else s.clientFinish C env peer wait view.payload
      match r with
      | (.error e, s) => failed e s
      | (.ok _, s) => clientEnded C (.ok ()) s
  | .timeout => ⟨s, .confirm peer noise fallback wait⟩
  | .ioError e => failed e s
  | .expire => failed .timeout s

/-- One event of the task. -/
def onInput (input : Input) (m : Machine C cfg) : Machine C cfg :=
  match m.task with
  | .idle => m
  | .waitFirst caller expect noise legacy cycle next =>
    onWaitFirst C env caller expect noise legacy cycle next input m.session
  | .legacyKe caller peer wait =>
    onKeyExchange C env caller peer .handshakeClientHello
      (fun s => s.sendControl env .handshakeServerHello wait.sessionId wait.serverHello peer)
      (fun ke s => s.legacyServerFinish C env peer wait ke)
      (.legacyKe caller peer wait) input m.session
  | .noiseKe caller peer pending =>
    onKeyExchange C env caller peer .handshakeNoiseHello1
      (fun s => s.sendControl env .handshakeNoiseHello2 pending.sessionId pending.msg2 peer)
      (fun ke s => s.noiseServerFinish env peer pending ke)
      (.noiseKe caller peer pending) input m.session
  | .helloSent peer wait attempt => onHelloSent C env peer wait attempt input m.session
  | .noiseSent peer fallback hs clientNonce presetSid msg1 attempt =>
    onNoiseSent C env peer fallback hs clientNonce presetSid msg1 attempt input m.session
  | .confirm peer noise fallback wait =>
    onConfirm C env peer noise fallback wait input m.session

/-! ## Calls -/

/-- `handshake`: the book and the state machine first, then the role's part. -/
def handshake (role : SessionRole) (peer : SocketAddr) (s : Session cfg) : Machine C cfg :=
  let s := { s with peers := s.peers.insert peer }
  let event := match role with
    | .client => SessionEvent.startConnect
    | .server => .startAccept
  match s.status.state.transition event with
  | none => rest C s
  | some state =>
    let s := { s with status.state := state }
    match role with
    | .client => startClient C env peer s
    | .server =>
      let r := if s.settings.presetSessionId ≠ 0 then
          s.sendControl env .heartbeat s.settings.presetSessionId [] peer
        else (.ok (), s)
      match r with
      | (.error e, s) => finished C env .handshake peer (.error e) s
      | (.ok _, s) =>
        if s.status.closed then
          finished C env .handshake peer (.error (.peerClosed "session closed")) s
        else beginWait C env .handshake (some peer) s

/-- `arm_relay`: both ends use the session id of the room key. -/
def armRelay (s : Session cfg) : Session cfg :=
  match s.rendezvousServer with
  | none => s
  | some _ => { s with settings.presetSessionId := (s.roomKey C).relaySessionId }

/-- `handshake_open`. -/
def handshakeOpen (s : Session cfg) : Machine C cfg :=
  let s := armRelay C s
  match s.status.state.transition .startAccept with
  | none => rest C s
  | some state =>
    let s := { s with status.state := state }
    if s.status.closed then rest C (s.transition .close)
    else beginWait C env .acceptLoop none s

/-- `accept_additional_peer`. -/
def acceptAdditionalPeer (s : Session cfg) : Machine C cfg :=
  if s.status.closed ∨ s.status.state ≠ .active then rest C s
  else beginWait C env .additional none s

/-- `promote_peer` goes on from a greeting found in a receive loop. -/
def promotePeer (peer : SocketAddr) (first : FirstHandshake) (s : Session cfg) : Machine C cfg :=
  beginServer C env .promote peer { s with peers := s.peers.insert peer } first

def afterDatagram (sender : SocketAddr) (r : Followup × Session cfg) : Machine C cfg :=
  match r.1 with
  | .done _ => rest C r.2
  | .promote first => promotePeer C env sender first r.2

/-- Calls on a session, and events of its task. -/
inductive Action
  | handshake (role : SessionRole) (peer : SocketAddr)
  | handshakeOpen
  | acceptAdditionalPeer
  | input (i : Input)
  /-- The running operation is dropped by its caller. -/
  | cancel
  | turn
  | recv (sender : SocketAddr) (raw : Bytes)
  | poll (sender : SocketAddr) (raw : Bytes)
  | pollTimeout
  | sendAudio (payload : Bytes)
  | pttPress
  | pttRelease
  | close
  | reopen
  | setPresetSessionId (id : UInt32)
  | setRoomToken (token : Option Bytes)
  | setHandshakeMode (mode : HandshakeMode)
  | setRendezvous (server : Option SocketAddr)
  | setMultiPeer (enabled : Bool)
  | setRelayOnly (enabled : Bool)
  | setOwnPublic (addr : SocketAddr)
  | addPathHints (addrs : List SocketAddr)

/-- Calls that read the socket wait until no task does. -/
def whenIdle (m : Machine C cfg) (f : Session cfg → Machine C cfg) : Machine C cfg :=
  match m.task with
  | .idle => f m.session
  | _ => m

/-- A call that leaves the task alone. -/
def onSession (m : Machine C cfg) (f : Session cfg → Session cfg) : Machine C cfg :=
  { m with session := f m.session }

def step (m : Machine C cfg) : Action → Machine C cfg
  | .handshake role peer => whenIdle C m (handshake C env role peer)
  | .handshakeOpen => whenIdle C m (handshakeOpen C env)
  | .acceptAdditionalPeer => whenIdle C m (acceptAdditionalPeer C env)
  | .input i => onInput C env i m
  | .cancel => rest C m.session
  | .turn => whenIdle C m fun s => rest C (s.turn C env).2
  | .recv sender raw =>
    whenIdle C m fun s => afterDatagram C env sender (s.recvDatagram C env raw sender)
  | .poll sender raw =>
    whenIdle C m fun s => afterDatagram C env sender (s.pollDatagram C env raw sender)
  | .pollTimeout => whenIdle C m fun s => rest C (s.pollTimeout env).2
  | .sendAudio payload => onSession C m fun s => (s.sendAudio C env payload).2
  | .pttPress => onSession C m fun s => (s.pttPress env).2
  | .pttRelease => onSession C m fun s => (s.pttRelease env).2
  | .close => onSession C m (Session.close env)
  | .reopen => onSession C m fun s => s.reopen.2
  | .setPresetSessionId id => onSession C m fun s => { s with settings.presetSessionId := id }
  | .setRoomToken token =>
    onSession C m fun s => { s with settings.roomToken := token.filter (· ≠ []) }
  | .setHandshakeMode mode => onSession C m fun s => { s with settings.handshakeMode := mode }
  | .setRendezvous server => onSession C m fun s => { s with settings.rendezvous := server }
  | .setMultiPeer enabled => onSession C m fun s => { s with settings.multiPeer := enabled }
  | .setRelayOnly enabled => onSession C m fun s => { s with settings.relayOnly := enabled }
  | .setOwnPublic addr => onSession C m fun s => { s with settings.ownPublic := some addr }
  | .addPathHints addrs => onSession C m fun s => s.addPathHints addrs

/-- A run: what each step reads from outside, and the step. -/
def run (m : Machine C cfg) (steps : List (Env × Action)) : Machine C cfg :=
  steps.foldl (fun m a => step C a.1 m a.2) m

/-! ## A pairing for examples -/

namespace Pairing

def guest : SocketAddr := .v4 (Vector.replicate 4 9) 9

/-- A moment, in seconds since the epoch. -/
noncomputable def at' (seconds : ℕ) : Env := Env.basic (seconds * 1000000) guest

/-- The guest's part of a legacy handshake with a host of session `1`. -/
def hello : ClientHello where
  ephemeralPublicKey := Vector.replicate 32 5
  clientNonce := Vector.replicate 32 1
  protocolVersion := protocolVersionMax
  codecPreferred := 1
  sampleRate := 48000
  channels := 1
  frameDurationMs := 20
  maxBitrate := 64000
  capabilityFlags := 0

def transcript : Bytes :=
  Crypto.buildTranscript hello.clientNonce (Vector.replicate 32 0) 1

/-- What the guest encrypts and decrypts with. -/
def keys : SessionKey × SessionKey :=
  Crypto.toy.deriveSessionKeys
    (Crypto.toy.x25519 (Vector.replicate 32 0) hello.ephemeralPublicKey) transcript

def keyExchange : KeyExchangeMsg :=
  ⟨1, Crypto.toy.deriveAuthTag keys.1 "GS-client-fin-v1" transcript⟩

def helloDatagram : Bytes :=
  PacketBuilder.bytes (PacketHeader.new MessageType.handshakeClientHello.code 0 0 0) hello.encode

def keyExchangeDatagram : Bytes :=
  PacketBuilder.bytes (PacketHeader.new MessageType.handshakeKeyExchange.code 1 1 0)
    keyExchange.encode

/-- The host takes the guest in. -/
noncomputable def steps : List (Env × Action) :=
  [(at' 1, .handshake .server guest), (at' 1, .input (.datagram guest helloDatagram)),
    (at' 1, .input (.datagram guest keyExchangeDatagram))]

/-- What a guest encrypts and decrypts with after a Noise handshake under the
room's key. -/
def noiseKeys (psk : Vector UInt8 32) : SessionKey × SessionKey :=
  Crypto.toy.deriveSessionKeys psk transcript

def noiseHelloDatagram (psk : Vector UInt8 32) : Bytes :=
  PacketBuilder.bytes (PacketHeader.new MessageType.handshakeNoiseHello1.code 0 0 0)
    (psk.toList ++ (noiseClientHello Config.default hello.clientNonce).encode)

def noiseKeyExchangeDatagram (psk : Vector UInt8 32) : Bytes :=
  PacketBuilder.bytes (PacketHeader.new MessageType.handshakeKeyExchange.code 1 1 0)
    (TagMsg.encode
      ⟨1, Crypto.toy.deriveAuthTag (noiseKeys psk).1 "GS-client-fin-v2" transcript⟩)

/-- A packet encrypted under `key`. -/
def sealedWith (key : SessionKey) (msg : MessageType) (seq : UInt32) (plain : Bytes) : Bytes :=
  let header : PacketHeader := ⟨protocolVersion, Flags.encrypted, msg.code, 1, seq, 0⟩
  match Crypto.toy.encryptInPlace key (makeNonce seq 1) header.encode plain with
  | .ok body => PacketBuilder.bytes header body
  | .error _ => []

/-- An encrypted packet of the guest. -/
def sealed : MessageType → UInt32 → Bytes → Bytes := sealedWith keys.1

end Pairing

end Machine
end GravitalTalk
