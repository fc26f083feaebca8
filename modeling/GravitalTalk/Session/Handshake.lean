import GravitalTalk.Session.Path

/-!
# Handshakes

The halves of the legacy and the Noise handshake between two waits on the
socket. Each half runs in one piece; what it needs to remember until the next
datagram is in the value it returns.
-/
namespace GravitalTalk
namespace Session

variable {cfg : Config} (C : Crypto) (env : Env)

/-- The preferred codec if it is supported, else the first supported one. -/
def chooseCodec (cfg : Config) (preferred : UInt8) : Except TransportError UInt8 :=
  if preferred ∈ cfg.supportedCodecs then .ok preferred
  else match cfg.supportedCodecs with
    | codec :: _ => .ok codec
    | [] => .error (.handshake "no supported codecs configured")

/-- `local_ssrc`: the session id mixed with the first bytes of the key. -/
def ssrcOf (sid : UInt32) (enc : SessionKey) : UInt32 := sid ^^^ fromBe32 (enc.toList.take 4)

/-! ## Noise, server side -/

/-- `noise_server_begin`: read the greeting and prepare everything needed to
finish. The session id and the codec are stored on the way. -/
def noiseServerBegin (msg1 : Bytes) (s : Session cfg) :
    Except TransportError PendingJoin × Session cfg :=
  match C.noiseNew (s.roomPsk C) false env.noiseSeed with
  | none => (.error (.handshake "noise responder init failed"), s)
  | some hs =>
    match C.noiseRead hs msg1 with
    | none => (.error (.handshake "noise msg1 invalid"), s)
    | some (payload1, hs) =>
      match NoiseHello1.decode payload1 with
      | .error e => (.error (.protocol e), s)
      | .ok hello1 =>
        if hello1.protocolVersion < protocolVersionMin then
          (.error (.handshake "noise version too old"), s)
        else
          let sid := s.resolvedSessionId env
          let s := { s with status.sessionId := sid }
          match chooseCodec cfg hello1.codecPreferred with
          | .error e => (.error e, s)
          | .ok codec =>
            let s := { s with status.negotiatedCodec := codec }
            let hello2 : NoiseHello2 :=
              { sessionId := sid
                protocolVersion := min hello1.protocolVersion protocolVersionMax
                codecAccepted := codec
                sampleRate := hello1.sampleRate
                channels := hello1.channels
                frameDurationMs := hello1.frameDurationMs
                maxBitrate := min hello1.maxBitrate cfg.maxBitrate
                capabilityFlags := hello1.capabilityFlags &&& cfg.capabilityFlags
                serverNonce := env.nonce32 }
            match C.noiseWrite hs hello2.encode with
            | none => (.error (.handshake "noise write msg2 failed"), s)
            | some (msg2, hs) =>
              match C.noiseHash hs with
              | none => (.error (.handshake "noise handshake incomplete"), s)
              | some hash =>
                let transcript := Crypto.buildTranscript hello1.clientNonce env.nonce32 sid
                let keys := C.deriveSessionKeys hash transcript
                let confirm : SessionConfirm :=
                  ⟨sid, C.deriveAuthTag keys.2 "GS-server-fin-v2" transcript⟩
                (.ok
                  { msg1 := msg1
                    msg2 := msg2
                    sessionId := sid
                    encKey := keys.2
                    decKey := keys.1
                    expectedClientTag := C.deriveAuthTag keys.1 "GS-client-fin-v2" transcript
                    confirm := confirm.encode
                    started := env.now }, s)

/-- `noise_server_finish`: check the answer, confirm it, store the keys. -/
def noiseServerFinish (peer : SocketAddr) (pending : PendingJoin) (ke : KeyExchangeMsg)
    (s : Session cfg) : Except TransportError Unit × Session cfg :=
  if ke.sessionId ≠ pending.sessionId then
    (.error (.handshake "session_id mismatch in KeyExchange"), s)
  else if ke.authTag ≠ pending.expectedClientTag then
    (.error (.authenticationFailed "client auth tag mismatch (noise)"), s)
  else match s.sendControl env .handshakeSessionConfirm pending.sessionId pending.confirm peer with
    | (.error e, s) => (.error e, s)
    | (.ok _, s) => (.ok (), s.installKeys env peer pending.encKey pending.decKey)

/-! ## Legacy, server side -/

/-- What the server remembers while it waits for the client's key exchange. -/
structure LegacyWait where
  sessionId : UInt32
  serverHello : Bytes
  encKey : SessionKey
  decKey : SessionKey
  transcript : Bytes

/-- `handshake_server_after_hello` up to the wait. -/
def legacyServerBegin (peer : SocketAddr) (hello : ClientHello) (s : Session cfg) :
    Except TransportError LegacyWait × Session cfg :=
  if hello.protocolVersion < protocolVersionMin then
    (.error (.handshake "version negotiation failed: client version too old"), s)
  else
    let sid := s.resolvedSessionId env
    let s := { s with status.sessionId := sid }
    match chooseCodec cfg hello.codecPreferred with
    | .error e => (.error e, s)
    | .ok codec =>
      let s := { s with status.negotiatedCodec := codec }
      let serverHello : ServerHello :=
        { ephemeralPublicKey := C.x25519Public env.secret
          serverNonce := env.nonce32
          sessionId := sid
          protocolVersion := min hello.protocolVersion protocolVersionMax
          codecAccepted := codec
          sampleRate := hello.sampleRate
          channels := hello.channels
          frameDurationMs := hello.frameDurationMs
          maxBitrate := min hello.maxBitrate cfg.maxBitrate
          capabilityFlags := hello.capabilityFlags &&& cfg.capabilityFlags }
      match s.sendControl env .handshakeServerHello sid serverHello.encode peer with
      | (.error e, s) => (.error e, s)
      | (.ok _, s) =>
        let transcript := Crypto.buildTranscript hello.clientNonce env.nonce32 sid
        let keys := C.deriveSessionKeys (C.x25519 env.secret hello.ephemeralPublicKey) transcript
        (.ok ⟨sid, serverHello.encode, keys.2, keys.1, transcript⟩, s)

/-- The rest of it, once the key exchange is there. -/
def legacyServerFinish (peer : SocketAddr) (wait : LegacyWait) (ke : KeyExchangeMsg)
    (s : Session cfg) : Except TransportError Unit × Session cfg :=
  if ke.sessionId ≠ wait.sessionId then
    (.error (.handshake "session_id mismatch in KeyExchange"), s)
  else if ke.authTag ≠ C.deriveAuthTag wait.decKey "GS-client-fin-v1" wait.transcript then
    (.error (.authenticationFailed "client auth tag mismatch"), s)
  else
    let confirm : SessionConfirm :=
      ⟨wait.sessionId, C.deriveAuthTag wait.encKey "GS-server-fin-v1" wait.transcript⟩
    match s.sendControl env .handshakeSessionConfirm wait.sessionId confirm.encode peer with
    | (.error e, s) => (.error e, s)
    | (.ok _, s) => (.ok (), s.installKeys env peer wait.encKey wait.decKey)

/-! ## Client side -/

/-- What the client keeps between its key exchange and the confirmation. -/
structure ConfirmWait where
  sessionId : UInt32
  encKey : SessionKey
  decKey : SessionKey
  transcript : Bytes
  codec : UInt8

/-- The secrets behind a `ClientHello` that was sent. -/
structure HelloWait where
  secret : Vector UInt8 32
  clientNonce : Vector UInt8 32
  presetSid : UInt32
  payload : Bytes

/-- Secrets and payload of `handshake_client`. -/
def clientHello (s : Session cfg) : HelloWait :=
  let hello : ClientHello :=
    { ephemeralPublicKey := C.x25519Public env.secret
      clientNonce := env.nonce32
      protocolVersion := protocolVersionMax
      codecPreferred := cfg.codecPreferred
      sampleRate := cfg.sampleRate
      channels := cfg.channels
      frameDurationMs := cfg.frameDurationMs
      maxBitrate := cfg.maxBitrate
      capabilityFlags := cfg.capabilityFlags }
  ⟨env.secret, env.nonce32, s.settings.presetSessionId, hello.encode⟩

/-- Steps 2 to 4 of `handshake_client`, on the `ServerHello`. -/
def clientAnswer (peer : SocketAddr) (wait : HelloWait) (payload : Bytes) (s : Session cfg) :
    Except TransportError ConfirmWait × Session cfg :=
  match ServerHello.decode payload with
  | .error e => (.error (.protocol e), s)
  | .ok hello =>
    if wait.presetSid ≠ 0 ∧ hello.sessionId ≠ wait.presetSid then
      (.error (.handshake "server replied with a different session_id than preset"), s)
    else if hello.protocolVersion < protocolVersionMin ∨
        protocolVersionMax < hello.protocolVersion then
      (.error (.handshake "version negotiation failed: out of range"), s)
    else if hello.codecAccepted ∉ cfg.supportedCodecs then
      (.error (.handshake "server selected unsupported codec"), s)
    else
      let sid := hello.sessionId
      let transcript := Crypto.buildTranscript wait.clientNonce hello.serverNonce sid
      let keys := C.deriveSessionKeys (C.x25519 wait.secret hello.ephemeralPublicKey) transcript
      let ke : KeyExchangeMsg := ⟨sid, C.deriveAuthTag keys.1 "GS-client-fin-v1" transcript⟩
      match s.sendControl env .handshakeKeyExchange sid ke.encode peer with
      | (.error e, s) => (.error e, s)
      | (.ok _, s) => (.ok ⟨sid, keys.1, keys.2, transcript, hello.codecAccepted⟩, s)

/-- The confirmation of the legacy handshake: check the tag, store everything. -/
def clientFinish (peer : SocketAddr) (wait : ConfirmWait) (payload : Bytes) (s : Session cfg) :
    Except TransportError Unit × Session cfg :=
  match TagMsg.decode payload with
  | .error e => (.error (.protocol e), s)
  | .ok confirm =>
    if confirm.sessionId ≠ wait.sessionId then
      (.error (.handshake "session_id mismatch in confirm"), s)
    else if confirm.authTag ≠ C.deriveAuthTag wait.decKey "GS-server-fin-v1" wait.transcript then
      (.error (.authenticationFailed "server auth tag mismatch"), s)
    else
      let s := { s with status := { s.status with
        sessionId := wait.sessionId
        localSsrc := ssrcOf wait.sessionId wait.encKey
        negotiatedCodec := wait.codec } }
      (.ok (), s.installKeys env peer wait.encKey wait.decKey)

/-- The greeting of `handshake_noise_client`. -/
def noiseClientHello (cfg : Config) (clientNonce : Vector UInt8 32) : NoiseHello1 :=
  { protocolVersion := protocolVersionMax
    codecPreferred := cfg.codecPreferred
    sampleRate := cfg.sampleRate
    channels := cfg.channels
    frameDurationMs := cfg.frameDurationMs
    maxBitrate := cfg.maxBitrate
    capabilityFlags := cfg.capabilityFlags
    clientNonce := clientNonce }

/-- The Noise state after the greeting, and the greeting itself. -/
def noiseClientBegin (s : Session cfg) : Except TransportError (C.Noise × Bytes) :=
  match C.noiseNew (s.roomPsk C) true env.noiseSeed with
  | none => .error (.handshake "noise initiator init failed")
  | some hs =>
    match C.noiseWrite hs (noiseClientHello cfg env.nonce32).encode with
    | none => .error (.handshake "noise write msg1 failed")
    | some (msg1, hs) => .ok (hs, msg1)

/-- The part of `handshake_noise_client` between the second message and the
wait for the confirmation. Session id, codec and SSRC are stored here. -/
def noiseClientAnswer (peer : SocketAddr) (hs : C.Noise) (clientNonce : Vector UInt8 32)
    (presetSid : UInt32) (hello2 : NoiseHello2) (s : Session cfg) :
    Except TransportError ConfirmWait × Session cfg :=
  if hello2.protocolVersion < protocolVersionMin then
    (.error (.handshake "noise version too old"), s)
  else if hello2.codecAccepted ∉ cfg.supportedCodecs then
    (.error (.handshake "server selected unsupported codec"), s)
  else if presetSid ≠ 0 ∧ hello2.sessionId ≠ presetSid then
    (.error (.handshake "server replied with a different session_id than preset"), s)
  else match C.noiseHash hs with
    | none => (.error (.handshake "noise handshake incomplete"), s)
    | some hash =>
      let sid := hello2.sessionId
      let transcript := Crypto.buildTranscript clientNonce hello2.serverNonce sid
      let keys := C.deriveSessionKeys hash transcript
      let s := { s with status := { s.status with
        sessionId := sid
        negotiatedCodec := hello2.codecAccepted
        localSsrc := ssrcOf sid keys.1 } }
      let ke : KeyExchangeMsg := ⟨sid, C.deriveAuthTag keys.1 "GS-client-fin-v2" transcript⟩
      match s.sendControl env .handshakeKeyExchange sid ke.encode peer with
      | (.error e, s) => (.error e, s)
      | (.ok _, s) => (.ok ⟨sid, keys.1, keys.2, transcript, hello2.codecAccepted⟩, s)

/-- The confirmation of the Noise handshake. -/
def noiseClientFinish (peer : SocketAddr) (wait : ConfirmWait) (payload : Bytes)
    (s : Session cfg) : Except TransportError Unit × Session cfg :=
  match TagMsg.decode payload with
  | .error e => (.error (.protocol e), s)
  | .ok confirm =>
    if confirm.sessionId ≠ wait.sessionId then
      (.error (.handshake "session_id mismatch in confirm"), s)
    else if confirm.authTag ≠ C.deriveAuthTag wait.decKey "GS-server-fin-v2" wait.transcript then
      (.error (.authenticationFailed "server auth tag mismatch (noise)"), s)
    else (.ok (), s.installKeys env peer wait.encKey wait.decKey)

/-! ## Entering a running room -/

/-- First handshake message a server received. -/
inductive FirstHandshake
  | noise (msg1 : Bytes)
  | legacy (hello : ClientHello)

/-- `peek_new_peer`: is this the greeting of somebody new to the room? -/
def peekNewPeer (view : PacketView) (sender : SocketAddr) (s : Session cfg) :
    Option FirstHandshake :=
  let code := view.header.msgType
  if s.status.closed || !s.settings.multiPeer then none
  else if code ≠ MessageType.handshakeClientHello.code ∧
      code ≠ MessageType.handshakeNoiseHello1.code then none
  else if s.peers.book.contains sender then none
  else if s.status.sessionId = 0 then none
  else if code = MessageType.handshakeNoiseHello1.code then some (.noise view.payload)
  else if view.payload.length < 4 ∨ fromBe32 (view.payload.take 4) ≠ 0 then none
  else match ClientHello.decode view.payload with
    | .ok hello => some (.legacy hello)
    | .error _ => none

/-- `begin_join`: answer the greeting and keep what is needed to finish. -/
def beginJoin (peer : SocketAddr) (msg1 : Bytes) (s : Session cfg) : Session cfg :=
  let s := { s with
    pendingJoins :=
      Table.retain (fun _ p => msSince env.now p.started < handshakeTimeoutMs) s.pendingJoins }
  match (s.pendingJoins.lookup peer).filter (fun p => p.msg1 == msg1) with
  | some p => (s.sendControl env .handshakeNoiseHello2 p.sessionId p.msg2 peer).2
  | none =>
    if maxPeers ≤ s.pendingJoins.keys.card then s
    else match s.noiseServerBegin C env msg1 with
      | (.error _, s) => s
      | (.ok p, s) =>
        sendControl env .handshakeNoiseHello2 p.sessionId p.msg2 peer
          { s with pendingJoins := s.pendingJoins.insert peer p } |>.2

/-- `finish_join`: whether the packet belonged to an admission in progress. -/
def finishJoin (view : PacketView) (sender : SocketAddr) (s : Session cfg) :
    Bool × Session cfg :=
  if view.header.msgType ≠ MessageType.handshakeKeyExchange.code then (false, s)
  else match s.pendingJoins.lookup sender with
    | none => (false, s)
    | some pending =>
      let s := { s with pendingJoins := s.pendingJoins.erase sender }
      match TagMsg.decode view.payload with
      | .error _ => (true, s)
      | .ok ke =>
        match s.noiseServerFinish env sender pending ke with
        | (.error _, s) => (true, s)
        | (.ok _, s) => (true, { s with peers := s.peers.insert sender })

end Session
end GravitalTalk
