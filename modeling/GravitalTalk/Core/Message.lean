import GravitalTalk.Core.Header

/-!
# Message types and structured payloads

`message.rs`. The payload of a handshake packet is a fixed sequence of fields,
numbers in big-endian order; `encode` gives the bytes written to a buffer that
is large enough, which is how every caller sizes it.
-/
namespace GravitalTalk

inductive MessageType
  | handshakeClientHello | handshakeServerHello | handshakeSessionConfirm
  | handshakeKeyExchange | handshakeNoiseHello1 | handshakeNoiseHello2
  | audioFrame | audioFragment | audioFec
  | heartbeat | heartbeatAck
  | controlPause | controlResume | controlMetrics | controlBitrate
  | floorRequest | floorGrant | floorDeny | floorRelease | floorTaken
  | authChallenge | authResponse | authAccepted | authRejected
  | extension (code : UInt8)
  | error | close
  deriving DecidableEq, Repr

namespace MessageType

def code : MessageType → UInt8
  | handshakeClientHello => 0x01
  | handshakeServerHello => 0x02
  | handshakeSessionConfirm => 0x03
  | handshakeKeyExchange => 0x04
  | handshakeNoiseHello1 => 0x05
  | handshakeNoiseHello2 => 0x06
  | audioFrame => 0x10
  | audioFragment => 0x11
  | audioFec => 0x12
  | heartbeat => 0x20
  | heartbeatAck => 0x21
  | controlPause => 0x30
  | controlResume => 0x31
  | controlMetrics => 0x32
  | controlBitrate => 0x33
  | floorRequest => 0x40
  | floorGrant => 0x41
  | floorDeny => 0x42
  | floorRelease => 0x43
  | floorTaken => 0x44
  | authChallenge => 0x50
  | authResponse => 0x51
  | authAccepted => 0x52
  | authRejected => 0x53
  | extension b => b
  | error => 0xFE
  | close => 0xFF

/-- The codes with a message type of their own, in the order of the source. -/
def named : List MessageType :=
  [handshakeClientHello, handshakeServerHello, handshakeSessionConfirm, handshakeKeyExchange,
    handshakeNoiseHello1, handshakeNoiseHello2, audioFrame, audioFragment, audioFec,
    heartbeat, heartbeatAck, controlPause, controlResume, controlMetrics, controlBitrate,
    floorRequest, floorGrant, floorDeny, floorRelease, floorTaken,
    authChallenge, authResponse, authAccepted, authRejected, error, close]

/-- Codes `0x45..=0x4F` and `0x54..=0x7F` are left to extensions. -/
def isExtension (c : UInt8) : Bool := (0x45 ≤ c && c ≤ 0x4F) || (0x54 ≤ c && c ≤ 0x7F)

def fromCode (c : UInt8) : Except Error MessageType :=
  match named.find? (fun m => m.code == c) with
  | some m => .ok m
  | none => if isExtension c then .ok (extension c) else .error (.unknownMessageType c)

end MessageType

/-- `ClientHello` (0x01). -/
structure ClientHello where
  ephemeralPublicKey : Vector UInt8 32
  clientNonce : Vector UInt8 32
  protocolVersion : UInt8
  codecPreferred : UInt8
  sampleRate : UInt32
  channels : UInt8
  frameDurationMs : UInt8
  maxBitrate : UInt32
  capabilityFlags : UInt32
  deriving DecidableEq, Repr

namespace ClientHello

def size : ℕ := 80

def encode (m : ClientHello) : Bytes :=
  m.ephemeralPublicKey.toList ++ m.clientNonce.toList ++
    [m.protocolVersion, m.codecPreferred] ++ be32 m.sampleRate ++
    [m.channels, m.frameDurationMs] ++ be32 m.maxBitrate ++ be32 m.capabilityFlags

def decode (buf : Bytes) : Except Error ClientHello :=
  if buf.length < size then .error .malformedPayload
  else .ok
    { ephemeralPublicKey := fixed 32 (slice buf 0 32)
      clientNonce := fixed 32 (slice buf 32 32)
      protocolVersion := buf.getD 64 0
      codecPreferred := buf.getD 65 0
      sampleRate := fromBe32 (slice buf 66 4)
      channels := buf.getD 70 0
      frameDurationMs := buf.getD 71 0
      maxBitrate := fromBe32 (slice buf 72 4)
      capabilityFlags := fromBe32 (slice buf 76 4) }

end ClientHello

/-- `ServerHello` (0x02). -/
structure ServerHello where
  ephemeralPublicKey : Vector UInt8 32
  serverNonce : Vector UInt8 32
  sessionId : UInt32
  protocolVersion : UInt8
  codecAccepted : UInt8
  sampleRate : UInt32
  channels : UInt8
  frameDurationMs : UInt8
  maxBitrate : UInt32
  capabilityFlags : UInt32
  deriving DecidableEq, Repr

namespace ServerHello

def size : ℕ := 84

def encode (m : ServerHello) : Bytes :=
  m.ephemeralPublicKey.toList ++ m.serverNonce.toList ++ be32 m.sessionId ++
    [m.protocolVersion, m.codecAccepted] ++ be32 m.sampleRate ++
    [m.channels, m.frameDurationMs] ++ be32 m.maxBitrate ++ be32 m.capabilityFlags

def decode (buf : Bytes) : Except Error ServerHello :=
  if buf.length < size then .error .malformedPayload
  else .ok
    { ephemeralPublicKey := fixed 32 (slice buf 0 32)
      serverNonce := fixed 32 (slice buf 32 32)
      sessionId := fromBe32 (slice buf 64 4)
      protocolVersion := buf.getD 68 0
      codecAccepted := buf.getD 69 0
      sampleRate := fromBe32 (slice buf 70 4)
      channels := buf.getD 74 0
      frameDurationMs := buf.getD 75 0
      maxBitrate := fromBe32 (slice buf 76 4)
      capabilityFlags := fromBe32 (slice buf 80 4) }

end ServerHello

/-- `KeyExchange` (0x04) and `SessionConfirm` (0x03) share one layout: the
session and an authentication tag. -/
structure TagMsg where
  sessionId : UInt32
  authTag : Vector UInt8 16
  deriving DecidableEq, Repr

namespace TagMsg

def size : ℕ := 20

def encode (m : TagMsg) : Bytes := be32 m.sessionId ++ m.authTag.toList

def decode (buf : Bytes) : Except Error TagMsg :=
  if buf.length < size then .error .malformedPayload
  else .ok ⟨fromBe32 (slice buf 0 4), fixed 16 (slice buf 4 16)⟩

@[simp] theorem length_encode (m : TagMsg) : m.encode.length = size := by
  simp [encode, size]

theorem decode_encode (m : TagMsg) : decode m.encode = .ok m := by
  have hsid : slice m.encode 0 4 = be32 m.sessionId :=
    slice_middle [] (be32 m.sessionId) m.authTag.toList rfl (by simp)
  have htag : slice m.encode 4 16 = m.authTag.toList := by
    have hoff : 4 = (be32 m.sessionId).length := by simp
    have htake : 16 = m.authTag.toList.length := by simp
    simpa [encode] using slice_middle (be32 m.sessionId) m.authTag.toList [] hoff htake
  have hlen : ¬ m.encode.length < size := by simp
  have hfixed : fixed 16 m.authTag.toList = m.authTag := by
    simpa using fixed_toList_append m.authTag []
  rw [decode, if_neg hlen, hsid, htag, fromBe32_be32, hfixed]

end TagMsg

abbrev KeyExchangeMsg := TagMsg
abbrev SessionConfirm := TagMsg

/-- Carried inside the first Noise message. -/
structure NoiseHello1 where
  protocolVersion : UInt8
  codecPreferred : UInt8
  sampleRate : UInt32
  channels : UInt8
  frameDurationMs : UInt8
  maxBitrate : UInt32
  capabilityFlags : UInt32
  clientNonce : Vector UInt8 32
  deriving DecidableEq, Repr

namespace NoiseHello1

def size : ℕ := 48

def encode (m : NoiseHello1) : Bytes :=
  [m.protocolVersion, m.codecPreferred] ++ be32 m.sampleRate ++
    [m.channels, m.frameDurationMs] ++ be32 m.maxBitrate ++ be32 m.capabilityFlags ++
    m.clientNonce.toList

def decode (buf : Bytes) : Except Error NoiseHello1 :=
  if buf.length < size then .error .malformedPayload
  else .ok
    { protocolVersion := buf.getD 0 0
      codecPreferred := buf.getD 1 0
      sampleRate := fromBe32 (slice buf 2 4)
      channels := buf.getD 6 0
      frameDurationMs := buf.getD 7 0
      maxBitrate := fromBe32 (slice buf 8 4)
      capabilityFlags := fromBe32 (slice buf 12 4)
      clientNonce := fixed 32 (slice buf 16 32) }

end NoiseHello1

/-- Carried inside the second Noise message. -/
structure NoiseHello2 where
  sessionId : UInt32
  protocolVersion : UInt8
  codecAccepted : UInt8
  sampleRate : UInt32
  channels : UInt8
  frameDurationMs : UInt8
  maxBitrate : UInt32
  capabilityFlags : UInt32
  serverNonce : Vector UInt8 32
  deriving DecidableEq, Repr

namespace NoiseHello2

def size : ℕ := 52

def encode (m : NoiseHello2) : Bytes :=
  be32 m.sessionId ++ [m.protocolVersion, m.codecAccepted] ++ be32 m.sampleRate ++
    [m.channels, m.frameDurationMs] ++ be32 m.maxBitrate ++ be32 m.capabilityFlags ++
    m.serverNonce.toList

def decode (buf : Bytes) : Except Error NoiseHello2 :=
  if buf.length < size then .error .malformedPayload
  else .ok
    { sessionId := fromBe32 (slice buf 0 4)
      protocolVersion := buf.getD 4 0
      codecAccepted := buf.getD 5 0
      sampleRate := fromBe32 (slice buf 6 4)
      channels := buf.getD 10 0
      frameDurationMs := buf.getD 11 0
      maxBitrate := fromBe32 (slice buf 12 4)
      capabilityFlags := fromBe32 (slice buf 16 4)
      serverNonce := fixed 32 (slice buf 20 32) }

end NoiseHello2

/-- `ControlBitrate` (0x33): the requested bitrate. -/
def ControlBitrateMsg.decode (buf : Bytes) : Except Error UInt32 :=
  if buf.length < 4 then .error .malformedPayload else .ok (fromBe32 (slice buf 0 4))

end GravitalTalk
