import GravitalTalk.Core.Packet
import GravitalTalk.Core.Message
import GravitalTalk.Core.Lifecycle
import GravitalTalk.Core.Metrics
import GravitalTalk.Lib.Table
import GravitalTalk.Transport.Congestion
import GravitalTalk.Transport.Fec
import GravitalTalk.Transport.JitterBuffer
import GravitalTalk.Transport.Rendezvous
import GravitalTalk.Transport.Replay

/-!
# State of a session

The fields of `Session` in the transport's `session.rs`. They are grouped by
what changes together, so that "everything else stays" is an equality of groups.
The configuration never changes and is a parameter of the type. Times are
microseconds since the session's epoch.

`History` and the last fields of `Traffic` record what a run has done. No
function reads them.
-/
namespace GravitalTalk

open Rendezvous (RoomKey)

/-! ## Constants -/

def noiseFallbackMs : ℕ := 1500
def punchIntervalMs : ℕ := 250
def keepaliveIntervalMs : ℕ := 1000
def pathStaleMs : ℕ := 2500
def punchSpread : ℕ := 192
def punchSpreadEvery : ℕ := 4
def activeRegisterMs : ℕ := 5000
def floorHoldMs : ℕ := 400
def peerGoneMs : ℕ := 20000
def advertiseIntervalMs : ℕ := 5000
def maxPathHints : ℕ := 12
def heartbeatTimeoutMs : ℕ := 10000
def handshakeTimeoutMs : ℕ := 10000

inductive HandshakeMode
  | auto | noise | legacy
  deriving DecidableEq, Repr

inductive SessionRole
  | client | server
  deriving DecidableEq, Repr

inductive TransportError
  | io
  | timeout
  | closed
  | bufferTooSmall (needed available : ℕ)
  | protocol (e : Error)
  | handshake (reason : String)
  | invalidState (reason : String)
  | peerClosed (reason : String)
  | authenticationFailed (reason : String)
  deriving DecidableEq, Repr

structure Config where
  sampleRate : UInt32
  channels : UInt8
  frameDurationMs : UInt8
  maxBitrate : UInt32
  codecPreferred : UInt8
  supportedCodecs : List UInt8
  capabilityFlags : UInt32
  jitterBufferMs : UInt16
  mtu : ℕ
  handshakeMode : HandshakeMode
  deriving DecidableEq, Repr

/-- `Config::default`. -/
def Config.default : Config where
  sampleRate := 48000
  channels := 1
  frameDurationMs := 20
  maxBitrate := 64000
  codecPreferred := 1
  supportedCodecs := [1, 2]
  capabilityFlags := 0
  jitterBufferMs := 40
  mtu := defaultMtu
  handshakeMode := .auto

def jitterSlots (bufferMs : UInt16) (frameMs : UInt8) : ℕ :=
  let frames := max (bufferMs.toNat / max frameMs.toNat 1) 1
  max frames.nextPowerOfTwo 16

def Config.jitterSlots (cfg : Config) : ℕ :=
  GravitalTalk.jitterSlots cfg.jitterBufferMs cfg.frameDurationMs

/-! ## The groups of fields -/

/-- What the application sets. -/
structure Settings where
  presetSessionId : UInt32
  roomToken : Option Bytes
  handshakeMode : HandshakeMode
  rendezvous : Option SocketAddr
  multiPeer : Bool
  relayOnly : Bool
  ownPublic : Option SocketAddr
  probeNonce : Vector UInt8 8

/-- Lifecycle and what the handshake agreed on. -/
structure Status where
  state : SessionState
  closed : Bool
  sessionId : UInt32
  negotiatedCodec : UInt8
  localSsrc : UInt32
  pttActive : Bool
  peerPttActive : Bool

/-- Who the peers are and how to talk to them. -/
structure Peers where
  book : AddressBook
  encryptKey : Option SessionKey
  decryptKey : Option SessionKey
  peerKeys : Table SocketAddr (SessionKey × SessionKey)
  replayByPeer : Table SocketAddr ReplayWindow

/-- A participant that is entering a running room. -/
structure PendingJoin where
  msg1 : Bytes
  msg2 : Bytes
  sessionId : UInt32
  encKey : SessionKey
  decKey : SessionKey
  expectedClientTag : Vector UInt8 16
  confirm : Bytes
  started : ℕ
  deriving DecidableEq, Repr

/-- The way of incoming audio. -/
structure Media (cfg : Config) where
  jitter : JitterBuffer cfg.jitterSlots
  fecDec : FecDecoder fecWindow
  floor : Option (SocketAddr × ℕ × UInt32)
  gapSince : ℕ
  loss : LossTracker
  jitterEstimate : JitterEstimator

/-- The way of outgoing audio. -/
structure Voice where
  audioTxSeq : UInt32
  fecEnc : FecEncoder fecWindow

/-- A call of `encrypt_in_place`: what the cipher was given. -/
structure Seal where
  key : SessionKey
  nonce : Bytes
  aad : Bytes
  plain : Bytes
  /-- How many numbers had been taken by then. -/
  taken : ℕ
  deriving DecidableEq

/-- What sending anything changes. -/
structure Traffic where
  txSequence : UInt32
  lastTx : ℕ
  counters : Counters
  sent : List (SocketAddr × Bytes)
  /-- Numbers taken from `txSequence`, over all connections. -/
  taken : ℕ
  sealed : List Seal
  /-- `audio_seq` of the audio packets that the transport took, and for whom. -/
  framed : List (SocketAddr × UInt32)

structure Path where
  pathHints : List SocketAddr
  lastProbe : ℕ
  lastRegister : ℕ
  lastRoomProbe : ℕ
  lastKeepalive : ℕ
  lastAck : ℕ
  lastAdvert : ℕ
  deriving DecidableEq

/-- When something was last heard, and from whom. -/
structure Live where
  lastRx : ℕ
  peerSeen : Table SocketAddr ℕ

/-- Keys stored for a peer, and what the session held at that moment. -/
structure Install where
  peer : SocketAddr
  enc : SessionKey
  dec : SessionKey
  sessionId : UInt32
  codec : UInt8
  taken : ℕ
  deriving DecidableEq

/-- A payload whose tag verified: who sent it, under which key, and what the
cipher was given. -/
structure Opened where
  sender : SocketAddr
  /-- The key to decrypt what `sender` sends, at that moment. -/
  current : Option SessionKey
  key : SessionKey
  nonce : Bytes
  aad : Bytes
  body : Bytes
  plain : Bytes
  deriving DecidableEq

/-- A datagram that the replay window of its sender was asked about. -/
structure Mark where
  sender : SocketAddr
  key : Option SessionKey
  datagram : Bytes
  sequence : UInt32
  accepted : Bool
  /-- How far `sequence` is behind `highest` after the call. -/
  behind : ℕ
  /-- How far the call moved `highest`. -/
  advance : ℕ
  deriving DecidableEq

/-- A frame handed to the jitter buffer, straight or rebuilt from parity. -/
structure Pushed where
  frame : Frame
  recovered : Bool
  deriving DecidableEq

/-- What a run has done so far, newest first. -/
structure History where
  installed : List Install
  opened : List Opened
  marked : List Mark
  pushed : List Pushed
  switched : List (SocketAddr × SocketAddr)

structure Session (cfg : Config) where
  settings : Settings
  status : Status
  peers : Peers
  pendingJoins : Table SocketAddr PendingJoin
  media : Media cfg
  voice : Voice
  traffic : Traffic
  path : Path
  live : Live
  congestion : CongestionController congestionMinBitrate cfg.maxBitrate
  rtt : RttEstimator
  history : History

/-- What a step reads from outside: the clock, the transport, the random number
generators, and which of several entries a hash table iteration meets first. -/
structure Env where
  now : ℕ
  sendTo : SocketAddr → Bytes → Except TransportError ℕ
  /-- Address of the local network with the bound port, if both are known. -/
  localAddr : Option SocketAddr
  first : Finset SocketAddr → Option SocketAddr
  first_mem : ∀ {S a}, first S = some a → a ∈ S
  first_none : ∀ {S}, first S = none → S = ∅
  nonce32 : Vector UInt8 32
  secret : Vector UInt8 32
  noiseSeed : Vector UInt8 32
  sessionId : UInt32
  punchNonce : SocketAddr → Vector UInt8 8

/-- Every send succeeds and `prefer` is the first entry an iteration meets. -/
noncomputable def Env.basic (now : ℕ) (prefer : SocketAddr) : Env where
  now := now
  sendTo _ bytes := .ok bytes.length
  localAddr := none
  first S :=
    if prefer ∈ S then some prefer else if h : S.Nonempty then some h.choose else none
  first_mem := by
    intro S a h
    split_ifs at h with hp hS
    · cases h
      exact hp
    · cases h
      exact hS.choose_spec
  first_none := by
    intro S h
    split_ifs at h with hp hS
    exact Finset.not_nonempty_iff_eq_empty.mp hS
  nonce32 := Vector.replicate 32 0
  secret := Vector.replicate 32 0
  noiseSeed := Vector.replicate 32 0
  sessionId := 1
  punchNonce _ := Vector.replicate 8 0

namespace Path

def new : Path := ⟨[], 0, 0, 0, 0, 0, 0⟩

/-- The times that drive the maintenance of the path. -/
def timers (p : Path) : List ℕ :=
  [p.lastAck, p.lastKeepalive, p.lastProbe, p.lastRegister, p.lastRoomProbe, p.lastAdvert]

/-- `add_path_hints`: new addresses go to the back, the oldest make room. -/
def addHints (p : Path) (addrs : List SocketAddr) : Path :=
  let hints := addrs.foldl (fun hs a => if a ∈ hs then hs else hs ++ [a]) p.pathHints
  { p with pathHints := hints.drop (hints.length - maxPathHints) }

end Path

namespace Peers

def new : Peers := ⟨AddressBook.new, none, none, ∅, ∅⟩

/-- Key to encrypt towards `peer`. -/
def encKeyFor (p : Peers) (peer : SocketAddr) : Option SessionKey :=
  match p.peerKeys.lookup peer with
  | some pair => some pair.1
  | none => p.encryptKey

/-- Key to decrypt what `peer` sends. -/
def decKeyFor (p : Peers) (peer : SocketAddr) : Option SessionKey :=
  match p.peerKeys.lookup peer with
  | some pair => some pair.2
  | none => p.decryptKey

/-- The first keys of a session also become the session's own. -/
def install (p : Peers) (peer : SocketAddr) (enc dec : SessionKey) : Peers :=
  { p with
    peerKeys := p.peerKeys.insert peer (enc, dec)
    encryptKey := if p.encryptKey.isNone then some enc else p.encryptKey
    decryptKey := if p.encryptKey.isNone then some dec else p.decryptKey }

def insert (p : Peers) (peer : SocketAddr) : Peers := { p with book := p.book.insert peer }

def remove (p : Peers) (peer : SocketAddr) : Peers := { p with book := p.book.remove peer }

def clearBook (p : Peers) : Peers := { p with book := p.book.clear }

def drop (p : Peers) (peer : SocketAddr) : Peers :=
  { p with
    book := p.book.remove peer
    peerKeys := p.peerKeys.erase peer
    replayByPeer := p.replayByPeer.erase peer }

/-- Every peer of `gone` dropped, one after the other. -/
def dropAll (p : Peers) (gone : Finset SocketAddr) : Peers :=
  { p with
    book := p.book.retain (· ∉ gone)
    peerKeys := Table.retain (fun a _ => a ∉ gone) p.peerKeys
    replayByPeer := Table.retain (fun a _ => a ∉ gone) p.replayByPeer }

/-- The replay window of `peer`, a new one if there is none yet. -/
def windowOf (p : Peers) (peer : SocketAddr) : ReplayWindow :=
  (p.replayByPeer.lookup peer).getD ReplayWindow.new

def mark (p : Peers) (peer : SocketAddr) (seq : UInt32) : Peers :=
  { p with replayByPeer := p.replayByPeer.insert peer ((p.windowOf peer).checkAndMark seq).2 }

/-- `switch_peer` on the tables, given the book with the new address. -/
def switch (p : Peers) (book : AddressBook) (old new : SocketAddr) : Peers :=
  { p with
    book := book
    replayByPeer := p.replayByPeer.rename old new
    peerKeys := p.peerKeys.rename old new }

theorem retain_insert {α : Type*} (m : Table SocketAddr α) (a : SocketAddr)
    (gone : Finset SocketAddr) :
    Table.retain (fun x _ => x ∉ Insert.insert a gone) m =
      (Table.retain (fun x _ => x ∉ gone) m).erase a := by
  apply Finmap.ext_lookup
  intro x
  rw [Table.lookup_retain, Table.lookup_erase_eq, Table.lookup_retain]
  split_ifs with hx
  · subst hx
    cases m.lookup x <;> simp
  · simp [hx]

/-- The order in which the peers of a set are dropped does not matter. -/
theorem dropAll_insert (p : Peers) (a : SocketAddr) (gone : Finset SocketAddr) :
    p.dropAll (Insert.insert a gone) = (p.dropAll gone).drop a := by
  have hbook : p.book.retain (· ∉ Insert.insert a gone) = (p.book.retain (· ∉ gone)).remove a := by
    apply AddressBook.ext
    simp only [AddressBook.retain, AddressBook.remove, List.filter_filter]
    apply List.filter_congr
    intro x _
    by_cases hx : x = a <;> simp [hx]
  simp only [dropAll, drop, retain_insert, hbook]

/-- What `close` does to the tables. -/
def close (p : Peers) : Peers :=
  { p with encryptKey := none, decryptKey := none, book := p.book.clear, replayByPeer := ∅ }

end Peers

namespace Media

variable {cfg : Config}

def fresh (cfg : Config) : Media cfg :=
  ⟨JitterBuffer.fresh _, FecDecoder.new fecWindow, none, 0, LossTracker.new, JitterEstimator.new⟩

end Media

namespace Session

variable {cfg : Config}

/-- The values `Session::new` gives to the fields. -/
def initial (cfg : Config) (probeNonce : Vector UInt8 8) : Session cfg where
  settings := ⟨0, none, cfg.handshakeMode, none, false, false, none, probeNonce⟩
  status := ⟨.idle, false, 0, 0, 0, false, false⟩
  peers := Peers.new
  pendingJoins := ∅
  media := Media.fresh cfg
  voice := ⟨0, FecEncoder.new fecWindow⟩
  traffic := ⟨0, 0, Counters.new, [], 0, [], []⟩
  path := Path.new
  live := ⟨0, ∅⟩
  congestion := ⟨cfg.maxBitrate⟩
  rtt := RttEstimator.new
  history := ⟨[], [], [], [], []⟩

/-- `Session::new`; `none` when a constructor inside it panics. -/
def new (cfg : Config) (probeNonce : Vector UInt8 8) : Option (Session cfg) := do
  let jitter ← JitterBuffer.new cfg.jitterSlots
  let congestion ← CongestionController.new cfg.maxBitrate congestionMinBitrate cfg.maxBitrate
  let s := initial cfg probeNonce
  return { s with media.jitter := jitter, congestion := congestion }

/-- The constructors inside `new` accept the configuration. -/
def Constructible (cfg : Config) : Prop :=
  (cfg.jitterSlots.isPowerOfTwo ∧ cfg.jitterSlots ≤ 2048) ∧ congestionMinBitrate ≤ cfg.maxBitrate

instance (cfg : Config) : Decidable (Constructible cfg) := inferInstanceAs (Decidable (_ ∧ _))

theorem new_eq (cfg : Config) (probeNonce : Vector UInt8 8) :
    new cfg probeNonce = if Constructible cfg then some (initial cfg probeNonce) else none := by
  unfold new JitterBuffer.new CongestionController.new
  by_cases hj : cfg.jitterSlots.isPowerOfTwo ∧ cfg.jitterSlots ≤ 2048
  · by_cases hc : congestionMinBitrate ≤ cfg.maxBitrate
    · have hclamp : CongestionController.clamp congestionMinBitrate cfg.maxBitrate cfg.maxBitrate =
          cfg.maxBitrate := by
        unfold CongestionController.clamp
        rw [if_neg (UInt32.not_lt.mpr hc), if_neg (UInt32.lt_irrefl _)]
      rw [if_pos hj, if_pos hc, if_pos ⟨hj, hc⟩, hclamp]
      rfl
    · have hno : ¬ Constructible cfg := fun h => hc h.2
      rw [if_pos hj, if_neg hc, if_neg hno]
      rfl
  · have hno : ¬ Constructible cfg := fun h => hj h.1
    rw [if_neg hj, if_neg hno]
    rfl

theorem eq_initial_of_new {probeNonce : Vector UInt8 8} {s : Session cfg}
    (h : new cfg probeNonce = some s) : s = initial cfg probeNonce := by
  rw [new_eq] at h
  split_ifs at h
  exact (Option.some.inj h).symm

/-! ## Small reads and writes -/

def recordReceived (s : Session cfg) (n : ℕ) : Session cfg :=
  { s with traffic.counters := s.traffic.counters.recordReceived n }

def recordIntegrityError (s : Session cfg) : Session cfg :=
  { s with traffic.counters := s.traffic.counters.recordIntegrityError }

def recordReplayDrop (s : Session cfg) : Session cfg :=
  { s with traffic.counters := s.traffic.counters.recordReplayDrop }

def recordSent (s : Session cfg) (n : ℕ) : Session cfg :=
  { s with traffic.counters := s.traffic.counters.recordSent n }

/-- Something was received from `peer`. -/
def see (s : Session cfg) (peer : SocketAddr) (now : ℕ) : Session cfg :=
  { s with live.peerSeen := s.live.peerSeen.insert peer now }

def transition (s : Session cfg) (e : SessionEvent) : Session cfg :=
  { s with status.state := s.status.state.next e }

def hasRoomToken (s : Session cfg) : Bool := s.settings.roomToken.isSome

def rendezvousServer (s : Session cfg) : Option SocketAddr :=
  if s.hasRoomToken then s.settings.rendezvous else none

def roomKey (C : Crypto) (s : Session cfg) : RoomKey :=
  RoomKey.fromToken C (s.settings.roomToken.getD [])

def roomPsk (C : Crypto) (s : Session cfg) : Option (Vector UInt8 32) :=
  s.settings.roomToken.map C.sha256

def addPathHints (s : Session cfg) (addrs : List SocketAddr) : Session cfg :=
  { s with path := s.path.addHints addrs }

/-- The id of a running session stays; else the preset one, else a random one. -/
def resolvedSessionId (env : Env) (s : Session cfg) : UInt32 :=
  if s.status.sessionId ≠ 0 then s.status.sessionId
  else if s.settings.presetSessionId ≠ 0 then s.settings.presetSessionId
  else env.sessionId

/-- `rx_idle_ms`. -/
def rxIdleMs (s : Session cfg) (now : ℕ) : Option ℕ :=
  if s.live.lastRx = 0 then none else some ((now - s.live.lastRx) / 1000)

def silentFor (now mark : ℕ) : Bool := mark != 0 && pathStaleMs ≤ (now - mark) / 1000

/-- The path has stopped working in one direction or the other. -/
def pathIsStale (s : Session cfg) (now : ℕ) : Bool :=
  silentFor now s.live.lastRx || silentFor now s.path.lastAck

/-- `install_keys`. -/
def installKeys (env : Env) (peer : SocketAddr) (enc dec : SessionKey) (s : Session cfg) :
    Session cfg :=
  { s with
    peers := s.peers.install peer enc dec
    live.peerSeen := s.live.peerSeen.insert peer env.now
    history.installed := ⟨peer, enc, dec, s.status.sessionId, s.status.negotiatedCodec,
      s.traffic.taken⟩ :: s.history.installed }

def dropPeer (peer : SocketAddr) (s : Session cfg) : Session cfg :=
  { s with peers := s.peers.drop peer, live.peerSeen := s.live.peerSeen.erase peer }

end Session
end GravitalTalk
