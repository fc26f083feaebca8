import GravitalTalk.Session.Send

/-!
# Keeping the path to the peers

Changing the address of a peer, recognising one that moved, answering
rendezvous messages, and the maintenance that the receive loop runs on every
turn.
-/
namespace GravitalTalk
namespace Session

open Rendezvous (Message)

variable {cfg : Config} (C : Crypto) (env : Env)

/-- `switch_peer`: everything held for `old` is held for `new` from now on. -/
def switchPeer (old new : SocketAddr) (s : Session cfg) : Session cfg :=
  match s.peers.book.replace old new with
  | none => s
  | some book =>
    { s with
      peers := s.peers.switch book old new
      live.peerSeen := s.live.peerSeen.rename old new
      path := { s.path.addHints [old] with lastAck := env.now }
      history.switched := (old, new) :: s.history.switched }

/-- The payload of a packet under one key, if its tag verifies. -/
def openWith (key : SessionKey) (view : PacketView) (raw : Bytes) (s : Session cfg) :
    Option Bytes :=
  (C.decryptInPlace key (makeNonce view.header.sequence s.status.sessionId)
    (raw.take headerSize) view.payload).toOption

/-- The same under the key that `peer` itself negotiated. -/
def openAs (peer : SocketAddr) (view : PacketView) (raw : Bytes) (s : Session cfg) :
    Option (SessionKey × Bytes) := do
  let pair ← s.peers.peerKeys.lookup peer
  let plain ← s.openWith C pair.2 view raw
  return (pair.2, plain)

def noteOpened (sender : SocketAddr) (key : SessionKey) (view : PacketView) (raw plain : Bytes)
    (s : Session cfg) : Session cfg :=
  { s with history.opened :=
      ⟨sender, s.peers.decKeyFor sender, key, makeNonce view.header.sequence s.status.sessionId,
        raw.take headerSize, view.payload, plain⟩ :: s.history.opened }

/-- Peers under whose keys a packet verifies. -/
def owners (view : PacketView) (raw : Bytes) (s : Session cfg) : Finset SocketAddr :=
  s.peers.peerKeys.keys.filter fun a => (s.openAs C a view raw).isSome

/-- `seq` is new to the window of `old`; a missing window takes anything. -/
def freshFor (old : SocketAddr) (seq : UInt32) (s : Session cfg) : Bool :=
  match s.peers.replayByPeer.lookup old with
  | none => true
  | some w => (w.checkAndMark seq).1

/-- Packets by which a peer can announce its new address. -/
def announces (view : PacketView) : Bool :=
  view.header.flags.contains .encrypted &&
    (match MessageType.fromCode view.header.msgType with
      | .ok .audioFrame | .ok .heartbeat => true
      | _ => false)

/-- `try_migrate`: a packet from an unknown address that one of the peers must
have sent, and that its window has not seen, moves that peer there. -/
def tryMigrate (view : PacketView) (raw : Bytes) (sender : SocketAddr) (s : Session cfg) :
    Bool × Session cfg :=
  if !announces view then (false, s)
  else match env.first (s.owners C view raw) with
    | none => (false, s)
    | some old =>
      match s.openAs C old view raw with
      | none => (false, s)
      | some (key, plain) =>
        let s := s.noteOpened sender key view raw plain
        if s.freshFor old view.header.sequence then (true, s.switchPeer env old sender)
        else (false, s)

/-- A probe was answered from `sender`: talk to the only peer there, if the
current path is down. -/
def probeAnswered (sender : SocketAddr) (s : Session cfg) : Session cfg :=
  match s.peers.book.primary with
  | none => s
  | some old =>
    if old ≠ sender ∧ s.pathIsStale env.now ∧ s.peers.book.len = 1 then
      (s.switchPeer env old sender).sendKeepalive C env
    else s

/-- `on_rendezvous`. -/
def onRendezvous (datagram : Bytes) (sender : SocketAddr) (s : Session cfg) : Session cfg :=
  match Message.decode datagram with
  | none => s
  | some (key, msg) =>
    if key ≠ s.roomKey C then s
    else match msg with
      | .register => s
      | .peers _ others =>
        if some sender = s.rendezvousServer then
          (others.foldl (fun s peer => s.sendRv C env (.punch (env.punchNonce peer)) peer) s)
            |>.addPathHints others
        else s
      | .punch nonce => s.sendRv C env (.punchAck nonce) sender
      | .addrs addrs => if s.peers.book.contains sender then s.addPathHints addrs else s
      | .punchAck nonce =>
        if nonce = s.settings.probeNonce then s.probeAnswered C env sender else s

/-! ## Maintenance -/

def msSince (now mark : ℕ) : ℕ := (now - mark) / 1000

/-- One keepalive a second; the first one starts the wait for an answer. -/
def keepaliveDue (s : Session cfg) : Session cfg :=
  if keepaliveIntervalMs ≤ msSince env.now s.path.lastKeepalive then
    sendKeepalive C env { s with path := { s.path with
      lastKeepalive := env.now
      lastAck := if s.path.lastKeepalive = 0 then env.now else s.path.lastAck } }
  else s

/-- Renew the registration with the rendezvous server. -/
def registerDue (stale : Bool) (s : Session cfg) : Session cfg :=
  match s.rendezvousServer with
  | none => s
  | some server =>
    if (if stale then keepaliveIntervalMs else activeRegisterMs) ≤
        msSince env.now s.path.lastRegister then
      sendRv C env .register server { s with path.lastRegister := env.now }
    else s

/-- Probe one alternative address, and now and then the ports next to it. -/
def probeHint (first : Bool) (hint : SocketAddr) (s : Session cfg) : Session cfg :=
  let nonce := s.settings.probeNonce
  let s := s.sendRv C env (.punch nonce) hint
  if (first || env.now / 1000 % 4000 < punchIntervalMs * 2) && !hint.isLocal then
    s.punchNeighbours C env hint nonce
  else s

/-- Look for other paths while the current one is down. -/
def probeDue (stale : Bool) (s : Session cfg) : Session cfg :=
  if stale && punchIntervalMs * 2 ≤ msSince env.now s.path.lastProbe then
    let first := s.path.lastProbe == 0
    s.path.pathHints.foldl (fun s hint => s.probeHint C env first hint)
      { s with path.lastProbe := env.now }
  else if !stale then { s with path.lastProbe := 0 }
  else s

/-- Peers of a room not heard of for too long. -/
def gonePeers (s : Session cfg) : Finset SocketAddr :=
  s.live.peerSeen.keys.filter fun a =>
    (s.live.peerSeen.lookup a).any fun seen => peerGoneMs ≤ msSince env.now seen

/-- `maintain_room`. -/
def maintainRoom (s : Session cfg) : Session cfg :=
  let gone := s.gonePeers env
  let s := { s with
    peers := s.peers.dropAll gone
    live.peerSeen := Table.retain (fun a _ => a ∉ gone) s.live.peerSeen }
  if msSince env.now s.path.lastRoomProbe < keepaliveIntervalMs then s
  else
    let s := { s with path.lastRoomProbe := env.now }
    let s := match s.rendezvousServer with
      | none => s
      | some server => s.sendRv C env .register server
    let unknown := s.path.pathHints.filter fun hint => !s.peers.book.contains hint
    s.sendRvAll C env (.punch s.settings.probeNonce) unknown

/-- Addresses this end can be reached at. -/
def ownAddresses (s : Session cfg) : List SocketAddr :=
  let own := match env.localAddr with
    | some a => if a.isUnspecified then [] else [a]
    | none => []
  match s.settings.ownPublic with
  | some a => if a ∈ own then own else own ++ [a]
  | none => own

/-- Tell the peers the own addresses while the path works. -/
def advertiseDue (stale : Bool) (s : Session cfg) : Session cfg :=
  if !stale && advertiseIntervalMs ≤ msSince env.now s.path.lastAdvert then
    let s := { s with path.lastAdvert := env.now }
    if s.ownAddresses env = [] then s
    else s.sendRvAll C env (.addrs (s.ownAddresses env)) s.peers.book.all
  else s

/-- `maintain_path`. -/
def maintainPath (s : Session cfg) : Session cfg :=
  let s := s.keepaliveDue C env
  let stale := s.pathIsStale env.now
  let s := s.registerDue C env stale
  let s := s.probeDue C env stale
  let s := if s.settings.multiPeer then s.maintainRoom C env else s
  s.advertiseDue C env stale

end Session
end GravitalTalk
