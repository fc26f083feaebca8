import GravitalTalk.Core.Crypto
import GravitalTalk.Transport.AddressBook

/-!
# Rendezvous messages

The endpoint side of `rendezvous.rs`: the messages that travel outside the
packet format, their encoding, and the key two endpoints of a room share.
-/
namespace GravitalTalk
namespace Rendezvous

def magic : Bytes := [0x47, 0x54, 0x52, 0x56]
def version : UInt8 := 1
def registerSize : ℕ := 128
def maxPeersPerRoom : ℕ := 4
def maxAdvertised : ℕ := 4
def rvHeaderSize : ℕ := 4 + 1 + 1 + 16

abbrev RoomKey := Vector UInt8 16

def RoomKey.fromToken (C : Crypto) (token : Bytes) : RoomKey :=
  fixed 16 (C.sha256 (Crypto.label "gravital-talk/rendezvous/v1" ++ [0] ++ token)).toList

/-- The session id both ends use on the relay; never zero. -/
def RoomKey.relaySessionId (key : RoomKey) : UInt32 :=
  let id := fromBe32 (key.toList.take 4)
  if id = 0 then 1 else id

inductive Message
  | register
  | peers (you : SocketAddr) (others : List SocketAddr)
  | punch (nonce : Vector UInt8 8)
  | punchAck (nonce : Vector UInt8 8)
  | addrs (addrs : List SocketAddr)
  deriving DecidableEq, Repr

def isRendezvous (datagram : Bytes) : Bool :=
  rvHeaderSize ≤ datagram.length && datagram.take 4 == magic

def putAddr : SocketAddr → Bytes
  | .v4 ip p => 4 :: (ip.toList ++ be16 p)
  | .v6 ip p _ _ => 6 :: (ip.toList ++ be16 p)

/-- One address off the front of `rest`, and what follows it. -/
def takeAddr : Bytes → Option (SocketAddr × Bytes)
  | [] => none
  | family :: tail =>
    if family = 4 then
      if tail.length < 4 + 2 then none
      else some (.v4 (fixed 4 tail) (fromBe16 (slice tail 4 2)), tail.drop 6)
    else if family = 6 then
      if tail.length < 16 + 2 then none
      else some (.v6 (fixed 16 tail) (fromBe16 (slice tail 16 2)) 0 0, tail.drop 18)
    else none

def takeAddrs : ℕ → Bytes → Option (List SocketAddr)
  | 0, _ => some []
  | n + 1, rest => do
    let (a, rest) ← takeAddr rest
    let as ← takeAddrs n rest
    return a :: as

namespace Message

def kind : Message → UInt8
  | register => 1
  | peers .. => 2
  | punch _ => 3
  | punchAck _ => 4
  | addrs _ => 5

def head (key : RoomKey) (msg : Message) : Bytes :=
  magic ++ [version, msg.kind] ++ key.toList

def body : Message → Bytes
  | register => List.replicate (registerSize - rvHeaderSize) 0
  | peers you others =>
    let others := others.take maxPeersPerRoom
    putAddr you ++ UInt8.ofNat others.length :: others.flatMap putAddr
  | punch nonce | punchAck nonce => nonce.toList
  | addrs as =>
    let as := as.take maxAdvertised
    UInt8.ofNat as.length :: as.flatMap putAddr

def encode (key : RoomKey) (msg : Message) : Bytes := msg.head key ++ msg.body

/-- The counted list of addresses that ends `Peers` and `Addrs`. -/
def decodeList (most : ℕ) : Bytes → Option (List SocketAddr)
  | [] => none
  | count :: rest => if most < count.toNat then none else takeAddrs count.toNat rest

def decodeNonce (body : Bytes) : Option (Vector UInt8 8) :=
  if body.length < 8 then none else some (fixed 8 body)

def decode (datagram : Bytes) : Option (RoomKey × Message) :=
  if !isRendezvous datagram || datagram.getD 4 0 != version then none
  else
    let key : RoomKey := fixed 16 (slice datagram 6 16)
    let body := datagram.drop rvHeaderSize
    match datagram.getD 5 0 with
    | 1 => if registerSize ≤ datagram.length then some (key, register) else none
    | 2 => do
      let (you, rest) ← takeAddr body
      let others ← decodeList maxPeersPerRoom rest
      return (key, peers you others)
    | 3 => (decodeNonce body).map fun nonce => (key, punch nonce)
    | 4 => (decodeNonce body).map fun nonce => (key, punchAck nonce)
    | 5 => (decodeList maxAdvertised body).map fun as => (key, addrs as)
    | _ => none

/-- A probe answer comes back out of its encoding. -/
theorem decode_encode_punchAck (key : RoomKey) (nonce : Vector UInt8 8) :
    decode (encode key (punchAck nonce)) = some (key, punchAck nonce) := by
  have hkey : slice (encode key (punchAck nonce)) 6 16 = key.toList := by
    have h6 : 6 = (magic ++ [version, (4 : UInt8)]).length := rfl
    have h16 : 16 = key.toList.length := by simp
    simpa [encode, head, kind, body] using
      slice_middle (magic ++ [version, (4 : UInt8)]) key.toList nonce.toList h6 h16
  have hbody : (encode key (punchAck nonce)).drop rvHeaderSize = nonce.toList := by
    have hhead : (head key (punchAck nonce)).length = rvHeaderSize := by
      simp [head, rvHeaderSize, magic]
    rw [encode, List.drop_append_of_le_length hhead.ge, ← hhead, List.drop_length]
    rfl
  have hnonce : decodeNonce nonce.toList = some nonce := by
    have := fixed_toList_append nonce []
    simp_all [decodeNonce]
  have hfixed : fixed 16 key.toList = key := by simpa using fixed_toList_append key []
  have hrv : isRendezvous (encode key (punchAck nonce)) = true := by
    simp [isRendezvous, encode, head, body, magic, rvHeaderSize]
  have hver : (encode key (punchAck nonce)).getD 4 0 = version := by
    simp [encode, head, magic]
  have hkind : (encode key (punchAck nonce)).getD 5 0 = 4 := by
    simp [encode, head, magic, kind]
  simp only [decode, hrv, hver, hkind, hkey, hbody, hnonce, hfixed]
  rfl

end Message
end Rendezvous
end GravitalTalk
