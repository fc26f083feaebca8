import GravitalTalk.Session.RoomFec

/-!
# Newcomers with the old handshake

What `peek_new_peer` makes of a `ClientHello` that reaches a room. It asks for zeros in the
first four bytes of the payload, which are the first bytes of the public key.
-/
namespace GravitalTalk

namespace ClientHello

theorem decode_encode (m : ClientHello) : decode m.encode = .ok m := by
  have hlen : ¬m.encode.length < size := by simp [encode, size]
  have hfixed (v : Vector UInt8 32) : fixed 32 v.toList = v := by
    simpa using fixed_toList_append v []
  have hfield (before after : Bytes) (x : UInt32) {off : ℕ} (hoff : off = before.length) :
      fromBe32 (slice (before ++ (be32 x ++ after)) off 4) = x := by
    rw [slice_middle before (be32 x) after hoff (by simp), fromBe32_be32]
  let front := m.ephemeralPublicKey.toList ++ m.clientNonce.toList ++
    [m.protocolVersion, m.codecPreferred]
  let middle := front ++ be32 m.sampleRate ++ [m.channels, m.frameDurationMs]
  have hfront : front.length = 66 := by simp [front]
  have hmiddle : middle.length = 72 := by simp [middle, hfront]
  have hkey : slice m.encode 0 32 = m.ephemeralPublicKey.toList := by simp [slice, encode]
  have hnonce : slice m.encode 32 32 = m.clientNonce.toList := by simp [slice, encode]
  have hrate : fromBe32 (slice m.encode 66 4) = m.sampleRate := by
    simpa [encode, front] using hfield front ([m.channels, m.frameDurationMs] ++
      (be32 m.maxBitrate ++ be32 m.capabilityFlags)) m.sampleRate hfront.symm
  have hbitrate : fromBe32 (slice m.encode 72 4) = m.maxBitrate := by
    simpa [encode, middle, front] using
      hfield middle (be32 m.capabilityFlags) m.maxBitrate hmiddle.symm
  have hflags : fromBe32 (slice m.encode 76 4) = m.capabilityFlags := by
    simpa [encode, middle, front] using
      hfield (middle ++ be32 m.maxBitrate) [] m.capabilityFlags (by simp [hmiddle])
  have hversion : m.encode.getD 64 0 = m.protocolVersion := by simp [encode]
  have hcodec : m.encode.getD 65 0 = m.codecPreferred := by simp [encode]
  have hchannels : m.encode.getD 70 0 = m.channels := by simp [encode]
  have hframe : m.encode.getD 71 0 = m.frameDurationMs := by simp [encode]
  rw [decode, if_neg hlen, hkey, hnonce, hrate, hbitrate, hflags, hversion, hcodec, hchannels,
    hframe, hfixed, hfixed]

end ClientHello

namespace Session

variable {cfg : Config} {s : Session cfg} {view : PacketView} {sender : SocketAddr}

theorem fromBe32_eq_zero {b : Bytes} (h : b.length = 4) : fromBe32 b = 0 ↔ b = [0, 0, 0, 0] := by
  constructor
  · intro hzero
    have hback := be32_fromBe32 h
    rw [hzero] at hback
    exact hback.symm
  · rintro rfl
    rfl

/-- A room knows the greeting of a legacy newcomer exactly when its public key begins with four
zeros. -/
theorem peekNewPeer_legacy (hmulti : s.settings.multiPeer = true) (hsid : s.status.sessionId ≠ 0)
    (hnew : sender ∉ s.peers.book.peers) (hello : ClientHello)
    (htype : view.header.msgType = MessageType.handshakeClientHello.code)
    (hpayload : view.payload = hello.encode) :
    s.peekNewPeer view sender = some (.legacy hello) ↔
      s.status.closed = false ∧ hello.ephemeralPublicKey.toList.take 4 = [0, 0, 0, 0] := by
  have hcodes : MessageType.handshakeClientHello.code ≠ MessageType.handshakeNoiseHello1.code := by
    decide
  have hbook : s.peers.book.contains sender = false := by
    rw [Bool.eq_false_iff, ne_eq, AddressBook.contains_iff]
    exact hnew
  have hfront : hello.encode.take 4 = hello.ephemeralPublicKey.toList.take 4 := by
    simp [ClientHello.encode]
  have hlong : ¬hello.encode.length < 4 := by simp [ClientHello.encode]
  have hzero : fromBe32 (hello.encode.take 4) = 0 ↔
      hello.ephemeralPublicKey.toList.take 4 = [0, 0, 0, 0] := by
    rw [hfront, fromBe32_eq_zero (by simp)]
  unfold peekNewPeer
  simp only [htype, hpayload, hmulti, hbook, hsid, hcodes, hlong, ClientHello.decode_encode]
  cases hclosed : s.status.closed with
  | true => simp
  | false =>
    by_cases hkey : hello.ephemeralPublicKey.toList.take 4 = [0, 0, 0, 0]
    · simp [hkey, hzero.mpr hkey]
    · simp [hkey, mt hzero.mp hkey]

/-- For a newcomer's greeting as it comes from the network. -/
theorem newcomer_recognized_iff (s : Session cfg) (hello : ClientHello) (header : PacketHeader)
    (sender : SocketAddr) (hversion : header.version = protocolVersion)
    (htype : header.msgType = MessageType.handshakeClientHello.code)
    (hmulti : s.settings.multiPeer = true) (hsid : s.status.sessionId ≠ 0)
    (hnew : sender ∉ s.peers.book.peers) :
    ∃ view, PacketView.decode (PacketBuilder.bytes header hello.encode) = .ok view ∧
      (s.peekNewPeer view sender = some (.legacy hello) ↔
        s.status.closed = false ∧ hello.ephemeralPublicKey.toList.take 4 = [0, 0, 0, 0]) := by
  have hfits : hello.encode.length ≤ maxPayloadSize := by
    simp [ClientHello.encode, maxPayloadSize, defaultMtu, headerSize]
  exact ⟨⟨header, hello.encode⟩, PacketBuilder.decode_bytes hversion hfits,
    peekNewPeer_legacy hmulti hsid hnew hello htype rfl⟩

end Session

namespace Machine

open RoomExample

/-- A room with one guest. -/
noncomputable def openRoom : Session Config.default := (run Crypto.toy start join).session

/-- A header of the greeting of a newcomer. -/
def greetingHeader : PacketHeader := PacketHeader.new MessageType.handshakeClientHello.code 1 0 0

/-- The room is open to newcomers with either handshake, and does not know one with an ordinary
public key. -/
theorem openRoom_overlooks :
    (openRoom.status.state = .active ∧ openRoom.status.closed = false ∧
        allowLegacy openRoom = true ∧ openRoom.settings.multiPeer = true ∧
        openRoom.status.sessionId ≠ 0 ∧ other ∉ openRoom.peers.book.peers) ∧
      PacketView.decode (PacketBuilder.bytes greetingHeader Pairing.hello.encode) =
        .ok ⟨greetingHeader, Pairing.hello.encode⟩ ∧
      (openRoom.peekNewPeer ⟨greetingHeader, Pairing.hello.encode⟩ other).isNone = true := by
  decide +kernel

/-- A key that begins with four zeros. -/
def luckyHello : ClientHello :=
  { Pairing.hello with
    ephemeralPublicKey := Vector.ofFn fun i : Fin 32 => if i.val < 4 then 0 else 5 }

theorem openRoom_recognizes :
    ∃ view, PacketView.decode (PacketBuilder.bytes greetingHeader luckyHello.encode) = .ok view ∧
      openRoom.peekNewPeer view other = some (.legacy luckyHello) := by
  have hroom : openRoom.settings.multiPeer = true ∧ openRoom.status.sessionId ≠ 0 ∧
      other ∉ openRoom.peers.book.peers ∧ openRoom.status.closed = false := by
    decide +kernel
  obtain ⟨hmulti, hsid, hnew, hopen⟩ := hroom
  obtain ⟨view, hview, hiff⟩ :=
    Session.newcomer_recognized_iff openRoom luckyHello greetingHeader other rfl rfl hmulti hsid hnew
  exact ⟨view, hview, hiff.mpr ⟨hopen, by decide⟩⟩

end Machine
end GravitalTalk
