import GravitalTalk.Core.Header
import GravitalTalk.Core.Checksum

/-!
# Whole packets

`packet.rs`: header, payload, then payload length and checksum at the tail.
`encode` writes into a buffer of a given capacity and answers what it wrote;
`decode` accepts exactly one packet filling the whole datagram.
-/
namespace GravitalTalk

structure PacketView where
  header : PacketHeader
  payload : Bytes
  deriving DecidableEq, Repr

def computeChecksum (header payload : Bytes) (payloadLen : UInt16) : UInt16 :=
  crcStep (crcStep (crcStep crcInit header) payload) (be16 payloadLen)

/-- `PacketView::decode`, with the checks in the order of the source. -/
def PacketView.decode (buf : Bytes) : Except Error PacketView :=
  if buf.length < headerSize + 4 then .error .tooShort
  else match PacketHeader.decode buf with
    | .error e => .error e
    | .ok header =>
      let payloadLen := fromBe16 (slice buf (buf.length - 4) 2)
      if headerSize + payloadLen.toNat + 4 ≠ buf.length then .error .lengthMismatch
      else if maxPayloadSize < payloadLen.toNat then .error .payloadTooLarge
      else
        let payload := slice buf headerSize payloadLen.toNat
        let stored := fromBe16 (slice buf (buf.length - 2) 2)
        if stored ≠ computeChecksum (buf.take headerSize) payload payloadLen then
          .error .badChecksum
        else .ok ⟨header, payload⟩

namespace PacketBuilder

/-- The bytes of a packet whose payload fits. -/
def bytes (header : PacketHeader) (payload : Bytes) : Bytes :=
  let len := UInt16.ofNat payload.length
  let checksum := crcStep (crc16TwoSegments header.encode payload) (be16 len)
  header.encode ++ (payload ++ (be16 len ++ be16 checksum))

/-- `PacketBuilder::encode` into a buffer of `capacity` bytes. -/
def encode (header : PacketHeader) (payload : Bytes) (capacity : ℕ) : Except Error Bytes :=
  if maxPayloadSize < payload.length then .error .payloadTooLarge
  else if capacity < headerSize + payload.length + 4 then .error .bufferTooSmall
  else .ok (bytes header payload)

theorem length_bytes (header : PacketHeader) (payload : Bytes) :
    (bytes header payload).length = headerSize + payload.length + 4 := by
  simp [bytes]
  omega

theorem encode_eq_ok {header : PacketHeader} {payload out : Bytes} {capacity : ℕ}
    (h : encode header payload capacity = .ok out) :
    out = bytes header payload ∧ payload.length ≤ maxPayloadSize := by
  unfold encode at h
  split_ifs at h with hp hc
  cases h
  exact ⟨rfl, Nat.not_lt.mp hp⟩

/-- What the builder writes, the view reads back. -/
theorem decode_bytes {header : PacketHeader} {payload : Bytes}
    (hv : header.version = protocolVersion) (hp : payload.length ≤ maxPayloadSize) :
    PacketView.decode (bytes header payload) = .ok ⟨header, payload⟩ := by
  have hmax : maxPayloadSize < 2 ^ 16 := by decide
  have hlen := length_bytes header payload
  have hu : (UInt16.ofNat payload.length).toNat = payload.length := by
    rw [UInt16.toNat_ofNat', Nat.mod_eq_of_lt (hp.trans_lt hmax)]
  have hpl : slice (bytes header payload) ((bytes header payload).length - 4) 2 =
      be16 (UInt16.ofNat payload.length) := by
    rw [hlen, bytes, ← List.append_assoc]
    exact slice_middle (header.encode ++ payload) _ _ (by simp) (by simp)
  have hck : slice (bytes header payload) ((bytes header payload).length - 2) 2 =
      be16 (computeChecksum header.encode payload (UInt16.ofNat payload.length)) := by
    let front := header.encode ++ payload ++ be16 (UInt16.ofNat payload.length)
    have hbytes : bytes header payload = front ++
        (be16 (computeChecksum header.encode payload (UInt16.ofNat payload.length)) ++ []) := by
      simp [bytes, front, computeChecksum, crc16TwoSegments]
    rw [hlen, hbytes]
    exact slice_middle front _ _ (by simp [front]; omega) (by simp)
  have hbody : slice (bytes header payload) headerSize payload.length = payload := by
    simp [slice, bytes]
  have hhead : (bytes header payload).take headerSize = header.encode := by
    simp [bytes]
  have hdec : PacketHeader.decode (bytes header payload) = .ok header :=
    PacketHeader.decode_encode_append hv _
  unfold PacketView.decode
  rw [if_neg (by omega), hdec]
  simp only [hpl, hck, fromBe16_be16, hu, hbody, hhead]
  rw [if_neg (by omega), if_neg (Nat.not_lt.mpr hp)]
  simp

end PacketBuilder
end GravitalTalk
