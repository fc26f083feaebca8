import GravitalTalk.Lib.BigEndian

/-!
# Packet header

`constants.rs`, `error.rs` and `header.rs` of the core crate: the 24-byte
header in front of every packet and the errors a malformed one produces.
-/
namespace GravitalTalk

def magicBytes : UInt8 × UInt8 := (0x47, 0x53)
def protocolVersion : UInt8 := 0x01
def protocolVersionMin : UInt8 := 0x01
def protocolVersionMax : UInt8 := 0x01
def headerSize : ℕ := 24
def defaultMtu : ℕ := 1200
def maxPayloadSize : ℕ := defaultMtu - headerSize

/-- Errors of the core crate that the modelled functions can return. -/
inductive Error
  | tooShort | badMagic | protocolMismatch | lengthMismatch | badChecksum
  | unknownMessageType (code : UInt8)
  | bufferTooSmall | payloadTooLarge | malformedPayload | decryptionFailed
  | reservedFieldNonZero
  deriving DecidableEq, Repr

/-- Flags of the header, one bit each. -/
structure Flags where
  bits : UInt8
  deriving DecidableEq, Repr

namespace Flags

def encrypted : Flags := ⟨0b00100000⟩
def empty : Flags := ⟨0⟩
def contains (f other : Flags) : Bool := f.bits &&& other.bits == other.bits

end Flags

structure PacketHeader where
  version : UInt8
  flags : Flags
  msgType : UInt8
  sessionId : UInt32
  sequence : UInt32
  timestamp : UInt64
  deriving DecidableEq, Repr

namespace PacketHeader

def new (msgType : UInt8) (sessionId sequence : UInt32) (timestamp : UInt64) : PacketHeader :=
  ⟨protocolVersion, Flags.empty, msgType, sessionId, sequence, timestamp⟩

/-- The 24 bytes `encode` writes. -/
def encode (h : PacketHeader) : Bytes :=
  [magicBytes.1, magicBytes.2, h.version, h.flags.bits, h.msgType, 0, 0, 0] ++
    (be32 h.sessionId ++ (be32 h.sequence ++ be64 h.timestamp))

def decode (buf : Bytes) : Except Error PacketHeader :=
  if buf.length < headerSize then .error .tooShort
  else if buf.getD 0 0 ≠ magicBytes.1 ∨ buf.getD 1 0 ≠ magicBytes.2 then .error .badMagic
  else if buf.getD 2 0 ≠ protocolVersion then .error .protocolMismatch
  else if buf.getD 5 0 ≠ 0 ∨ buf.getD 6 0 ≠ 0 ∨ buf.getD 7 0 ≠ 0 then
    .error .reservedFieldNonZero
  else .ok
    { version := buf.getD 2 0
      flags := ⟨buf.getD 3 0⟩
      msgType := buf.getD 4 0
      sessionId := fromBe32 (slice buf 8 4)
      sequence := fromBe32 (slice buf 12 4)
      timestamp := fromBe64 (slice buf 16 8) }

@[simp] theorem length_encode (h : PacketHeader) : h.encode.length = headerSize := by
  simp [encode, headerSize]

theorem decode_encode_append {h : PacketHeader} (hv : h.version = protocolVersion)
    (rest : Bytes) : decode (h.encode ++ rest) = .ok h := by
  let front : Bytes := [magicBytes.1, magicBytes.2, h.version, h.flags.bits, h.msgType, 0, 0, 0]
  have hsid : slice (h.encode ++ rest) 8 4 = be32 h.sessionId := by
    simp only [encode, List.append_assoc]
    exact slice_middle front _ _ rfl (by simp)
  have hseq : slice (h.encode ++ rest) 12 4 = be32 h.sequence := by
    simp only [encode, List.append_assoc]
    rw [← List.append_assoc]
    exact slice_middle (front ++ be32 h.sessionId) _ _ (by simp [front]) (by simp)
  have hts : slice (h.encode ++ rest) 16 8 = be64 h.timestamp := by
    simp only [encode, List.append_assoc]
    rw [← List.append_assoc, ← List.append_assoc]
    exact slice_middle (front ++ be32 h.sessionId ++ be32 h.sequence) _ _ (by simp [front])
      (by simp)
  have hlen : ¬ (h.encode ++ rest).length < headerSize := by simp
  rw [decode, if_neg hlen, hsid, hseq, hts]
  simp [encode, magicBytes, hv]
  cases h
  simp_all

end PacketHeader
end GravitalTalk
