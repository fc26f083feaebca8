import GravitalTalk.Core.Corruption

/-!
# Two tables and their loops

`checksum.rs` and `packet.rs` each build a table of 256 entries at compile time
and run over bytes with it, `checksum.rs` in `crc16_table` and twice in
`crc16_two_segments`, `packet.rs` in `crc_step` and in the tail of `encode`. All
of them are one shift register, the one that `Checksum` computes without a table.
-/
namespace GravitalTalk

/-! ## Filling a table -/

def tableBit (poly crc : UInt16) : UInt16 :=
  if crc &&& 0x8000 ≠ 0 then (crc <<< 1) ^^^ poly else crc <<< 1

/-- The inner loop, for the entry that starts at `crc`. -/
def tableBits (poly crc : UInt16) : UInt16 :=
  (List.range 8).foldl (fun crc _ => tableBit poly crc) crc

/-- `build_table`: one entry after the other is set in an array of zeros. -/
def buildTable (poly : UInt16) : Vector UInt16 256 :=
  (List.range 256).foldl
    (fun table i => table.setIfInBounds i (tableBits poly (UInt16.ofNat i <<< 8)))
    (Vector.replicate 256 0)

/-- The body of every loop over bytes; `idx` is always within the table. -/
def tableByte (table : Vector UInt16 256) (crc : UInt16) (byte : UInt8) : UInt16 :=
  let idx := (crc >>> 8).toUInt8 ^^^ byte
  (crc <<< 8) ^^^ table.get ⟨idx.toNat, idx.toNat_lt⟩

namespace Checksum

def poly : UInt16 := 0x1021
def init : UInt16 := 0xFFFF
def table : Vector UInt16 256 := buildTable poly

def crc16Table (data : Bytes) : UInt16 := data.foldl (tableByte table) init

/-- With and without `simd-crc` the table is what runs. -/
def crc16CcittFalse (data : Bytes) : UInt16 := crc16Table data

def crc16TwoSegments (segmentA segmentB : Bytes) : UInt16 :=
  let crc := segmentA.foldl (tableByte table) init
  segmentB.foldl (tableByte table) crc

end Checksum

namespace Packet

def poly : UInt16 := 0x1021
def table : Vector UInt16 256 := buildTable poly

def crcStep (crc : UInt16) (data : Bytes) : UInt16 := data.foldl (tableByte table) crc

def computeChecksum (header payload : Bytes) (payloadLen : UInt16) : UInt16 :=
  let crc := 0xFFFF
  let crc := crcStep crc header
  let crc := crcStep crc payload
  crcStep crc (be16 payloadLen)

/-- The checksum in `PacketBuilder::encode`: two segments and the tail loop. -/
def encodeChecksum (header payload : Bytes) (payloadLen : UInt16) : UInt16 :=
  let checksum := Checksum.crc16TwoSegments header payload
  (be16 payloadLen).foldl (tableByte table) checksum

end Packet

/-! ## What the tables hold -/

theorem tableBits_eq (crc : UInt16) : tableBits crcPoly crc = crcBits 8 crc := rfl

theorem getElem_fillTable (poly : UInt16) {n j : ℕ} (hn : n ≤ 256) (hj : j < 256) :
    ((List.range n).foldl
      (fun table i => table.setIfInBounds i (tableBits poly (UInt16.ofNat i <<< 8)))
      (Vector.replicate 256 (0 : UInt16)))[j] =
      if j < n then tableBits poly (UInt16.ofNat j <<< 8) else 0 := by
  induction n with
  | zero => simp
  | succ n ih =>
    rw [List.range_succ, List.foldl_append, List.foldl_cons, List.foldl_nil,
      Vector.getElem_setIfInBounds hj, ih (by omega)]
    by_cases hnj : n = j
    · rw [if_pos hnj, if_pos (by omega), hnj]
    · rw [if_neg hnj]
      by_cases hlt : j < n
      · rw [if_pos hlt, if_pos (by omega)]
      · rw [if_neg hlt, if_neg (by omega)]

theorem get_buildTable (idx : UInt8) :
    (buildTable crcPoly).get ⟨idx.toNat, idx.toNat_lt⟩ = crcTable idx := by
  have hlt : idx.toNat < 256 := idx.toNat_lt
  have hwide : UInt16.ofNat idx.toNat = idx.toUInt16 := by
    simp
  have hentry := getElem_fillTable crcPoly (le_refl 256) hlt
  rw [if_pos hlt, hwide, tableBits_eq] at hentry
  exact hentry

theorem tableByte_eq : tableByte (buildTable crcPoly) = crcByte := by
  funext crc byte
  rw [tableByte, crcByte, get_buildTable]

/-! ## The loops -/

theorem Checksum.crc16CcittFalse_eq (data : Bytes) :
    Checksum.crc16CcittFalse data = crcStep crcInit data := by
  have hbody : tableByte Checksum.table = crcByte := tableByte_eq
  rw [Checksum.crc16CcittFalse, Checksum.crc16Table, hbody]
  rfl

theorem Checksum.crc16TwoSegments_eq (a b : Bytes) :
    Checksum.crc16TwoSegments a b = GravitalTalk.crc16TwoSegments a b := by
  have hbody : tableByte Checksum.table = crcByte := tableByte_eq
  rw [Checksum.crc16TwoSegments, hbody]
  rfl

theorem Packet.crcStep_eq (crc : UInt16) (data : Bytes) :
    Packet.crcStep crc data = GravitalTalk.crcStep crc data := by
  have hbody : tableByte Packet.table = crcByte := tableByte_eq
  rw [Packet.crcStep, hbody]
  rfl

/-- `PacketView.decode` compares with the checksum over the table. -/
theorem Packet.computeChecksum_eq (header payload : Bytes) (payloadLen : UInt16) :
    Packet.computeChecksum header payload payloadLen =
      GravitalTalk.computeChecksum header payload payloadLen := by
  have hinit : (0xFFFF : UInt16) = crcInit := rfl
  rw [Packet.computeChecksum, Packet.crcStep_eq, Packet.crcStep_eq, Packet.crcStep_eq, hinit,
    GravitalTalk.computeChecksum]

theorem Packet.encodeChecksum_eq (header payload : Bytes) (payloadLen : UInt16) :
    Packet.encodeChecksum header payload payloadLen =
      GravitalTalk.crcStep (GravitalTalk.crc16TwoSegments header payload) (be16 payloadLen) := by
  have hbody : tableByte Packet.table = crcByte := tableByte_eq
  rw [Packet.encodeChecksum, Checksum.crc16TwoSegments_eq, hbody, GravitalTalk.crcStep]

/-- A packet ends with the checksum that `encode` computes over its tables. -/
theorem PacketBuilder.bytes_eq_tables (header : PacketHeader) (payload : Bytes) :
    PacketBuilder.bytes header payload =
      header.encode ++ (payload ++ (be16 (UInt16.ofNat payload.length) ++
        be16 (Packet.encodeChecksum header.encode payload (UInt16.ofNat payload.length)))) := by
  rw [Packet.encodeChecksum_eq, PacketBuilder.bytes]

/-- Both ends compute the CRC of the concatenation, and that is the shift
register fed with its bits. -/
theorem checksums_agree :
    (∀ (header payload : Bytes) (payloadLen : UInt16),
      Packet.encodeChecksum header payload payloadLen =
          Checksum.crc16CcittFalse (header ++ payload ++ be16 payloadLen) ∧
        Packet.computeChecksum header payload payloadLen =
          Checksum.crc16CcittFalse (header ++ payload ++ be16 payloadLen)) ∧
      ∀ data : Bytes,
        (Checksum.crc16CcittFalse data).toBitVec = Crc.run 0x1021#16 0xFFFF#16 (bits data) := by
  constructor
  · intro header payload payloadLen
    rw [Packet.encodeChecksum_eq, Packet.computeChecksum_eq, Checksum.crc16CcittFalse_eq,
      crcStep_append, crcStep_append, computeChecksum, crc16TwoSegments]
    exact ⟨rfl, rfl⟩
  · intro data
    rw [Checksum.crc16CcittFalse_eq, crcStep_toBitVec]
    rfl

end GravitalTalk
