import GravitalTalk.Lib.BigEndian

/-!
# CRC-16/CCITT-FALSE

`checksum.rs`, and the copy of the table loop that `packet.rs` keeps. The
table is built by the bit loop of `build_table`; entries are recomputed on
demand here, which no caller can observe.
-/
namespace GravitalTalk

def crcPoly : UInt16 := 0x1021
def crcInit : UInt16 := 0xFFFF

def crcBit (crc : UInt16) : UInt16 :=
  if crc &&& 0x8000 ≠ 0 then (crc <<< 1) ^^^ crcPoly else crc <<< 1

/-- The inner loop of `build_table`, eight bits. -/
def crcBits : ℕ → UInt16 → UInt16
  | 0, crc => crc
  | n + 1, crc => crcBits n (crcBit crc)

/-- `TABLE[idx]`. -/
def crcTable (idx : UInt8) : UInt16 := crcBits 8 (idx.toUInt16 <<< 8)

def crcByte (crc : UInt16) (byte : UInt8) : UInt16 :=
  (crc <<< 8) ^^^ crcTable ((crc >>> 8).toUInt8 ^^^ byte)

/-- `crc_step` of `packet.rs`; the loops of `checksum.rs` have the same body. -/
def crcStep (crc : UInt16) (data : Bytes) : UInt16 := data.foldl crcByte crc

def crc16TwoSegments (a b : Bytes) : UInt16 := crcStep (crcStep crcInit a) b

theorem crcStep_append (crc : UInt16) (a b : Bytes) :
    crcStep crc (a ++ b) = crcStep (crcStep crc a) b := List.foldl_append

end GravitalTalk
