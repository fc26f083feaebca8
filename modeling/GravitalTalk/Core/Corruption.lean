import GravitalTalk.Lib.Crc
import GravitalTalk.Core.WireFormat

/-!
# Corrupted packets

The checksum of a packet is a shift register over its bits, and the packet
with its checksum at the end leaves the register at zero. A packet is at most
9632 bits long, and the register has not yet come back to where it started
after as many shifts.
-/
namespace GravitalTalk

/-- The generator x¹⁶ + x¹² + x⁵ + 1. -/
def crcGenerator : BitVec 16 := crcPoly.toBitVec

/-- The bits of a byte in the order of the wire, the most significant first. -/
def bitsOf (byte : UInt8) : List Bool := (List.range 8).map fun i => byte.toBitVec.getLsbD (7 - i)

def bits (b : Bytes) : List Bool := b.flatMap bitsOf

@[simp] theorem length_bitsOf (byte : UInt8) : (bitsOf byte).length = 8 := by
  simp [bitsOf]

@[simp] theorem length_bits (b : Bytes) : (bits b).length = 8 * b.length := by
  induction b with
  | nil => rfl
  | cons byte b ih =>
    rw [bits, List.flatMap_cons, List.length_append, length_bitsOf, List.length_cons]
    rw [bits] at ih
    omega

/-! ## The table loop is the register -/

theorem crcBit_toBitVec (crc : UInt16) :
    (crcBit crc).toBitVec = Crc.shift crcGenerator crc.toBitVec := by
  have htop : (crc &&& 0x8000 ≠ 0) ↔ crc.toBitVec.msb = true := by
    have hmask : (crc &&& 0x8000).toBitVec = crc.toBitVec &&& BitVec.twoPow 16 15 := rfl
    rw [ne_eq, ← UInt16.toBitVec_inj, hmask, BitVec.and_twoPow, BitVec.msb_eq_getLsbD_last]
    cases crc.toBitVec.getLsbD 15 with
    | false => simp
    | true => simp
  unfold crcBit Crc.shift
  cases hmsb : crc.toBitVec.msb with
  | true =>
    rw [if_pos (htop.mpr hmsb), if_pos rfl]
    simp [crcGenerator]
  | false =>
    rw [if_neg (fun h => by rw [htop.mp h] at hmsb; cases hmsb)]
    simp

theorem crcBits_toBitVec (n : ℕ) (crc : UInt16) :
    (crcBits n crc).toBitVec = (Crc.shift crcGenerator)^[n] crc.toBitVec := by
  induction n generalizing crc with
  | zero => rfl
  | succ n ih => rw [crcBits, ih, crcBit_toBitVec, Function.iterate_succ_apply]

theorem word_bitsOf (byte : UInt8) :
    (Crc.word (bitsOf byte) : BitVec 16) = byte.toUInt16.toBitVec <<< 8 := by
  apply BitVec.eq_of_getLsbD_eq
  intro i hi
  rw [Crc.getLsbD_word hi, BitVec.getLsbD_shiftLeft]
  by_cases hlow : i < 8
  · have hout : 8 ≤ 15 - i := by omega
    simp [bitsOf, hlow, hout]
  · have hin : 15 - i < 8 := by omega
    have hpos : 7 - (15 - i) = i - 8 := by omega
    have hbit : i - 8 < 16 := by omega
    simp [bitsOf, hlow, hin, hpos, hi, hbit]

theorem toBitVec_high (x : UInt16) :
    (x >>> 8).toUInt8.toBitVec = (x.toBitVec >>> 8).setWidth 8 := rfl

theorem crcByte_toBitVec (crc : UInt16) (byte : UInt8) :
    (crcByte crc byte).toBitVec = Crc.run crcGenerator crc.toBitVec (bitsOf byte) := by
  let low : BitVec 16 := (crc.toBitVec.setWidth 8).setWidth 16
  have hsplit : crc.toBitVec ^^^ (byte.toUInt16.toBitVec <<< 8) =
      (((crc >>> 8).toUInt8 ^^^ byte).toUInt16.toBitVec <<< 8) ^^^ low := by
    have hwide (y : UInt8) : y.toUInt16.toBitVec = y.toBitVec.setWidth 16 := rfl
    rw [hwide, hwide, UInt8.toBitVec_xor, toBitVec_high]
    apply BitVec.eq_of_getLsbD_eq
    intro i hi
    by_cases hlow : i < 8
    · simp [low, hlow, hi]
    · have hup : 8 + (i - 8) = i := by omega
      have hbit : i - 8 < 8 := by omega
      have hwidth : i - 8 < 16 := by omega
      simp only [low, BitVec.getLsbD_xor, BitVec.getLsbD_shiftLeft, BitVec.getLsbD_setWidth,
        BitVec.getLsbD_ushiftRight, hup]
      simp [hlow, hi, hbit, hwidth]
  have hlow : (Crc.shift crcGenerator)^[8] low = crc.toBitVec <<< 8 := by
    have hlt := (crc.toBitVec.setWidth 8).isLt
    rw [Crc.iterate_of_low _ (by simp [low] at hlt ⊢; omega)]
    apply BitVec.eq_of_getLsbD_eq
    intro i hi
    simp only [low, BitVec.getLsbD_shiftLeft, BitVec.getLsbD_setWidth]
    by_cases hi8 : i < 8
    · simp [hi8]
    · have hbit : i - 8 < 8 := by omega
      have hwidth : i - 8 < 16 := by omega
      simp [hi8, hi, hbit, hwidth]
  rw [Crc.run_eq_iterate _ (by simp), length_bitsOf, word_bitsOf, hsplit, Crc.iterate_xor, hlow,
    crcByte, UInt16.toBitVec_xor, crcTable, crcBits_toBitVec, BitVec.xor_comm]
  rfl

theorem crcStep_toBitVec (crc : UInt16) (b : Bytes) :
    (crcStep crc b).toBitVec = Crc.run crcGenerator crc.toBitVec (bits b) := by
  induction b generalizing crc with
  | nil => rfl
  | cons byte b ih =>
    have hcons : crcStep crc (byte :: b) = crcStep (crcByte crc byte) b := rfl
    rw [hcons, ih, crcByte_toBitVec, ← Crc.run_append]
    rfl

theorem word_be16 (x : UInt16) : (Crc.word (bits (be16 x)) : BitVec 16) = x.toBitVec := by
  have hbytes : be16 x = [(x >>> 8).toUInt8, x.toUInt8] := by
    have hhigh : UInt8.ofNat (x.toNat / 256) = (x >>> 8).toUInt8 := by
      apply UInt8.toNat_inj.mp
      simp [Nat.shiftRight_eq_div_pow]
    simp [be16, toBe, hhigh]
  apply BitVec.eq_of_getLsbD_eq
  intro i hi
  rw [Crc.getLsbD_word hi, hbytes]
  by_cases hlow : i < 8
  · have hpos : 7 - (15 - i - 8) = i := by omega
    have hsecond : ¬ 15 - i < 8 := by omega
    have hin : 15 - i - 8 < 8 := by omega
    simp [bits, bitsOf, List.getElem?_append, hsecond, hin, hpos, hlow]
  · have hpos : 8 + (7 - (15 - i)) = i := by omega
    have hin : 15 - i < 8 := by omega
    have hbit : 7 - (15 - i) < 8 := by omega
    simp [bits, bitsOf, List.getElem?_append, hin, hpos, hbit]

/-- A packet with its checksum at the end leaves nothing in the register. -/
theorem crcStep_bytes (header : PacketHeader) (payload : Bytes) :
    crcStep crcInit (PacketBuilder.bytes header payload) = 0 := by
  rw [PacketBuilder.bytes, crc16TwoSegments]
  simp only [crcStep_append]
  generalize crcStep (crcStep (crcStep crcInit header.encode) payload) _ = crc
  apply UInt16.toBitVec_inj.mp
  rw [crcStep_toBitVec, Crc.run_eq_iterate _ (by simp), word_be16, BitVec.xor_self]
  exact Function.iterate_fixed (Crc.shift_zero _) _

theorem crcStep_eq_zero {buf : Bytes} {view : PacketView}
    (h : PacketView.decode buf = .ok view) : crcStep crcInit buf = 0 := by
  obtain ⟨-, -, hbytes⟩ := PacketView.decode_eq_ok h
  rw [← hbytes, crcStep_bytes]

/-! ## Errors that are noticed -/

/-- The positions, counted over the bits of the wire, at which `q` differs from `p`. -/
def flips (p q : Bytes) : Finset ℕ :=
  (Finset.range (8 * p.length)).filter fun k => (bits p)[k]? ≠ (bits q)[k]?

def errorBits (p q : Bytes) : List Bool := List.zipWith xor (bits p) (bits q)

theorem length_errorBits {p q : Bytes} (hlen : q.length = p.length) :
    (errorBits p q).length = 8 * p.length := by
  simp [errorBits, hlen]

theorem errorBits_eq_true {p q : Bytes} (hlen : q.length = p.length) (k : ℕ) :
    (errorBits p q)[k]? = some true ↔ k ∈ flips p q := by
  rw [flips, Finset.mem_filter, Finset.mem_range, errorBits, List.getElem?_zipWith]
  by_cases hk : k < 8 * p.length
  · rw [List.getElem?_eq_getElem (by simpa using hk),
      List.getElem?_eq_getElem (by simpa [hlen] using hk)]
    simp [hk]
  · rw [List.getElem?_eq_none (by simpa using hk)]
    simp [hk]

theorem count_errorBits {p q : Bytes} (hlen : q.length = p.length) :
    (errorBits p q).count true = (flips p q).card := by
  rw [Crc.count_eq_card, length_errorBits hlen]
  congr 1
  apply Finset.ext
  intro k
  rw [Finset.mem_filter, errorBits_eq_true hlen, Finset.mem_range]
  constructor
  · exact fun h => h.2
  · exact fun h => ⟨Finset.mem_range.mp (Finset.mem_filter.mp h).1, h⟩

/-- The register does not come back within the length of a packet. -/
theorem crcGenerator_period {k : ℕ} (hpos : 0 < k) (hlt : k < 9632) :
    (Crc.shift crcGenerator)^[k] Crc.top ≠ Crc.top := by
  have havoid : Crc.avoids crcGenerator Crc.top 9631 (Crc.shift crcGenerator Crc.top) = true := by
    decide +kernel
  obtain ⟨n, rfl⟩ : ∃ n, k = n + 1 := ⟨k - 1, by omega⟩
  rw [Function.iterate_succ_apply]
  exact Crc.ne_of_avoids havoid (by omega)

/-- A packet is not decoded with one, two or three bits flipped, with an odd number of them,
or with some that all lie within sixteen in a row. -/
theorem corruption_detected (header : PacketHeader) (payload p q : Bytes) (capacity : ℕ)
    (hp : PacketBuilder.encode header payload capacity = .ok p) (hlen : q.length = p.length)
    (hflips : (flips p q).card = 1 ∨ (flips p q).card = 2 ∨ (flips p q).card = 3 ∨
      Odd (flips p q).card ∨
      (flips p q).Nonempty ∧ ∃ i, ∀ k ∈ flips p q, i ≤ k ∧ k < i + 16) :
    ∃ e, PacketView.decode q = .error e := by
  cases hq : PacketView.decode q with
  | error e => exact ⟨e, rfl⟩
  | ok view =>
    exfalso
    obtain ⟨rfl, hpay⟩ := PacketBuilder.encode_eq_ok hp
    set p := PacketBuilder.bytes header payload with hbytes
    have hsize : p.length ≤ 1204 := by
      have hmax : maxPayloadSize = 1176 := rfl
      rw [hbytes, PacketBuilder.length_bytes, headerSize]
      omega
    have herror : Crc.run crcGenerator 0#16 (errorBits p q) = 0#16 := by
      have hrun := Crc.run_xor crcGenerator crcInit.toBitVec crcInit.toBitVec
        (a := bits p) (b := bits q) (by simp [hlen])
      rw [← crcStep_toBitVec, ← crcStep_toBitVec, crcStep_eq_zero hq, crcStep_bytes,
        BitVec.xor_self, BitVec.xor_self] at hrun
      exact hrun
    have hgen : crcGenerator.getLsbD 0 = true := by decide
    have hodd (h : Odd (flips p q).card) : False := by
      rw [← count_errorBits hlen] at h
      exact Crc.run_odd_ne_zero (by decide) (by decide) h herror
    obtain hone | htwo | hthree | hany | ⟨hnonempty, i, hwindow⟩ := hflips
    · exact hodd (by rw [hone]; decide)
    · rw [← count_errorBits hlen] at htwo
      refine Crc.run_pair_ne_zero (by decide) hgen htwo (fun k hpos hk => ?_) herror
      rw [length_errorBits hlen] at hk
      exact crcGenerator_period hpos (by omega)
    · exact hodd (by rw [hthree]; decide)
    · exact hodd hany
    · obtain ⟨k, hk⟩ := hnonempty
      have hmem : true ∈ errorBits p q :=
        List.mem_of_getElem? ((errorBits_eq_true hlen k).mpr hk)
      refine Crc.run_window_ne_zero (i := i) (by decide) hgen hmem (fun j hj => ?_) herror
      exact hwindow j ((errorBits_eq_true hlen j).mp hj)

/-- Two bits far apart, one in the header and one in the stored checksum. -/
theorem corruption_detected_two :
    ∃ e, PacketView.decode ([0x47, 0x53, 1, 0x80, 0x10, 0, 0, 0, 0, 0, 0, 7, 0, 0, 0, 1] ++
      List.replicate 8 0 ++ [5, 0, 1, 0xF0, 0x2D]) = .error e :=
  corruption_detected (.new 0x10 7 1 0) [5]
    ([0x47, 0x53, 1, 0, 0x10, 0, 0, 0, 0, 0, 0, 7, 0, 0, 0, 1] ++
      List.replicate 8 0 ++ [5, 0, 1, 0xF0, 0x2C])
    _ 1200 (by decide +kernel) rfl (Or.inr (Or.inl (by decide +kernel)))

end GravitalTalk
