import GravitalTalk.Core.Packet

/-!
# The wire format, access by access

`PacketView::decode` and `PacketBuilder::encode` with every index, slice and
subtraction checked: `none` is where the code would panic. The buffer that
`encode` writes to is the caller's, and longer than the packet in general.
What is read has one encoding only.
-/
namespace GravitalTalk

/-! ## Reading -/

/-- `&buf[lo..hi]`. -/
def cut (buf : Bytes) (lo hi : ℕ) : Option Bytes :=
  if lo ≤ hi ∧ hi ≤ buf.length then some (slice buf lo (hi - lo)) else none

/-- `a - b` on `usize`. -/
def minus (a b : ℕ) : Option ℕ := if b ≤ a then some (a - b) else none

/-- The bytes at `n` indices from `off` on, read one by one. -/
def readBytes (buf : Bytes) (off : ℕ) : ℕ → Option Bytes
  | 0 => some []
  | n + 1 => do
    let byte ← buf[off]?
    let rest ← readBytes buf (off + 1) n
    return byte :: rest

theorem cut_eq {buf : Bytes} {lo hi : ℕ} (h : lo ≤ hi) (hlen : hi ≤ buf.length) :
    cut buf lo hi = some (slice buf lo (hi - lo)) := if_pos ⟨h, hlen⟩

theorem minus_eq {a b : ℕ} (h : b ≤ a) : minus a b = some (a - b) := if_pos h

theorem getElem?_eq_getD {buf : Bytes} {i : ℕ} (h : i < buf.length) :
    buf[i]? = some (buf.getD i 0) := by
  simp [h]

theorem readBytes_eq {buf : Bytes} {off n : ℕ} (h : off + n ≤ buf.length) :
    readBytes buf off n = some (slice buf off n) := by
  induction n generalizing off with
  | zero => simp [readBytes, slice]
  | succ n ih =>
    have hoff : off < buf.length := by omega
    rw [readBytes, getElem?_eq_getD hoff, ih (by omega), slice, slice,
      List.drop_eq_getElem_cons hoff, List.take_succ_cons]
    simp [hoff]

def PacketHeader.decodeChecked (buf : Bytes) : Option (Except Error PacketHeader) :=
  if buf.length < headerSize then some (.error .tooShort)
  else do
    let magic0 ← buf[0]?
    let magic1 ← buf[1]?
    if magic0 ≠ magicBytes.1 ∨ magic1 ≠ magicBytes.2 then return .error .badMagic
    let version ← buf[2]?
    if version ≠ protocolVersion then return .error .protocolMismatch
    let reserved0 ← buf[5]?
    let reserved1 ← buf[6]?
    let reserved2 ← buf[7]?
    if reserved0 ≠ 0 ∨ reserved1 ≠ 0 ∨ reserved2 ≠ 0 then return .error .reservedFieldNonZero
    let flags ← buf[3]?
    let msgType ← buf[4]?
    let sessionId ← readBytes buf 8 4
    let sequence ← readBytes buf 12 4
    let timestamp ← readBytes buf 16 8
    return .ok
      { version := version
        flags := ⟨flags⟩
        msgType := msgType
        sessionId := fromBe32 sessionId
        sequence := fromBe32 sequence
        timestamp := fromBe64 timestamp }

theorem PacketHeader.decodeChecked_eq (buf : Bytes) :
    PacketHeader.decodeChecked buf = some (PacketHeader.decode buf) := by
  unfold PacketHeader.decodeChecked PacketHeader.decode
  by_cases hlen : buf.length < headerSize
  · rw [if_pos hlen, if_pos hlen]
  · have hsize : 24 ≤ buf.length := Nat.not_lt.mp hlen
    have hget (i : ℕ) (hi : i < 24) : buf[i]? = some (buf.getD i 0) :=
      getElem?_eq_getD (by omega)
    have hread (off n : ℕ) (hend : off + n ≤ 24) : readBytes buf off n = some (slice buf off n) :=
      readBytes_eq (by omega)
    rw [if_neg hlen, if_neg hlen, hget 0 (by decide), hget 1 (by decide), hget 2 (by decide),
      hget 3 (by decide), hget 4 (by decide), hget 5 (by decide), hget 6 (by decide),
      hget 7 (by decide), hread 8 4 (by decide), hread 12 4 (by decide), hread 16 8 (by decide)]
    simp only [Option.bind_eq_bind, Option.bind_some]
    split_ifs <;> rfl

def PacketView.decodeChecked (buf : Bytes) : Option (Except Error PacketView) :=
  if buf.length < headerSize + 4 then some (.error .tooShort)
  else do
    match ← PacketHeader.decodeChecked buf with
    | .error e => return .error e
    | .ok header =>
      let payloadLenOffset ← minus buf.length 4
      let checksumOffset ← minus buf.length 2
      let payloadLen := fromBe16 (← readBytes buf payloadLenOffset 2)
      let expectedLen := headerSize + payloadLen.toNat + 4
      if expectedLen ≠ buf.length then return .error .lengthMismatch
      if maxPayloadSize < payloadLen.toNat then return .error .payloadTooLarge
      let payload ← cut buf headerSize (headerSize + payloadLen.toNat)
      let storedChecksum := fromBe16 (← readBytes buf checksumOffset 2)
      let computed := computeChecksum (← cut buf 0 headerSize) payload payloadLen
      if storedChecksum ≠ computed then return .error .badChecksum
      return .ok ⟨header, payload⟩

/-- No access of `decode` is out of range. -/
theorem PacketView.decodeChecked_eq (buf : Bytes) :
    PacketView.decodeChecked buf = some (PacketView.decode buf) := by
  unfold PacketView.decodeChecked PacketView.decode
  by_cases hlen : buf.length < headerSize + 4
  · rw [if_pos hlen, if_pos hlen]
  · have hsize : headerSize + 4 ≤ buf.length := Nat.not_lt.mp hlen
    rw [if_neg hlen, if_neg hlen, PacketHeader.decodeChecked_eq]
    simp only [Option.bind_eq_bind, Option.bind_some]
    cases PacketHeader.decode buf with
    | error e => rfl
    | ok header =>
      have hread (n : ℕ) (hn : 2 ≤ n) (hn' : n ≤ 4) :
          readBytes buf (buf.length - n) 2 = some (slice buf (buf.length - n) 2) :=
        readBytes_eq (by omega)
      have htake : slice buf 0 headerSize = buf.take headerSize := rfl
      simp only [minus_eq (show 4 ≤ buf.length by omega), minus_eq (show 2 ≤ buf.length by omega),
        Option.bind_some, hread 4 (by decide) (by decide), hread 2 (by decide) (by decide),
        cut_eq (Nat.zero_le _) (show headerSize ≤ buf.length by omega), Nat.sub_zero, htake]
      split_ifs with hexp hmax hsum
      · rfl
      · rfl
      · rw [cut_eq (Nat.le_add_right _ _) (by omega), Nat.add_sub_cancel_left]
        simp [hsum]
      · rw [cut_eq (Nat.le_add_right _ _) (by omega), Nat.add_sub_cancel_left]
        simp [hsum]

/-! ## Writing -/

/-- `out[off..off + data.len()].copy_from_slice(data)`. -/
def overwrite (out : Bytes) (off : ℕ) (data : Bytes) : Option Bytes :=
  if off + data.length ≤ out.length then
    some (out.take off ++ (data ++ out.drop (off + data.length)))
  else none

theorem overwrite_next (front rest data : Bytes) {off : ℕ} (hoff : off = front.length)
    (hlen : data.length ≤ rest.length) :
    overwrite (front ++ rest) off data = some (front ++ data ++ rest.drop data.length) := by
  subst hoff
  rw [overwrite, if_pos (by simpa using hlen), List.take_left, List.drop_append]
  simp

def PacketHeader.encodeInto (h : PacketHeader) (buf : Bytes) : Option (Except Error Bytes) :=
  if buf.length < headerSize then some (.error .bufferTooSmall)
  else do
    let buf ← overwrite buf 0 [magicBytes.1]
    let buf ← overwrite buf 1 [magicBytes.2]
    let buf ← overwrite buf 2 [h.version]
    let buf ← overwrite buf 3 [h.flags.bits]
    let buf ← overwrite buf 4 [h.msgType]
    let buf ← overwrite buf 5 [0]
    let buf ← overwrite buf 6 [0]
    let buf ← overwrite buf 7 [0]
    let buf ← overwrite buf 8 (be32 h.sessionId)
    let buf ← overwrite buf 12 (be32 h.sequence)
    let buf ← overwrite buf 16 (be64 h.timestamp)
    return .ok buf

theorem PacketHeader.encodeInto_eq (h : PacketHeader) {buf : Bytes}
    (hlen : headerSize ≤ buf.length) :
    h.encodeInto buf = some (.ok (h.encode ++ buf.drop headerSize)) := by
  have hsize : 24 ≤ buf.length := hlen
  have hfirst : overwrite buf 0 [magicBytes.1] = some ([magicBytes.1] ++ buf.drop 1) :=
    overwrite_next [] _ _ rfl (by simp; omega)
  rw [encodeInto, if_neg (Nat.not_lt.mpr hlen), hfirst]
  simp only [Option.bind_eq_bind, Option.bind_some]
  repeat
    rw [overwrite_next _ _ _ (by simp) (by simp; omega)]
    simp only [Option.bind_some, List.drop_drop, List.length_singleton, length_be32, length_be64]
  simp [encode, headerSize]

namespace PacketBuilder

/-- `encode`: the number of bytes written, and the buffer afterwards. -/
def encodeInto (header : PacketHeader) (payload out : Bytes) :
    Option (Except Error (ℕ × Bytes)) :=
  if maxPayloadSize < payload.length then some (.error .payloadTooLarge)
  else
    let total := headerSize + payload.length + 4
    if out.length < total then some (.error .bufferTooSmall)
    else do
      match ← header.encodeInto (← cut out 0 headerSize) with
      | .error e => return .error e
      | .ok head =>
        let out ← overwrite out 0 head
        let out ← overwrite out headerSize payload
        let payloadLen := UInt16.ofNat payload.length
        let out ← overwrite out (← minus total 4) (be16 payloadLen)
        let checksum := crc16TwoSegments (← cut out 0 headerSize) payload
        let checksum := crcStep checksum (be16 payloadLen)
        let out ← overwrite out (← minus total 2) (be16 checksum)
        return .ok (total, out)

/-- No access of `encode` is out of range, and it leaves the rest of the buffer alone. -/
theorem encodeInto_eq (header : PacketHeader) (payload out : Bytes) :
    encodeInto header payload out = some (match encode header payload out.length with
      | .error e => .error e
      | .ok packet => .ok (packet.length, packet ++ out.drop packet.length)) := by
  unfold encodeInto encode
  split_ifs with hpay hout
  · rfl
  · simp [hout]
  · have hsize : headerSize + payload.length + 4 ≤ out.length := Nat.not_lt.mp hout
    have hcut : cut out 0 headerSize = some (out.take headerSize) := by
      rw [cut_eq (Nat.zero_le _) (by omega)]
      rfl
    have hhead : header.encodeInto (out.take headerSize) = some (.ok header.encode) := by
      rw [PacketHeader.encodeInto_eq header (by simp; omega)]
      simp
    have hcopy : overwrite out 0 header.encode =
        some (header.encode ++ out.drop headerSize) := by
      simpa using overwrite_next [] out header.encode rfl
        (by simp; omega)
    have hagain (rest : Bytes) :
        cut (header.encode ++ rest) 0 headerSize = some header.encode := by
      rw [cut_eq (Nat.zero_le _) (by simp)]
      simp [slice]
    simp only [hcut, hhead, hcopy, Option.bind_eq_bind, Option.bind_some, length_bytes,
      minus_eq (show 4 ≤ headerSize + payload.length + 4 by omega),
      minus_eq (show 2 ≤ headerSize + payload.length + 4 by omega)]
    rw [overwrite_next _ _ _ (by simp) (by simp; omega)]
    simp only [Option.bind_some]
    rw [overwrite_next _ _ _ (by simp) (by simp; omega)]
    simp only [Option.bind_some, List.append_assoc]
    rw [hagain]
    simp only [Option.bind_some]
    rw [← List.append_assoc, ← List.append_assoc,
      overwrite_next _ _ _ (by simp; omega) (by simp; omega)]
    simp [bytes, List.drop_drop, hsize]

end PacketBuilder

/-! ## One encoding -/

theorem PacketHeader.decode_eq_ok {buf : Bytes} {h : PacketHeader}
    (hd : PacketHeader.decode buf = .ok h) :
    h.version = protocolVersion ∧ h.encode = buf.take headerSize := by
  unfold PacketHeader.decode at hd
  split_ifs at hd with hlen hmagic hversion hreserved
  cases hd
  push Not at hmagic hversion hreserved
  have hsize : 24 ≤ buf.length := Nat.not_lt.mp hlen
  have hslice (off n : ℕ) (hend : off + n ≤ 24) : (slice buf off n).length = n := by
    simp [slice]
    omega
  have hcons (i n : ℕ) (hi : i < 24) : (buf.drop i).take (n + 1) =
      buf.getD i 0 :: (buf.drop (i + 1)).take n := by
    have hlt : i < buf.length := by omega
    rw [List.drop_eq_getElem_cons hlt, List.take_succ_cons]
    simp [hlt]
  have hsplit (i m n : ℕ) : (buf.drop i).take (m + n) =
      slice buf i m ++ (buf.drop (i + m)).take n := by
    rw [List.take_add, List.drop_drop]
    rfl
  refine ⟨hversion, ?_⟩
  simp only [encode]
  rw [be32_fromBe32 (hslice 8 4 (by decide)), be32_fromBe32 (hslice 12 4 (by decide)),
    be64_fromBe64 (hslice 16 8 (by decide)), ← hmagic.1, ← hmagic.2]
  have hstart : buf.take headerSize = (buf.drop 0).take (23 + 1) := rfl
  rw [hstart, hcons 0 23 (by decide), hcons 1 22 (by decide), hcons 2 21 (by decide),
    hcons 3 20 (by decide), hcons 4 19 (by decide), hcons 5 18 (by decide),
    hcons 6 17 (by decide), hcons 7 16 (by decide), hreserved.1, hreserved.2.1, hreserved.2.2,
    hsplit 8 4 12, hsplit 12 4 8]
  rfl

/-- What `decode` accepts is what `encode` writes for it. -/
theorem PacketView.decode_eq_ok {buf : Bytes} {view : PacketView}
    (h : PacketView.decode buf = .ok view) :
    view.header.version = protocolVersion ∧ view.payload.length ≤ maxPayloadSize ∧
      PacketBuilder.bytes view.header view.payload = buf := by
  unfold PacketView.decode at h
  split_ifs at h with hlen
  cases hhead : PacketHeader.decode buf with
  | error e => rw [hhead] at h; cases h
  | ok header =>
    rw [hhead] at h
    simp only at h
    split_ifs at h with hexp hmax hsum
    cases h
    push Not at hexp hmax hsum
    obtain ⟨hversion, hencode⟩ := PacketHeader.decode_eq_ok hhead
    set payloadLen := fromBe16 (slice buf (buf.length - 4) 2) with hpl
    have hbody : (slice buf headerSize payloadLen.toNat).length = payloadLen.toNat := by
      simp [slice]
      omega
    have htail (n : ℕ) (hn : 2 ≤ n) (hn' : n ≤ 4) : (slice buf (buf.length - n) 2).length = 2 := by
      simp [slice]
      omega
    refine ⟨hversion, hbody.le.trans hmax, ?_⟩
    unfold PacketBuilder.bytes
    have hsum' : crcStep (crc16TwoSegments header.encode (slice buf headerSize payloadLen.toNat))
        (be16 payloadLen) = fromBe16 (slice buf (buf.length - 2) 2) := by
      rw [hsum, hencode]
      rfl
    simp only
    rw [hbody, UInt16.ofNat_toNat, hsum', be16_fromBe16 (htail 2 (by decide) (by decide)), hpl,
      be16_fromBe16 (htail 4 (by decide) (by decide)), ← hpl, hencode]
    have hend : buf.length - 4 = headerSize + payloadLen.toNat := by omega
    have hend' : buf.length - 2 = headerSize + payloadLen.toNat + 2 := by omega
    have hrest : slice buf (headerSize + payloadLen.toNat + 2) 2 =
        buf.drop (headerSize + payloadLen.toNat + 2) := by
      apply List.take_of_length_le
      simp
      omega
    rw [hend, hend', hrest, slice, slice]
    conv_rhs => rw [← List.take_append_drop headerSize buf,
      ← List.take_append_drop payloadLen.toNat (buf.drop headerSize), List.drop_drop,
      ← List.take_append_drop 2 (buf.drop (headerSize + payloadLen.toNat)), List.drop_drop]

/-- Writing and reading are inverse in both directions, and neither ever panics. -/
theorem wire_format_bijective :
    (∀ (header : PacketHeader) (payload out : Bytes), header.version = protocolVersion →
      payload.length ≤ maxPayloadSize → headerSize + payload.length + 4 ≤ out.length →
      ∃ n written, PacketBuilder.encodeInto header payload out = some (.ok (n, written)) ∧
        PacketView.decodeChecked (written.take n) = some (.ok ⟨header, payload⟩)) ∧
    ∀ b : Bytes, ∃ read, PacketView.decodeChecked b = some read ∧
      ∀ view, read = .ok view → view.header.version = protocolVersion ∧
        view.payload.length ≤ maxPayloadSize ∧ ∀ out : Bytes, b.length ≤ out.length →
          ∃ n written, PacketBuilder.encodeInto view.header view.payload out =
            some (.ok (n, written)) ∧ written.take n = b := by
  constructor
  · intro header payload out hversion hpay hout
    have hencode : PacketBuilder.encode header payload out.length =
        .ok (PacketBuilder.bytes header payload) := by
      rw [PacketBuilder.encode, if_neg (Nat.not_lt.mpr hpay), if_neg (Nat.not_lt.mpr hout)]
    refine ⟨_, _, by rw [PacketBuilder.encodeInto_eq, hencode], ?_⟩
    rw [List.take_left, PacketView.decodeChecked_eq, PacketBuilder.decode_bytes hversion hpay]
  · intro b
    refine ⟨_, PacketView.decodeChecked_eq b, fun view hview => ?_⟩
    obtain ⟨hversion, hpay, hbytes⟩ := PacketView.decode_eq_ok hview
    refine ⟨hversion, hpay, fun out hout => ?_⟩
    have hlen := PacketBuilder.length_bytes view.header view.payload
    rw [hbytes] at hlen
    have hencode : PacketBuilder.encode view.header view.payload out.length = .ok b := by
      rw [PacketBuilder.encode, if_neg (Nat.not_lt.mpr hpay), if_neg (by omega), hbytes]
    refine ⟨_, _, by rw [PacketBuilder.encodeInto_eq, hencode], ?_⟩
    rw [List.take_left]

/-- An empty packet in a buffer with room to spare. -/
theorem wire_format_bijective_empty :
    ∃ n written, PacketBuilder.encodeInto (.new 0x10 7 1 0) [] (List.replicate 40 0) =
        some (.ok (n, written)) ∧
      PacketView.decodeChecked (written.take n) = some (.ok ⟨.new 0x10 7 1 0, []⟩) :=
  wire_format_bijective.1 (.new 0x10 7 1 0) [] (List.replicate 40 0) rfl (by decide) (by decide)

end GravitalTalk
