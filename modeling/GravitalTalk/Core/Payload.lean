import GravitalTalk.Core.Message
import GravitalTalk.Lib.Layout

/-!
# Payloads in a buffer

`encode` and `decode` of the structured payloads in `message.rs` and of
`FloorPayload` in `floor.rs`, on the buffers they are given: every field is
written and read at its own offset, and an access outside the buffer would
panic. `none` is the panic.
-/
namespace GravitalTalk

/-- `encode` and `decode` of one payload type. -/
structure Codec (α : Type) where
  size : ℕ
  encode : α → Bytes → Option (Except Error Bytes)
  decode : Bytes → Option (Except Error α)

namespace Codec

variable {α : Type}

/-- The length check of every `encode`, and the stores behind it. -/
def store (size : ℕ) (l : Layout) (buf : Bytes) : Option (Except Error Bytes) :=
  if buf.length < size then some (.error .bufferTooSmall) else l.writeTo buf |>.map .ok

/-- The length check of every `decode`, and the loads behind it. -/
def load (size : ℕ) (buf : Bytes) (value : Option (Except Error α)) : Option (Except Error α) :=
  if buf.length < size then some (.error .malformedPayload) else value

/-- `u32::from_be_bytes` of four bytes of the buffer. -/
def readU32 (buf : Bytes) (off : ℕ) : Option UInt32 := (readAt buf off 4).map fromBe32

/-- A fixed-size array copied out of the buffer. -/
def readArray (n : ℕ) (buf : Bytes) (off : ℕ) : Option (Vector UInt8 n) :=
  (readAt buf off n).map (fixed n)

/-- The two functions of a codec are exact inverses on the first `size` bytes, for the values
that meet `Valid`, and never leave the buffer. -/
structure Exact (c : Codec α) (Valid : α → Prop) : Prop where
  encodes : ∀ v buf, c.size ≤ buf.length → ∃ front, front.length = c.size ∧
    c.encode v buf = some (.ok (front ++ buf.drop c.size)) ∧
    (Valid v → c.decode (front ++ buf.drop c.size) = some (.ok v))
  reproduces : ∀ buf v, c.size ≤ buf.length → c.decode buf = some (.ok v) →
    ∀ out, c.size ≤ out.length →
      c.encode v out = some (.ok (buf.take c.size ++ out.drop c.size))
  rejects : ∀ buf, buf.length < c.size → ∃ e, c.decode buf = some (.error e)
  inBounds : ∀ buf v, c.decode buf ≠ none ∧ c.encode v buf ≠ none

variable {size off : ℕ} {buf : Bytes}

theorem load_of_le (h : size ≤ buf.length) {value : Option (Except Error α)} :
    load size buf value = value :=
  if_neg (by omega)

theorem readArray_of_le {n : ℕ} (h : off + n ≤ buf.length) :
    readArray n buf off = some (fixed n (slice buf off n)) := by
  rw [readArray, readAt_of_le h, Option.map_some]

theorem readU32_of_le (h : off + 4 ≤ buf.length) :
    readU32 buf off = some (fromBe32 (slice buf off 4)) := by
  rw [readU32, readAt_of_le h, Option.map_some]

/-- The fields are what `buf` has at their offsets. -/
def Shows (l : Layout) (buf : Bytes) : Prop :=
  ∀ field ∈ l, field.2 = slice buf field.1 field.2.length

/-- Adjacent fields that fill the record make a codec exact, when `decode` accepts a value
exactly if the buffer shows its fields. -/
theorem exact_of_layout {c : Codec α} {Valid : α → Prop} {layout : α → Layout}
    (hadjacent : ∀ v, Layout.Adjacent 0 (layout v))
    (hsize : ∀ v, (layout v).bytes.length = c.size)
    (hencode : ∀ v buf, c.encode v buf = store c.size (layout v) buf)
    (hdecode : ∀ buf v, c.size ≤ buf.length →
      (c.decode buf = some (.ok v) ↔ Valid v ∧ Shows (layout v) buf))
    (hshort : ∀ buf, buf.length < c.size → c.decode buf = some (.error .malformedPayload))
    (hlong : ∀ buf, c.size ≤ buf.length → c.decode buf ≠ none) : c.Exact Valid := by
  have hstore (v : α) (buf : Bytes) (hbuf : c.size ≤ buf.length) :
      c.encode v buf = some (.ok ((layout v).bytes ++ buf.drop c.size)) := by
    have hfit : 0 + (layout v).bytes.length ≤ buf.length := by
      rw [hsize]
      omega
    rw [hencode, store, if_neg (by omega), Layout.writeTo_adjacent (hadjacent v) hfit, hsize]
    simp
  constructor
  · intro v buf hbuf
    refine ⟨(layout v).bytes, hsize v, hstore v buf hbuf, fun hvalid => ?_⟩
    have hlen : c.size ≤ ((layout v).bytes ++ buf.drop c.size).length := by
      rw [List.length_append, hsize]
      omega
    refine (hdecode _ v hlen).mpr ⟨hvalid, fun field hf => ?_⟩
    simpa using (Layout.slice_of_mem (hadjacent v) hf [] (buf.drop c.size) rfl).symm
  · intro buf v hbuf hv out hout
    obtain ⟨-, hshows⟩ := (hdecode buf v hbuf).mp hv
    have hfront := Layout.bytes_of_slices (hadjacent v) hshows
    rw [hsize, slice, List.drop_zero] at hfront
    rw [hstore v out hout, hfront]
  · intro buf hbuf
    exact ⟨_, hshort buf hbuf⟩
  · intro buf v
    constructor
    · by_cases hbuf : buf.length < c.size
      · rw [hshort buf hbuf]
        exact Option.some_ne_none _
      · exact hlong buf (by omega)
    · by_cases hbuf : buf.length < c.size
      · rw [hencode, store, if_pos hbuf]
        exact Option.some_ne_none _
      · rw [hstore v buf (by omega)]
        exact Option.some_ne_none _

/-- The same where `decode` is a function of the model of `message.rs` that accepts every value. -/
theorem exact_of_decode {c : Codec α} {layout : α → Layout} {decode : Bytes → Except Error α}
    (hadjacent : ∀ v, Layout.Adjacent 0 (layout v))
    (hsize : ∀ v, (layout v).bytes.length = c.size)
    (hencode : ∀ v buf, c.encode v buf = store c.size (layout v) buf)
    (htotal : ∀ buf, c.decode buf = some (decode buf))
    (hshort : ∀ buf, buf.length < c.size → decode buf = .error .malformedPayload)
    (hlong : ∀ buf v, c.size ≤ buf.length → (decode buf = .ok v ↔ Shows (layout v) buf)) :
    c.Exact fun _ => True := by
  refine exact_of_layout hadjacent hsize hencode ?_ ?_ ?_
  · intro buf v hbuf
    rw [htotal, Option.some_inj, true_and]
    exact hlong buf v hbuf
  · intro buf hbuf
    rw [htotal, hshort buf hbuf]
  · intro buf _
    rw [htotal]
    exact Option.some_ne_none _

end Codec

open Codec

namespace ClientHello

def layout (m : ClientHello) : Layout :=
  [(0, m.ephemeralPublicKey.toList), (32, m.clientNonce.toList), (64, [m.protocolVersion]),
    (65, [m.codecPreferred]), (66, be32 m.sampleRate), (70, [m.channels]),
    (71, [m.frameDurationMs]), (72, be32 m.maxBitrate), (76, be32 m.capabilityFlags)]

def codec : Codec ClientHello where
  size := size
  encode m buf := store size m.layout buf
  decode buf := load size buf do
    let ephemeralPublicKey ← readArray 32 buf 0
    let clientNonce ← readArray 32 buf 32
    return .ok
      { ephemeralPublicKey, clientNonce
        protocolVersion := ← readByte buf 64
        codecPreferred := ← readByte buf 65
        sampleRate := ← readU32 buf 66
        channels := ← readByte buf 70
        frameDurationMs := ← readByte buf 71
        maxBitrate := ← readU32 buf 72
        capabilityFlags := ← readU32 buf 76 }

theorem bytes_layout (m : ClientHello) : m.layout.bytes = m.encode := by
  simp [layout, encode]

theorem codec_decode (buf : Bytes) : codec.decode buf = some (decode buf) := by
  by_cases h : buf.length < size
  · rw [decode, if_pos h]
    exact if_pos h
  · have hlen : 80 ≤ buf.length := Nat.not_lt.mp h
    rw [decode, if_neg h]
    simp (disch := omega) only [codec, load_of_le, size, readArray_of_le, readByte_of_lt,
      readU32_of_le, Option.bind_eq_bind, Option.bind_some]
    rfl

theorem codec_exact : codec.Exact fun _ => True := by
  refine exact_of_decode (fun m => ?_) (fun m => ?_) (fun _ _ => rfl) codec_decode
    (fun _ h => if_pos h) fun buf m h => ?_
  · simp [layout]
  · simp [layout, codec, size]
  · have hlen : 80 ≤ buf.length := h
    have hlong : ¬ buf.length < size := Nat.not_lt.mpr h
    cases m
    rw [decode, if_neg hlong]
    simp (disch := omega) only [Except.ok.injEq, ClientHello.mk.injEq,
      fixed_slice_eq, getD_eq_iff, fromBe32_slice_eq]
    simp [layout, Shows]

end ClientHello

namespace ServerHello

def layout (m : ServerHello) : Layout :=
  [(0, m.ephemeralPublicKey.toList), (32, m.serverNonce.toList), (64, be32 m.sessionId),
    (68, [m.protocolVersion]), (69, [m.codecAccepted]), (70, be32 m.sampleRate),
    (74, [m.channels]), (75, [m.frameDurationMs]), (76, be32 m.maxBitrate),
    (80, be32 m.capabilityFlags)]

def codec : Codec ServerHello where
  size := size
  encode m buf := store size m.layout buf
  decode buf := load size buf do
    let ephemeralPublicKey ← readArray 32 buf 0
    let serverNonce ← readArray 32 buf 32
    return .ok
      { ephemeralPublicKey, serverNonce
        sessionId := ← readU32 buf 64
        protocolVersion := ← readByte buf 68
        codecAccepted := ← readByte buf 69
        sampleRate := ← readU32 buf 70
        channels := ← readByte buf 74
        frameDurationMs := ← readByte buf 75
        maxBitrate := ← readU32 buf 76
        capabilityFlags := ← readU32 buf 80 }

theorem bytes_layout (m : ServerHello) : m.layout.bytes = m.encode := by
  simp [layout, encode]

theorem codec_decode (buf : Bytes) : codec.decode buf = some (decode buf) := by
  by_cases h : buf.length < size
  · rw [decode, if_pos h]
    exact if_pos h
  · have hlen : 84 ≤ buf.length := Nat.not_lt.mp h
    rw [decode, if_neg h]
    simp (disch := omega) only [codec, load_of_le, size, readArray_of_le, readByte_of_lt,
      readU32_of_le, Option.bind_eq_bind, Option.bind_some]
    rfl

theorem codec_exact : codec.Exact fun _ => True := by
  refine exact_of_decode (fun m => ?_) (fun m => ?_) (fun _ _ => rfl) codec_decode
    (fun _ h => if_pos h) fun buf m h => ?_
  · simp [layout]
  · simp [layout, codec, size]
  · have hlen : 84 ≤ buf.length := h
    have hlong : ¬ buf.length < size := Nat.not_lt.mpr h
    cases m
    rw [decode, if_neg hlong]
    simp (disch := omega) only [Except.ok.injEq, ServerHello.mk.injEq,
      fixed_slice_eq, getD_eq_iff, fromBe32_slice_eq]
    simp [layout, Shows]

end ServerHello

namespace TagMsg

/-- `KeyExchangeMsg` and `SessionConfirm` are written alike. -/
def layout (m : TagMsg) : Layout := [(0, be32 m.sessionId), (4, m.authTag.toList)]

def codec : Codec TagMsg where
  size := size
  encode m buf := store size m.layout buf
  decode buf := load size buf do
    let authTag ← readArray 16 buf 4
    return .ok { sessionId := ← readU32 buf 0, authTag }

theorem bytes_layout (m : TagMsg) : m.layout.bytes = m.encode := by
  simp [layout, encode]

theorem codec_decode (buf : Bytes) : codec.decode buf = some (decode buf) := by
  by_cases h : buf.length < size
  · rw [decode, if_pos h]
    exact if_pos h
  · have hlen : 20 ≤ buf.length := Nat.not_lt.mp h
    rw [decode, if_neg h]
    simp (disch := omega) only [codec, load_of_le, size, readArray_of_le, readU32_of_le,
      Option.bind_eq_bind, Option.bind_some]
    rfl

theorem codec_exact : codec.Exact fun _ => True := by
  refine exact_of_decode (fun m => ?_) (fun m => ?_) (fun _ _ => rfl) codec_decode
    (fun _ h => if_pos h) fun buf m h => ?_
  · simp [layout]
  · simp [layout, codec, size]
  · have hlen : 20 ≤ buf.length := h
    have hlong : ¬ buf.length < size := Nat.not_lt.mpr h
    cases m
    rw [decode, if_neg hlong]
    simp (disch := omega) only [Except.ok.injEq, TagMsg.mk.injEq,
      fixed_slice_eq, fromBe32_slice_eq]
    simp [layout, Shows]

end TagMsg

def KeyExchangeMsg.codec : Codec KeyExchangeMsg := TagMsg.codec
def SessionConfirm.codec : Codec SessionConfirm := TagMsg.codec

namespace NoiseHello1

def layout (m : NoiseHello1) : Layout :=
  [(0, [m.protocolVersion]), (1, [m.codecPreferred]), (2, be32 m.sampleRate),
    (6, [m.channels]), (7, [m.frameDurationMs]), (8, be32 m.maxBitrate),
    (12, be32 m.capabilityFlags), (16, m.clientNonce.toList)]

def codec : Codec NoiseHello1 where
  size := size
  encode m buf := store size m.layout buf
  decode buf := load size buf do
    let clientNonce ← readArray 32 buf 16
    return .ok
      { protocolVersion := ← readByte buf 0
        codecPreferred := ← readByte buf 1
        sampleRate := ← readU32 buf 2
        channels := ← readByte buf 6
        frameDurationMs := ← readByte buf 7
        maxBitrate := ← readU32 buf 8
        capabilityFlags := ← readU32 buf 12
        clientNonce }

theorem bytes_layout (m : NoiseHello1) : m.layout.bytes = m.encode := by
  simp [layout, encode]

theorem codec_decode (buf : Bytes) : codec.decode buf = some (decode buf) := by
  by_cases h : buf.length < size
  · rw [decode, if_pos h]
    exact if_pos h
  · have hlen : 48 ≤ buf.length := Nat.not_lt.mp h
    rw [decode, if_neg h]
    simp (disch := omega) only [codec, load_of_le, size, readArray_of_le, readByte_of_lt,
      readU32_of_le, Option.bind_eq_bind, Option.bind_some]
    rfl

theorem codec_exact : codec.Exact fun _ => True := by
  refine exact_of_decode (fun m => ?_) (fun m => ?_) (fun _ _ => rfl) codec_decode
    (fun _ h => if_pos h) fun buf m h => ?_
  · simp [layout]
  · simp [layout, codec, size]
  · have hlen : 48 ≤ buf.length := h
    have hlong : ¬ buf.length < size := Nat.not_lt.mpr h
    cases m
    rw [decode, if_neg hlong]
    simp (disch := omega) only [Except.ok.injEq, NoiseHello1.mk.injEq,
      fixed_slice_eq, getD_eq_iff, fromBe32_slice_eq]
    simp [layout, Shows]

end NoiseHello1

namespace NoiseHello2

def layout (m : NoiseHello2) : Layout :=
  [(0, be32 m.sessionId), (4, [m.protocolVersion]), (5, [m.codecAccepted]),
    (6, be32 m.sampleRate), (10, [m.channels]), (11, [m.frameDurationMs]),
    (12, be32 m.maxBitrate), (16, be32 m.capabilityFlags), (20, m.serverNonce.toList)]

def codec : Codec NoiseHello2 where
  size := size
  encode m buf := store size m.layout buf
  decode buf := load size buf do
    let serverNonce ← readArray 32 buf 20
    return .ok
      { sessionId := ← readU32 buf 0
        protocolVersion := ← readByte buf 4
        codecAccepted := ← readByte buf 5
        sampleRate := ← readU32 buf 6
        channels := ← readByte buf 10
        frameDurationMs := ← readByte buf 11
        maxBitrate := ← readU32 buf 12
        capabilityFlags := ← readU32 buf 16
        serverNonce }

theorem bytes_layout (m : NoiseHello2) : m.layout.bytes = m.encode := by
  simp [layout, encode]

theorem codec_decode (buf : Bytes) : codec.decode buf = some (decode buf) := by
  by_cases h : buf.length < size
  · rw [decode, if_pos h]
    exact if_pos h
  · have hlen : 52 ≤ buf.length := Nat.not_lt.mp h
    rw [decode, if_neg h]
    simp (disch := omega) only [codec, load_of_le, size, readArray_of_le, readByte_of_lt,
      readU32_of_le, Option.bind_eq_bind, Option.bind_some]
    rfl

theorem codec_exact : codec.Exact fun _ => True := by
  refine exact_of_decode (fun m => ?_) (fun m => ?_) (fun _ _ => rfl) codec_decode
    (fun _ h => if_pos h) fun buf m h => ?_
  · simp [layout]
  · simp [layout, codec, size]
  · have hlen : 52 ≤ buf.length := h
    have hlong : ¬ buf.length < size := Nat.not_lt.mpr h
    cases m
    rw [decode, if_neg hlong]
    simp (disch := omega) only [Except.ok.injEq, NoiseHello2.mk.injEq,
      fixed_slice_eq, getD_eq_iff, fromBe32_slice_eq]
    simp [layout, Shows]

end NoiseHello2

/-- The front of an `AudioFec` payload (0x12). -/
structure FecHeader where
  seqBase : UInt32
  window : UInt8
  dataLen : UInt32
  deriving DecidableEq, Repr

namespace FecHeader

def size : ℕ := 9

def layout (m : FecHeader) : Layout :=
  [(0, be32 m.seqBase), (4, [m.window]), (5, be32 m.dataLen)]

def codec : Codec FecHeader where
  size := size
  encode m buf := store size m.layout buf
  decode buf := load size buf do
    let window ← readByte buf 4
    if window = 0 then return .error .malformedPayload
    else return .ok { seqBase := ← readU32 buf 0, window, dataLen := ← readU32 buf 5 }

theorem codec_exact : codec.Exact fun m => 1 ≤ m.window := by
  refine exact_of_layout (fun m => ?_) (fun m => ?_) (fun _ _ => rfl) (fun buf m h => ?_)
    (fun _ h => if_pos h) fun buf h => ?_
  · simp [layout]
  · simp [layout, codec, size]
  · have hlen : 9 ≤ buf.length := h
    have hpos (w : UInt8) : 1 ≤ w ↔ w ≠ 0 := by
      rw [UInt8.le_iff_toNat_le, ne_eq, ← UInt8.toNat_inj]
      change 1 ≤ w.toNat ↔ ¬ w.toNat = 0
      omega
    obtain ⟨seqBase, window, dataLen⟩ := m
    simp (disch := omega) only [codec, load_of_le, size, Option.bind_eq_bind, readByte_of_lt,
      readU32_of_le, Option.bind_some]
    constructor
    · intro hok
      split_ifs at hok with hzero
      · cases hok
      · injection hok with hok
        injection hok with hok
        injection hok with hbase hw hdata
        rw [hw] at hzero
        rw [fromBe32_slice_eq (by omega)] at hbase hdata
        rw [getD_eq_iff (by omega)] at hw
        exact ⟨(hpos window).mpr hzero, by simpa [layout, Shows] using ⟨hbase, hw, hdata⟩⟩
    · rintro ⟨hone, hshows⟩
      obtain ⟨hbase, hw, hdata⟩ :
          be32 seqBase = slice buf 0 4 ∧ [window] = slice buf 4 1 ∧ be32 dataLen = slice buf 5 4 := by
        simpa [layout, Shows] using hshows
      rw [(getD_eq_iff (by omega)).mpr hw, (fromBe32_slice_eq (by omega)).mpr hbase,
        (fromBe32_slice_eq (by omega)).mpr hdata, if_neg ((hpos window).mp hone)]
      rfl
  · have hlen : 9 ≤ buf.length := h
    simp (disch := omega) only [codec, load_of_le, size, readByte_of_lt, readU32_of_le,
      Option.bind_eq_bind, Option.bind_some]
    split_ifs
    · exact Option.some_ne_none _
    · exact Option.some_ne_none _

end FecHeader

/-- The payload of the floor messages. -/
structure FloorPayload where
  ssrc : UInt32
  deriving DecidableEq, Repr

namespace FloorPayload

def size : ℕ := 4

def layout (m : FloorPayload) : Layout := [(0, be32 m.ssrc)]

def codec : Codec FloorPayload where
  size := size
  encode m buf := store size m.layout buf
  decode buf := load size buf do return .ok { ssrc := ← readU32 buf 0 }

theorem codec_exact : codec.Exact fun _ => True := by
  refine exact_of_layout (fun m => ?_) (fun m => ?_) (fun _ _ => rfl) (fun buf m h => ?_)
    (fun _ h => if_pos h) fun buf h => ?_
  · simp [layout]
  · simp [layout, codec, size]
  · have hlen : 4 ≤ buf.length := h
    cases m
    simp (disch := omega) [codec, load_of_le, size, readU32_of_le, fromBe32_slice_eq, layout, Shows]
  · have hlen : 4 ≤ buf.length := h
    simp (disch := omega) [codec, load_of_le, size, readU32_of_le]

end FloorPayload

/-- Every layout accounts for every byte: what was encoded decodes to itself, what was decoded
encodes to the same bytes, and nothing else is touched. -/
theorem payloads_exact :
    ClientHello.codec.Exact (fun _ => True) ∧ ServerHello.codec.Exact (fun _ => True) ∧
      KeyExchangeMsg.codec.Exact (fun _ => True) ∧ SessionConfirm.codec.Exact (fun _ => True) ∧
      NoiseHello1.codec.Exact (fun _ => True) ∧ NoiseHello2.codec.Exact (fun _ => True) ∧
      FecHeader.codec.Exact (fun m => 1 ≤ m.window) ∧ FloorPayload.codec.Exact (fun _ => True) :=
  ⟨ClientHello.codec_exact, ServerHello.codec_exact, TagMsg.codec_exact, TagMsg.codec_exact,
    NoiseHello1.codec_exact, NoiseHello2.codec_exact, FecHeader.codec_exact,
    FloorPayload.codec_exact⟩

end GravitalTalk
