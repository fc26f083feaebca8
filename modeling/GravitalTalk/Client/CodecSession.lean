import GravitalTalk.Session.State

/-!
# Samples out of a session

`codec_session.rs`: a codec on top of a session. `recv_samples` decodes the next
frame and conceals what is missing before it with silence. It hands out one
frame of samples a call, and keeps the others in a queue that is emptied before
the network is read again.

The codec is a trait object there and a parameter here. A session is used by one
reader, and `incoming` is what the calls of `recv_audio` come back with.
-/
namespace GravitalTalk

inductive CodecError
  | bufferTooSmall (needed available : ℕ)
  | invalidParams (text : String)
  | backend (text : String)
  deriving DecidableEq, Repr

/-- `Decoder`: `decode` writes samples into a buffer and says how many of a channel, or fails;
its state may change either way. -/
structure Decoder (δ : Type*) where
  decode : δ → Bytes → List Int16 → Except CodecError (ℕ × List Int16) × δ

structure PcmCodec where
  sampleRate : UInt32
  channels : UInt8
  frameDurationMs : UInt8
  deriving DecidableEq, Repr

namespace PcmCodec

def samplesPerChannel (c : PcmCodec) : ℕ := c.sampleRate.toNat * c.frameDurationMs.toNat / 1000

/-- `i16::from_le_bytes` of the bytes of sample `i`. -/
def sample (bytes : Bytes) (i : ℕ) : Int16 :=
  ((bytes.getD (i * 2) 0).toUInt16 ||| ((bytes.getD (i * 2 + 1) 0).toUInt16 <<< 8)).toInt16

def decode (c : PcmCodec) (bytes : Bytes) (pcm : List Int16) :
    Except CodecError (ℕ × List Int16) :=
  if bytes.length % 2 ≠ 0 then .error (.invalidParams "PCM payload length not even")
  else
    let samples := bytes.length / 2
    if pcm.length < samples then .error (.bufferTooSmall samples pcm.length)
    else .ok (samples / max c.channels.toNat 1,
      (List.range samples).map (sample bytes) ++ pcm.drop samples)

def decoder : Decoder PcmCodec := ⟨fun c bytes pcm => (c.decode bytes pcm, c)⟩

end PcmCodec

inductive CodecSessionError
  | transport (error : TransportError)
  | codec (error : CodecError)
  deriving DecidableEq, Repr

/-- The receiving side of a `CodecSession`. -/
structure CodecSession (δ : Type*) where
  decoder : δ
  channels : UInt8
  frameSamples : ℕ
  lastRxSeq : UInt32
  plcQueue : List (List Int16)
  deriving DecidableEq, Repr

namespace CodecSession

variable {δ : Type*} {D : Decoder δ}

/-- `new` on a codec that was built; the largest sequence stands for no frame so far. -/
def new (decoder : δ) (channels : UInt8) (frameSamples : ℕ) : CodecSession δ :=
  ⟨decoder, channels, frameSamples, 0xFFFFFFFF, []⟩

/-- A frame of silence. -/
def silence (channels : UInt8) (frameSamples : ℕ) : List Int16 :=
  List.replicate (frameSamples * channels.toNat) 0

/-- Decode into a buffer of zeros and cut off what was not produced. -/
def decodeFrame (D : Decoder δ) (channels : UInt8) (frameSamples : ℕ) (decoder : δ)
    (payload : Bytes) : Except CodecError (List Int16) × δ :=
  let expected := frameSamples * channels.toNat
  let r := D.decode decoder payload (List.replicate (max expected 5760) 0)
  (r.1.map fun out => out.2.take (out.1 * channels.toNat), r.2)

/-- A frame of silence stands for a full frame: one of PCM has as many samples. -/
theorem length_decodeFrame_pcm (c : PcmCodec) {payload : Bytes}
    (h : payload.length = c.samplesPerChannel * c.channels.toNat * 2) :
    ∃ pcm, decodeFrame PcmCodec.decoder c.channels c.samplesPerChannel c payload = (.ok pcm, c) ∧
      pcm.length = (silence c.channels c.samplesPerChannel).length := by
  have hwhole : c.samplesPerChannel * c.channels.toNat / max c.channels.toNat 1 *
      c.channels.toNat = c.samplesPerChannel * c.channels.toNat := by
    rcases Nat.eq_zero_or_pos c.channels.toNat with hzero | hpos
    · simp [hzero]
    · rw [max_eq_left hpos, Nat.mul_div_cancel _ hpos]
  have hdecode : c.decode payload
      (List.replicate (max (c.samplesPerChannel * c.channels.toNat) 5760) 0) =
      .ok (c.samplesPerChannel * c.channels.toNat / max c.channels.toNat 1,
        (List.range (c.samplesPerChannel * c.channels.toNat)).map (PcmCodec.sample payload) ++
          (List.replicate (max (c.samplesPerChannel * c.channels.toNat) 5760) 0).drop
            (c.samplesPerChannel * c.channels.toNat)) := by
    unfold PcmCodec.decode
    rw [h, if_neg (by simp), Nat.mul_div_cancel _ two_pos, if_neg (by simp)]
  unfold decodeFrame PcmCodec.decoder
  simp only [hdecode, hwhole, Except.map]
  refine ⟨_, rfl, ?_⟩
  simp [silence]

/-- The gap that `recv_samples` sees before a frame. -/
def gap (prev seq : UInt32) : ℕ := if prev = 0xFFFFFFFF then 0 else (seq - prev).toNat - 1

/-- Last part of `recv_samples`, on the frame that came. -/
def onFrame (D : Decoder δ) (s : CodecSession δ) (frame : Frame) :
    Except CodecSessionError (List Int16) × CodecSession δ :=
  let gap := gap s.lastRxSeq frame.sequence
  let r := decodeFrame D s.channels s.frameSamples s.decoder frame.payload
  let s := { s with lastRxSeq := frame.sequence, decoder := r.2 }
  match r.1 with
  | .error e => (.error (.codec e), s)
  | .ok pcm =>
    if gap = 0 then (.ok pcm, s)
    else
      let q := s.plcQueue ++ List.replicate (min gap 4) (silence s.channels s.frameSamples) ++ [pcm]
      (.ok (q.headD []), { s with plcQueue := q.tail })

/-- `recv_samples`; `none` while it waits for the network. -/
def recvSamples (D : Decoder δ) (s : CodecSession δ) (incoming : List (Except TransportError Frame)) :
    Option (Except CodecSessionError (List Int16) × CodecSession δ × List (Except TransportError Frame)) :=
  match s.plcQueue, incoming with
  | pcm :: q, _ => some (.ok pcm, { s with plcQueue := q }, incoming)
  | [], [] => none
  | [], .error e :: rest => some (.error (.transport e), s, rest)
  | [], .ok frame :: rest =>
    let r := onFrame D s frame
    some (r.1, r.2, rest)

/-- The results of (at most) `n` calls one after the other. -/
def calls (D : Decoder δ) : ℕ → CodecSession δ → List (Except TransportError Frame) →
    List (Except CodecSessionError (List Int16))
  | 0, _, _ => []
  | n + 1, s, incoming =>
    match recvSamples D s incoming with
    | none => []
    | some (result, s', rest) => result :: calls D n s' rest

/-! ## The stream -/

/-- The sequences of the frames with their samples, when all payloads decode in turn. -/
def decodeAll (D : Decoder δ) (channels : UInt8) (frameSamples : ℕ) :
    δ → List Frame → Option (List (UInt32 × List Int16))
  | _, [] => some []
  | decoder, f :: frames =>
    match decodeFrame D channels frameSamples decoder f.payload with
    | (.error _, _) => none
    | (.ok pcm, decoder) =>
      (decodeAll D channels frameSamples decoder frames).map ((f.sequence, pcm) :: ·)

/-- How many sequences are missing between two frames; none before the first. -/
def missing : Option UInt32 → UInt32 → ℕ
  | none, _ => 0
  | some prev, seq => (seq - prev).toNat - 1

/-- Every frame after at most four frames of silence for what is missing before it, where
`mark` says what is remembered of a sequence. -/
def concealedBy (mark : UInt32 → Option UInt32) (silence : List Int16) :
    Option UInt32 → List (UInt32 × List Int16) → List (List Int16)
  | _, [] => []
  | prev, (seq, pcm) :: rest =>
    List.replicate (min (missing prev seq) 4) silence ++
      pcm :: concealedBy mark silence (mark seq) rest

/-- The stream owed to the reader: every frame is measured against the one before it. -/
def concealed (silence : List Int16) (decoded : List (UInt32 × List Int16)) : List (List Int16) :=
  concealedBy some silence none decoded

/-- What `last_rx_seq` tells of the frame before. -/
def known (seq : UInt32) : Option UInt32 := if seq = 0xFFFFFFFF then none else some seq

theorem gap_eq_missing (prev seq : UInt32) : gap prev seq = missing (known prev) seq := by
  unfold gap known
  split_ifs <;> rfl

/-- On an empty queue the call hands out the first of the silences and samples of a frame and
keeps the others. -/
theorem recvSamples_frame {s : CodecSession δ} {f : Frame} {pcm : List Int16} {decoder : δ}
    (rest : List (Except TransportError Frame)) (hq : s.plcQueue = [])
    (hdecode : decodeFrame D s.channels s.frameSamples s.decoder f.payload = (.ok pcm, decoder)) :
    ∃ first q, first :: q = List.replicate (min (gap s.lastRxSeq f.sequence) 4)
        (silence s.channels s.frameSamples) ++ [pcm] ∧
      recvSamples D s (.ok f :: rest) = some (.ok first,
        { s with decoder := decoder, lastRxSeq := f.sequence, plcQueue := q }, rest) := by
  unfold recvSamples onFrame
  simp only [hq, hdecode, List.nil_append]
  by_cases hgap : gap s.lastRxSeq f.sequence = 0
  · refine ⟨pcm, [], by simp [hgap], ?_⟩
    rw [if_pos hgap, ← hq]
  · obtain ⟨k, hk⟩ : ∃ k, min (gap s.lastRxSeq f.sequence) 4 = k + 1 :=
      ⟨min (gap s.lastRxSeq f.sequence) 4 - 1, by omega⟩
    refine ⟨silence s.channels s.frameSamples,
      List.replicate k (silence s.channels s.frameSamples) ++ [pcm], ?_, ?_⟩
    · rw [hk, List.replicate_succ, List.cons_append]
    · rw [if_neg hgap, hk, List.replicate_succ]
      rfl

/-- The calls hand out the queue first, then the stream as the code measures it. -/
theorem calls_eq (n : ℕ) {s : CodecSession δ} {frames : List Frame}
    {decoded : List (UInt32 × List Int16)}
    (h : decodeAll D s.channels s.frameSamples s.decoder frames = some decoded) :
    calls D n s (frames.map .ok) =
      ((s.plcQueue ++ concealedBy known (silence s.channels s.frameSamples)
        (known s.lastRxSeq) decoded).take n).map .ok := by
  induction n generalizing s frames decoded with
  | zero => simp [calls]
  | succ n ih =>
    rw [calls]
    cases hq : s.plcQueue with
    | cons pcm q =>
      have hcall : recvSamples D s (frames.map .ok) =
          some (.ok pcm, { s with plcQueue := q }, frames.map .ok) := by
        unfold recvSamples
        rw [hq]
      rw [hcall]
      simpa using ih (s := { s with plcQueue := q }) h
    | nil =>
      cases frames with
      | nil =>
        obtain rfl : [] = decoded := Option.some.inj h
        simp [recvSamples, hq, concealedBy]
      | cons f frames =>
        rcases hdecode : decodeFrame D s.channels s.frameSamples s.decoder f.payload with
          ⟨r, decoder⟩
        rw [decodeAll, hdecode] at h
        cases r with
        | error e => cases h
        | ok pcm =>
          obtain ⟨rest, hrest, rfl⟩ := Option.map_eq_some_iff.mp h
          obtain ⟨first, q, hsplit, hcall⟩ :=
            recvSamples_frame (frames.map .ok) hq hdecode
          rw [List.map_cons, hcall, concealedBy, ← gap_eq_missing, List.nil_append,
            List.append_cons, ← hsplit]
          simpa using ih (s := { s with
            decoder := decoder, lastRxSeq := f.sequence, plcQueue := q }) hrest

/-! ## Where the marks agree with the stream owed -/

theorem length_concealedBy_le (silence : List Int16) (decoded : List (UInt32 × List Int16))
    {p q : Option UInt32} (hpq : p = none ∨ p = q) :
    (concealedBy known silence p decoded).length ≤ (concealedBy some silence q decoded).length := by
  induction decoded generalizing p q with
  | nil => simp [concealedBy]
  | cons d rest ih =>
    have hrest := ih (p := known d.1) (q := some d.1) (by
      unfold known
      split_ifs <;> simp)
    have hmissing : missing p d.1 ≤ missing q d.1 := by
      rcases hpq with rfl | rfl
      · exact Nat.zero_le _
      · exact le_rfl
    simp only [concealedBy, List.length_append, List.length_replicate, List.length_cons]
    omega

/-- No frame with the largest sequence is followed by a gap. -/
def Unmasked (seqs : List UInt32) : Prop :=
  seqs.IsChain fun prev seq => prev = 0xFFFFFFFF → seq - prev ≤ 1

instance (seqs : List UInt32) : Decidable (Unmasked seqs) :=
  inferInstanceAs (Decidable (List.IsChain _ _))

theorem missing_eq_zero_iff (prev seq : UInt32) : missing (some prev) seq = 0 ↔ seq - prev ≤ 1 := by
  rw [missing, Nat.sub_eq_zero_iff_le, UInt32.le_iff_toNat_le]
  rfl

theorem concealedBy_known_iff (silence : List Int16) (decoded : List (UInt32 × List Int16))
    (prev : UInt32) :
    concealedBy known silence (known prev) decoded = concealedBy some silence (some prev) decoded ↔
      Unmasked (prev :: decoded.map Prod.fst) := by
  induction decoded generalizing prev with
  | nil => simp [concealedBy, Unmasked]
  | cons d rest ih =>
    rw [List.map_cons, Unmasked, List.isChain_cons_cons]
    by_cases hlast : prev = 0xFFFFFFFF
    · subst hlast
      have hknown : known 0xFFFFFFFF = none := rfl
      by_cases hgap : d.1 - 0xFFFFFFFF ≤ 1
      · have hzero := (missing_eq_zero_iff 0xFFFFFFFF d.1).mpr hgap
        have hfirst : missing none d.1 = 0 := rfl
        rw [hknown, concealedBy, concealedBy, hfirst, hzero, List.append_cancel_left_eq,
          List.cons.injEq, and_iff_right rfl, ih d.1]
        exact ⟨fun h => ⟨fun _ => hgap, h⟩, fun h => h.2⟩
      · -- The silences for the gap are in one of the two lists only.
        constructor
        · intro h
          have hshort := length_concealedBy_le silence rest (p := known d.1) (q := some d.1) (by
            unfold known
            split_ifs <;> simp)
          have hpos := mt (missing_eq_zero_iff 0xFFFFFFFF d.1).mp hgap
          have hlength := congrArg List.length h
          simp only [concealedBy, hknown, missing, List.length_append, List.length_replicate,
            List.length_cons] at hlength hpos
          omega
        · intro h
          exact absurd (h.1 rfl) hgap
    · have hknown : known prev = some prev := if_neg hlast
      rw [hknown, concealedBy, concealedBy, List.append_cancel_left_eq, List.cons.injEq,
        and_iff_right rfl, ih d.1]
      exact ⟨fun h => ⟨fun heq => absurd heq hlast, h⟩, fun h => h.2⟩

theorem concealed_iff (silence : List Int16) (decoded : List (UInt32 × List Int16)) :
    concealedBy known silence none decoded = concealed silence decoded ↔
      Unmasked (decoded.map Prod.fst) := by
  unfold concealed
  cases decoded with
  | nil => simp [concealedBy, Unmasked]
  | cons d rest =>
    rw [concealedBy, concealedBy, List.append_cancel_left_eq, List.cons.injEq,
      and_iff_right rfl, concealedBy_known_iff]
    rfl

theorem decodeAll_sequences {channels : UInt8} {frameSamples : ℕ} {decoder : δ}
    {frames : List Frame} {decoded : List (UInt32 × List Int16)}
    (h : decodeAll D channels frameSamples decoder frames = some decoded) :
    decoded.map Prod.fst = frames.map Frame.sequence := by
  induction frames generalizing decoder decoded with
  | nil =>
    obtain rfl : [] = decoded := Option.some.inj h
    rfl
  | cons f frames ih =>
    rcases hdecode : decodeFrame D channels frameSamples decoder f.payload with ⟨r, decoder'⟩
    rw [decodeAll, hdecode] at h
    cases r with
    | error e => cases h
    | ok pcm =>
      obtain ⟨rest, hrest, rfl⟩ := Option.map_eq_some_iff.mp h
      simp [ih hrest]

/-- The calls on a new session hand out the stream owed, in order and to its end, exactly when
no frame with the largest sequence is followed by a gap. -/
theorem stream_concealed {decoder : δ} {channels : UInt8} {frameSamples : ℕ}
    {frames : List Frame} {decoded : List (UInt32 × List Int16)}
    (h : decodeAll D channels frameSamples decoder frames = some decoded) :
    (∀ n, calls D n (new decoder channels frameSamples) (frames.map .ok) =
      ((concealed (silence channels frameSamples) decoded).take n).map .ok) ↔
      Unmasked (frames.map Frame.sequence) := by
  have hcalls : ∀ n, calls D n (new decoder channels frameSamples) (frames.map .ok) =
      ((concealedBy known (silence channels frameSamples) none decoded).take n).map
        .ok := fun n => calls_eq n h
  rw [← decodeAll_sequences h, ← concealed_iff (silence channels frameSamples)]
  constructor
  · intro hall
    refine List.ext_getElem? fun i => ?_
    have hcall := (hcalls (i + 1)).symm.trans (hall (i + 1))
    have htake := List.map_injective_iff.mpr (fun _ _ => Except.ok.inj) hcall
    have hentry := congrArg (fun l => l[i]?) htake
    simpa only [List.getElem?_take_of_lt (Nat.lt_succ_self i)] using hentry
  · intro heq n
    rw [hcalls n, ← heq]

/-- A frame of one sample in PCM. -/
def pcmFrame (seq : UInt32) : Frame := ⟨seq, 0, [7, 0]⟩

/-- The frame before the gap has the largest sequence, and sequence 0 is lost: its silence is
missing in what the calls hand out. -/
theorem gap_hidden_by_sentinel :
    decodeAll PcmCodec.decoder 1 1 ⟨1000, 1, 1⟩ [pcmFrame 0xFFFFFFFF, pcmFrame 1] =
      some [(0xFFFFFFFF, [7]), (1, [7])] ∧
    calls PcmCodec.decoder 3 (new ⟨1000, 1, 1⟩ 1 1)
        ([pcmFrame 0xFFFFFFFF, pcmFrame 1].map .ok) = [.ok [7], .ok [7]] ∧
    concealed (silence 1 1) [(0xFFFFFFFF, [7]), (1, [7])] = [[7], [0], [7]] := by
  decide +kernel

/-- Two frames of PCM with sequences 5 and 8. -/
theorem stream_concealed_pcm :
    decodeAll PcmCodec.decoder 1 1 ⟨1000, 1, 1⟩ [pcmFrame 5, pcmFrame 8] =
      some [(5, [7]), (8, [7])] ∧
    ((∀ n, calls PcmCodec.decoder n (new ⟨1000, 1, 1⟩ 1 1) ([pcmFrame 5, pcmFrame 8].map .ok) =
      ((concealed (silence 1 1) [(5, [7]), (8, [7])]).take n).map .ok) ↔ Unmasked [5, 8]) := by
  have hdecode : decodeAll PcmCodec.decoder 1 1 ⟨1000, 1, 1⟩ [pcmFrame 5, pcmFrame 8] =
      some [(5, [7]), (8, [7])] := by decide +kernel
  exact ⟨hdecode, stream_concealed hdecode⟩

end CodecSession
end GravitalTalk
