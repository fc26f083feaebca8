import GravitalTalk.Session.Speaker
import GravitalTalk.Session.Numbering
import GravitalTalk.Session.Loops

/-!
# Packets that do not fit

`send_audio_to` takes the number of a frame and feeds the parity encoder before the
packet builder looks at the size. A parity has one byte more in front than a frame,
so the frames of a group can fit where its parity does not.
-/
namespace GravitalTalk
namespace Session

open Machine

variable {cfg : Config} {C : Crypto} {env : Env} {s t : Session cfg} {sid seq : UInt32}
  {plain payload : Bytes} {peer : SocketAddr} {targets : List SocketAddr}

/-! ## Sizes -/

theorem encode_fits (h : Fits cfg payload.length) (header : PacketHeader) :
    PacketBuilder.encode header payload cfg.mtu = .ok (PacketBuilder.bytes header payload) := by
  unfold PacketBuilder.encode
  rw [if_neg (Nat.not_lt.mpr h.1), if_neg (Nat.not_lt.mpr h.2)]

theorem encode_oversize (h : ¬ Fits cfg payload.length) (header : PacketHeader) :
    ∃ e, PacketBuilder.encode header payload cfg.mtu = .error e := by
  unfold PacketBuilder.encode
  split_ifs with hp hc
  · exact ⟨_, rfl⟩
  · exact ⟨_, rfl⟩
  · exact absurd ⟨Nat.not_lt.mp hp, Nat.not_lt.mp hc⟩ h

/-- What `n` bytes for `peer` become: with a key, the tag is added. -/
def wireLength (s : Session cfg) (peer : SocketAddr) (n : ℕ) : ℕ :=
  if (s.peers.encKeyFor peer).isSome then n + tagSize else n

theorem wireLength_keyed (h : (s.peers.encKeyFor peer).isSome = true) (n : ℕ) :
    s.wireLength peer n = n + tagSize := if_pos h

/-- A body sealed for a packet of this configuration. -/
theorem encode_sealed_iff (cfg : Config) (hC : C.RoundTrip) (hseals : C.Seals) (key : SessionKey)
    (nonce : Bytes) (header : PacketHeader) (plain : Bytes) :
    (∃ body raw, C.encryptInPlace key nonce header.encode plain = .ok body ∧
      PacketBuilder.encode header body cfg.mtu = .ok raw) ↔ Fits cfg (plain.length + tagSize) := by
  constructor
  · rintro ⟨body, raw, hbody, hraw⟩
    by_contra hno
    rw [← hC.length_encryptInPlace hbody] at hno
    obtain ⟨e, he⟩ := encode_oversize hno header
    rw [he] at hraw
    cases hraw
  · intro hfits
    obtain ⟨body, hseal⟩ := hseals key nonce header.encode plain hfits.1
    have hbody : C.encryptInPlace key nonce header.encode plain = .ok body := by
      unfold Crypto.encryptInPlace
      rw [hseal]
    rw [← hC.length_encryptInPlace hbody] at hfits
    exact ⟨body, _, hbody, encode_fits hfits header⟩

/-- There is a packet for a target exactly when the frame fits into it. -/
theorem audioPacket_isOk_iff (hC : C.RoundTrip) (hseals : C.Seals) (env : Env)
    (s : Session cfg) (sid seq : UInt32) (plain : Bytes) (peer : SocketAddr) :
    (s.audioPacket C env sid seq plain peer).isOk = true ↔
      Fits cfg (s.wireLength peer plain.length) := by
  unfold audioPacket wireLength
  dsimp only
  cases hkey : s.peers.encKeyFor peer with
  | some key =>
    have hsealed := encode_sealed_iff cfg hC hseals key (makeNonce seq sid)
      (sealedHeader env .audioFrame sid seq) plain
    rw [Option.isSome_some, if_pos rfl, ← hsealed]
    dsimp only
    cases hbody : C.encryptInPlace key (makeNonce seq sid)
        (sealedHeader env .audioFrame sid seq).encode plain with
    | error e => simp [Except.isOk, Except.toBool]
    | ok body =>
      cases hraw : PacketBuilder.encode (sealedHeader env .audioFrame sid seq) body cfg.mtu with
      | error e => simp [hraw, Except.isOk, Except.toBool]
      | ok raw => simp [hraw, Except.isOk, Except.toBool]
  | none =>
    rw [Option.isSome_none, if_neg Bool.false_ne_true]
    dsimp only
    by_cases hfits : Fits cfg plain.length
    · rw [encode_fits hfits]
      simp [hfits, Except.isOk, Except.toBool]
    · obtain ⟨e, he⟩ := encode_oversize hfits
        { sealedHeader env .audioFrame sid seq with flags := .empty }
      rw [he]
      simp [hfits, Except.isOk, Except.toBool]

theorem audioPacket_congr (h : t.peers = s.peers) (peer : SocketAddr) :
    t.audioPacket C env sid seq plain peer = s.audioPacket C env sid seq plain peer :=
  congrFun (nextPacket_congr h) peer

/-! ## A frame that does not fit -/

/-- With more than one target, only a packet that cannot be made ends the loop. -/
theorem sendFrames_protocol_iff (C : Crypto) (env : Env) (sid seq : UInt32) (plain : Bytes)
    (parity : Option FecParity) (targets : List SocketAddr) (total : ℕ) (s : Session cfg) :
    (∃ e, (s.sendFrames C env sid seq plain parity false targets total).1 =
      .error (.protocol e)) ↔
        ¬ ∀ peer ∈ targets, (s.audioPacket C env sid seq plain peer).isOk = true := by
  induction targets generalizing total s with
  | nil => simp [sendFrames]
  | cons peer rest ih =>
    obtain ⟨log, hlog⟩ := noteAudio_eq env sid seq plain peer s
    rw [sendFrames, hlog, List.forall_mem_cons]
    cases hraw : s.audioPacket C env sid seq plain peer with
    | error e => simp [Except.isOk, Except.toBool]
    | ok raw =>
      have hpeer : (Except.ok raw : Except Error Bytes).isOk = true := rfl
      rw [and_iff_right hpeer]
      dsimp only [transmit]
      let sent : Session cfg :=
        { s with traffic := { s.traffic with sealed := log, sent := (peer, raw) :: s.traffic.sent } }
      have hrest (u : Session cfg) (total : ℕ) (hu : u.peers = s.peers) :
          (∃ e, ((u.followUp C env sid parity peer).sendFrames C env sid seq plain parity false
            rest total).1 = .error (.protocol e)) ↔
          ¬ ∀ p ∈ rest, (s.audioPacket C env sid seq plain p).isOk = true := by
        have hpeers := (sendsOnly_followUp C env sid parity peer u).peers.trans hu
        rw [ih]
        simp only [audioPacket_congr hpeers]
      cases env.sendTo peer raw with
      | ok n => exact hrest (sent.noteFramed peer plain) (total + n) rfl
      | error e => exact hrest sent total rfl

/-- A lone target also gets the errors of its transport. -/
theorem sendFrames_alone_iff (C : Crypto) (env : Env) (sid seq : UInt32) (plain : Bytes)
    (parity : Option FecParity) (peer : SocketAddr) (total : ℕ) (s : Session cfg) :
    (∃ e, (s.sendFrames C env sid seq plain parity true [peer] total).1 =
      .error (.protocol e)) ↔
        ¬ ((s.audioPacket C env sid seq plain peer).isOk = true ∧
          ∀ raw e, s.audioPacket C env sid seq plain peer = .ok raw →
            env.sendTo peer raw ≠ .error (.protocol e)) := by
  rw [sendFrames]
  cases hraw : s.audioPacket C env sid seq plain peer with
  | error e => simp [Except.isOk, Except.toBool]
  | ok raw =>
    dsimp only [transmit]
    cases hsend : env.sendTo peer raw with
    | ok n => simp [sendFrames, Except.isOk, Except.toBool, hsend]
    | error e => simp [Except.isOk, Except.toBool, hsend]

/-- The next frame fits into the packet of every target. If there is one target only, its
transport has no protocol errors of its own. -/
structure Accommodates (C : Crypto) (env : Env) (payload : Bytes) (s : Session cfg) : Prop where
  fits : ∀ peer ∈ s.peers.book.all, Fits cfg (s.wireLength peer (4 + payload.length))
  answers : ∀ peer, s.peers.book.all = [peer] → ∀ raw e,
    s.nextPacket C env payload peer = .ok raw → env.sendTo peer raw ≠ .error (.protocol e)

/-- The session in which the loop over targets begins. -/
def numberedFor (payload : Bytes) (s : Session cfg) : Session cfg :=
  { s.bumpSequence with voice :=
    ⟨s.voice.audioTxSeq + 1, (s.voice.fecEnc.push s.voice.audioTxSeq payload).2⟩ }

theorem sendAudioTo_error_iff (C : Crypto) (env : Env) (payload : Bytes)
    (targets : List SocketAddr) (s : Session cfg) (e : TransportError) :
    (s.sendAudioTo C env payload targets).1 = .error e ↔
      ((s.numberedFor payload).sendFrames C env s.status.sessionId s.traffic.txSequence
        (be32 s.voice.audioTxSeq ++ payload) (s.voice.fecEnc.push s.voice.audioTxSeq payload).1
        (targets.length == 1) targets 0).1 = .error e := by
  unfold sendAudioTo numberedFor
  dsimp only
  split
  · rename_i e' t ht
    rw [ht]
    simp
  · rename_i total t ht
    rw [ht]
    simp

/-- `send_audio` ends with a protocol error exactly when a frame does not get its packet. -/
theorem sendAudio_protocol_iff (hC : C.RoundTrip) (hseals : C.Seals)
    (hstate : s.status.state = .active) :
    (∃ e, (s.sendAudio C env payload).1 = .error (.protocol e)) ↔
      ¬ s.Accommodates C env payload := by
  let plain : Bytes := be32 s.voice.audioTxSeq ++ payload
  have hlen : plain.length = 4 + payload.length := by simp [plain]
  have hpacket (peer : SocketAddr) : ((s.numberedFor payload).audioPacket C env s.status.sessionId
      s.traffic.txSequence plain peer).isOk = true ↔
        Fits cfg (s.wireLength peer (4 + payload.length)) := by
    rw [← hlen]
    exact audioPacket_isOk_iff hC hseals env (s.numberedFor payload) _ _ plain peer
  unfold sendAudio
  rw [if_neg (not_not.mpr hstate)]
  by_cases hbook : s.peers.book.all = []
  · rw [if_pos hbook]
    have haccommodates : s.Accommodates C env payload := by
      constructor
      · simp [hbook]
      · simp [hbook]
    simp [haccommodates]
  · rw [if_neg hbook]
    simp only [sendAudioTo_error_iff]
    by_cases halone : ∃ peer, s.peers.book.all = [peer]
    · obtain ⟨peer, hpeer⟩ := halone
      rw [hpeer]
      refine (sendFrames_alone_iff C env _ _ plain _ peer 0 (s.numberedFor payload)).trans
        (not_congr ?_)
      rw [hpacket]
      constructor
      · rintro ⟨hfits, hanswers⟩
        constructor
        · simpa [hpeer] using hfits
        · intro p hp
          obtain rfl : peer = p := by simpa [hpeer] using hp
          exact hanswers
      · intro h
        exact ⟨h.fits peer (by simp [hpeer]), h.answers peer hpeer⟩
    · have hmany : (s.peers.book.all.length == 1) = false := by
        rw [beq_eq_false_iff_ne]
        intro hone
        exact halone (List.length_eq_one_iff.mp hone)
      rw [hmany]
      refine (sendFrames_protocol_iff C env _ _ plain _ _ 0 (s.numberedFor payload)).trans
        (not_congr ?_)
      simp only [hpacket]
      exact ⟨fun hfits => ⟨hfits, fun p hp => absurd ⟨p, hp⟩ halone⟩, Accommodates.fits⟩

/-- A call that ends with a protocol error took no number, fed no parity, sent nothing. -/
def AllOrNothing (C : Crypto) (env : Env) (payload : Bytes) (s : Session cfg) : Prop :=
  ∀ e, (s.sendAudio C env payload).1 = .error (.protocol e) →
    (s.sendAudio C env payload).2.voice = s.voice ∧
      (s.sendAudio C env payload).2.traffic.sent = s.traffic.sent

/-- A call that gets as far as a protocol error has taken a number. -/
theorem voice_ne_of_protocol {e : Error}
    (h : (s.sendAudio C env payload).1 = .error (.protocol e)) :
    s.status.state = .active ∧ (s.sendAudio C env payload).2.voice ≠ s.voice := by
  have hstate : s.status.state = .active := by
    by_contra hstate
    unfold sendAudio at h
    rw [if_pos hstate] at h
    cases h
  have hbook : s.peers.book.all ≠ [] := by
    intro hbook
    unfold sendAudio at h
    rw [if_neg (not_not.mpr hstate), if_pos hbook] at h
    cases h
  refine ⟨hstate, ?_⟩
  rw [voice_sendAudio hstate hbook]
  intro hvoice
  have hseq : s.voice.audioTxSeq + 1 = s.voice.audioTxSeq := congrArg Voice.audioTxSeq hvoice
  exact absurd (UInt32.add_eq_left.mp hseq) (by decide)

/-- `send_audio` is all or nothing exactly where it has no protocol error to give. -/
theorem allOrNothing_iff (hC : C.RoundTrip) (hseals : C.Seals) (env : Env) (payload : Bytes)
    (s : Session cfg) : AllOrNothing C env payload s ↔
      (s.status.state = .active → s.Accommodates C env payload) := by
  constructor
  · intro h hstate
    by_contra hno
    obtain ⟨e, he⟩ := (sendAudio_protocol_iff hC hseals hstate).mpr hno
    exact (voice_ne_of_protocol he).2 (h e he).1
  · intro h e he
    have hstate := (voice_ne_of_protocol he).1
    exact absurd (h hstate) ((sendAudio_protocol_iff hC hseals hstate).mp ⟨e, he⟩)

namespace OversizeExample

/-- A call with one guest. -/
noncomputable def call : Session Config.default :=
  (Machine.run Crypto.toy
    (Machine.rest Crypto.toy (initial Config.default (Vector.replicate 8 0))) Pairing.steps).session

end OversizeExample

open OversizeExample Pairing in
/-- A short frame is sent whole. -/
theorem allOrNothing_short : AllOrNothing Crypto.toy (at' 2) [1] call := by
  refine (allOrNothing_iff Crypto.toy_roundTrip Crypto.toy_seals (at' 2) [1] call).mpr fun _ => ?_
  constructor
  · intro peer _
    have hlen : call.wireLength peer (4 + [(1 : UInt8)].length) ≤ 21 := by
      unfold wireLength
      split_ifs
      · decide
      · decide
    exact ⟨hlen.trans (by decide), by
      have hmtu : Config.default.mtu = 1200 := rfl
      have hheader : headerSize = 24 := rfl
      omega⟩
  · intro peer _ raw e _ hsend
    cases hsend

open OversizeExample Pairing in
/-- A frame one byte too long is not sent, and its number is gone. -/
theorem allOrNothing_long :
    let payload : Bytes := List.replicate 1153 0
    call.status.state = .active ∧ call.voice.audioTxSeq = 0 ∧
      (call.sendAudio Crypto.toy (at' 2) payload).1 = .error (.protocol .bufferTooSmall) ∧
      (call.sendAudio Crypto.toy (at' 2) payload).2.voice.audioTxSeq = 1 ∧
      ¬ AllOrNothing Crypto.toy (at' 2) payload call := by
  intro payload
  have hcall : call.status.state = .active ∧ call.voice.audioTxSeq = 0 ∧
      (call.sendAudio Crypto.toy (at' 2) payload).1 = .error (.protocol .bufferTooSmall) ∧
      (call.sendAudio Crypto.toy (at' 2) payload).2.voice.audioTxSeq = 1 := by
    decide +kernel
  obtain ⟨hstate, hbefore, herror, hafter⟩ := hcall
  refine ⟨hstate, hbefore, herror, hafter, fun h => ?_⟩
  have hvoice := congrArg Voice.audioTxSeq (h _ herror).1
  rw [hbefore, hafter] at hvoice
  exact absurd hvoice (by decide)

/-! ## A parity that does not fit -/

/-- The plaintext of a parity. -/
def parityPlain (p : FecParity) : Bytes := be32 p.seqBase ++ p.window :: p.payload

theorem length_parityPlain (p : FecParity) : (parityPlain p).length = 5 + p.payload.length := by
  simp [parityPlain]
  omega

/-- A parity goes out to a target with a key exactly when it fits. -/
theorem sendFecParity_sent (hC : C.RoundTrip) (hseals : C.Seals) (env : Env) (sid : UInt32)
    (p : FecParity) {key : SessionKey} (hkey : s.peers.encKeyFor peer = some key) :
    (Fits cfg (5 + p.payload.length + tagSize) →
      ∃ raw, (s.sendFecParity C env sid p peer).traffic.sent = (peer, raw) :: s.traffic.sent ∧
        Carries C key sid .audioFec (parityPlain p) raw) ∧
    (¬ Fits cfg (5 + p.payload.length + tagSize) →
      (s.sendFecParity C env sid p peer).traffic.sent = s.traffic.sent) := by
  have hsealed := encode_sealed_iff cfg hC hseals key (makeNonce s.traffic.txSequence sid)
    (sealedHeader env .audioFec sid s.traffic.txSequence) (parityPlain p)
  rw [length_parityPlain] at hsealed
  have hkey' : s.bumpSequence.peers.encKeyFor peer = some key := hkey
  rw [← hsealed]
  unfold sendFecParity transmit
  dsimp only
  rw [hkey', ← parityPlain]
  dsimp only
  cases hbody : C.encryptInPlace key (makeNonce s.traffic.txSequence sid)
      (sealedHeader env .audioFec sid s.traffic.txSequence).encode (parityPlain p) with
  | error e =>
    refine ⟨?_, fun _ => rfl⟩
    rintro ⟨body, raw, hbody', -⟩
    cases hbody'
  | ok body =>
    dsimp only
    cases hraw : PacketBuilder.encode
        (sealedHeader env .audioFec sid s.traffic.txSequence) body cfg.mtu with
    | error e =>
      refine ⟨?_, fun _ => rfl⟩
      rintro ⟨body', raw, hbody', hraw'⟩
      cases hbody'
      rw [hraw] at hraw'
      cases hraw'
    | ok raw =>
      dsimp only
      have hcarries : Carries C key sid .audioFec (parityPlain p) raw :=
        carries_of_encode rfl rfl rfl hbody hraw
      refine ⟨fun _ => ⟨raw, ?_, hcarries⟩, fun hno => absurd ⟨body, raw, rfl, hraw⟩ hno⟩
      cases env.sendTo peer raw with
      | error e => rfl
      | ok n => rfl

/-- `peer` was sent the parity, sealed under its key. -/
def HasParity (C : Crypto) (sid : UInt32) (p : FecParity) (s : Session cfg)
    (new : List (SocketAddr × Bytes)) (peer : SocketAddr) : Prop :=
  ∃ key raw, s.peers.encKeyFor peer = some key ∧ (peer, raw) ∈ new ∧
    Carries C key sid .audioFec (parityPlain p) raw

theorem HasParity.mono {p : FecParity} {new new' : List (SocketAddr × Bytes)}
    (h : HasParity C sid p s new peer) (hsub : new ⊆ new') : HasParity C sid p s new' peer := by
  obtain ⟨key, raw, hkey, hmem, hcarries⟩ := h
  exact ⟨key, raw, hkey, hsub hmem, hcarries⟩

/-- What a loop over `targets` sends when the frame completes the group of `p`: the parity to
everybody if it fits, else only frames. -/
structure SendsGroup (C : Crypto) (sid : UInt32) (plain : Bytes) (p : FecParity)
    (targets : List SocketAddr) (s : Session cfg) (new : List (SocketAddr × Bytes)) : Prop where
  fit : Fits cfg (5 + p.payload.length + tagSize) → ∀ peer ∈ targets, HasParity C sid p s new peer
  oversize : ¬ Fits cfg (5 + p.payload.length + tagSize) →
    ∀ d ∈ new, ∃ key, Carries C key sid .audioFrame plain d.2

/-- One target of the loop. -/
theorem sendsGroup_followUp (hC : C.RoundTrip) (hseals : C.Seals) (env : Env) {p : FecParity}
    {raw : Bytes} (hkeyed : (s.peers.encKeyFor peer).isSome = true)
    (hraw : s.audioPacket C env sid seq plain peer = .ok raw)
    (hsent : t.traffic.sent = (peer, raw) :: s.traffic.sent) (hpeers : t.peers = s.peers) :
    ∃ own, (t.followUp C env sid (some p) peer).traffic.sent = own ++ s.traffic.sent ∧
      SendsGroup C sid plain p [peer] s own := by
  obtain ⟨key, hkey⟩ := Option.isSome_iff_exists.mp hkeyed
  have hframe : Carries C key sid .audioFrame plain raw := by
    refine carries_audioPacket ?_ hraw
    rintro k hk
    exact Option.some.inj (hk.symm.trans hkey)
  obtain ⟨hfit, hno⟩ := sendFecParity_sent (s := t) hC hseals env sid p
    (by rw [hpeers]; exact hkey)
  by_cases hfits : Fits cfg (5 + p.payload.length + tagSize)
  · obtain ⟨parity, hparity, hcarries⟩ := hfit hfits
    refine ⟨[(peer, parity), (peer, raw)], by rw [followUp, hparity, hsent]; rfl,
      fun _ => ?_, fun h => absurd hfits h⟩
    simp only [List.forall_mem_singleton]
    exact ⟨key, parity, hkey, by simp, hcarries⟩
  · refine ⟨[(peer, raw)], by rw [followUp, hno hfits, hsent]; rfl, fun h => absurd h hfits,
      fun _ => ?_⟩
    simp only [List.forall_mem_singleton]
    exact ⟨key, hframe⟩

/-- The loop gets to the end: everybody was sent the parity, or nobody. -/
theorem sendsGroup_sendFrames (hC : C.RoundTrip) (hseals : C.Seals) (env : Env)
    (sid seq : UInt32) (plain : Bytes) (p : FecParity) (alone : Bool)
    (targets : List SocketAddr) (total : ℕ) {total' : ℕ} (s : Session cfg)
    (hkeyed : ∀ peer ∈ targets, (s.peers.encKeyFor peer).isSome = true)
    (hok : (s.sendFrames C env sid seq plain (some p) alone targets total).1 = .ok total') :
    ∃ new, (s.sendFrames C env sid seq plain (some p) alone targets total).2.traffic.sent =
        new ++ s.traffic.sent ∧ SendsGroup C sid plain p targets s new := by
  induction targets generalizing total s with
  | nil => exact ⟨[], rfl, by simp, by simp⟩
  | cons peer rest ih =>
    obtain ⟨hpeer, hrest⟩ := List.forall_mem_cons.mp hkeyed
    obtain ⟨log, hlog⟩ := noteAudio_eq env sid seq plain peer s
    rw [sendFrames, hlog] at hok ⊢
    cases hraw : s.audioPacket C env sid seq plain peer with
    | error e =>
      rw [hraw] at hok
      cases hok
    | ok raw =>
      rw [hraw] at hok
      have hgoes (t : Session cfg) (total : ℕ)
          (hsent : t.traffic.sent = (peer, raw) :: s.traffic.sent) (hpeers : t.peers = s.peers)
          (hok : ((t.followUp C env sid (some p) peer).sendFrames C env sid seq plain (some p)
            alone rest total).1 = .ok total') :
          ∃ new, ((t.followUp C env sid (some p) peer).sendFrames C env sid seq plain (some p)
            alone rest total).2.traffic.sent = new ++ s.traffic.sent ∧
              SendsGroup C sid plain p (peer :: rest) s new := by
        obtain ⟨own, hown, hfirst⟩ :=
          sendsGroup_followUp (p := p) hC hseals env hpeer hraw hsent hpeers
        have hsame : (t.followUp C env sid (some p) peer).peers = s.peers :=
          (sendsOnly_followUp C env sid (some p) peer t).peers.trans hpeers
        obtain ⟨new, hnew, hothers⟩ := ih total (t.followUp C env sid (some p) peer)
          (by rwa [hsame]) hok
        refine ⟨new ++ own, by rw [hnew, hown, List.append_assoc], fun hfits => ?_, fun hno => ?_⟩
        · rw [List.forall_mem_cons]
          constructor
          · exact (hfirst.fit hfits peer List.mem_cons_self).mono (List.subset_append_right _ _)
          · intro q hq
            have hparity := hothers.fit hfits q hq
            unfold HasParity at hparity ⊢
            rw [hsame] at hparity
            exact HasParity.mono hparity (List.subset_append_left _ _)
        · intro d hd
          rcases List.mem_append.mp hd with hd | hd
          · exact hothers.oversize hno d hd
          · exact hfirst.oversize hno d hd
      dsimp only [transmit] at hok ⊢
      cases hsend : env.sendTo peer raw with
      | ok n =>
        rw [hsend] at hok
        exact hgoes _ (total + n) rfl rfl hok
      | error e =>
        rw [hsend] at hok
        cases alone with
        | true => cases hok
        | false => exact hgoes _ total rfl rfl hok

theorem sendAudioTo_ok (h : (s.sendAudioTo C env payload targets).1 = .ok ()) :
    let r := (s.numberedFor payload).sendFrames C env s.status.sessionId s.traffic.txSequence
      (be32 s.voice.audioTxSeq ++ payload) (s.voice.fecEnc.push s.voice.audioTxSeq payload).1
      (targets.length == 1) targets 0
    (∃ total, r.1 = .ok total) ∧
      (s.sendAudioTo C env payload targets).2.traffic.sent = r.2.traffic.sent := by
  unfold sendAudioTo at h ⊢
  dsimp only at h ⊢
  split at h
  · cases h
  · rename_i total t ht
    unfold numberedFor
    rw [ht]
    exact ⟨⟨total, rfl⟩, rfl⟩

/-- `send_audio_to` accepts the frame, and seals it for every target. -/
structure Sealed (C : Crypto) (env : Env) (payload : Bytes) (targets : List SocketAddr)
    (s : Session cfg) : Prop where
  targeted : targets ≠ []
  accepted : (s.sendAudioTo C env payload targets).1 = .ok ()
  keyed : ∀ peer ∈ targets, (s.peers.encKeyFor peer).isSome = true

/-- `group` is what the parity encoder of `s` has of the current group, and each of its frames
was accepted and sealed. Between two frames anything may happen that leaves the numbering
alone. -/
inductive Gathers (C : Crypto) : Session cfg → List Bytes → Prop
  | start {s : Session cfg} (hcount : s.voice.fecEnc.count = 0) : Gathers C s []
  | say {s : Session cfg} {group : List Bytes} {payload : Bytes} {targets : List SocketAddr}
      (env : Env) (h : Gathers C s group) (hroom : group.length + 1 < fecWindow)
      (hsealed : Sealed C env payload targets s) :
    Gathers C (s.sendAudioTo C env payload targets).2 (group ++ [payload])
  | pause {s t : Session cfg} {group : List Bytes} (h : Gathers C s group)
      (hvoice : t.voice = s.voice) : Gathers C t group

/-- The encoder holds the group, and the next number continues it. -/
theorem Gathers.holds {group : List Bytes} (h : Gathers C s group) :
    ∃ base, s.voice.fecEnc.Holds base group ∧
      s.voice.audioTxSeq = base + UInt32.ofNat group.length := by
  induction h with
  | @start s hcount =>
    refine ⟨s.voice.audioTxSeq, ⟨hcount, by simp, by simp⟩, ?_⟩
    exact (UInt32.add_zero _).symm
  | @say s group payload targets env h hroom hsealed ih =>
    obtain ⟨base, hholds, hseq⟩ := ih
    have hvoice := congrArg Session.voice (sendAudioTo_voice C env payload targets s).1
    refine ⟨base, ?_, ?_⟩
    · rw [hvoice]
      rcases hholds.push payload hseq with ⟨hfull, -⟩ | ⟨-, -, hholds'⟩
      · exact absurd hroom (Nat.not_lt.mpr hfull)
      · exact hholds'
    · rw [hvoice, List.length_append, UInt32.ofNat_add, ← UInt32.add_assoc, ← hseq]
      rfl
  | pause h hvoice ih => rwa [hvoice]

/-- A parity with something around it fits if every frame with as much around it does. -/
theorem fits_groupParity {group : List Bytes} (hne : group ≠ []) (n m : ℕ) :
    Fits cfg (n + (groupParity group).length + m) ↔
      ∀ frame ∈ group, Fits cfg (n + frame.length + m) := by
  constructor
  · rintro ⟨hmax, hmtu⟩ frame hframe
    have hlen := le_length_groupParity hframe
    exact ⟨by omega, by omega⟩
  · intro h
    obtain ⟨first, hfirst⟩ := List.exists_mem_of_ne_nil group hne
    obtain ⟨hmax, hmtu⟩ := h first hfirst
    have hlenMax : (groupParity group).length ≤ maxPayloadSize - (n + m) := by
      apply length_groupParity_le
      intro frame hframe
      have := (h frame hframe).1
      omega
    have hlenMtu : (groupParity group).length ≤ cfg.mtu - (headerSize + n + m + 4) := by
      apply length_groupParity_le
      intro frame hframe
      have := (h frame hframe).2
      omega
    exact ⟨by omega, by omega⟩

theorem Carries.msgType {key : SessionKey} {msg : MessageType} {raw : Bytes}
    (h : Carries C key sid msg plain raw) :
    ∃ view, PacketView.decode raw = .ok view ∧ view.header.msgType = msg.code := by
  cases h with
  | sealed header body hversion hflags hmsg hbody hlen hraw =>
    rw [hraw]
    exact ⟨_, PacketBuilder.decode_bytes hversion hlen, hmsg⟩
  | clear header hversion hflags hmsg hlen hraw =>
    rw [hraw]
    exact ⟨_, PacketBuilder.decode_bytes hversion hlen, hmsg⟩

/-- The frame completes `group`, and every target is sent the parity of all of it. -/
def ParityEmitted (C : Crypto) (env : Env) (group : List Bytes) (payload : Bytes)
    (targets : List SocketAddr) (s : Session cfg) : Prop :=
  ∃ new base, (s.sendAudioTo C env payload targets).2.traffic.sent = new ++ s.traffic.sent ∧
    ∀ peer ∈ targets, HasParity C s.status.sessionId
      ⟨base, UInt8.ofNat fecWindow, groupParity (group ++ [payload])⟩ s new peer

/-- The parity that completes a group is emitted exactly when it fits. -/
theorem parityEmitted_iff_fits (hC : C.RoundTrip) (hseals : C.Seals) {group : List Bytes}
    (hgroup : Gathers C s group) (hfull : group.length + 1 = fecWindow)
    (hlast : Sealed C env payload targets s) : ParityEmitted C env group payload targets s ↔
      Fits cfg (5 + (groupParity (group ++ [payload])).length + tagSize) := by
  obtain ⟨base, hholds, hseq⟩ := hgroup.holds
  let p : FecParity := ⟨base, UInt8.ofNat fecWindow, groupParity (group ++ [payload])⟩
  have hparity : (s.voice.fecEnc.push s.voice.audioTxSeq payload).1 = some p := by
    rcases hholds.push payload hseq with ⟨-, hout, -⟩ | ⟨hroom, -⟩
    · exact hout
    · exact absurd hfull (Nat.ne_of_lt hroom)
  obtain ⟨⟨total, hok⟩, hsent⟩ := sendAudioTo_ok hlast.accepted
  rw [hparity] at hok hsent
  obtain ⟨new, hnew, hsends⟩ := sendsGroup_sendFrames hC hseals env s.status.sessionId
    s.traffic.txSequence (be32 s.voice.audioTxSeq ++ payload) p (targets.length == 1) targets 0
    (s.numberedFor payload) hlast.keyed hok
  have hall : (s.sendAudioTo C env payload targets).2.traffic.sent = new ++ s.traffic.sent :=
    hsent.trans hnew
  constructor
  · rintro ⟨new', base', hnew', hhas⟩
    obtain rfl : new' = new := List.append_cancel_right (hnew'.symm.trans hall)
    by_contra hno
    obtain ⟨peer, hpeer⟩ := List.exists_mem_of_ne_nil targets hlast.targeted
    obtain ⟨key, raw, -, hmem, hcarries⟩ := hhas peer hpeer
    obtain ⟨key', hframe⟩ := hsends.oversize hno _ hmem
    obtain ⟨view, hview, hfec⟩ := hcarries.msgType
    obtain ⟨view', hview', haudio⟩ := hframe.msgType
    rw [hview] at hview'
    cases hview'
    rw [hfec] at haudio
    exact absurd haudio (by decide)
  · intro hfit
    exact ⟨new, base, hall, hsends.fit hfit⟩

/-- The parity of a group of accepted and sealed frames is emitted exactly when each of the
frames could have been one byte longer. -/
theorem parityEmitted_iff (hC : C.RoundTrip) (hseals : C.Seals) {group : List Bytes}
    (hgroup : Gathers C s group) (hfull : group.length + 1 = fecWindow)
    (hlast : Sealed C env payload targets s) : ParityEmitted C env group payload targets s ↔
      ∀ frame ∈ group ++ [payload], Fits cfg (4 + (frame.length + 1) + tagSize) := by
  rw [parityEmitted_iff_fits hC hseals hgroup hfull hlast, fits_groupParity (by simp)]
  have hlen (frame : Bytes) : 5 + frame.length + tagSize = 4 + (frame.length + 1) + tagSize := by
    omega
  simp only [hlen]

/-- Where the transport takes everything, a frame that fits is accepted. -/
theorem sealed_of_fits (hC : C.RoundTrip) (hseals : C.Seals)
    (hsend : ∀ peer bytes, env.sendTo peer bytes = .ok bytes.length)
    (hkeyed : (s.peers.encKeyFor peer).isSome = true)
    (hfits : Fits cfg (4 + payload.length + tagSize)) : Sealed C env payload [peer] s := by
  refine ⟨by simp, ?_, by simpa using hkeyed⟩
  let plain : Bytes := be32 s.voice.audioTxSeq ++ payload
  have hlen : plain.length = 4 + payload.length := by simp [plain]
  have hpacket : ((s.numberedFor payload).audioPacket C env s.status.sessionId
      s.traffic.txSequence plain peer).isOk = true := by
    rw [audioPacket_isOk_iff hC hseals, hlen]
    change Fits cfg (s.wireLength peer (4 + payload.length))
    rwa [wireLength_keyed hkeyed]
  cases hraw : (s.numberedFor payload).audioPacket C env s.status.sessionId s.traffic.txSequence
      plain peer with
  | error e =>
    rw [hraw] at hpacket
    cases hpacket
  | ok raw =>
    have hloop : ((s.numberedFor payload).sendFrames C env s.status.sessionId s.traffic.txSequence
        plain (s.voice.fecEnc.push s.voice.audioTxSeq payload).1 true [peer] 0).1 =
          .ok (0 + raw.length) := by
      rw [sendFrames_cons_ok C env hraw (hsend peer raw), sendFrames]
    cases h : (s.sendAudioTo C env payload [peer]).1 with
    | ok u => rfl
    | error e =>
      have herror := (sendAudioTo_error_iff C env payload [peer] s e).mp h
      cases hloop.symm.trans herror

/-- Frames that fit, said one after the other to a target with a key, are a group. -/
theorem gathers_of_fits (env : Env) (hC : C.RoundTrip) (hseals : C.Seals)
    (hsend : ∀ peer bytes, env.sendTo peer bytes = .ok bytes.length)
    (hcount : s.voice.fecEnc.count = 0) (hkeyed : (s.peers.encKeyFor peer).isSome = true)
    {group : List Bytes} (hroom : group.length < fecWindow)
    (hfits : ∀ frame ∈ group, Fits cfg (4 + frame.length + tagSize)) :
    let t := group.foldl (fun t frame => (t.sendAudioTo C env frame [peer]).2) s
    Gathers C t group ∧ (t.peers.encKeyFor peer).isSome = true := by
  induction group using List.reverseRecOn with
  | nil => exact ⟨.start hcount, hkeyed⟩
  | append_singleton group frame ih =>
    rw [List.length_append, List.length_singleton] at hroom
    obtain ⟨hgathers, hkeyed'⟩ := ih (Nat.lt_of_succ_lt hroom)
      fun f hf => hfits f (List.mem_append_left _ hf)
    rw [List.foldl_append]
    have hsealed := sealed_of_fits hC hseals hsend hkeyed'
      (hfits frame (List.mem_append_right _ List.mem_cons_self))
    refine ⟨.say env hgathers hroom hsealed, ?_⟩
    have hpeers := congrArg Session.peers (sendAudioTo_voice C env frame [peer]
      (group.foldl (fun t frame => (t.sendAudioTo C env frame [peer]).2) s)).1
    rw [List.foldl_cons, List.foldl_nil, hpeers]
    exact hkeyed'

namespace OversizeExample

open Pairing

theorem call_facts : call.voice.fecEnc.count = 0 ∧
    (call.peers.encKeyFor guest).isSome = true := by
  decide +kernel

/-- The call after three frames of this length. -/
noncomputable def after (n : ℕ) : Session Config.default :=
  (List.replicate 3 (List.replicate n 0)).foldl
    (fun t frame => (t.sendAudioTo Crypto.toy (at' 2) frame [guest]).2) call

/-- The fourth frame of this length is accepted as the others were. -/
theorem after_gathers {n : ℕ} (h : n ≤ 1152) :
    Gathers Crypto.toy (after n) (List.replicate 3 (List.replicate n 0)) ∧
      Sealed Crypto.toy (at' 2) (List.replicate n 0) [guest] (after n) := by
  have hfits : Fits Config.default (4 + (List.replicate n (0 : UInt8)).length + tagSize) := by
    have hmax : maxPayloadSize = 1176 := rfl
    have hmtu : Config.default.mtu = 1200 := rfl
    rw [List.length_replicate, tagSize]
    exact ⟨by omega, by rw [hmtu, headerSize]; omega⟩
  have hall : ∀ frame ∈ List.replicate 3 (List.replicate n (0 : UInt8)),
      Fits Config.default (4 + frame.length + tagSize) := by
    intro frame hframe
    rwa [List.eq_of_mem_replicate hframe]
  obtain ⟨hgathers, hkeyed⟩ := gathers_of_fits (at' 2) Crypto.toy_roundTrip
    Crypto.toy_seals (fun _ _ => rfl) call_facts.1 call_facts.2 (by simp [fecWindow]) hall
  exact ⟨hgathers,
    sealed_of_fits Crypto.toy_roundTrip Crypto.toy_seals (fun _ _ => rfl) hkeyed hfits⟩

end OversizeExample

open OversizeExample Pairing in
/-- Four frames one byte below the limit: their parity is emitted. -/
theorem parityEmitted_shorter :
    ParityEmitted Crypto.toy (at' 2) (List.replicate 3 (List.replicate 1151 0))
      (List.replicate 1151 0) [guest] (after 1151) := by
  obtain ⟨hgathers, hsealed⟩ := after_gathers (Nat.le_succ 1151)
  refine (parityEmitted_iff Crypto.toy_roundTrip Crypto.toy_seals hgathers rfl hsealed).mpr ?_
  intro frame hframe
  have hlen : frame.length = 1151 := by
    simp only [List.mem_append, List.mem_replicate, List.mem_singleton] at hframe
    rcases hframe with ⟨-, rfl⟩ | rfl
    · exact List.length_replicate
    · exact List.length_replicate
  rw [hlen]
  exact ⟨by decide, by decide⟩

open OversizeExample Pairing in
/-- Four frames of the greatest length that is accepted: their parity is not emitted. -/
theorem parityEmitted_longest :
    Gathers Crypto.toy (after 1152) (List.replicate 3 (List.replicate 1152 0)) ∧
      Sealed Crypto.toy (at' 2) (List.replicate 1152 0) [guest] (after 1152) ∧
      ¬ ParityEmitted Crypto.toy (at' 2) (List.replicate 3 (List.replicate 1152 0))
        (List.replicate 1152 0) [guest] (after 1152) := by
  obtain ⟨hgathers, hsealed⟩ := after_gathers (le_refl 1152)
  refine ⟨hgathers, hsealed, ?_⟩
  rw [parityEmitted_iff_fits Crypto.toy_roundTrip Crypto.toy_seals hgathers rfl hsealed]
  have hlen := le_length_groupParity (List.mem_append_right
    (List.replicate 3 (List.replicate 1152 (0 : UInt8)))
    (List.mem_singleton_self (List.replicate 1152 0)))
  rw [List.length_replicate] at hlen
  rintro ⟨-, hmtu⟩
  have hdefault : Config.default.mtu = 1200 := rfl
  rw [hdefault, headerSize, tagSize] at hmtu
  omega

end Session
end GravitalTalk
