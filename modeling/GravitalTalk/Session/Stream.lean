import GravitalTalk.Session.Intake
import GravitalTalk.Session.Keys
import GravitalTalk.Session.Speaker

/-!
# Parity between two

One session speaks, another one listens. The listener finds the groups from the
32-bit numbers alone, so it cannot tell groups apart whose distance is a
multiple of `2 ^ 32` frames; all others are.
-/
namespace GravitalTalk
namespace Machine

open Session Relation Run

variable {cfg cfg' : Config} {C : Crypto} {env : Env} {i : Arrival} {s₀ s t : Session cfg}
  {key : SessionKey} {sid : UInt32} {said : List Bytes}

/-! ## Numbers of a group -/

theorem group_modEq {g g' : ℕ}
    (h : UInt32.ofNat (fecWindow * g) = UInt32.ofNat (fecWindow * g')) : g ≡ g' [MOD 2 ^ 30] := by
  have hnat := congrArg UInt32.toNat h
  simp only [UInt32.toNat_ofNat', fecWindow] at hnat
  unfold Nat.ModEq
  omega

theorem groupBase_ofNat (k : ℕ) :
    FecDecoder.groupBase fecWindow (UInt32.ofNat k) =
      UInt32.ofNat (fecWindow * (k / fecWindow)) := by
  apply UInt32.toNat_inj.mp
  have hmod : (UInt32.ofNat k % UInt32.ofNat fecWindow).toNat = k % 2 ^ 32 % 4 := by
    simp [fecWindow]
  have hle : UInt32.ofNat k % UInt32.ofNat fecWindow ≤ UInt32.ofNat k := by
    rw [UInt32.le_iff_toNat_le, hmod, UInt32.toNat_ofNat']
    exact Nat.mod_le _ _
  unfold FecDecoder.groupBase
  rw [UInt32.toNat_sub_of_le _ _ hle, hmod, UInt32.toNat_ofNat', UInt32.toNat_ofNat', fecWindow]
  omega

/-- What was said under a number of a group. -/
def groupFrame (said : List Bytes) (group : ℕ) (seq : UInt32) : Bytes :=
  said.getD (fecWindow * group + (seq - UInt32.ofNat (fecWindow * group)).toNat) []

theorem groupFrame_add (said : List Bytes) (group : ℕ) {i : ℕ} (hi : i < fecWindow) :
    groupFrame said group (UInt32.ofNat (fecWindow * group) + UInt32.ofNat i) =
      said.getD (fecWindow * group + i) [] := by
  have hsmall : (UInt32.ofNat i).toNat = i := by
    rw [UInt32.toNat_ofNat', Nat.mod_eq_of_lt (hi.trans (by decide))]
  unfold groupFrame
  rw [add_sub_cancel_left, hsmall]

theorem groupFrame_ofNat (said : List Bytes) (k : ℕ) :
    groupFrame said (k / fecWindow) (UInt32.ofNat k) = said.getD k [] := by
  have hk := Nat.div_add_mod k fecWindow
  have h := groupFrame_add said (k / fecWindow) (Nat.mod_lt k (by decide : 0 < fecWindow))
  rwa [← UInt32.ofNat_add, hk] at h

/-! ## The decoder -/

/-- The decoder holds frames of the group `last`, if any. -/
def OfGroup (said : List Bytes) (last : Option ℕ) (d : FecDecoder fecWindow) : Prop :=
  d.active = true → ∃ g ∈ last, d.seqBase = UInt32.ofNat (fecWindow * g) ∧
    d.Tracks (groupFrame said g)

/-- `g` is the group of `last` or starts at another number. -/
def Distinct (last : Option ℕ) (g : ℕ) : Prop := ∀ l ∈ last, l ≡ g [MOD 2 ^ 30] → l = g

instance (last : Option ℕ) (g : ℕ) : Decidable (Distinct last g) :=
  inferInstanceAs (Decidable (∀ l ∈ last, _))

theorem OfGroup.select {last : Option ℕ} {d : FecDecoder fecWindow} {g : ℕ}
    (h : OfGroup said last d) (hg : Distinct last g) :
    (d.select (UInt32.ofNat (fecWindow * g))).Tracks (groupFrame said g) := by
  cases hactive : d.active with
  | false => exact FecDecoder.Apart.tracks_select (.inl hactive) _
  | true =>
    obtain ⟨l, hl, hbase, htracks⟩ := h hactive
    by_cases hsame : d.seqBase = UInt32.ofNat (fecWindow * g)
    · obtain rfl := hg l hl (group_modEq (hbase.symm.trans hsame))
      exact htracks.select _
    · exact FecDecoder.Apart.tracks_select (.inr hsame) _

theorem seqBase_pushData (d : FecDecoder fecWindow) (seq : UInt32) (payload : Bytes) :
    (d.pushData seq payload).2.seqBase = FecDecoder.groupBase fecWindow seq := by
  unfold FecDecoder.pushData
  dsimp only
  split_ifs
  · exact FecDecoder.seqBase_select d _
  · exact FecDecoder.seqBase_select d _

/-- A frame is taken in. -/
theorem OfGroup.pushData {last : Option ℕ} {d : FecDecoder fecWindow} {k : ℕ}
    (h : OfGroup said last d) (hg : Distinct last (k / fecWindow)) :
    OfGroup said (some (k / fecWindow)) (d.pushData (UInt32.ofNat k) (said.getD k [])).2 := by
  refine fun _ => ⟨_, rfl, ?_, ?_⟩
  · rw [seqBase_pushData, groupBase_ofNat]
  · rw [← groupFrame_ofNat said k]
    apply FecDecoder.tracks_pushData
    rw [groupBase_ofNat]
    exact h.select hg

/-- A recovered frame is one that was said, under a number that was used for it. -/
def Sound (said : List Bytes) (p : Pushed) : Prop :=
  p.recovered = true → ∃ k < said.length, p.frame.sequence = UInt32.ofNat k ∧
    SamePadded p.frame.payload (said.getD k [])

/-- A parity is taken in. -/
theorem OfGroup.pushParity {last : Option ℕ} {d : FecDecoder fecWindow} {g : ℕ}
    (h : OfGroup said last d) (hg : Distinct last g)
    (hlen : fecWindow * g + fecWindow ≤ said.length) :
    let r := d.pushParity ⟨UInt32.ofNat (fecWindow * g), UInt8.ofNat fecWindow, parityOf said g⟩
    OfGroup said (some g) r.2 ∧
      ∀ seq out, r.1 = some (seq, out) → Sound said ⟨⟨seq, 0, out⟩, true⟩ := by
  let p : FecParity := ⟨UInt32.ofNat (fecWindow * g), UInt8.ofNat fecWindow, parityOf said g⟩
  have hpayload : p.payload = groupParity ((List.range fecWindow).map fun k =>
      groupFrame said g (p.seqBase + UInt32.ofNat k)) := by
    change groupParity _ = _
    congr 1
    apply List.map_congr_left
    intro i hi
    exact (groupFrame_add said g (List.mem_range.mp hi)).symm
  obtain ⟨hnext, hout⟩ := FecDecoder.tracks_pushParity (p := p) (h.select hg) hpayload
  refine ⟨fun _ => ⟨g, rfl, FecDecoder.seqBase_select d _, hnext⟩, fun seq out hr _ => ?_⟩
  obtain ⟨⟨i, hi, hseq⟩, hsame⟩ := hout seq out hr
  refine ⟨fecWindow * g + i, by omega, ?_, ?_⟩
  · rw [UInt32.ofNat_add]
    exact hseq
  · rw [hseq] at hsame
    rwa [groupFrame_add said g hi] at hsame

/-! ## What the listener reads -/

/-- A listener with the speaker's key reads what the speaker wrote. -/
theorem plain_of_said (hC : C.RoundTrip) {msg msg' : MessageType} {plain plain' raw : Bytes}
    {view : PacketView} (hkeys : ∀ k, s.HoldsKey k → k = key) (hsid : s.status.sessionId = sid)
    (hcarries : Carries C key sid msg plain raw) (hview : PacketView.decode raw = .ok view)
    (hmsg : MessageType.fromCode view.header.msgType = .ok msg')
    (hcode : MessageType.fromCode msg.code = .ok msg) (hsaid : s.Says C view raw plain') :
    msg' = msg ∧ plain' = plain := by
  have hfull : Flags.encrypted.contains .encrypted = true := by decide
  have hempty : Flags.empty.contains .encrypted = false := by decide
  cases hcarries with
  | sealed header body hversion hflags hcodes hbody hlen hraw =>
    subst hraw
    rw [PacketBuilder.decode_bytes hversion hlen] at hview
    cases hview
    rw [hcodes] at hmsg
    refine ⟨Except.ok.inj (hmsg.symm.trans hcode), ?_⟩
    rcases hsaid with ⟨-, k, hk, hopen⟩ | ⟨hclear, -⟩
    · obtain rfl := hkeys k hk
      rw [openWith_eq_some, hsid] at hopen
      have hhead : (PacketBuilder.bytes header body).take headerSize = header.encode := by
        simp [PacketBuilder.bytes]
      rw [hhead] at hopen
      exact Except.ok.inj (hopen.symm.trans (hC.decryptInPlace hbody))
    · change header.flags.contains .encrypted = false at hclear
      rw [hflags, hfull] at hclear
      cases hclear
  | clear header hversion hflags hcodes hlen hraw =>
    subst hraw
    rw [PacketBuilder.decode_bytes hversion hlen] at hview
    cases hview
    rw [hcodes] at hmsg
    refine ⟨Except.ok.inj (hmsg.symm.trans hcode), ?_⟩
    rcases hsaid with ⟨hflag, -⟩ | ⟨-, hplain⟩
    · change header.flags.contains .encrypted = true at hflag
      rw [hflags, hempty] at hflag
      cases hflag
    · exact hplain

/-- An audio packet that arrives is one of the speaker's, of this group, and the
listener is paired with the speaker and with nobody else. -/
def FromSpeaker (key : SessionKey) (sid : UInt32) (wire : List (ℕ × Bytes)) (s : Session cfg)
    (i : Arrival) (group : ℕ) : Prop :=
  ∀ sender raw view msg, i = .loop sender raw → PacketView.decode raw = .ok view →
    MessageType.fromCode view.header.msgType = .ok msg → msg = .audioFrame ∨ msg = .audioFec →
    s.settings.multiPeer = false ∧ s.status.sessionId = sid ∧ (∀ k, s.HoldsKey k → k = key) ∧
      (group, raw) ∈ wire

/-- The plaintexts of the packets on the wire were spoken. -/
def WireOk (C : Crypto) (key : SessionKey) (sid : UInt32) (said : List Bytes)
    (wire : List (ℕ × Bytes)) : Prop :=
  ∀ d ∈ wire, ∃ msg plain, Spoken said d.1 msg plain ∧ Carries C key sid msg plain d.2

variable {wire : List (ℕ × Bytes)} {last : Option ℕ} {g : ℕ}

theorem spoken_of_said (hC : C.RoundTrip) (hwire : WireOk C key sid said wire)
    {msg : MessageType} {plain raw : Bytes} {view : PacketView} (hsid : s.status.sessionId = sid)
    (hkeys : ∀ k, s.HoldsKey k → k = key) (hmem : (g, raw) ∈ wire)
    (hview : PacketView.decode raw = .ok view)
    (hmsg : MessageType.fromCode view.header.msgType = .ok msg) (hsaid : s.Says C view raw plain) :
    Spoken said g msg plain := by
  obtain ⟨msg', plain', hspoken, hcarries⟩ := hwire _ hmem
  have hcode : MessageType.fromCode msg'.code = .ok msg' := by
    cases hspoken <;> decide
  obtain ⟨rfl, rfl⟩ := plain_of_said hC hkeys hsid hcarries hview hmsg hcode hsaid
  exact hspoken

/-- Along the effects of a step from `s₀`: the decoder is as it was, or it is in
the group of the packet that arrived, if that one is distinct. -/
structure StreamOk (said : List Bytes) (last : Option ℕ) (g : ℕ) (s₀ s : Session cfg) : Prop where
  decoder : (s.media.fecDec = s₀.media.fecDec ∧ s.history.pushed = s₀.history.pushed) ∨
    (Distinct last g → OfGroup said (some g) s.media.fecDec)
  pushed : ∃ new, s.history.pushed = new ++ s₀.history.pushed ∧
    (Distinct last g → ∀ p ∈ new, Sound said p)

theorem arriving_speaker (hC : C.RoundTrip) (hwire : WireOk C key sid said wire)
    (hlast : OfGroup said last s.media.fecDec) (hfrom : FromSpeaker key sid wire s i g) :
    Arriving C i s (fun d => Distinct last g → OfGroup said (some g) d)
      (fun p => Distinct last g → Sound said p) where
  wiped _ := nofun
  single hi hview htype hmsg := (hfrom _ _ _ _ hi hview htype hmsg).1
  frame hi hview htype hsaid := by
    obtain ⟨-, hsid, hkeys, hmem⟩ := hfrom _ _ _ _ hi hview htype (.inl rfl)
    cases spoken_of_said hC hwire hsid hkeys hmem hview htype hsaid with
    | frame k hk =>
      obtain ⟨hn, hpayload⟩ := plain_frame (UInt32.ofNat k) (said.getD k [])
      rw [hn, hpayload]
      exact ⟨fun hg => hlast.pushData hg, fun _ => nofun⟩
  parity hi hview htype hsaid := by
    obtain ⟨-, hsid, hkeys, hmem⟩ := hfrom _ _ _ _ hi hview htype (.inr rfl)
    cases spoken_of_said hC hwire hsid hkeys hmem hview htype hsaid with
    | parity group hgroup =>
      obtain ⟨hn, hpayload⟩ := plain_parity (UInt32.ofNat (fecWindow * g)) (UInt8.ofNat fecWindow)
        (parityOf said g)
      have hcount : (be32 (UInt32.ofNat (fecWindow * g)) ++
          UInt8.ofNat fecWindow :: parityOf said g).getD 4 0 = UInt8.ofNat fecWindow := by
        simp
      rw [hn, hcount, hpayload]
      exact ⟨fun hg => (hlast.pushParity hg hgroup).1,
        fun seq out hr hg => (hlast.pushParity hg hgroup).2 seq out hr⟩

/-! ## Runs -/

/-- A datagram of the step was taken in: the decoder changed or a frame was
delivered. -/
def Feeds (s t : Session cfg) : Prop :=
  t.media.fecDec ≠ s.media.fecDec ∨ t.history.pushed ≠ s.history.pushed

instance (s t : Session cfg) : Decidable (Feeds s t) := inferInstanceAs (Decidable (_ ∨ _))

/-- A listener, with the group of the packet that it took in last. -/
structure Listener (C : Crypto) (cfg : Config) where
  machine : Machine C cfg
  last : Option ℕ

/-- A step whose datagram, if any, is of the group `x.2.2`. -/
def listen (C : Crypto) (l : Listener C cfg) (x : Env × Action × ℕ) : Listener C cfg :=
  let m := step C x.1 l.machine x.2.1
  ⟨m, if Feeds l.machine.session m.session then some x.2.2 else l.last⟩

/-- The audio is the speaker's, and a packet that is taken in is not of a group
that only starts at the same number as the one before. -/
def Listens (C : Crypto) (key : SessionKey) (sid : UInt32) (wire : List (ℕ × Bytes))
    (l : Listener C cfg) (x : Env × Action × ℕ) : Prop :=
  FromSpeaker key sid wire l.machine.session (l.machine.arrival x.2.1) x.2.2 ∧
    (Feeds l.machine.session (listen C l x).machine.session → Distinct l.last x.2.2)

/-- The decoder is in the last group and what came out of it was said. -/
structure StreamHolds (said : List Bytes) (l : Listener C cfg) : Prop where
  decoder : OfGroup said l.last l.machine.session.media.fecDec
  pushed : ∀ p ∈ l.machine.session.history.pushed, Sound said p

theorem StreamHolds.step {l : Listener C cfg} {x : Env × Action × ℕ} (h : StreamHolds said l)
    (hC : C.RoundTrip) (hwire : WireOk C key sid said wire) (hx : Listens C key sid wire l x) :
    StreamHolds said (listen C l x) := by
  obtain ⟨hfrom, hdistinct⟩ := hx
  have htaken := intake_step x.1 (arriving_speaker hC hwire h.decoder hfrom)
  have hok : StreamOk said l.last x.2.2 l.machine.session (listen C l x).machine.session := by
    obtain ⟨new, hnew, hsound⟩ := htaken.pushed
    exact ⟨htaken.decoder, new, hnew, fun hg p hp => hsound p hp hg⟩
  by_cases hfeeds : Feeds l.machine.session (listen C l x).machine.session
  · have hg := hdistinct hfeeds
    have hlast : (listen C l x).last = some x.2.2 := if_pos hfeeds
    refine ⟨?_, fun p hp => ?_⟩
    · rw [hlast]
      rcases hok.decoder with ⟨hfec, hpushed⟩ | hfec
      · exact absurd hfeeds (by simp [Feeds, hfec, hpushed])
      · exact hfec hg
    · obtain ⟨new, hnew, hsound⟩ := hok.pushed
      rw [hnew] at hp
      rcases List.mem_append.mp hp with hp | hp
      · exact hsound hg p hp
      · exact h.pushed p hp
  · have hlast : (listen C l x).last = l.last := if_neg hfeeds
    simp only [Feeds, not_or, not_not] at hfeeds
    refine ⟨?_, ?_⟩
    · rw [hlast, hfeeds.1]
      exact h.decoder
    · rw [hfeeds.2]
      exact h.pushed

/-- In every run of a listener that gets the audio of one speaker, with any loss,
repetition and reordering, every recovered frame is one that was said, if
packets taken in one after the other are of one group or of distinct ones. -/
theorem recovered_said (hC : C.RoundTrip) {speaker : Session cfg'}
    (htalk : Talks C key sid speaker said wire) (nonce : Vector UInt8 8)
    (hnew : Session.new cfg nonce = some s) (steps : List (Env × Action × ℕ))
    (hrun : Along (listen C) (Listens C key sid wire) ⟨rest C s, none⟩ steps) :
    ∀ p ∈ (steps.foldl (listen C) ⟨rest C s, none⟩).machine.session.history.pushed,
      Sound said p := by
  have hstart : StreamHolds said (⟨rest C s, none⟩ : Listener C cfg) := by
    rw [eq_initial_of_new hnew]
    exact ⟨nofun, nofun⟩
  have hend : StreamHolds said (steps.foldl (listen C) ⟨rest C s, none⟩) :=
    hrun.invariant (fun l x h hx => h.step hC htalk.wire hx) hstart
  exact hend.pushed

/-! ## Examples -/

namespace StreamExample

/-- The host that the guest talks to. -/
def host : SocketAddr := .v4 (Vector.replicate 4 7) 9

/-- The guest after the pairing of `Pairing.steps`. -/
def guest : Session Config.default :=
  let s := initial Config.default (Vector.replicate 8 0)
  { s with
    status.state := .active
    status.sessionId := 1
    peers := (Peers.new.insert host).install host Pairing.keys.1 Pairing.keys.2
    traffic.txSequence := 2 }

noncomputable def start : Env := Env.basic 0 host

/-- What it says: a two, and then only ones. -/
def word (k : ℕ) : Bytes := [if k = 0 then 2 else 1]

def words (n : ℕ) : List Bytes := (List.range n).map word

def frame (k : ℕ) : Bytes :=
  Pairing.sealed .audioFrame (UInt32.ofNat (2 + k + k / fecWindow))
    (be32 (UInt32.ofNat k) ++ word k)

def parityOfWords (g : ℕ) : Bytes :=
  groupParity ((List.range fecWindow).map fun i => word (fecWindow * g + i))

def parity (g : ℕ) : Bytes :=
  Pairing.sealed .audioFec (UInt32.ofNat (2 + (fecWindow + 1) * g + fecWindow))
    (be32 (UInt32.ofNat (fecWindow * g)) ++ UInt8.ofNat fecWindow :: parityOfWords g)

theorem getD_words {n k : ℕ} (h : k < n) : (words n).getD k [] = word k := by
  simp [words, List.getD_eq_getElem?_getD, List.getElem?_range h]

theorem parityOf_words {n g : ℕ} (h : fecWindow * g + fecWindow ≤ n) :
    parityOf (words n) g = parityOfWords g := by
  unfold parityOf parityOfWords
  congr 1
  apply List.map_congr_left
  intro i hi
  exact getD_words (by have := List.mem_range.mp hi; omega)

/-- Paired with the host, and with nobody else. -/
structure Ready (s : Session Config.default) : Prop where
  state : s.status.state = .active
  sid : s.status.sessionId = 1
  book : s.peers.book.all = [host]
  key : s.peers.encKeyFor host = some Pairing.keys.1

variable {s t : Session Config.default}

theorem ready_guest : Ready guest := ⟨rfl, rfl, by decide +kernel, by decide +kernel⟩

theorem Ready.speaks (h : Ready s) (hs : SpeaksOnly s t) : Ready t := by
  rw [hs.eq]
  exact ⟨h.state, h.sid, h.book, h.key⟩

theorem encode_sealed (msg : MessageType) (seq : UInt32) {plain : Bytes}
    (h : plain.length ≤ 100) :
    PacketBuilder.encode (sealedHeader start msg 1 seq) (plain ++ Crypto.toyTag Pairing.keys.1)
      defaultMtu = .ok (Pairing.sealed msg seq plain) := by
  have hlen : (plain ++ Crypto.toyTag Pairing.keys.1).length = plain.length + tagSize := by
    rw [List.length_append, Crypto.length_toyTag]
  have hpacket : Pairing.sealed msg seq plain = PacketBuilder.bytes (sealedHeader start msg 1 seq)
      (plain ++ Crypto.toyTag Pairing.keys.1) := rfl
  unfold PacketBuilder.encode
  rw [hlen, hpacket, if_neg (by simp only [maxPayloadSize, defaultMtu, headerSize, tagSize]; omega),
    if_neg (by simp only [headerSize, defaultMtu, tagSize]; omega)]

theorem audioPacket_ready (h : Ready s) (seq : UInt32) {plain : Bytes}
    (hlen : plain.length ≤ 100) :
    s.audioPacket Crypto.toy start 1 seq plain host =
      .ok (Pairing.sealed .audioFrame seq plain) := by
  unfold audioPacket
  rw [h.key]
  exact encode_sealed _ seq hlen

/-- The parity of a group is sent under the next number. -/
theorem sendFecParity_ready (h : Ready s) {p : FecParity} (hlen : p.payload.length ≤ 1) :
    let t := s.sendFecParity Crypto.toy start 1 p host
    t.traffic.txSequence = s.traffic.txSequence + 1 ∧
      t.traffic.sent = (host, Pairing.sealed .audioFec s.traffic.txSequence
        (be32 p.seqBase ++ p.window :: p.payload)) :: s.traffic.sent := by
  have hplain : (be32 p.seqBase ++ p.window :: p.payload).length ≤ 100 := by
    simp
    omega
  have hpacket := encode_sealed .audioFec s.traffic.txSequence hplain
  unfold sendFecParity
  dsimp only
  rw [show s.bumpSequence.peers = s.peers from rfl, h.key]
  dsimp only
  rw [show Crypto.toy.encryptInPlace Pairing.keys.1 _ _ (be32 p.seqBase ++ p.window :: p.payload) =
    .ok (be32 p.seqBase ++ p.window :: p.payload ++ Crypto.toyTag Pairing.keys.1) from rfl]
  dsimp only
  rw [show Config.default.mtu = defaultMtu from rfl, hpacket]
  exact ⟨rfl, rfl⟩

/-- One call: the frame under the next number, and after it the parity, if there
is one. -/
theorem sendAudio_ready (h : Ready s) (payload : Bytes) (hlen : payload.length ≤ 1)
    (hparity : ∀ p ∈ (s.voice.fecEnc.push s.voice.audioTxSeq payload).1, p.payload.length ≤ 1) :
    let t := (s.sendAudio Crypto.toy start payload).2
    let framePacket := Pairing.sealed .audioFrame s.traffic.txSequence
      (be32 s.voice.audioTxSeq ++ payload)
    match (s.voice.fecEnc.push s.voice.audioTxSeq payload).1 with
    | none => t.traffic.txSequence = s.traffic.txSequence + 1 ∧
        t.traffic.sent = (host, framePacket) :: s.traffic.sent
    | some p => t.traffic.txSequence = s.traffic.txSequence + 1 + 1 ∧
        t.traffic.sent = (host, Pairing.sealed .audioFec (s.traffic.txSequence + 1)
          (be32 p.seqBase ++ p.window :: p.payload)) :: (host, framePacket) :: s.traffic.sent := by
  have hplain : (be32 s.voice.audioTxSeq ++ payload).length ≤ 100 := by
    simp
    omega
  let numbered : Session Config.default := { s.bumpSequence with
    voice := ⟨s.voice.audioTxSeq + 1, (s.voice.fecEnc.push s.voice.audioTxSeq payload).2⟩ }
  have hnumbered : Ready numbered := ⟨h.state, h.sid, h.book, h.key⟩
  have hpacket := audioPacket_ready hnumbered s.traffic.txSequence hplain
  let plain := be32 s.voice.audioTxSeq ++ payload
  let framePacket := Pairing.sealed .audioFrame s.traffic.txSequence plain
  obtain ⟨sent, hframes, hready, hseq, hsent⟩ : ∃ sent : Session Config.default,
      (∀ parity, numbered.sendFrames Crypto.toy start 1 s.traffic.txSequence plain parity
        ([host].length == 1) [host] 0 =
          (.ok (0 + framePacket.length), sent.followUp Crypto.toy start 1 parity host)) ∧
      Ready sent ∧ sent.traffic.txSequence = s.traffic.txSequence + 1 ∧
      sent.traffic.sent = (host, framePacket) :: s.traffic.sent := by
    obtain ⟨log, hlog⟩ := noteAudio_eq start 1 s.traffic.txSequence plain host numbered
    refine ⟨_, fun parity => sendFrames_cons_ok Crypto.toy start hpacket rfl, ?_⟩
    rw [hlog]
    exact ⟨⟨h.state, h.sid, h.book, h.key⟩, rfl, rfl⟩
  unfold sendAudio
  rw [if_neg (not_not.mpr h.state), if_neg (by simp [h.book]), h.book]
  unfold sendAudioTo
  dsimp only
  rw [h.sid, hframes]
  cases hpush : (s.voice.fecEnc.push s.voice.audioTxSeq payload).1 with
  | none => exact ⟨hseq, hsent⟩
  | some p =>
    have hfollow := sendFecParity_ready hready (hparity p hpush)
    rw [hseq, hsent] at hfollow
    exact hfollow

theorem length_parityOfWords (g : ℕ) : (parityOfWords g).length = 1 := by
  simp [parityOfWords, groupParity, fecWindow, List.range_succ, length_xorGrow, word]

/-- What a talk of `n` words puts on the wire. -/
structure Said (n : ℕ) (s : Session Config.default) (wire : List (ℕ × Bytes)) : Prop where
  talks : Talks Crypto.toy Pairing.keys.1 1 s (words n) wire
  ready : Ready s
  next : s.traffic.txSequence = UInt32.ofNat (2 + n + n / fecWindow)
  frames : ∀ k < n, (k / fecWindow, frame k) ∈ wire
  parities : ∀ g, fecWindow * g + fecWindow ≤ n → (g, parity g) ∈ wire

theorem Said.say {n : ℕ} {wire : List (ℕ × Bytes)} (h : Said n s wire) :
    ∃ t wire, Said (n + 1) t wire := by
  have hlen : (words n).length = n := by simp [words]
  have hwords : words n ++ [word n] = words (n + 1) := by simp [words, List.range_succ]
  obtain ⟨-, hpush⟩ := h.talks.numbered.push (word n)
  have hseq : s.voice.audioTxSeq = UInt32.ofNat n := by rw [h.talks.numbered.seq, hlen]
  have hready : Ready (s.sendAudio Crypto.toy start (word n)).2 :=
    h.ready.speaks (speaksOnly_sendAudio _ _ _ _)
  have hbook : s.peers.book.all ≠ [] := by simp [h.ready.book]
  have hkeys : ∀ peer ∈ s.peers.book.all, ∀ k ∈ s.peers.encKeyFor peer, k = Pairing.keys.1 := by
    intro peer hpeer k hk
    rw [h.ready.book, List.mem_singleton] at hpeer
    subst hpeer
    rw [h.ready.key] at hk
    exact (Option.some.inj hk).symm
  have hframe : Pairing.sealed .audioFrame s.traffic.txSequence
      (be32 s.voice.audioTxSeq ++ word n) = frame n := by
    rw [h.next, hseq]
    rfl
  rw [hlen, hwords] at hpush
  by_cases hfull : fecWindow ≤ n % fecWindow + 1
  · obtain ⟨htotal, hgroup⟩ := group_of_full hfull
    rw [if_pos hfull, parityOf_words htotal.ge] at hpush
    have hsend := sendAudio_ready h.ready (word n) (by simp [word])
      (by simp [hpush, length_parityOfWords])
    rw [hpush, hframe] at hsend
    obtain ⟨hnext, hsent⟩ := hsend
    have hparity : Pairing.sealed .audioFec (s.traffic.txSequence + 1)
        (be32 (UInt32.ofNat (fecWindow * (n / fecWindow))) ++ UInt8.ofNat fecWindow ::
          parityOfWords (n / fecWindow)) = parity (n / fecWindow) := by
      have hnum : 2 + n + n / fecWindow + 1 =
          2 + (fecWindow + 1) * (n / fecWindow) + fecWindow := by
        rw [Nat.succ_mul]
        omega
      have htx : s.traffic.txSequence + 1 =
          UInt32.ofNat (2 + (fecWindow + 1) * (n / fecWindow) + fecWindow) := by
        rw [h.next, ← hnum, UInt32.ofNat_add _ 1]
        rfl
      rw [htx]
      rfl
    rw [hparity] at hsent
    have hnew : (s.sendAudio Crypto.toy start (word n)).2.traffic.sent =
        [(host, parity (n / fecWindow)), (host, frame n)] ++ s.traffic.sent := hsent
    have htalks := h.talks.say start (word n) h.ready.state hbook h.ready.sid hkeys hnew
    rw [hwords, hlen] at htalks
    refine ⟨_, _, htalks, hready, ?_, fun k hk => ?_, fun g hg => ?_⟩
    · rw [hnext, h.next, hgroup, show 2 + (n + 1) + (n / fecWindow + 1) =
        2 + n + n / fecWindow + 1 + 1 by omega, UInt32.ofNat_add _ 1, UInt32.ofNat_add _ 1]
      rfl
    · rcases Nat.lt_succ_iff_lt_or_eq.mp hk with hk | rfl
      · exact List.mem_append_right _ (h.frames k hk)
      · simp
    · by_cases hold : fecWindow * g + fecWindow ≤ n
      · exact List.mem_append_right _ (h.parities g hold)
      · obtain rfl : g = n / fecWindow := by
          unfold fecWindow at *
          omega
        simp
  · have hgroup := group_of_room (Nat.not_le.mp hfull)
    rw [if_neg hfull] at hpush
    have hsend := sendAudio_ready h.ready (word n) (by simp [word]) (by simp [hpush])
    rw [hpush, hframe] at hsend
    obtain ⟨hnext, hsent⟩ := hsend
    have hnew : (s.sendAudio Crypto.toy start (word n)).2.traffic.sent =
        [(host, frame n)] ++ s.traffic.sent := hsent
    have htalks := h.talks.say start (word n) h.ready.state hbook h.ready.sid hkeys hnew
    rw [hwords, hlen] at htalks
    refine ⟨_, _, htalks, hready, ?_, fun k hk => ?_, fun g hg => ?_⟩
    · rw [hnext, h.next, hgroup, show 2 + (n + 1) + n / fecWindow =
        2 + n + n / fecWindow + 1 by omega, UInt32.ofNat_add _ 1]
      rfl
    · rcases Nat.lt_succ_iff_lt_or_eq.mp hk with hk | rfl
      · exact List.mem_append_right _ (h.frames k hk)
      · simp
    · refine List.mem_append_right _ (h.parities g ?_)
      unfold fecWindow at *
      omega

theorem exists_said (n : ℕ) : ∃ s wire, Said n s wire := by
  induction n with
  | zero =>
    exact ⟨guest, [], .start rfl, ready_guest, rfl, nofun, fun g hg => by
      unfold fecWindow at hg
      omega⟩
  | succ n ih =>
    obtain ⟨s, wire, h⟩ := ih
    exact h.say

/-- A packet of the guest arrives at the host. -/
theorem fromSpeaker_recv {m : Machine Crypto.toy Config.default} {wire : List (ℕ × Bytes)}
    {raw : Bytes} {g : ℕ} (hkeyed : Keyed m.session)
    (hinst : ∀ k ∈ m.session.history.installed, k.dec = Pairing.keys.1)
    (hroom : m.session.settings.multiPeer = false ∧ m.session.status.sessionId = 1)
    (hmem : (g, raw) ∈ wire) :
    FromSpeaker Pairing.keys.1 1 wire m.session (m.arrival (.recv Pairing.guest raw)) g := by
  intro sender raw' view msg harr _ _ _
  obtain ⟨-, rfl⟩ := arrival_recv harr
  refine ⟨hroom.1, hroom.2, fun key hkey => ?_, hmem⟩
  obtain ⟨k, hk, rfl⟩ := hkeyed key hkey
  exact hinst k hk

noncomputable def pairing : List (Env × Action × ℕ) := Pairing.steps.map fun x => (x.1, x.2, 0)

noncomputable def hears (raw : Bytes) (g : ℕ) : Env × Action × ℕ :=
  (Pairing.at' 1, .recv Pairing.guest raw, g)

noncomputable def hostStart : Listener Crypto.toy Config.default :=
  ⟨rest Crypto.toy (initial Config.default (Vector.replicate 8 0)), none⟩

/-- The host is ready for a packet of the guest. -/
def Tuned (l : Listener Crypto.toy Config.default) : Prop :=
  (∀ k ∈ l.machine.session.history.installed, k.dec = Pairing.keys.1) ∧
    l.machine.session.settings.multiPeer = false ∧ l.machine.session.status.sessionId = 1

instance (l : Listener Crypto.toy Config.default) : Decidable (Tuned l) :=
  inferInstanceAs (Decidable (_ ∧ _ ∧ _))

theorem keyed_listen {l : Listener Crypto.toy Config.default} (h : Keyed l.machine.session)
    (x : Env × Action × ℕ) : Keyed (listen Crypto.toy l x).machine.session := h.step x.2.1

theorem keyed_pairing :
    Keyed (pairing.foldl (listen Crypto.toy) hostStart).machine.session :=
  keyed_listen (keyed_listen (keyed_listen (keyed_initial _ _) _) _) _

/-- Packets of the wire, after a handshake, arrive at a host that is ready for them. -/
theorem fromSpeaker_hears {wire : List (ℕ × Bytes)} {heard : List (Env × Action × ℕ)}
    (hwire : ∀ x ∈ heard, ∃ p ∈ wire, x = hears p.2 p.1)
    (h : Along (listen Crypto.toy) (fun l _ => Tuned l)
      (pairing.foldl (listen Crypto.toy) hostStart) heard) :
    Along (listen Crypto.toy) (fun l x => FromSpeaker Pairing.keys.1 1 wire l.machine.session
      (l.machine.arrival x.2.1) x.2.2) hostStart (pairing ++ heard) := by
  rw [along_append]
  refine ⟨⟨nofun, nofun, nofun, trivial⟩, ?_⟩
  have hkeyed := keyed_pairing
  generalize pairing.foldl (listen Crypto.toy) hostStart = l at h hkeyed
  induction heard generalizing l with
  | nil => trivial
  | cons x heard ih =>
    obtain ⟨hx, hheard⟩ := List.forall_mem_cons.mp hwire
    obtain ⟨⟨hinst, hroom⟩, hrest⟩ := h
    obtain ⟨p, hp, rfl⟩ := hx
    exact ⟨fromSpeaker_recv hkeyed hinst hroom hp, ih hheard _ hrest (keyed_listen hkeyed _)⟩

end StreamExample

open StreamExample in
/-- Of four frames one is lost, and comes back from the parity. -/
theorem recovered_said_word :
    let steps := pairing ++ [hears (frame 0) 0, hears (frame 1) 0, hears (frame 2) 0,
      hears (parity 0) 0]
    let pushed := (steps.foldl (listen Crypto.toy) hostStart).machine.session.history.pushed
    pushed.head? = some ⟨⟨3, 0, word 3⟩, true⟩ ∧ ∀ p ∈ pushed, Sound (words 4) p := by
  obtain ⟨speaker, wire, h⟩ := exists_said 4
  have hsound (heard : List (Env × Action × ℕ)) (hwire : ∀ x ∈ heard, ∃ p ∈ wire, x = hears p.2 p.1)
      (htuned : Along (listen Crypto.toy) (fun l _ => Tuned l)
        (pairing.foldl (listen Crypto.toy) hostStart) heard)
      (hdistinct : Along (listen Crypto.toy) (fun l x => Feeds l.machine.session
        (listen Crypto.toy l x).machine.session → Distinct l.last x.2.2) hostStart
        (pairing ++ heard)) :
      ∀ p ∈ ((pairing ++ heard).foldl (listen Crypto.toy) hostStart).machine.session.history.pushed,
        Sound (words 4) p :=
    recovered_said Crypto.toy_roundTrip h.talks (Vector.replicate 8 0) (new_default _) _
      (along_and.mpr ⟨fromSpeaker_hears hwire htuned, hdistinct⟩)
  have hrun : let heard := [hears (frame 0) 0, hears (frame 1) 0, hears (frame 2) 0,
        hears (parity 0) 0]
      ((pairing ++ heard).foldl (listen Crypto.toy) hostStart).machine.session.history.pushed.head? =
          some ⟨⟨3, 0, word 3⟩, true⟩ ∧
        Along (listen Crypto.toy) (fun l _ => Tuned l)
          (pairing.foldl (listen Crypto.toy) hostStart) heard ∧
        Along (listen Crypto.toy) (fun l x => Feeds l.machine.session
          (listen Crypto.toy l x).machine.session → Distinct l.last x.2.2) hostStart
          (pairing ++ heard) := by
    decide +kernel
  refine ⟨hrun.1, hsound _ ?_ hrun.2.1 hrun.2.2⟩
  simp only [List.forall_mem_cons]
  exact ⟨⟨_, h.frames 0 (by decide), rfl⟩, ⟨_, h.frames 1 (by decide), rfl⟩,
    ⟨_, h.frames 2 (by decide), rfl⟩, ⟨_, h.parities 0 (by decide), rfl⟩, nofun⟩

open StreamExample in
/-- After frames `0` and `1` the next `2 ^ 32` are lost. The parity of the first
group with the same numbers is then taken with these two. -/
theorem recovered_mixed :
    ∃ (speaker : Session Config.default) (wire : List (ℕ × Bytes)),
      let k := 2 ^ 32 + 2
      let steps := pairing ++ [hears (frame 0) 0, hears (frame 1) 0, hears (frame k) (2 ^ 30),
        hears (parity (2 ^ 30)) (2 ^ 30)]
      Talks Crypto.toy Pairing.keys.1 1 speaker (words (2 ^ 32 + 4)) wire ∧
      Session.new Config.default (Vector.replicate 8 0) = some hostStart.machine.session ∧
      Along (listen Crypto.toy) (fun l x => FromSpeaker Pairing.keys.1 1 wire l.machine.session
        (l.machine.arrival x.2.1) x.2.2) hostStart steps ∧
      ∃ p ∈ (steps.foldl (listen Crypto.toy) hostStart).machine.session.history.pushed,
        ¬ Sound (words (2 ^ 32 + 4)) p := by
  obtain ⟨speaker, wire, h⟩ := exists_said (2 ^ 32 + 4)
  have hrun : let heard := [hears (frame 0) 0, hears (frame 1) 0,
        hears (frame (2 ^ 32 + 2)) (2 ^ 30), hears (parity (2 ^ 30)) (2 ^ 30)]
      Along (listen Crypto.toy) (fun l _ => Tuned l)
          (pairing.foldl (listen Crypto.toy) hostStart) heard ∧
        ⟨⟨3, 0, [2]⟩, true⟩ ∈ ((pairing ++ heard).foldl
          (listen Crypto.toy) hostStart).machine.session.history.pushed := by
    decide +kernel
  refine ⟨speaker, wire, h.talks, new_default _, fromSpeaker_hears ?_ hrun.1, _, hrun.2,
    fun hsound => ?_⟩
  · simp only [List.forall_mem_cons]
    exact ⟨⟨_, h.frames 0 (by decide), rfl⟩, ⟨_, h.frames 1 (by decide), rfl⟩,
      ⟨_, h.frames (2 ^ 32 + 2) (by decide), rfl⟩, ⟨_, h.parities (2 ^ 30) (by decide), rfl⟩,
      nofun⟩
  · obtain ⟨j, hj, hseq, hsame⟩ := hsound rfl
    have hzero : j ≠ 0 := by
      rintro rfl
      cases hseq
    rw [getD_words (by simpa [words] using hj), word, if_neg hzero] at hsame
    exact absurd (hsame 0) (by decide)

end Machine
end GravitalTalk
