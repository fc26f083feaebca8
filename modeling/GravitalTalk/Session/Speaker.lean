import GravitalTalk.Session.Send

/-!
# What a speaker puts on the wire

`send_audio` numbers the frames and sends the parity of every `fecWindow` of
them. Numbers are 32 bits wide and come back; the groups below are counted
without a bound.
-/
namespace GravitalTalk
namespace Session

variable {cfg : Config}

/-- The parity of a group of what was said. -/
def parityOf (said : List Bytes) (group : ℕ) : Bytes :=
  groupParity ((List.range fecWindow).map fun i => said.getD (fecWindow * group + i) [])

/-- A plaintext that belongs to a group of what was said. -/
inductive Spoken (said : List Bytes) : ℕ → MessageType → Bytes → Prop
  | frame (k : ℕ) (h : k < said.length) :
    Spoken said (k / fecWindow) .audioFrame (be32 (UInt32.ofNat k) ++ said.getD k [])
  | parity (group : ℕ) (h : fecWindow * group + fecWindow ≤ said.length) :
    Spoken said group .audioFec (be32 (UInt32.ofNat (fecWindow * group)) ++
      UInt8.ofNat fecWindow :: parityOf said group)

/-- The datagram is a packet of this type with this plaintext: encrypted under
`key` in session `sid`, or in clear. -/
inductive Carries (C : Crypto) (key : SessionKey) (sid : UInt32) (msg : MessageType)
    (plain raw : Bytes) : Prop
  | sealed (header : PacketHeader) (body : Bytes) (hversion : header.version = protocolVersion)
      (hflags : header.flags = Flags.encrypted) (hmsg : header.msgType = msg.code)
      (hbody : C.encryptInPlace key (makeNonce header.sequence sid) header.encode plain = .ok body)
      (hlen : body.length ≤ maxPayloadSize) (hraw : raw = PacketBuilder.bytes header body)
  | clear (header : PacketHeader) (hversion : header.version = protocolVersion)
      (hflags : header.flags = .empty) (hmsg : header.msgType = msg.code)
      (hlen : plain.length ≤ maxPayloadSize) (hraw : raw = PacketBuilder.bytes header plain)

/-- `s` has said `said` so far, and the datagrams of these calls, with the group
of the frame, are in `wire`. Between two calls anything may happen that leaves
the numbering alone. -/
inductive Talks (C : Crypto) (key : SessionKey) (sid : UInt32) :
    Session cfg → List Bytes → List (ℕ × Bytes) → Prop
  | start {s : Session cfg} (hvoice : s.voice = ⟨0, FecEncoder.new fecWindow⟩) :
    Talks C key sid s [] []
  | say {s : Session cfg} {said : List Bytes} {wire : List (ℕ × Bytes)}
      {sent : List (SocketAddr × Bytes)} (env : Env) (payload : Bytes)
      (h : Talks C key sid s said wire) (hstate : s.status.state = .active)
      (hbook : s.peers.book.all ≠ []) (hsid : s.status.sessionId = sid)
      (hkeys : ∀ peer ∈ s.peers.book.all, ∀ k ∈ s.peers.encKeyFor peer, k = key)
      (hsent : (s.sendAudio C env payload).2.traffic.sent = sent ++ s.traffic.sent) :
    Talks C key sid (s.sendAudio C env payload).2 (said ++ [payload])
      (sent.map (fun d => (said.length / fecWindow, d.2)) ++ wire)
  | pause {s t : Session cfg} {said : List Bytes} {wire : List (ℕ × Bytes)}
      (h : Talks C key sid s said wire) (hvoice : t.voice = s.voice) : Talks C key sid t said wire

variable {C : Crypto} {env : Env} {key : SessionKey} {sid : UInt32} {s t : Session cfg}
  {said : List Bytes} {payload : Bytes}

/-! ## One call -/

/-- The datagrams that a function sent all meet `P`. -/
def Sends (P : Bytes → Prop) (s t : Session cfg) : Prop :=
  ∃ sent, t.traffic.sent = sent ++ s.traffic.sent ∧ ∀ d ∈ sent, P d.2

theorem carries_of_encode {header : PacketHeader} {plain body raw : Bytes} {msg : MessageType}
    {capacity : ℕ} (hversion : header.version = protocolVersion)
    (hflags : header.flags = Flags.encrypted) (hmsg : header.msgType = msg.code)
    (hbody : C.encryptInPlace key (makeNonce header.sequence sid) header.encode plain = .ok body)
    (h : PacketBuilder.encode header body capacity = .ok raw) :
    Carries C key sid msg plain raw := by
  obtain ⟨rfl, hlen⟩ := PacketBuilder.encode_eq_ok h
  exact .sealed header body hversion hflags hmsg hbody hlen rfl

theorem carries_audioPacket {seq : UInt32} {plain raw : Bytes} {peer : SocketAddr}
    (hkey : ∀ k ∈ s.peers.encKeyFor peer, k = key)
    (h : s.audioPacket C env sid seq plain peer = .ok raw) :
    Carries C key sid .audioFrame plain raw := by
  unfold audioPacket at h
  dsimp only at h
  split at h
  · rename_i k hk
    obtain rfl := hkey k hk
    split at h
    · cases h
    · rename_i body hbody
      exact carries_of_encode rfl rfl rfl hbody h
  · obtain ⟨rfl, hlen⟩ := PacketBuilder.encode_eq_ok h
    exact .clear _ rfl rfl rfl hlen rfl

/-- A datagram of a call, with its target: the frame, or the parity it completed, under
whatever key the target has. -/
def OfCallTo (C : Crypto) (peers : Peers) (sid : UInt32) (plain : Bytes)
    (parity : Option FecParity) (d : SocketAddr × Bytes) : Prop :=
  ∀ key, (∀ k ∈ peers.encKeyFor d.1, k = key) → Carries C key sid .audioFrame plain d.2 ∨
    ∃ p ∈ parity, Carries C key sid .audioFec (be32 p.seqBase ++ p.window :: p.payload) d.2

/-- The datagrams that a function sent are of a call to one of `targets`. -/
def SendsTo (C : Crypto) (sid : UInt32) (plain : Bytes) (parity : Option FecParity)
    (targets : List SocketAddr) (s t : Session cfg) : Prop :=
  ∃ sent, t.traffic.sent = sent ++ s.traffic.sent ∧
    ∀ d ∈ sent, d.1 ∈ targets ∧ OfCallTo C s.peers sid plain parity d

section Calls

variable {plain : Bytes} {parity : Option FecParity} {targets : List SocketAddr}

theorem SendsTo.none (h : t.traffic.sent = s.traffic.sent) :
    SendsTo C sid plain parity targets s t := ⟨[], h, nofun⟩

theorem SendsTo.trans {u : Session cfg} (h : SendsTo C sid plain parity targets s t)
    (h' : SendsTo C sid plain parity targets t u) (hpeers : t.peers = s.peers) :
    SendsTo C sid plain parity targets s u := by
  obtain ⟨sent, hsent, hcalls⟩ := h
  obtain ⟨sent', hsent', hcalls'⟩ := h'
  refine ⟨sent' ++ sent, by rw [hsent', hsent, List.append_assoc], fun d hd => ?_⟩
  rcases List.mem_append.mp hd with hd | hd
  · rw [← hpeers]
    exact hcalls' d hd
  · exact hcalls d hd

theorem SendsTo.mono {targets' : List SocketAddr} (h : SendsTo C sid plain parity targets s t)
    (hsub : targets ⊆ targets') : SendsTo C sid plain parity targets' s t := by
  obtain ⟨sent, hsent, hcalls⟩ := h
  exact ⟨sent, hsent, fun d hd => ⟨hsub (hcalls d hd).1, (hcalls d hd).2⟩⟩

theorem sendsTo_followUp (peer : SocketAddr) :
    SendsTo C sid plain parity [peer] s (s.followUp C env sid parity peer) := by
  cases parity with
  | none => exact .none rfl
  | some p =>
    unfold followUp sendFecParity transmit
    dsimp only
    split
    · exact .none rfl
    · rename_i k hk
      split
      · exact .none rfl
      · rename_i body hbody
        split
        · exact .none rfl
        · rename_i raw hraw
          have hcall : OfCallTo C s.peers sid plain (some p) (peer, raw) := by
            intro key hkey
            obtain rfl := hkey k hk
            exact .inr ⟨p, rfl, carries_of_encode rfl rfl rfl hbody hraw⟩
          cases env.sendTo peer raw with
          | error e => exact ⟨[(peer, raw)], rfl, by simpa using hcall⟩
          | ok n => exact ⟨[(peer, raw)], rfl, by simpa using hcall⟩

theorem sendsTo_sendFrames (seq : UInt32) (alone : Bool) (total : ℕ) (s : Session cfg) :
    SendsTo C sid plain parity targets s
      (s.sendFrames C env sid seq plain parity alone targets total).2 := by
  induction targets generalizing total s with
  | nil => exact .none rfl
  | cons peer rest ih =>
    obtain ⟨log, hlog⟩ := noteAudio_eq env sid seq plain peer s
    rw [sendFrames, hlog]
    split
    · exact .none rfl
    · rename_i raw hraw
      let s' : Session cfg :=
        { s with traffic := { s.traffic with sealed := log, sent := (peer, raw) :: s.traffic.sent } }
      have hcall : OfCallTo C s.peers sid plain parity (peer, raw) :=
        fun key hkey => .inl (carries_audioPacket hkey hraw)
      have hframe : SendsTo C sid plain parity (peer :: rest) s s' :=
        ⟨[(peer, raw)], rfl, by simpa using hcall⟩
      have hgoes (t : Session cfg) (total : ℕ) (hsent : t.traffic.sent = s'.traffic.sent)
          (hpeers : t.peers = s.peers) : SendsTo C sid plain parity (peer :: rest) s
            ((t.followUp C env sid parity peer).sendFrames C env sid seq plain parity alone rest
              total).2 := by
        have hfollow := (sendsOnly_followUp C env sid parity peer t).peers
        have hparity : SendsTo C sid plain parity (peer :: rest) t
            (t.followUp C env sid parity peer) := (sendsTo_followUp peer).mono (by simp)
        exact ((hframe.trans (.none hsent) rfl).trans hparity hpeers).trans
          ((ih total _).mono (List.subset_cons_self peer rest)) (hfollow.trans hpeers)
      unfold transmit
      cases env.sendTo peer raw with
      | ok n => exact hgoes (s'.noteFramed peer plain) _ rfl rfl
      | error e =>
        cases alone with
        | true => exact hframe
        | false => exact hgoes s' _ rfl rfl

/-- `send_audio_to` sends the next frame and, when it completes a group, its parity. -/
theorem sendsTo_sendAudioTo (C : Crypto) (env : Env) (targets : List SocketAddr)
    (payload : Bytes) (s : Session cfg) :
    SendsTo C s.status.sessionId (be32 s.voice.audioTxSeq ++ payload)
      (s.voice.fecEnc.push s.voice.audioTxSeq payload).1 targets s
      (s.sendAudioTo C env payload targets).2 := by
  let numbered : Session cfg := { s.bumpSequence with
    voice := ⟨s.voice.audioTxSeq + 1, (s.voice.fecEnc.push s.voice.audioTxSeq payload).2⟩ }
  have h : SendsTo C s.status.sessionId (be32 s.voice.audioTxSeq ++ payload)
      (s.voice.fecEnc.push s.voice.audioTxSeq payload).1 targets numbered
      (numbered.sendFrames C env s.status.sessionId s.traffic.txSequence
        (be32 s.voice.audioTxSeq ++ payload)
        (s.voice.fecEnc.push s.voice.audioTxSeq payload).1 (targets.length == 1) targets 0).2 :=
    sendsTo_sendFrames _ _ _ _
  unfold sendAudioTo
  dsimp only
  split
  · rename_i e t heq
    rw [heq] at h
    exact h
  · rename_i total t heq
    rw [heq] at h
    exact h

end Calls

/-- A datagram of a call: the frame, or the parity it completed. -/
def OfCall (C : Crypto) (key : SessionKey) (sid : UInt32) (plain : Bytes)
    (parity : Option FecParity) (raw : Bytes) : Prop :=
  Carries C key sid .audioFrame plain raw ∨ ∃ p ∈ parity,
    Carries C key sid .audioFec (be32 p.seqBase ++ p.window :: p.payload) raw

/-- `send_audio` sends the next frame and, when it completes a group, its parity. -/
theorem sends_sendAudio (hstate : s.status.state = .active) (hbook : s.peers.book.all ≠ [])
    (hkeys : ∀ peer ∈ s.peers.book.all, ∀ k ∈ s.peers.encKeyFor peer, k = key) :
    Sends (OfCall C key s.status.sessionId (be32 s.voice.audioTxSeq ++ payload)
        (s.voice.fecEnc.push s.voice.audioTxSeq payload).1) s (s.sendAudio C env payload).2 := by
  obtain ⟨sent, hsent, hcalls⟩ := sendsTo_sendAudioTo C env s.peers.book.all payload s
  unfold sendAudio
  rw [if_neg (not_not.mpr hstate), if_neg hbook]
  refine ⟨sent, hsent, fun d hd => ?_⟩
  obtain ⟨hpeer, hcall⟩ := hcalls d hd
  exact hcall key (hkeys d.1 hpeer)

theorem voice_sendAudio (hstate : s.status.state = .active) (hbook : s.peers.book.all ≠ []) :
    (s.sendAudio C env payload).2.voice = ⟨s.voice.audioTxSeq + 1,
      (s.voice.fecEnc.push s.voice.audioTxSeq payload).2⟩ := by
  obtain ⟨h, -⟩ := sendAudioTo_voice C env payload s.peers.book.all s
  unfold sendAudio
  rw [if_neg (not_not.mpr hstate), if_neg hbook]
  rw [h]

/-! ## Numbering -/

/-- The counters of a session that has said `said`: the encoder holds what there
is of the current group. -/
structure Numbered (v : Voice) (said : List Bytes) : Prop where
  seq : v.audioTxSeq = UInt32.ofNat said.length
  enc : v.fecEnc.Holds (UInt32.ofNat (fecWindow * (said.length / fecWindow)))
    (said.drop (fecWindow * (said.length / fecWindow)))

theorem numbered_nil : Numbered ⟨0, FecEncoder.new fecWindow⟩ [] :=
  ⟨rfl, FecEncoder.holds_new _⟩

/-- The last `fecWindow` payloads are a group. -/
theorem groupParity_drop (group : ℕ) (h : said.length = fecWindow * group + fecWindow) :
    groupParity (said.drop (fecWindow * group)) = parityOf said group := by
  unfold parityOf
  congr 1
  apply List.ext_getElem
  · simp [h]
  · intro i hi hi'
    have hlt : fecWindow * group + i < said.length := by
      simp only [List.length_map, List.length_range] at hi'
      omega
    simp [List.getD_eq_getElem?_getD, List.getElem?_eq_getElem hlt]

theorem group_of_full {n : ℕ} (h : fecWindow ≤ n % fecWindow + 1) :
    n + 1 = fecWindow * (n / fecWindow) + fecWindow ∧ (n + 1) / fecWindow = n / fecWindow + 1 := by
  unfold fecWindow at *
  omega

theorem group_of_room {n : ℕ} (h : n % fecWindow + 1 < fecWindow) :
    (n + 1) / fecWindow = n / fecWindow := by
  unfold fecWindow at *
  omega

/-- One more frame, and the parity when it completes a group. -/
theorem Numbered.push {v : Voice} (h : Numbered v said) (payload : Bytes) :
    Numbered ⟨v.audioTxSeq + 1, (v.fecEnc.push v.audioTxSeq payload).2⟩ (said ++ [payload]) ∧
      (v.fecEnc.push v.audioTxSeq payload).1 =
        if fecWindow ≤ said.length % fecWindow + 1 then
          some ⟨UInt32.ofNat (fecWindow * (said.length / fecWindow)), UInt8.ofNat fecWindow,
            parityOf (said ++ [payload]) (said.length / fecWindow)⟩
        else none := by
  have hdiv := Nat.div_add_mod said.length fecWindow
  have hlen : (said.drop (fecWindow * (said.length / fecWindow))).length =
      said.length % fecWindow := by
    rw [List.length_drop]
    omega
  have hdrop : (said ++ [payload]).drop (fecWindow * (said.length / fecWindow)) =
      said.drop (fecWindow * (said.length / fecWindow)) ++ [payload] :=
    List.drop_append_of_le_length (by omega)
  have hseq : v.audioTxSeq = UInt32.ofNat (fecWindow * (said.length / fecWindow)) +
      UInt32.ofNat (said.drop (fecWindow * (said.length / fecWindow))).length := by
    rw [h.seq, hlen, ← UInt32.ofNat_add, hdiv]
  have hsucc : (said ++ [payload]).length = said.length + 1 := by simp
  have hnext : v.audioTxSeq + 1 = UInt32.ofNat (said ++ [payload]).length := by
    rw [h.seq, hsucc, UInt32.ofNat_add]
    rfl
  rcases h.enc.push payload hseq with ⟨hfull, hout, hempty⟩ | ⟨hroom, hout, hholds⟩
  · rw [hlen] at hfull
    obtain ⟨htotal, hgroup⟩ := group_of_full hfull
    rw [← hsucc] at htotal hgroup
    refine ⟨⟨hnext, ?_⟩, ?_⟩
    · rw [hgroup, List.drop_eq_nil_of_le (by rw [htotal, Nat.mul_succ])]
      exact hempty _
    · rw [hout, if_pos hfull, ← hdrop, groupParity_drop _ htotal]
  · rw [hlen] at hroom
    have hgroup := group_of_room hroom
    rw [← hsucc] at hgroup
    refine ⟨⟨hnext, ?_⟩, ?_⟩
    · rw [hgroup, hdrop]
      exact hholds
    · rw [hout, if_neg (Nat.not_le.mpr hroom)]

theorem Talks.numbered {wire : List (ℕ × Bytes)} (h : Talks C key sid s said wire) :
    Numbered s.voice said := by
  induction h with
  | start hvoice =>
    rw [hvoice]
    exact numbered_nil
  | say env payload h hstate hbook hsid hkeys hsent ih =>
    rw [voice_sendAudio hstate hbook]
    exact (ih.push payload).1
  | pause h hvoice ih => rwa [hvoice]

theorem Spoken.extend {group : ℕ} {msg : MessageType} {plain : Bytes}
    (h : Spoken said group msg plain) (payload : Bytes) :
    Spoken (said ++ [payload]) group msg plain := by
  have hget (k : ℕ) (hk : k < said.length) : said.getD k [] = (said ++ [payload]).getD k [] := by
    simp [List.getD_eq_getElem?_getD, List.getElem?_append_left hk]
  cases h with
  | frame k hk =>
    rw [hget k hk]
    exact .frame k (by rw [List.length_append]; omega)
  | parity group hgroup =>
    have hparity : parityOf said group = parityOf (said ++ [payload]) group := by
      unfold parityOf
      congr 1
      apply List.map_congr_left
      intro i hi
      exact hget _ (by have := List.mem_range.mp hi; omega)
    rw [hparity]
    exact .parity group (by rw [List.length_append]; omega)

/-- Every datagram of a talk carries a frame that was said or the parity of a
group of such frames. -/
theorem Talks.wire {wire : List (ℕ × Bytes)} (h : Talks C key sid s said wire) :
    ∀ d ∈ wire, ∃ msg plain, Spoken said d.1 msg plain ∧ Carries C key sid msg plain d.2 := by
  induction h with
  | start hvoice => exact nofun
  | pause h hvoice ih => exact ih
  | @say s said wire sent env payload h hstate hbook hsid hkeys hsent ih =>
    intro d hd
    rcases List.mem_append.mp hd with hd | hd
    · obtain ⟨d, hin, rfl⟩ := List.mem_map.mp hd
      obtain ⟨sent', hsent', hP⟩ := sends_sendAudio (C := C) hstate hbook hkeys
      obtain rfl : sent = sent' := List.append_cancel_right (hsent.symm.trans hsent')
      obtain ⟨-, hparity⟩ := h.numbered.push payload
      have hframe : Spoken (said ++ [payload]) (said.length / fecWindow) .audioFrame
          (be32 s.voice.audioTxSeq ++ payload) := by
        have hlast : Spoken (said ++ [payload]) (said.length / fecWindow) .audioFrame
            (be32 (UInt32.ofNat said.length) ++ (said ++ [payload]).getD said.length []) :=
          .frame said.length (by simp)
        simpa [h.numbered.seq] using hlast
      rcases hP d hin with hc | ⟨p, hp, hc⟩
      · exact ⟨_, _, hframe, hsid ▸ hc⟩
      · rw [hparity] at hp
        split_ifs at hp with hfull
        · cases hp
          obtain ⟨htotal, -⟩ := group_of_full hfull
          exact ⟨_, _, .parity _ (by simp [htotal]), hsid ▸ hc⟩
        · cases hp
    · obtain ⟨msg, plain, hspoken, hcarries⟩ := ih d hd
      exact ⟨msg, plain, hspoken.extend payload, hcarries⟩

end Session
end GravitalTalk
