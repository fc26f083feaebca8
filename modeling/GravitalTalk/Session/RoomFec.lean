import GravitalTalk.Session.Rules

/-!
# Parity in a room

A host numbers the frames of whoever has the floor so that they continue its
buffer, and one parity decoder groups them by these local numbers. A guest's
parity protects groups of its own numbering. What comes out of the decoder is
right as long as no group mixes the frames of two speakers.
-/
namespace GravitalTalk
namespace Machine

open Session Relation Run

variable {cfg : Config} {C : Crypto} {env : Env} {i : Arrival} {s₀ s t : Session cfg}

/-- The payload each guest sent under each number of its own. -/
abbrev Sent := SocketAddr → UInt32 → Bytes

/-- The parity of the group that starts at `base`, as a guest computes it. -/
def Sent.parity (sent : Sent) (guest : SocketAddr) (base : UInt32) : Bytes :=
  groupParity ((List.range fecWindow).map fun k => sent guest (base + UInt32.ofNat k))

/-- The plaintext of an audio packet of a guest. -/
def Sent.Plain (sent : Sent) (guest : SocketAddr) (plain : Bytes) : MessageType → Prop
  | .audioFrame => ∃ n, plain = be32 n ++ sent guest n
  | .audioFec => ∃ base, plain = be32 base ++ UInt8.ofNat fecWindow :: sent.parity guest base
  | _ => True

/-- The receive loops of a multi-peer host get audio packets of guests, each
from the guest it says. -/
def FromGuests (C : Crypto) (sent : Sent) (m : Machine C cfg) (a : Action) : Prop :=
  ∀ sender raw, m.arrival a = .loop sender raw → m.session.settings.multiPeer = true ∧
    ∀ view msg plain, PacketView.decode raw = .ok view →
      MessageType.fromCode view.header.msgType = .ok msg → m.session.Says C view raw plain →
      sent.Plain sender plain msg

/-- When a frame that the replay window lets pass takes the floor from another
speaker, the decoder is not in the group that the buffer waits for. -/
def HandsOverApart (C : Crypto) (env : Env) (m : Machine C cfg) (a : Action) : Prop :=
  ∀ sender raw view plain holder till offset, m.arrival a = .loop sender raw →
    PacketView.decode raw = .ok view →
    MessageType.fromCode view.header.msgType = .ok .audioFrame →
    m.session.Says C view raw plain →
    (sender ∈ m.session.peers.book.peers → m.session.Accepts sender view.header.sequence) →
    m.session.media.floor = some (holder, till, offset) → holder ≠ sender → till ≤ env.now →
    m.session.media.fecDec.Apart
      (FecDecoder.groupBase fecWindow m.session.media.jitter.nextSeq)

/-- The decoder holds frames of the current speaker only. -/
def RoomHolds (sent : Sent) (m : Media cfg) : Prop :=
  match m.floor with
  | none => m.fecDec.active = false
  | some (holder, _, offset) => m.fecDec.Tracks fun seq => sent holder (seq - offset)

/-- A recovered frame is what the speaker sent under the number that the local
one stands for. -/
def Recovers (sent : Sent) (floor : Option (SocketAddr × ℕ × UInt32)) (p : Pushed) : Prop :=
  p.recovered = true → ∃ holder till offset, floor = some (holder, till, offset) ∧
    SamePadded p.frame.payload (sent holder (p.frame.sequence - offset))

/-- Along the effects of a step from `s₀`: the decoder is in order, and so is
what was pushed. -/
structure RoomOk (sent : Sent) (s₀ s : Session cfg) : Prop where
  holds : RoomHolds sent s.media
  pushed : ∃ new, s.history.pushed = new ++ s₀.history.pushed ∧
    ∀ p ∈ new, Recovers sent s₀.media.floor p

variable {sent : Sent}

theorem RoomOk.of_eq (h : RoomOk sent s₀ s) (hfec : t.media.fecDec = s.media.fecDec)
    (hfloor : t.media.floor = s.media.floor) (hpushed : t.history.pushed = s.history.pushed) :
    RoomOk sent s₀ t := by
  refine ⟨?_, ?_⟩
  · have := h.holds
    unfold RoomHolds at this ⊢
    rwa [hfec, hfloor]
  · rw [hpushed]
    exact h.pushed

theorem RoomOk.calm (h : RoomOk sent s₀ s) (hc : Calm s t) : RoomOk sent s₀ t :=
  h.of_eq (by rw [hc.media]) (by rw [hc.media]) (by rw [hc.history])

theorem RoomOk.speaks (h : RoomOk sent s₀ s) (hs : SpeaksOnly s t) : RoomOk sent s₀ t :=
  h.of_eq (by rw [hs.media]) (by rw [hs.media]) (by rw [hs.history])

/-- A frame of the speaker is played. -/
theorem RoomHolds.play {m : Media cfg} (h : RoomHolds sent m) {now : ℕ} {sender : SocketAddr}
    {n offset : UInt32} (hfloor : TakesFloor now sender n m offset)
    (hapart : ∀ holder till offset, m.floor = some (holder, till, offset) → holder ≠ sender →
      till ≤ now → m.fecDec.Apart (FecDecoder.groupBase fecWindow m.jitter.nextSeq)) :
    (m.fecDec.pushData (n + offset) (sent sender n)).2.Tracks
      fun seq => sent sender (seq - offset) := by
  let frame (seq : UInt32) : Bytes := sent sender (seq - offset)
  have hpayload : sent sender n = frame (n + offset) := by
    change _ = sent sender (n + offset - offset)
    rw [add_sub_cancel_right]
  rw [hpayload]
  apply FecDecoder.tracks_pushData
  cases hfloor with
  | keep hkeep =>
    unfold RoomHolds at h
    rw [hkeep] at h
    exact h.select _
  | take htake =>
    have hseq : n + (m.jitter.nextSeq - n) = m.jitter.nextSeq := add_sub_cancel n _
    rw [hseq]
    apply FecDecoder.Apart.tracks_select
    cases hm : m.floor with
    | none =>
      unfold RoomHolds at h
      rw [hm] at h
      exact .inl h
    | some f =>
      obtain ⟨holder, till, offset⟩ := f
      obtain ⟨hne, htill⟩ := htake holder till offset hm
      exact hapart holder till offset hm hne htill

theorem parityBase_room (hmulti : s.settings.multiPeer = true) {sender : SocketAddr}
    {senderBase base : UInt32} (h : s.parityBase sender senderBase = some base) :
    ∃ till offset, s.media.floor = some (sender, till, offset) ∧ base = senderBase + offset := by
  unfold parityBase at h
  rw [if_pos hmulti] at h
  split at h
  · rename_i holder till offset hfloor
    split_ifs at h with hsender
    subst hsender
    exact ⟨till, offset, hfloor, (Option.some.inj h).symm⟩
  · cases h

/-- The speaker's parity is taken in. -/
theorem RoomHolds.feed {m : Media cfg} (h : RoomHolds sent m) (base : UInt32)
    {sender : SocketAddr} {till : ℕ} {offset : UInt32}
    (hfloor : m.floor = some (sender, till, offset)) :
    let r := m.fecDec.pushParity ⟨base + offset, UInt8.ofNat fecWindow, sent.parity sender base⟩
    r.2.Tracks (fun seq => sent sender (seq - offset)) ∧
      ∀ seq out, r.1 = some (seq, out) → SamePadded out (sent sender (seq - offset)) := by
  have htracks : m.fecDec.Tracks fun seq => sent sender (seq - offset) := by
    unfold RoomHolds at h
    rwa [hfloor] at h
  have hparity : sent.parity sender base = groupParity ((List.range fecWindow).map fun k =>
      sent sender (base + offset + UInt32.ofNat k - offset)) := by
    unfold Sent.parity
    congr 1
    apply List.map_congr_left
    intro k _
    rw [add_right_comm, add_sub_cancel_right]
  obtain ⟨hnext, hout⟩ := FecDecoder.tracks_pushParity
    (p := ⟨base + offset, UInt8.ofNat fecWindow, sent.parity sender base⟩)
    (htracks.select (base + offset)) hparity
  exact ⟨hnext, fun seq out h => (hout seq out h).2⟩

/-- What one effect on the audio path does to the decoder and the buffer. -/
theorem RoomOk.rx (h : RoomOk sent s₀ s)
    (hguests : ∀ sender raw, i = .loop sender raw → s₀.settings.multiPeer = true ∧
      ∀ view msg plain, PacketView.decode raw = .ok view →
        MessageType.fromCode view.header.msgType = .ok msg → s₀.Says C view raw plain →
        sent.Plain sender plain msg)
    (hhand : ∀ sender raw view plain holder till offset, i = .loop sender raw →
      PacketView.decode raw = .ok view →
      MessageType.fromCode view.header.msgType = .ok .audioFrame → s₀.Says C view raw plain →
      (sender ∈ s₀.peers.book.peers → s₀.Accepts sender view.header.sequence) →
      s₀.media.floor = some (holder, till, offset) → holder ≠ sender → till ≤ env.now →
      s₀.media.fecDec.Apart (FecDecoder.groupBase fecWindow s₀.media.jitter.nextSeq))
    (he : RxEffect C env i s₀ s t) : RoomOk sent s₀ t := by
  cases he with
  | quiet hq => exact h.calm hq.calm
  | see => exact h.of_eq rfl rfl rfl
  | drop gone => exact h.of_eq rfl rfl rfl
  | buffer jitter gap => exact h.of_eq rfl rfl rfl
  | note => exact h.of_eq rfl rfl rfl
  | migrate =>
    rename_i sender old raw plain view key _ _ _ _ _ _ _
    rcases switchPeer_cases env old sender s with hs | ⟨book, -, hq⟩
    · rwa [hs]
    · exact h.of_eq (by rw [hq.media]) (by rw [hq.media]) (by rw [hq.history])
  | probe =>
    rename_i sender old raw _ _ _ _ _ _ _
    rcases switchPeer_cases env old sender s with hs | ⟨book, -, hq⟩
    · rwa [hs]
    · exact h.of_eq (by rw [hq.media]) (by rw [hq.media]) (by rw [hq.history])
  | check =>
    rename_i sender raw view _ _ _
    rcases antiReplay_cases view raw sender s with ⟨-, hs⟩ | ⟨key, -, -, hq⟩
    · rwa [hs]
    · exact h.of_eq (by rw [hq.media]) (by rw [hq.media]) (by rw [hq.history])
  | hear hi hview htype hmedia hset hfresh hread =>
    rename_i sender raw plain view
    obtain ⟨hmulti, hplain⟩ := hguests sender raw hi
    have hsaid := hread.said
    obtain ⟨n, rfl⟩ := hplain view .audioFrame plain hview htype hsaid
    obtain ⟨hn, hpayload⟩ := plain_frame n (sent sender n)
    rcases hearFrame_cases C env sender view.header.timestamp (be32 n ++ sent sender n) s with
      hq | ⟨-, hno, -⟩ | ⟨-, -, offset, hfloor, hq⟩
    · exact h.calm hq.calm
    · rw [hset, hmulti] at hno
      cases hno
    · rw [hn] at hfloor hq
      rw [hpayload] at hq
      have hholds := h.holds
      rw [hmedia] at hfloor hholds
      have htracks := hholds.play hfloor fun holder till offset =>
        hhand sender raw view _ holder till offset hi hview htype hsaid hfresh
      refine RoomOk.speaks ⟨?_, ?_⟩ hq
      · change (s.media.fecDec.pushData (n + offset) (sent sender n)).2.Tracks _
        rw [hmedia]
        exact htracks
      · obtain ⟨new, hnew, hrec⟩ := h.pushed
        refine ⟨⟨⟨n + offset, view.header.timestamp, sent sender n⟩, false⟩ :: new, ?_, ?_⟩
        · exact congrArg (List.cons _) hnew
        · intro p hp
          rcases List.mem_cons.mp hp with rfl | hp
          · exact nofun
          · exact hrec p hp
  | parity hi hview htype hmedia hset hfresh hflag hread =>
    rename_i sender raw plain view
    obtain ⟨hmulti, hplain⟩ := hguests sender raw hi
    obtain ⟨base, rfl⟩ := hplain view .audioFec plain hview htype hread.said
    obtain ⟨hbase, hpayload⟩ := plain_parity base (UInt8.ofNat fecWindow) (sent.parity sender base)
    rcases hearParity_cases sender (be32 base ++ UInt8.ofNat fecWindow :: sent.parity sender base)
      s with hs | ⟨-, local_, hlocal, hs⟩
    · rwa [hs]
    · rw [hbase] at hlocal
      rw [hpayload] at hs
      obtain ⟨till, offset, hfloor, rfl⟩ := parityBase_room (hset ▸ hmulti) hlocal
      have hcount : (be32 base ++ UInt8.ofNat fecWindow :: sent.parity sender base).getD 4 0 =
          UInt8.ofNat fecWindow := by
        simp
      rw [hcount] at hs
      obtain ⟨hnext, hout⟩ := h.holds.feed base hfloor
      have hholds (m : Media cfg) (hm : m.floor = s.media.floor) (hd : m.fecDec =
          (s.media.fecDec.pushParity
            ⟨base + offset, UInt8.ofNat fecWindow, sent.parity sender base⟩).2) :
          RoomHolds sent m := by
        unfold RoomHolds
        rw [hm, hfloor, hd]
        exact hnext
      obtain ⟨new, hnew, hrec⟩ := h.pushed
      rcases hs with ⟨-, hs⟩ | ⟨seq, out, hr, hs⟩
      · rw [hs]
        exact ⟨hholds _ rfl rfl, new, hnew, hrec⟩
      · rw [hs]
        refine ⟨hholds _ rfl rfl, ⟨⟨seq, 0, out⟩, true⟩ :: new, congrArg (List.cons _) hnew, ?_⟩
        intro p hp
        rcases List.mem_cons.mp hp with rfl | hp
        · exact fun _ => ⟨sender, till, offset, hmedia ▸ hfloor, hout seq out hr⟩
        · exact hrec p hp

/-- The other effects leave the audio path alone, but for a reopened session. -/
theorem RoomOk.effect (h : RoomOk sent s₀ s)
    (hrx : ∀ {s t}, RoomOk sent s₀ s → RxEffect C env i s₀ s t → RoomOk sent s₀ t)
    (he : Effect C env i s₀ s t) : RoomOk sent s₀ t := by
  cases he with
  | rx he => exact hrx h he
  | calm hc => exact h.calm hc
  | insert a => exact h.of_eq rfl rfl rfl
  | remove a => exact h.of_eq rfl rfl rfl
  | clearBook => exact h.of_eq rfl rfl rfl
  | joins pending => exact h.of_eq rfl rfl rfl
  | install peer enc dec => exact h.of_eq rfl rfl rfl
  | say payload => exact h.speaks (speaksOnly_sendAudio C env payload s)
  | close =>
    rw [close_eq]
    exact h.of_eq rfl rfl rfl
  | reopen =>
    have hwiped : RoomOk sent s₀ s.wiped := by
      refine ⟨?_, h.pushed⟩
      unfold RoomHolds
      split
      · rfl
      · exact FecDecoder.tracks_new _
    unfold Session.reopen
    dsimp only
    split_ifs
    · exact h
    · split
      · exact hwiped
      · exact hwiped.of_eq rfl rfl rfl

/-- One step of a host in a room. -/
theorem RoomOk.step {m : Machine C cfg} {a : Action} (h : RoomHolds sent m.session.media)
    (hguests : FromGuests C sent m a) (hhand : HandsOverApart C env m a) :
    RoomOk sent m.session (step C env m a).session := by
  have hstart : RoomOk sent m.session m.session := ⟨h, [], rfl, nofun⟩
  refine step_invariant (fun _ _ h => h.of_eq rfl rfl rfl) (fun h he => h.effect ?_ he) hstart
  exact fun h he => h.rx hguests hhand he

/-- The frames that the step gets out of the decoder are sound. -/
def RecoversSound (C : Crypto) (env : Env) (sent : Sent) (m : Machine C cfg) (a : Action) : Prop :=
  ∃ new, (step C env m a).session.history.pushed = new ++ m.session.history.pushed ∧
    ∀ p ∈ new, Recovers sent m.session.media.floor p

/-- The toy cipher hides nothing. -/
theorem toy_said {view : PacketView} {raw plain : Bytes}
    (hflag : view.header.flags.contains .encrypted = true)
    (h : s.Says Crypto.toy view raw plain) :
    plain = view.payload.take (view.payload.length - tagSize) := by
  rcases h with ⟨-, key, -, hopen⟩ | ⟨hclear, -⟩
  · rw [openWith_eq_some] at hopen
    unfold Crypto.decryptInPlace at hopen
    simp only [Crypto.toy] at hopen
    split_ifs at hopen
    cases hopen
    rfl
  · rw [hflag] at hclear
    cases hclear

/-- What a sealed packet decodes to and opens to. -/
theorem decode_sealedWith {key : SessionKey} {msg : MessageType} {seq : UInt32} {plain : Bytes}
    {view : PacketView} (hlen : plain.length + tagSize ≤ maxPayloadSize)
    (hview : PacketView.decode (Pairing.sealedWith key msg seq plain) = .ok view) :
    view.header = ⟨protocolVersion, Flags.encrypted, msg.code, 1, seq, 0⟩ ∧
      view.payload.take (view.payload.length - tagSize) = plain := by
  have hsealed : Pairing.sealedWith key msg seq plain = PacketBuilder.bytes
      ⟨protocolVersion, Flags.encrypted, msg.code, 1, seq, 0⟩
      (plain ++ Crypto.toyTag key) := rfl
  rw [hsealed] at hview
  rw [PacketBuilder.decode_bytes rfl (by simpa [Crypto.length_toyTag] using hlen)] at hview
  cases hview
  exact ⟨rfl, by simp [Crypto.length_toyTag]⟩

/-- A packet sealed by a guest is from that guest. -/
theorem fromGuests_sealedWith {m : Machine Crypto.toy cfg} {guest : SocketAddr}
    {key : SessionKey} {msg : MessageType} {seq : UInt32} {plain : Bytes}
    (hmulti : m.session.settings.multiPeer = true)
    (hlen : plain.length + tagSize ≤ maxPayloadSize)
    (hmsg : MessageType.fromCode msg.code = .ok msg) (hplain : sent.Plain guest plain msg) :
    FromGuests Crypto.toy sent m (.recv guest (Pairing.sealedWith key msg seq plain)) := by
  intro sender raw harr
  obtain ⟨rfl, rfl⟩ := arrival_recv harr
  refine ⟨hmulti, fun view msg' plain' hview hmsg' hsaid => ?_⟩
  obtain ⟨hheader, hbody⟩ := decode_sealedWith hlen hview
  have hflag : Flags.encrypted.contains .encrypted = true := by decide
  rw [hheader] at hmsg'
  obtain rfl : msg = msg' := Except.ok.inj (hmsg.symm.trans hmsg')
  obtain rfl : plain' = plain := (toy_said (hheader ▸ hflag) hsaid).trans hbody
  exact hplain

/-- Whoever has the floor may go on. -/
theorem handsOverApart_holder {m : Machine C cfg} {guest : SocketAddr} {raw : Bytes}
    (h : ∀ f ∈ m.session.media.floor, f.1 = guest) :
    HandsOverApart C env m (.recv guest raw) := by
  intro sender raw' view plain holder till offset harr _ _ _ _ hfloor hne
  obtain ⟨rfl, -⟩ := arrival_recv harr
  exact absurd (h _ hfloor) hne

namespace RoomExample

/-- A guest who joins the room while it is running. -/
def other : SocketAddr := .v4 (Vector.replicate 4 8) 9

/-- One guest says `0, 1, 2, …`, the other `100, 102, 104, …`. -/
def words : Sent := fun guest n =>
  [UInt8.ofNat (if guest = other then 100 + 2 * n.toNat else n.toNat)]

def key (guest : SocketAddr) : SessionKey :=
  if guest = other then (Pairing.noiseKeys (Vector.replicate 32 0)).1 else Pairing.keys.1

def frame (guest : SocketAddr) (seq n : UInt32) : Action :=
  .recv guest (Pairing.sealedWith (key guest) .audioFrame seq (be32 n ++ words guest n))

def parity (guest : SocketAddr) (seq base : UInt32) : Action :=
  .recv guest (Pairing.sealedWith (key guest) .audioFec seq
    (be32 base ++ UInt8.ofNat fecWindow :: words.parity guest base))

noncomputable def join : List (Env × Action) :=
  (Pairing.at' 1, .setMultiPeer true) :: Pairing.steps

noncomputable def joinOther : List (Env × Action) :=
  [(Pairing.at' 1, .recv other (Pairing.noiseHelloDatagram (Vector.replicate 32 0))),
    (Pairing.at' 1, .recv other (Pairing.noiseKeyExchangeDatagram (Vector.replicate 32 0)))]

noncomputable def start : Machine Crypto.toy Config.default :=
  rest Crypto.toy (initial Config.default (Vector.replicate 8 0))

variable {m : Machine Crypto.toy Config.default}

theorem fromGuests_frame (hmulti : m.session.settings.multiPeer = true) (guest : SocketAddr)
    (seq n : UInt32) : FromGuests Crypto.toy words m (frame guest seq n) := by
  apply fromGuests_sealedWith hmulti
  · simp [words, maxPayloadSize, defaultMtu, headerSize, tagSize]
  · decide
  · exact ⟨n, rfl⟩

theorem length_parity_words (guest : SocketAddr) (base : UInt32) :
    (words.parity guest base).length = 1 := by
  simp [Sent.parity, groupParity, fecWindow, List.range_succ, length_xorGrow, words]

theorem fromGuests_parity (hmulti : m.session.settings.multiPeer = true) (guest : SocketAddr)
    (seq base : UInt32) : FromGuests Crypto.toy words m (parity guest seq base) := by
  apply fromGuests_sealedWith hmulti
  · simp [length_parity_words, maxPayloadSize, defaultMtu, headerSize, tagSize]
  · decide
  · exact ⟨base, rfl⟩

/-- A run of a host in a room, after the first guest has joined. -/
theorem fromGuests_join {steps : List (Env × Action)}
    (hsteps : ∀ x ∈ steps, ∀ m : Machine Crypto.toy Config.default,
      m.session.settings.multiPeer = true → FromGuests Crypto.toy words m x.2)
    (hmulti : Along (fun m x => step Crypto.toy x.1 m x.2)
      (fun m _ => m.session.settings.multiPeer = true) (run Crypto.toy start join) steps) :
    Along (fun m x => step Crypto.toy x.1 m x.2)
      (fun m x => FromGuests Crypto.toy words m x.2) start (join ++ steps) := by
  rw [along_append]
  refine ⟨⟨nofun, nofun, nofun, nofun, trivial⟩, ?_⟩
  unfold run at hmulti
  generalize join.foldl _ start = m at hmulti ⊢
  induction steps generalizing m with
  | nil => trivial
  | cons x steps ih =>
    obtain ⟨hx, hsteps⟩ := List.forall_mem_cons.mp hsteps
    exact ⟨hx m hmulti.1, ih hsteps _ hmulti.2⟩

/-- As long as one guest speaks, no floor is handed over. -/
theorem handsOverApart_join {guest : SocketAddr} {steps : List (Env × Action)}
    (hsteps : ∀ x ∈ steps, ∃ raw, x.2 = .recv guest raw)
    (hfloor : Along (fun m x => step Crypto.toy x.1 m x.2)
      (fun m _ => ∀ f ∈ m.session.media.floor, f.1 = guest) (run Crypto.toy start join) steps) :
    Along (fun m x => step Crypto.toy x.1 m x.2)
      (fun m x => HandsOverApart Crypto.toy x.1 m x.2) start (join ++ steps) := by
  rw [along_append]
  refine ⟨⟨nofun, nofun, nofun, nofun, trivial⟩, ?_⟩
  unfold run at hfloor
  generalize join.foldl _ start = m at hfloor ⊢
  induction steps generalizing m with
  | nil => trivial
  | cons x steps ih =>
    obtain ⟨⟨raw, hx⟩, hsteps⟩ := List.forall_mem_cons.mp hsteps
    refine ⟨?_, ih hsteps _ hfloor.2⟩
    change HandsOverApart Crypto.toy x.1 m x.2
    rw [hx]
    exact handsOverApart_holder hfloor.1

end RoomExample

/-- A greeting is not audio. -/
theorem fromGuests_control {m : Machine C cfg} {guest : SocketAddr} {header : PacketHeader}
    {payload : Bytes} (hmulti : m.session.settings.multiPeer = true)
    (hversion : header.version = protocolVersion) (hlen : payload.length ≤ maxPayloadSize)
    (hframe : MessageType.fromCode header.msgType ≠ .ok .audioFrame)
    (hfec : MessageType.fromCode header.msgType ≠ .ok .audioFec) :
    FromGuests C sent m (.recv guest (PacketBuilder.bytes header payload)) := by
  intro sender raw harr
  obtain ⟨rfl, rfl⟩ := arrival_recv harr
  refine ⟨hmulti, fun view msg plain hview hmsg _ => ?_⟩
  rw [PacketBuilder.decode_bytes hversion hlen] at hview
  cases hview
  cases msg with
  | audioFrame => exact absurd hmsg hframe
  | audioFec => exact absurd hmsg hfec
  | _ => trivial

end Machine
end GravitalTalk
