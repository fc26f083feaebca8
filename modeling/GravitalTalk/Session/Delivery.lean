import GravitalTalk.Session.Keys

/-!
# Where delivered audio comes from

A frame reaches the jitter buffer straight from a packet or out of the parity
decoder, which earlier packets fed. Both are followed back to the payloads whose
tags verified.
-/
namespace GravitalTalk
namespace Machine

open Session Relation Run

variable {cfg : Config} {C : Crypto} {env : Env} {i : Arrival} {s₀ s t : Session cfg}

/-- A packet that the session opened: its tag verified under the key of the peer
it came from, and a handshake had stored that key. -/
structure Genuine (C : Crypto) (s : Session cfg) (o : Opened) : Prop where
  opened : o ∈ s.history.opened
  verifies : C.decryptInPlace o.key o.nonce o.aad o.body = .ok o.plain
  own : o.current = some o.key
  installed : ∃ k ∈ s.history.installed, k.dec = o.key

/-- The payload of a genuine frame. -/
def FromFrame (C : Crypto) (s : Session cfg) (payload : Bytes) : Prop :=
  ∃ o, Genuine C s o ∧ payload = o.plain.drop 4

/-- The payload of a genuine parity. -/
def FromParity (C : Crypto) (s : Session cfg) (payload : Bytes) : Prop :=
  ∃ o, Genuine C s o ∧ payload = o.plain.drop 5

/-- The frame was computed from genuine packets only: it is the payload of one,
or a parity's with the payloads of other frames taken out of it. -/
def Authentic (C : Crypto) (s : Session cfg) (p : Pushed) : Prop :=
  if p.recovered then
    ∃ (parity : Bytes) (frames : List Bytes), FromParity C s parity ∧
      (∀ f ∈ frames, FromFrame C s f) ∧ p.frame.payload = frames.foldl xorInto parity
  else FromFrame C s p.frame.payload

/-- All that the session has delivered, or may yet deliver, is authentic. -/
structure Delivered (C : Crypto) (s : Session cfg) : Prop where
  verifies : ∀ o ∈ s.history.opened,
    C.decryptInPlace o.key o.nonce o.aad o.body = .ok o.plain ∧
      ∃ k ∈ s.history.installed, k.dec = o.key
  keys : Keyed s
  frames : ∀ f, some f ∈ s.media.fecDec.received → FromFrame C s f
  parity : ∀ q, s.media.fecDec.parity = some q → FromParity C s q
  pushed : ∀ p ∈ s.history.pushed, Authentic C s p

/-- Whatever was genuine stays so. -/
structure Extends (s t : Session cfg) : Prop where
  opened : ∀ o ∈ s.history.opened, o ∈ t.history.opened
  installed : ∀ k ∈ s.history.installed, k ∈ t.history.installed

theorem Genuine.extend {o : Opened} (h : Genuine C s o) (he : Extends s t) : Genuine C t o := by
  obtain ⟨k, hk, hdec⟩ := h.installed
  exact ⟨he.opened o h.opened, h.verifies, h.own, k, he.installed k hk, hdec⟩

theorem FromFrame.extend {f : Bytes} (h : FromFrame C s f) (he : Extends s t) :
    FromFrame C t f := by
  obtain ⟨o, ho, hf⟩ := h
  exact ⟨o, ho.extend he, hf⟩

theorem FromParity.extend {q : Bytes} (h : FromParity C s q) (he : Extends s t) :
    FromParity C t q := by
  obtain ⟨o, ho, hq⟩ := h
  exact ⟨o, ho.extend he, hq⟩

theorem Authentic.extend {p : Pushed} (h : Authentic C s p) (he : Extends s t) :
    Authentic C t p := by
  unfold Authentic at h ⊢
  split_ifs at h ⊢
  · obtain ⟨parity, frames, hparity, hframes, hp⟩ := h
    exact ⟨parity, frames, hparity.extend he, fun f hf => (hframes f hf).extend he, hp⟩
  · exact h.extend he

theorem Extends.of_eq (hopened : t.history.opened = s.history.opened)
    (hinst : t.history.installed = s.history.installed) : Extends s t :=
  ⟨fun _ ho => hopened ▸ ho, fun _ hk => hinst ▸ hk⟩

/-- The history did not change and the decoder at most forgot. -/
theorem Delivered.of_eq (h : Delivered C s) (hopened : t.history.opened = s.history.opened)
    (hinst : t.history.installed = s.history.installed)
    (hpushed : t.history.pushed = s.history.pushed)
    (hfec : t.media.fecDec = s.media.fecDec ∨ t.media.fecDec = FecDecoder.new fecWindow)
    (hkeys : Keyed t) : Delivered C t := by
  have he : Extends s t := Extends.of_eq hopened hinst
  constructor
  case verifies =>
    rw [hopened, hinst]
    exact h.verifies
  case keys => exact hkeys
  case frames =>
    intro f hf
    rcases hfec with hfec | hfec
    · rw [hfec] at hf
      exact (h.frames f hf).extend he
    · rw [hfec] at hf
      exact absurd hf List.not_mem_nil
  case parity =>
    intro q hq
    rcases hfec with hfec | hfec
    · rw [hfec] at hq
      exact (h.parity q hq).extend he
    · rw [hfec] at hq
      cases hq
  case pushed =>
    rw [hpushed]
    exact fun p hp => (h.pushed p hp).extend he

theorem Delivered.calm (h : Delivered C s) (hc : Calm s t) : Delivered C t :=
  h.of_eq (by rw [hc.history]) (by rw [hc.history]) (by rw [hc.history])
    (.inl (by rw [hc.media])) (h.keys.uses hc.usesKeys)

theorem Delivered.speaks (h : Delivered C s) (hs : SpeaksOnly s t) : Delivered C t :=
  h.of_eq (by rw [hs.history]) (by rw [hs.history]) (by rw [hs.history])
    (.inl (by rw [hs.media])) (h.keys.uses hs.usesKeys)

/-! ## Effects -/

theorem Delivered.note {sender : SocketAddr} {key : SessionKey} {view : PacketView}
    {raw plain : Bytes} (h : Delivered C s) (hheld : s.HoldsKey key)
    (hopen : s.openWith C key view raw = some plain) :
    Delivered C (s.noteOpened sender key view raw plain) := by
  have he : Extends s (s.noteOpened sender key view raw plain) :=
    ⟨fun o ho => List.mem_cons_of_mem _ ho, fun k hk => hk⟩
  have hdec := openWith_eq_some.mp hopen
  constructor
  case verifies =>
    intro o ho
    rcases List.mem_cons.mp ho with rfl | ho
    · exact ⟨hdec, h.keys key hheld⟩
    · exact h.verifies o ho
  case keys => exact h.keys.of_eq rfl rfl
  case frames => exact fun f hf => (h.frames f hf).extend he
  case parity => exact fun q hq => (h.parity q hq).extend he
  case pushed => exact fun p hp => (h.pushed p hp).extend he

theorem Delivered.reads {view : PacketView} {raw plain : Bytes} {sender : SocketAddr}
    (h : Delivered C s) (hread : Reads C s₀ s view raw sender plain)
    (hclear : sender ∈ s₀.peers.book.peers → view.header.flags.contains .encrypted = true) :
    ∃ o, Genuine C s o ∧ o.plain = plain := by
  cases hread with
  | sealed key o hflag hheld hopen ho hown hsender hplain =>
    obtain ⟨hver, hinst⟩ := h.verifies o ho
    exact ⟨o, ⟨ho, hver, hown, hinst⟩, hplain⟩
  | clear hflag hplain hbook => simp [hclear hbook] at hflag

theorem Delivered.play {seq : UInt32} {timestamp : UInt64} {payload : Bytes} (h : Delivered C s)
    (hframe : FromFrame C s payload) : Delivered C (s.playFrame env seq timestamp payload) := by
  have he : Extends s (s.playFrame env seq timestamp payload) := Extends.of_eq rfl rfl
  constructor
  case verifies => exact h.verifies
  case keys => exact h.keys.of_eq rfl rfl
  case frames =>
    intro f hf
    rcases FecDecoder.pushData_received hf with rfl | hf
    · exact hframe.extend he
    · exact (h.frames f hf).extend he
  case parity => exact fun q hq => (h.parity q (FecDecoder.pushData_parity hq)).extend he
  case pushed =>
    intro p hp
    rcases List.mem_cons.mp hp with rfl | hp
    · exact hframe.extend he
    · exact (h.pushed p hp).extend he

theorem Delivered.switch (h : Delivered C s) (old new : SocketAddr) :
    Delivered C (s.switchPeer env old new) := by
  have hkeys : Keyed (s.switchPeer env old new) := h.keys.uses (usesKeys_switchPeer env old new s)
  rcases switchPeer_cases env old new s with hs | ⟨book, -, hq⟩
  · rwa [hs]
  · exact h.of_eq (by rw [hq.history]) (by rw [hq.history]) (by rw [hq.history])
      (.inl (by rw [hq.media])) hkeys

/-- The decoder takes a genuine parity in, and what it gives back is pushed. -/
theorem Delivered.feed {o : Opened} {base : UInt32} {count : UInt8} (h : Delivered C s)
    (ho : Genuine C s o) (hopened : t.history.opened = s.history.opened)
    (hinst : t.history.installed = s.history.installed) (hpeers : t.peers = s.peers)
    (hfec : t.media.fecDec = (s.media.fecDec.pushParity ⟨base, count, o.plain.drop 5⟩).2)
    (hpushed : ∀ p ∈ t.history.pushed, p ∈ s.history.pushed ∨ Authentic C s p) :
    Delivered C t := by
  have he : Extends s t := Extends.of_eq hopened hinst
  constructor
  case verifies =>
    rw [hopened, hinst]
    exact h.verifies
  case keys => exact h.keys.of_eq hinst hpeers
  case frames =>
    intro f hf
    rw [hfec] at hf
    exact (h.frames f (FecDecoder.select_received _ _ hf)).extend he
  case parity =>
    intro q hq
    rw [hfec] at hq
    cases hq
    exact ⟨o, ho.extend he, rfl⟩
  case pushed =>
    intro p hp
    rcases hpushed p hp with hp | hp
    · exact (h.pushed p hp).extend he
    · exact hp.extend he

/-- Every effect keeps it, if audio frames from known addresses are encrypted. -/
theorem Delivered.rx (h : Delivered C s)
    (hseal : ∀ sender raw view, i = .loop sender raw → PacketView.decode raw = .ok view →
      MessageType.fromCode view.header.msgType = .ok .audioFrame →
      sender ∈ s₀.peers.book.peers → view.header.flags.contains .encrypted = true)
    (he : RxEffect C env i s₀ s t) : Delivered C t := by
  have hkeys : Keyed t := h.keys.uses he.usesKeys
  cases he with
  | quiet hq => exact h.calm hq.calm
  | see => exact h.of_eq rfl rfl rfl (.inl rfl) hkeys
  | drop gone => exact h.of_eq rfl rfl rfl (.inl rfl) hkeys
  | buffer jitter gap => exact h.of_eq rfl rfl rfl (.inl rfl) hkeys
  | note hi hview hheld hopen => exact h.note hheld hopen
  | migrate => exact h.switch _ _
  | probe => exact h.switch _ _
  | check =>
    rename_i sender raw view _ _ _
    rcases antiReplay_cases view raw sender s with ⟨-, hs⟩ | ⟨key, -, -, hq⟩
    · rwa [hs]
    · refine Delivered.calm ?_ hq.calm
      exact h.of_eq rfl rfl rfl (.inl rfl) (h.keys.mono rfl fun _ hkey => hkey)
  | hear hi hview htype hmedia hset hfresh hread =>
    rename_i sender raw plain view
    obtain ⟨o, ho, rfl⟩ := h.reads hread (hseal _ _ _ hi hview htype)
    rcases hearFrame_cases C env sender view.header.timestamp o.plain s with
      hq | ⟨-, -, hs⟩ | ⟨-, -, offset, -, hq⟩
    · exact h.calm hq.calm
    · rw [hs]
      exact h.play ⟨o, ho, rfl⟩
    · refine Delivered.speaks (Delivered.play ?_ ⟨o, ho.extend ?_, rfl⟩) hq
      · exact h.of_eq rfl rfl rfl (.inl rfl) (h.keys.of_eq rfl rfl)
      · exact Extends.of_eq rfl rfl
  | parity hi hview htype hmedia hset hfresh hflag hread =>
    rename_i sender raw plain view
    obtain ⟨o, ho, rfl⟩ := h.reads hread fun _ => hflag
    rcases hearParity_cases sender o.plain s with
      hs | ⟨-, base, -, ⟨-, hs⟩ | ⟨seq, out, hout, hs⟩⟩
    · rwa [hs]
    · rw [hs]
      exact h.feed ho rfl rfl rfl rfl fun p hp => .inl hp
    · rw [hs]
      refine h.feed ho rfl rfl rfl rfl fun p hp => ?_
      rcases List.mem_cons.mp hp with rfl | hp
      · obtain ⟨frames, hframes, rfl⟩ := FecDecoder.pushParity_out hout
        exact .inr ⟨_, frames, ⟨o, ho, rfl⟩, fun f hf => h.frames f (hframes f hf), rfl⟩
      · exact .inl hp

/-- The other effects neither open nor deliver anything. -/
theorem Delivered.effect (h : Delivered C s)
    (hseal : ∀ sender raw view, i = .loop sender raw → PacketView.decode raw = .ok view →
      MessageType.fromCode view.header.msgType = .ok .audioFrame →
      sender ∈ s₀.peers.book.peers → view.header.flags.contains .encrypted = true)
    (he : Effect C env i s₀ s t) : Delivered C t := by
  have hkeys : Keyed t := h.keys.effect he
  cases he with
  | rx he => exact h.rx hseal he
  | calm hc => exact h.calm hc
  | insert a => exact h.of_eq rfl rfl rfl (.inl rfl) hkeys
  | remove a => exact h.of_eq rfl rfl rfl (.inl rfl) hkeys
  | clearBook => exact h.of_eq rfl rfl rfl (.inl rfl) hkeys
  | joins pending => exact h.of_eq rfl rfl rfl (.inl rfl) hkeys
  | install peer enc dec =>
    have he : Extends s (s.installKeys env peer enc dec) :=
      ⟨fun _ ho => ho, fun _ hk => List.mem_cons_of_mem _ hk⟩
    constructor
    case verifies =>
      intro o ho
      obtain ⟨hver, k, hk, hdec⟩ := h.verifies o ho
      exact ⟨hver, k, he.installed k hk, hdec⟩
    case keys => exact hkeys
    case frames => exact fun f hf => (h.frames f hf).extend he
    case parity => exact fun q hq => (h.parity q hq).extend he
    case pushed => exact fun p hp => (h.pushed p hp).extend he
  | say payload => exact h.speaks (speaksOnly_sendAudio C env payload s)
  | close =>
    rw [close_eq] at hkeys ⊢
    exact h.of_eq rfl rfl rfl (.inl rfl) hkeys
  | reopen =>
    have hreopen (s : Session cfg) : s.reopen.2.history = s.history ∧
        (s.reopen.2.media.fecDec = s.media.fecDec ∨
          s.reopen.2.media.fecDec = FecDecoder.new fecWindow) := by
      unfold Session.reopen
      dsimp only
      split_ifs
      · exact ⟨rfl, .inl rfl⟩
      · split <;> exact ⟨rfl, .inr rfl⟩
    obtain ⟨hhist, hfec⟩ := hreopen s
    exact h.of_eq (by rw [hhist]) (by rw [hhist]) (by rw [hhist]) hfec hkeys

/-! ## Runs -/

/-- An audio frame that a receive loop gets from a known address is encrypted. -/
def SealsFrames (m : Machine C cfg) (a : Action) : Prop :=
  ∀ sender raw view, m.arrival a = .loop sender raw → PacketView.decode raw = .ok view →
    MessageType.fromCode view.header.msgType = .ok .audioFrame →
    sender ∈ m.session.peers.book.peers → view.header.flags.contains .encrypted = true

theorem delivered_initial (C : Crypto) (cfg : Config) (nonce : Vector UInt8 8) :
    Delivered C (initial cfg nonce) :=
  ⟨nofun, keyed_initial cfg nonce, nofun, nofun, nofun⟩

/-- In every run of a session in which the audio frames that the receive loops
get from known addresses are encrypted, every frame that was delivered is
authentic. -/
theorem pushed_authentic (C : Crypto) (nonce : Vector UInt8 8) (s : Session cfg)
    (hnew : Session.new cfg nonce = some s) (steps : List (Env × Action))
    (hrun : Along (fun m x => step C x.1 m x.2) (fun m x => SealsFrames m x.2) (rest C s) steps) :
    ∀ p ∈ (run C (rest C s) steps).session.history.pushed,
      Authentic C (run C (rest C s) steps).session p := by
  rw [eq_initial_of_new hnew] at hrun ⊢
  have hstep (m : Machine C cfg) (x : Env × Action) (h : Delivered C m.session)
      (hx : SealsFrames m x.2) : Delivered C (step C x.1 m x.2).session :=
    step_invariant (fun _ _ h => h.of_eq rfl rfl rfl (.inl rfl) (h.keys.of_eq rfl rfl))
      (fun h he => h.effect hx he) h
  have hinv : Delivered C (run C (rest C (initial cfg nonce)) steps).session :=
    hrun.invariant hstep (delivered_initial C cfg nonce)
  exact hinv.pushed

/-- A paired guest's encrypted frame is delivered, and is authentic. -/
theorem pushed_authentic_sealed :
    let steps := Pairing.steps ++ [(Pairing.at' 1, .recv Pairing.guest
      (Pairing.sealed .audioFrame 2 (be32 0 ++ [1, 2, 3])))]
    let m := run Crypto.toy (rest Crypto.toy (initial Config.default (Vector.replicate 8 0))) steps
    m.session.history.pushed ≠ [] ∧
      ∀ p ∈ m.session.history.pushed, Authentic Crypto.toy m.session p := by
  refine ⟨by decide +kernel, pushed_authentic Crypto.toy _ _ (new_default _) _
    ⟨nofun, nofun, nofun, ?_, trivial⟩⟩
  intro sender raw view harr hview _ _
  cases bytes_of_arrival harr
  have hflag : (PacketView.decode (Pairing.sealed .audioFrame 2 (be32 0 ++ [1, 2, 3]))).toOption.map
      (fun view => view.header.flags.contains .encrypted) = some true := by decide +kernel
  rw [hview] at hflag
  exact Option.some.inj hflag

/-- A packet of the paired guest's address, in clear, is delivered too. -/
theorem pushed_unsealed :
    let clear := PacketBuilder.bytes (PacketHeader.new MessageType.audioFrame.code 1 7 0)
      (be32 0 ++ [6, 6, 6])
    let m := run Crypto.toy (rest Crypto.toy (initial Config.default (Vector.replicate 8 0)))
      (Pairing.steps ++ [(Pairing.at' 1, .recv Pairing.guest clear)])
    Session.new Config.default (Vector.replicate 8 0) =
        some (initial Config.default (Vector.replicate 8 0)) ∧
      m.session.peers.decryptKey.isSome ∧
      ∃ p ∈ m.session.history.pushed, p.frame.payload = [6, 6, 6] ∧
        ¬ Authentic Crypto.toy m.session p := by
  intro clear m
  have hpushed : m.session.history.pushed = [⟨⟨0, 0, [6, 6, 6]⟩, false⟩] := by decide +kernel
  have hopened : m.session.history.opened = [] := by decide +kernel
  refine ⟨new_default _, by decide +kernel, ?_⟩
  rw [hpushed]
  refine ⟨_, List.mem_singleton_self _, rfl, ?_⟩
  rintro ⟨o, ho, -⟩
  have hmem := ho.opened
  rw [hopened] at hmem
  exact List.not_mem_nil hmem

end Machine
end GravitalTalk
