import GravitalTalk.Session.Rules

/-!
# What a listener takes in

A session with one peer puts each frame under its own number, and each parity
into the decoder that may give a frame back. Whoever knows which plaintexts
arrive knows what becomes of the decoder and of the buffer.
-/
namespace GravitalTalk
namespace Machine

open Session Relation

variable {cfg : Config} {C : Crypto} {env : Env} {i : Arrival} {s₀ s t : Session cfg}
  {D : FecDecoder fecWindow → Prop} {P : Pushed → Prop}

/-- Whatever audio arrives at `s₀` leads to a decoder that meets `D` and to frames
that meet `P`, and so does a session that is opened again. -/
structure Arriving (C : Crypto) (i : Arrival) (s₀ : Session cfg) (D : FecDecoder fecWindow → Prop)
    (P : Pushed → Prop) : Prop where
  wiped : D (FecDecoder.new fecWindow)
  single : ∀ {sender raw view msg}, i = .loop sender raw → PacketView.decode raw = .ok view →
    MessageType.fromCode view.header.msgType = .ok msg → msg = .audioFrame ∨ msg = .audioFec →
    s₀.settings.multiPeer = false
  frame : ∀ {sender raw view plain}, i = .loop sender raw → PacketView.decode raw = .ok view →
    MessageType.fromCode view.header.msgType = .ok .audioFrame → s₀.Says C view raw plain →
    D (s₀.media.fecDec.pushData (fromBe32 (plain.take 4)) (plain.drop 4)).2 ∧
      P ⟨⟨fromBe32 (plain.take 4), view.header.timestamp, plain.drop 4⟩, false⟩
  parity : ∀ {sender raw view plain}, i = .loop sender raw → PacketView.decode raw = .ok view →
    MessageType.fromCode view.header.msgType = .ok .audioFec → s₀.Says C view raw plain →
    let r := s₀.media.fecDec.pushParity ⟨fromBe32 (plain.take 4), plain.getD 4 0, plain.drop 5⟩
    D r.2 ∧ ∀ seq out, r.1 = some (seq, out) → P ⟨⟨seq, 0, out⟩, true⟩

/-- From `s₀` to `s` the decoder and the buffer took nothing, or the decoder meets `D`;
the frames that came into the buffer meet `P`. -/
structure Intake (D : FecDecoder fecWindow → Prop) (P : Pushed → Prop) (s₀ s : Session cfg) :
    Prop where
  decoder : (s.media.fecDec = s₀.media.fecDec ∧ s.history.pushed = s₀.history.pushed) ∨
    D s.media.fecDec
  pushed : ∃ new, s.history.pushed = new ++ s₀.history.pushed ∧ ∀ p ∈ new, P p

namespace Intake

theorem start (s : Session cfg) : Intake D P s s := ⟨.inl ⟨rfl, rfl⟩, [], rfl, nofun⟩

theorem of_eq (h : Intake D P s₀ s) (hfec : t.media.fecDec = s.media.fecDec)
    (hpushed : t.history.pushed = s.history.pushed) : Intake D P s₀ t := by
  refine ⟨?_, ?_⟩
  · rw [hfec, hpushed]
    exact h.decoder
  · rw [hpushed]
    exact h.pushed

theorem calm (h : Intake D P s₀ s) (hc : Calm s t) : Intake D P s₀ t :=
  h.of_eq (by rw [hc.media]) (by rw [hc.history])

theorem speaks (h : Intake D P s₀ s) (hs : SpeaksOnly s t) : Intake D P s₀ t :=
  h.of_eq (by rw [hs.media]) (by rw [hs.history])

/-- The decoder took something in and one frame was delivered. -/
theorem deliver (h : Intake D P s₀ s) {p : Pushed} (hfec : D t.media.fecDec)
    (hpushed : t.history.pushed = p :: s.history.pushed) (hp : P p) : Intake D P s₀ t := by
  obtain ⟨new, hnew, hall⟩ := h.pushed
  refine ⟨.inr hfec, p :: new, by rw [hpushed, hnew]; rfl, fun q hq => ?_⟩
  rcases List.mem_cons.mp hq with rfl | hq
  · exact hp
  · exact hall q hq

/-- What one effect on the audio path does. -/
theorem rx (h : Intake D P s₀ s) (hin : Arriving C i s₀ D P) (he : RxEffect C env i s₀ s t) :
    Intake D P s₀ t := by
  cases he with
  | quiet hq => exact h.calm hq.calm
  | see => exact h.of_eq rfl rfl
  | drop gone => exact h.of_eq rfl rfl
  | buffer jitter gap => exact h.of_eq rfl rfl
  | note => exact h.of_eq rfl rfl
  | migrate =>
    rename_i sender old raw plain view key _ _ _ _ _ _ _
    rcases switchPeer_cases env old sender s with hs | ⟨book, -, hq⟩
    · rwa [hs]
    · exact h.of_eq (by rw [hq.media]) (by rw [hq.history])
  | probe =>
    rename_i sender old raw _ _ _ _ _ _ _
    rcases switchPeer_cases env old sender s with hs | ⟨book, -, hq⟩
    · rwa [hs]
    · exact h.of_eq (by rw [hq.media]) (by rw [hq.history])
  | check =>
    rename_i sender raw view _ _ _
    rcases antiReplay_cases view raw sender s with ⟨-, hs⟩ | ⟨key, -, -, hq⟩
    · rwa [hs]
    · exact h.of_eq (by rw [hq.media]) (by rw [hq.history])
  | hear hi hview htype hmedia hset hfresh hread =>
    rename_i sender raw plain view
    rcases hearFrame_cases C env sender view.header.timestamp plain s with
      hq | ⟨-, -, hs⟩ | ⟨-, hroom, -⟩
    · exact h.calm hq.calm
    · obtain ⟨hfec, hp⟩ := hin.frame hi hview htype hread.said
      rw [hs]
      refine h.deliver ?_ rfl hp
      change D (s.media.fecDec.pushData _ _).2
      rwa [hmedia]
    · rw [hset, hin.single hi hview htype (.inl rfl)] at hroom
      cases hroom
  | parity hi hview htype hmedia hset hfresh hflag hread =>
    rename_i sender raw plain view
    rcases hearParity_cases sender plain s with hs | ⟨-, base, hbase, hs⟩
    · rwa [hs]
    · obtain ⟨hfec, hp⟩ := hin.parity hi hview htype hread.said
      obtain rfl : fromBe32 (plain.take 4) = base := by
        unfold parityBase at hbase
        rw [hset, hin.single hi hview htype (.inr rfl)] at hbase
        exact Option.some.inj hbase
      rw [hmedia] at hs
      rcases hs with ⟨-, hs⟩ | ⟨seq, out, hr, hs⟩
      · rw [hs]
        obtain ⟨new, hnew, hall⟩ := h.pushed
        exact ⟨.inr hfec, new, hnew, hall⟩
      · rw [hs]
        exact h.deliver hfec rfl (hp seq out hr)

/-- The other effects leave the audio path alone, but for a reopened session. -/
theorem effect (h : Intake D P s₀ s) (hin : Arriving C i s₀ D P) (he : Effect C env i s₀ s t) :
    Intake D P s₀ t := by
  cases he with
  | rx he => exact h.rx hin he
  | calm hc => exact h.calm hc
  | insert a => exact h.of_eq rfl rfl
  | remove a => exact h.of_eq rfl rfl
  | clearBook => exact h.of_eq rfl rfl
  | joins pending => exact h.of_eq rfl rfl
  | install peer enc dec => exact h.of_eq rfl rfl
  | say payload => exact h.speaks (speaksOnly_sendAudio C env payload s)
  | close =>
    rw [close_eq]
    exact h.of_eq rfl rfl
  | reopen =>
    have hwiped : Intake D P s₀ s.wiped := ⟨.inr hin.wiped, h.pushed⟩
    unfold Session.reopen
    dsimp only
    split_ifs
    · exact h
    · split
      · exact hwiped
      · exact hwiped.of_eq rfl rfl

end Intake

/-- What one step takes in. -/
theorem intake_step (env : Env) {m : Machine C cfg} {a : Action}
    (hin : Arriving C (m.arrival a) m.session D P) :
    Intake D P m.session (step C env m a).session :=
  step_invariant (fun _ _ h => h.of_eq rfl rfl) (fun h he => h.effect hin he) (.start _)

end Machine
end GravitalTalk
