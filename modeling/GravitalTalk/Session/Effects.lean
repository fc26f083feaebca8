import GravitalTalk.Lib.Run
import GravitalTalk.Session.Reopen
import GravitalTalk.Transport.JitterRing

/-!
# What a step can do

Invariants of a session speak of its peers, its admissions, its audio path and
its history. Here every step of the machine is taken apart into effects on
these, so that an invariant is checked once for each kind of effect.

`i` is the datagram that is being handled, `s₀` the session that received it.
-/
namespace GravitalTalk
namespace Session

open Rendezvous Relation

variable {cfg : Config} (C : Crypto) (env : Env)

/-- Nothing changed that an effect is about. -/
structure Quiet (s t : Session cfg) : Prop where
  eq : t = { s with
    status := { t.status with closed := s.status.closed, sessionId := s.status.sessionId }
    traffic := t.traffic
    path := t.path
    live := ⟨t.live.lastRx, s.live.peerSeen⟩
    congestion := t.congestion
    rtt := t.rtt }
  state : s.status.state.Sinks t.status.state
  framed : t.traffic.framed = s.traffic.framed
  emits : Emits s.peers.SealsWith s.traffic t.traffic

namespace Quiet

variable {s t u : Session cfg}

/-- Nothing was sent that takes a number. -/
theorem of_eq (heq : t = { s with
      status := { t.status with
        closed := s.status.closed
        sessionId := s.status.sessionId
        state := s.status.state }
      traffic := t.traffic
      path := t.path
      live := ⟨t.live.lastRx, s.live.peerSeen⟩
      congestion := t.congestion
      rtt := t.rtt })
    (hframed : t.traffic.framed = s.traffic.framed) (htaken : t.traffic.taken = s.traffic.taken)
    (hseq : t.traffic.txSequence = s.traffic.txSequence)
    (hsealed : t.traffic.sealed = s.traffic.sealed) : Quiet s t := by
  refine ⟨?_, .inl ?_, hframed, .of_eq htaken hseq hsealed⟩
  · rw [heq]
  · rw [heq]

@[refl] theorem refl (s : Session cfg) : Quiet s s := .of_eq rfl rfl rfl rfl rfl

theorem settings (h : Quiet s t) : t.settings = s.settings := by rw [h.eq]
theorem closed (h : Quiet s t) : t.status.closed = s.status.closed := by rw [h.eq]
theorem sessionId (h : Quiet s t) : t.status.sessionId = s.status.sessionId := by rw [h.eq]
theorem peers (h : Quiet s t) : t.peers = s.peers := by rw [h.eq]
theorem pendingJoins (h : Quiet s t) : t.pendingJoins = s.pendingJoins := by rw [h.eq]
theorem media (h : Quiet s t) : t.media = s.media := by rw [h.eq]
theorem voice (h : Quiet s t) : t.voice = s.voice := by rw [h.eq]
theorem peerSeen (h : Quiet s t) : t.live.peerSeen = s.live.peerSeen := by rw [h.eq]
theorem history (h : Quiet s t) : t.history = s.history := by rw [h.eq]

@[trans] theorem trans (h : Quiet s t) (h' : Quiet t u) : Quiet s u := by
  refine ⟨?_, h.state.trans h'.state, h'.framed.trans h.framed, h.emits.trans ?_⟩
  · rw [h'.eq, h.eq]
  · rw [← h.peers]
    exact h'.emits

theorem after (h : Quiet t u) (h' : Quiet s t) : Quiet s u := h'.trans h

end Quiet

theorem SendsOnly.quiet {s t : Session cfg} (h : SendsOnly s t) : Quiet s t := by
  refine ⟨?_, .inl (by rw [h.status]), h.framed, h.emits⟩
  rw [h.eq]

/-- The session holds `key` for somebody. -/
def HoldsKey (s : Session cfg) (key : SessionKey) : Prop :=
  (∃ a pair, s.peers.peerKeys.lookup a = some pair ∧ pair.2 = key) ∨
    s.peers.decryptKey = some key

theorem holdsKey_of_decKeyFor {s : Session cfg} {a : SocketAddr} {key : SessionKey}
    (h : s.peers.decKeyFor a = some key) : s.HoldsKey key := by
  unfold Peers.decKeyFor at h
  split at h
  · rename_i pair hpair
    exact .inl ⟨a, pair, hpair, Option.some.inj h⟩
  · exact .inr h

/-- `plain` is what `s` takes an audio packet to say: either it opened under a
key of the session that received it, the sender's own, or it came in clear from
a known address. -/
inductive Reads (s₀ s : Session cfg) (view : PacketView) (raw : Bytes) (sender : SocketAddr)
    (plain : Bytes) : Prop
  | sealed (key : SessionKey) (o : Opened)
      (hflag : view.header.flags.contains .encrypted = true) (hheld : s₀.HoldsKey key)
      (hopen : s₀.openWith C key view raw = some plain) (ho : o ∈ s.history.opened)
      (hown : o.current = some o.key) (hsender : o.sender = sender) (hplain : o.plain = plain)
  | clear (hflag : view.header.flags.contains .encrypted = false) (hplain : plain = view.payload)
      (hbook : sender ∈ s₀.peers.book.peers)

/-- What a session can take a packet to say: it is encrypted and opens under a
key the session holds, or it is in clear. -/
def Says (s : Session cfg) (view : PacketView) (raw plain : Bytes) : Prop :=
  (view.header.flags.contains .encrypted = true ∧
      ∃ key, s.HoldsKey key ∧ s.openWith C key view raw = some plain) ∨
    (view.header.flags.contains .encrypted = false ∧ plain = view.payload)

theorem Reads.said {s₀ s : Session cfg} {view : PacketView} {raw plain : Bytes}
    {sender : SocketAddr} (h : Reads C s₀ s view raw sender plain) :
    s₀.Says C view raw plain := by
  cases h with
  | sealed key o hflag hheld hopen => exact .inl ⟨hflag, key, hheld, hopen⟩
  | clear hflag hplain hbook => exact .inr ⟨hflag, hplain⟩

/-- The replay check lets a packet of `sender` with this sequence pass. -/
def Accepts (s : Session cfg) (sender : SocketAddr) (seq : UInt32) : Prop :=
  s.peers.decryptKey = none ∨ ((s.peers.windowOf sender).checkAndMark seq).1 = true

/-- The datagram a step reads, and who reads it. -/
inductive Arrival
  | none
  /-- A waiting handshake. -/
  | handshake (sender : SocketAddr) (raw : Bytes)
  /-- One of the receive loops. -/
  | loop (sender : SocketAddr) (raw : Bytes)

def Arrival.datagram : Arrival → Option (SocketAddr × Bytes)
  | none => Option.none
  | handshake sender raw | loop sender raw => some (sender, raw)

/-- The peers of `gone` are forgotten in every table. -/
def dropPeers (gone : Finset SocketAddr) (s : Session cfg) : Session cfg :=
  { s with
    peers := s.peers.dropAll gone
    live.peerSeen := Table.retain (fun a _ => a ∉ gone) s.live.peerSeen }

/-- Peer `a` says that it goes, or a turn of the loop finds that it has not been
heard of for too long. -/
inductive Departs (i : Arrival) (s₀ : Session cfg) (a : SocketAddr) : Prop
  | close (raw : Bytes) (view : PacketView) (hi : i = .loop a raw)
      (hview : PacketView.decode raw = .ok view)
      (htype : MessageType.fromCode view.header.msgType = .ok .close)
      (hroom : s₀.settings.multiPeer = true) (hbook : a ∈ s₀.peers.book.peers)
      (hfresh : s₀.Accepts a view.header.sequence)
  | silent (hi : i = .none) (h : a ∈ s₀.gonePeers env)

/-- Effects of handling a datagram and of a turn of the receive loop. -/
inductive RxEffect (i : Arrival) (s₀ : Session cfg) :
    Session cfg → Session cfg → Prop
  | quiet {s t : Session cfg} (h : Quiet s t) : RxEffect i s₀ s t
  | see {s : Session cfg} {sender : SocketAddr} {raw : Bytes} (hi : i = .loop sender raw)
      (hbook : sender ∈ s.peers.book.peers ∨ ∃ old pair,
        s₀.peers.peerKeys.lookup old = some pair ∧ old ∉ s₀.peers.book.peers) :
    RxEffect i s₀ s (s.see sender env.now)
  | drop {s : Session cfg} (gone : Finset SocketAddr)
      (hgone : ∀ a ∈ gone, Departs env i s₀ a) :
    RxEffect i s₀ s (s.dropPeers gone)
  | buffer {s : Session cfg} (jitter : JitterBuffer cfg.jitterSlots) (gap : ℕ)
      (hjitter : jitter = s.media.jitter ∨ ∃ op, jitter = s.media.jitter.step op) :
    RxEffect i s₀ s { s with media := { s.media with jitter := jitter, gapSince := gap } }
  | note {s : Session cfg} {sender : SocketAddr} {raw plain : Bytes} {view : PacketView}
      {key : SessionKey} (hi : i = .loop sender raw) (hview : PacketView.decode raw = .ok view)
      (hheld : s.HoldsKey key) (hopen : s.openWith C key view raw = some plain) :
    RxEffect i s₀ s (s.noteOpened sender key view raw plain)
  | migrate {s : Session cfg} {sender old : SocketAddr} {raw plain : Bytes} {view : PacketView}
      {key : SessionKey} (hi : i = .loop sender raw) (hview : PacketView.decode raw = .ok view)
      (hpeers : s.peers = s₀.peers) (hbook : sender ∉ s₀.peers.book.peers)
      (hopen : s₀.openAs C old view raw = some (key, plain))
      (hfresh : s₀.freshFor old view.header.sequence = true)
      (hannounces : announces view = true) :
    RxEffect i s₀ s (s.switchPeer env old sender)
  | probe {s : Session cfg} {sender old : SocketAddr} {raw : Bytes}
      (hi : i.datagram = some (sender, raw))
      (hmsg : Message.decode raw = some (s₀.roomKey C, .punchAck s₀.settings.probeNonce))
      (hpeers : s.peers = s₀.peers) (hprimary : s₀.peers.book.primary = some old)
      (hne : old ≠ sender) (hstale : s₀.pathIsStale env.now = true)
      (hlen : s₀.peers.book.len = 1) :
    RxEffect i s₀ s (s.switchPeer env old sender)
  | check {s : Session cfg} {sender : SocketAddr} {raw : Bytes} {view : PacketView}
      (hi : i = .loop sender raw) (hview : PacketView.decode raw = .ok view)
      (hbook : sender ∈ s.peers.book.peers ∨ ∃ old pair,
        s₀.peers.peerKeys.lookup old = some pair ∧ old ∉ s₀.peers.book.peers) :
    RxEffect i s₀ s (s.antiReplay view raw sender).2
  | hear {s : Session cfg} {sender : SocketAddr} {raw plain : Bytes} {view : PacketView}
      (hi : i = .loop sender raw) (hview : PacketView.decode raw = .ok view)
      (htype : MessageType.fromCode view.header.msgType = .ok .audioFrame)
      (hmedia : s.media = s₀.media) (hset : s.settings = s₀.settings)
      (hfresh : sender ∈ s₀.peers.book.peers → s₀.Accepts sender view.header.sequence)
      (hread : Reads C s₀ s view raw sender plain) :
    RxEffect i s₀ s (s.hearFrame C env sender view.header.timestamp plain)
  | parity {s : Session cfg} {sender : SocketAddr} {raw plain : Bytes} {view : PacketView}
      (hi : i = .loop sender raw) (hview : PacketView.decode raw = .ok view)
      (htype : MessageType.fromCode view.header.msgType = .ok .audioFec)
      (hmedia : s.media = s₀.media) (hset : s.settings = s₀.settings)
      (hfresh : sender ∈ s₀.peers.book.peers → s₀.Accepts sender view.header.sequence)
      (hflag : view.header.flags.contains .encrypted = true)
      (hread : Reads C s₀ s view raw sender plain) :
    RxEffect i s₀ s (s.hearParity sender plain)

abbrev RxEffects (i : Arrival) (s₀ s t : Session cfg) : Prop :=
  ReflTransGen (RxEffect C env i s₀) s t

variable {C env} {i : Arrival} {s₀ s t : Session cfg}

theorem Quiet.rx (h : Quiet s t) : RxEffects C env i s₀ s t := .single (.quiet h)

/-! ## The audio branches -/

/-- The floor after a frame of `sender` was let through under an offset: the one
it had, or the one that continues at the buffer's next sequence. -/
inductive TakesFloor (now : ℕ) (sender : SocketAddr) (audioSeq : UInt32) (m : Media cfg) :
    UInt32 → Prop
  | keep {till : ℕ} {offset : UInt32} (h : m.floor = some (sender, till, offset)) :
    TakesFloor now sender audioSeq m offset
  | take (h : ∀ holder till offset, m.floor = some (holder, till, offset) →
        holder ≠ sender ∧ till ≤ now) :
    TakesFloor now sender audioSeq m (m.jitter.nextSeq - audioSeq)

theorem roomSequence_cases (env : Env) (sender : SocketAddr) (audioSeq : UInt32)
    (s : Session cfg) :
    s.roomSequence env sender audioSeq = (none, s) ∨
      ∃ offset, TakesFloor env.now sender audioSeq s.media offset ∧
        s.roomSequence env sender audioSeq = (some (audioSeq + offset),
          { s with media.floor := some (sender, env.now + floorHoldMs * 1000, offset) }) := by
  unfold roomSequence
  dsimp only
  split
  · rename_i holder till offset hfloor
    split_ifs with hsender htill
    · subst hsender
      exact .inr ⟨offset, .keep hfloor, rfl⟩
    · exact .inl rfl
    · refine .inr ⟨_, .take fun holder' till' offset' h => ?_, rfl⟩
      rw [hfloor] at h
      cases h
      exact ⟨hsender, Nat.not_lt.mp htill⟩
  · rename_i hfloor
    refine .inr ⟨_, .take fun holder till offset h => ?_, rfl⟩
    rw [hfloor] at h
    cases h

/-- What becomes of a plaintext frame: nothing, or it is played, in a room under
the local number of its speaker. -/
theorem hearFrame_cases (C : Crypto) (env : Env) (sender : SocketAddr) (timestamp : UInt64)
    (plain : Bytes) (s : Session cfg) :
    Quiet s (s.hearFrame C env sender timestamp plain) ∨
    (4 ≤ plain.length ∧ s.settings.multiPeer = false ∧
      s.hearFrame C env sender timestamp plain =
        s.playFrame env (fromBe32 (plain.take 4)) timestamp (plain.drop 4)) ∨
    (4 ≤ plain.length ∧ s.settings.multiPeer = true ∧ ∃ offset,
      TakesFloor env.now sender (fromBe32 (plain.take 4)) s.media offset ∧
      SpeaksOnly
        (playFrame env (fromBe32 (plain.take 4) + offset) timestamp (plain.drop 4)
          { s with media.floor := some (sender, env.now + floorHoldMs * 1000, offset) })
        (s.hearFrame C env sender timestamp plain)) := by
  by_cases hlen : plain.length < 4
  · rw [hearFrame, if_pos hlen]
    exact .inl (.of_eq rfl rfl rfl rfl rfl)
  · have h4 : 4 ≤ plain.length := Nat.not_lt.mp hlen
    cases hmulti : s.settings.multiPeer with
    | false =>
      refine .inr (.inl ⟨h4, rfl, ?_⟩)
      simp only [hearFrame, hlen, hmulti, if_false, Bool.false_eq_true]
    | true =>
      rcases roomSequence_cases env sender (fromBe32 (plain.take 4)) s with h | ⟨offset, hfl, h⟩
      · left
        simp only [hearFrame, hlen, hmulti, h, if_false, if_true]
        rfl
      · refine .inr (.inr ⟨h4, rfl, offset, hfl, ?_⟩)
        simp only [hearFrame, hlen, hmulti, h, if_false, if_true]
        exact speaksOnly_forwardAudio C env sender _ _

/-- The plaintext of a frame, taken apart. -/
theorem plain_frame (n : UInt32) (payload : Bytes) :
    fromBe32 ((be32 n ++ payload).take 4) = n ∧ (be32 n ++ payload).drop 4 = payload := by
  have h4 : (be32 n).length = 4 := by simp
  rw [List.take_left' h4, List.drop_left' h4, fromBe32_be32]
  exact ⟨rfl, rfl⟩

theorem plain_parity (base : UInt32) (count : UInt8) (payload : Bytes) :
    fromBe32 ((be32 base ++ count :: payload).take 4) = base ∧
      (be32 base ++ count :: payload).drop 5 = payload := by
  have h4 : (be32 base).length = 4 := by simp
  have h5 : (be32 base ++ [count]).length = 5 := by simp
  refine ⟨(plain_frame base _).1, ?_⟩
  rw [List.append_cons, List.drop_left' h5]

/-- What becomes of a plaintext parity: nothing, or the decoder takes it in and
may give a frame back. -/
theorem hearParity_cases (sender : SocketAddr) (plain : Bytes) (s : Session cfg) :
    s.hearParity sender plain = s ∨
    (5 ≤ plain.length ∧ ∃ base, s.parityBase sender (fromBe32 (plain.take 4)) = some base ∧
      ((s.media.fecDec.pushParity ⟨base, plain.getD 4 0, plain.drop 5⟩).1 = none ∧
        s.hearParity sender plain = { s with media.fecDec :=
          (s.media.fecDec.pushParity ⟨base, plain.getD 4 0, plain.drop 5⟩).2 } ∨
      ∃ seq payload,
        (s.media.fecDec.pushParity ⟨base, plain.getD 4 0, plain.drop 5⟩).1 = some (seq, payload) ∧
        s.hearParity sender plain = { s with
          media := { s.media with
            fecDec := (s.media.fecDec.pushParity ⟨base, plain.getD 4 0, plain.drop 5⟩).2
            jitter := (s.media.jitter.push ⟨seq, 0, payload⟩).2 }
          history.pushed := ⟨⟨seq, 0, payload⟩, true⟩ :: s.history.pushed })) := by
  by_cases hlen : plain.length < 5
  · exact .inl (by rw [hearParity, if_pos hlen])
  · cases hbase : s.parityBase sender (fromBe32 (plain.take 4)) with
    | none =>
      left
      simp only [hearParity, hlen, hbase, if_false]
    | some base =>
      refine .inr ⟨Nat.not_lt.mp hlen, base, rfl, ?_⟩
      cases hr : (s.media.fecDec.pushParity ⟨base, plain.getD 4 0, plain.drop 5⟩).1 with
      | none =>
        refine .inl ⟨rfl, ?_⟩
        simp only [hearParity, hlen, hbase, hr, if_false]
      | some r =>
        refine .inr ⟨r.1, r.2, rfl, ?_⟩
        simp only [hearParity, hlen, hbase, hr, if_false]

/-- The replay window is the only table a check touches. -/
theorem antiReplay_cases (view : PacketView) (raw : Bytes) (sender : SocketAddr)
    (s : Session cfg) :
    (s.peers.decryptKey = none ∧ s.antiReplay view raw sender = (true, s)) ∨
    (∃ key, s.peers.decryptKey = some key ∧
      (s.antiReplay view raw sender).1 =
        ((s.peers.windowOf sender).checkAndMark view.header.sequence).1 ∧
      Quiet
        { s with
          peers := s.peers.mark sender view.header.sequence
          history.marked :=
            ⟨sender, (s.peers.peerKeys.lookup sender).map Prod.snd, raw, view.header.sequence,
              ((s.peers.windowOf sender).checkAndMark view.header.sequence).1,
              Serial.ahead ((s.peers.windowOf sender).checkAndMark view.header.sequence).2.highest
                view.header.sequence,
              (s.peers.windowOf sender).advance view.header.sequence⟩ :: s.history.marked }
        (s.antiReplay view raw sender).2) := by
  cases hkey : s.peers.decryptKey with
  | none =>
    refine .inl ⟨rfl, ?_⟩
    simp only [antiReplay, hkey, Option.isNone_none, if_true]
  | some key =>
    refine .inr ⟨key, rfl, ?_⟩
    cases hr : ((s.peers.windowOf sender).checkAndMark view.header.sequence).1 with
    | false =>
      simp only [antiReplay, hkey, hr, Option.isNone_some, if_false, Bool.false_eq_true, true_and]
      exact .of_eq rfl rfl rfl rfl rfl
    | true =>
      simp only [antiReplay, hkey, hr, Option.isNone_some, if_false, if_true, Bool.false_eq_true,
        true_and]
      rfl

theorem switchPeer_cases (env : Env) (old new : SocketAddr) (s : Session cfg) :
    s.switchPeer env old new = s ∨
      ∃ book, s.peers.book.replace old new = some book ∧
        Quiet
          { s with
            peers := s.peers.switch book old new
            live.peerSeen := s.live.peerSeen.rename old new
            history.switched := (old, new) :: s.history.switched }
          (s.switchPeer env old new) := by
  cases hbook : s.peers.book.replace old new with
  | none =>
    left
    simp only [switchPeer, hbook]
  | some book =>
    refine .inr ⟨book, rfl, ?_⟩
    simp only [switchPeer, hbook]
    exact .of_eq rfl rfl rfl rfl rfl

theorem mem_book_switchPeer (env : Env) (old new : SocketAddr) (s : Session cfg) :
    new ∈ (s.switchPeer env old new).peers.book.peers ∨ old ∉ s.peers.book.peers := by
  cases hbook : s.peers.book.replace old new with
  | none => exact .inr (AddressBook.replace_eq_none.mp hbook)
  | some book =>
    left
    simp only [switchPeer, hbook]
    exact (AddressBook.mem_replace hbook).mpr (.inl rfl)

/-- Nobody is admitted and nothing is set by these effects. -/
structure Keeps (s t : Session cfg) : Prop where
  settings : t.settings = s.settings
  closed : t.status.closed = s.status.closed
  sessionId : t.status.sessionId = s.status.sessionId
  state : s.status.state.Sinks t.status.state
  pendingJoins : t.pendingJoins = s.pendingJoins
  installed : t.history.installed = s.history.installed

theorem Quiet.keeps (h : Quiet s t) : Keeps s t :=
  ⟨h.settings, h.closed, h.sessionId, h.state, h.pendingJoins, by rw [h.history]⟩

theorem SpeaksOnly.keeps (h : SpeaksOnly s t) : Keeps s t :=
  ⟨h.settings, by rw [h.status], by rw [h.status], .inl (by rw [h.status]), h.pendingJoins,
    by rw [h.history]⟩

@[refl] theorem Keeps.refl (s : Session cfg) : Keeps s s := (Quiet.refl s).keeps

@[trans] theorem Keeps.trans {u : Session cfg} (h : Keeps s t) (h' : Keeps t u) : Keeps s u :=
  ⟨h'.settings.trans h.settings, h'.closed.trans h.closed, h'.sessionId.trans h.sessionId,
    h.state.trans h'.state, h'.pendingJoins.trans h.pendingJoins, h'.installed.trans h.installed⟩

theorem Keeps.after {u : Session cfg} (h : Keeps t u) (h' : Keeps s t) : Keeps s u := h'.trans h

theorem keeps_switchPeer (env : Env) (old new : SocketAddr) (s : Session cfg) :
    Keeps s (s.switchPeer env old new) := by
  rcases switchPeer_cases env old new s with h | ⟨book, -, h⟩
  · rw [h]
  · exact h.keeps.after ⟨rfl, rfl, rfl, .refl _, rfl, rfl⟩

theorem RxEffect.keeps (h : RxEffect C env i s₀ s t) : Keeps s t := by
  cases h with
  | quiet h => exact h.keeps
  | see => exact ⟨rfl, rfl, rfl, .refl _, rfl, rfl⟩
  | drop gone => exact ⟨rfl, rfl, rfl, .refl _, rfl, rfl⟩
  | buffer jitter gap => exact ⟨rfl, rfl, rfl, .refl _, rfl, rfl⟩
  | note => exact ⟨rfl, rfl, rfl, .refl _, rfl, rfl⟩
  | migrate => exact keeps_switchPeer _ _ _ _
  | probe => exact keeps_switchPeer _ _ _ _
  | check =>
    rename_i sender raw view _ _ _
    rcases antiReplay_cases view raw sender s with ⟨-, h⟩ | ⟨key, -, -, h⟩
    · rw [h]
    · exact h.keeps.after ⟨rfl, rfl, rfl, .refl _, rfl, rfl⟩
  | hear =>
    rename_i sender raw plain view _ _ _ _ _ _ _
    rcases hearFrame_cases C env sender view.header.timestamp plain s with
      h | ⟨-, -, h⟩ | ⟨-, -, offset, -, h⟩
    · exact h.keeps
    · rw [h]
      exact ⟨rfl, rfl, rfl, .refl _, rfl, rfl⟩
    · exact h.keeps.after ⟨rfl, rfl, rfl, .refl _, rfl, rfl⟩
  | parity =>
    rename_i sender raw plain view _ _ _ _ _ _ _ _
    rcases hearParity_cases sender plain s with h | ⟨-, base, -, ⟨-, h⟩ | ⟨seq, payload, -, h⟩⟩
    · rw [h]
    · rw [h]
      exact ⟨rfl, rfl, rfl, .refl _, rfl, rfl⟩
    · rw [h]
      exact ⟨rfl, rfl, rfl, .refl _, rfl, rfl⟩

theorem RxEffects.keeps (h : RxEffects C env i s₀ s t) : Keeps s t := by
  induction h with
  | refl => rfl
  | tail _ he ih => exact ih.trans he.keeps

/-! ## Keys -/

theorem HoldsKey.narrows {key : SessionKey} (hkey : t.HoldsKey key)
    (h : s.peers.Narrows t.peers) : s.HoldsKey key := by
  rcases hkey with ⟨a, pair, ha, rfl⟩ | hkey
  · obtain ⟨b, hb⟩ := h.pairs a pair ha
    exact .inl ⟨b, pair, hb, rfl⟩
  · exact .inr (h.decryptKey key hkey)

theorem narrows_switchPeer (env : Env) (old new : SocketAddr) (s : Session cfg) :
    s.peers.Narrows (s.switchPeer env old new).peers := by
  rcases switchPeer_cases env old new s with h | ⟨book, -, h⟩
  · rw [h]
  · rw [h.peers]
    exact s.peers.narrows_switch book old new

/-- From `s` to `t` keys were kept, moved, forgotten and used, but not stored. -/
structure UsesKeys (s t : Session cfg) : Prop where
  narrows : s.peers.Narrows t.peers
  emits : Emits s.peers.SealsWith s.traffic t.traffic
  installed : t.history.installed = s.history.installed

theorem UsesKeys.of_eq (h : s.peers.Narrows t.peers) (htraffic : t.traffic = s.traffic)
    (hinst : t.history.installed = s.history.installed) : UsesKeys s t :=
  ⟨h, .of_eq (by rw [htraffic]) (by rw [htraffic]) (by rw [htraffic]), hinst⟩

@[trans] theorem UsesKeys.trans {u : Session cfg} (h : UsesKeys s t) (h' : UsesKeys t u) :
    UsesKeys s u := by
  refine ⟨⟨fun a pair hu => ?_, fun key hu => ?_, fun key hu => ?_⟩, ?_, ?_⟩
  · obtain ⟨b, hb⟩ := h'.narrows.pairs a pair hu
    exact h.narrows.pairs b pair hb
  · exact h.narrows.encryptKey key (h'.narrows.encryptKey key hu)
  · exact h.narrows.decryptKey key (h'.narrows.decryptKey key hu)
  · exact h.emits.trans (h'.emits.mono fun _ => h.narrows.sealsWith)
  · exact h'.installed.trans h.installed

theorem UsesKeys.after {u : Session cfg} (h : UsesKeys t u) (h' : UsesKeys s t) : UsesKeys s u :=
  h'.trans h

theorem Quiet.usesKeys (h : Quiet s t) : UsesKeys s t :=
  ⟨by rw [h.peers], h.emits, by rw [h.history]⟩

theorem SpeaksOnly.usesKeys (h : SpeaksOnly s t) : UsesKeys s t :=
  ⟨by rw [h.peers], h.emits, by rw [h.history]⟩

theorem usesKeys_switchPeer (env : Env) (old new : SocketAddr) (s : Session cfg) :
    UsesKeys s (s.switchPeer env old new) := by
  refine .of_eq (narrows_switchPeer env old new s) ?_ (keeps_switchPeer env old new s).installed
  unfold switchPeer
  split <;> rfl

theorem RxEffect.usesKeys (he : RxEffect C env i s₀ s t) : UsesKeys s t := by
  cases he with
  | quiet h => exact h.usesKeys
  | see => exact .of_eq (.refl _) rfl rfl
  | drop gone => exact .of_eq (s.peers.narrows_dropAll gone) rfl rfl
  | buffer jitter gap => exact .of_eq (.refl _) rfl rfl
  | note => exact .of_eq (.refl _) rfl rfl
  | migrate => exact usesKeys_switchPeer env _ _ s
  | probe => exact usesKeys_switchPeer env _ _ s
  | check =>
    rename_i sender raw view _ _ _
    rcases antiReplay_cases view raw sender s with ⟨-, h⟩ | ⟨key, -, -, h⟩
    · rw [h]
      exact .of_eq (.refl _) rfl rfl
    · exact h.usesKeys.after (.of_eq (Peers.narrows_of_eq rfl rfl rfl) rfl rfl)
  | hear =>
    rename_i sender raw plain view _ _ _ _ _ _ _
    rcases hearFrame_cases C env sender view.header.timestamp plain s with
      h | ⟨-, -, h⟩ | ⟨-, -, offset, -, h⟩
    · exact h.usesKeys
    · rw [h]
      exact .of_eq (.refl _) rfl rfl
    · exact h.usesKeys.after (.of_eq (.refl _) rfl rfl)
  | parity =>
    rename_i sender raw plain view _ _ _ _ _ _ _ _
    rcases hearParity_cases sender plain s with h | ⟨-, base, -, ⟨-, h⟩ | ⟨seq, payload, -, h⟩⟩
    · rw [h]
      exact .of_eq (.refl _) rfl rfl
    · rw [h]
      exact .of_eq (.refl _) rfl rfl
    · rw [h]
      exact .of_eq (.refl _) rfl rfl

/-! ## From functions to effects -/

theorem Peers.dropAll_singleton (p : Peers) (a : SocketAddr) : p.dropAll {a} = p.drop a := by
  have hempty : p.dropAll ∅ = p := by
    unfold Peers.dropAll AddressBook.retain Table.retain
    simp
  rw [← insert_empty_eq, Peers.dropAll_insert, hempty]

theorem dropPeers_singleton (s : Session cfg) (a : SocketAddr) :
    s.dropPeers {a} = s.dropPeer a := by
  have hnone : Table.retain (fun x _ => x ∉ (∅ : Finset SocketAddr)) s.live.peerSeen =
      s.live.peerSeen := by
    unfold Table.retain
    simp
  have hseen : Table.retain (fun x _ => x ∉ ({a} : Finset SocketAddr)) s.live.peerSeen =
      s.live.peerSeen.erase a := by
    rw [← insert_empty_eq, Peers.retain_insert, hnone]
  rw [dropPeers, dropPeer, Peers.dropAll_singleton, hseen]

variable (C env)

theorem quiet_keepaliveDue (s : Session cfg) : Quiet s (s.keepaliveDue C env) := by
  unfold keepaliveDue
  split
  · exact (sendsOnly_sendKeepalive C env _).quiet.after (.of_eq rfl rfl rfl rfl rfl)
  · rfl

theorem quiet_registerDue (stale : Bool) (s : Session cfg) :
    Quiet s (s.registerDue C env stale) := by
  unfold registerDue
  split
  · rfl
  · split_ifs
    · exact (sendsOnly_sendRv C env _ _ _).quiet.after (.of_eq rfl rfl rfl rfl rfl)
    · rfl
    · exact (sendsOnly_sendRv C env _ _ _).quiet.after (.of_eq rfl rfl rfl rfl rfl)
    · rfl

theorem sendsOnly_probeHint (first : Bool) (hint : SocketAddr) (s : Session cfg) :
    SendsOnly s (s.probeHint C env first hint) := by
  unfold probeHint
  dsimp only
  split_ifs
  · exact (sendsOnly_sendRv C env _ _ _).trans (sendsOnly_punchNeighbours C env _ _ _)
  · exact sendsOnly_sendRv C env _ _ _

theorem quiet_probeDue (stale : Bool) (s : Session cfg) : Quiet s (s.probeDue C env stale) := by
  unfold probeDue
  split_ifs
  · exact (SendsOnly.foldl (fun s hint => sendsOnly_probeHint C env _ hint s) _ _).quiet.after
      (.of_eq rfl rfl rfl rfl rfl)
  · exact .of_eq rfl rfl rfl rfl rfl
  · rfl

theorem quiet_advertiseDue (stale : Bool) (s : Session cfg) :
    Quiet s (s.advertiseDue C env stale) := by
  unfold advertiseDue
  dsimp only
  split_ifs
  · exact .of_eq rfl rfl rfl rfl rfl
  · exact (sendsOnly_sendRvAll C env _ _ _).quiet.after (.of_eq rfl rfl rfl rfl rfl)
  · rfl

/-- Maintenance of a room drops the silent peers and sends. -/
theorem quiet_maintainRoom (s : Session cfg) :
    Quiet (s.dropPeers (s.gonePeers env)) (s.maintainRoom C env) := by
  unfold maintainRoom
  dsimp only
  split_ifs
  · exact .of_eq rfl rfl rfl rfl rfl
  · split
    · exact (sendsOnly_sendRvAll C env _ _ _).quiet.after (.of_eq rfl rfl rfl rfl rfl)
    · exact ((sendsOnly_sendRv C env _ _ _).trans (sendsOnly_sendRvAll C env _ _ _)).quiet.after
        (.of_eq rfl rfl rfl rfl rfl)

theorem rx_maintainPath (hseen : s.live.peerSeen = s₀.live.peerSeen) :
    RxEffects C env .none s₀ s (s.maintainPath C env) := by
  have hfront : Quiet s (((s.keepaliveDue C env).registerDue C env
      ((s.keepaliveDue C env).pathIsStale env.now)).probeDue C env
      ((s.keepaliveDue C env).pathIsStale env.now)) :=
    ((quiet_keepaliveDue C env s).trans (quiet_registerDue C env _ _)).trans
      (quiet_probeDue C env _ _)
  have hgone := hfront.peerSeen.trans hseen
  unfold maintainPath
  dsimp only
  split_ifs
  · refine ((hfront.rx.tail (.drop _ fun a ha => .silent rfl ?_)).tail
      (.quiet (quiet_maintainRoom C env _))).tail (.quiet (quiet_advertiseDue C env _ _))
    unfold gonePeers at ha ⊢
    rwa [hgone] at ha
  · exact hfront.rx.tail (.quiet (quiet_advertiseDue C env _ _))

theorem rx_turn (s : Session cfg) : RxEffects C env .none s s (s.turn C env).2 := by
  have hpop : s.media.jitter.pop.2 = s.media.jitter.step .pop := rfl
  unfold turn
  split
  · rename_i frame jitter heq
    rw [heq] at hpop
    exact .single (.buffer _ _ (.inr ⟨.pop, hpop⟩))
  · rename_i jitter heq
    rw [heq] at hpop
    have hfront :
        RxEffects C env .none s s (maintainPath C env { s with media.jitter := jitter }) :=
      (ReflTransGen.single (.buffer jitter s.media.gapSince (.inr ⟨.pop, hpop⟩))).trans
        (rx_maintainPath C env rfl)
    dsimp only
    split_ifs
    · exact hfront.tail (.buffer _ _ (.inl rfl))
    · exact hfront.tail (.buffer _ _ (.inl rfl))
    · exact hfront.tail (.buffer _ _ (.inr ⟨.skipToAvailable, rfl⟩))
    · exact hfront

theorem quiet_checkLiveness (s : Session cfg) : Quiet s (s.checkLiveness env).2 := by
  unfold checkLiveness
  dsimp only
  split_ifs
  · exact ⟨rfl, SessionState.sinks_peerTimeout _, rfl, .refl _ _⟩
  · exact .of_eq rfl rfl rfl rfl rfl

theorem quiet_pollTimeout (s : Session cfg) : Quiet s (s.pollTimeout env).2 := by
  unfold pollTimeout
  split_ifs
  · exact (sendsOnly_sendHeartbeat env s).quiet.trans (quiet_checkLiveness env _)
  · rfl

/-! ## Datagrams -/

theorem quiet_heard (s : Session cfg) (n : ℕ) : Quiet s ((s.recordReceived n).heard env) :=
  (.of_eq rfl rfl rfl rfl rfl)

variable {C env}

theorem Quiet.openWith (h : Quiet s t) (key : SessionKey) (view : PacketView) (raw : Bytes) :
    t.openWith C key view raw = s.openWith C key view raw := by
  unfold Session.openWith
  rw [h.sessionId]

theorem Quiet.openAs (h : Quiet s t) (a : SocketAddr) (view : PacketView) (raw : Bytes) :
    t.openAs C a view raw = s.openAs C a view raw := by
  unfold Session.openAs
  simp only [h.peers, h.openWith]

theorem Quiet.freshFor (h : Quiet s t) (a : SocketAddr) (seq : UInt32) :
    t.freshFor a seq = s.freshFor a seq := by
  unfold Session.freshFor
  rw [h.peers]

theorem openWith_eq_some {key : SessionKey} {view : PacketView} {raw plain : Bytes} :
    s.openWith C key view raw = some plain ↔
      C.decryptInPlace key (makeNonce view.header.sequence s.status.sessionId)
        (raw.take headerSize) view.payload = .ok plain := by
  unfold openWith
  cases C.decryptInPlace key (makeNonce view.header.sequence s.status.sessionId)
      (raw.take headerSize) view.payload with
  | error e => simp [Except.toOption]
  | ok out => simp [Except.toOption]

/-- What opens as somebody's opens under the key stored for it. -/
theorem openAs_eq_some {a : SocketAddr} {view : PacketView} {raw plain : Bytes}
    {key : SessionKey} :
    s.openAs C a view raw = some (key, plain) ↔
      (∃ enc, s.peers.peerKeys.lookup a = some (enc, key)) ∧
        s.openWith C key view raw = some plain := by
  unfold Session.openAs
  simp only [Option.bind_eq_bind, Option.bind_eq_some_iff, Option.pure_def, Option.some.injEq,
    Prod.mk.injEq]
  constructor
  · rintro ⟨pair, hpair, out, hout, rfl, rfl⟩
    exact ⟨⟨pair.1, hpair⟩, hout⟩
  · rintro ⟨⟨enc, hkey⟩, hplain⟩
    exact ⟨_, hkey, plain, hplain, rfl, rfl⟩

/-- How far a session that has dispatched a packet as one of `sender` has moved
from the session `s₀` that received it. -/
structure Follows (s₀ s : Session cfg) (view : PacketView) (sender : SocketAddr) : Prop where
  settings : s.settings = s₀.settings
  sessionId : s.status.sessionId = s₀.status.sessionId
  media : s.media = s₀.media
  keys : ∀ key, s.HoldsKey key → s₀.HoldsKey key
  known : announces view = true ∨ sender ∈ s₀.peers.book.peers

theorem Follows.clear {view : PacketView} {sender : SocketAddr} (h : Follows s₀ s view sender)
    (hflag : view.header.flags.contains .encrypted = false) : sender ∈ s₀.peers.book.peers := by
  refine h.known.resolve_left ?_
  simp [announces, hflag]

/-- A farewell moves nobody. -/
theorem Follows.of_close {view : PacketView} {sender : SocketAddr} (h : Follows s₀ s view sender)
    (htype : MessageType.fromCode view.header.msgType = .ok .close) :
    sender ∈ s₀.peers.book.peers := by
  refine h.known.resolve_left ?_
  simp [announces, htype]

theorem Quiet.follows {view : PacketView} {sender : SocketAddr} (hq : Quiet s t)
    (h : Follows s₀ s view sender) : Follows s₀ t view sender := by
  refine ⟨hq.settings.trans h.settings, hq.sessionId.trans h.sessionId, hq.media.trans h.media,
    fun key hkey => h.keys key ?_, h.known⟩
  unfold HoldsKey at hkey ⊢
  rwa [hq.peers] at hkey

theorem Follows.antiReplay {view : PacketView} {sender : SocketAddr}
    (h : Follows s₀ s view sender) (raw : Bytes) :
    Follows s₀ (s.antiReplay view raw sender).2 view sender := by
  rcases antiReplay_cases view raw sender s with ⟨-, he⟩ | ⟨key, -, -, hq⟩
  · rwa [he]
  · exact hq.follows ⟨h.settings, h.sessionId, h.media, h.keys, h.known⟩

/-- `try_migrate` notes what it opened and may move a peer. -/
theorem rx_tryMigrate (C : Crypto) (env : Env) {view : PacketView} {raw : Bytes}
    {sender : SocketAddr} (hq : Quiet s₀ s) (hview : PacketView.decode raw = .ok view)
    (hbook : sender ∉ s₀.peers.book.peers) :
    RxEffects C env (.loop sender raw) s₀ s (s.tryMigrate C env view raw sender).2 ∧
      ((s.tryMigrate C env view raw sender).1 = true →
        Follows s₀ (s.tryMigrate C env view raw sender).2 view sender ∧
        (sender ∈ (s.tryMigrate C env view raw sender).2.peers.book.peers ∨ ∃ old pair,
          s₀.peers.peerKeys.lookup old = some pair ∧ old ∉ s₀.peers.book.peers)) := by
  unfold tryMigrate
  split_ifs with hann
  · exact ⟨.refl, nofun⟩
  · split
    · exact ⟨.refl, nofun⟩
    · rename_i old hold
      split
      · exact ⟨.refl, nofun⟩
      · rename_i key plain hopen
        obtain ⟨⟨enc, hkey⟩, hplain⟩ := openAs_eq_some.mp hopen
        have hnote : RxEffects C env (.loop sender raw) s₀ s
            (s.noteOpened sender key view raw plain) :=
          .single (.note rfl hview (.inl ⟨old, _, hkey, rfl⟩) hplain)
        dsimp only
        split_ifs with hfresh
        · have hopen₀ : s₀.openAs C old view raw = some (key, plain) := by
            rw [← hq.openAs, hopen]
          have hfresh₀ : s₀.freshFor old view.header.sequence = true := by
            rw [← hq.freshFor]
            exact hfresh
          have hannounces : announces view = true := by simpa using hann
          refine ⟨hnote.tail (.migrate rfl hview hq.peers hbook hopen₀ hfresh₀ hannounces),
            fun _ => ⟨?_, ?_⟩⟩
          · have hkeeps := keeps_switchPeer env old sender
              (s.noteOpened sender key view raw plain)
            refine ⟨hkeeps.settings.trans hq.settings, hkeeps.sessionId.trans hq.sessionId, ?_, ?_,
              ?_⟩
            · rcases switchPeer_cases env old sender (s.noteOpened sender key view raw plain) with
                he | ⟨book, -, hsw⟩
              · rw [he]
                exact hq.media
              · exact hsw.media.trans hq.media
            · intro k hk
              have hs : s.HoldsKey k :=
                HoldsKey.narrows (s := s.noteOpened sender key view raw plain) hk
                  (narrows_switchPeer env old sender _)
              unfold HoldsKey at hs ⊢
              rwa [hq.peers] at hs
            · exact .inl (by simpa using hann)
          · rw [hq.peers] at hkey
            refine (mem_book_switchPeer env old sender _).imp id fun hgone => ⟨old, _, hkey, ?_⟩
            exact hq.peers ▸ hgone
        · exact ⟨hnote, nofun⟩

/-- A message of an audio type becomes one effect on the audio path; other
messages send, set flags or drop their sender. -/
theorem rx_handlePacket {view : PacketView} {raw : Bytes} {sender : SocketAddr}
    (hview : PacketView.decode raw = .ok view) (h : Follows s₀ s view sender)
    (hfresh : sender ∈ s₀.peers.book.peers → s₀.Accepts sender view.header.sequence) :
    RxEffects C env (.loop sender raw) s₀ s (s.handlePacket C env view raw sender).2 := by
  have hquiet {t : Session cfg} (hq : Quiet s t) : RxEffects C env (.loop sender raw) s₀ s t :=
    hq.rx
  have hsealed {key : SessionKey} {plain : Bytes}
      (hflag : view.header.flags.contains .encrypted = true)
      (hkey : s.peers.decKeyFor sender = some key)
      (hopen : s.openWith C key view raw = some plain) :
      Reads C s₀ (s.noteOpened sender key view raw plain) view raw sender plain := by
    refine .sealed key _ hflag (h.keys key (holdsKey_of_decKeyFor hkey)) ?_ List.mem_cons_self ?_
      rfl rfl
    · unfold openWith at hopen ⊢
      rwa [h.sessionId] at hopen
    · exact hkey
  unfold handlePacket
  split
  · exact hquiet (.of_eq rfl rfl rfl rfl rfl)
  · rename_i htype
    dsimp only [onAudioFrame]
    split_ifs with hflag
    · split
      · exact hquiet (.of_eq rfl rfl rfl rfl rfl)
      · rename_i key hkey
        split
        · exact hquiet (.of_eq rfl rfl rfl rfl rfl)
        · rename_i plain hopen
          exact (ReflTransGen.single (.note rfl hview (holdsKey_of_decKeyFor hkey) hopen)).tail
            (.hear rfl hview htype h.media h.settings hfresh (hsealed hflag hkey hopen))
    · have hclear : view.header.flags.contains .encrypted = false := by simpa using hflag
      have hread : Reads C s₀ s view raw sender view.payload := .clear hclear rfl (h.clear hclear)
      exact .single (.hear rfl hview htype h.media h.settings hfresh hread)
  · rename_i htype
    dsimp only [onAudioFec]
    split_ifs with hflag
    · split
      · exact .refl
      · rename_i key hkey
        split
        · exact hquiet (.of_eq rfl rfl rfl rfl rfl)
        · rename_i plain hopen
          exact (ReflTransGen.single (.note rfl hview (holdsKey_of_decKeyFor hkey) hopen)).tail
            (.parity rfl hview htype h.media h.settings hfresh hflag (hsealed hflag hkey hopen))
    · exact .refl
  · exact hquiet (sendsOnly_sendControl env _ _ _ _ s).quiet
  · exact hquiet (.of_eq rfl rfl rfl rfl rfl)
  · exact hquiet (.of_eq rfl rfl rfl rfl rfl)
  · exact hquiet (.of_eq rfl rfl rfl rfl rfl)
  · split_ifs
    · exact .refl
    · exact hquiet (sendsOnly_sendControl env _ _ _ _ s).quiet
  · exact hquiet (.of_eq rfl rfl rfl rfl rfl)
  · exact hquiet (.of_eq rfl rfl rfl rfl rfl)
  · split
    · exact hquiet (.of_eq rfl rfl rfl rfl rfl)
    · exact .refl
  · rename_i htype
    split_ifs with hroom
    · rw [← dropPeers_singleton]
      refine .single (.drop {sender} fun a ha => ?_)
      rw [Finset.mem_singleton] at ha
      subst ha
      have hbook := h.of_close htype
      exact .close raw view rfl hview htype (h.settings ▸ hroom) hbook (hfresh hbook)
    · exact hquiet ⟨rfl, SessionState.sinks_peerClosed _, rfl, .refl _ _⟩
  · exact .refl

theorem accepts_of_antiReplay {view : PacketView} {raw : Bytes} {sender : SocketAddr}
    (h : s.antiReplay view raw sender = (true, t)) : s.Accepts sender view.header.sequence := by
  rcases antiReplay_cases view raw sender s with ⟨hkey, -⟩ | ⟨key, -, hr, -⟩
  · exact .inl hkey
  · rw [h] at hr
    exact .inr hr.symm

theorem rx_acceptPacket {view : PacketView} {raw : Bytes} {sender : SocketAddr}
    (hview : PacketView.decode raw = .ok view) (h : Follows s₀ s view sender)
    (hpeers : sender ∈ s₀.peers.book.peers → s.peers = s₀.peers)
    (hbook : sender ∈ s.peers.book.peers ∨ ∃ old pair,
      s₀.peers.peerKeys.lookup old = some pair ∧ old ∉ s₀.peers.book.peers) :
    RxEffects C env (.loop sender raw) s₀ s (s.acceptPacket C env view raw sender).2 := by
  have hcheck : RxEffects C env (.loop sender raw) s₀ s
      ((s.see sender env.now).antiReplay view raw sender).2 :=
    (ReflTransGen.single (.see rfl hbook)).tail (.check rfl hview hbook)
  have hsee : Follows s₀ (s.see sender env.now) view sender :=
    ⟨h.settings, h.sessionId, h.media, h.keys, h.known⟩
  have hfollows := hsee.antiReplay raw
  unfold acceptPacket
  split
  · rename_i t ht
    rwa [ht] at hcheck
  · rename_i t ht
    rw [ht] at hcheck hfollows
    refine hcheck.trans (rx_handlePacket hview hfollows fun hknown => ?_)
    have hacc := accepts_of_antiReplay ht
    unfold Accepts at hacc ⊢
    rwa [← hpeers hknown]

theorem rx_dispatchPacket {view : PacketView} {raw : Bytes} {sender : SocketAddr}
    (hq : Quiet s₀ s) (hview : PacketView.decode raw = .ok view) :
    RxEffects C env (.loop sender raw) s₀ s (s.dispatchPacket C env view raw sender).2 := by
  unfold dispatchPacket
  split_ifs with hbook
  · rw [AddressBook.contains_iff, hq.peers] at hbook
    refine rx_acceptPacket hview ⟨hq.settings, hq.sessionId, hq.media, fun key hkey => ?_,
      .inr hbook⟩ (fun _ => hq.peers) (.inl (hq.peers ▸ hbook))
    unfold HoldsKey at hkey ⊢
    rwa [hq.peers] at hkey
  · rw [AddressBook.contains_iff, hq.peers] at hbook
    obtain ⟨hrx, hfollows⟩ := rx_tryMigrate C env hq hview hbook
    split
    · rename_i t ht
      rwa [ht] at hrx
    · rename_i t ht
      rw [ht] at hrx hfollows
      obtain ⟨hfollows, hknown⟩ := hfollows rfl
      exact hrx.trans (rx_acceptPacket hview hfollows (fun h => absurd h hbook) hknown)

theorem rx_probeAnswered {raw : Bytes} {sender : SocketAddr}
    (hi : i.datagram = some (sender, raw)) (hq : SendsOnly s₀ s)
    (hmsg : Message.decode raw = some (s₀.roomKey C, .punchAck s₀.settings.probeNonce)) :
    RxEffects C env i s₀ s (s.probeAnswered C env sender) := by
  unfold probeAnswered
  split
  · exact .refl
  · rename_i old hold
    split_ifs with hcond
    · obtain ⟨hne, hstale, hlen⟩ := hcond
      have hstale₀ : s₀.pathIsStale env.now = true := by
        unfold pathIsStale at hstale ⊢
        rwa [hq.live, hq.path] at hstale
      rw [hq.peers] at hold hlen
      refine (ReflTransGen.single (.probe hi hmsg hq.peers hold hne hstale₀ hlen)).tail (.quiet ?_)
      exact (sendsOnly_sendKeepalive C env _).quiet
    · exact .refl

theorem rx_onRendezvous {raw : Bytes} {sender : SocketAddr}
    (hi : i.datagram = some (sender, raw)) (hq : SendsOnly s₀ s) :
    RxEffects C env i s₀ s (s.onRendezvous C env raw sender) := by
  unfold onRendezvous
  split
  · exact .refl
  · rename_i key msg hmsg
    by_cases hkey : key ≠ s.roomKey C
    · rw [if_pos hkey]
    · rw [if_neg hkey]
      rw [not_not] at hkey
      subst hkey
      split
      · exact .refl
      · split_ifs
        · rename_i you others _
          have hsend : Quiet s (others.foldl
              (fun s peer => s.sendRv C env (.punch (env.punchNonce peer)) peer) s) :=
            (SendsOnly.foldl (fun s peer => sendsOnly_sendRv C env _ peer s) _ s).quiet
          exact (Quiet.rx hsend).tail (.quiet (.of_eq rfl rfl rfl rfl rfl))
        · exact .refl
      · exact (sendsOnly_sendRv C env _ _ s).quiet.rx
      · split_ifs
        · exact Quiet.rx (.of_eq rfl rfl rfl rfl rfl)
        · exact .refl
      · rename_i nonce
        split_ifs with hnonce
        · subst hnonce
          have hroom : s.roomKey C = s₀.roomKey C := by
            unfold roomKey
            rw [hq.settings]
          rw [hroom, hq.settings] at hmsg
          exact rx_probeAnswered hi hq hmsg
        · exact .refl

/-! ## Steps of the machine -/

/-- Like `Quiet`, but the lifecycle, the agreed values and the settings that no
effect depends on may have changed. -/
structure Calm (s t : Session cfg) : Prop where
  eq : t = { s with
    settings := { t.settings with
      roomToken := s.settings.roomToken
      handshakeMode := s.settings.handshakeMode
      multiPeer := s.settings.multiPeer
      probeNonce := s.settings.probeNonce }
    status := { t.status with closed := s.status.closed }
    traffic := t.traffic
    path := t.path
    live := ⟨t.live.lastRx, s.live.peerSeen⟩
    congestion := t.congestion
    rtt := t.rtt }
  framed : t.traffic.framed = s.traffic.framed
  emits : Emits s.peers.SealsWith s.traffic t.traffic

namespace Calm

variable {u : Session cfg}

/-- Nothing was sent that takes a number. -/
theorem of_eq (heq : t = { s with
      settings := { t.settings with
        roomToken := s.settings.roomToken
        handshakeMode := s.settings.handshakeMode
        multiPeer := s.settings.multiPeer
        probeNonce := s.settings.probeNonce }
      status := { t.status with closed := s.status.closed }
      traffic := t.traffic
      path := t.path
      live := ⟨t.live.lastRx, s.live.peerSeen⟩
      congestion := t.congestion
      rtt := t.rtt })
    (hframed : t.traffic.framed = s.traffic.framed) (htaken : t.traffic.taken = s.traffic.taken)
    (hseq : t.traffic.txSequence = s.traffic.txSequence)
    (hsealed : t.traffic.sealed = s.traffic.sealed) : Calm s t :=
  ⟨heq, hframed, .of_eq htaken hseq hsealed⟩

@[refl] theorem refl (s : Session cfg) : Calm s s := .of_eq rfl rfl rfl rfl rfl

theorem roomToken (h : Calm s t) : t.settings.roomToken = s.settings.roomToken := by rw [h.eq]
theorem handshakeMode (h : Calm s t) : t.settings.handshakeMode = s.settings.handshakeMode := by
  rw [h.eq]
theorem multiPeer (h : Calm s t) : t.settings.multiPeer = s.settings.multiPeer := by rw [h.eq]
theorem probeNonce (h : Calm s t) : t.settings.probeNonce = s.settings.probeNonce := by rw [h.eq]
theorem closed (h : Calm s t) : t.status.closed = s.status.closed := by rw [h.eq]
theorem peers (h : Calm s t) : t.peers = s.peers := by rw [h.eq]
theorem pendingJoins (h : Calm s t) : t.pendingJoins = s.pendingJoins := by rw [h.eq]
theorem media (h : Calm s t) : t.media = s.media := by rw [h.eq]
theorem voice (h : Calm s t) : t.voice = s.voice := by rw [h.eq]
theorem peerSeen (h : Calm s t) : t.live.peerSeen = s.live.peerSeen := by rw [h.eq]
theorem history (h : Calm s t) : t.history = s.history := by rw [h.eq]

@[trans] theorem trans (h : Calm s t) (h' : Calm t u) : Calm s u := by
  refine ⟨?_, h'.framed.trans h.framed, h.emits.trans ?_⟩
  · rw [h'.eq, h.eq]
  · rw [← h.peers]
    exact h'.emits

theorem after (h : Calm t u) (h' : Calm s t) : Calm s u := h'.trans h

end Calm

theorem Quiet.calm (h : Quiet s t) : Calm s t := by
  refine ⟨?_, h.framed, h.emits⟩
  rw [h.eq]

theorem SendsOnly.calm (h : SendsOnly s t) : Calm s t := h.quiet.calm

theorem calm_of_sendControl {msg : MessageType} {sid : UInt32} {payload : Bytes}
    {peer : SocketAddr} {r : Except TransportError Unit}
    (h : s.sendControl env msg sid payload peer = (r, t)) : Calm s t := by
  have hsend := sendsOnly_sendControl env msg sid payload peer s
  rw [h] at hsend
  exact hsend.calm

/-- Like `Calm`, and the lifecycle has not moved. -/
structure Steady (s t : Session cfg) : Prop where
  calm : Calm s t
  state : t.status.state = s.status.state

namespace Steady

variable {u : Session cfg}

@[refl] theorem refl (s : Session cfg) : Steady s s := ⟨.refl s, rfl⟩

@[trans] theorem trans (h : Steady s t) (h' : Steady t u) : Steady s u :=
  ⟨h.calm.trans h'.calm, h'.state.trans h.state⟩

theorem after (h : Steady t u) (h' : Steady s t) : Steady s u := h'.trans h

end Steady

theorem SendsOnly.steady (h : SendsOnly s t) : Steady s t := ⟨h.calm, by rw [h.status]⟩

theorem steady_of_sendControl {msg : MessageType} {sid : UInt32} {payload : Bytes}
    {peer : SocketAddr} {r : Except TransportError Unit}
    (h : s.sendControl env msg sid payload peer = (r, t)) : Steady s t := by
  have hsend := sendsOnly_sendControl env msg sid payload peer s
  rw [h] at hsend
  exact hsend.steady

theorem calm_transition (s : Session cfg) (e : SessionEvent) : Calm s (s.transition e) :=
  (.of_eq rfl rfl rfl rfl rfl)

variable (C env)

/-- Effects of any step: those of `RxEffect`, and those that admit, forget and
start again. -/
inductive Effect (i : Arrival) (s₀ : Session cfg) :
    Session cfg → Session cfg → Prop
  | rx {s t : Session cfg} (h : RxEffect C env i s₀ s t) : Effect i s₀ s t
  | calm {s t : Session cfg} (h : Calm s t) : Effect i s₀ s t
  | insert {s : Session cfg} (a : SocketAddr) :
    Effect i s₀ s { s with peers := s.peers.insert a }
  | remove {s : Session cfg} (a : SocketAddr) :
    Effect i s₀ s { s with peers := s.peers.remove a }
  | clearBook {s : Session cfg} : Effect i s₀ s { s with peers := s.peers.clearBook }
  | joins {s : Session cfg} (pending : Table SocketAddr PendingJoin) :
    Effect i s₀ s { s with pendingJoins := pending }
  | install {s : Session cfg} (peer : SocketAddr) (enc dec : SessionKey) :
    Effect i s₀ s (s.installKeys env peer enc dec)
  | say {s : Session cfg} (payload : Bytes) : Effect i s₀ s (s.sendAudio C env payload).2
  | close {s : Session cfg} : Effect i s₀ s (s.close env)
  | reopen {s : Session cfg} : Effect i s₀ s s.reopen.2

abbrev Effects (i : Arrival) (s₀ s t : Session cfg) : Prop :=
  ReflTransGen (Effect C env i s₀) s t

variable {C env}

theorem effects_of_rx (h : RxEffects C env i s₀ s t) : Effects C env i s₀ s t :=
  ReflTransGen.mono (fun _ _ he => .rx he) _ _ h

theorem Calm.usesKeys (h : Calm s t) : UsesKeys s t :=
  ⟨by rw [h.peers], h.emits, by rw [h.history]⟩

/-- Keys are stored by handshakes only, and all of them and their numbers are
forgotten by `reopen`. -/
theorem Effect.keys (he : Effect C env i s₀ s t) :
    UsesKeys s t ∨ (∃ peer enc dec, t = s.installKeys env peer enc dec) ∨ t = s.reopen.2 := by
  cases he with
  | rx he => exact .inl he.usesKeys
  | calm hc => exact .inl hc.usesKeys
  | insert a => exact .inl (.of_eq (Peers.narrows_of_eq rfl rfl rfl) rfl rfl)
  | remove a => exact .inl (.of_eq (Peers.narrows_of_eq rfl rfl rfl) rfl rfl)
  | clearBook => exact .inl (.of_eq (Peers.narrows_of_eq rfl rfl rfl) rfl rfl)
  | joins pending => exact .inl (.of_eq (.refl _) rfl rfl)
  | install peer enc dec => exact .inr (.inl ⟨peer, enc, dec, rfl⟩)
  | say payload => exact .inl (speaksOnly_sendAudio C env payload s).usesKeys
  | close =>
    have hclose := close_eq env s
    refine .inl ⟨?_, close_emits env s, ?_⟩
    · rw [hclose]
      exact s.peers.narrows_close
    · rw [hclose]
  | reopen => exact .inr (.inr rfl)

/-- A session that was reopened has no keys, and counts from zero. -/
theorem reopen_cases (s : Session cfg) : s.reopen.2 = s ∨ s.reopen.2.peers = Peers.new ∧
    s.reopen.2.traffic = { s.traffic with txSequence := 0, counters := Counters.new } ∧
    s.reopen.2.history = s.history := by
  unfold Session.reopen
  dsimp only
  split_ifs
  · exact .inl rfl
  · split
    · exact .inr ⟨rfl, rfl, rfl⟩
    · exact .inr ⟨rfl, rfl, rfl⟩

variable (C env)

theorem steady_noiseServerBegin (msg1 : Bytes) (s : Session cfg) :
    Steady s (s.noiseServerBegin C env msg1).2 := by
  unfold noiseServerBegin
  split
  · rfl
  · split
    · rfl
    · split
      · rfl
      · split_ifs
        · rfl
        · dsimp only
          split
          · exact ⟨.of_eq rfl rfl rfl rfl rfl, rfl⟩
          · split
            · exact ⟨.of_eq rfl rfl rfl rfl rfl, rfl⟩
            · split
              · exact ⟨.of_eq rfl rfl rfl rfl rfl, rfl⟩
              · exact ⟨.of_eq rfl rfl rfl rfl rfl, rfl⟩

/-- The last step of a handshake: it fails without a trace, or stores `enc` and
`dec` for `peer`. -/
def Settles (peer : SocketAddr) (enc dec : SessionKey) (s : Session cfg)
    (r : Except TransportError Unit × Session cfg) : Prop :=
  (∃ e, r.1 = .error e ∧ Steady s r.2) ∨
    r.1 = .ok () ∧ ∃ t, Steady s t ∧ r.2 = t.installKeys env peer enc dec

theorem settles_noiseServerFinish (peer : SocketAddr) (pending : PendingJoin)
    (ke : KeyExchangeMsg) (s : Session cfg) :
    Settles env peer pending.encKey pending.decKey s
      (s.noiseServerFinish env peer pending ke) := by
  unfold noiseServerFinish
  split_ifs
  · exact .inl ⟨_, rfl, Steady.refl s⟩
  · exact .inl ⟨_, rfl, Steady.refl s⟩
  · split
    · rename_i e t ht
      exact .inl ⟨e, rfl, steady_of_sendControl ht⟩
    · rename_i t ht
      exact .inr ⟨rfl, t, steady_of_sendControl ht, rfl⟩

theorem steady_legacyServerBegin (peer : SocketAddr) (hello : ClientHello) (s : Session cfg) :
    Steady s (s.legacyServerBegin C env peer hello).2 := by
  unfold legacyServerBegin
  split_ifs
  · rfl
  · dsimp only
    split
    · exact ⟨.of_eq rfl rfl rfl rfl rfl, rfl⟩
    · split
      · rename_i e t ht
        exact (steady_of_sendControl ht).after ⟨.of_eq rfl rfl rfl rfl rfl, rfl⟩
      · rename_i t ht
        exact (steady_of_sendControl ht).after ⟨.of_eq rfl rfl rfl rfl rfl, rfl⟩

theorem settles_legacyServerFinish (peer : SocketAddr) (wait : LegacyWait) (ke : KeyExchangeMsg)
    (s : Session cfg) :
    Settles env peer wait.encKey wait.decKey s (s.legacyServerFinish C env peer wait ke) := by
  unfold legacyServerFinish
  split_ifs
  · exact .inl ⟨_, rfl, Steady.refl s⟩
  · exact .inl ⟨_, rfl, Steady.refl s⟩
  · dsimp only
    split
    · rename_i e t ht
      exact .inl ⟨e, rfl, steady_of_sendControl ht⟩
    · rename_i t ht
      exact .inr ⟨rfl, t, steady_of_sendControl ht, rfl⟩

theorem steady_clientAnswer (peer : SocketAddr) (wait : HelloWait) (payload : Bytes)
    (s : Session cfg) : Steady s (s.clientAnswer C env peer wait payload).2 := by
  unfold clientAnswer
  split
  · rfl
  · split_ifs
    · rfl
    · rfl
    · dsimp only
      split
      · rename_i e t ht
        exact steady_of_sendControl ht
      · rename_i t ht
        exact steady_of_sendControl ht
    · rfl

theorem settles_clientFinish (peer : SocketAddr) (wait : ConfirmWait) (payload : Bytes)
    (s : Session cfg) :
    Settles env peer wait.encKey wait.decKey s (s.clientFinish C env peer wait payload) := by
  unfold clientFinish
  split
  · exact .inl ⟨_, rfl, Steady.refl s⟩
  · split_ifs
    · exact .inl ⟨_, rfl, Steady.refl s⟩
    · exact .inl ⟨_, rfl, Steady.refl s⟩
    · refine .inr ⟨rfl, { s with status := { s.status with
        sessionId := wait.sessionId
        localSsrc := ssrcOf wait.sessionId wait.encKey
        negotiatedCodec := wait.codec } }, ?_, rfl⟩
      exact ⟨.of_eq rfl rfl rfl rfl rfl, rfl⟩

theorem steady_noiseClientAnswer (peer : SocketAddr) (hs : C.Noise) (clientNonce : Vector UInt8 32)
    (presetSid : UInt32) (hello2 : NoiseHello2) (s : Session cfg) :
    Steady s (s.noiseClientAnswer C env peer hs clientNonce presetSid hello2).2 := by
  unfold noiseClientAnswer
  split_ifs
  · rfl
  · rfl
  · split
    · rfl
    · dsimp only
      split
      · rename_i e t ht
        exact (steady_of_sendControl ht).after ⟨.of_eq rfl rfl rfl rfl rfl, rfl⟩
      · rename_i t ht
        exact (steady_of_sendControl ht).after ⟨.of_eq rfl rfl rfl rfl rfl, rfl⟩
  · rfl

theorem settles_noiseClientFinish (peer : SocketAddr) (wait : ConfirmWait) (payload : Bytes)
    (s : Session cfg) :
    Settles env peer wait.encKey wait.decKey s (s.noiseClientFinish C env peer wait payload) := by
  unfold noiseClientFinish
  split
  · exact .inl ⟨_, rfl, Steady.refl s⟩
  · split_ifs
    · exact .inl ⟨_, rfl, Steady.refl s⟩
    · exact .inl ⟨_, rfl, Steady.refl s⟩
    · exact .inr ⟨rfl, s, Steady.refl s, rfl⟩

variable {C env}

/-- A packet that is no part of an admission leaves the session alone. -/
theorem eq_of_finishJoin_false {view : PacketView} {sender : SocketAddr}
    (h : s.finishJoin env view sender = (false, t)) : t = s := by
  unfold finishJoin at h
  split_ifs at h
  · exact (Prod.ext_iff.mp h).2.symm
  · split at h
    · exact (Prod.ext_iff.mp h).2.symm
    · dsimp only at h
      split at h
      · cases h
      · split at h <;> cases h

end Session
end GravitalTalk
