import GravitalTalk.Session.RoomFec
import GravitalTalk.Session.Stranger

/-!
# Numbers of the frames a peer gets

A session numbers its own frames and those it forwards from one counter, and the
receiver's buffer takes a hole in the numbers for a loss. But a forwarded frame
does not go to the guest that spoke it, and a target whose packet cannot be made
or is refused by the transport gets nothing under a number that is gone.
-/
namespace GravitalTalk
namespace Session

variable {cfg : Config} {C : Crypto} {env : Env} {s t : Session cfg}

/-- The numbers of the frames that `target` was sent, newest first. -/
def numbersTo (target : SocketAddr) (s : Session cfg) : List UInt32 :=
  (s.traffic.framed.filter fun e => e.1 = target).map Prod.snd

/-- `send_audio_to` gets as far as `target`, and the transport takes its packet. -/
def reaches (env : Env) (packet : SocketAddr → Except Error Bytes) (target : SocketAddr) :
    List SocketAddr → Bool
  | [] => false
  | peer :: rest =>
    match packet peer with
    | .error _ => false
    | .ok raw =>
      if peer = target then (env.sendTo peer raw).isOk else reaches env packet target rest

/-- The packets of the next frame. -/
def nextPacket (C : Crypto) (env : Env) (payload : Bytes) (s : Session cfg) (peer : SocketAddr) :
    Except Error Bytes :=
  s.audioPacket C env s.status.sessionId s.traffic.txSequence (be32 s.voice.audioTxSeq ++ payload)
    peer

theorem numbersTo_of_framed {target : SocketAddr} (h : t.traffic.framed = s.traffic.framed) :
    t.numbersTo target = s.numbersTo target := by
  unfold numbersTo
  rw [h]

theorem numbersTo_noteFramed (target peer : SocketAddr) (plain : Bytes) (s : Session cfg) :
    (s.noteFramed peer plain).numbersTo target =
      if peer = target then fromBe32 (plain.take 4) :: s.numbersTo target
      else s.numbersTo target := by
  unfold numbersTo noteFramed
  split_ifs with h
  · simp [h]
  · simp [h]

theorem reaches_eq_false {packet : SocketAddr → Except Error Bytes} {target : SocketAddr}
    {targets : List SocketAddr} (h : target ∉ targets) :
    reaches env packet target targets = false := by
  induction targets with
  | nil => rfl
  | cons peer rest ih =>
    have hne : peer ≠ target := fun he => h (he ▸ List.mem_cons_self)
    unfold reaches
    cases packet peer with
    | error e => rfl
    | ok raw =>
      dsimp only
      rw [if_neg hne]
      exact ih fun hrest => h (List.mem_cons_of_mem _ hrest)

theorem nextPacket_congr {sid seq : UInt32} {plain : Bytes} (h : t.peers = s.peers) :
    (fun peer => t.audioPacket C env sid seq plain peer) =
      fun peer => s.audioPacket C env sid seq plain peer := by
  funext peer
  unfold audioPacket
  rw [h]

/-- `target` was sent the frame with this number if it was `reached`, else nothing. -/
def SentIf (reached : Bool) (target : SocketAddr) (number : UInt32) (s t : Session cfg) : Prop :=
  t.numbersTo target = if reached then number :: s.numbersTo target else s.numbersTo target

/-- A loop over targets notes `target` once, if it gets there. -/
theorem sentIf_sendFrames (C : Crypto) (env : Env) (sid seq : UInt32) (plain : Bytes)
    (parity : Option FecParity) (alone : Bool) (target : SocketAddr) {targets : List SocketAddr}
    (hnodup : targets.Nodup) (halone : alone = true → targets.length ≤ 1) (total : ℕ)
    (s : Session cfg) :
    SentIf (reaches env (fun peer => s.audioPacket C env sid seq plain peer) target targets) target
      (fromBe32 (plain.take 4)) s
      (s.sendFrames C env sid seq plain parity alone targets total).2 := by
  induction targets generalizing total s with
  | nil => rfl
  | cons peer rest ih =>
    obtain ⟨hpeer, hrest⟩ := List.nodup_cons.mp hnodup
    obtain ⟨log, hlog⟩ := noteAudio_eq env sid seq plain peer s
    cases hraw : s.audioPacket C env sid seq plain peer with
    | error e =>
      simp only [sendFrames, reaches, hraw, hlog]
      rfl
    | ok raw =>
      have halone' : alone = true → rest.length ≤ 1 := fun h => by
        have := halone h
        rw [List.length_cons] at this
        omega
      let sent := (transmit env peer raw (s.noteAudio env sid seq plain peer)).2
      have hsent : sent.peers = s.peers ∧ sent.traffic.framed = s.traffic.framed := by
        dsimp only [sent, transmit]
        rw [hlog]
        exact ⟨rfl, rfl⟩
      unfold SentIf at ih ⊢
      cases hsend : env.sendTo peer raw with
      | ok n =>
        let noted := (sent.noteFramed peer plain).followUp C env sid parity peer
        have hfollow := sendsOnly_followUp C env sid parity peer (sent.noteFramed peer plain)
        have hpeers : noted.peers = s.peers := hfollow.peers.trans hsent.1
        have hnoted : noted.numbersTo target = if peer = target then
            fromBe32 (plain.take 4) :: s.numbersTo target else s.numbersTo target := by
          rw [numbersTo_of_framed hfollow.framed, numbersTo_noteFramed,
            numbersTo_of_framed hsent.2]
        rw [sendFrames_cons_ok C env hraw hsend, ih hrest halone' (total + n) noted,
          nextPacket_congr hpeers, hnoted]
        simp only [reaches, hraw, hsend]
        by_cases htarget : peer = target
        · subst htarget
          rw [if_pos rfl, if_pos rfl, reaches_eq_false hpeer]
          rfl
        · rw [if_neg htarget, if_neg htarget]
      | error e =>
        have hskip : s.sendFrames C env sid seq plain parity alone (peer :: rest) total =
            if alone then (.error e, sent)
            else sendFrames C env sid seq plain parity alone rest total
              (sent.followUp C env sid parity peer) := by
          rw [sendFrames, hraw]
          dsimp only [sent, transmit]
          rw [hsend]
        rw [hskip]
        simp only [reaches, hraw, hsend]
        cases alone with
        | true =>
          obtain rfl : rest = [] := List.eq_nil_of_length_eq_zero (Nat.le_zero.mp
            (Nat.le_of_succ_le_succ (halone rfl)))
          rw [if_pos rfl, numbersTo_of_framed hsent.2]
          split
          · rfl
          · rfl
        | false =>
          have hfollow := sendsOnly_followUp C env sid parity peer sent
          rw [if_neg Bool.false_ne_true, ih hrest halone' total,
            nextPacket_congr (hfollow.peers.trans hsent.1),
            numbersTo_of_framed (hfollow.framed.trans hsent.2)]
          by_cases htarget : peer = target
          · subst htarget
            rw [if_pos rfl, reaches_eq_false hpeer]
            rfl
          · rw [if_neg htarget]

/-- `send_audio_to` takes the next number, and `target` gets it if it is reached. -/
theorem sentIf_sendAudioTo (C : Crypto) (env : Env) (payload : Bytes) (target : SocketAddr)
    {targets : List SocketAddr} (hnodup : targets.Nodup) (s : Session cfg) :
    SentIf (reaches env (s.nextPacket C env payload) target targets) target s.voice.audioTxSeq s
      (s.sendAudioTo C env payload targets).2 := by
  let numbered : Session cfg := { s.bumpSequence with voice :=
    ⟨s.voice.audioTxSeq + 1, (s.voice.fecEnc.push s.voice.audioTxSeq payload).2⟩ }
  have hloop := sentIf_sendFrames C env s.status.sessionId s.traffic.txSequence
    (be32 s.voice.audioTxSeq ++ payload) (s.voice.fecEnc.push s.voice.audioTxSeq payload).1
    (targets.length == 1) target hnodup
    (fun h => (beq_iff_eq.mp h).le) 0 numbered
  rw [(plain_frame _ payload).1] at hloop
  have hframed : (s.sendAudioTo C env payload targets).2.traffic.framed =
      (numbered.sendFrames C env s.status.sessionId s.traffic.txSequence
        (be32 s.voice.audioTxSeq ++ payload)
        (s.voice.fecEnc.push s.voice.audioTxSeq payload).1 (targets.length == 1) targets
        0).2.traffic.framed := by
    unfold sendAudioTo
    dsimp only
    split
    · rename_i e t heq
      exact congrArg (fun r => r.2.traffic.framed) heq.symm
    · rename_i total t heq
      exact congrArg (fun r => r.2.traffic.framed) heq.symm
  unfold SentIf
  rw [numbersTo_of_framed hframed]
  exact hloop

/-! ## Frames that are forwarded -/

/-- No frame was numbered, and none sent. -/
structure Mute (s t : Session cfg) : Prop where
  voice : t.voice = s.voice
  framed : t.traffic.framed = s.traffic.framed

namespace Mute

variable {u : Session cfg}

@[refl] theorem refl (s : Session cfg) : Mute s s := ⟨rfl, rfl⟩

@[trans] theorem trans (h : Mute s t) (h' : Mute t u) : Mute s u :=
  ⟨h'.voice.trans h.voice, h'.framed.trans h.framed⟩

theorem after (h : Mute t u) (h' : Mute s t) : Mute s u := h'.trans h

end Mute

theorem Quiet.mute (h : Quiet s t) : Mute s t := ⟨h.voice, h.framed⟩

theorem mute_switchPeer (env : Env) (old new : SocketAddr) (s : Session cfg) :
    Mute s (s.switchPeer env old new) := by
  rcases switchPeer_cases env old new s with h | ⟨book, -, h⟩
  · rw [h]
  · exact h.mute.after ⟨rfl, rfl⟩

theorem mute_antiReplay (view : PacketView) (raw : Bytes) (sender : SocketAddr) (s : Session cfg) :
    Mute s (s.antiReplay view raw sender).2 := by
  rcases antiReplay_cases view raw sender s with ⟨-, h⟩ | ⟨key, -, -, h⟩
  · rw [h]
  · exact h.mute.after ⟨rfl, rfl⟩

/-- The call of `forward_audio` that a plaintext frame leads to: the session it
runs on and the payload. -/
def frameForward (env : Env) (sender : SocketAddr) (timestamp : UInt64) (plain : Bytes)
    (s : Session cfg) : Option (Session cfg × Bytes) :=
  if plain.length < 4 then none
  else if s.settings.multiPeer then
    match s.roomSequence env sender (fromBe32 (plain.take 4)) with
    | (none, _) => none
    | (some seq, s) => some (s.playFrame env seq timestamp (plain.drop 4), plain.drop 4)
  else none

/-- The same for a packet of a known sender. -/
def packetForward (C : Crypto) (env : Env) (view : PacketView) (raw : Bytes) (sender : SocketAddr)
    (s : Session cfg) : Option (Session cfg × Bytes) :=
  match (s.see sender env.now).antiReplay view raw sender with
  | (false, _) => none
  | (true, s) =>
    if MessageType.fromCode view.header.msgType ≠ .ok .audioFrame then none
    else if view.header.flags.contains .encrypted then
      match s.peers.decKeyFor sender with
      | none => none
      | some key =>
        match s.openWith C key view raw with
        | none => none
        | some plain =>
          frameForward env sender view.header.timestamp plain
            (s.noteOpened sender key view raw plain)
    else frameForward env sender view.header.timestamp view.payload s

/-- The same for any packet. -/
def forwardCall (C : Crypto) (env : Env) (view : PacketView) (raw : Bytes) (sender : SocketAddr)
    (s : Session cfg) : Option (Session cfg × Bytes) :=
  if s.peers.book.contains sender then packetForward C env view raw sender s
  else match s.tryMigrate C env view raw sender with
    | (false, _) => none
    | (true, s) => packetForward C env view raw sender s

/-- From `s` to `t` a frame of `sender` was forwarded as `call` says, or nothing. -/
def Forwards (C : Crypto) (env : Env) (sender : SocketAddr) (s t : Session cfg) :
    Option (Session cfg × Bytes) → Prop
  | none => Mute s t
  | some (u, payload) => Mute s u ∧ t = u.forwardAudio C env sender payload

theorem Forwards.after {u : Session cfg} {sender : SocketAddr}
    {call : Option (Session cfg × Bytes)} (h : Forwards C env sender t u call) (h' : Mute s t) :
    Forwards C env sender s u call := by
  cases call with
  | none => exact h'.trans h
  | some c => exact ⟨h'.trans h.1, h.2⟩

theorem forwards_hearFrame (C : Crypto) (env : Env) (sender : SocketAddr) (timestamp : UInt64)
    (plain : Bytes) (s : Session cfg) :
    Forwards C env sender s (s.hearFrame C env sender timestamp plain)
      (frameForward env sender timestamp plain s) := by
  unfold hearFrame frameForward
  dsimp only
  split_ifs
  · exact ⟨rfl, rfl⟩
  · rcases roomSequence_cases env sender (fromBe32 (plain.take 4)) s with h | ⟨offset, -, h⟩
    · rw [h]
      exact ⟨rfl, rfl⟩
    · rw [h]
      exact ⟨⟨rfl, rfl⟩, rfl⟩
  · exact ⟨rfl, rfl⟩

theorem mute_hearParity (sender : SocketAddr) (plain : Bytes) (s : Session cfg) :
    Mute s (s.hearParity sender plain) := by
  rcases hearParity_cases sender plain s with h | ⟨-, base, -, ⟨-, h⟩ | ⟨seq, payload, -, h⟩⟩
  · rw [h]
  · rw [h]
    exact ⟨rfl, rfl⟩
  · rw [h]
    exact ⟨rfl, rfl⟩

theorem mute_onAudioFec (C : Crypto) (view : PacketView) (raw : Bytes) (sender : SocketAddr)
    (s : Session cfg) : Mute s (s.onAudioFec C view raw sender) := by
  unfold onAudioFec
  split_ifs
  · split
    · rfl
    · split
      · exact ⟨rfl, rfl⟩
      · exact (mute_hearParity sender _ _).after ⟨rfl, rfl⟩
  · rfl

/-- Only an audio frame is forwarded. -/
theorem mute_handlePacket (C : Crypto) (env : Env) {view : PacketView} (raw : Bytes)
    (sender : SocketAddr) (s : Session cfg)
    (htype : MessageType.fromCode view.header.msgType ≠ .ok .audioFrame) :
    Mute s (s.handlePacket C env view raw sender).2 := by
  have hsend (msg : MessageType) (sid : UInt32) (payload : Bytes) :
      Mute s (s.sendControl env msg sid payload sender).2 :=
    (sendsOnly_sendControl env msg sid payload sender s).quiet.mute
  unfold handlePacket
  split
  · exact ⟨rfl, rfl⟩
  · exact absurd ‹_› htype
  · exact mute_onAudioFec C view raw sender s
  · exact hsend _ _ _
  · exact ⟨rfl, rfl⟩
  · exact ⟨rfl, rfl⟩
  · exact ⟨rfl, rfl⟩
  · split_ifs
    · rfl
    · exact hsend _ _ _
  · exact ⟨rfl, rfl⟩
  · exact ⟨rfl, rfl⟩
  · split
    · exact ⟨rfl, rfl⟩
    · rfl
  · split_ifs
    · exact ⟨rfl, rfl⟩
    · exact ⟨rfl, rfl⟩
  · rfl

theorem forwards_acceptPacket (C : Crypto) (env : Env) (view : PacketView) (raw : Bytes)
    (sender : SocketAddr) (s : Session cfg) :
    Forwards C env sender s (s.acceptPacket C env view raw sender).2
      (packetForward C env view raw sender s) := by
  have hcheck : Mute s ((s.see sender env.now).antiReplay view raw sender).2 :=
    (mute_antiReplay view raw sender _).after ⟨rfl, rfl⟩
  unfold acceptPacket packetForward
  rcases hr : (s.see sender env.now).antiReplay view raw sender with ⟨_ | _, t⟩
  · rw [hr] at hcheck
    exact hcheck
  · rw [hr] at hcheck
    refine Forwards.after ?_ hcheck
    dsimp only
    split_ifs with htype hflag
    · exact mute_handlePacket C env raw sender t htype
    · rw [not_not] at htype
      simp only [handlePacket, htype, onAudioFrame, hflag, if_true]
      cases t.peers.decKeyFor sender with
      | none => exact ⟨rfl, rfl⟩
      | some key =>
        dsimp only
        cases t.openWith C key view raw with
        | none => exact ⟨rfl, rfl⟩
        | some plain => exact (forwards_hearFrame C env sender _ _ _).after ⟨rfl, rfl⟩
    · rw [not_not] at htype
      simp only [handlePacket, htype, onAudioFrame, hflag, if_false, Bool.false_eq_true]
      exact forwards_hearFrame C env sender _ _ _

theorem mute_tryMigrate (C : Crypto) (env : Env) (view : PacketView) (raw : Bytes)
    (sender : SocketAddr) (s : Session cfg) :
    Mute s (s.tryMigrate C env view raw sender).2 := by
  unfold tryMigrate
  split_ifs
  · rfl
  · split
    · rfl
    · split
      · rfl
      · dsimp only
        split_ifs
        · exact (mute_switchPeer env _ _ _).after ⟨rfl, rfl⟩
        · exact ⟨rfl, rfl⟩

theorem forwards_dispatchPacket (C : Crypto) (env : Env) (view : PacketView) (raw : Bytes)
    (sender : SocketAddr) (s : Session cfg) :
    Forwards C env sender s (s.dispatchPacket C env view raw sender).2
      (forwardCall C env view raw sender s) := by
  have hmigrate := mute_tryMigrate C env view raw sender s
  unfold dispatchPacket forwardCall
  split_ifs
  · exact forwards_acceptPacket C env view raw sender s
  · rcases hr : s.tryMigrate C env view raw sender with ⟨_ | _, t⟩
    · rw [hr] at hmigrate
      exact hmigrate
    · rw [hr] at hmigrate
      exact (forwards_acceptPacket C env view raw sender t).after hmigrate

/-- A frame that is numbered: who spoke it, if not the session itself, and whom it is for. -/
structure Utterance where
  speaker : Option SocketAddr
  payload : Bytes
  targets : List SocketAddr
  deriving DecidableEq

/-- From `s` to `t` nothing was numbered, or `call` was: the session it runs on and what
is said. -/
def Utters (C : Crypto) (env : Env) (call : Option (Session cfg × Utterance))
    (s t : Session cfg) : Prop :=
  Mute s t ∨ ∃ u said, call = some (u, said) ∧ Mute s u ∧
    t = (u.sendAudioTo C env said.payload said.targets).2

theorem Mute.utters {call : Option (Session cfg × Utterance)} (h : Mute s t) :
    Utters C env call s t := .inl h

theorem Utters.after {call : Option (Session cfg × Utterance)} {u : Session cfg}
    (h : Utters C env call t u) (h' : Mute s t) : Utters C env call s u := by
  rcases h with h | ⟨v, said, hcall, hmute, hv⟩
  · exact .inl (h'.trans h)
  · exact .inr ⟨v, said, hcall, h'.trans hmute, hv⟩

/-- What `forward_audio` says when a packet has it called. -/
def forwardedCall (C : Crypto) (env : Env) (view : PacketView) (raw : Bytes) (sender : SocketAddr)
    (s : Session cfg) : Option (Session cfg × Utterance) :=
  (forwardCall C env view raw sender s).bind fun c =>
    let others := c.1.peers.book.others sender
    if c.1.status.pttActive ∨ others = [] then none else some (c.1, ⟨some sender, c.2, others⟩)

theorem utters_dispatchPacket (C : Crypto) (env : Env) (view : PacketView) (raw : Bytes)
    (sender : SocketAddr) (s : Session cfg) :
    Utters C env (forwardedCall C env view raw sender s) s
      (s.dispatchPacket C env view raw sender).2 := by
  have hcall := forwards_dispatchPacket C env view raw sender s
  unfold forwardedCall
  cases hc : forwardCall C env view raw sender s with
  | none =>
    rw [hc] at hcall
    exact hcall.utters
  | some call =>
    obtain ⟨u, payload⟩ := call
    rw [hc] at hcall
    obtain ⟨hmute, hforward⟩ := hcall
    rw [hforward]
    refine Utters.after ?_ hmute
    by_cases hquiet : u.status.pttActive = true ∨ u.peers.book.others sender = []
    · have hsame : u.forwardAudio C env sender payload = u := by
        unfold forwardAudio
        split_ifs with hptt hothers
        · rfl
        · rfl
        · exact absurd hquiet (by simp [hptt, hothers])
      rw [hsame]
      exact (Mute.refl u).utters
    · refine .inr ⟨u, ⟨some sender, payload, u.peers.book.others sender⟩, if_neg hquiet, .refl u, ?_⟩
      rw [not_or] at hquiet
      unfold forwardAudio
      rw [if_neg hquiet.1, if_neg hquiet.2]

/-! ## Steps that number a frame -/

variable {target : SocketAddr}

/-- From `s` to `t` no frame was numbered, or one that `target` was sent. -/
def Numbers (target : SocketAddr) (s t : Session cfg) : Prop :=
  (t.voice.audioTxSeq = s.voice.audioTxSeq ∧ t.numbersTo target = s.numbersTo target) ∨
    (t.voice.audioTxSeq = s.voice.audioTxSeq + 1 ∧
      t.numbersTo target = s.voice.audioTxSeq :: s.numbersTo target)

theorem Mute.numbers (h : Mute s t) : Numbers target s t :=
  .inl ⟨by rw [h.voice], numbersTo_of_framed h.framed⟩

theorem Numbers.after {u : Session cfg} (h : Numbers target t u) (h' : Mute s t) :
    Numbers target s u := by
  unfold Numbers at h ⊢
  rwa [h'.voice, numbersTo_of_framed h'.framed] at h

theorem numbers_sendAudioTo {payload : Bytes} {targets : List SocketAddr}
    (hnodup : targets.Nodup)
    (hreach : reaches env (s.nextPacket C env payload) target targets = true) :
    Numbers target s (s.sendAudioTo C env payload targets).2 := by
  have hsent := sentIf_sendAudioTo C env payload target hnodup s
  rw [SentIf, hreach, if_pos rfl] at hsent
  refine .inr ⟨?_, hsent⟩
  rw [(sendAudioTo_voice C env payload targets s).1]

/-- The frame that the packet has forwarded, if any, is not one of `target`, and
gets to it. -/
def ForwardsTo (C : Crypto) (env : Env) (target : SocketAddr) (view : PacketView) (raw : Bytes)
    (sender : SocketAddr) (s : Session cfg) : Prop :=
  ∀ call ∈ forwardCall C env view raw sender s, call.1.status.pttActive = false →
    call.1.peers.book.others sender ≠ [] → sender ≠ target ∧
      reaches env (call.1.nextPacket C env call.2) target (call.1.peers.book.others sender) = true

instance (view : PacketView) (raw : Bytes) (sender : SocketAddr) (s : Session cfg) :
    Decidable (ForwardsTo C env target view raw sender s) :=
  inferInstanceAs (Decidable (∀ call ∈ forwardCall C env view raw sender s, _))

end Session

namespace Machine

open Session Run

variable {cfg : Config} {C : Crypto} {env : Env} {i : Arrival} {s₀ s t : Session cfg}
  {target : SocketAddr}

/-! ## Runs -/

/-- If the step numbers a frame, `target` is sent it: the frame is not its own,
every packet up to that of `target` can be made, and the transport takes that one. -/
def SpokenTo (C : Crypto) (env : Env) (target : SocketAddr) (m : Machine C cfg) : Action → Prop
  | .sendAudio payload => m.session.status.state = .active →
    reaches env (m.session.nextPacket C env payload) target m.session.peers.book.all = true
  | .recv sender raw | .poll sender raw => m.task = .idle →
    ∀ view ∈ (PacketView.decode raw).toOption, ForwardsTo C env target view raw sender
      ((m.session.recordReceived raw.length).heard env)
  | _ => True

instance (task : Task C) : Decidable (task = .idle) :=
  match task with
  | .idle => isTrue rfl
  | .waitFirst .. | .legacyKe .. | .noiseKe .. | .helloSent .. | .noiseSent .. | .confirm .. =>
    isFalse nofun

instance (m : Machine C cfg) (a : Action) : Decidable (SpokenTo C env target m a) :=
  match a with
  | .sendAudio _ => inferInstanceAs (Decidable (_ → _ = true))
  | .recv _ raw | .poll _ raw =>
    inferInstanceAs (Decidable (_ → ∀ view ∈ (PacketView.decode raw).toOption, _))
  | .handshake .. | .handshakeOpen | .acceptAdditionalPeer | .input _ | .cancel | .turn
  | .pollTimeout | .pttPress | .pttRelease | .close | .reopen | .setPresetSessionId _
  | .setRoomToken _ | .setHandshakeMode _ | .setRendezvous _ | .setMultiPeer _ | .setRelayOnly _
  | .setOwnPublic _ | .addPathHints _ => isTrue trivial

/-- Effects without a frame number nothing. -/
theorem rules_mute (C : Crypto) (env : Env) (s₀ : Session cfg)
    (hi : ∀ sender raw, i ≠ .loop sender raw) :
    Rules C env i s₀ (fun s => Mute s₀ s) (fun _ _ => True) (fun _ => True) (fun _ => True)
      True where
  rx h hrx := by
    induction hrx with
    | refl => exact h
    | tail _ he ih =>
      refine ih.trans ?_
      cases he with
      | quiet hq => exact hq.mute
      | see hl => exact absurd hl (hi _ _)
      | drop gone => exact ⟨rfl, rfl⟩
      | buffer jitter gap => exact ⟨rfl, rfl⟩
      | note hl => exact absurd hl (hi _ _)
      | migrate hl => exact absurd hl (hi _ _)
      | probe => exact mute_switchPeer env _ _ _
      | check hl => exact absurd hl (hi _ _)
      | hear hl => exact absurd hl (hi _ _)
      | parity hl => exact absurd hl (hi _ _)
  calm h hc := h.trans ⟨hc.voice, hc.framed⟩
  insert a h := h.trans ⟨rfl, rfl⟩
  remove a h := h.trans ⟨rfl, rfl⟩
  clearBook h := h.trans ⟨rfl, rfl⟩
  joins pending h _ := h.trans ⟨rfl, rfl⟩
  pending _ _ := trivial
  install peer h _ := h.trans ⟨rfl, rfl⟩
  close h := h.trans ⟨by rw [close_eq], close_framed env _⟩
  noiseServer _ _ := trivial
  legacyServer _ _ _ := trivial
  legacyClient _ _ _ := trivial
  noiseBegin _ _ := trivial
  noiseRead _ _ := trivial
  noiseClient _ _ _ := trivial
  legacyMode _ _ := trivial
  autoMode _ _ _ := trivial

/-- The frame that a call or a datagram has numbered. -/
def call (C : Crypto) (env : Env) (m : Machine C cfg) : Action → Option (Session cfg × Utterance)
  | .sendAudio payload =>
    if m.session.status.state = .active ∧ m.session.peers.book.all ≠ [] then
      some (m.session, ⟨none, payload, m.session.peers.book.all⟩)
    else none
  | .recv sender raw | .poll sender raw =>
    if m.task = .idle then
      (PacketView.decode raw).toOption.bind fun view =>
        forwardedCall C env view raw sender ((m.session.recordReceived raw.length).heard env)
    else none
  | _ => none

/-- A handshake that follows a datagram numbers no frame. -/
theorem utters_afterDatagram {sender : SocketAddr} {r : Followup × Session cfg}
    {said : Option (Session cfg × Utterance)} (h : Utters C env said s r.2)
    (hpromote : ∀ first, r.1 = .promote first → Mute s r.2) :
    Utters C env said s (afterDatagram C env sender r).session := by
  have R := rules_mute (i := .none) C env s nofun
  cases hr : r.1 with
  | done result =>
    rw [afterDatagram, hr]
    exact h
  | promote first =>
    exact (R.afterDatagram (hpromote first hr) fun _ _ => trivial).1.utters

theorem utters_recvDatagram (C : Crypto) (env : Env) (raw : Bytes) (sender : SocketAddr)
    (s : Session cfg) :
    let r := s.recvDatagram C env raw sender
    Utters C env ((PacketView.decode raw).toOption.bind fun view =>
        forwardedCall C env view raw sender ((s.recordReceived raw.length).heard env)) s r.2 ∧
      ∀ first, r.1 = .promote first → Mute s r.2 := by
  have hheard : Mute s ((s.recordReceived raw.length).heard env) := ⟨rfl, rfl⟩
  have R := rules_mute (i := .handshake sender raw) C env s nofun
  have hdone {said : Option (Session cfg × Utterance)} {result : Except TransportError Unit}
      {t : Session cfg} (h : Mute s t) :
      Utters C env said s t ∧ ∀ first, Followup.done result = .promote first → Mute s t :=
    ⟨h.utters, nofun⟩
  unfold recvDatagram
  dsimp only
  split
  · exact hdone (R.rx (s := s.recordReceived raw.length) ⟨rfl, rfl⟩
      (rx_onRendezvous rfl (sendsOnly_recordReceived s _)))
  · split
    · exact hdone ⟨rfl, rfl⟩
    · rename_i view hview
      split
      · exact hdone (R.beginJoin hheard _ _)
      · exact ⟨hheard.utters, fun _ _ => hheard⟩
      · have hfinish := R.finishJoin hheard view sender
        split
        · rename_i t ht
          rw [ht] at hfinish
          exact hdone hfinish
        · rename_i t ht
          rw [eq_of_finishJoin_false ht, hview]
          exact ⟨(utters_dispatchPacket C env view raw sender _).after hheard, nofun⟩

theorem utters_pollDatagram (C : Crypto) (env : Env) (raw : Bytes) (sender : SocketAddr)
    (s : Session cfg) :
    let r := s.pollDatagram C env raw sender
    Utters C env ((PacketView.decode raw).toOption.bind fun view =>
        forwardedCall C env view raw sender ((s.recordReceived raw.length).heard env)) s r.2 ∧
      ∀ first, r.1 = .promote first → Mute s r.2 := by
  have hheard : Mute s ((s.recordReceived raw.length).heard env) := ⟨rfl, rfl⟩
  unfold pollDatagram
  dsimp only
  split
  · exact ⟨Mute.utters ⟨rfl, rfl⟩, nofun⟩
  · rename_i view hview
    split
    · exact ⟨hheard.utters, fun _ _ => hheard⟩
    · rw [hview]
      exact ⟨(utters_dispatchPacket C env view raw sender _).after hheard, nofun⟩

/-- What one step numbers, if it does not start the numbering again. -/
theorem utters_step (C : Crypto) (env : Env) (m : Machine C cfg) {a : Action}
    (hreopen : a ≠ .reopen) :
    Utters C env (call C env m a) m.session (step C env m a).session := by
  have hother (hi : ∀ sender raw, m.arrival a ≠ .loop sender raw) (hsay : ∀ p, a ≠ .sendAudio p) :
      Utters C env (call C env m a) m.session (step C env m a).session := by
    cases ha : a.sets with
    | true =>
      obtain ⟨settings, hs⟩ := step_sets C env m ha
      rw [hs]
      exact Mute.utters ⟨rfl, rfl⟩
    | false =>
      have R := rules_mute (i := m.arrival a) C env m.session hi
      exact (R.step_free (fun p hp => absurd hp (hsay p)) (fun h => absurd h hreopen)
        (.refl _) ha).utters
  have hidle {f : Session cfg → Machine C cfg} (htask : m.task = .idle) :
      whenIdle C m f = f m.session := by
    rw [whenIdle, htask]
  cases a with
  | sendAudio payload =>
    change Utters C env _ m.session (m.session.sendAudio C env payload).2
    unfold Session.sendAudio
    split_ifs with hstate hempty
    · exact (Mute.refl _).utters
    · exact (Mute.refl _).utters
    · rw [ne_eq, not_not] at hstate
      exact .inr ⟨_, _, if_pos ⟨hstate, hempty⟩, .refl _, rfl⟩
  | recv sender raw =>
    cases htask : m.task with
    | idle =>
      obtain ⟨hutters, hpromote⟩ := utters_recvDatagram C env raw sender m.session
      rw [step, hidle htask, call, if_pos htask]
      exact utters_afterDatagram hutters hpromote
    | _ => exact hother (by simp [arrival, htask]) (by simp)
  | poll sender raw =>
    cases htask : m.task with
    | idle =>
      obtain ⟨hutters, hpromote⟩ := utters_pollDatagram C env raw sender m.session
      rw [step, hidle htask, call, if_pos htask]
      exact utters_afterDatagram hutters hpromote
    | _ => exact hother (by simp [arrival, htask]) (by simp)
  | input i => cases i <;> exact hother (by simp [arrival]) (by simp)
  | _ => exact hother (by simp [arrival]) (by simp)

/-- What is said gets to `target`. -/
theorem reaches_of_spokenTo {m : Machine C cfg} {a : Action} {said : Utterance}
    (hspoken : SpokenTo C env target m a) (hcall : call C env m a = some (s, said)) :
    said.targets.Nodup ∧
      reaches env (s.nextPacket C env said.payload) target said.targets = true := by
  have hdatagram {sender : SocketAddr} {raw : Bytes}
      (hforwards : m.task = .idle → ∀ view ∈ (PacketView.decode raw).toOption, ForwardsTo C env
        target view raw sender ((m.session.recordReceived raw.length).heard env))
      (hc : (if m.task = .idle then (PacketView.decode raw).toOption.bind fun view =>
        forwardedCall C env view raw sender ((m.session.recordReceived raw.length).heard env)
        else none) = some (s, said)) : said.targets.Nodup ∧
      reaches env (s.nextPacket C env said.payload) target said.targets = true := by
    split_ifs at hc with htask
    obtain ⟨view, hview, hc⟩ := Option.bind_eq_some_iff.mp hc
    obtain ⟨c, hforward, hc⟩ := Option.bind_eq_some_iff.mp hc
    dsimp only at hc
    split_ifs at hc with hquiet
    cases hc
    rw [not_or] at hquiet
    refine ⟨c.1.peers.book.nodup.filter _, ?_⟩
    exact (hforwards htask view hview c hforward (by simpa using hquiet.1) hquiet.2).2
  cases a with
  | sendAudio payload =>
    change (if _ then some _ else none) = some (s, said) at hcall
    split_ifs at hcall with hstate
    cases hcall
    exact ⟨m.session.peers.book.nodup, hspoken hstate.1⟩
  | recv sender raw => exact hdatagram hspoken hcall
  | poll sender raw => exact hdatagram hspoken hcall
  | _ => cases hcall

/-- One step, while `target` is in the book. -/
theorem numbers_step (C : Crypto) (env : Env) (m : Machine C cfg) (a : Action)
    (hspoken : SpokenTo C env target m a)
    (hbook : target ∈ (step C env m a).session.peers.book.peers) :
    Numbers target m.session (step C env m a).session := by
  by_cases hreopen : a = .reopen
  · subst hreopen
    change target ∈ m.session.reopen.2.peers.book.peers at hbook
    rcases reopen_cases m.session with h | ⟨hpeers, -, -⟩
    · change Numbers target m.session m.session.reopen.2
      rw [h]
      exact (Mute.refl _).numbers
    · rw [hpeers] at hbook
      cases hbook
  · rcases utters_step C env m hreopen with hmute | ⟨s, said, hcall, hmute, hsession⟩
    · exact hmute.numbers
    · obtain ⟨hnodup, hreach⟩ := reaches_of_spokenTo hspoken hcall
      rw [hsession]
      exact (numbers_sendAudioTo hnodup hreach).after hmute

/-- The numbers that `target` got since `s` follow each other, and the next frame
continues them. -/
structure Gapless (target : SocketAddr) (s t : Session cfg) (new : List UInt32) : Prop where
  numbers : t.numbersTo target = new ++ s.numbersTo target
  chain : new.IsChain fun later earlier => later = earlier + 1
  next : ∀ n ∈ new.head?, t.voice.audioTxSeq = n + 1

theorem Gapless.step {u : Session cfg} {new : List UInt32} (h : Gapless target s t new)
    (hn : Numbers target t u) : ∃ new, Gapless target s u new := by
  rcases hn with ⟨hseq, hnum⟩ | ⟨hseq, hnum⟩
  · refine ⟨new, hnum.trans h.numbers, h.chain, ?_⟩
    rw [hseq]
    exact h.next
  · refine ⟨t.voice.audioTxSeq :: new, ?_, List.isChain_cons.mpr ⟨h.next, h.chain⟩, ?_⟩
    · rw [hnum, h.numbers]
      rfl
    · rintro n hn
      obtain rfl := Option.some.inj hn
      exact hseq

/-- As long as `target` is in the book and every step that numbers a frame sends
it to `target`, the numbers that `target` gets are consecutive. -/
theorem numbers_consecutive (C : Crypto) (target : SocketAddr) (m : Machine C cfg)
    (steps : List (Env × Action))
    (hrun : Along (fun m x => step C x.1 m x.2) (fun m x => SpokenTo C x.1 target m x.2 ∧
      target ∈ (step C x.1 m x.2).session.peers.book.peers) m steps) :
    ∃ new, (run C m steps).session.numbersTo target = new ++ m.session.numbersTo target ∧
      new.IsChain fun later earlier => later = earlier + 1 := by
  have hstart : ∃ new, Gapless target m.session m.session new := ⟨[], rfl, .nil, nofun⟩
  have hstep (m' : Machine C cfg) (x : Env × Action)
      (h : ∃ new, Gapless target m.session m'.session new)
      (hx : SpokenTo C x.1 target m' x.2 ∧
        target ∈ (step C x.1 m' x.2).session.peers.book.peers) :
      ∃ new, Gapless target m.session (step C x.1 m' x.2).session new := by
    obtain ⟨new, h⟩ := h
    exact h.step (numbers_step C x.1 m' x.2 hx.1 hx.2)
  obtain ⟨new, hnew⟩ := hrun.invariant hstep hstart
  exact ⟨new, hnew.numbers, hnew.chain⟩

open RoomExample in
/-- The host speaks, then a guest, then the host; the other guest gets all three. -/
theorem numbers_consecutive_other :
    let now := Pairing.at' 1
    let m := run Crypto.toy (rest Crypto.toy (initial Config.default (Vector.replicate 8 0)))
      (join ++ joinOther)
    let talk := [(now, .sendAudio [1]), (now, frame Pairing.guest 2 0), (now, .sendAudio [2])]
    (run Crypto.toy m talk).session.numbersTo other = [2, 1, 0] ∧
      ∃ new, (run Crypto.toy m talk).session.numbersTo other = new ++ m.session.numbersTo other ∧
        new.IsChain fun later earlier => later = earlier + 1 := by
  intro now m talk
  exact ⟨by decide +kernel, numbers_consecutive Crypto.toy other m talk (by decide +kernel)⟩

open RoomExample in
/-- In the same run the guest that spoke misses the number of its own frame. -/
theorem numbers_hole :
    let now := Pairing.at' 1
    let guest := Pairing.guest
    let m := run Crypto.toy (rest Crypto.toy (initial Config.default (Vector.replicate 8 0)))
      (join ++ joinOther)
    let talk := [(now, .sendAudio [1]), (now, frame guest 2 0), (now, .sendAudio [2])]
    Session.new Config.default (Vector.replicate 8 0) =
        some (initial Config.default (Vector.replicate 8 0)) ∧
      guest ∈ m.session.peers.book.peers ∧
      Along (fun m x => step Crypto.toy x.1 m x.2)
        (fun m x => guest ∈ (step Crypto.toy x.1 m x.2).session.peers.book.peers) m talk ∧
      m.session.numbersTo guest = [] ∧
      (run Crypto.toy m talk).session.numbersTo guest = [2, 0] ∧
      ¬ [(2 : UInt32), 0].IsChain fun later earlier => later = earlier + 1 :=
  ⟨new_default _, by decide +kernel⟩

end Machine
end GravitalTalk
