import GravitalTalk.Session.Agreement

/-!
# Who is sent handshake messages

The six messages of the two handshakes leave a session in a few places only. Whatever else it
sends while it probes, relays, talks or signals is none of them.
-/
namespace GravitalTalk

/-- The messages of the two handshakes. -/
def MessageType.isGreeting : MessageType → Bool
  | handshakeClientHello | handshakeServerHello | handshakeSessionConfirm | handshakeKeyExchange
  | handshakeNoiseHello1 | handshakeNoiseHello2 => true
  | _ => false

theorem MessageType.code_injOn_named : ∀ a ∈ named, ∀ b ∈ named, a.code = b.code → a = b := by
  decide

theorem MessageType.mem_named {msg : MessageType} (h : msg.isGreeting = true) : msg ∈ named := by
  cases msg <;> first | decide | cases h

/-- `raw` is a packet of this type with this payload. -/
def Bears (raw : Bytes) (msg : MessageType) (payload : Bytes) : Prop :=
  ∃ view, PacketView.decode raw = .ok view ∧ view.header.msgType = msg.code ∧
    view.payload = payload

/-- No message of a handshake. -/
def IsChat (raw : Bytes) : Prop := ∀ msg payload, msg.isGreeting = true → ¬ Bears raw msg payload

theorem Bears.unique {raw payload payload' : Bytes} {msg msg' : MessageType}
    (h : Bears raw msg payload) (h' : Bears raw msg' payload') (hmsg : msg.isGreeting = true)
    (hmsg' : msg'.isGreeting = true) : msg = msg' ∧ payload = payload' := by
  obtain ⟨view, hview, hcode, rfl⟩ := h
  obtain ⟨view', hview', hcode', rfl⟩ := h'
  rw [hview] at hview'
  cases hview'
  exact ⟨MessageType.code_injOn_named _ (MessageType.mem_named hmsg) _
    (MessageType.mem_named hmsg') (hcode.symm.trans hcode'), rfl⟩

/-- What a builder wrote bears its own type and payload. -/
theorem bears_of_encode {header : PacketHeader} {payload raw : Bytes} {capacity : ℕ}
    {msg : MessageType} (h : PacketBuilder.encode header payload capacity = .ok raw)
    (hversion : header.version = protocolVersion) (hmsg : header.msgType = msg.code) :
    Bears raw msg payload := by
  obtain ⟨rfl, hlength⟩ := PacketBuilder.encode_eq_ok h
  exact ⟨_, PacketBuilder.decode_bytes hversion hlength, hmsg, rfl⟩

theorem isChat_of_encode {header : PacketHeader} {payload raw : Bytes} {capacity : ℕ}
    (h : PacketBuilder.encode header payload capacity = .ok raw)
    (hversion : header.version = protocolVersion)
    (hmsg : ∀ msg : MessageType, msg.isGreeting = true → header.msgType ≠ msg.code) :
    IsChat raw := by
  obtain ⟨rfl, hlength⟩ := PacketBuilder.encode_eq_ok h
  rintro msg body hgreeting ⟨view, hview, hcode, -⟩
  rw [PacketBuilder.decode_bytes hversion hlength] at hview
  cases hview
  exact hmsg msg hgreeting hcode

/-- A type that is named in the source and is none of the six. -/
def MessageType.IsOrdinary (kind : MessageType) : Prop :=
  kind ∈ MessageType.named ∧ kind.isGreeting = false

instance (kind : MessageType) : Decidable kind.IsOrdinary :=
  inferInstanceAs (Decidable (_ ∧ _))

theorem MessageType.IsOrdinary.code_ne {kind : MessageType} (h : kind.IsOrdinary)
    (msg : MessageType) (hmsg : msg.isGreeting = true) : kind.code ≠ msg.code := by
  obtain ⟨hnamed, hkind⟩ := h
  intro hcode
  rw [code_injOn_named kind hnamed msg (mem_named hmsg) hcode, hmsg] at hkind
  cases hkind

/-- A message of a room is no packet at all. -/
theorem isChat_rendezvous (msg : Rendezvous.Message) (key : Rendezvous.RoomKey) :
    IsChat (msg.encode key) := by
  rintro kind payload - ⟨view, hview, -, -⟩
  have hmagic : (msg.encode key).getD 1 0 ≠ magicBytes.2 := by
    simp [Rendezvous.Message.encode, Rendezvous.Message.head, Rendezvous.magic, magicBytes]
  have hheader : ∀ header, PacketHeader.decode (msg.encode key) ≠ .ok header := by
    intro header hheader
    unfold PacketHeader.decode at hheader
    rw [if_pos (Or.inr hmagic)] at hheader
    split_ifs at hheader
  unfold PacketView.decode at hview
  split_ifs at hview
  cases hdecode : PacketHeader.decode (msg.encode key) with
  | error e =>
    rw [hdecode] at hview
    cases hview
  | ok header => exact hheader header hdecode

namespace Session

variable {cfg : Config} {C : Crypto} {env : Env} {s t u : Session cfg}
  {Q : SocketAddr → MessageType → Bytes → Prop}

/-- Every handshake message that the transport took between `s` and `t` is as `Q` says. -/
def Greets (env : Env) (Q : SocketAddr → MessageType → Bytes → Prop) (s t : Session cfg) : Prop :=
  ∃ new, t.traffic.sent = new ++ s.traffic.sent ∧ ∀ x ∈ new, (env.sendTo x.1 x.2).isOk = true →
    ∀ msg payload, msg.isGreeting = true → Bears x.2 msg payload → Q x.1 msg payload

namespace Greets

theorem of_eq (h : t.traffic.sent = s.traffic.sent) : Greets env Q s t := ⟨[], h, nofun⟩

@[refl] theorem refl (s : Session cfg) : Greets env Q s s := of_eq rfl

theorem trans (h : Greets env Q s t) (h' : Greets env Q t u) : Greets env Q s u := by
  obtain ⟨new, hnew, hQ⟩ := h
  obtain ⟨new', hnew', hQ'⟩ := h'
  refine ⟨new' ++ new, by rw [hnew', hnew, List.append_assoc], ?_⟩
  intro x hx
  rcases List.mem_append.mp hx with hx | hx
  · exact hQ' x hx
  · exact hQ x hx

theorem after (h : Greets env Q t u) (hs : t.traffic.sent = s.traffic.sent) : Greets env Q s u :=
  (of_eq hs).trans h

theorem before (h : Greets env Q s t) (hu : u.traffic.sent = t.traffic.sent) : Greets env Q s u :=
  h.trans (of_eq hu)

theorem mono {Q' : SocketAddr → MessageType → Bytes → Prop} (h : Greets env Q s t)
    (hQ : ∀ dest msg payload, Q dest msg payload → Q' dest msg payload) : Greets env Q' s t := by
  obtain ⟨new, hnew, hnewQ⟩ := h
  exact ⟨new, hnew, fun x hx hok msg payload hmsg hbears =>
    hQ _ _ _ (hnewQ x hx hok msg payload hmsg hbears)⟩

theorem foldl {β : Type*} {f : Session cfg → β → Session cfg}
    (hf : ∀ s b, Greets env Q s (f s b)) (l : List β) (s : Session cfg) :
    Greets env Q s (l.foldl f s) := by
  induction l generalizing s with
  | nil => rfl
  | cons b l ih => exact (hf s b).trans (ih _)

/-- A datagram that is chat may go to anybody. -/
theorem transmit {raw : Bytes} (h : IsChat raw) (dest : SocketAddr) (s : Session cfg) :
    Greets env Q s (s.transmit env dest raw).2 := by
  refine ⟨[(dest, raw)], rfl, ?_⟩
  rintro x hx - msg payload hmsg hbears
  rw [List.mem_singleton.mp hx] at hbears
  exact absurd hbears (h msg payload hmsg)

end Greets

/-! ## Control packets -/

/-- A control packet is what it says it is, and nothing if the transport refuses it. -/
theorem greets_sendControl (kind : MessageType) (sid : UInt32) (body : Bytes) (dest : SocketAddr)
    (s : Session cfg) (hQ : (s.sendControl env kind sid body dest).1 = .ok () →
      kind.isGreeting = true → Q dest kind body)
    (hkind : kind.isGreeting = true ∨ kind.IsOrdinary) :
    Greets env Q s (s.sendControl env kind sid body dest).2 := by
  unfold sendControl Session.transmit at hQ ⊢
  dsimp only at hQ ⊢
  split
  · exact .of_eq rfl
  · rename_i raw hraw
    rw [hraw] at hQ
    dsimp only at hQ
    have hsent (u : Session cfg) (hu : u.traffic.sent = (dest, raw) :: s.traffic.sent) :
        Greets env Q s u := by
      refine ⟨[(dest, raw)], hu, ?_⟩
      intro x hx hok msg payload hmsg hbears
      rw [List.mem_singleton.mp hx] at hok hbears ⊢
      by_cases hgreeting : kind.isGreeting = true
      · have hown : Bears raw kind body := bears_of_encode hraw rfl rfl
        obtain ⟨rfl, rfl⟩ := hown.unique hbears hgreeting hmsg
        cases hout : env.sendTo dest raw with
        | error e =>
          rw [hout] at hok
          cases hok
        | ok n =>
          rw [hout] at hQ
          exact hQ rfl hmsg
      · have hchat : IsChat raw :=
          isChat_of_encode hraw rfl (hkind.resolve_left hgreeting).code_ne
        exact absurd hbears (hchat msg payload hmsg)
    cases env.sendTo dest raw with
    | error e => exact hsent _ rfl
    | ok n => exact hsent _ rfl

/-- A control packet that is none of the six. -/
theorem greets_control {kind : MessageType} (hkind : kind.IsOrdinary) (sid : UInt32)
    (body : Bytes) (dest : SocketAddr) (s : Session cfg) :
    Greets env Q s (s.sendControl env kind sid body dest).2 := by
  apply greets_sendControl kind sid body dest s _ (.inr hkind)
  intro _ hgreeting
  rw [hkind.2] at hgreeting
  cases hgreeting

/-! ## Probes, keepalives and audio -/

theorem greets_sendRv (msg : Rendezvous.Message) (dest : SocketAddr) (s : Session cfg) :
    Greets env Q s (s.sendRv C env msg dest) := .transmit (isChat_rendezvous msg _) dest s

theorem greets_sendRvAll (msg : Rendezvous.Message) (dests : List SocketAddr) (s : Session cfg) :
    Greets env Q s (s.sendRvAll C env msg dests) :=
  Greets.foldl (fun s dest => greets_sendRv msg dest s) dests s

theorem greets_punchNeighbours (around : SocketAddr) (nonce : Vector UInt8 8) (s : Session cfg) :
    Greets env Q s (s.punchNeighbours C env around nonce) := greets_sendRvAll _ _ s

theorem isChat_sealed {kind : MessageType} (hkind : kind.IsOrdinary) {sid seq : UInt32}
    {flags : Flags} {body raw : Bytes} {capacity : ℕ}
    (h : PacketBuilder.encode { sealedHeader env kind sid seq with flags := flags } body capacity =
      .ok raw) : IsChat raw := isChat_of_encode h rfl hkind.code_ne

theorem greets_sendKeepaliveTo (sid : UInt32) (dest : SocketAddr) (s : Session cfg) :
    Greets env Q s (s.sendKeepaliveTo C env sid dest) := by
  unfold sendKeepaliveTo
  dsimp only
  split
  · exact .of_eq rfl
  · rename_i key _
    split
    · exact .of_eq rfl
    · rename_i raw hraw
      have hheartbeat : MessageType.heartbeat.IsOrdinary := by decide
      have hchat : IsChat raw := by
        split at hraw
        · exact isChat_of_encode hraw rfl hheartbeat.code_ne
        · exact isChat_sealed hheartbeat hraw
      have hsent : Greets env Q s (transmit env dest raw
          (s.bumpSequence.noteSealed key (makeNonce s.traffic.txSequence sid)
            (sealedHeader env .heartbeat sid s.traffic.txSequence).encode [])).2 :=
        (Greets.transmit hchat dest _).after rfl
      split
      · rename_i heq
        rwa [heq] at hsent
      · rename_i heq
        rw [heq] at hsent
        exact hsent.before rfl

theorem greets_sendKeepalive (s : Session cfg) : Greets env Q s (s.sendKeepalive C env) :=
  Greets.foldl (fun s' dest => greets_sendKeepaliveTo _ dest s') _ s

theorem greets_sendHeartbeat (s : Session cfg) : Greets env Q s (s.sendHeartbeat env) :=
  Greets.foldl (fun s' dest => greets_control (by decide) _ _ dest s') _ s

theorem greets_sendFecParity (sid : UInt32) (parity : FecParity) (dest : SocketAddr)
    (s : Session cfg) : Greets env Q s (s.sendFecParity C env sid parity dest) := by
  unfold sendFecParity
  dsimp only
  split
  · exact .of_eq rfl
  · rename_i key _
    split
    · exact .of_eq rfl
    · split
      · exact .of_eq rfl
      · rename_i raw hraw
        have hchat : IsChat raw := isChat_of_encode hraw rfl
          (show MessageType.audioFec.IsOrdinary by decide).code_ne
        have hsent : Greets env Q s (transmit env dest raw
            (s.bumpSequence.noteSealed key (makeNonce s.traffic.txSequence sid)
              (sealedHeader env .audioFec sid s.traffic.txSequence).encode
              (be32 parity.seqBase ++ parity.window :: parity.payload))).2 :=
          (Greets.transmit hchat dest _).after rfl
        split
        · rename_i heq
          rwa [heq] at hsent
        · rename_i heq
          rw [heq] at hsent
          exact hsent.before rfl

theorem greets_followUp (sid : UInt32) (parity : Option FecParity) (dest : SocketAddr)
    (s : Session cfg) : Greets env Q s (s.followUp C env sid parity dest) := by
  cases parity with
  | none => rfl
  | some p => exact greets_sendFecParity sid p dest s

theorem isChat_audioPacket {sid seq : UInt32} {plain raw : Bytes} {dest : SocketAddr}
    (h : s.audioPacket C env sid seq plain dest = .ok raw) : IsChat raw := by
  have hframe : MessageType.audioFrame.IsOrdinary := by decide
  unfold audioPacket at h
  dsimp only at h
  split at h
  · split at h
    · cases h
    · exact isChat_of_encode h rfl hframe.code_ne
  · exact isChat_sealed hframe h

theorem greets_sendFrames (sid seq : UInt32) (plain : Bytes) (parity : Option FecParity)
    (alone : Bool) (targets : List SocketAddr) (total : ℕ) (s : Session cfg) :
    Greets env Q s (s.sendFrames C env sid seq plain parity alone targets total).2 := by
  induction targets generalizing total s with
  | nil => rfl
  | cons dest rest ih =>
    obtain ⟨log, hlog⟩ := noteAudio_eq env sid seq plain dest s
    unfold sendFrames
    dsimp only
    split
    · exact .of_eq (by rw [hlog])
    · rename_i raw hraw
      have hsent : Greets env Q s (transmit env dest raw (s.noteAudio env sid seq plain dest)).2 :=
        (Greets.transmit (isChat_audioPacket hraw) dest _).after (by rw [hlog])
      split
      · rename_i n u heq
        rw [heq] at hsent
        have hnoted : Greets env Q s (u.noteFramed dest plain) := hsent.before rfl
        exact (hnoted.trans (greets_followUp sid parity dest _)).trans (ih _ _)
      · rename_i e u heq
        rw [heq] at hsent
        split_ifs
        · exact hsent
        · exact (hsent.trans (greets_followUp sid parity dest _)).trans (ih _ _)

theorem greets_sendAudioTo (payload : Bytes) (targets : List SocketAddr) (s : Session cfg) :
    Greets env Q s (s.sendAudioTo C env payload targets).2 := by
  unfold sendAudioTo
  dsimp only
  have hframes (parity : Option FecParity) (encoder : FecEncoder fecWindow) :
      Greets env Q s (sendFrames C env s.status.sessionId s.traffic.txSequence
        (be32 s.voice.audioTxSeq ++ payload) parity (targets.length == 1) targets 0
        { s.bumpSequence with voice := ⟨s.voice.audioTxSeq + 1, encoder⟩ }).2 :=
    (greets_sendFrames _ _ _ _ _ _ _ _).after rfl
  have hpushed := hframes (s.voice.fecEnc.push s.voice.audioTxSeq payload).1
    (s.voice.fecEnc.push s.voice.audioTxSeq payload).2
  split
  · rename_i heq
    rwa [heq] at hpushed
  · rename_i heq
    rw [heq] at hpushed
    exact hpushed.before rfl

theorem greets_sendAudio (payload : Bytes) (s : Session cfg) :
    Greets env Q s (s.sendAudio C env payload).2 := by
  unfold sendAudio
  split_ifs
  · rfl
  · rfl
  · exact greets_sendAudioTo payload _ s

theorem greets_forwardAudio (sender : SocketAddr) (payload : Bytes) (s : Session cfg) :
    Greets env Q s (s.forwardAudio C env sender payload) := by
  unfold forwardAudio
  split_ifs
  · rfl
  · rfl
  · exact greets_sendAudioTo payload _ s

theorem greets_signalAll {first second : MessageType} (hfirst : first.IsOrdinary)
    (hsecond : second.IsOrdinary) (sid : UInt32) (targets : List SocketAddr) (s : Session cfg) :
    Greets env Q s (s.signalAll env first second sid targets).2 := by
  induction targets generalizing s with
  | nil => rfl
  | cons dest rest ih =>
    have h1 : Greets env Q s (s.sendControl env first sid (be32 sid) dest).2 :=
      greets_control hfirst _ _ dest s
    unfold signalAll
    split
    · rename_i heq
      rwa [heq] at h1
    · rename_i t heq
      rw [heq] at h1
      have h2 : Greets env Q t (t.sendControl env second sid [] dest).2 :=
        greets_control hsecond _ _ dest t
      split
      · rename_i heq'
        rw [heq'] at h2
        exact h1.trans h2
      · rename_i heq'
        rw [heq'] at h2
        exact (h1.trans h2).trans (ih _)

/-! ## Paths -/

theorem sent_switchPeer (old new : SocketAddr) (s : Session cfg) :
    (s.switchPeer env old new).traffic.sent = s.traffic.sent := by
  unfold switchPeer
  split
  · rfl
  · rfl

theorem greets_probeAnswered (sender : SocketAddr) (s : Session cfg) :
    Greets env Q s (s.probeAnswered C env sender) := by
  unfold probeAnswered
  split
  · rfl
  · split_ifs
    · exact (greets_sendKeepalive _).after (sent_switchPeer _ _ s)
    · rfl

theorem greets_onRendezvous (raw : Bytes) (sender : SocketAddr) (s : Session cfg) :
    Greets env Q s (s.onRendezvous C env raw sender) := by
  unfold onRendezvous
  split
  · rfl
  · split
    · rfl
    · split
      · rfl
      · rename_i others _
        split
        · have hprobes : Greets env Q s
              (others.foldl (fun s a => s.sendRv C env (.punch (env.punchNonce a)) a) s) :=
            Greets.foldl (fun s a => greets_sendRv _ a s) others s
          exact hprobes.before rfl
        · rfl
      · exact greets_sendRv _ sender s
      · split
        · exact .of_eq rfl
        · rfl
      · split
        · exact greets_probeAnswered sender s
        · rfl

theorem greets_keepaliveDue (s : Session cfg) : Greets env Q s (s.keepaliveDue C env) := by
  unfold keepaliveDue
  split
  · exact (greets_sendKeepalive _).after rfl
  · rfl

theorem greets_registerDue (stale : Bool) (s : Session cfg) :
    Greets env Q s (s.registerDue C env stale) := by
  unfold registerDue
  split
  · rfl
  · split_ifs
    · exact (greets_sendRv _ _ _).after rfl
    · rfl
    · exact (greets_sendRv _ _ _).after rfl
    · rfl

theorem greets_probeHint (first : Bool) (hint : SocketAddr) (s : Session cfg) :
    Greets env Q s (s.probeHint C env first hint) := by
  unfold probeHint
  dsimp only
  split_ifs
  · exact (greets_sendRv _ _ s).trans (greets_punchNeighbours _ _ _)
  · exact greets_sendRv _ _ s

theorem greets_probeDue (stale : Bool) (s : Session cfg) :
    Greets env Q s (s.probeDue C env stale) := by
  unfold probeDue
  dsimp only
  split_ifs
  · exact (Greets.foldl (fun s hint => greets_probeHint _ hint s) _ _).after rfl
  · exact .of_eq rfl
  · rfl

theorem greets_maintainRoom (s : Session cfg) : Greets env Q s (s.maintainRoom C env) := by
  unfold maintainRoom
  dsimp only
  split_ifs
  · exact .of_eq rfl
  · split
    · exact (greets_sendRvAll _ _ _).after rfl
    · exact ((greets_sendRv _ _ _).trans (greets_sendRvAll _ _ _)).after rfl

theorem greets_advertiseDue (stale : Bool) (s : Session cfg) :
    Greets env Q s (s.advertiseDue C env stale) := by
  unfold advertiseDue
  dsimp only
  split_ifs
  · exact .of_eq rfl
  · exact (greets_sendRvAll _ _ _).after rfl
  · rfl

theorem greets_maintainPath (s : Session cfg) : Greets env Q s (s.maintainPath C env) := by
  have hfront (stale : Bool) : Greets env Q s
      (((s.keepaliveDue C env).registerDue C env stale).probeDue C env stale) :=
    ((greets_keepaliveDue s).trans (greets_registerDue _ _)).trans (greets_probeDue _ _)
  unfold maintainPath
  dsimp only
  split_ifs
  · exact ((hfront _).trans (greets_maintainRoom _)).trans (greets_advertiseDue _ _)
  · exact (hfront _).trans (greets_advertiseDue _ _)

theorem greets_turn (s : Session cfg) : Greets env Q s (s.turn C env).2 := by
  unfold turn
  split
  · exact .of_eq rfl
  · rename_i jitter _
    have hpath : Greets env Q s (maintainPath C env { s with media.jitter := jitter }) :=
      (greets_maintainPath _).after rfl
    dsimp only
    split_ifs
    · exact hpath.before rfl
    · exact hpath.before rfl
    · exact hpath.before rfl
    · exact hpath

/-! ## Receiving -/

theorem sent_roomSequence (sender : SocketAddr) (seq : UInt32) (s : Session cfg) :
    (s.roomSequence env sender seq).2.traffic.sent = s.traffic.sent := by
  rcases roomSequence_cases env sender seq s with h | ⟨offset, -, h⟩
  · rw [h]
  · rw [h]

theorem greets_hearFrame (sender : SocketAddr) (timestamp : UInt64) (plain : Bytes)
    (s : Session cfg) : Greets env Q s (s.hearFrame C env sender timestamp plain) := by
  have hroom : (s.roomSequence env sender (fromBe32 (plain.take 4))).2.traffic.sent =
      s.traffic.sent := sent_roomSequence sender _ s
  unfold hearFrame
  dsimp only
  split_ifs
  · exact .of_eq rfl
  · split
    · rename_i heq
      rw [heq] at hroom
      exact .of_eq hroom
    · rename_i heq
      rw [heq] at hroom
      exact (greets_forwardAudio sender _ _).after hroom
  · exact .of_eq rfl

theorem sent_hearParity (sender : SocketAddr) (plain : Bytes) (s : Session cfg) :
    (s.hearParity sender plain).traffic.sent = s.traffic.sent := by
  rcases hearParity_cases sender plain s with h | ⟨-, base, -, ⟨-, h⟩ | ⟨seq, payload, -, h⟩⟩
  · rw [h]
  · rw [h]
  · rw [h]

theorem greets_onAudioFrame (view : PacketView) (raw : Bytes) (sender : SocketAddr)
    (s : Session cfg) : Greets env Q s (s.onAudioFrame C env view raw sender) := by
  unfold onAudioFrame
  split_ifs
  · split
    · exact .of_eq rfl
    · split
      · exact .of_eq rfl
      · exact (greets_hearFrame sender _ _ _).after rfl
  · exact greets_hearFrame sender _ _ s

theorem greets_onAudioFec (view : PacketView) (raw : Bytes) (sender : SocketAddr)
    (s : Session cfg) : Greets env Q s (s.onAudioFec C view raw sender) := by
  unfold onAudioFec
  split_ifs
  · split
    · rfl
    · split
      · exact .of_eq rfl
      · exact .of_eq (sent_hearParity sender _ _)
  · rfl

theorem greets_handlePacket (view : PacketView) (raw : Bytes) (sender : SocketAddr)
    (s : Session cfg) : Greets env Q s (s.handlePacket C env view raw sender).2 := by
  unfold handlePacket
  split
  · exact .of_eq rfl
  · exact greets_onAudioFrame view raw sender s
  · exact greets_onAudioFec view raw sender s
  · exact greets_control (by decide) _ _ sender s
  · exact .of_eq rfl
  · exact .of_eq rfl
  · exact .of_eq rfl
  · split_ifs
    · rfl
    · exact greets_control (by decide) _ _ sender s
  · exact .of_eq rfl
  · exact .of_eq rfl
  · split
    · exact .of_eq rfl
    · rfl
  · split_ifs
    · exact .of_eq rfl
    · exact .of_eq rfl
  · rfl

theorem sent_antiReplay (view : PacketView) (raw : Bytes) (sender : SocketAddr)
    (s : Session cfg) : (s.antiReplay view raw sender).2.traffic.sent = s.traffic.sent := by
  unfold antiReplay
  dsimp only
  split_ifs
  · rfl
  · rfl
  · rfl

theorem greets_acceptPacket (view : PacketView) (raw : Bytes) (sender : SocketAddr)
    (s : Session cfg) : Greets env Q s (s.acceptPacket C env view raw sender).2 := by
  have hsent := sent_antiReplay view raw sender (s.see sender env.now)
  unfold acceptPacket
  split
  · rename_i heq
    rw [heq] at hsent
    exact .of_eq hsent
  · rename_i heq
    rw [heq] at hsent
    exact (greets_handlePacket view raw sender _).after hsent

theorem sent_tryMigrate (view : PacketView) (raw : Bytes) (sender : SocketAddr)
    (s : Session cfg) : (s.tryMigrate C env view raw sender).2.traffic.sent = s.traffic.sent := by
  unfold tryMigrate
  split
  · rfl
  · split
    · rfl
    · split
      · rfl
      · dsimp only
        split_ifs
        · exact sent_switchPeer _ _ _
        · rfl

theorem greets_dispatchPacket (view : PacketView) (raw : Bytes) (sender : SocketAddr)
    (s : Session cfg) : Greets env Q s (s.dispatchPacket C env view raw sender).2 := by
  have hmigrate : (s.tryMigrate C env view raw sender).2.traffic.sent = s.traffic.sent :=
    sent_tryMigrate view raw sender s
  unfold dispatchPacket
  split_ifs
  · exact greets_acceptPacket view raw sender s
  · split
    · rename_i heq
      rw [heq] at hmigrate
      exact .of_eq hmigrate
    · rename_i heq
      rw [heq] at hmigrate
      exact (greets_acceptPacket view raw sender _).after hmigrate

theorem greets_pollTimeout (s : Session cfg) : Greets env Q s (s.pollTimeout env).2 := by
  unfold pollTimeout
  split_ifs
  · apply (greets_sendHeartbeat s).trans
    unfold checkLiveness
    split_ifs
    · exact .of_eq rfl
    · exact .of_eq rfl
  · rfl

theorem greets_close (s : Session cfg) : Greets env Q s (s.close env) := by
  have hclose (t : Session cfg) : Greets env Q t (t.peers.book.all.foldl
      (fun s' dest => (s'.sendControl env .close s.status.sessionId [] dest).2) t) :=
    Greets.foldl (fun s' dest => greets_control (by decide) _ _ dest s') _ t
  have hclosing : Greets env Q s _ := (hclose { s with
    status.closed := true
    peers := { s.peers with encryptKey := none, decryptKey := none } }).after rfl
  exact hclosing.before rfl

theorem greets_reopen (s : Session cfg) : Greets env Q s s.reopen.2 := by
  rcases reopen_cases s with h | ⟨-, h, -⟩
  · rw [h]
  · exact .of_eq (by rw [h])

end Session
end GravitalTalk
