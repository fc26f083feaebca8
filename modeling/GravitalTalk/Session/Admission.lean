import GravitalTalk.Session.Codec
import GravitalTalk.Session.Stranger

/-!
# Admissions in a running room

`begin_join` answers the greeting of a newcomer with the code of the first
handshake, and that code stores the codec it chooses as the codec of the session.
`finish_join` takes the admission out of the table before it looks at the answer, so
the first answer from the newcomer's address ends it, whatever it says.
-/
namespace GravitalTalk
namespace Session

open Run Machine

variable {cfg : Config} {C : Crypto} {env : Env} {s t : Session cfg} {sender peer : SocketAddr}
  {msg1 : Bytes}

/-! ## Greetings -/

/-- A Noise greeting that arrives from outside the book. -/
structure Greeting (book : AddressBook) where
  env : Env
  sender : SocketAddr
  raw : Bytes
  view : PacketView
  decodes : PacketView.decode raw = .ok view
  hello : view.header.msgType = MessageType.handshakeNoiseHello1.code
  unknown : sender ∉ book.peers

/-- The receive loop handles the greeting. -/
def Greeting.answer {book : AddressBook} (C : Crypto) (s : Session cfg) (g : Greeting book) :
    Session cfg := (s.recvDatagram C g.env g.raw g.sender).2

/-- Only the admissions changed, besides what receiving and sending anything changes. -/
structure Undisturbed (s t : Session cfg) : Prop where
  eq : t = { s with
    pendingJoins := t.pendingJoins
    traffic := t.traffic
    live := ⟨t.live.lastRx, s.live.peerSeen⟩ }

theorem Undisturbed.refl (s : Session cfg) : Undisturbed s s := ⟨rfl⟩

theorem Undisturbed.trans {u : Session cfg} (h : Undisturbed s t) (h' : Undisturbed t u) :
    Undisturbed s u := by
  constructor
  rw [h'.eq, h.eq]

theorem Undisturbed.status_eq (h : Undisturbed s t) : t.status = s.status := by
  rw [h.eq]

theorem SendsOnly.undisturbed (h : SendsOnly s t) : Undisturbed s t := by
  constructor
  rw [h.eq]

/-- The greeting is answered anew only with the codec of the session. -/
def AgreedCodec (C : Crypto) (t : Session cfg) {book : AddressBook} (g : Greeting book) : Prop :=
  t.peekNewPeer g.view g.sender = some (.noise g.view.payload) →
    AnswersAnew g.env t g.sender g.view.payload → ∀ codec,
      t.answerCodec C g.env (.noise g.view.payload) = some codec →
        codec = t.status.negotiatedCodec

/-- Reading a greeting stores the session id and the codec, nothing else. -/
theorem noiseServerBegin_snd (C : Crypto) (env : Env) (msg1 : Bytes) (s : Session cfg) :
    (s.noiseServerBegin C env msg1).2 = { s with status := { s.status with
      sessionId := (s.greeted C env (.noise msg1)).1
      negotiatedCodec := (s.greeted C env (.noise msg1)).2.1 } } := by
  unfold noiseServerBegin greeted preference
  dsimp only
  cases C.noiseNew (s.roomPsk C) false env.noiseSeed with
  | none => rfl
  | some hs =>
    dsimp only
    cases C.noiseRead hs msg1 with
    | none => rfl
    | some read =>
      dsimp only
      cases NoiseHello1.decode read.1 with
      | error e => rfl
      | ok hello1 =>
        dsimp only
        split_ifs
        · rfl
        · cases hcodec : chooseCodec cfg hello1.codecPreferred with
          | error e =>
            simp only [hcodec]
            rfl
          | ok codec =>
            simp only [hcodec]
            split
            · rfl
            · split
              · rfl
              · rfl

/-- What answering a greeting does: if it is answered anew, the id and the codec chosen are
stored. -/
theorem beginJoin_frame (C : Crypto) (env : Env) (sender : SocketAddr) (msg1 : Bytes)
    (s : Session cfg) : Undisturbed
      { s with status := if AnswersAnew env s sender msg1 then { s.status with
          sessionId := (s.greeted C env (.noise msg1)).1
          negotiatedCodec := (s.greeted C env (.noise msg1)).2.1 } else s.status }
      (s.beginJoin C env sender msg1) := by
  rw [beginJoin_eq]
  cases hfilter : ((kept env s).lookup sender).filter (fun p => p.msg1 == msg1) with
  | some p =>
    have hold : ¬ AnswersAnew env s sender msg1 := by
      rintro ⟨hnone, -⟩
      rw [hfilter] at hnone
      cases hnone
    rw [if_neg hold]
    have hsends := sendsOnly_sendControl env .handshakeNoiseHello2 p.sessionId p.msg2 sender
      { s with pendingJoins := kept env s }
    exact Undisturbed.trans ⟨rfl⟩ hsends.undisturbed
  | none =>
    dsimp only
    by_cases hfull : maxPeers ≤ (kept env s).keys.card
    · rw [if_pos hfull, if_neg fun h : AnswersAnew env s sender msg1 => Nat.not_lt.mpr hfull h.2]
      exact ⟨rfl⟩
    · have hanew : AnswersAnew env s sender msg1 := ⟨hfilter, Nat.lt_of_not_le hfull⟩
      have hsnd := noiseServerBegin_snd C env msg1 { s with pendingJoins := kept env s }
      rw [if_neg hfull, if_pos hanew]
      split
      · rename_i e t ht
        rw [ht] at hsnd
        rw [show t = _ from hsnd]
        exact ⟨rfl⟩
      · rename_i p t ht
        rw [ht] at hsnd
        have hsends := sendsOnly_sendControl env .handshakeNoiseHello2 p.sessionId p.msg2 sender
          { t with pendingJoins := t.pendingJoins.insert sender p }
        refine Undisturbed.trans ?_ hsends.undisturbed
        rw [show t = _ from hsnd]
        exact ⟨rfl⟩

/-- What the receive loop does with a greeting from outside the book: it is answered in a
room, and dropped elsewhere. -/
theorem Greeting.answer_cases (C : Crypto) {book : AddressBook} (g : Greeting book)
    (hbook : t.peers.book = book) :
    (t.peekNewPeer g.view g.sender = some (.noise g.view.payload) ∧ g.answer C t =
      ((t.recordReceived g.raw.length).heard g.env).beginJoin C g.env g.sender g.view.payload) ∨
    (t.peekNewPeer g.view g.sender = none ∧
      g.answer C t = (t.recordReceived g.raw.length).heard g.env) := by
  have hrv : ¬ Rendezvous.isRendezvous g.raw = true := fun hrv =>
    decode_of_isRendezvous hrv g.view g.decodes
  have hke : g.view.header.msgType ≠ MessageType.handshakeKeyExchange.code := by
    rw [g.hello]
    decide
  have hunknown : g.sender ∉ t.peers.book.peers := by
    rw [hbook]
    exact g.unknown
  rw [Greeting.answer, recvDatagram_of_view C g.env hrv g.decodes]
  cases hpeek : t.peekNewPeer g.view g.sender with
  | some first =>
    have hnoise : first = .noise g.view.payload := by
      unfold peekNewPeer at hpeek
      dsimp only at hpeek
      split_ifs at hpeek with h1 h2 h3 h4 h5
      · exact (Option.some.inj hpeek).symm
      · exact absurd g.hello h5
    subst hnoise
    exact .inl ⟨rfl, rfl⟩
  | none =>
    right
    have hfinish : ((t.recordReceived g.raw.length).heard g.env).finishJoin g.env g.view g.sender =
        (false, (t.recordReceived g.raw.length).heard g.env) :=
      finishJoin_none fun h => absurd h hke
    have hbook' : ((t.recordReceived g.raw.length).heard g.env).peers.book.contains g.sender =
        false := by
      rw [Bool.eq_false_iff, ne_eq, AddressBook.contains_iff]
      exact hunknown
    have hannounces : announces g.view = false := by
      simp only [announces, g.hello]
      rw [Bool.and_eq_false_iff]
      right
      decide
    simp [hfinish, dispatchPacket, hbook', tryMigrate, hannounces]

/-- In a session that has its id, a greeting can only store another codec. -/
theorem greeted_eq (C : Crypto) (env : Env) (hsid : s.status.sessionId ≠ 0)
    (first : FirstHandshake) : (s.greeted C env first).1 = s.status.sessionId ∧
      (s.greeted C env first).2.1 =
        (s.answerCodec C env first).getD s.status.negotiatedCodec := by
  refine ⟨?_, greeted_codec C env s first⟩
  unfold greeted
  cases s.preference C env first with
  | none => rfl
  | some preferred => exact if_pos hsid

theorem sessionId_of_peekNewPeer {view : PacketView} {first : FirstHandshake}
    (h : s.peekNewPeer view sender = some first) : s.status.sessionId ≠ 0 := by
  intro hzero
  simp [peekNewPeer, hzero] at h

/-- A greeting leaves the room alone exactly when it is not answered anew with another codec. -/
theorem Greeting.undisturbed_answer_iff (C : Crypto) {book : AddressBook} (g : Greeting book)
    (hbook : t.peers.book = book) : Undisturbed t (g.answer C t) ↔ AgreedCodec C t g := by
  rcases g.answer_cases C hbook with ⟨hpeek, hanswer⟩ | ⟨hpeek, hanswer⟩
  · have hframe := beginJoin_frame C g.env g.sender g.view.payload
      ((t.recordReceived g.raw.length).heard g.env)
    rw [← hanswer] at hframe
    obtain ⟨hsid, hcodec⟩ := greeted_eq C g.env (sessionId_of_peekNewPeer hpeek)
      (.noise g.view.payload)
    have hstatus : (g.answer C t).status =
        if AnswersAnew g.env t g.sender g.view.payload then { t.status with
          negotiatedCodec := (t.answerCodec C g.env (.noise g.view.payload)).getD
            t.status.negotiatedCodec } else t.status := by
      rw [hframe.eq, ← hcodec]
      change (if AnswersAnew g.env t g.sender g.view.payload then { t.status with
        sessionId := (t.greeted C g.env (.noise g.view.payload)).1
        negotiatedCodec := (t.greeted C g.env (.noise g.view.payload)).2.1 } else t.status) = _
      rw [hsid]
    constructor
    · intro hsame _ hanew codec hchosen
      have hkept := hsame.status_eq
      rw [hstatus, if_pos hanew, hchosen] at hkept
      exact congrArg Status.negotiatedCodec hkept
    · intro hagreed
      have hkept : (g.answer C t).status = t.status := by
        rw [hstatus]
        split_ifs with hanew
        · cases hchosen : t.answerCodec C g.env (.noise g.view.payload) with
          | none => rfl
          | some codec =>
            rw [Option.getD_some, hagreed hpeek hanew codec hchosen]
        · rfl
      constructor
      have heq := hframe.eq
      rw [hkept.symm.trans (congrArg Session.status heq)]
      exact heq
  · rw [hanswer]
    constructor
    · intro _ hsome
      rw [hpeek] at hsome
      cases hsome
    · intro _
      exact ⟨rfl⟩

/-- Greetings from outside leave a room undisturbed throughout exactly when each of them is
answered, if it is answered anew, with the codec that the room has. -/
theorem undisturbed_iff (C : Crypto) (s : Session cfg) (greetings : List (Greeting s.peers.book)) :
    (∀ some, some <+: greetings → Undisturbed s (some.foldl (Greeting.answer C) s)) ↔
      Along (Greeting.answer C) (fun t g => AgreedCodec C t g) s greetings := by
  let SameBook (t : Session cfg) : Prop := t.peers.book = s.peers.book
  have hstart : SameBook s := rfl
  refine good_iff_along hstart (.refl s) ?_ ?_
  · intro t g hbook hgood
    rw [← g.undisturbed_answer_iff C hbook]
    constructor
    · intro h
      constructor
      rw [h.eq, hgood.eq]
    · exact hgood.trans
  · intro t g hbook _ hagreed
    rw [((g.undisturbed_answer_iff C hbook).mpr hagreed).eq]
    exact hbook

namespace AdmissionExample

open Pairing

/-- A room with one guest, whose codec is the first. -/
noncomputable def room : Session Config.default :=
  (run Crypto.toy (rest Crypto.toy (initial Config.default (Vector.replicate 8 0)))
    roomSteps).session

/-- The second codec, preferred by somebody else. -/
def otherHello1 : Bytes :=
  (Vector.replicate 32 0).toList ++
    { noiseClientHello Config.default hello.clientNonce with codecPreferred := 2 }.encode

noncomputable def otherGreeting : Greeting room.peers.book where
  env := at' 2
  sender := Pairing.newcomer
  raw := PacketBuilder.bytes
    (PacketHeader.new MessageType.handshakeNoiseHello1.code 0 0 0) otherHello1
  view := ⟨PacketHeader.new MessageType.handshakeNoiseHello1.code 0 0 0, otherHello1⟩
  decodes := PacketBuilder.decode_bytes rfl (by decide)
  hello := rfl
  unknown := by decide +kernel

end AdmissionExample

open AdmissionExample in
/-- One greeting from outside moves a running room to another codec. -/
theorem undisturbed_otherCodec :
    room.status.state = .active ∧ room.settings.multiPeer = true ∧
      room.status.negotiatedCodec = 1 ∧
      (otherGreeting.answer Crypto.toy room).status.negotiatedCodec = 2 ∧
      ¬ Undisturbed room ([otherGreeting].foldl (Greeting.answer Crypto.toy) room) := by
  have hfacts : room.status.state = .active ∧ room.settings.multiPeer = true ∧
      room.status.negotiatedCodec = 1 ∧
      (otherGreeting.answer Crypto.toy room).status.negotiatedCodec = 2 := by
    decide +kernel
  obtain ⟨hactive, hmulti, hbefore, hafter⟩ := hfacts
  refine ⟨hactive, hmulti, hbefore, hafter, ?_⟩
  intro h
  rw [List.foldl_cons, List.foldl_nil] at h
  rw [h.status_eq, hbefore] at hafter
  exact absurd hafter (by decide)

/-! ## Answers -/

/-- A key exchange that arrives. -/
structure Answer where
  env : Env
  raw : Bytes
  view : PacketView
  decodes : PacketView.decode raw = .ok view
  answer : view.header.msgType = MessageType.handshakeKeyExchange.code

namespace Answer

variable {p : PendingJoin}

/-- What the receive loop does with an answer from `peer`. -/
def arrive (C : Crypto) (peer : SocketAddr) (s : Session cfg) (a : Answer) : Session cfg :=
  (s.recvDatagram C a.env a.raw peer).2

/-- The answer of whom the admission `p` is for. -/
def Genuine (p : PendingJoin) (a : Answer) : Prop :=
  ∃ ke, TagMsg.decode a.view.payload = .ok ke ∧ ke.sessionId = p.sessionId ∧
    ke.authTag = p.expectedClientTag

/-- The transport takes the confirmation of the answer. -/
def Confirmable (p : PendingJoin) (peer : SocketAddr) (s : Session cfg) (a : Answer) : Prop :=
  Takes a.env cfg .handshakeSessionConfirm p.sessionId s.traffic.txSequence p.confirm peer

end Answer

/-- `peer` was admitted with the keys of `p`. -/
structure Admitted (p : PendingJoin) (peer : SocketAddr) (s t : Session cfg) : Prop where
  installed : ∃ e, t.history.installed = e :: s.history.installed ∧ e.peer = peer ∧
    e.enc = p.encKey ∧ e.dec = p.decKey
  peers : t.peers = (s.peers.install peer p.encKey p.decKey).insert peer

/-- Nobody was admitted, and nobody's admission ended. -/
structure Unmoved (s t : Session cfg) : Prop where
  pendingJoins : t.pendingJoins = s.pendingJoins
  book : t.peers.book = s.peers.book
  peerKeys : t.peers.peerKeys = s.peers.peerKeys
  encryptKey : t.peers.encryptKey = s.peers.encryptKey
  decryptKey : t.peers.decryptKey = s.peers.decryptKey
  installed : t.history.installed = s.history.installed

theorem Unmoved.trans {u : Session cfg} (h : Unmoved s t) (h' : Unmoved t u) : Unmoved s u :=
  ⟨h'.pendingJoins.trans h.pendingJoins, h'.book.trans h.book, h'.peerKeys.trans h.peerKeys,
    h'.encryptKey.trans h.encryptKey, h'.decryptKey.trans h.decryptKey,
    h'.installed.trans h.installed⟩

/-- A key exchange that no admission waits for is not handled. -/
theorem handlePacket_keyExchange (C : Crypto) (env : Env) {view : PacketView}
    (htype : view.header.msgType = MessageType.handshakeKeyExchange.code) (raw : Bytes)
    (sender : SocketAddr) (s : Session cfg) :
    s.handlePacket C env view raw sender = (.ok (), s) := by
  have hmsg : MessageType.fromCode view.header.msgType = .ok .handshakeKeyExchange := by
    rw [htype]
    decide
  unfold handlePacket
  rw [hmsg]

theorem unmoved_antiReplay (view : PacketView) (raw : Bytes) (sender : SocketAddr)
    (s : Session cfg) : Unmoved s (s.antiReplay view raw sender).2 := by
  unfold antiReplay
  dsimp only
  split_ifs
  · exact ⟨rfl, rfl, rfl, rfl, rfl, rfl⟩
  · exact ⟨rfl, rfl, rfl, rfl, rfl, rfl⟩
  · exact ⟨rfl, rfl, rfl, rfl, rfl, rfl⟩

theorem unmoved_dispatchPacket (C : Crypto) (env : Env) {view : PacketView}
    (htype : view.header.msgType = MessageType.handshakeKeyExchange.code) (raw : Bytes)
    (sender : SocketAddr) (s : Session cfg) :
    Unmoved s (s.dispatchPacket C env view raw sender).2 := by
  have hannounces : announces view = false := by
    simp only [announces, htype]
    rw [Bool.and_eq_false_iff]
    right
    decide
  unfold dispatchPacket
  split_ifs with hbook
  · have hmark := unmoved_antiReplay view raw sender (s.see sender env.now)
    have hsee : Unmoved s (s.see sender env.now) := ⟨rfl, rfl, rfl, rfl, rfl, rfl⟩
    unfold acceptPacket
    split
    · rename_i t ht
      rw [ht] at hmark
      exact hsee.trans hmark
    · rename_i t ht
      rw [ht] at hmark
      rw [handlePacket_keyExchange C env htype]
      exact hsee.trans hmark
  · simp only [tryMigrate, hannounces, Bool.not_false, if_true]
    exact ⟨rfl, rfl, rfl, rfl, rfl, rfl⟩

namespace Answer

variable {p : PendingJoin} {a : Answer} {bad : List Answer}

/-- An answer is no greeting: it ends an admission, or is dispatched. -/
theorem arrive_eq (C : Crypto) (peer : SocketAddr) (s : Session cfg) (a : Answer) :
    a.arrive C peer s =
      if (((s.recordReceived a.raw.length).heard a.env).finishJoin a.env a.view peer).1 then
        (((s.recordReceived a.raw.length).heard a.env).finishJoin a.env a.view peer).2
      else ((((s.recordReceived a.raw.length).heard a.env).finishJoin a.env a.view peer).2
        |>.dispatchPacket C a.env a.view a.raw peer).2 := by
  have hrv : ¬ Rendezvous.isRendezvous a.raw = true := fun hrv =>
    decode_of_isRendezvous hrv a.view a.decodes
  have hpeek : s.peekNewPeer a.view peer = none := by
    have htype : a.view.header.msgType ≠ MessageType.handshakeClientHello.code ∧
        a.view.header.msgType ≠ MessageType.handshakeNoiseHello1.code := by
      rw [a.answer]
      decide
    unfold peekNewPeer
    dsimp only
    split_ifs
    · rfl
    · rfl
  rw [arrive, recvDatagram_of_view C a.env hrv a.decodes, hpeek]
  dsimp only
  split
  · rename_i t ht
    rw [ht, if_pos rfl]
  · rename_i t ht
    rw [ht, if_neg Bool.false_ne_true]

/-- Without an admission, an answer moves nobody. -/
theorem unmoved_arrive (C : Crypto) (a : Answer) (hnone : s.pendingJoins.lookup peer = none) :
    Unmoved s (a.arrive C peer s) := by
  have hfinish : ((s.recordReceived a.raw.length).heard a.env).finishJoin a.env a.view peer =
      (false, (s.recordReceived a.raw.length).heard a.env) := finishJoin_none fun _ => hnone
  have hheard : Unmoved s ((s.recordReceived a.raw.length).heard a.env) :=
    ⟨rfl, rfl, rfl, rfl, rfl, rfl⟩
  rw [arrive_eq, hfinish, if_neg Bool.false_ne_true]
  exact hheard.trans (unmoved_dispatchPacket C a.env a.answer a.raw peer _)

/-- A bad answer takes the admission out of the table, and that is all. -/
theorem finishJoin_bad (hp : s.pendingJoins.lookup peer = some p) (hbad : ¬ a.Genuine p) :
    s.finishJoin a.env a.view peer =
      (true, { s with pendingJoins := s.pendingJoins.erase peer }) := by
  unfold finishJoin
  rw [if_neg (not_not.mpr a.answer), hp]
  dsimp only
  cases hke : TagMsg.decode a.view.payload with
  | error e => rfl
  | ok ke =>
    dsimp only
    unfold noiseServerFinish
    by_cases hsid : ke.sessionId = p.sessionId
    · have htag : ke.authTag ≠ p.expectedClientTag := fun htag => hbad ⟨ke, hke, hsid, htag⟩
      rw [if_neg (not_not.mpr hsid), if_pos htag]
    · rw [if_pos hsid]

/-- A bad answer ends the admission and moves nobody else. -/
theorem arrive_bad (C : Crypto) (hp : s.pendingJoins.lookup peer = some p)
    (hbad : ¬ a.Genuine p) :
    Unmoved { s with pendingJoins := s.pendingJoins.erase peer } (a.arrive C peer s) := by
  have hfinish := finishJoin_bad (s := (s.recordReceived a.raw.length).heard a.env) hp hbad
  rw [arrive_eq, hfinish, if_pos rfl]
  exact ⟨rfl, rfl, rfl, rfl, rfl, rfl⟩

/-- The right answer admits the newcomer if it can be confirmed. -/
theorem finishJoin_genuine (hp : s.pendingJoins.lookup peer = some p) (hgenuine : a.Genuine p) :
    (s.finishJoin a.env a.view peer).1 = true ∧
      (Admitted p peer s (s.finishJoin a.env a.view peer).2 ↔ a.Confirmable p peer s) := by
  obtain ⟨ke, hke, hsid, htag⟩ := hgenuine
  let taken : Session cfg := { s with pendingJoins := s.pendingJoins.erase peer }
  have hok := sendControl_ok_iff a.env .handshakeSessionConfirm p.sessionId p.confirm peer taken
  unfold finishJoin
  rw [if_neg (not_not.mpr a.answer), hp]
  dsimp only
  rw [hke]
  dsimp only
  unfold noiseServerFinish
  rw [if_neg (not_not.mpr hsid), if_neg (not_not.mpr htag)]
  cases hsend : taken.sendControl a.env .handshakeSessionConfirm p.sessionId p.confirm peer with
  | mk result t =>
    have hsends := sendsOnly_of_sendControl hsend
    rw [hsend] at hok
    cases result with
    | error e =>
      refine ⟨rfl, ?_⟩
      constructor
      · rintro ⟨⟨_, hinstalled, -⟩, -⟩
        have hlen := congrArg List.length hinstalled
        rw [List.length_cons, hsends.history] at hlen
        exact absurd hlen (Nat.ne_of_lt (Nat.lt_succ_self _))
      · intro htakes
        cases hok.mpr htakes
    | ok u =>
      refine ⟨rfl, fun _ => hok.mp rfl, fun _ => ?_⟩
      refine ⟨⟨_, by rw [← hsends.history]; rfl, rfl, rfl, rfl⟩, ?_⟩
      rw [← hsends.peers]
      rfl

/-- The right answer completes the admission if it can be confirmed. -/
theorem arrive_genuine (C : Crypto) (hp : s.pendingJoins.lookup peer = some p)
    (hgenuine : a.Genuine p) : Admitted p peer s (a.arrive C peer s) ↔ a.Confirmable p peer s := by
  obtain ⟨hfirst, hiff⟩ := finishJoin_genuine
    (s := (s.recordReceived a.raw.length).heard a.env) hp hgenuine
  rw [arrive_eq, hfirst, if_pos rfl]
  constructor
  · intro h
    exact hiff.mp ⟨h.installed, h.peers⟩
  · intro h
    exact ⟨(hiff.mpr h).installed, (hiff.mpr h).peers⟩

/-- However many bad answers come, the first of them ends the admission, and that is all. -/
theorem arrive_all_bad (C : Crypto) (hp : s.pendingJoins.lookup peer = some p) {bad : List Answer}
    (hne : bad ≠ []) (hbad : ∀ a ∈ bad, ¬ a.Genuine p) :
    Unmoved { s with pendingJoins := s.pendingJoins.erase peer }
      (bad.foldl (arrive C peer) s) := by
  have hrest (rest : List Answer) (t : Session cfg) (hnone : t.pendingJoins.lookup peer = none) :
      Unmoved t (rest.foldl (arrive C peer) t) := by
    induction rest generalizing t with
    | nil => exact ⟨rfl, rfl, rfl, rfl, rfl, rfl⟩
    | cons a rest ih =>
      have hfirst := unmoved_arrive C a hnone
      exact hfirst.trans (ih _ (by rw [hfirst.pendingJoins, hnone]))
  cases bad with
  | nil => exact absurd rfl hne
  | cons a rest =>
    have hfirst := arrive_bad C hp (hbad a List.mem_cons_self)
    refine hfirst.trans (hrest rest _ ?_)
    rw [hfirst.pendingJoins]
    exact Finmap.lookup_erase _ _

end Answer

open Answer in
/-- The first answer from the newcomer's address ends the admission, whatever it says: bad ones
leave everybody else alone, and the right one admits the newcomer exactly when none came before
it and the transport takes the confirmation. -/
theorem admitted_iff_first (C : Crypto) {p : PendingJoin}
    (hp : s.pendingJoins.lookup peer = some p) {bad : List Answer}
    (hbad : ∀ a ∈ bad, ¬ a.Genuine p) {a : Answer} (hgenuine : a.Genuine p) :
    let t := bad.foldl (arrive C peer) s
    (bad ≠ [] → Unmoved { s with pendingJoins := s.pendingJoins.erase peer } t) ∧
      (Admitted p peer t (a.arrive C peer t) ↔ bad = [] ∧ a.Confirmable p peer t) := by
  intro t
  refine ⟨fun hne => arrive_all_bad C hp hne hbad, ?_⟩
  by_cases hne : bad = []
  · subst hne
    have hiff : Admitted p peer t (a.arrive C peer t) ↔ a.Confirmable p peer t :=
      arrive_genuine C hp hgenuine
    rw [hiff]
    simp
  · have hfirst : Unmoved { s with pendingJoins := s.pendingJoins.erase peer } t :=
      arrive_all_bad C hp hne hbad
    have hnone : t.pendingJoins.lookup peer = none := by
      rw [hfirst.pendingJoins]
      exact Finmap.lookup_erase _ _
    constructor
    · rintro ⟨⟨_, hinstalled, -⟩, -⟩
      rw [(unmoved_arrive C a hnone).installed] at hinstalled
      have hlen := congrArg List.length hinstalled
      exact absurd hlen (Nat.ne_of_lt (Nat.lt_succ_self _))
    · rintro ⟨hnil, -⟩
      exact absurd hnil hne

namespace AdmissionExample

open Pairing

/-- The room after a greeting from outside. -/
noncomputable def greetedRoom : Session Config.default :=
  (room.recvDatagram Crypto.toy (at' 2) (noiseHelloDatagram (Vector.replicate 32 0))
    Pairing.newcomer).2

theorem greetedRoom_pending :
    (greetedRoom.pendingJoins.lookup Pairing.newcomer).isSome = true := by
  decide +kernel

noncomputable def pending : PendingJoin :=
  (greetedRoom.pendingJoins.lookup Pairing.newcomer).get greetedRoom_pending

noncomputable def answerWith (tag : Vector UInt8 16) : Answer where
  env := at' 2
  raw := PacketBuilder.bytes (PacketHeader.new MessageType.handshakeKeyExchange.code 1 1 0)
    (TagMsg.encode ⟨1, tag⟩)
  view := ⟨PacketHeader.new MessageType.handshakeKeyExchange.code 1 1 0, TagMsg.encode ⟨1, tag⟩⟩
  decodes := PacketBuilder.decode_bytes rfl (by simp [TagMsg.encode]; decide)
  answer := rfl

/-- The tag that the newcomer derives. -/
def clientTag : Vector UInt8 16 :=
  Crypto.toy.deriveAuthTag (noiseKeys (Vector.replicate 32 0)).1 "GS-client-fin-v2" transcript

noncomputable def genuine : Answer := answerWith clientTag

/-- What somebody else sends from its address. -/
noncomputable def forged : Answer := answerWith (Vector.replicate 16 1)

theorem decode_answerWith (tag : Vector UInt8 16) :
    TagMsg.decode (answerWith tag).view.payload = .ok ⟨1, tag⟩ :=
  TagMsg.decode_encode _

theorem pending_facts : pending.sessionId = 1 ∧ pending.expectedClientTag = clientTag ∧
    pending.confirm.length = 20 := by
  decide +kernel

theorem genuine_genuine : genuine.Genuine pending :=
  ⟨_, decode_answerWith _, pending_facts.1.symm, pending_facts.2.1.symm⟩

end AdmissionExample

open AdmissionExample in
/-- A newcomer that answers at once is admitted. -/
theorem admitted_at_once : Admitted pending Pairing.newcomer greetedRoom
    (genuine.arrive Crypto.toy Pairing.newcomer greetedRoom) := by
  have hpending : greetedRoom.pendingJoins.lookup Pairing.newcomer = some pending :=
    (Option.some_get greetedRoom_pending).symm
  have hnone : ∀ a ∈ ([] : List Answer), ¬ a.Genuine pending := by simp
  refine (admitted_iff_first Crypto.toy hpending hnone genuine_genuine).2.mpr ⟨rfl, ?_⟩
  refine ⟨?_, _, rfl⟩
  rw [pending_facts.2.2]
  exact ⟨by decide, by decide⟩

open AdmissionExample in
/-- One forged answer, and the newcomer's own comes too late. -/
theorem admitted_forged :
    greetedRoom.pendingJoins.lookup Pairing.newcomer = some pending ∧
      ¬ forged.Genuine pending ∧ genuine.Genuine pending ∧
      ¬ Admitted pending Pairing.newcomer ([forged].foldl (Answer.arrive Crypto.toy Pairing.newcomer)
        greetedRoom) (genuine.arrive Crypto.toy Pairing.newcomer
          ([forged].foldl (Answer.arrive Crypto.toy Pairing.newcomer) greetedRoom)) := by
  refine ⟨(Option.some_get greetedRoom_pending).symm, ?_, genuine_genuine, ?_⟩
  · rintro ⟨ke, hke, -, htag⟩
    rw [forged, decode_answerWith] at hke
    cases hke
    rw [pending_facts.2.1] at htag
    exact absurd htag (by decide +kernel)
  · rintro ⟨⟨_, hinstalled, -⟩, -⟩
    have hlen := congrArg List.length hinstalled
    rw [List.length_cons] at hlen
    exact absurd hlen (by decide +kernel)

end Session
end GravitalTalk
