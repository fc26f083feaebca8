import GravitalTalk.Session.Agreement
import GravitalTalk.Session.Loops

/-!
# The codec of a room

A host forwards the frames of one guest to the others without decoding them.
The codec is chosen anew for every greeting and stored in the session, whether
or not the admission is completed. `Room` follows what each guest was told.
-/
namespace GravitalTalk
namespace Session

variable {cfg : Config} {C : Crypto} {env : Env} {s t : Session cfg}

/-- The codec that a greeting is answered with, if it is read that far. -/
def answerCodec (C : Crypto) (env : Env) (s : Session cfg) (first : FirstHandshake) :
    Option UInt8 :=
  (s.preference C env first).bind fun preferred => (chooseCodec cfg preferred).toOption

/-- The codec of the answer is stored, whatever happens then. -/
theorem greeted_codec (C : Crypto) (env : Env) (s : Session cfg) (first : FirstHandshake) :
    (s.greeted C env first).2.1 = (s.answerCodec C env first).getD s.status.negotiatedCodec := by
  unfold greeted answerCodec
  cases s.preference C env first with
  | none => rfl
  | some preferred => rfl

theorem noiseServerBegin_codec (C : Crypto) (env : Env) (msg1 : Bytes) (s : Session cfg) :
    (s.noiseServerBegin C env msg1).2.status.negotiatedCodec =
      (s.answerCodec C env (.noise msg1)).getD s.status.negotiatedCodec :=
  (congrArg (fun a => a.2.1) (agreement_noiseServerBegin C env msg1 s)).trans
    (greeted_codec C env s _)

theorem legacyServerBegin_codec (C : Crypto) (env : Env) (peer : SocketAddr) (hello : ClientHello)
    (s : Session cfg) :
    (s.legacyServerBegin C env peer hello).2.status.negotiatedCodec =
      (s.answerCodec C env (.legacy hello)).getD s.status.negotiatedCodec :=
  (congrArg (fun a => a.2.1) (agreement_legacyServerBegin C env peer hello s)).trans
    (greeted_codec C env s _)

/-- The second Noise message of an admission names the codec that was chosen. -/
theorem noiseServerBegin_tells {msg1 : Bytes} {p : PendingJoin}
    (h : s.noiseServerBegin C env msg1 = (.ok p, t)) :
    ∃ hs hs', ∃ hello2 : NoiseHello2, C.noiseWrite hs hello2.encode = some (p.msg2, hs') ∧
      s.answerCodec C env (.noise msg1) = some hello2.codecAccepted := by
  unfold noiseServerBegin at h
  unfold answerCodec preference
  cases hnew : C.noiseNew (s.roomPsk C) false env.noiseSeed with
  | none =>
    rw [hnew] at h
    cases h
  | some hs =>
    rw [hnew] at h
    dsimp only at h ⊢
    cases hread : C.noiseRead hs msg1 with
    | none =>
      rw [hread] at h
      cases h
    | some r =>
      rw [hread] at h
      dsimp only at h ⊢
      cases hdecode : NoiseHello1.decode r.1 with
      | error e =>
        rw [hdecode] at h
        cases h
      | ok hello1 =>
        rw [hdecode] at h
        dsimp only at h ⊢
        split at h
        · cases h
        · rename_i hversion
          rw [if_neg hversion]
          dsimp only [Option.bind_some]
          cases hcodec : chooseCodec cfg hello1.codecPreferred with
          | error e =>
            rw [hcodec] at h
            cases h
          | ok codec =>
            rw [hcodec] at h
            dsimp only at h
            split at h
            · cases h
            · rename_i msg2 hs' hwrite
              split at h
              · cases h
              · cases h
                exact ⟨_, _, _, hwrite, rfl⟩

/-- So does the `ServerHello`. -/
theorem legacyServerBegin_tells {peer : SocketAddr} {hello : ClientHello} {w : LegacyWait}
    (h : s.legacyServerBegin C env peer hello = (.ok w, t)) :
    ∃ answer : ServerHello, w.serverHello = answer.encode ∧
      s.answerCodec C env (.legacy hello) = some answer.codecAccepted := by
  unfold legacyServerBegin at h
  unfold answerCodec preference
  dsimp only
  split at h
  · cases h
  · rename_i hversion
    rw [if_neg hversion]
    dsimp only [Option.bind_some] at h ⊢
    cases hcodec : chooseCodec cfg hello.codecPreferred with
    | error e =>
      rw [hcodec] at h
      cases h
    | ok codec =>
      rw [hcodec] at h
      dsimp only at h
      split at h
      · cases h
      · cases h
        exact ⟨_, rfl, rfl⟩

end Session

/-- Not the handshake of a client. -/
def Task.serves {C : Crypto} : Task C → Bool
  | .helloSent .. | .noiseSent .. | .confirm .. => false
  | _ => true

/-- A greeting was answered, and the key exchange is waited for. -/
def Task.awaitsKey {C : Crypto} : Task C → Bool
  | .legacyKe .. | .noiseKe .. => true
  | _ => false

namespace Machine

open Session Run Rendezvous

variable {cfg : Config} {C : Crypto} {env : Env} {s t u : Session cfg}

/-! ## What a server's step does -/

/-- Nobody was admitted and nothing agreed on. -/
structure Stays (s : Session cfg) (m : Machine C cfg) : Prop where
  agreement : m.session.agreement = s.agreement
  installed : m.session.history.installed = s.history.installed
  serves : m.task.serves = true

/-- A greeting was answered with `codec`, or failed before one was chosen. -/
structure Answers (s : Session cfg) (codec : Option UInt8) (m : Machine C cfg) : Prop where
  codec : m.session.status.negotiatedCodec = codec.getD s.status.negotiatedCodec
  installed : m.session.history.installed = s.history.installed
  serves : m.task.serves = true

/-- The admission of `peer` was completed. -/
structure Takes (s : Session cfg) (peer : SocketAddr) (m : Machine C cfg) : Prop where
  agreement : m.session.agreement = s.agreement
  installed : ∃ e, e.peer = peer ∧ m.session.history.installed = e :: s.history.installed
  serves : m.task.serves = true

theorem Stays.after {m : Machine C cfg} (h : Stays t m) (hagree : t.agreement = s.agreement)
    (hinstalled : t.history.installed = s.history.installed) : Stays s m :=
  ⟨h.agreement.trans hagree, h.installed.trans hinstalled, h.serves⟩

theorem Stays.answers {m : Machine C cfg} {codec : Option UInt8} (h : Stays t m)
    (hcodec : t.status.negotiatedCodec = codec.getD s.status.negotiatedCodec)
    (hinstalled : t.history.installed = s.history.installed) : Answers s codec m :=
  ⟨(congrArg (fun a => a.2.1) h.agreement).trans hcodec, h.installed.trans hinstalled, h.serves⟩

theorem Stays.takes {m : Machine C cfg} {peer : SocketAddr} {enc dec : SessionKey}
    (h : Stays (t.installKeys env peer enc dec) m) (hagree : t.agreement = s.agreement)
    (hinstalled : t.history.installed = s.history.installed) : Takes s peer m := by
  refine ⟨h.agreement.trans hagree, ⟨⟨peer, enc, dec, t.status.sessionId,
    t.status.negotiatedCodec, t.traffic.taken⟩, rfl, h.installed.trans ?_⟩, h.serves⟩
  exact congrArg (List.cons _) hinstalled

theorem stays_of_sends {m : Machine C cfg} (h : SendsOnly s m.session)
    (hserves : m.task.serves = true) : Stays s m :=
  ⟨h.agreement, by rw [h.history], hserves⟩

theorem stays_waitHead (C : Crypto) (env : Env) (caller : Caller) (expect : Option SocketAddr)
    (noise legacy : Bool) (cycle next : ℕ) (s : Session cfg) :
    Stays s (waitHead C env caller expect noise legacy cycle next s) := by
  unfold waitHead
  split_ifs
  · exact stays_of_sends (sendsOnly_announce C env cycle s) rfl
  · exact ⟨rfl, rfl, rfl⟩

theorem stays_retryAccept (C : Crypto) (env : Env) (s : Session cfg) :
    Stays s (retryAccept C env s) := by
  unfold retryAccept
  dsimp only
  split_ifs
  · exact ⟨rfl, rfl, rfl⟩
  · exact (stays_waitHead C env _ _ _ _ _ _ _).after rfl rfl

theorem stays_finished (C : Crypto) (env : Env) (caller : Caller) (peer : Option SocketAddr)
    (result : Except TransportError Unit) (s : Session cfg) :
    Stays s (finished C env caller peer result s) := by
  unfold finished
  split
  · exact ⟨rfl, rfl, rfl⟩
  · exact ⟨rfl, rfl, rfl⟩
  · exact ⟨rfl, rfl, rfl⟩
  · exact ⟨rfl, rfl, rfl⟩
  · exact stays_retryAccept C env s
  · exact ⟨rfl, rfl, rfl⟩
  · exact ⟨rfl, rfl, rfl⟩
  · split
    · exact ⟨rfl, rfl, rfl⟩
    · exact ⟨rfl, rfl, rfl⟩

theorem stays_unlessClosed (C : Crypto) (env : Env) (caller : Caller) (peer : Option SocketAddr)
    {task : Task C} (htask : task.serves = true) (s : Session cfg) :
    Stays s (unlessClosed C env caller peer s task) := by
  unfold unlessClosed
  split_ifs
  · exact stays_finished C env _ _ _ s
  · exact ⟨rfl, rfl, htask⟩

theorem answers_beginServer (C : Crypto) (env : Env) (caller : Caller) (peer : SocketAddr)
    (first : FirstHandshake) (s : Session cfg) :
    Answers s (s.answerCodec C env first) (beginServer C env caller peer s first) := by
  cases first with
  | noise msg1 =>
    have hcodec := noiseServerBegin_codec C env msg1 s
    have hhistory := (steady_noiseServerBegin C env msg1 s).calm.history
    change Answers s _ (beginNoise C env caller peer msg1 s)
    unfold beginNoise
    split
    · rename_i e t ht
      rw [ht] at hcodec hhistory
      exact (stays_finished C env _ _ _ t).answers hcodec (by rw [hhistory])
    · rename_i p t ht
      rw [ht] at hcodec hhistory
      split
      · rename_i e u hu
        have hsend := sendsOnly_of_sendControl hu
        refine Stays.answers (t := t)
          (Stays.after (t := u) ?_ hsend.agreement (by rw [hsend.history]))
          hcodec (by rw [hhistory])
        exact stays_finished C env _ _ _ u
      · rename_i u hu
        have hsend := sendsOnly_of_sendControl hu
        refine Stays.answers (t := t)
          (Stays.after (t := u) ?_ hsend.agreement (by rw [hsend.history]))
          hcodec (by rw [hhistory])
        exact stays_unlessClosed C env _ _ rfl u
  | legacy hello =>
    have hcodec := legacyServerBegin_codec C env peer hello s
    have hhistory := (steady_legacyServerBegin C env peer hello s).calm.history
    change Answers s _ (beginLegacy C env caller peer hello s)
    unfold beginLegacy
    split
    · rename_i e t ht
      rw [ht] at hcodec hhistory
      exact (stays_finished C env _ _ _ t).answers hcodec (by rw [hhistory])
    · rename_i w t ht
      rw [ht] at hcodec hhistory
      exact (stays_unlessClosed C env _ _ rfl t).answers hcodec (by rw [hhistory])

theorem agreement_noiseServerFinish (env : Env) (peer : SocketAddr) (p : PendingJoin)
    (ke : KeyExchangeMsg) (s : Session cfg) :
    (s.noiseServerFinish env peer p ke).2.agreement = s.agreement := by
  unfold noiseServerFinish
  split_ifs
  · rfl
  · rfl
  · split
    · rename_i e t ht
      exact agreement_of_sendControl ht
    · rename_i t ht
      exact agreement_of_sendControl (t := t) ht

theorem noiseServerFinish_tag {peer : SocketAddr} {p : PendingJoin} {ke : KeyExchangeMsg}
    (h : (s.noiseServerFinish env peer p ke).1 = .ok ()) :
    ke.sessionId = p.sessionId ∧ ke.authTag = p.expectedClientTag := by
  unfold noiseServerFinish at h
  split_ifs at h with hsid htag
  exact ⟨not_not.mp hsid, not_not.mp htag⟩

theorem agreement_legacyServerFinish (C : Crypto) (env : Env) (peer : SocketAddr)
    (wait : LegacyWait) (ke : KeyExchangeMsg) (s : Session cfg) :
    (s.legacyServerFinish C env peer wait ke).2.agreement = s.agreement := by
  unfold legacyServerFinish
  split_ifs
  · rfl
  · rfl
  · dsimp only
    split
    · rename_i e t ht
      exact agreement_of_sendControl ht
    · rename_i t ht
      exact agreement_of_sendControl (t := t) ht

theorem legacyServerFinish_tag {peer : SocketAddr} {wait : LegacyWait} {ke : KeyExchangeMsg}
    (h : (s.legacyServerFinish C env peer wait ke).1 = .ok ()) :
    ke.sessionId = wait.sessionId ∧
      ke.authTag = C.deriveAuthTag wait.decKey "GS-client-fin-v1" wait.transcript := by
  unfold legacyServerFinish at h
  split_ifs at h with hsid htag
  exact ⟨not_not.mp hsid, not_not.mp htag⟩

/-- What the last message of an admission is answered with. -/
theorem settles_installed {peer : SocketAddr} {enc dec : SessionKey}
    {r : Except TransportError Unit × Session cfg} (h : Settles env peer enc dec s r) :
    r.1 ≠ .ok () ∧ r.2.history.installed = s.history.installed ∨
      r.1 = .ok () ∧ ∃ e, e.peer = peer ∧
        r.2.history.installed = e :: s.history.installed := by
  rcases h with ⟨e, he, hsteady⟩ | ⟨hok, t, hsteady, ht⟩
  · refine .inl ⟨?_, by rw [hsteady.calm.history]⟩
    rw [he]
    exact nofun
  · refine .inr ⟨hok, ⟨peer, enc, dec, t.status.sessionId, t.status.negotiatedCodec,
      t.traffic.taken⟩, rfl, ?_⟩
    rw [ht]
    change _ :: t.history.installed = _
    rw [hsteady.calm.history]

/-- A `KeyExchange` from `peer` arrives. -/
def KeyExchanged (peer : SocketAddr) (input : Input) (ke : KeyExchangeMsg) : Prop :=
  ∃ sender raw view, input = .datagram sender raw ∧
    isReply peer .handshakeKeyExchange sender raw = some view ∧ TagMsg.decode view.payload = .ok ke

/-- A waiting server goes on waiting or gives up, unless the answer it waits for comes. -/
theorem onKeyExchange_cases (C : Crypto) (env : Env) (caller : Caller) {peer : SocketAddr}
    (greeting : MessageType)
    {resend : Session cfg → Except TransportError Unit × Session cfg}
    {finish : KeyExchangeMsg → Session cfg → Except TransportError Unit × Session cfg}
    (task : Task C) (input : Input) (hresend : ∀ {s r t}, resend s = (r, t) → SendsOnly s t)
    (hagree : ∀ ke s, (finish ke s).2.agreement = s.agreement) {enc dec : SessionKey}
    (hfinish : ∀ ke s, Settles env peer enc dec s (finish ke s)) (htask : task.serves = true) :
    Stays s (onKeyExchange C env caller peer greeting resend finish task input s) ∨
      Takes s peer (onKeyExchange C env caller peer greeting resend finish task input s) ∧
        ∃ ke, KeyExchanged peer input ke ∧ (finish ke s).1 = .ok () := by
  unfold onKeyExchange
  split
  · rename_i sender raw
    split
    · split
      · rename_i e t ht
        have hsend := hresend ht
        exact .inl ((stays_finished C env _ _ _ t).after hsend.agreement (by rw [hsend.history]))
      · rename_i t ht
        have hsend := hresend ht
        exact .inl ((stays_unlessClosed C env _ _ htask t).after hsend.agreement
          (by rw [hsend.history]))
    · split
      · exact .inl (stays_unlessClosed C env _ _ htask s)
      · rename_i view hview
        split
        · exact .inl (stays_finished C env _ _ _ s)
        · rename_i ke hke
          have hstay := stays_finished C env caller peer (finish ke s).1 (finish ke s).2
          rcases settles_installed (hfinish ke s) with ⟨-, hsame⟩ | ⟨hok, e, he, hnew⟩
          · exact .inl (hstay.after (hagree ke s) hsame)
          · refine .inr ⟨⟨hstay.agreement.trans (hagree ke s), ⟨e, he, ?_⟩, hstay.serves⟩,
              ke, ⟨sender, raw, view, rfl, hview, hke⟩, hok⟩
            exact hstay.installed.trans hnew
  · exact .inl (stays_unlessClosed C env _ _ htask s)
  · exact .inl (stays_finished C env _ _ _ s)
  · split_ifs
    · exact .inl (stays_finished C env _ _ _ s)
    · exact .inl ⟨rfl, rfl, htask⟩

/-! ## Greetings and admissions -/

/-- `begin_join` answers a greeting anew, and not with an answer it has kept. -/
def AnswersAnew (env : Env) (s : Session cfg) (sender : SocketAddr) (msg1 : Bytes) : Prop :=
  ((kept env s).lookup sender).filter (fun p => p.msg1 == msg1) = none ∧
    (kept env s).keys.card < maxPeers

instance (env : Env) (s : Session cfg) (sender : SocketAddr) (msg1 : Bytes) :
    Decidable (AnswersAnew env s sender msg1) := inferInstanceAs (Decidable (_ ∧ _))

/-- The greeting that a step answers. -/
def greeting (C : Crypto) (env : Env) (m : Machine C cfg) : Action → Option FirstHandshake
  | .input (.datagram sender raw) =>
    match m.task with
    | .waitFirst _ expect noise legacy .. =>
      (hearFirst C env expect noise legacy sender raw m.session).1
    | _ => none
  | .recv sender raw =>
    match m.task, PacketView.decode raw with
    | .idle, .ok view =>
      match m.session.peekNewPeer view sender with
      | some (.noise msg1) =>
        if AnswersAnew env m.session sender msg1 then some (.noise msg1) else none
      | first => first
    | _, _ => none
  | .poll sender raw =>
    match m.task, PacketView.decode raw with
    | .idle, .ok view => m.session.peekNewPeer view sender
    | _, _ => none
  | _ => none

/-- The answer that completes the admission of a peer arrives, with the right tag. -/
inductive Completes (C : Crypto) (m : Machine C cfg) : Action → SocketAddr → Prop
  | legacy {caller : Caller} {peer : SocketAddr} {wait : LegacyWait} {input : Input}
      {ke : KeyExchangeMsg} (htask : m.task = .legacyKe caller peer wait)
      (hinput : KeyExchanged peer input ke) (hsid : ke.sessionId = wait.sessionId)
      (htag : ke.authTag = C.deriveAuthTag wait.decKey "GS-client-fin-v1" wait.transcript) :
    Completes C m (.input input) peer
  | noise {caller : Caller} {peer : SocketAddr} {p : PendingJoin} {input : Input}
      {ke : KeyExchangeMsg} (htask : m.task = .noiseKe caller peer p)
      (hinput : KeyExchanged peer input ke) (hsid : ke.sessionId = p.sessionId)
      (htag : ke.authTag = p.expectedClientTag) : Completes C m (.input input) peer
  | join {sender : SocketAddr} {raw : Bytes} {view : PacketView} {p : PendingJoin}
      {ke : KeyExchangeMsg} (hidle : m.task = .idle) (hview : PacketView.decode raw = .ok view)
      (htype : view.header.msgType = MessageType.handshakeKeyExchange.code)
      (hp : m.session.pendingJoins.lookup sender = some p)
      (hke : TagMsg.decode view.payload = .ok ke) (hsid : ke.sessionId = p.sessionId)
      (htag : ke.authTag = p.expectedClientTag) : Completes C m (.recv sender raw) sender

/-- What the step of a host does: nothing about codecs and guests, an answer to
a greeting, an admission, or a new start. -/
inductive Hosted (C : Crypto) (env : Env) (m : Machine C cfg) (a : Action) : Prop
  | stays (h : Stays m.session (step C env m a))
  | answers (first : FirstHandshake) (hfirst : greeting C env m a = some first)
      (h : Answers m.session (m.session.answerCodec C env first) (step C env m a))
  | takes (peer : SocketAddr) (hpeer : Completes C m a peer)
      (h : Takes m.session peer (step C env m a))
  | reopens (ha : a = .reopen) (hclosed : m.session.status.closed = true)
      (hinstalled : (step C env m a).session.history.installed = m.session.history.installed)
      (hserves : (step C env m a).task.serves = true)

theorem beginJoin_cases (C : Crypto) (env : Env) (sender : SocketAddr) (msg1 : Bytes)
    (s : Session cfg) :
    (s.beginJoin C env sender msg1).agreement = s.agreement ∨ AnswersAnew env s sender msg1 ∧
      (s.beginJoin C env sender msg1).status.negotiatedCodec =
        (s.answerCodec C env (.noise msg1)).getD s.status.negotiatedCodec := by
  rw [beginJoin_eq]
  cases hfilter : ((kept env s).lookup sender).filter (fun p => p.msg1 == msg1) with
  | some p =>
    exact .inl (agreement_sendControl env _ _ _ _ { s with pendingJoins := kept env s })
  | none =>
    dsimp only
    split
    · exact .inl rfl
    · rename_i hroom
      refine .inr ⟨⟨hfilter, Nat.lt_of_not_le hroom⟩, ?_⟩
      have hcodec := noiseServerBegin_codec C env msg1 { s with pendingJoins := kept env s }
      split
      · rename_i e t ht
        rw [ht] at hcodec
        exact hcodec
      · rename_i p t ht
        rw [ht] at hcodec
        refine Eq.trans ?_ hcodec
        exact congrArg (fun a => a.2.1) (agreement_sendControl env _ _ _ _
          { t with pendingJoins := t.pendingJoins.insert sender p })

theorem beginJoin_history (C : Crypto) (env : Env) (sender : SocketAddr) (msg1 : Bytes)
    (s : Session cfg) : (s.beginJoin C env sender msg1).history = s.history := by
  rw [beginJoin_eq]
  split
  · exact (sendsOnly_sendControl env _ _ _ _ { s with pendingJoins := kept env s }).history
  · split
    · rfl
    · have hhistory := (steady_noiseServerBegin C env msg1
        { s with pendingJoins := kept env s }).calm.history
      split
      · rename_i e t ht
        rw [ht] at hhistory
        exact hhistory
      · rename_i p t ht
        rw [ht] at hhistory
        exact (sendsOnly_sendControl env _ _ _ _
          { t with pendingJoins := t.pendingJoins.insert sender p }).history.trans hhistory

/-- An admission in progress ends with keys, or without. -/
theorem finishJoin_cases {view : PacketView} {sender : SocketAddr}
    (h : s.finishJoin env view sender = (true, t)) :
    t.agreement = s.agreement ∧
      (t.history.installed = s.history.installed ∨
        (∃ e, e.peer = sender ∧ t.history.installed = e :: s.history.installed) ∧
          view.header.msgType = MessageType.handshakeKeyExchange.code ∧
          ∃ p ke, s.pendingJoins.lookup sender = some p ∧ TagMsg.decode view.payload = .ok ke ∧
            ke.sessionId = p.sessionId ∧ ke.authTag = p.expectedClientTag) := by
  unfold finishJoin at h
  split_ifs at h with htype
  · cases h
  · rw [not_not] at htype
    split at h
    · cases h
    · rename_i p hp
      dsimp only at h
      split at h
      · cases h
        exact ⟨rfl, .inl rfl⟩
      · rename_i ke hke
        have hagree := agreement_noiseServerFinish env sender p ke
          { s with pendingJoins := s.pendingJoins.erase sender }
        have hsettles := settles_installed (settles_noiseServerFinish env sender p ke
          { s with pendingJoins := s.pendingJoins.erase sender })
        split at h
        · rename_i e u hu
          rw [hu] at hagree hsettles
          cases h
          refine ⟨hagree, .inl ?_⟩
          rcases hsettles with ⟨-, hsame⟩ | ⟨hok, -⟩
          · exact hsame
          · cases hok
        · rename_i u hu
          have htag := noiseServerFinish_tag (congrArg Prod.fst hu)
          rw [hu] at hagree hsettles
          cases h
          refine ⟨hagree, .inr ⟨?_, htype, p, ke, hp, hke, htag⟩⟩
          rcases hsettles with ⟨hno, -⟩ | ⟨-, hnew⟩
          · exact absurd rfl hno
          · exact hnew

theorem answerCodec_congr (C : Crypto) (env : Env) (first : FirstHandshake)
    (h : t.settings = s.settings) : t.answerCodec C env first = s.answerCodec C env first := by
  unfold answerCodec
  rw [preference_congr C env first h]

theorem Answers.after {m : Machine C cfg} {codec : Option UInt8} (h : Answers t codec m)
    (hagree : t.agreement = s.agreement)
    (hinstalled : t.history.installed = s.history.installed) : Answers s codec m := by
  have hcodec : t.status.negotiatedCodec = s.status.negotiatedCodec :=
    congrArg (fun a => a.2.1) hagree
  exact ⟨by rw [h.codec, hcodec], h.installed.trans hinstalled, h.serves⟩

theorem stays_after_rx {i : Arrival} {s₀ : Session cfg} {m : Machine C cfg} (h : Stays t m)
    (hagree : t.agreement = s.agreement) (hrx : RxEffects C env i s₀ s t) : Stays s m :=
  h.after hagree hrx.keeps.installed

theorem stays_rest (C : Crypto) (s : Session cfg) : Stays s (rest C s) := ⟨rfl, rfl, rfl⟩

theorem agreement_hearFirst (C : Crypto) (env : Env) (expect : Option SocketAddr)
    (noise legacy : Bool) (sender : SocketAddr) (raw : Bytes) (s : Session cfg) :
    (hearFirst C env expect noise legacy sender raw s).2.agreement = s.agreement := by
  unfold hearFirst
  split
  · split
    · exact agreement_onRendezvous C env raw sender s
    · rfl
  · split
    · rfl
    · split
      · rfl
      · rfl

theorem hosted_waitFirst (C : Crypto) (env : Env) (caller : Caller) (expect : Option SocketAddr)
    (noise legacy : Bool) (cycle next : ℕ) (input : Input) (s : Session cfg) :
    Hosted C env ⟨s, .waitFirst caller expect noise legacy cycle next⟩ (.input input) := by
  have hagain (t : Session cfg) : Stays t (if t.status.closed then
      finished C env caller none (.error (.peerClosed "session closed")) t
      else waitHead C env caller expect noise legacy cycle next t) := by
    split_ifs
    · exact stays_finished C env _ _ _ t
    · exact stays_waitHead C env _ _ _ _ _ _ t
  cases input with
  | datagram sender raw =>
    cases hhear : hearFirst C env expect noise legacy sender raw s with
    | mk first t =>
      have hagree := agreement_hearFirst C env expect noise legacy sender raw s
      rw [hhear] at hagree
      cases first with
      | none =>
        refine .stays ?_
        change Stays s (onWaitFirst C env caller expect noise legacy cycle next
          (.datagram sender raw) s)
        rw [onWaitFirst_none hhear]
        refine (hagain t).after hagree ?_
        have hrx := rx_hearFirst C env expect noise legacy sender raw s
        rw [hhear] at hrx
        rcases hrx with heq | ⟨-, hrx⟩
        · rw [show t = s from heq]
        · exact hrx.keeps.installed
      | some first =>
        have hfirst : (hearFirst C env expect noise legacy sender raw s).1 = some first := by
          rw [hhear]
        obtain rfl : t = s := by
          rw [← (hearFirst_some hfirst).1, hhear]
        have hpeer : (registerPeer caller sender t).agreement = t.agreement ∧
            (registerPeer caller sender t).history.installed = t.history.installed ∧
            (registerPeer caller sender t).settings = t.settings := by
          unfold registerPeer
          split_ifs
          · exact ⟨rfl, rfl, rfl⟩
          · exact ⟨rfl, rfl, rfl⟩
        refine .answers first hfirst ?_
        change Answers t (t.answerCodec C env first)
          (onWaitFirst C env caller expect noise legacy cycle next (.datagram sender raw) t)
        unfold onWaitFirst
        simp only [hhear]
        rw [← answerCodec_congr C env first hpeer.2.2]
        exact (answers_beginServer C env caller sender first _).after hpeer.1 hpeer.2.1
  | timeout => exact .stays (hagain s)
  | ioError e => exact .stays (stays_finished C env caller none (.error e) s)
  | expire =>
    refine .stays ?_
    change Stays s (onWaitFirst C env caller expect noise legacy cycle next .expire s)
    unfold onWaitFirst
    dsimp only
    split_ifs
    · exact stays_finished C env _ _ _ s
    · exact ⟨rfl, rfl, rfl⟩

theorem hosted_input (C : Crypto) (env : Env) (m : Machine C cfg) (input : Input)
    (hserves : m.task.serves = true) : Hosted C env m (.input input) := by
  obtain ⟨s, task⟩ := m
  cases task with
  | idle => exact .stays (stays_rest C s)
  | waitFirst caller expect noise legacy cycle next =>
    exact hosted_waitFirst C env caller expect noise legacy cycle next input s
  | legacyKe caller peer wait =>
    rcases onKeyExchange_cases C env caller .handshakeClientHello (.legacyKe caller peer wait) input
      (fun h => sendsOnly_of_sendControl h)
      (fun ke s => agreement_legacyServerFinish C env peer wait ke s)
      (fun ke s => settles_legacyServerFinish C env peer wait ke s)
      (s := s) rfl with h | ⟨h, ke, hke, hok⟩
    · exact .stays h
    · obtain ⟨hsid, htag⟩ := legacyServerFinish_tag hok
      exact .takes peer (.legacy rfl hke hsid htag) h
  | noiseKe caller peer p =>
    rcases onKeyExchange_cases C env caller .handshakeNoiseHello1 (.noiseKe caller peer p) input
      (fun h => sendsOnly_of_sendControl h)
      (fun ke s => agreement_noiseServerFinish env peer p ke s)
      (fun ke s => settles_noiseServerFinish env peer p ke s)
      (s := s) rfl with h | ⟨h, ke, hke, hok⟩
    · exact .stays h
    · obtain ⟨hsid, htag⟩ := noiseServerFinish_tag hok
      exact .takes peer (.noise rfl hke hsid htag) h
  | helloSent peer wait attempt => cases hserves
  | noiseSent peer fallback hs nonce sid msg1 attempt => cases hserves
  | confirm peer noise fallback wait => cases hserves

theorem answers_promote (C : Crypto) (env : Env) (sender : SocketAddr) (first : FirstHandshake)
    (s : Session cfg) (n : ℕ) :
    Answers s (s.answerCodec C env first)
      (promotePeer C env sender first ((s.recordReceived n).heard env)) := by
  let t := { (s.recordReceived n).heard env with
    peers := ((s.recordReceived n).heard env).peers.insert sender }
  have h : Answers t (t.answerCodec C env first) (promotePeer C env sender first
      ((s.recordReceived n).heard env)) := answers_beginServer C env .promote sender first t
  rw [answerCodec_congr (s := s) C env first (show t.settings = s.settings from rfl)] at h
  exact h.after rfl rfl

theorem stays_dispatch (C : Crypto) (env : Env) {raw : Bytes} {view : PacketView}
    (hview : PacketView.decode raw = .ok view) (sender : SocketAddr) (s : Session cfg) (n : ℕ) :
    Stays s (rest C (((s.recordReceived n).heard env).dispatchPacket C env view raw sender).2) :=
  (stays_after_rx (stays_rest C _) (agreement_dispatchPacket C env view raw sender _)
    (rx_dispatchPacket (.refl ((s.recordReceived n).heard env)) hview)).after rfl rfl

theorem hosted_recv (C : Crypto) (env : Env) (sender : SocketAddr) (raw : Bytes) (s : Session cfg) :
    Hosted C env (rest C s) (.recv sender raw) := by
  have hstep : step C env (rest C s) (.recv sender raw) =
      afterDatagram C env sender (s.recvDatagram C env raw sender) := rfl
  by_cases hrv : isRendezvous raw = true
  · have hrecv : s.recvDatagram C env raw sender =
        (.done (.ok ()), (s.recordReceived raw.length).onRendezvous C env raw sender) := by
      unfold recvDatagram
      dsimp only
      rw [if_pos hrv]
    refine .stays ?_
    rw [hstep, hrecv]
    exact (stays_after_rx (stays_rest C _) (agreement_onRendezvous C env raw sender _)
      (rx_onRendezvous (i := .loop sender raw) rfl
        (.refl (s.recordReceived raw.length)))).after rfl rfl
  · cases hview : PacketView.decode raw with
    | error e =>
      have hrecv : s.recvDatagram C env raw sender =
          (.done (.ok ()), (s.recordReceived raw.length).recordIntegrityError) := by
        unfold recvDatagram
        simp only [hrv, hview, Bool.false_eq_true, if_false]
      refine .stays ?_
      rw [hstep, hrecv]
      exact ⟨rfl, rfl, rfl⟩
    | ok view =>
      let t := (s.recordReceived raw.length).heard env
      rw [recvDatagram_of_view C env hrv hview] at hstep
      cases hpeek : s.peekNewPeer view sender with
      | none =>
        simp only [hpeek] at hstep
        cases hjoin : t.finishJoin env view sender with
        | mk found u =>
          simp only [t] at hjoin
          simp only [hjoin] at hstep
          cases found with
          | true =>
            obtain ⟨hagree, hsame | ⟨⟨e, he, hnew⟩, htype, p, ke, hp, hke, hsid, htag⟩⟩ :=
              finishJoin_cases hjoin
            · refine .stays ?_
              rw [hstep]
              exact ⟨hagree, hsame, rfl⟩
            · refine .takes sender (.join rfl hview htype hp hke hsid htag) ?_
              rw [hstep]
              exact ⟨hagree, ⟨e, he, hnew⟩, rfl⟩
          | false =>
            obtain rfl := eq_of_finishJoin_false hjoin
            refine .stays ?_
            rw [hstep]
            exact stays_dispatch C env hview sender s raw.length
      | some first =>
        cases first with
        | noise msg1 =>
          simp only [hpeek] at hstep
          have hhistory : (t.beginJoin C env sender msg1).history.installed =
              s.history.installed := by
            rw [beginJoin_history]
            rfl
          rcases beginJoin_cases C env sender msg1 t with hagree | ⟨hanew, hcodec⟩
          · refine .stays ?_
            rw [hstep]
            exact ⟨hagree, hhistory, rfl⟩
          · have hgreet : greeting C env (rest C s) (.recv sender raw) = some (.noise msg1) := by
              simp only [greeting, rest, hview, hpeek]
              exact if_pos hanew
            refine .answers _ hgreet ?_
            rw [hstep]
            exact ⟨hcodec, hhistory, rfl⟩
        | legacy hello =>
          simp only [hpeek] at hstep
          have hgreet : greeting C env (rest C s) (.recv sender raw) = some (.legacy hello) := by
            simp only [greeting, rest, hview, hpeek]
          refine .answers _ hgreet ?_
          rw [hstep]
          exact answers_promote C env sender (.legacy hello) s raw.length

theorem hosted_poll (C : Crypto) (env : Env) (sender : SocketAddr) (raw : Bytes) (s : Session cfg) :
    Hosted C env (rest C s) (.poll sender raw) := by
  have hstep : step C env (rest C s) (.poll sender raw) =
      afterDatagram C env sender (s.pollDatagram C env raw sender) := rfl
  cases hview : PacketView.decode raw with
  | error e =>
    have hpoll : s.pollDatagram C env raw sender =
        (.done (.ok ()), (s.recordReceived raw.length).recordIntegrityError) := by
      unfold pollDatagram
      simp only [hview]
    refine .stays ?_
    rw [hstep, hpoll]
    exact ⟨rfl, rfl, rfl⟩
  | ok view =>
    rw [pollDatagram_of_view C env hview] at hstep
    cases hpeek : s.peekNewPeer view sender with
    | none =>
      simp only [hpeek] at hstep
      refine .stays ?_
      rw [hstep]
      exact stays_dispatch C env hview sender s raw.length
    | some first =>
      simp only [hpeek] at hstep
      have hgreet : greeting C env (rest C s) (.poll sender raw) = some first := by
        simp only [greeting, rest, hview, hpeek]
      refine .answers _ hgreet ?_
      rw [hstep]
      exact answers_promote C env sender first s raw.length

theorem stays_handshakeServer (C : Crypto) (env : Env) (peer : SocketAddr) (s : Session cfg) :
    Stays s (handshake C env .server peer s) := by
  unfold handshake
  dsimp only
  split
  · exact ⟨rfl, rfl, rfl⟩
  · rename_i state _
    have hsend (r : Except TransportError Unit × Session cfg)
        (hr : r = (if s.settings.presetSessionId ≠ 0 then
          sendControl env .heartbeat s.settings.presetSessionId [] peer
            { s with peers := s.peers.insert peer, status.state := state }
        else (.ok (), { s with peers := s.peers.insert peer, status.state := state }))) :
        r.2.agreement = s.agreement ∧ r.2.history.installed = s.history.installed := by
      rw [hr]
      split
      · have h := sendsOnly_sendControl env .heartbeat s.settings.presetSessionId [] peer
          { s with peers := s.peers.insert peer, status.state := state }
        exact ⟨h.agreement, congrArg History.installed h.history⟩
      · exact ⟨rfl, rfl⟩
    split
    · rename_i e u hu
      obtain ⟨hagree, hinstalled⟩ := hsend _ hu.symm
      exact (stays_finished C env _ _ _ u).after hagree hinstalled
    · rename_i u hu
      obtain ⟨hagree, hinstalled⟩ := hsend _ hu.symm
      split_ifs
      · exact (stays_finished C env _ _ _ u).after hagree hinstalled
      · exact (stays_waitHead C env _ _ _ _ _ _ u).after hagree hinstalled

theorem stays_handshakeOpen (C : Crypto) (env : Env) (s : Session cfg) :
    Stays s (handshakeOpen C env s) := by
  have harm := armRelay_eq C s
  unfold handshakeOpen
  generalize (armRelay C s).settings = settings at harm
  rw [harm]
  refine Stays.after (t := { s with settings := settings }) ?_ rfl rfl
  dsimp only
  split
  · exact stays_rest C _
  · split_ifs
    · exact ⟨rfl, rfl, rfl⟩
    · exact (stays_waitHead C env _ _ _ _ _ _ _).after rfl rfl

theorem hosted_whenIdle {m : Machine C cfg} {a : Action} {f : Session cfg → Machine C cfg}
    (hstep : step C env m a = whenIdle C m f) (hserves : m.task.serves = true)
    (h : ∀ s, m = rest C s → Stays s (f s)) : Hosted C env m a := by
  refine .stays ?_
  rw [hstep]
  rcases whenIdle_cases m f with ⟨hidle, heq⟩ | heq
  · rw [heq]
    refine h m.session ?_
    rw [rest, ← hidle]
  · rw [heq]
    exact ⟨rfl, rfl, hserves⟩

/-- Every step of a host is one of these. -/
theorem hosted (C : Crypto) (env : Env) (m : Machine C cfg) {a : Action}
    (hserves : m.task.serves = true) (ha : ∀ peer, a ≠ .handshake .client peer) :
    Hosted C env m a := by
  cases a with
  | handshake role peer =>
    cases role with
    | client => exact absurd rfl (ha peer)
    | server => exact hosted_whenIdle rfl hserves fun s _ => stays_handshakeServer C env peer s
  | handshakeOpen => exact hosted_whenIdle rfl hserves fun s _ => stays_handshakeOpen C env s
  | acceptAdditionalPeer =>
    refine hosted_whenIdle rfl hserves fun s _ => ?_
    unfold acceptAdditionalPeer
    split_ifs
    · exact stays_rest C s
    · exact stays_waitHead C env _ _ _ _ _ _ s
  | input i => exact hosted_input C env m i hserves
  | cancel => exact .stays (stays_rest C m.session)
  | turn =>
    exact hosted_whenIdle rfl hserves fun s _ =>
      stays_after_rx (stays_rest C _) (agreement_turn C env s) (rx_turn C env s)
  | recv sender raw =>
    obtain ⟨s, task⟩ := m
    cases task with
    | idle => exact hosted_recv C env sender raw s
    | _ => exact .stays ⟨rfl, rfl, hserves⟩
  | poll sender raw =>
    obtain ⟨s, task⟩ := m
    cases task with
    | idle => exact hosted_poll C env sender raw s
    | _ => exact .stays ⟨rfl, rfl, hserves⟩
  | pollTimeout =>
    exact hosted_whenIdle rfl hserves fun s _ =>
      (stays_rest C _).after (agreement_pollTimeout env s)
        (by rw [(quiet_pollTimeout env s).history])
  | sendAudio payload =>
    have hsay := speaksOnly_sendAudio C env payload m.session
    exact .stays ⟨hsay.agreement, congrArg History.installed hsay.history, hserves⟩
  | pttPress =>
    have hsay := sendsOnly_signalAll env .floorRequest .controlResume
      m.session.status.sessionId m.session.peers.book.all
      { m.session with status.pttActive := true }
    exact .stays ⟨hsay.agreement, congrArg History.installed hsay.history, hserves⟩
  | pttRelease =>
    have hsay := sendsOnly_signalAll env .floorRelease .controlPause
      m.session.status.sessionId m.session.peers.book.all
      { m.session with status.pttActive := false }
    exact .stays ⟨hsay.agreement, congrArg History.installed hsay.history, hserves⟩
  | close =>
    have hhistory : (m.session.close env).history = m.session.history := by rw [close_eq]
    exact .stays ⟨agreement_close env m.session, congrArg History.installed hhistory, hserves⟩
  | reopen =>
    cases hclosed : m.session.status.closed with
    | false =>
      have hsame : m.session.reopen.2 = m.session := by
        simp only [Session.reopen, hclosed, Bool.not_false, if_true]
      exact .stays
        ⟨congrArg agreement hsame, congrArg (fun s => s.history.installed) hsame, hserves⟩
    | true =>
      have hhistory : m.session.reopen.2.history = m.session.history := by
        rcases reopen_cases m.session with h | ⟨-, -, h⟩
        · rw [h]
        · exact h
      exact .reopens rfl hclosed (congrArg History.installed hhistory) hserves
  | setPresetSessionId id => exact .stays ⟨rfl, rfl, hserves⟩
  | setRoomToken token => exact .stays ⟨rfl, rfl, hserves⟩
  | setHandshakeMode mode => exact .stays ⟨rfl, rfl, hserves⟩
  | setRendezvous server => exact .stays ⟨rfl, rfl, hserves⟩
  | setMultiPeer enabled => exact .stays ⟨rfl, rfl, hserves⟩
  | setRelayOnly enabled => exact .stays ⟨rfl, rfl, hserves⟩
  | setOwnPublic addr => exact .stays ⟨rfl, rfl, hserves⟩
  | addPathHints addrs => exact .stays ⟨rfl, rfl, hserves⟩

/-! ## Runs of a host -/

/-- A host, the codec in the answer to each admission in progress, and the
guests with the codec they were told. -/
structure Room (C : Crypto) (cfg : Config) where
  machine : Machine C cfg
  /-- The handshake that reads from the socket. -/
  waiting : Option UInt8
  /-- The admissions that the receive loop goes on with. -/
  joining : SocketAddr → Option UInt8
  guests : Set (SocketAddr × Option UInt8)

namespace Room

def empty (m : Machine C cfg) : Room C cfg := ⟨m, none, fun _ => none, ∅⟩

/-- The codec told to a peer whose admission is about to be completed. -/
def told (r : Room C cfg) (peer : SocketAddr) : Option UInt8 :=
  if r.machine.task.awaitsKey then r.waiting else r.joining peer

def codec (r : Room C cfg) : UInt8 := r.machine.session.status.negotiatedCodec

end Room

/-- A step of a host. Who is admitted becomes a guest with the codec in the
answer to its greeting. -/
def host (C : Crypto) (r : Room C cfg) (x : Env × Action) : Room C cfg :=
  let m := r.machine
  let m' := step C x.1 m x.2
  let answer := (greeting C x.1 m x.2).bind (m.session.answerCodec C x.1)
  { machine := m'
    waiting := if m.task.awaitsKey then r.waiting else answer
    joining :=
      match x.2, greeting C x.1 m x.2 with
      | .recv sender _, some (.noise msg1) =>
        if (m.session.noiseServerBegin C x.1 msg1).1.isOk then
          Function.update r.joining sender answer
        else r.joining
      | _, _ => r.joining
    guests :=
      {g | (∃ p, (p, g.2) ∈ r.guests ∧ ¬ Leaves m x p ∧
          moved (newly m.session.history.switched m'.session.history.switched) p = g.1) ∨
        ∃ e ∈ newly m.session.history.installed m'.session.history.installed,
          e.peer = g.1 ∧ r.told e.peer = g.2} }

/-- While there are guests only their codec is chosen, and who is admitted was told
the codec in use. -/
structure KeepsCodec (C : Crypto) (r : Room C cfg) (x : Env × Action) : Prop where
  greeting : ∀ first codec, greeting C x.1 r.machine x.2 = some first →
    r.machine.session.answerCodec C x.1 first = some codec → codec = r.codec ∨ r.guests = ∅
  admission : ∀ peer, Completes C r.machine x.2 peer → r.told peer = some r.codec

/-- Every guest was told the codec in use. -/
def OneCodec (r : Room C cfg) : Prop := ∀ g ∈ r.guests, g.2 = some r.codec

/-- With nobody admitted, the guests are among those there were. -/
theorem guests_of_installed {r : Room C cfg} {x : Env × Action} {g : SocketAddr × Option UInt8}
    (hinstalled : (step C x.1 r.machine x.2).session.history.installed =
      r.machine.session.history.installed) (hg : g ∈ (host C r x).guests) :
    ∃ p, (p, g.2) ∈ r.guests ∧ ¬ Leaves r.machine x p := by
  rcases hg with ⟨p, hp, hstay, -⟩ | ⟨e, he, -⟩
  · exact ⟨p, hp, hstay⟩
  · rw [hinstalled, newly_self] at he
    cases he

theorem oneCodec_step {r : Room C cfg} {x : Env × Action} (h : OneCodec r)
    (hosted : Hosted C x.1 r.machine x.2) (hx : KeepsCodec C r x) : OneCodec (host C r x) := by
  intro g hg
  have hsame (hagree : (step C x.1 r.machine x.2).session.agreement =
      r.machine.session.agreement) : (host C r x).codec = r.codec :=
    congrArg (fun a => a.2.1) hagree
  cases hosted with
  | stays hstay =>
    obtain ⟨p, hp, -⟩ := guests_of_installed hstay.installed hg
    rw [hsame hstay.agreement]
    exact h (p, g.2) hp
  | answers first hfirst hanswer =>
    obtain ⟨p, hp, -⟩ := guests_of_installed hanswer.installed hg
    have hcodec : (host C r x).codec = r.codec := by
      refine hanswer.codec.trans ?_
      cases hc : r.machine.session.answerCodec C x.1 first with
      | none => rfl
      | some codec =>
        rcases hx.greeting first codec hfirst hc with heq | hempty
        · exact heq
        · rw [hempty] at hp
          cases hp
    rw [hcodec]
    exact h (p, g.2) hp
  | takes peer hpeer htakes =>
    rw [hsame htakes.agreement]
    rcases hg with ⟨p, hp, -⟩ | ⟨e, he, -, htold⟩
    · exact h (p, g.2) hp
    · obtain ⟨e', hpeer', hnew⟩ := htakes.installed
      rw [hnew, ← List.singleton_append, newly_append] at he
      obtain rfl := List.mem_singleton.mp he
      rw [← htold, hpeer']
      exact hx.admission peer hpeer
  | reopens ha hclosed hinstalled hserves =>
    obtain ⟨p, hp, hstay⟩ := guests_of_installed hinstalled hg
    refine absurd ?_ hstay
    unfold Leaves
    rw [ha]
    exact hclosed

theorem serves_step {m : Machine C cfg} {a : Action} (h : Hosted C env m a) :
    (step C env m a).task.serves = true := by
  cases h with
  | stays h => exact h.serves
  | answers first hfirst h => exact h.serves
  | takes peer hpeer h => exact h.serves
  | reopens ha hclosed hinstalled hserves => exact hserves

/-- The calls of a host. -/
def Action.Hosts (a : Action) : Prop := ∀ peer, a ≠ .handshake .client peer

theorem oneCodec_run {r : Room C cfg} (hserves : r.machine.task.serves = true) (h : OneCodec r)
    (steps : List (Env × Action)) (hhost : ∀ x ∈ steps, x.2.Hosts)
    (hkeeps : Along (host C) (KeepsCodec C) r steps) : OneCodec (steps.foldl (host C) r) := by
  induction steps generalizing r with
  | nil => exact h
  | cons x steps ih =>
    have hosted := hosted C x.1 r.machine hserves (hhost x List.mem_cons_self)
    have hrest : ∀ y ∈ steps, y.2.Hosts := fun y hy => hhost y (List.mem_cons_of_mem x hy)
    exact ih (serves_step hosted) (oneCodec_step h hosted hkeeps.1) hrest hkeeps.2

/-- In a host's run whose steps keep the codec, every guest was told the codec
in use, whatever the clients prefer. -/
theorem one_codec (s : Session cfg) (steps : List (Env × Action))
    (hhost : ∀ x ∈ steps, x.2.Hosts)
    (hkeeps : Along (host C) (KeepsCodec C) (Room.empty (rest C s)) steps) :
    OneCodec (steps.foldl (host C) (Room.empty (rest C s))) := by
  exact oneCodec_run rfl (fun g hg => (Set.notMem_empty g hg).elim) steps hhost hkeeps

theorem guests_host_empty {r : Room C cfg} {a : Action} (h : r.guests = ∅)
    (hinstalled : (step C env r.machine a).session.history.installed =
      r.machine.session.history.installed) : (host C r (env, a)).guests = ∅ := by
  refine Set.eq_empty_of_forall_notMem fun g hg => ?_
  obtain ⟨p, hp, -⟩ := guests_of_installed hinstalled hg
  rw [h] at hp
  cases hp

/-- Who is admitted is a guest. -/
theorem mem_guests_of_installed {r : Room C cfg} {a : Action} {g : SocketAddr × Option UInt8}
    (he : ∃ e ∈ newly r.machine.session.history.installed
      (step C env r.machine a).session.history.installed, e.peer = g.1 ∧ r.told e.peer = g.2) :
    g ∈ (host C r (env, a)).guests := .inr he

/-- Who neither leaves nor moves stays a guest. -/
theorem mem_guests_of_stays {r : Room C cfg} {a : Action} {g : SocketAddr × Option UInt8}
    (hg : g ∈ r.guests) (hstays : ¬ Leaves r.machine (env, a) g.1)
    (hsame : moved (newly r.machine.session.history.switched
      (step C env r.machine a).session.history.switched) g.1 = g.1) :
    g ∈ (host C r (env, a)).guests := .inl ⟨g.1, hg, hstays, hsame⟩

section Examples

open Pairing

/-- A room before anybody is in it. -/
def lobby : Room Crypto.toy Config.default :=
  Room.empty (rest Crypto.toy (initial Config.default (Vector.replicate 8 0)))

/-- The room takes a guest in. -/
noncomputable def hosting : List (Env × Action) := (at' 0, .setMultiPeer true) :: steps

theorem awaitsKey_of_completes {m : Machine C cfg} {input : Input} {peer : SocketAddr}
    (h : Completes C m (.input input) peer) : m.task.awaitsKey = true := by
  cases h with
  | legacy htask => rw [htask]; rfl
  | noise htask => rw [htask]; rfl

theorem one_codec_pairing : OneCodec (hosting.foldl (host Crypto.toy) lobby) := by
  let r₁ := host Crypto.toy lobby (at' 0, .setMultiPeer true)
  let r₂ := host Crypto.toy r₁ (at' 1, .handshake .server guest)
  let r₃ := host Crypto.toy r₂ (at' 1, .input (.datagram guest helloDatagram))
  have hrun :
      (step Crypto.toy (at' 1) r₁.machine (.handshake .server guest)).session.history.installed =
          r₁.machine.session.history.installed ∧
        (step Crypto.toy (at' 1) r₂.machine
          (.input (.datagram guest helloDatagram))).session.history.installed =
          r₂.machine.session.history.installed ∧
        r₂.machine.task.awaitsKey = false ∧ r₃.machine.task.awaitsKey = true ∧
        r₃.waiting = some r₃.codec := by decide +kernel
  obtain ⟨hopened, hgreeted, hidle, hbusy, hwaiting⟩ := hrun
  have h₁ : r₁.guests = ∅ := guests_host_empty rfl rfl
  have h₂ : r₂.guests = ∅ := guests_host_empty h₁ hopened
  have h₃ : r₃.guests = ∅ := guests_host_empty h₂ hgreeted
  refine one_codec _ hosting (by simp [hosting, steps, Action.Hosts])
    ⟨⟨fun _ _ _ _ => .inr rfl, ?_⟩, ⟨fun _ _ _ _ => .inr h₁, ?_⟩,
      ⟨fun _ _ _ _ => .inr h₂, ?_⟩, ⟨fun _ _ _ _ => .inr h₃, ?_⟩, trivial⟩
  · intro peer hpeer
    cases hpeer
  · intro peer hpeer
    cases hpeer
  · intro peer hpeer
    exact Bool.noConfusion (hidle.symm.trans (awaitsKey_of_completes hpeer))
  · intro peer _
    exact (if_pos hbusy).trans hwaiting

def newcomer : SocketAddr := .v4 (Vector.replicate 4 7) 7

/-- The greeting of a guest that prefers another codec. -/
def otherHello : ClientHello :=
  { hello with ephemeralPublicKey := Vector.replicate 32 0, codecPreferred := 2 }

def otherHelloDatagram : Bytes :=
  PacketBuilder.bytes (PacketHeader.new MessageType.handshakeClientHello.code 0 0 0)
    otherHello.encode

def otherKeys : SessionKey × SessionKey :=
  Crypto.toy.deriveSessionKeys
    (Crypto.toy.x25519 (Vector.replicate 32 0) otherHello.ephemeralPublicKey) transcript

def otherKeyExchangeDatagram : Bytes :=
  PacketBuilder.bytes (PacketHeader.new MessageType.handshakeKeyExchange.code 1 1 0)
    (TagMsg.encode ⟨1, Crypto.toy.deriveAuthTag otherKeys.1 "GS-client-fin-v1" transcript⟩)

/-- Another guest comes in, which prefers another codec. -/
noncomputable def another : List (Env × Action) :=
  [(at' 2, .recv newcomer otherHelloDatagram),
    (at' 2, .input (.datagram newcomer otherKeyExchangeDatagram))]

theorem not_leaves_recv {m : Machine C cfg} {sender raw p} (hne : p ≠ sender) :
    ¬ Leaves m (env, .recv sender raw) p := by
  rintro ⟨hidle, hdeparts⟩
  cases hdeparts with
  | close raw' view hi => exact hne (arrival_recv hi).1
  | silent hi =>
    rw [(arrival_of_idle hidle sender raw).1] at hi
    cases hi

/-- Two guests of one room were told two codecs. -/
theorem one_codec_mixed :
    let r := (hosting ++ another).foldl (host Crypto.toy) lobby
    (∀ x ∈ hosting ++ another, x.2.Hosts) ∧ r.machine.session.settings.multiPeer = true ∧
      (guest, some 1) ∈ r.guests ∧ (newcomer, some 2) ∈ r.guests ∧ ¬ OneCodec r := by
  intro r
  let q := (hosting.take 3).foldl (host Crypto.toy) lobby
  let r₀ := host Crypto.toy q (at' 1, .input (.datagram guest keyExchangeDatagram))
  let r₁ := host Crypto.toy r₀ (at' 2, .recv newcomer otherHelloDatagram)
  let r₂ := host Crypto.toy r₁ (at' 2, .input (.datagram newcomer otherKeyExchangeDatagram))
  have hr : r = r₂ := by
    simp only [r, r₂, r₁, r₀, q, hosting, steps, another, List.take, List.foldl_append,
      List.foldl_cons, List.foldl_nil]
  have hrun :
      (∃ e ∈ newly q.machine.session.history.installed (step Crypto.toy (at' 1) q.machine
          (.input (.datagram guest keyExchangeDatagram))).session.history.installed,
        e.peer = guest ∧ q.told e.peer = some 1) ∧
      moved (newly r₀.machine.session.history.switched (step Crypto.toy (at' 2) r₀.machine
        (.recv newcomer otherHelloDatagram)).session.history.switched) guest = guest ∧
      moved (newly r₁.machine.session.history.switched (step Crypto.toy (at' 2) r₁.machine
        (.input (.datagram newcomer otherKeyExchangeDatagram))).session.history.switched) guest =
        guest ∧
      (∃ e ∈ newly r₁.machine.session.history.installed (step Crypto.toy (at' 2) r₁.machine
          (.input (.datagram newcomer otherKeyExchangeDatagram))).session.history.installed,
        e.peer = newcomer ∧ r₁.told e.peer = some 2) ∧
      r₂.machine.session.settings.multiPeer = true ∧ some 1 ≠ some r₂.codec := by
    decide +kernel
  obtain ⟨hadmitted, hstays, hstays', hadmitted', hmulti, hcodec⟩ := hrun
  have hfirst : (guest, some 1) ∈ r₀.guests := mem_guests_of_installed hadmitted
  have hmiddle : (guest, some 1) ∈ r₁.guests :=
    mem_guests_of_stays hfirst (not_leaves_recv (by decide)) hstays
  have hguest : (guest, some 1) ∈ r₂.guests := mem_guests_of_stays hmiddle id hstays'
  have hnewcomer : (newcomer, some 2) ∈ r₂.guests := mem_guests_of_installed hadmitted'
  rw [hr]
  refine ⟨by simp [hosting, another, steps, Action.Hosts], hmulti, hguest, hnewcomer, ?_⟩
  intro hone
  exact hcodec (hone _ hguest)

end Examples

end Machine
end GravitalTalk
