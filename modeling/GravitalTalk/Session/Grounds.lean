import GravitalTalk.Session.Journal

/-!
# Handshakes are accounted for

One step of a machine at a time: if all it has heard and derived is in a journal, then so is
the reason for every key it stores and every handshake message it sends.
-/
namespace GravitalTalk

variable {C : Crypto} {cfg : Config} {J J' : Journal}

/-- What a waiting handshake knows. A client waits only while nobody is being admitted. -/
def Task.Grounded (J : Journal) (s : Session cfg) : Task C → Prop
  | .idle => True
  | .waitFirst .. => True
  | .legacyKe _ peer wait => s.status.sessionId = wait.sessionId ∧
      J.Chosen C cfg peer s.status.negotiatedCodec ∧
      J.Means C cfg [] peer .handshakeServerHello wait.serverHello
  | .noiseKe _ peer pending => pending.Confirms ∧ s.status.sessionId = pending.sessionId ∧
      J.Chosen C cfg peer s.status.negotiatedCodec ∧
      J.Means C cfg [] peer .handshakeNoiseHello2 pending.msg2
  | .helloSent peer wait _ => s.pendingJoins = ∅ ∧
      J.Means C cfg [] peer .handshakeClientHello wait.payload
  | .noiseSent peer _ _ _ _ msg1 _ => s.pendingJoins = ∅ ∧
      J.Means C cfg [] peer .handshakeNoiseHello1 msg1
  | .confirm peer noise _ wait => s.pendingJoins = ∅ ∧ J.Named C peer wait.codec ∧
      (noise = true → s.status.sessionId = wait.sessionId ∧
        s.status.negotiatedCodec = wait.codec)

theorem Task.Grounded.of_eq {s t : Session cfg} {task : Task C} (h : task.Grounded J s)
    (hjoins : t.pendingJoins = s.pendingJoins) (hagree : t.agreement = s.agreement) :
    task.Grounded J t := by
  have hsid : t.status.sessionId = s.status.sessionId := congrArg Prod.fst hagree
  have hcodec : t.status.negotiatedCodec = s.status.negotiatedCodec :=
    congrArg (fun a => a.2.1) hagree
  cases task with
  | idle => trivial
  | waitFirst caller expect noise legacy cycle next => trivial
  | legacyKe caller peer wait =>
    unfold Task.Grounded at h ⊢
    rwa [hsid, hcodec]
  | noiseKe caller peer pending =>
    unfold Task.Grounded at h ⊢
    rwa [hsid, hcodec]
  | helloSent peer wait attempt =>
    unfold Task.Grounded at h ⊢
    rwa [hjoins]
  | noiseSent peer fallback hs nonce sid msg1 attempt =>
    unfold Task.Grounded at h ⊢
    rwa [hjoins]
  | confirm peer noise fallback wait =>
    unfold Task.Grounded at h ⊢
    rwa [hjoins, hsid, hcodec]

theorem Task.Grounded.sends {s t : Session cfg} {task : Task C} (h : task.Grounded J s)
    (hsend : s.SendsOnly t) : task.Grounded J t := by
  apply h.of_eq _ hsend.agreement
  rw [hsend.eq]

theorem Task.Grounded.mono {s : Session cfg} {task : Task C} (h : task.Grounded J s)
    (hJ : J.Within J') : task.Grounded J' s := by
  cases task with
  | idle => trivial
  | waitFirst caller expect noise legacy cycle next => trivial
  | legacyKe caller peer wait =>
    obtain ⟨hsid, hcodec, hmeans⟩ := h
    exact ⟨hsid, hcodec.mono hJ, hmeans.mono hJ (List.Subset.refl _)⟩
  | noiseKe caller peer pending =>
    obtain ⟨hconfirms, hsid, hcodec, hmeans⟩ := h
    exact ⟨hconfirms, hsid, hcodec.mono hJ, hmeans.mono hJ (List.Subset.refl _)⟩
  | helloSent peer wait attempt =>
    obtain ⟨hnone, hmeans⟩ := h
    exact ⟨hnone, hmeans.mono hJ (List.Subset.refl _)⟩
  | noiseSent peer fallback hs nonce sid msg1 attempt =>
    obtain ⟨hnone, hmeans⟩ := h
    exact ⟨hnone, hmeans.mono hJ (List.Subset.refl _)⟩
  | confirm peer noise fallback wait =>
    obtain ⟨hnone, hnamed, hstored⟩ := h
    exact ⟨hnone, hnamed.mono hJ, hstored⟩

namespace Machine

open Session

variable {env : Env} {s t : Session cfg} {peer : SocketAddr}

/-- The machine is accounted for, and so is what it has sent since `s`. -/
structure Vouches (env : Env) (J : Journal) (s : Session cfg) (m : Machine C cfg) : Prop where
  accounts : Accounts C env J s m.session
  task : m.task.Grounded J m.session

namespace Vouches

/-- What was sent before by the same operation. -/
theorem after {m : Machine C cfg} {installed : List Install} (h : Vouches env J t m)
    (hgreets : Greets env (J.Means C cfg installed) s t)
    (hinstalled : installed ⊆ m.session.history.installed) : Vouches env J s m := by
  have hbefore : Greets env (J.Means C cfg m.session.history.installed) s t :=
    hgreets.mono fun _ _ _ hmeans =>
      hmeans.mono ⟨List.Subset.refl _, subset_rfl, subset_rfl, id⟩ hinstalled
  exact ⟨⟨h.accounts.grounded, hbefore.trans h.accounts.greets⟩, h.task⟩

/-- The same, when no key was stored. -/
theorem sent {m : Machine C cfg} (h : Vouches env J t m)
    (hgreets : Greets env (J.Means C cfg []) s t) : Vouches env J s m :=
  h.after hgreets (List.nil_subset _)

theorem of_eq {m : Machine C cfg} (h : Vouches env J t m)
    (hsent : t.traffic.sent = s.traffic.sent) : Vouches env J s m := h.sent (.of_eq hsent)

/-- A machine that waits for nothing. -/
theorem rest (h : Accounts C env J s t) : Vouches env J s (rest C t) := ⟨h, trivial⟩

theorem same (h : Grounded C J s) : Vouches env J s (Machine.rest C s) := rest ⟨h, .refl s⟩

/-- A call that changes nothing of all this. -/
theorem rest_of_eq (h : Grounded C J s) (hinstalled : t.history.installed = s.history.installed)
    (hjoins : t.pendingJoins = s.pendingJoins)
    (hsid : t.status.sessionId = s.status.sessionId)
    (hsent : t.traffic.sent = s.traffic.sent) : Vouches env J s (Machine.rest C t) :=
  rest ⟨h.of_eq hinstalled hjoins hsid, .of_eq hsent⟩

end Vouches

/-! ## Servers -/

theorem greets_announce {Q : SocketAddr → MessageType → Bytes → Prop} (C : Crypto) (env : Env)
    (cycle : ℕ) (s : Session cfg) : Greets env Q s (announce C env cycle s) := by
  have hhint (sweep : Bool) (hint : SocketAddr) (s : Session cfg) :
      Greets env Q s (punchHint C env sweep hint s) := by
    unfold punchHint
    dsimp only
    split_ifs
    · exact (greets_sendRv _ _ s).trans (greets_punchNeighbours _ _ _)
    · exact greets_sendRv _ _ s
  unfold announce
  dsimp only
  refine Greets.trans ?_ (Greets.foldl (fun s hint => hhint _ hint s) _ _)
  split
  · rfl
  · split_ifs
    · exact (greets_sendRv _ _ s).trans (greets_control (by decide) _ _ _ _)
    · exact greets_sendRv _ _ s

theorem vouches_waitHead (h : Grounded C J s) (caller : Caller) (expect : Option SocketAddr)
    (noise legacy : Bool) (cycle next : ℕ) :
    Vouches env J s (waitHead C env caller expect noise legacy cycle next s) := by
  unfold waitHead
  split_ifs
  · exact ⟨⟨h.sends (sendsOnly_announce C env cycle s), greets_announce C env cycle s⟩, trivial⟩
  · exact ⟨⟨h, .refl s⟩, trivial⟩

theorem vouches_retryAccept (h : Grounded C J s) : Vouches env J s (retryAccept C env s) := by
  unfold retryAccept
  dsimp only
  split_ifs
  · exact .rest_of_eq h rfl rfl rfl rfl
  · refine Vouches.of_eq (vouches_waitHead ?_ _ _ _ _ _ _) rfl
    exact h.of_eq rfl rfl rfl

theorem vouches_finished (h : Grounded C J s) (caller : Caller) (peer : Option SocketAddr)
    (result : Except TransportError Unit) :
    Vouches env J s (finished C env caller peer result s) := by
  unfold finished
  split
  · exact .rest_of_eq h rfl rfl rfl rfl
  · exact .rest_of_eq h rfl rfl rfl rfl
  · exact .rest_of_eq h rfl rfl rfl rfl
  · exact .rest_of_eq h rfl rfl rfl rfl
  · exact vouches_retryAccept h
  · exact .same h
  · exact .same h
  · split
    · exact .rest_of_eq h rfl rfl rfl rfl
    · exact .same h

theorem vouches_unlessClosed (h : Grounded C J s) (caller : Caller) (peer : Option SocketAddr)
    {task : Task C} (htask : task.Grounded J s) :
    Vouches env J s (unlessClosed C env caller peer s task) := by
  unfold unlessClosed
  split_ifs
  · exact vouches_finished h _ _ _
  · exact ⟨⟨h, .refl s⟩, htask⟩

theorem vouches_beginNoise {msg1 : Bytes} (h : Grounded C J s) (caller : Caller)
    (hheard : J.Heard peer .handshakeNoiseHello1 msg1) :
    Vouches env J s (beginNoise C env caller peer msg1 s) := by
  have hbegin := h.noiseServerBegin env msg1
  have hsent := sent_noiseServerBegin C env msg1 s
  unfold beginNoise
  split
  · rename_i e t ht
    rw [ht] at hbegin hsent
    exact (vouches_finished hbegin _ _ _).of_eq hsent
  · rename_i p t ht
    obtain ⟨hconfirms, -, hsid⟩ := noiseServerBegin_confirms ht
    obtain ⟨hchosen, hmeans⟩ := noiseServerBegin_means ht hheard
    rw [ht] at hbegin hsent
    split
    · rename_i e u hu
      have hsend := sendsOnly_of_sendControl hu
      have hgreets : Greets env (J.Means C cfg []) t u := greets_of_sendControl hu rfl nofun
      exact ((vouches_finished (hbegin.sends hsend) _ _ _).sent hgreets).of_eq hsent
    · rename_i u hu
      have hsend := sendsOnly_of_sendControl hu
      have hgreets : Greets env (J.Means C cfg []) t u :=
        greets_of_sendControl hu rfl fun _ => hmeans
      have htask : (Task.noiseKe caller peer p : Task C).Grounded J t :=
        ⟨hconfirms, hsid, hchosen, hmeans⟩
      have hgoes : Vouches env J u (unlessClosed C env caller peer u (.noiseKe caller peer p)) :=
        vouches_unlessClosed (hbegin.sends hsend) _ _ (htask.sends hsend)
      exact (hgoes.sent hgreets).of_eq hsent

theorem vouches_beginLegacy {hello : ClientHello} (h : Grounded C J s) (caller : Caller)
    (hheard : FirstHandshake.HeardFrom J peer (.legacy hello)) :
    Vouches env J s (beginLegacy C env caller peer hello s) := by
  have hbegin := h.legacyServerBegin env peer hello
  have hgreets := greets_legacyServerBegin C env hello s hheard
  unfold beginLegacy
  split
  · rename_i e t ht
    rw [ht] at hbegin hgreets
    exact (vouches_finished hbegin _ _ _).sent hgreets
  · rename_i w t ht
    have htask : (Task.legacyKe caller peer w : Task C).Grounded J t :=
      legacyServerBegin_means ht hheard
    rw [ht] at hbegin hgreets
    exact (vouches_unlessClosed hbegin _ _ htask).sent hgreets

theorem vouches_beginServer {first : FirstHandshake} (h : Grounded C J s) (caller : Caller)
    (hfirst : first.HeardFrom J peer) :
    Vouches env J s (beginServer C env caller peer s first) := by
  cases first with
  | noise msg1 => exact vouches_beginNoise h caller hfirst
  | legacy hello => exact vouches_beginLegacy h caller hfirst

/-- A reply that was heard. -/
theorem heard_of_isReply {msg : MessageType} {sender : SocketAddr} {raw : Bytes}
    {view : PacketView} (h : isReply peer msg sender raw = some view)
    (hraw : (sender, raw) ∈ J.heard) : J.Heard peer msg view.payload := by
  unfold isReply at h
  split_ifs at h with hsender
  rw [not_not] at hsender
  subst hsender
  cases hdecode : PacketView.decode raw with
  | error e =>
    rw [hdecode] at h
    cases h
  | ok found =>
    rw [hdecode] at h
    dsimp only at h
    split_ifs at h with hcode
    cases h
    exact ⟨raw, hraw, view, hdecode, hcode, rfl⟩

theorem heardFrom_of_firstMessage {noise legacy : Bool} {sender : SocketAddr} {raw : Bytes}
    {view : PacketView} {first : FirstHandshake} (hview : PacketView.decode raw = .ok view)
    (hraw : (sender, raw) ∈ J.heard) (h : firstMessage noise legacy view = some first) :
    first.HeardFrom J sender := by
  unfold firstMessage at h
  split_ifs at h with hnoise hlegacy
  · cases h
    simp only [Bool.and_eq_true, beq_iff_eq] at hnoise
    exact ⟨raw, hraw, view, hview, hnoise.2, rfl⟩
  · simp only [Bool.and_eq_true, beq_iff_eq] at hlegacy
    split at h
    · rename_i hello hdecode
      cases h
      exact ⟨_, ⟨raw, hraw, view, hview, hlegacy.2, rfl⟩, hdecode⟩
    · cases h

theorem heardFrom_of_hearFirst {expect : Option SocketAddr} {noise legacy : Bool}
    {sender : SocketAddr} {raw : Bytes} {first : FirstHandshake}
    (hraw : (sender, raw) ∈ J.heard)
    (h : hearFirst C env expect noise legacy sender raw s = (some first, t)) :
    t = s ∧ first.HeardFrom J sender := by
  unfold hearFirst at h
  split at h
  · cases h
  · split at h
    · cases h
    · split at h
      · cases h
      · rename_i view hview
        obtain ⟨hfirst, rfl⟩ := Prod.ext_iff.mp h
        exact ⟨rfl, heardFrom_of_firstMessage hview hraw hfirst⟩

theorem vouches_onWaitFirst (h : Grounded C J s) (caller : Caller) (expect : Option SocketAddr)
    (noise legacy : Bool) (cycle next : ℕ) (input : Input)
    (hinput : ∀ sender raw, input = .datagram sender raw → (sender, raw) ∈ J.heard) :
    Vouches env J s (onWaitFirst C env caller expect noise legacy cycle next input s) := by
  have hagain {t : Session cfg} (ht : Grounded C J t) : Vouches env J t (if t.status.closed then
      finished C env caller none (.error (.peerClosed "session closed")) t
      else waitHead C env caller expect noise legacy cycle next t) := by
    split_ifs
    · exact vouches_finished ht _ _ _
    · exact vouches_waitHead ht _ _ _ _ _ _
  cases input with
  | datagram sender raw =>
    cases hhear : hearFirst C env expect noise legacy sender raw s with
    | mk first t =>
      cases first with
      | none =>
        rw [onWaitFirst_none hhear]
        have hgreets : Greets env (J.Means C cfg []) s t := by
          have hall : Greets env (J.Means C cfg []) s
              (hearFirst C env expect noise legacy sender raw s).2 := by
            unfold hearFirst
            split
            · split
              · exact greets_onRendezvous raw sender s
              · rfl
            · split
              · rfl
              · split
                · rfl
                · rfl
          rwa [hhear] at hall
        have ht : Grounded C J t := by
          have hrx := rx_hearFirst C env expect noise legacy sender raw s
          rw [hhear] at hrx
          rcases hrx with heq | ⟨-, hrx⟩
          · rwa [show t = s from heq]
          · exact h.keeps hrx.keeps
        exact (hagain ht).sent hgreets
      | some first =>
        obtain ⟨rfl, hfirst⟩ := heardFrom_of_hearFirst (hinput sender raw rfl) hhear
        have hpeer : Grounded C J (registerPeer caller sender t) ∧
            (registerPeer caller sender t).traffic.sent = t.traffic.sent := by
          unfold registerPeer
          split_ifs
          · exact ⟨h.of_eq rfl rfl rfl, rfl⟩
          · exact ⟨h, rfl⟩
        unfold onWaitFirst
        simp only [hhear]
        exact (vouches_beginServer hpeer.1 caller hfirst).of_eq hpeer.2
  | timeout => exact hagain h
  | ioError e => exact vouches_finished h caller none (.error e)
  | expire =>
    unfold onWaitFirst
    dsimp only
    split_ifs
    · exact vouches_finished h _ _ _
    · exact ⟨⟨h, .refl s⟩, trivial⟩

/-- A server that waits for the answer to its message `resend`. -/
theorem vouches_onKeyExchange (h : Grounded C J s) (caller : Caller) (greeting : MessageType)
    {resend : Session cfg → Except TransportError Unit × Session cfg}
    {finish : KeyExchangeMsg → Session cfg → Except TransportError Unit × Session cfg}
    {task : Task C} (input : Input)
    (hinput : ∀ sender raw, input = .datagram sender raw → (sender, raw) ∈ J.heard)
    (hresend : ∀ {r t}, resend s = (r, t) → SendsOnly s t ∧ Greets env (J.Means C cfg []) s t)
    (hfinish : ∀ {ke payload}, J.Heard peer .handshakeKeyExchange payload →
      TagMsg.decode payload = .ok ke → Accounts C env J s (finish ke s).2)
    (htask : task.Grounded J s) :
    Vouches env J s (onKeyExchange C env caller peer greeting resend finish task input s) := by
  unfold onKeyExchange
  split
  · rename_i sender raw
    split
    · split
      · rename_i e t ht
        obtain ⟨hsend, hgreets⟩ := hresend ht
        exact (vouches_finished (h.sends hsend) _ _ _).sent hgreets
      · rename_i t ht
        obtain ⟨hsend, hgreets⟩ := hresend ht
        exact (vouches_unlessClosed (h.sends hsend) _ _ (htask.sends hsend)).sent hgreets
    · split
      · exact vouches_unlessClosed h _ _ htask
      · rename_i view hview
        have hheard := heard_of_isReply hview (hinput sender raw rfl)
        split
        · exact vouches_finished h _ _ _
        · rename_i ke hke
          have hfinal := hfinish hheard hke
          have hend : Vouches env J (finish ke s).2
              (finished C env caller peer (finish ke s).1 (finish ke s).2) :=
            vouches_finished hfinal.grounded _ _ _
          have hsame := stays_finished C env caller (some peer) (finish ke s).1 (finish ke s).2
          refine hend.after hfinal.greets ?_
          rw [hsame.installed]
          exact List.Subset.refl _
  · exact vouches_unlessClosed h _ _ htask
  · exact vouches_finished h _ _ _
  · split_ifs
    · exact vouches_finished h _ _ _
    · exact ⟨⟨h, .refl s⟩, htask⟩

/-! ## Clients -/

theorem vouches_clientEnded (h : Grounded C J s) (result : Except TransportError Unit) :
    Vouches env J s (clientEnded C result s) := by
  cases result with
  | ok _ => exact .rest_of_eq h rfl rfl rfl rfl
  | error _ => exact .rest_of_eq h rfl rfl rfl rfl

theorem vouches_sendHello {wait : HelloWait} (h : Grounded C J s) (hnone : s.pendingJoins = ∅)
    (hmeans : J.Means C cfg [] peer .handshakeClientHello wait.payload) (attempt : ℕ) :
    Vouches env J s (sendHello C env peer wait attempt s) := by
  unfold sendHello
  split
  · rename_i e t ht
    have hgreets : Greets env (J.Means C cfg []) s t := greets_of_sendControl ht rfl nofun
    exact (vouches_clientEnded (h.sends (sendsOnly_of_sendControl ht)) _).sent hgreets
  · rename_i t ht
    have hsend := sendsOnly_of_sendControl ht
    have htask : (Task.helloSent peer wait attempt : Task C).Grounded J s := ⟨hnone, hmeans⟩
    have hgreets : Greets env (J.Means C cfg t.history.installed) s t :=
      greets_of_sendControl ht rfl fun _ =>
        hmeans.mono ⟨List.Subset.refl _, subset_rfl, subset_rfl, id⟩ (List.nil_subset _)
    exact ⟨⟨h.sends hsend, hgreets⟩, htask.sends hsend⟩

theorem vouches_startLegacyClient (h : Grounded C J s) (hnone : s.pendingJoins = ∅) :
    Vouches env J s (startLegacyClient C env peer s) :=
  vouches_sendHello h hnone (.clientHello rfl) 0

theorem vouches_noiseEnded (h : Grounded C J s) (hnone : s.pendingJoins = ∅) (fallback : Bool)
    (e : TransportError) : Vouches env J s (noiseEnded C env peer fallback e s) := by
  unfold noiseEnded
  split_ifs
  · exact vouches_startLegacyClient h hnone
  · exact vouches_clientEnded h _

theorem vouches_sendNoise {msg1 : Bytes} (h : Grounded C J s) (hnone : s.pendingJoins = ∅)
    (hmeans : J.Means C cfg [] peer .handshakeNoiseHello1 msg1) (fallback : Bool) (hs : C.Noise)
    (nonce : Vector UInt8 32) (sid : UInt32) (attempt : ℕ) :
    Vouches env J s (sendNoise C env peer fallback hs nonce sid msg1 attempt s) := by
  unfold sendNoise
  split_ifs
  · exact vouches_clientEnded h _
  · exact vouches_noiseEnded h hnone _ _
  · split
    · rename_i e t ht
      have hsend := sendsOnly_of_sendControl ht
      have hgreets : Greets env (J.Means C cfg []) s t := greets_of_sendControl ht rfl nofun
      have hstill : t.pendingJoins = ∅ := by rwa [hsend.eq]
      exact (vouches_noiseEnded (h.sends hsend) hstill _ _).sent hgreets
    · rename_i t ht
      have hsend := sendsOnly_of_sendControl ht
      have htask : (Task.noiseSent peer fallback hs nonce sid msg1 attempt : Task C).Grounded J s :=
        ⟨hnone, hmeans⟩
      have hgreets : Greets env (J.Means C cfg t.history.installed) s t :=
        greets_of_sendControl ht rfl fun _ =>
          hmeans.mono ⟨List.Subset.refl _, subset_rfl, subset_rfl, id⟩ (List.nil_subset _)
      exact ⟨⟨h.sends hsend, hgreets⟩, htask.sends hsend⟩

theorem vouches_startNoiseClient (h : Grounded C J s) (hnone : s.pendingJoins = ∅)
    (fallback : Bool) : Vouches env J s (startNoiseClient C env peer fallback s) := by
  unfold startNoiseClient
  split
  · exact vouches_noiseEnded h hnone _ _
  · rename_i hs msg1 hbegin
    have hmeans : J.Means C cfg [] peer .handshakeNoiseHello1 msg1 := by
      unfold noiseClientBegin at hbegin
      split at hbegin
      · cases hbegin
      · split at hbegin
        · cases hbegin
        · rename_i hwrite
          cases hbegin
          have hcodec :
              (noiseClientHello cfg env.nonce32).codecPreferred = cfg.codecPreferred := rfl
          exact .noiseHello1 hcodec hwrite
    exact vouches_sendNoise h hnone hmeans _ _ _ _ _

theorem vouches_startClient (h : Grounded C J s) (hnone : s.pendingJoins = ∅) :
    Vouches env J s (startClient C env peer s) := by
  unfold startClient
  split
  · exact vouches_startLegacyClient h hnone
  · exact vouches_startNoiseClient h hnone _
  · exact vouches_startNoiseClient h hnone _

/-- A key exchange goes out only with the keys it speaks of. -/
theorem greets_clientAnswer {Q : SocketAddr → MessageType → Bytes → Prop} {wait : HelloWait}
    {payload : Bytes} {r : Except TransportError ConfirmWait}
    (h : s.clientAnswer C env peer wait payload = (r, t))
    (hQ : ∀ w, r = .ok w → Q peer .handshakeKeyExchange
      (TagMsg.encode ⟨w.sessionId, (w.bond C false).clientTag⟩)) :
    Greets env Q s t ∧ SendsOnly s t ∧ ∀ w, r = .ok w →
      ∃ hello, ServerHello.decode payload = .ok hello ∧ hello.codecAccepted = w.codec := by
  unfold clientAnswer at h
  split at h
  · cases h
    exact ⟨.refl s, .refl s, nofun⟩
  · rename_i hello hdecode
    split at h
    · cases h
      exact ⟨.refl s, .refl s, nofun⟩
    · split at h
      · cases h
        exact ⟨.refl s, .refl s, nofun⟩
      · split at h
        · cases h
          exact ⟨.refl s, .refl s, nofun⟩
        · dsimp only at h
          split at h
          · rename_i e u hu
            cases h
            exact ⟨greets_of_sendControl hu rfl nofun, sendsOnly_of_sendControl hu, nofun⟩
          · rename_i u hu
            cases h
            refine ⟨greets_of_sendControl hu rfl fun _ => hQ _ rfl,
              sendsOnly_of_sendControl hu, ?_⟩
            intro w hw
            cases hw
            exact ⟨hello, hdecode, rfl⟩

theorem greets_noiseClientAnswer {Q : SocketAddr → MessageType → Bytes → Prop} {hs : C.Noise}
    {nonce : Vector UInt8 32} {sid : UInt32} {hello2 : NoiseHello2}
    {r : Except TransportError ConfirmWait}
    (h : s.noiseClientAnswer C env peer hs nonce sid hello2 = (r, t))
    (hQ : ∀ w, r = .ok w → Q peer .handshakeKeyExchange
      (TagMsg.encode ⟨w.sessionId, (w.bond C true).clientTag⟩)) :
    Greets env Q s t ∧ ∀ w, r = .ok w → hello2.codecAccepted = w.codec ∧
      t.status.sessionId = w.sessionId ∧ t.status.negotiatedCodec = w.codec := by
  unfold noiseClientAnswer at h
  split at h
  · cases h
    exact ⟨.refl s, nofun⟩
  · split at h
    · cases h
      exact ⟨.refl s, nofun⟩
    · split at h
      · cases h
        exact ⟨.refl s, nofun⟩
      · split at h
        · cases h
          exact ⟨.refl s, nofun⟩
        · dsimp only at h
          split at h
          · rename_i e u hu
            cases h
            exact ⟨(greets_of_sendControl hu rfl nofun).after rfl, nofun⟩
          · rename_i u hu
            have hstatus := (sendsOnly_of_sendControl hu).status
            cases h
            refine ⟨(greets_of_sendControl hu rfl fun _ => hQ _ rfl).after rfl, ?_⟩
            intro w hw
            cases hw
            rw [hstatus]
            exact ⟨rfl, rfl, rfl⟩

theorem vouches_onHelloSent {wait : HelloWait} {attempt : ℕ} (h : Grounded C J s)
    (htask : (Task.helloSent peer wait attempt : Task C).Grounded J s) (input : Input)
    (hinput : ∀ sender raw, input = .datagram sender raw → (sender, raw) ∈ J.heard)
    (hpost : (onHelloSent C env peer wait attempt input s).clientBonds ⊆ J.clients) :
    Vouches env J s (onHelloSent C env peer wait attempt input s) := by
  cases input with
  | datagram sender raw =>
    cases hreply : isReply peer .handshakeServerHello sender raw with
    | none =>
      simp only [onHelloSent, hreply]
      exact ⟨⟨h, .refl s⟩, htask⟩
    | some view =>
      have hheard := heard_of_isReply hreply (hinput sender raw rfl)
      cases hanswer : s.clientAnswer C env peer wait view.payload with
      | mk r t =>
        cases r with
        | error e =>
          obtain ⟨hgreets, hsend, -⟩ := greets_clientAnswer (Q := J.Means C cfg []) hanswer nofun
          simp only [onHelloSent, hreply, hanswer]
          exact (vouches_clientEnded (h.sends hsend) _).sent hgreets
        | ok w =>
          simp only [onHelloSent, hreply, hanswer] at hpost ⊢
          have hbond : w.bond C false ∈ J.clients := hpost rfl
          obtain ⟨hgreets, hsend, hnamed⟩ :=
            greets_clientAnswer (Q := J.Means C cfg t.history.installed) hanswer <| by
              intro w' hw'
              cases hw'
              exact .keyExchange hbond
          obtain ⟨hello, hdecode, hcodec⟩ := hnamed w rfl
          refine ⟨⟨h.sends hsend, hgreets⟩, ?_, .legacy hheard hdecode hcodec, nofun⟩
          rw [hsend.eq]
          exact htask.1
  | timeout =>
    unfold onHelloSent
    dsimp only
    split_ifs
    · exact vouches_clientEnded h _
    · exact vouches_sendHello h htask.1 htask.2 _
  | ioError e => exact vouches_clientEnded h (.error e)
  | expire => exact vouches_clientEnded h (.error .timeout)

theorem vouches_onNoiseSent {fallback : Bool} {hs : C.Noise} {nonce : Vector UInt8 32}
    {sid : UInt32} {msg1 : Bytes} {attempt : ℕ} (h : Grounded C J s)
    (htask : (Task.noiseSent peer fallback hs nonce sid msg1 attempt : Task C).Grounded J s)
    (input : Input)
    (hinput : ∀ sender raw, input = .datagram sender raw → (sender, raw) ∈ J.heard)
    (hpost : (onNoiseSent C env peer fallback hs nonce sid msg1 attempt input s).clientBonds ⊆
      J.clients) :
    Vouches env J s (onNoiseSent C env peer fallback hs nonce sid msg1 attempt input s) := by
  obtain ⟨hnone, hmeans⟩ := htask
  cases input with
  | datagram sender raw =>
    cases hreply : isReply peer .handshakeNoiseHello2 sender raw with
    | none =>
      simp only [onNoiseSent, hreply]
      exact ⟨⟨h, .refl s⟩, hnone, hmeans⟩
    | some view =>
      have hheard := heard_of_isReply hreply (hinput sender raw rfl)
      cases hread : C.noiseRead hs view.payload with
      | none =>
        simp only [onNoiseSent, hreply, hread]
        exact vouches_noiseEnded h hnone _ _
      | some r =>
        obtain ⟨payload, hs'⟩ := r
        cases hdecode : NoiseHello2.decode payload with
        | error e =>
          simp only [onNoiseSent, hreply, hread, hdecode]
          exact vouches_sendNoise h hnone hmeans _ _ _ _ _
        | ok hello2 =>
          have hcalm := (steady_noiseClientAnswer C env peer hs' nonce sid hello2 s).calm
          cases hanswer : s.noiseClientAnswer C env peer hs' nonce sid hello2 with
          | mk r t =>
            rw [hanswer] at hcalm
            have hstill : t.pendingJoins = ∅ := hcalm.pendingJoins.trans hnone
            have ht : Grounded C J t := h.alone (congrArg History.installed hcalm.history) hstill
            cases r with
            | error e =>
              obtain ⟨hgreets, -⟩ := greets_noiseClientAnswer (Q := J.Means C cfg []) hanswer nofun
              simp only [onNoiseSent, hreply, hread, hdecode, hanswer]
              exact (vouches_noiseEnded ht hstill _ _).sent hgreets
            | ok w =>
              simp only [onNoiseSent, hreply, hread, hdecode, hanswer] at hpost ⊢
              have hbond : w.bond C true ∈ J.clients := hpost rfl
              obtain ⟨hgreets, hstored⟩ :=
                greets_noiseClientAnswer (Q := J.Means C cfg t.history.installed) hanswer <| by
                  intro w' hw'
                  cases hw'
                  exact .keyExchange hbond
              obtain ⟨hcodec, hsid, hnegotiated⟩ := hstored w rfl
              exact ⟨⟨ht, hgreets⟩, hstill, .noise hheard hread hdecode hcodec,
                fun _ => ⟨hsid, hnegotiated⟩⟩
  | timeout => exact vouches_sendNoise h hnone hmeans _ _ _ _ _
  | ioError e => exact vouches_noiseEnded h hnone _ _
  | expire => exact vouches_noiseEnded h hnone _ _

/-- The last message of a client's handshake is not answered. -/
theorem silent_clientFinish (C : Crypto) (env : Env) (peer : SocketAddr) (wait : ConfirmWait)
    (payload : Bytes) (s : Session cfg) :
    (s.clientFinish C env peer wait payload).2.traffic.sent = s.traffic.sent ∧
      (s.clientFinish C env peer wait payload).2.pendingJoins = s.pendingJoins := by
  unfold clientFinish
  split
  · exact ⟨rfl, rfl⟩
  · split_ifs
    · exact ⟨rfl, rfl⟩
    · exact ⟨rfl, rfl⟩
    · exact ⟨rfl, rfl⟩

theorem silent_noiseClientFinish (C : Crypto) (env : Env) (peer : SocketAddr) (wait : ConfirmWait)
    (payload : Bytes) (s : Session cfg) :
    (s.noiseClientFinish C env peer wait payload).2.traffic.sent = s.traffic.sent ∧
      (s.noiseClientFinish C env peer wait payload).2.pendingJoins = s.pendingJoins := by
  unfold noiseClientFinish
  split
  · exact ⟨rfl, rfl⟩
  · split_ifs
    · exact ⟨rfl, rfl⟩
    · exact ⟨rfl, rfl⟩
    · exact ⟨rfl, rfl⟩

theorem vouches_onConfirm {noise fallback : Bool} {wait : ConfirmWait} (h : Grounded C J s)
    (htask : (Task.confirm peer noise fallback wait : Task C).Grounded J s)
    (hbond : wait.bond C noise ∈ J.clients) (input : Input)
    (hinput : ∀ sender raw, input = .datagram sender raw → (sender, raw) ∈ J.heard) :
    Vouches env J s (onConfirm C env peer noise fallback wait input s) := by
  obtain ⟨hnone, hnamed, hstored⟩ := htask
  have hfailed (e : TransportError) {t : Session cfg} (ht : Grounded C J t)
      (hstill : t.pendingJoins = ∅) :
      Vouches env J t (if noise then noiseEnded C env peer fallback e t
        else clientEnded C (.error e) t) := by
    split_ifs
    · exact vouches_noiseEnded ht hstill _ _
    · exact vouches_clientEnded ht _
  unfold onConfirm
  dsimp only
  split
  · rename_i sender raw
    split
    · exact ⟨⟨h, .refl s⟩, hnone, hnamed, hstored⟩
    · rename_i view hview
      have hheard := heard_of_isReply hview (hinput sender raw rfl)
      have hr : Grounded C J (if noise then s.noiseClientFinish C env peer wait view.payload
          else s.clientFinish C env peer wait view.payload).2 ∧
          (if noise then s.noiseClientFinish C env peer wait view.payload
            else s.clientFinish C env peer wait view.payload).2.traffic.sent = s.traffic.sent ∧
          (if noise then s.noiseClientFinish C env peer wait view.payload
            else s.clientFinish C env peer wait view.payload).2.pendingJoins = ∅ := by
        split_ifs with hnoise
        · subst hnoise
          obtain ⟨hsid, hnegotiated⟩ := hstored rfl
          obtain ⟨hsent, hjoins⟩ := silent_noiseClientFinish C env peer wait view.payload s
          have hend : Accounts C env J s (s.noiseClientFinish C env peer wait view.payload).2 :=
            accounts_noiseClientFinish h hbond hnamed hsid hnegotiated hheard
          exact ⟨hend.grounded, hsent, hjoins.trans hnone⟩
        · rw [Bool.not_eq_true] at hnoise
          subst hnoise
          obtain ⟨hsent, hjoins⟩ := silent_clientFinish C env peer wait view.payload s
          have hend : Accounts C env J s (s.clientFinish C env peer wait view.payload).2 :=
            accounts_clientFinish h hnone hbond hnamed hheard
          exact ⟨hend.grounded, hsent, hjoins.trans hnone⟩
      split
      · rename_i e t ht
        rw [ht] at hr
        exact (hfailed e hr.1 hr.2.2).of_eq hr.2.1
      · rename_i t ht
        rw [ht] at hr
        exact (vouches_clientEnded hr.1 _).of_eq hr.2.1
  · exact ⟨⟨h, .refl s⟩, hnone, hnamed, hstored⟩
  · exact hfailed _ h hnone
  · exact hfailed _ h hnone

/-! ## Rooms -/

/-- A room answers a greeting in its receive loop. -/
theorem accounts_beginJoin {msg1 : Bytes} (h : Grounded C J s) (hrooms : J.rooms)
    (hrunning : s.status.sessionId ≠ 0) (hheard : J.Heard peer .handshakeNoiseHello1 msg1) :
    Accounts C env J s (s.beginJoin C env peer msg1) := by
  have hkept := h.kept env
  rw [beginJoin_eq]
  cases hfilter : ((kept env s).lookup peer).filter (fun p => p.msg1 == msg1) with
  | some p =>
    have hp : J.Admits C cfg s.status.sessionId peer p :=
      hkept.joins peer p (Option.filter_eq_some_iff.mp hfilter).1
    have hsend := sendsOnly_sendControl env .handshakeNoiseHello2 p.sessionId p.msg2 peer
      { s with pendingJoins := kept env s }
    refine ⟨hkept.sends hsend, ?_⟩
    refine (greets_sendControl _ _ _ _ _ (fun _ _ => ?_) (.inl rfl)).after rfl
    exact hp.answer.mono ⟨List.Subset.refl _, subset_rfl, subset_rfl, id⟩ (List.nil_subset _)
  | none =>
    dsimp only
    split
    · exact ⟨hkept, .of_eq rfl⟩
    · have hbegin := hkept.noiseServerBegin env msg1
      have hsent := sent_noiseServerBegin C env msg1 { s with pendingJoins := kept env s }
      split
      · rename_i e t ht
        rw [ht] at hbegin hsent
        exact ⟨hbegin, .of_eq hsent⟩
      · rename_i p t ht
        obtain ⟨hconfirms, hresolved, hsid⟩ := noiseServerBegin_confirms ht
        have hanswer := (noiseServerBegin_means ht hheard).2
        rw [ht] at hbegin hsent
        have hstays : t.status.sessionId = s.status.sessionId := by
          rw [hsid, hresolved]
          exact if_pos hrunning
        have hadmits : J.Admits C cfg t.status.sessionId peer p := by
          refine ⟨hrooms, hconfirms, hanswer, hsid.symm, ?_⟩
          rw [hstays]
          exact hrunning
        have hsend := sendsOnly_sendControl env .handshakeNoiseHello2 p.sessionId p.msg2 peer
          { t with pendingJoins := t.pendingJoins.insert peer p }
        refine ⟨(hbegin.joining hadmits).sends hsend, ?_⟩
        refine (greets_sendControl _ _ _ _ _ (fun _ _ => ?_) (.inl rfl)).after hsent
        exact hanswer.mono ⟨List.Subset.refl _, subset_rfl, subset_rfl, id⟩ (List.nil_subset _)

/-- The last message of an admission. -/
theorem accounts_finishJoin {view : PacketView} {raw : Bytes} (h : Grounded C J s)
    (hbonds : ∀ a p b, s.pendingJoins.lookup a = some p → p.bond = some b → b ∈ J.servers)
    (hview : PacketView.decode raw = .ok view) (hraw : (peer, raw) ∈ J.heard) :
    Accounts C env J s (s.finishJoin env view peer).2 := by
  unfold finishJoin
  split_ifs with htype
  · exact ⟨h, .refl s⟩
  · rw [not_not] at htype
    have hheard : J.Heard peer .handshakeKeyExchange view.payload :=
      ⟨raw, hraw, view, hview, htype, rfl⟩
    split
    · exact ⟨h, .refl s⟩
    · rename_i p hp
      have hadmits := h.joins peer p hp
      dsimp only
      split
      · exact ⟨h.erase peer, .of_eq rfl⟩
      · rename_i ke hke
        have hend : Accounts C env J { s with pendingJoins := s.pendingJoins.erase peer }
            (noiseServerFinish env peer p ke
              { s with pendingJoins := s.pendingJoins.erase peer }).2 :=
          accounts_noiseServerFinish (h.erase peer) hadmits.confirms
            (fun b hb => hbonds peer p b hp hb) hadmits.sessionId.symm (.inl hadmits.rooms)
            hheard hke
        split
        · rename_i e t ht
          rw [ht] at hend
          exact ⟨hend.grounded, hend.greets.after rfl⟩
        · rename_i t ht
          rw [ht] at hend
          exact ⟨hend.grounded.of_eq rfl rfl rfl, (hend.greets.after rfl).before rfl⟩

/-- The greeting of somebody new to a room. -/
theorem heardFrom_of_peekNewPeer {view : PacketView} {raw : Bytes} {first : FirstHandshake}
    (hview : PacketView.decode raw = .ok view) (hraw : (peer, raw) ∈ J.heard)
    (h : s.peekNewPeer view peer = some first) :
    first.HeardFrom J peer ∧ s.settings.multiPeer = true ∧ s.status.sessionId ≠ 0 := by
  unfold peekNewPeer at h
  dsimp only at h
  split at h
  · cases h
  · rename_i hroom
    have hmulti : s.settings.multiPeer = true := by
      rw [Bool.or_eq_true, not_or] at hroom
      simpa using hroom.2
    split at h
    · cases h
    · rename_i htype
      split at h
      · cases h
      · split at h
        · cases h
        · rename_i hsid
          split at h
          · rename_i hnoise
            cases h
            exact ⟨⟨raw, hraw, view, hview, hnoise, rfl⟩, hmulti, hsid⟩
          · rename_i hnoise
            have hlegacy : view.header.msgType = MessageType.handshakeClientHello.code := by
              by_contra hno
              exact htype ⟨hno, hnoise⟩
            split at h
            · cases h
            · split at h
              · rename_i hello hdecode
                cases h
                exact ⟨⟨_, ⟨raw, hraw, view, hview, hlegacy, rfl⟩, hdecode⟩, hmulti, hsid⟩
              · cases h

theorem vouches_dispatch {view : PacketView} {raw : Bytes} (h : Grounded C J s)
    (hview : PacketView.decode raw = .ok view) (sender : SocketAddr) :
    Vouches env J s (Machine.rest C (s.dispatchPacket C env view raw sender).2) :=
  .rest ⟨h.keeps (rx_dispatchPacket (.refl s) hview).keeps,
    greets_dispatchPacket view raw sender s⟩

theorem vouches_recv {raw : Bytes} {sender : SocketAddr} (h : Grounded C J s)
    (hbonds : ∀ a p b, s.pendingJoins.lookup a = some p → p.bond = some b → b ∈ J.servers)
    (hrooms : s.settings.multiPeer = true → J.rooms) (hraw : (sender, raw) ∈ J.heard) :
    Vouches env J s (afterDatagram C env sender (s.recvDatagram C env raw sender)) := by
  by_cases hrv : Rendezvous.isRendezvous raw = true
  · have hrecv : s.recvDatagram C env raw sender =
        (.done (.ok ()), (s.recordReceived raw.length).onRendezvous C env raw sender) := by
      unfold recvDatagram
      dsimp only
      rw [if_pos hrv]
    have ht : Grounded C J (s.recordReceived raw.length) := h.of_eq rfl rfl rfl
    have hrx : RxEffects C env (.loop sender raw) (s.recordReceived raw.length)
        (s.recordReceived raw.length)
        ((s.recordReceived raw.length).onRendezvous C env raw sender) :=
      rx_onRendezvous rfl (.refl _)
    rw [hrecv]
    refine .rest ⟨ht.keeps hrx.keeps, ?_⟩
    exact (greets_onRendezvous raw sender _).after rfl
  · cases hview : PacketView.decode raw with
    | error e =>
      have hrecv : s.recvDatagram C env raw sender =
          (.done (.ok ()), (s.recordReceived raw.length).recordIntegrityError) := by
        unfold recvDatagram
        simp only [hrv, hview, Bool.false_eq_true, if_false]
      rw [hrecv]
      exact .rest_of_eq h rfl rfl rfl rfl
    | ok view =>
      have ht : Grounded C J ((s.recordReceived raw.length).heard env) := h.of_eq rfl rfl rfl
      rw [recvDatagram_of_view C env hrv hview]
      cases hpeek : s.peekNewPeer view sender with
      | none =>
        have hend : Accounts C env J ((s.recordReceived raw.length).heard env)
            (((s.recordReceived raw.length).heard env).finishJoin env view sender).2 :=
          accounts_finishJoin ht hbonds hview hraw
        cases hjoin : ((s.recordReceived raw.length).heard env).finishJoin env view sender with
        | mk found u =>
          rw [hjoin] at hend
          cases found with
          | true => exact (Vouches.rest hend).of_eq rfl
          | false =>
            obtain rfl := eq_of_finishJoin_false hjoin
            exact (vouches_dispatch ht hview sender).of_eq rfl
      | some first =>
        obtain ⟨hfirst, hmulti, hsid⟩ := heardFrom_of_peekNewPeer hview hraw hpeek
        cases first with
        | noise msg1 =>
          have hend : Accounts C env J ((s.recordReceived raw.length).heard env)
              (((s.recordReceived raw.length).heard env).beginJoin C env sender msg1) :=
            accounts_beginJoin ht (hrooms hmulti) hsid hfirst
          exact (Vouches.rest hend).of_eq rfl
        | legacy hello =>
          refine Vouches.of_eq (vouches_beginServer ?_ .promote hfirst) rfl
          exact ht.of_eq rfl rfl rfl

theorem vouches_poll {raw : Bytes} {sender : SocketAddr} (h : Grounded C J s)
    (hraw : (sender, raw) ∈ J.heard) :
    Vouches env J s (afterDatagram C env sender (s.pollDatagram C env raw sender)) := by
  cases hview : PacketView.decode raw with
  | error e =>
    have hpoll : s.pollDatagram C env raw sender =
        (.done (.ok ()), (s.recordReceived raw.length).recordIntegrityError) := by
      unfold pollDatagram
      simp only [hview]
    rw [hpoll]
    exact .rest_of_eq h rfl rfl rfl rfl
  | ok view =>
    have ht : Grounded C J ((s.recordReceived raw.length).heard env) := h.of_eq rfl rfl rfl
    rw [pollDatagram_of_view C env hview]
    cases hpeek : s.peekNewPeer view sender with
    | none => exact (vouches_dispatch ht hview sender).of_eq rfl
    | some first =>
      obtain ⟨hfirst, -, -⟩ := heardFrom_of_peekNewPeer hview hraw hpeek
      refine Vouches.of_eq (vouches_beginServer ?_ .promote hfirst) rfl
      exact ht.of_eq rfl rfl rfl

/-! ## Steps -/

/-- The datagram that an operation reads. -/
def Action.heard : Action → Option (SocketAddr × Bytes)
  | .input (.datagram sender raw) => some (sender, raw)
  | .recv sender raw => some (sender, raw)
  | .poll sender raw => some (sender, raw)
  | _ => none

/-- Nothing is reopened under a running handshake, and a session that is admitting somebody
does not connect to somebody else. -/
def Settled (m : Machine C cfg) : Action → Prop
  | .reopen => m.task = .idle
  | .handshake .client _ => m.session.pendingJoins = ∅
  | _ => True

/-- All that a step goes by is in the journal. -/
structure Covers (J : Journal) (m : Machine C cfg) (x : Env × Action) : Prop where
  heard : ∀ d, x.2.heard = some d → d ∈ J.heard
  servers : m.serverBonds ⊆ J.servers
  clients : m.clientBonds ⊆ J.clients
  derives : (step C x.1 m x.2).clientBonds ⊆ J.clients
  rooms : m.session.settings.multiPeer = true → J.rooms

/-- Every stored key of a machine, and what its handshake has in hand, is accounted for. -/
structure Attested (J : Journal) (m : Machine C cfg) : Prop where
  session : Grounded C J m.session
  task : m.task.Grounded J m.session

theorem Attested.mono {m : Machine C cfg} (h : Attested J m) (hJ : J.Within J') :
    Attested J' m := ⟨h.session.mono hJ, h.task.mono hJ⟩

/-- A call that no handshake takes notice of. -/
theorem Attested.onSession {m : Machine C cfg} (h : Attested J m)
    (hinstalled : t.history.installed = m.session.history.installed)
    (hjoins : t.pendingJoins = m.session.pendingJoins) (hagree : t.agreement = m.session.agreement)
    (hgreets : Greets env (J.Means C cfg t.history.installed) m.session t) :
    Vouches env J m.session { m with session := t } :=
  ⟨⟨h.session.of_eq hinstalled hjoins (congrArg Prod.fst hagree), hgreets⟩,
    h.task.of_eq hjoins hagree⟩

theorem Attested.keeps {m : Machine C cfg} (h : Attested J m) (hkeeps : Keeps m.session t)
    (hagree : t.agreement = m.session.agreement)
    (hgreets : Greets env (J.Means C cfg t.history.installed) m.session t) :
    Vouches env J m.session { m with session := t } :=
  h.onSession hkeeps.installed hkeeps.pendingJoins hagree hgreets

theorem Attested.signals {m : Machine C cfg} (h : Attested J m) (active : Bool)
    (hsend : SendsOnly { m.session with status.pttActive := active } t)
    (hgreets : Greets env (J.Means C cfg t.history.installed)
      { m.session with status.pttActive := active } t) :
    Vouches env J m.session { m with session := t } := by
  refine h.onSession ?_ ?_ hsend.agreement (hgreets.after rfl)
  · rw [hsend.history]
  · rw [hsend.eq]

theorem vouches_whenIdle {m : Machine C cfg} (h : Attested J m)
    {f : Session cfg → Machine C cfg}
    (hf : m.task = .idle → Vouches env J m.session (f m.session)) :
    Vouches env J m.session (whenIdle C m f) := by
  rcases whenIdle_cases m f with ⟨hidle, heq⟩ | heq
  · rw [heq]
    exact hf hidle
  · rw [heq]
    exact ⟨⟨h.session, .refl _⟩, h.task⟩

theorem vouches_beginWait (h : Grounded C J s) (caller : Caller) (expect : Option SocketAddr) :
    Vouches env J s (beginWait C env caller expect s) := vouches_waitHead h _ _ _ _ _ _

/-- A server that knows its session id first makes itself known. -/
theorem sends_opening {preset : UInt32} {r : Except TransportError Unit}
    (h : (if preset ≠ 0 then s.sendControl env .heartbeat preset [] peer else (.ok (), s)) =
      (r, t)) : SendsOnly s t ∧ Greets env (J.Means C cfg []) s t := by
  split_ifs at h
  · have hgreets : Greets env (J.Means C cfg []) s
        (s.sendControl env .heartbeat preset [] peer).2 :=
      greets_control (by decide) _ _ _ _
    rw [h] at hgreets
    exact ⟨sendsOnly_of_sendControl h, hgreets⟩
  · cases h
    exact ⟨.refl s, .refl s⟩

theorem vouches_handshake (h : Grounded C J s) (role : SessionRole)
    (hnone : role = .client → s.pendingJoins = ∅) :
    Vouches env J s (handshake C env role peer s) := by
  unfold handshake
  dsimp only
  split
  · exact .rest_of_eq h rfl rfl rfl rfl
  · rename_i state _
    have hstate : Grounded C J { s with
        peers := s.peers.insert peer
        status.state := state } := h.of_eq rfl rfl rfl
    cases role with
    | client => exact (vouches_startClient hstate (hnone rfl)).of_eq rfl
    | server =>
      dsimp only
      split
      · rename_i e t ht
        obtain ⟨hsend, hgreets⟩ := sends_opening ht
        exact ((vouches_finished (hstate.sends hsend) _ _ _).sent hgreets).of_eq rfl
      · rename_i t ht
        obtain ⟨hsend, hgreets⟩ := sends_opening ht
        have ht' := hstate.sends hsend
        split_ifs
        · exact ((vouches_finished ht' _ _ _).sent hgreets).of_eq rfl
        · exact ((vouches_beginWait ht' _ _).sent hgreets).of_eq rfl

theorem vouches_handshakeOpen (h : Grounded C J s) : Vouches env J s (handshakeOpen C env s) := by
  have harm := armRelay_eq C s
  have hrelay : Grounded C J (armRelay C s) := by
    rw [harm]
    exact h.of_eq rfl rfl rfl
  have hsent : (armRelay C s).traffic.sent = s.traffic.sent := by rw [harm]
  unfold handshakeOpen
  dsimp only
  split
  · exact (Vouches.same hrelay).of_eq hsent
  · have hstate (state : SessionState) :
        Grounded C J { armRelay C s with status.state := state } := hrelay.of_eq rfl rfl rfl
    split_ifs
    · exact (Vouches.rest_of_eq (hstate _) rfl rfl rfl rfl).of_eq hsent
    · exact (vouches_beginWait (hstate _) _ _).of_eq hsent

theorem vouches_input {m : Machine C cfg} (h : Attested J m) (input : Input)
    (hcovers : Covers J m (env, .input input)) :
    Vouches env J m.session (onInput C env input m) := by
  have hinput (sender : SocketAddr) (raw : Bytes) (hi : input = .datagram sender raw) :
      (sender, raw) ∈ J.heard := by
    subst hi
    exact hcovers.heard _ rfl
  have hpost := hcovers.derives
  change (onInput C env input m).clientBonds ⊆ J.clients at hpost
  obtain ⟨s, task⟩ := m
  obtain ⟨hsession, htask⟩ := h
  cases task with
  | idle => exact .same hsession
  | waitFirst caller expect noise legacy cycle next =>
    exact vouches_onWaitFirst hsession caller expect noise legacy cycle next input hinput
  | legacyKe caller peer wait =>
    obtain ⟨hsid, hcodec, hmeans⟩ := htask
    have hbond : wait.bond C ∈ J.servers := hcovers.servers (.inl rfl)
    refine vouches_onKeyExchange hsession caller .handshakeClientHello input hinput ?_ ?_
      ⟨hsid, hcodec, hmeans⟩
    · intro r t ht
      exact ⟨sendsOnly_of_sendControl ht, greets_of_sendControl ht rfl fun _ => hmeans⟩
    · intro ke payload hheard hke
      exact accounts_legacyServerFinish hsession hbond hsid hcodec hheard hke
  | noiseKe caller peer pending =>
    obtain ⟨hconfirms, hsid, hcodec, hmeans⟩ := htask
    refine vouches_onKeyExchange hsession caller .handshakeNoiseHello1 input hinput ?_ ?_
      ⟨hconfirms, hsid, hcodec, hmeans⟩
    · intro r t ht
      exact ⟨sendsOnly_of_sendControl ht, greets_of_sendControl ht rfl fun _ => hmeans⟩
    · intro ke payload hheard hke
      exact accounts_noiseServerFinish hsession hconfirms
        (fun b hb => hcovers.servers (.inl hb)) hsid (.inr hcodec) hheard hke
  | helloSent peer wait attempt => exact vouches_onHelloSent hsession htask input hinput hpost
  | noiseSent peer fallback hs nonce sid msg1 attempt =>
    exact vouches_onNoiseSent hsession htask input hinput hpost
  | confirm peer noise fallback wait =>
    exact vouches_onConfirm hsession htask (hcovers.clients rfl) input hinput

theorem reopen_joins (s : Session cfg) : s.reopen.2 = s ∨
    s.reopen.2.pendingJoins = ∅ ∧ s.reopen.2.history = s.history := by
  unfold Session.reopen
  dsimp only
  split_ifs
  · exact .inl rfl
  · split
    · exact .inr ⟨rfl, rfl⟩
    · exact .inr ⟨rfl, rfl⟩

/-- A step of an attested machine. -/
theorem Attested.step {m : Machine C cfg} {x : Env × Action} (h : Attested J m)
    (hcovers : Covers J m x) (hsettled : Settled m x.2) :
    Vouches x.1 J m.session (step C x.1 m x.2) := by
  obtain ⟨env, a⟩ := x
  cases a with
  | handshake role peer =>
    refine vouches_whenIdle h fun _ => vouches_handshake h.session role ?_
    rintro rfl
    exact hsettled
  | handshakeOpen => exact vouches_whenIdle h fun _ => vouches_handshakeOpen h.session
  | acceptAdditionalPeer =>
    refine vouches_whenIdle h fun _ => ?_
    unfold acceptAdditionalPeer
    split_ifs
    · exact .same h.session
    · exact vouches_beginWait h.session _ _
  | input i => exact vouches_input h i hcovers
  | cancel => exact .same h.session
  | turn =>
    refine vouches_whenIdle (f := fun s => rest C (s.turn C env).2) h fun _ => .rest ?_
    exact ⟨h.session.keeps (rx_turn C env m.session).keeps, greets_turn m.session⟩
  | recv sender raw =>
    refine vouches_whenIdle (f := fun s => afterDatagram C env sender
      (s.recvDatagram C env raw sender)) h fun _ => vouches_recv h.session ?_ hcovers.rooms
      (hcovers.heard _ rfl)
    exact fun a p b hp hb => hcovers.servers (.inr ⟨a, p, hp, hb⟩)
  | poll sender raw =>
    exact vouches_whenIdle (f := fun s => afterDatagram C env sender
      (s.pollDatagram C env raw sender)) h fun _ => vouches_poll h.session (hcovers.heard _ rfl)
  | pollTimeout =>
    refine vouches_whenIdle (f := fun s => rest C (s.pollTimeout env).2) h fun _ => .rest ?_
    exact ⟨h.session.keeps (quiet_pollTimeout env m.session).keeps, greets_pollTimeout m.session⟩
  | sendAudio payload =>
    have hspeaks := speaksOnly_sendAudio C env payload m.session
    exact h.keeps hspeaks.keeps hspeaks.agreement (greets_sendAudio payload m.session)
  | pttPress =>
    exact h.signals true (sendsOnly_signalAll env _ _ _ _ _)
      (greets_signalAll (by decide) (by decide) _ _ _)
  | pttRelease =>
    exact h.signals false (sendsOnly_signalAll env _ _ _ _ _)
      (greets_signalAll (by decide) (by decide) _ _ _)
  | close =>
    have hclose := close_eq env m.session
    refine h.onSession ?_ ?_ ?_ (greets_close m.session)
    · rw [hclose]
    · rw [hclose]
    · exact agreement_close env m.session
  | reopen =>
    have hgreets : Greets env (J.Means C cfg m.session.reopen.2.history.installed) m.session
        m.session.reopen.2 := greets_reopen m.session
    rcases reopen_joins m.session with hsame | ⟨hnone, hhistory⟩
    · change Vouches env J m.session { m with session := m.session.reopen.2 }
      rw [hsame]
      exact ⟨⟨h.session, .refl _⟩, h.task⟩
    · refine ⟨⟨h.session.alone (congrArg History.installed hhistory) hnone, hgreets⟩, ?_⟩
      have hidle : (Machine.step C env m .reopen).task = .idle := hsettled
      rw [hidle]
      trivial
  | setPresetSessionId id => exact h.onSession rfl rfl rfl (.of_eq rfl)
  | setRoomToken token => exact h.onSession rfl rfl rfl (.of_eq rfl)
  | setHandshakeMode mode => exact h.onSession rfl rfl rfl (.of_eq rfl)
  | setRendezvous server => exact h.onSession rfl rfl rfl (.of_eq rfl)
  | setMultiPeer enabled => exact h.onSession rfl rfl rfl (.of_eq rfl)
  | setRelayOnly enabled => exact h.onSession rfl rfl rfl (.of_eq rfl)
  | setOwnPublic addr => exact h.onSession rfl rfl rfl (.of_eq rfl)
  | addPathHints addrs => exact h.onSession rfl rfl rfl (.of_eq rfl)

end Machine
end GravitalTalk
