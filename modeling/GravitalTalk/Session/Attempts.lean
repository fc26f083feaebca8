import GravitalTalk.Session.Codec

/-!
# Failed handshakes

A handshake is attempted by a call, by a receive loop that promotes a newcomer,
or again and again by an accept loop. An attempt that fails should leave the book,
the keys and the agreed values as it found them. Here it is said what a step may
do while an attempt is in progress so that this is so.
-/
namespace GravitalTalk

section Tasks

variable {C : Crypto}

/-- No attempt is in progress: nothing is waited for, or an accept loop waits for a
greeting. -/
def Task.rests : Task C → Bool
  | .idle | .waitFirst .acceptLoop .. => true
  | _ => false

/-- The handshake is an attempt of an accept loop. -/
def Task.accepts : Task C → Bool
  | .waitFirst caller .. | .legacyKe caller .. | .noiseKe caller .. => caller == .acceptLoop
  | _ => false

end Tasks

namespace Session

variable {cfg : Config} {s t u : Session cfg}

/-- Book, keys, session id, codec and SSRC are the same. -/
structure Unmarked (s t : Session cfg) : Prop where
  book : t.peers.book = s.peers.book
  peerKeys : t.peers.peerKeys = s.peers.peerKeys
  encryptKey : t.peers.encryptKey = s.peers.encryptKey
  decryptKey : t.peers.decryptKey = s.peers.decryptKey
  agreement : t.agreement = s.agreement

/-- The same without the book. -/
structure SameKeys (s t : Session cfg) : Prop where
  peerKeys : t.peers.peerKeys = s.peers.peerKeys
  encryptKey : t.peers.encryptKey = s.peers.encryptKey
  decryptKey : t.peers.decryptKey = s.peers.decryptKey
  agreement : t.agreement = s.agreement

/-- Neither the tables of the peers nor the agreed values are touched. -/
structure Spares (s t : Session cfg) : Prop where
  peers : t.peers = s.peers
  agreement : t.agreement = s.agreement
  closed : t.status.closed = s.status.closed

@[refl] theorem Spares.refl (s : Session cfg) : Spares s s := ⟨rfl, rfl, rfl⟩

theorem SendsOnly.spares (h : SendsOnly s t) : Spares s t :=
  ⟨h.peers, h.agreement, by rw [h.status]⟩

theorem Steady.spares (h : Steady s t) (hagree : t.agreement = s.agreement) : Spares s t :=
  ⟨h.calm.peers, hagree, h.calm.closed⟩

@[refl] theorem SameKeys.refl (s : Session cfg) : SameKeys s s := ⟨rfl, rfl, rfl, rfl⟩

@[refl] theorem Unmarked.refl (s : Session cfg) : Unmarked s s := ⟨rfl, rfl, rfl, rfl, rfl⟩

theorem SameKeys.spares (h : SameKeys s t) (hs : Spares t u) : SameKeys s u := by
  obtain ⟨hpeers, hagree, -⟩ := hs
  exact ⟨by rw [hpeers, h.peerKeys], by rw [hpeers, h.encryptKey], by rw [hpeers, h.decryptKey],
    hagree.trans h.agreement⟩

theorem SameKeys.unmarked (h : SameKeys s t) (hbook : t.peers.book = s.peers.book) :
    Unmarked s t :=
  ⟨hbook, h.peerKeys, h.encryptKey, h.decryptKey, h.agreement⟩

theorem Unmarked.sameKeys (h : Unmarked s t) : SameKeys s t :=
  ⟨h.peerKeys, h.encryptKey, h.decryptKey, h.agreement⟩

theorem Unmarked.spares (h : Unmarked s t) (hs : Spares t u) : Unmarked s u :=
  (h.sameKeys.spares hs).unmarked (by rw [hs.peers, h.book])

end Session

namespace Machine

open Session Run Rendezvous

variable {cfg : Config} {C : Crypto} {env : Env} {s₀ s t u : Session cfg}

/-! ## Attempts -/

/-- The attempt in progress ends well: keys are stored, and the session is active if
that was what the call was made for. -/
def Succeeds (m m' : Machine C cfg) : Prop :=
  m'.session.history.installed ≠ m.session.history.installed ∧
    (m.task.opens = true → m'.session.status.state = .active)

/-- The step begins an attempt: a call or a promotion, or an event of an accept
loop. -/
inductive Begins (C : Crypto) (env : Env) (m : Machine C cfg) : Action → Prop
  | handshake {role : SessionRole} {peer : SocketAddr} (hidle : m.task = .idle) :
    Begins C env m (.handshake role peer)
  | handshakeOpen (hidle : m.task = .idle) : Begins C env m .handshakeOpen
  | acceptAdditionalPeer (hidle : m.task = .idle) : Begins C env m .acceptAdditionalPeer
  | recv {sender : SocketAddr} {raw : Bytes} {hello : ClientHello}
      (hfirst : greeting C env m (.recv sender raw) = some (.legacy hello)) :
    Begins C env m (.recv sender raw)
  | poll {sender : SocketAddr} {raw : Bytes} {first : FirstHandshake}
      (hfirst : greeting C env m (.poll sender raw) = some first) :
      Begins C env m (.poll sender raw)
  | accept {a : Action} {expect : Option SocketAddr} {noise legacy : Bool} {cycle next : ℕ}
      (htask : m.task = .waitFirst .acceptLoop expect noise legacy cycle next) : Begins C env m a

/-- The steps take the attempt to its end, and none of them ends it well. -/
def Fails (C : Crypto) : Machine C cfg → List (Env × Action) → Prop
  | m, [] => m.task.rests = true
  | m, x :: steps =>
    ¬ Succeeds m (step C x.1 m x.2) ∧
      ((step C x.1 m x.2).task = .idle → steps = []) ∧ Fails C (step C x.1 m x.2) steps

/-- What the server stores on this greeting, it holds already. -/
def Repeats (C : Crypto) (env : Env) (s : Session cfg) (first : FirstHandshake) : Prop :=
  ∀ preferred, s.preference C env first = some preferred →
    s.resolvedSessionId env = s.status.sessionId ∧
      ∀ codec, chooseCodec cfg preferred = .ok codec → codec = s.status.negotiatedCodec

theorem repeats_iff {first : FirstHandshake} : Repeats C env s first ↔
    s.preference C env first = none ∨ s.resolvedSessionId env = s.status.sessionId ∧
      (s.answerCodec C env first).getD s.status.negotiatedCodec = s.status.negotiatedCodec := by
  unfold Repeats answerCodec
  cases s.preference C env first with
  | none => simp
  | some preferred =>
    cases hchosen : chooseCodec cfg preferred with
    | error e => simp [hchosen, Except.toOption]
    | ok codec => simp [hchosen, Except.toOption]

instance (C : Crypto) (env : Env) (s : Session cfg) (first : FirstHandshake) :
    Decidable (Repeats C env s first) := decidable_of_iff _ repeats_iff.symm

theorem Repeats.greeted {first : FirstHandshake} (h : Repeats C env s first) :
    s.greeted C env first = s.agreement := by
  unfold Session.greeted
  cases hpref : s.preference C env first with
  | none => rfl
  | some preferred =>
    obtain ⟨hsid, hcodec⟩ := h preferred hpref
    dsimp only
    rw [hsid]
    cases hchosen : chooseCodec cfg preferred with
    | error e => rfl
    | ok codec =>
      rw [hcodec codec hchosen]
      rfl

theorem Repeats.congr {first : FirstHandshake} (h : Repeats C env s first)
    (hset : t.settings = s.settings) (hagree : t.agreement = s.agreement) :
    Repeats C env t first := by
  have hsid : t.status.sessionId = s.status.sessionId := congrArg Prod.fst hagree
  have hcodec : t.status.negotiatedCodec = s.status.negotiatedCodec :=
    congrArg (fun a => a.2.1) hagree
  intro preferred hpref
  rw [preference_congr C env first hset] at hpref
  rw [resolvedSessionId, hset, hsid, hcodec]
  exact h preferred hpref

/-! ## The book while a server waits -/

/-- What the book has to be so that a failure leaves it as it was: a promotion takes
the newcomer out again, an accept loop clears the book unless it was closed. -/
def BookOk (s₀ : Session cfg) (caller : Caller) (peer : Option SocketAddr) (t : Session cfg) :
    Prop :=
  match caller, peer with
  | .handshake, _ | .additional, _ => t.peers.book = s₀.peers.book
  | .promote, some p => t.peers.book.remove p = s₀.peers.book
  | .promote, none => False
  | .acceptLoop, _ =>
    s₀.peers.book = AddressBook.new ∧ (t.status.closed = true → t.peers.book = s₀.peers.book)

theorem BookOk.spares {caller : Caller} {peer : Option SocketAddr} (h : BookOk s₀ caller peer t)
    (hs : Spares t u) : BookOk s₀ caller peer u := by
  obtain ⟨hpeers, -, hclosed⟩ := hs
  unfold BookOk at h ⊢
  rw [hpeers, hclosed]
  exact h

/-- While an attempt is in progress. -/
def Pending (s₀ : Session cfg) (m : Machine C cfg) : Prop :=
  SameKeys s₀ m.session ∧
    match m.task with
    | .idle => False
    | .waitFirst caller .. => caller ≠ .promote ∧ m.session.peers.book = s₀.peers.book ∧
        (caller = .acceptLoop → s₀.peers.book = AddressBook.new)
    | .legacyKe caller peer _ | .noiseKe caller peer _ => BookOk s₀ caller (some peer) m.session
    | _ => m.session.peers.book = s₀.peers.book

/-- The attempt goes on, or it has ended without a trace. -/
def Clean (s₀ : Session cfg) (m : Machine C cfg) : Prop :=
  Pending s₀ m ∨ m.task = .idle ∧ Unmarked s₀ m.session

theorem clean_rest (h : Unmarked s₀ t) : Clean s₀ (rest C t) := .inr ⟨rfl, h⟩

theorem clean_waitHead {caller : Caller} (hcaller : caller ≠ .promote)
    (haccept : caller = .acceptLoop → s₀.peers.book = AddressBook.new) (h : Unmarked s₀ t)
    (expect : Option SocketAddr) (noise legacy : Bool) (cycle next : ℕ) :
    Clean s₀ (waitHead C env caller expect noise legacy cycle next t) := by
  unfold waitHead
  split_ifs
  · have hs := (sendsOnly_announce C env cycle t).spares
    exact .inl ⟨h.sameKeys.spares hs, hcaller, (h.spares hs).book, haccept⟩
  · exact .inl ⟨h.sameKeys, hcaller, h.book, haccept⟩

theorem clean_retryAccept (hkeys : SameKeys s₀ t) (hbook : s₀.peers.book = AddressBook.new) :
    Clean s₀ (retryAccept C env t) := by
  have hcleared : Unmarked s₀ { ((t.transition .handshakeTimeout).transition
      .reconnect).transition .startAccept with peers := t.peers.clearBook } :=
    ⟨hbook.symm, hkeys.peerKeys, hkeys.encryptKey, hkeys.decryptKey, hkeys.agreement⟩
  unfold retryAccept
  dsimp only
  split_ifs
  · exact clean_rest ⟨hcleared.book, hcleared.peerKeys, hcleared.encryptKey,
      hcleared.decryptKey, hcleared.agreement⟩
  · exact clean_waitHead (by decide) (fun _ => hbook) hcleared _ _ _ _ _

/-- A server-side handshake fails. -/
theorem clean_failed {caller : Caller} {peer : Option SocketAddr} (hkeys : SameKeys s₀ t)
    (hbook : BookOk s₀ caller peer t) {e : TransportError}
    (he : caller = .acceptLoop → e.closes = true → t.status.closed = true) :
    Clean s₀ (finished C env caller peer (.error e) t) := by
  cases caller with
  | handshake => exact clean_rest (t := t.transition .handshakeTimeout) ⟨hbook, hkeys.peerKeys,
      hkeys.encryptKey, hkeys.decryptKey, hkeys.agreement⟩
  | additional => exact clean_rest (hkeys.unmarked hbook)
  | promote =>
    cases peer with
    | none => exact hbook.elim
    | some p => exact clean_rest (t := { t with peers := t.peers.remove p }) ⟨hbook,
        hkeys.peerKeys, hkeys.encryptKey, hkeys.decryptKey, hkeys.agreement⟩
  | acceptLoop =>
    cases e with
    | peerClosed reason => exact clean_rest (t := t.transition .close) ⟨hbook.2 (he rfl rfl),
        hkeys.peerKeys, hkeys.encryptKey, hkeys.decryptKey, hkeys.agreement⟩
    | _ => exact clean_retryAccept hkeys hbook.1

theorem clean_unlessClosed {caller : Caller} {peer : SocketAddr} (hkeys : SameKeys s₀ t)
    (hbook : BookOk s₀ caller (some peer) t) {task : Task C}
    (htask : (∃ w, task = .legacyKe caller peer w) ∨ ∃ p, task = .noiseKe caller peer p) :
    Clean s₀ (unlessClosed C env caller peer t task) := by
  unfold unlessClosed
  split_ifs with hclosed
  · exact clean_failed hkeys hbook fun _ _ => hclosed
  · rcases htask with ⟨w, rfl⟩ | ⟨p, rfl⟩
    · exact .inl ⟨hkeys, hbook⟩
    · exact .inl ⟨hkeys, hbook⟩

theorem spares_noiseServerBegin {msg1 : Bytes} {r : Except TransportError PendingJoin}
    (h : s.noiseServerBegin C env msg1 = (r, t)) (hrepeats : Repeats C env s (.noise msg1)) :
    Spares s t := by
  have hsteady := steady_noiseServerBegin C env msg1 s
  have hagree := agreement_noiseServerBegin C env msg1 s
  rw [h] at hsteady hagree
  exact hsteady.spares (hagree.trans hrepeats.greeted)

theorem spares_legacyServerBegin {peer : SocketAddr} {hello : ClientHello}
    {r : Except TransportError LegacyWait}
    (h : s.legacyServerBegin C env peer hello = (r, t))
    (hrepeats : Repeats C env s (.legacy hello)) : Spares s t := by
  have hsteady := steady_legacyServerBegin C env peer hello s
  have hagree := agreement_legacyServerBegin C env peer hello s
  rw [h] at hsteady hagree
  exact hsteady.spares (hagree.trans hrepeats.greeted)

/-- A greeting is answered with what the session holds already. -/
theorem clean_beginServer {caller : Caller} {peer : SocketAddr} (hkeys : SameKeys s₀ t)
    (hbook : BookOk s₀ caller (some peer) t) {first : FirstHandshake}
    (hrepeats : Repeats C env t first) (hlasting : caller = .acceptLoop → env.Lasting) :
    Clean s₀ (beginServer C env caller peer t first) := by
  cases first with
  | noise msg1 =>
    change Clean s₀ (beginNoise C env caller peer msg1 t)
    unfold beginNoise
    split
    · rename_i e u hu
      have hs := spares_noiseServerBegin hu hrepeats
      refine clean_failed (hkeys.spares hs) (hbook.spares hs) fun _ he => ?_
      rw [closes_of_noiseServerBegin hu] at he
      cases he
    · rename_i p u hu
      have hs := spares_noiseServerBegin hu hrepeats
      split
      · rename_i e v hv
        have hsend := (sendsOnly_of_sendControl hv).spares
        refine clean_failed ((hkeys.spares hs).spares hsend) ((hbook.spares hs).spares hsend)
          fun hcaller he => ?_
        rw [closes_of_sendControl (hlasting hcaller) hv] at he
        cases he
      · rename_i v hv
        have hsend := (sendsOnly_of_sendControl hv).spares
        exact clean_unlessClosed ((hkeys.spares hs).spares hsend)
          ((hbook.spares hs).spares hsend) (.inr ⟨p, rfl⟩)
  | legacy hello =>
    change Clean s₀ (beginLegacy C env caller peer hello t)
    unfold beginLegacy
    split
    · rename_i e u hu
      have hs := spares_legacyServerBegin hu hrepeats
      refine clean_failed (hkeys.spares hs) (hbook.spares hs) fun hcaller he => ?_
      rw [closes_of_legacyServerBegin (hlasting hcaller) hu] at he
      cases he
    · rename_i w u hu
      have hs := spares_legacyServerBegin hu hrepeats
      exact clean_unlessClosed (hkeys.spares hs) (hbook.spares hs) (.inl ⟨w, rfl⟩)

/-! ## The end of a server's wait -/

/-- Keys are stored and the session becomes active if that was wanted. -/
theorem succeeds_finished {m : Machine C cfg} {caller : Caller} {peer : Option SocketAddr}
    (hinstalled : t.history.installed ≠ m.session.history.installed)
    (hopens : m.task.opens = caller.opens)
    (hstate : caller.opens = true → t.status.state = .handshaking) :
    Succeeds m (finished C env caller peer (.ok ()) t) := by
  constructor
  · rw [(stays_finished C env caller peer (.ok ()) t).installed]
    exact hinstalled
  · intro hopen
    rw [hopens] at hopen
    have hhand := hstate hopen
    cases caller with
    | handshake =>
      change t.status.state.next .handshakeOk = .active
      rw [hhand]
      rfl
    | acceptLoop =>
      change t.status.state.next .handshakeOk = .active
      rw [hhand]
      rfl
    | additional => cases hopen
    | promote => cases hopen

/-- The answer to a waiting server. -/
theorem clean_keyExchange {caller : Caller} {peer : SocketAddr} {greeting : MessageType}
    {resend : Session cfg → Except TransportError Unit × Session cfg}
    {finish : KeyExchangeMsg → Session cfg → Except TransportError Unit × Session cfg}
    {task : Task C} {input : Input} (hkeys : SameKeys s₀ t)
    (hbook : BookOk s₀ caller (some peer) t)
    (htask : (∃ w, task = .legacyKe caller peer w) ∨ ∃ p, task = .noiseKe caller peer p)
    (hopens : task.opens = caller.opens)
    (hresend : ∀ {s r t}, resend s = (r, t) → SendsOnly s t)
    (hresendClose : ∀ {s e t}, env.Lasting → resend s = (.error e, t) → e.closes = false)
    (hagree : ∀ ke s, (finish ke s).2.agreement = s.agreement) {enc dec : SessionKey}
    (hfinish : ∀ ke s, Settles env peer enc dec s (finish ke s))
    (hfinishClose : ∀ {ke s e t}, env.Lasting → finish ke s = (.error e, t) → e.closes = false)
    (hlasting : caller = .acceptLoop → env.Lasting)
    (hio : caller = .acceptLoop → ∀ e, input = .ioError e → e.closes = false)
    (hstate : caller.opens = true → (∃ ke, KeyExchanged peer input ke ∧ (finish ke t).1 = .ok ()) →
      t.status.state = .handshaking) :
    Clean s₀ (onKeyExchange C env caller peer greeting resend finish task input t) ∨
      Succeeds ⟨t, task⟩ (onKeyExchange C env caller peer greeting resend finish task input t) := by
  have hstays : Clean s₀ (⟨t, task⟩ : Machine C cfg) := by
    rcases htask with ⟨w, rfl⟩ | ⟨p, rfl⟩
    · exact .inl ⟨hkeys, hbook⟩
    · exact .inl ⟨hkeys, hbook⟩
  unfold onKeyExchange
  split
  · rename_i sender raw
    split
    · split
      · rename_i e u hu
        have hs := (hresend hu).spares
        refine .inl (clean_failed (hkeys.spares hs) (hbook.spares hs) fun hcaller he => ?_)
        rw [hresendClose (hlasting hcaller) hu] at he
        cases he
      · rename_i u hu
        have hs := (hresend hu).spares
        exact .inl (clean_unlessClosed (hkeys.spares hs) (hbook.spares hs) htask)
    · split
      · exact .inl (clean_unlessClosed hkeys hbook htask)
      · rename_i view hview
        split
        · exact .inl (clean_failed hkeys hbook fun _ he => by cases he)
        · rename_i ke hke
          dsimp only
          rcases hr : finish ke t with ⟨_ | _, u⟩
          · rename_i e
            have hsettles := hfinish ke t
            rw [hr] at hsettles
            have hs : Spares t u := by
              rcases hsettles with ⟨e', -, hsteady⟩ | ⟨hok, -⟩
              · refine hsteady.spares ?_
                have hsame := hagree ke t
                rwa [hr] at hsame
              · cases hok
            refine .inl (clean_failed (hkeys.spares hs) (hbook.spares hs) fun hcaller he => ?_)
            rw [hfinishClose (hlasting hcaller) hr] at he
            cases he
          · refine .inr ?_
            rcases hfinish ke t with ⟨e, he, -⟩ | ⟨hok, v, hsteady, hv⟩
            · rw [hr] at he
              cases he
            · rw [hr] at hv
              subst hv
              refine succeeds_finished ?_ hopens fun hopen => ?_
              · change _ :: v.history.installed ≠ t.history.installed
                rw [hsteady.calm.history]
                exact List.cons_ne_self _ _
              · change v.status.state = .handshaking
                rw [hsteady.state]
                exact hstate hopen ⟨ke, ⟨sender, raw, view, rfl, hview, hke⟩, hok⟩
  · exact .inl (clean_unlessClosed hkeys hbook htask)
  · rename_i e
    refine .inl (clean_failed hkeys hbook fun hcaller he => ?_)
    rw [hio hcaller e rfl] at he
    cases he
  · split_ifs
    · exact .inl (clean_failed hkeys hbook fun _ he => by cases he)
    · exact .inl hstays

/-! ## The client -/

theorem clean_clientFailed (h : Unmarked s₀ t) (e : TransportError) :
    Clean s₀ (clientEnded C (.error e) t) :=
  clean_rest (t := t.transition .handshakeTimeout)
    ⟨h.book, h.peerKeys, h.encryptKey, h.decryptKey, h.agreement⟩

theorem clean_sendHello (h : Unmarked s₀ t) (peer : SocketAddr) (wait : HelloWait)
    (attempt : ℕ) : Clean s₀ (sendHello C env peer wait attempt t) := by
  unfold sendHello
  split
  · rename_i e u hu
    exact clean_clientFailed (h.spares (sendsOnly_of_sendControl hu).spares) e
  · rename_i u hu
    have hs := h.spares (sendsOnly_of_sendControl hu).spares
    exact .inl ⟨hs.sameKeys, hs.book⟩

theorem clean_noiseEnded (h : Unmarked s₀ t) (peer : SocketAddr) (fallback : Bool)
    (e : TransportError) : Clean s₀ (noiseEnded C env peer fallback e t) := by
  unfold noiseEnded
  split_ifs
  · exact clean_sendHello h _ _ _
  · exact clean_clientFailed h e

theorem clean_sendNoise (h : Unmarked s₀ t) (peer : SocketAddr) (fallback : Bool) (hs : C.Noise)
    (nonce : Vector UInt8 32) (sid : UInt32) (msg1 : Bytes) (attempt : ℕ) :
    Clean s₀ (sendNoise C env peer fallback hs nonce sid msg1 attempt t) := by
  unfold sendNoise
  split_ifs
  · exact clean_clientFailed h _
  · exact clean_noiseEnded h _ _ _
  · split
    · rename_i e u hu
      exact clean_noiseEnded (h.spares (sendsOnly_of_sendControl hu).spares) _ _ _
    · rename_i u hu
      have hsent := h.spares (sendsOnly_of_sendControl hu).spares
      exact .inl ⟨hsent.sameKeys, hsent.book⟩

theorem clean_startClient (h : Unmarked s₀ t) (peer : SocketAddr) :
    Clean s₀ (startClient C env peer t) := by
  have hnoise (fallback : Bool) : Clean s₀ (startNoiseClient C env peer fallback t) := by
    unfold startNoiseClient
    split
    · exact clean_noiseEnded h _ _ _
    · exact clean_sendNoise h _ _ _ _ _ _ _
  unfold startClient
  split
  · exact clean_sendHello h _ _ _
  · exact hnoise false
  · exact hnoise _

theorem clean_helloSent (h : Unmarked s₀ t) (peer : SocketAddr) (wait : HelloWait) (attempt : ℕ)
    (input : Input) : Clean s₀ (onHelloSent C env peer wait attempt input t) := by
  unfold onHelloSent
  split
  · split
    · exact .inl ⟨h.sameKeys, h.book⟩
    · rename_i view _
      have hs := (steady_clientAnswer C env peer wait view.payload t).spares
        (agreement_clientAnswer C env peer wait view.payload t)
      split
      · rename_i e u hu
        rw [hu] at hs
        exact clean_clientFailed (h.spares hs) e
      · rename_i w u hu
        rw [hu] at hs
        exact .inl ⟨(h.spares hs).sameKeys, (h.spares hs).book⟩
  · split_ifs
    · exact clean_clientFailed h _
    · exact clean_sendHello h _ _ _
  · exact clean_clientFailed h _
  · exact clean_clientFailed h _

/-- A second Noise message that the client can read arrives. -/
def NoiseAnswered (C : Crypto) (peer : SocketAddr) (hs : C.Noise) (input : Input) (hs' : C.Noise)
    (hello2 : NoiseHello2) : Prop :=
  ∃ sender raw view payload, input = .datagram sender raw ∧
    isReply peer .handshakeNoiseHello2 sender raw = some view ∧
    C.noiseRead hs view.payload = some (payload, hs') ∧ NoiseHello2.decode payload = .ok hello2

theorem clean_noiseSent (h : Unmarked s₀ t) (peer : SocketAddr) (fallback : Bool) (hs : C.Noise)
    (nonce : Vector UInt8 32) (sid : UInt32) (msg1 : Bytes) (attempt : ℕ) (input : Input)
    (hanswer : ∀ hs' hello2, NoiseAnswered C peer hs input hs' hello2 →
      ∀ a, Session.answered C cfg hs' nonce sid hello2 = some a → a = t.agreement) :
    Clean s₀ (onNoiseSent C env peer fallback hs nonce sid msg1 attempt input t) := by
  unfold onNoiseSent
  split
  · rename_i sender raw
    split
    · exact .inl ⟨h.sameKeys, h.book⟩
    · rename_i view hview
      split
      · exact clean_noiseEnded h _ _ _
      · rename_i payload hs' hread
        split
        · exact clean_sendNoise h _ _ _ _ _ _ _
        · rename_i hello2 hdecode
          have hsame :
              (Session.answered C cfg hs' nonce sid hello2).getD t.agreement = t.agreement := by
            cases ha : Session.answered C cfg hs' nonce sid hello2 with
            | none => rfl
            | some a =>
              exact hanswer hs' hello2 ⟨sender, raw, view, payload, rfl, hview, hread, hdecode⟩ a ha
          have hspares := (steady_noiseClientAnswer C env peer hs' nonce sid hello2 t).spares
            ((agreement_noiseClientAnswer C env peer hs' nonce sid hello2 t).trans hsame)
          split
          · rename_i e u hu
            rw [hu] at hspares
            exact clean_noiseEnded (h.spares hspares) _ _ _
          · rename_i w u hu
            rw [hu] at hspares
            exact .inl ⟨(h.spares hspares).sameKeys, (h.spares hspares).book⟩
  · exact clean_sendNoise h _ _ _ _ _ _ _
  · exact clean_noiseEnded h _ _ _
  · exact clean_noiseEnded h _ _ _

/-- A `SessionConfirm` from `peer` arrives. -/
def Confirmed (peer : SocketAddr) (input : Input) (confirm : SessionConfirm) : Prop :=
  ∃ sender raw view, input = .datagram sender raw ∧
    isReply peer .handshakeSessionConfirm sender raw = some view ∧
    TagMsg.decode view.payload = .ok confirm

/-- The tag that the server proves itself with. -/
def confirmTag (C : Crypto) (noise : Bool) (wait : ConfirmWait) : Vector UInt8 16 :=
  C.deriveAuthTag wait.decKey (if noise then "GS-server-fin-v2" else "GS-server-fin-v1")
    wait.transcript

/-- The confirmation is right, or the session stays as it is. -/
theorem confirm_cases (C : Crypto) (env : Env) (peer : SocketAddr) (noise : Bool)
    (wait : ConfirmWait) (payload : Bytes) (s : Session cfg) :
    (∃ e, (if noise then s.noiseClientFinish C env peer wait payload
        else s.clientFinish C env peer wait payload) = (.error e, s)) ∨
      ∃ (confirm : SessionConfirm) (u : Session cfg), TagMsg.decode payload = .ok confirm ∧
        confirm.sessionId = wait.sessionId ∧
        confirm.authTag = confirmTag C noise wait ∧
        (if noise then s.noiseClientFinish C env peer wait payload
          else s.clientFinish C env peer wait payload) =
            (.ok (), u.installKeys env peer wait.encKey wait.decKey) ∧
        u.history = s.history ∧ u.status.state = s.status.state := by
  cases noise with
  | true =>
    simp only [if_true, confirmTag]
    unfold noiseClientFinish
    cases TagMsg.decode payload with
    | error e => exact .inl ⟨_, rfl⟩
    | ok confirm =>
      dsimp only
      split_ifs with hsid htag
      · exact .inl ⟨_, rfl⟩
      · exact .inl ⟨_, rfl⟩
      · exact .inr ⟨confirm, s, rfl, not_not.mp hsid, not_not.mp htag, rfl, rfl, rfl⟩
  | false =>
    simp only [Bool.false_eq_true, if_false, confirmTag]
    unfold clientFinish
    cases TagMsg.decode payload with
    | error e => exact .inl ⟨_, rfl⟩
    | ok confirm =>
      dsimp only
      split_ifs with hsid htag
      · exact .inl ⟨_, rfl⟩
      · exact .inl ⟨_, rfl⟩
      · exact .inr ⟨confirm, { s with status := { s.status with
          sessionId := wait.sessionId
          localSsrc := ssrcOf wait.sessionId wait.encKey
          negotiatedCodec := wait.codec } }, rfl, not_not.mp hsid, not_not.mp htag, rfl, rfl, rfl⟩

theorem clean_confirm (h : Unmarked s₀ t) (peer : SocketAddr) (noise fallback : Bool)
    (wait : ConfirmWait) (input : Input)
    (hstate : ∀ confirm, Confirmed peer input confirm → confirm.sessionId = wait.sessionId →
      confirm.authTag = confirmTag C noise wait → t.status.state = .handshaking) :
    Clean s₀ (onConfirm C env peer noise fallback wait input t) ∨
      Succeeds ⟨t, .confirm peer noise fallback wait⟩
        (onConfirm C env peer noise fallback wait input t) := by
  have hfailed (e : TransportError) : Clean s₀ (if noise then noiseEnded C env peer fallback e t
      else clientEnded C (.error e) t) := by
    split_ifs
    · exact clean_noiseEnded h _ _ _
    · exact clean_clientFailed h _
  unfold onConfirm
  dsimp only
  split
  · rename_i sender raw
    split
    · exact .inl (.inl ⟨h.sameKeys, h.book⟩)
    · rename_i view hview
      rcases confirm_cases C env peer noise wait view.payload t with
        ⟨e, he⟩ | ⟨confirm, u, hdecode, hsid, htag, hok, hhistory, hsame⟩
      · rw [he]
        exact .inl (hfailed e)
      · rw [hok]
        refine .inr ⟨?_, fun _ => ?_⟩
        · change _ :: u.history.installed ≠ t.history.installed
          rw [hhistory]
          exact List.cons_ne_self _ _
        · have hhand := hstate confirm ⟨sender, raw, view, rfl, hview, hdecode⟩ hsid htag
          change u.status.state.next .handshakeOk = .active
          rw [hsame, hhand]
          rfl
  · exact .inl (.inl ⟨h.sameKeys, h.book⟩)
  · exact .inl (hfailed _)
  · exact .inl (hfailed _)

/-! ## Waiting for a greeting -/

/-- The answer to a probe moves the only peer of the session. -/
def Relocates (C : Crypto) (env : Env) (sender : SocketAddr) (raw : Bytes) (s : Session cfg) :
    Prop :=
  Message.decode raw = some (s.roomKey C, .punchAck s.settings.probeNonce) ∧
    ∃ old, s.peers.book.primary = some old ∧ old ≠ sender ∧ s.pathIsStale env.now = true ∧
      s.peers.book.len = 1

theorem spares_onRendezvous {sender : SocketAddr} {raw : Bytes}
    (h : ¬ Relocates C env sender raw s) : Spares s (s.onRendezvous C env raw sender) := by
  unfold onRendezvous
  split
  · rfl
  · rename_i key msg hmsg
    by_cases hkey : key ≠ s.roomKey C
    · rw [if_pos hkey]
    · rw [if_neg hkey]
      rw [not_not] at hkey
      subst hkey
      split
      · rfl
      · rename_i you others
        have hsends : SendsOnly s (others.foldl
            (fun s peer => s.sendRv C env (.punch (env.punchNonce peer)) peer) s) :=
          SendsOnly.foldl (fun s peer => sendsOnly_sendRv C env _ peer s) _ s
        split_ifs
        · exact ⟨hsends.peers, hsends.agreement, congrArg Status.closed hsends.status⟩
        · rfl
      · exact (sendsOnly_sendRv C env _ _ s).spares
      · split_ifs
        · exact ⟨rfl, rfl, rfl⟩
        · rfl
      · rename_i nonce
        split_ifs with hnonce
        · subst hnonce
          unfold probeAnswered
          split
          · rfl
          · rename_i old hold
            rw [if_neg fun hcond => h ⟨hmsg, old, hold, hcond⟩]
        · rfl

theorem spares_hearFirst {expect : Option SocketAddr} {noise legacy : Bool} {sender : SocketAddr}
    {raw : Bytes} (h : expect = none → ¬ Relocates C env sender raw s) :
    Spares s (hearFirst C env expect noise legacy sender raw s).2 := by
  unfold hearFirst
  split
  · cases expect with
    | none => exact spares_onRendezvous (h rfl)
    | some p => rfl
  · split
    · rfl
    · split
      · rfl
      · rfl

theorem bookOk_registerPeer {caller : Caller} (hcaller : caller ≠ .promote)
    (hbook : t.peers.book = s₀.peers.book)
    (haccept : caller = .acceptLoop → s₀.peers.book = AddressBook.new ∧ t.status.closed = false)
    (peer : SocketAddr) : BookOk s₀ caller (some peer) (registerPeer caller peer t) := by
  cases caller with
  | handshake => exact hbook
  | additional => exact hbook
  | promote => exact absurd rfl hcaller
  | acceptLoop =>
    obtain ⟨hnew, hopen⟩ := haccept rfl
    refine ⟨hnew, fun hclosed => ?_⟩
    rw [show (registerPeer .acceptLoop peer t).status.closed = false from hopen] at hclosed
    cases hclosed

theorem clean_waitFirst {caller : Caller} (hcaller : caller ≠ .promote) (h : Unmarked s₀ t)
    (haccept : caller = .acceptLoop → s₀.peers.book = AddressBook.new ∧ env.Lasting)
    {expect : Option SocketAddr} {noise legacy : Bool} {cycle next : ℕ} {input : Input}
    (hmoves : ∀ sender raw, input = .datagram sender raw → expect = none →
      ¬ Relocates C env sender raw t)
    (hgreet : ∀ first, greeting C env ⟨t, .waitFirst caller expect noise legacy cycle next⟩
      (.input input) = some first →
      Repeats C env t first ∧ (caller = .acceptLoop → t.status.closed = false))
    (hio : caller = .acceptLoop → ∀ e, input = .ioError e → e.closes = false) :
    Clean s₀ (onWaitFirst C env caller expect noise legacy cycle next input t) := by
  have hfailed {u : Session cfg} (hu : Unmarked s₀ u) {e : TransportError}
      (he : caller = .acceptLoop → e.closes = true → u.status.closed = true) :
      Clean s₀ (finished C env caller none (.error e) u) := by
    refine clean_failed hu.sameKeys ?_ he
    cases caller with
    | handshake => exact hu.book
    | additional => exact hu.book
    | promote => exact absurd rfl hcaller
    | acceptLoop => exact ⟨(haccept rfl).1, fun _ => hu.book⟩
  have hagain {u : Session cfg} (hu : Unmarked s₀ u) : Clean s₀ (if u.status.closed then
      finished C env caller none (.error (.peerClosed "session closed")) u
      else waitHead C env caller expect noise legacy cycle next u) := by
    split_ifs with hclosed
    · exact hfailed hu fun _ _ => hclosed
    · exact clean_waitHead hcaller (fun hc => (haccept hc).1) hu _ _ _ _ _
  cases input with
  | datagram sender raw =>
    have hs : Spares t (hearFirst C env expect noise legacy sender raw t).2 :=
      spares_hearFirst (hmoves sender raw rfl)
    cases hhear : hearFirst C env expect noise legacy sender raw t with
    | mk first u =>
      rw [hhear] at hs
      cases first with
      | none =>
        rw [onWaitFirst_none hhear]
        exact hagain (h.spares hs)
      | some first =>
        have hfirst : (hearFirst C env expect noise legacy sender raw t).1 = some first := by
          rw [hhear]
        obtain rfl : u = t := by
          rw [← (hearFirst_some hfirst).1, hhear]
        obtain ⟨hrepeats, hopen⟩ := hgreet first hfirst
        unfold onWaitFirst
        simp only [hhear]
        have hpeer : SameKeys s₀ (registerPeer caller sender u) ∧
            (registerPeer caller sender u).settings = u.settings ∧
            (registerPeer caller sender u).agreement = u.agreement := by
          unfold registerPeer
          split_ifs
          · exact ⟨⟨h.peerKeys, h.encryptKey, h.decryptKey, h.agreement⟩, rfl, rfl⟩
          · exact ⟨h.sameKeys, rfl, rfl⟩
        obtain ⟨hkeys, hset, hagree⟩ := hpeer
        exact clean_beginServer hkeys
          (bookOk_registerPeer hcaller h.book (fun hc => ⟨(haccept hc).1, hopen hc⟩) sender)
          (hrepeats.congr hset hagree) fun hc => (haccept hc).2
  | timeout => exact hagain h
  | ioError e =>
    refine hfailed h fun hc he => ?_
    rw [hio hc e rfl] at he
    cases he
  | expire =>
    unfold onWaitFirst
    dsimp only
    split_ifs
    · exact hfailed h fun _ he => by cases he
    · exact .inl ⟨h.sameKeys, hcaller, h.book, fun hc => (haccept hc).1⟩

/-! ## What an attempt must not meet -/

/-- What a step of an attempt must not meet. `s₀` is the session before the attempt. -/
structure Harmless (C : Crypto) (s₀ : Session cfg) (env : Env) (m : Machine C cfg) (a : Action) :
    Prop where
  /-- A call that names a peer finds it in the book, or the book full. -/
  called : ∀ role peer, a = .handshake role peer → m.task = .idle →
    peer ∈ m.session.peers.book.peers ∨ maxPeers ≤ m.session.peers.book.peers.length
  /-- A greeting is answered with what the session holds. -/
  greeted : ∀ first, greeting C env m a = some first → Repeats C env m.session first
  /-- So is the greeting of a client. -/
  answered : ∀ peer fallback hs nonce sid msg1 attempt input hs' hello2 agreed,
    m.task = .noiseSent peer fallback hs nonce sid msg1 attempt → a = .input input →
    NoiseAnswered C peer hs input hs' hello2 →
    Session.answered C cfg hs' nonce sid hello2 = some agreed → agreed = m.session.agreement
  /-- A handshake is completed only while the state machine waits for that. -/
  completed : ∀ peer, Completes C m a peer → m.task.opens = true →
    m.session.status.state = .handshaking
  confirmed : ∀ peer noise fallback wait input confirm,
    m.task = .confirm peer noise fallback wait → a = .input input →
    Confirmed peer input confirm → confirm.sessionId = wait.sessionId →
    confirm.authTag = confirmTag C noise wait → m.session.status.state = .handshaking
  /-- An accept loop, which empties the book, found it empty, and is told that the
  transport is closed by nobody. -/
  accepts : (m.task.accepts = true ∨ m.task = .idle ∧ a = .handshakeOpen) →
    s₀.peers.book = AddressBook.new ∧ env.Lasting ∧
      (∀ e, a = .input (.ioError e) → e.closes = false) ∧
      ∀ first, greeting C env m a = some first → m.session.status.closed = false
  /-- The peer of a session that waits for another one does not move. -/
  moves : ∀ caller noise legacy cycle next sender raw,
    m.task = .waitFirst caller none noise legacy cycle next →
    a = .input (.datagram sender raw) → ¬ Relocates C env sender raw m.session
  /-- A call is dropped before the newcomer is in the book. -/
  dropped : a = .cancel → m.session.peers.book = s₀.peers.book
  /-- There is nothing for `close` and `reopen` to take away. -/
  closing : a = .close → Unmarked s₀ { s₀ with peers := s₀.peers.close }
  reopening : a = .reopen → m.session.status.closed = true → Unmarked s₀ s₀.wiped

theorem clean_input {m : Machine C cfg} (h : Pending s₀ m) {input : Input}
    (hharm : Harmless C s₀ env m (.input input)) :
    Clean s₀ (step C env m (.input input)) ∨ Succeeds m (step C env m (.input input)) := by
  have haccepts := hharm.accepts
  have hcompleted := hharm.completed
  obtain ⟨s, task⟩ := m
  cases task with
  | idle => exact h.2.elim
  | waitFirst caller expect noise legacy cycle next =>
    obtain ⟨hkeys, hcaller, hbook, -⟩ := h
    have haccept (hc : caller = .acceptLoop) := haccepts (.inl (beq_iff_eq.mpr hc))
    refine .inl (clean_waitFirst hcaller (hkeys.unmarked hbook)
      (fun hc => ⟨(haccept hc).1, (haccept hc).2.1⟩) ?_ ?_ ?_)
    · intro sender raw hinput hexpect
      subst hexpect
      exact hharm.moves caller noise legacy cycle next sender raw rfl (congrArg Action.input hinput)
    · intro first hfirst
      exact ⟨hharm.greeted first hfirst, fun hc => (haccept hc).2.2.2 first hfirst⟩
    · intro hc e hinput
      exact (haccept hc).2.2.1 e (congrArg Action.input hinput)
  | legacyKe caller peer wait =>
    have haccept (hc : caller = .acceptLoop) := haccepts (.inl (beq_iff_eq.mpr hc))
    refine clean_keyExchange h.1 h.2 (.inl ⟨wait, rfl⟩) rfl
      (fun hr => sendsOnly_of_sendControl hr) (fun henv hr => closes_of_sendControl henv hr)
      (fun ke s => agreement_legacyServerFinish C env peer wait ke s)
      (fun ke s => settles_legacyServerFinish C env peer wait ke s)
      (fun henv hr => closes_of_legacyServerFinish henv hr) (fun hc => (haccept hc).2.1)
      (fun hc e hinput => (haccept hc).2.2.1 e (congrArg Action.input hinput)) ?_
    rintro hopen ⟨ke, hke, hok⟩
    obtain ⟨hsid, htag⟩ := legacyServerFinish_tag hok
    exact hcompleted peer (.legacy rfl hke hsid htag) hopen
  | noiseKe caller peer p =>
    have haccept (hc : caller = .acceptLoop) := haccepts (.inl (beq_iff_eq.mpr hc))
    refine clean_keyExchange h.1 h.2 (.inr ⟨p, rfl⟩) rfl
      (fun hr => sendsOnly_of_sendControl hr) (fun henv hr => closes_of_sendControl henv hr)
      (fun ke s => agreement_noiseServerFinish env peer p ke s)
      (fun ke s => settles_noiseServerFinish env peer p ke s)
      (fun henv hr => closes_of_noiseServerFinish henv hr) (fun hc => (haccept hc).2.1)
      (fun hc e hinput => (haccept hc).2.2.1 e (congrArg Action.input hinput)) ?_
    rintro hopen ⟨ke, hke, hok⟩
    obtain ⟨hsid, htag⟩ := noiseServerFinish_tag hok
    exact hcompleted peer (.noise rfl hke hsid htag) hopen
  | helloSent peer wait attempt =>
    exact .inl (clean_helloSent (h.1.unmarked h.2) peer wait attempt input)
  | noiseSent peer fallback hs nonce sid msg1 attempt =>
    refine .inl (clean_noiseSent (h.1.unmarked h.2) peer fallback hs nonce sid msg1 attempt
      input ?_)
    intro hs' hello2 hanswer agreed hagreed
    exact hharm.answered peer fallback hs nonce sid msg1 attempt input hs' hello2 agreed rfl rfl
      hanswer hagreed
  | confirm peer noise fallback wait =>
    refine clean_confirm (h.1.unmarked h.2) peer noise fallback wait input ?_
    intro confirm hconfirm hsid htag
    exact hharm.confirmed peer noise fallback wait input confirm rfl rfl hconfirm hsid htag

/-! ## A step of an attempt -/

theorem Pending.spares {m : Machine C cfg} (h : Pending s₀ m) (hs : Spares m.session t) :
    Pending s₀ ⟨t, m.task⟩ := by
  obtain ⟨s, task⟩ := m
  obtain ⟨hkeys, hbook⟩ := h
  refine ⟨hkeys.spares hs, ?_⟩
  have hsame : t.peers.book = s.peers.book := by rw [hs.peers]
  cases task with
  | idle => exact hbook
  | waitFirst caller expect noise legacy cycle next =>
    exact ⟨hbook.1, hsame.trans hbook.2.1, hbook.2.2⟩
  | legacyKe caller peer wait => exact BookOk.spares hbook hs
  | noiseKe caller peer p => exact BookOk.spares hbook hs
  | helloSent peer wait attempt => exact hsame.trans hbook
  | noiseSent peer fallback hs nonce sid msg1 attempt => exact hsame.trans hbook
  | confirm peer noise fallback wait => exact hsame.trans hbook

/-- The session was emptied, and there was nothing in it before the attempt. -/
theorem Pending.emptied {m : Machine C cfg} (h : Pending s₀ m) (ht : Unmarked s₀ t)
    (hnew : t.peers.book = AddressBook.new) : Pending s₀ ⟨t, m.task⟩ := by
  obtain ⟨s, task⟩ := m
  obtain ⟨-, hbook⟩ := h
  refine ⟨ht.sameKeys, ?_⟩
  have hok {caller : Caller} {peer : SocketAddr} (hbook : BookOk s₀ caller (some peer) s) :
      BookOk s₀ caller (some peer) t := by
    cases caller with
    | handshake => exact ht.book
    | additional => exact ht.book
    | acceptLoop => exact ⟨hbook.1, fun _ => ht.book⟩
    | promote =>
      change t.peers.book.remove peer = s₀.peers.book
      rw [← ht.book, hnew]
      rfl
  cases task with
  | idle => exact hbook
  | waitFirst caller expect noise legacy cycle next => exact ⟨hbook.1, ht.book, hbook.2.2⟩
  | legacyKe caller peer wait => exact hok hbook
  | noiseKe caller peer p => exact hok hbook
  | helloSent peer wait attempt => exact ht.book
  | noiseSent peer fallback hs nonce sid msg1 attempt => exact ht.book
  | confirm peer noise fallback wait => exact ht.book

theorem Pending.sameKeys {m : Machine C cfg} (h : Pending s₀ m) : SameKeys s₀ m.session := h.1

theorem Pending.busy {m : Machine C cfg} (h : Pending s₀ m) : m.task ≠ .idle := by
  intro hidle
  have hbook := h.2
  rw [hidle] at hbook
  exact hbook

theorem whenIdle_busy {m : Machine C cfg} (h : m.task ≠ .idle) (f : Session cfg → Machine C cfg) :
    whenIdle C m f = m := by
  rcases whenIdle_cases m f with ⟨hidle, -⟩ | heq
  · exact absurd hidle h
  · exact heq

theorem clean_close {m : Machine C cfg} (h : Pending s₀ m)
    (hclosing : Unmarked s₀ { s₀ with peers := s₀.peers.close }) :
    Pending s₀ ⟨m.session.close env, m.task⟩ := by
  refine h.emptied ⟨?_, ?_, ?_, ?_, ?_⟩ ?_
  · rw [close_eq]
    exact hclosing.book
  · rw [close_eq]
    exact h.sameKeys.peerKeys
  · rw [close_eq]
    exact hclosing.encryptKey
  · rw [close_eq]
    exact hclosing.decryptKey
  · exact (agreement_close env m.session).trans h.sameKeys.agreement
  · rw [close_eq]
    rfl

theorem clean_reopen {m : Machine C cfg} (h : Pending s₀ m)
    (hreopening : m.session.status.closed = true → Unmarked s₀ s₀.wiped) :
    Pending s₀ ⟨m.session.reopen.2, m.task⟩ := by
  unfold Session.reopen
  cases hclosed : m.session.status.closed with
  | false => exact h.spares ⟨rfl, rfl, rfl⟩
  | true =>
    obtain ⟨hbook, hkeys, henc, hdec, hagree⟩ := hreopening hclosed
    dsimp only [Bool.not_true]
    split
    · exact h.spares ⟨rfl, rfl, rfl⟩
    · split
      · exact h.emptied ⟨hbook, hkeys, henc, hdec, hagree⟩ rfl
      · exact h.emptied ⟨hbook, hkeys, henc, hdec, hagree⟩ rfl

/-- A step of an attempt in progress leaves no trace unless it completes the attempt. -/
theorem clean_step {m : Machine C cfg} (h : Pending s₀ m) {a : Action}
    (hharm : Harmless C s₀ env m a) (hfail : ¬ Succeeds m (step C env m a)) :
    Clean s₀ (step C env m a) := by
  have hbusy (f : Session cfg → Machine C cfg) : Clean s₀ (whenIdle C m f) := by
    rw [whenIdle_busy h.busy]
    exact .inl h
  have hspares {t : Session cfg} (hs : Spares m.session t) :
      Clean s₀ (⟨t, m.task⟩ : Machine C cfg) :=
    .inl (h.spares hs)
  cases a with
  | handshake role peer => exact hbusy _
  | handshakeOpen => exact hbusy _
  | acceptAdditionalPeer => exact hbusy _
  | input input =>
    rcases clean_input h hharm with hclean | hok
    · exact hclean
    · exact absurd hok hfail
  | cancel => exact clean_rest (h.sameKeys.unmarked (hharm.dropped rfl))
  | turn => exact hbusy _
  | recv sender raw => exact hbusy _
  | poll sender raw => exact hbusy _
  | pollTimeout => exact hbusy _
  | sendAudio payload =>
    have hsay := speaksOnly_sendAudio C env payload m.session
    exact hspares ⟨hsay.peers, hsay.agreement, congrArg Status.closed hsay.status⟩
  | pttPress =>
    have hsay := sendsOnly_signalAll env .floorRequest .controlResume
      m.session.status.sessionId m.session.peers.book.all
      { m.session with status.pttActive := true }
    exact hspares ⟨hsay.peers, hsay.spares.agreement, hsay.spares.closed⟩
  | pttRelease =>
    have hsay := sendsOnly_signalAll env .floorRelease .controlPause
      m.session.status.sessionId m.session.peers.book.all
      { m.session with status.pttActive := false }
    exact hspares ⟨hsay.peers, hsay.spares.agreement, hsay.spares.closed⟩
  | close => exact .inl (clean_close h (hharm.closing rfl))
  | reopen => exact .inl (clean_reopen h (hharm.reopening rfl))
  | setPresetSessionId id => exact hspares ⟨rfl, rfl, rfl⟩
  | setRoomToken token => exact hspares ⟨rfl, rfl, rfl⟩
  | setHandshakeMode mode => exact hspares ⟨rfl, rfl, rfl⟩
  | setRendezvous server => exact hspares ⟨rfl, rfl, rfl⟩
  | setMultiPeer enabled => exact hspares ⟨rfl, rfl, rfl⟩
  | setRelayOnly enabled => exact hspares ⟨rfl, rfl, rfl⟩
  | setOwnPublic addr => exact hspares ⟨rfl, rfl, rfl⟩
  | addPathHints addrs => exact hspares ⟨rfl, rfl, rfl⟩

/-! ## The start of an attempt -/

theorem clean_handshake {role : SessionRole} {peer : SocketAddr}
    (hknown : peer ∈ s.peers.book.peers ∨ maxPeers ≤ s.peers.book.peers.length) :
    Clean s (handshake C env role peer s) := by
  have hbook : s.peers.book.insert peer = s.peers.book := by
    unfold AddressBook.insert
    rw [dif_pos hknown]
  have hcalled (state : SessionState) : Unmarked s
      { s with peers := s.peers.insert peer, status.state := state } :=
    ⟨hbook, rfl, rfl, rfl, rfl⟩
  unfold handshake
  dsimp only
  split
  · exact clean_rest ⟨hbook, rfl, rfl, rfl, rfl⟩
  · rename_i state _
    cases role with
    | client => exact clean_startClient (hcalled state) peer
    | server =>
      have hready {r : Except TransportError Unit × Session cfg}
          (hr : r = if s.settings.presetSessionId ≠ 0 then
              sendControl env .heartbeat s.settings.presetSessionId [] peer
                { s with peers := s.peers.insert peer, status.state := state }
            else (.ok (), { s with peers := s.peers.insert peer, status.state := state })) :
          Unmarked s r.2 := by
        rw [hr]
        split_ifs
        · exact (hcalled state).spares (sendsOnly_sendControl env _ _ _ _ _).spares
        · exact hcalled state
      dsimp only
      split
      · rename_i e u hu
        have hkept := hready hu.symm
        have hbook : BookOk s .handshake (some peer) u := hkept.book
        refine clean_failed hkept.sameKeys hbook fun hc => ?_
        cases hc
      · rename_i u hu
        have hkept := hready hu.symm
        have hbook : BookOk s .handshake (some peer) u := hkept.book
        split_ifs
        · refine clean_failed hkept.sameKeys hbook fun hc => ?_
          cases hc
        · refine clean_waitHead (by decide) (fun hc => ?_) hkept _ _ _ _ _
          cases hc

theorem clean_handshakeOpen (hnew : s.peers.book = AddressBook.new) :
    Clean s (handshakeOpen C env s) := by
  have harm := armRelay_eq C s
  unfold handshakeOpen
  generalize (armRelay C s).settings = settings at harm
  rw [harm]
  dsimp only
  split
  · exact clean_rest ⟨rfl, rfl, rfl, rfl, rfl⟩
  · rename_i state _
    split_ifs
    · exact clean_rest ⟨rfl, rfl, rfl, rfl, rfl⟩
    · let t : Session cfg := { s with settings := settings, status.state := state }
      have hsame : Unmarked s t := ⟨rfl, rfl, rfl, rfl, rfl⟩
      exact clean_waitHead (by decide) (fun _ => hnew) hsame _ _ _ _ _

theorem clean_promote {peer : SocketAddr} {first : FirstHandshake}
    (hbook : peer ∉ s.peers.book.peers) (hrepeats : Repeats C env s first) (n : ℕ) :
    Clean s (promotePeer C env peer first ((s.recordReceived n).heard env)) := by
  let t := { (s.recordReceived n).heard env with
    peers := ((s.recordReceived n).heard env).peers.insert peer }
  have hkeys : SameKeys s t := ⟨rfl, rfl, rfl, rfl⟩
  have hbook : BookOk s .promote (some peer) t := remove_insert hbook
  refine clean_beginServer hkeys hbook (hrepeats.congr rfl rfl) fun hc => ?_
  cases hc

theorem clean_recv {sender : SocketAddr} {raw : Bytes} {hello : ClientHello}
    (hfirst : greeting C env (rest C s) (.recv sender raw) = some (.legacy hello))
    (hrepeats : Repeats C env s (.legacy hello)) :
    Clean s (step C env (rest C s) (.recv sender raw)) := by
  change Clean s (afterDatagram C env sender (s.recvDatagram C env raw sender))
  cases hview : PacketView.decode raw with
  | error e =>
    simp only [greeting, rest, hview] at hfirst
    cases hfirst
  | ok view =>
    simp only [greeting, rest, hview] at hfirst
    have hrv : ¬ isRendezvous raw = true := fun hrv => decode_of_isRendezvous hrv view hview
    rw [recvDatagram_of_view C env hrv hview]
    cases hpeek : s.peekNewPeer view sender with
    | none =>
      rw [hpeek] at hfirst
      cases hfirst
    | some first =>
      cases first with
      | noise msg1 =>
        simp only [hpeek] at hfirst
        change (if AnswersAnew env s sender msg1 then some (FirstHandshake.noise msg1) else none) = _
          at hfirst
        by_cases hanew : AnswersAnew env s sender msg1
        · rw [if_pos hanew] at hfirst
          cases hfirst
        · rw [if_neg hanew] at hfirst
          cases hfirst
      | legacy hello' =>
        simp only [hpeek] at hfirst
        cases hfirst
        exact clean_promote (peekNewPeer_some hpeek).2.1 hrepeats raw.length

theorem clean_poll {sender : SocketAddr} {raw : Bytes} {first : FirstHandshake}
    (hfirst : greeting C env (rest C s) (.poll sender raw) = some first)
    (hrepeats : Repeats C env s first) : Clean s (step C env (rest C s) (.poll sender raw)) := by
  change Clean s (afterDatagram C env sender (s.pollDatagram C env raw sender))
  cases hview : PacketView.decode raw with
  | error e =>
    simp only [greeting, rest, hview] at hfirst
    cases hfirst
  | ok view =>
    simp only [greeting, rest, hview] at hfirst
    rw [pollDatagram_of_view C env hview]
    simp only [hfirst]
    exact clean_promote (peekNewPeer_some hfirst).2.1 hrepeats raw.length

theorem idle_of_greeting {m : Machine C cfg} {a : Action} {first : FirstHandshake}
    (h : greeting C env m a = some first) (ha : ∀ input, a ≠ .input input) : m.task = .idle := by
  unfold greeting at h
  split at h
  · exact absurd rfl (ha _)
  · split at h
    · assumption
    · cases h
  · split at h
    · assumption
    · cases h
  · cases h

/-- An attempt begins without a trace. -/
theorem clean_begins {m : Machine C cfg} {a : Action} (h : Begins C env m a)
    (hharm : Harmless C m.session env m a) (hfail : ¬ Succeeds m (step C env m a)) :
    Clean m.session (step C env m a) := by
  obtain ⟨s, task⟩ := m
  cases h with
  | handshake hidle =>
    obtain rfl : task = .idle := hidle
    exact clean_handshake (hharm.called _ _ rfl rfl)
  | handshakeOpen hidle =>
    obtain rfl : task = .idle := hidle
    exact clean_handshakeOpen (hharm.accepts (.inr ⟨rfl, rfl⟩)).1
  | acceptAdditionalPeer hidle =>
    obtain rfl : task = .idle := hidle
    change Clean s (acceptAdditionalPeer C env s)
    unfold acceptAdditionalPeer
    split_ifs
    · exact clean_rest (.refl s)
    · refine clean_waitHead (by decide) (fun hc => ?_) (.refl s) _ _ _ _ _
      cases hc
  | recv hfirst =>
    obtain rfl : task = .idle := idle_of_greeting hfirst fun input ha => by cases ha
    exact clean_recv hfirst (hharm.greeted _ hfirst)
  | poll hfirst =>
    obtain rfl : task = .idle := idle_of_greeting hfirst fun input ha => by cases ha
    exact clean_poll hfirst (hharm.greeted _ hfirst)
  | accept htask =>
    rename_i expect noise legacy cycle next
    obtain rfl : task = .waitFirst .acceptLoop expect noise legacy cycle next := htask
    have hnew := (hharm.accepts (.inl rfl)).1
    have hpending : Pending s (⟨s, .waitFirst .acceptLoop expect noise legacy cycle next⟩ :
        Machine C cfg) := ⟨.refl s, by decide, rfl, fun _ => hnew⟩
    exact clean_step hpending hharm hfail

/-! ## A whole attempt -/

theorem Clean.unmarked {m : Machine C cfg} (h : Clean s₀ m) (hrests : m.task.rests = true) :
    Unmarked s₀ m.session := by
  rcases h with hpending | ⟨-, hdone⟩
  · obtain ⟨s, task⟩ := m
    obtain ⟨hkeys, hbook⟩ := hpending
    cases task with
    | idle => exact hbook.elim
    | waitFirst caller expect noise legacy cycle next => exact hkeys.unmarked hbook.2.1
    | _ => cases hrests
  · exact hdone

/-- The steps that follow the first one. -/
theorem unmarked_of_clean {m : Machine C cfg} {steps : List (Env × Action)} (h : Clean s₀ m)
    (hfails : Fails C m steps) (hdone : m.task = .idle → steps = [])
    (hharm : Along (fun m x => step C x.1 m x.2) (fun m x => Harmless C s₀ x.1 m x.2) m steps) :
    Unmarked s₀ (run C m steps).session := by
  induction steps generalizing m with
  | nil => exact h.unmarked hfails
  | cons x steps ih =>
    obtain ⟨hfail, hends, hrest⟩ := hfails
    rcases h with hpending | ⟨hidle, -⟩
    · exact ih (clean_step hpending hharm.1 hfail) hrest hends hharm.2
    · cases hdone hidle

/-- A failed attempt none of whose steps meets what leaves a trace leaves none: book,
keys, session id, codec and SSRC are as they were. -/
theorem unmarked_of_fails {m : Machine C cfg} {x : Env × Action} {steps : List (Env × Action)}
    (hbegins : Begins C x.1 m x.2) (hfails : Fails C m (x :: steps))
    (hharm : Along (fun m x => step C x.1 m x.2)
      (fun m' x => Harmless C m.session x.1 m' x.2) m (x :: steps)) :
    Unmarked m.session (run C m (x :: steps)).session :=
  unmarked_of_clean (m := step C x.1 m x.2) (clean_begins hbegins hharm.1 hfails.1) hfails.2.2
    hfails.2.1 hharm.2

section Examples

open Pairing

/-- A host with a guest. -/
noncomputable def occupied : Machine Crypto.toy Config.default :=
  run Crypto.toy lobby.machine hosting

/-- The greeting of a newcomer that prefers the codec of the room. -/
def sameHelloDatagram : Bytes :=
  PacketBuilder.bytes (PacketHeader.new MessageType.handshakeClientHello.code 0 0 0)
    { otherHello with codecPreferred := hello.codecPreferred }.encode

noncomputable def greets : Env × Action := (at' 2, .poll newcomer sameHelloDatagram)

/-- The transport fails after the newcomer was answered. -/
noncomputable def broken : List (Env × Action) := [(at' 2, .input (.ioError .timeout))]

theorem harmless_greets : Harmless Crypto.toy occupied.session greets.1 occupied greets.2 := by
  have hrun : occupied.task.opens = false ∧ occupied.task.accepts = false ∧
      ∀ first ∈ greeting Crypto.toy greets.1 occupied greets.2,
        Repeats Crypto.toy greets.1 occupied.session first := by decide +kernel
  obtain ⟨hopens, haccepts, hrepeats⟩ := hrun
  constructor
  case called => intro role peer ha; cases ha
  case greeted => exact hrepeats
  case answered =>
    intro peer fallback hs nonce sid msg1 attempt input hs' hello2 agreed _ ha
    cases ha
  case completed => intro peer _ hopen; exact Bool.noConfusion (hopens.symm.trans hopen)
  case confirmed => intro peer noise fallback wait input confirm _ ha; cases ha
  case accepts =>
    rintro (h | ⟨-, ha⟩)
    · exact Bool.noConfusion (haccepts.symm.trans h)
    · cases ha
  case moves => intro caller noise legacy cycle next sender raw _ ha; cases ha
  case dropped => intro ha; cases ha
  case closing => intro ha; cases ha
  case reopening => intro ha; cases ha

theorem harmless_broken {m : Machine Crypto.toy Config.default} {s : Session Config.default}
    (hopens : m.task.opens = false) (haccepts : m.task.accepts = false) :
    Harmless Crypto.toy s (at' 2) m (.input (.ioError .timeout)) := by
  constructor
  case called => intro role peer ha; cases ha
  case greeted => intro first hfirst; cases hfirst
  case answered =>
    rintro peer fallback hs nonce sid msg1 attempt input hs' hello2 agreed - ha
      ⟨sender, raw, -, -, hin, -⟩
    rw [hin] at ha
    cases ha
  case completed => intro peer _ hopen; exact Bool.noConfusion (hopens.symm.trans hopen)
  case confirmed =>
    rintro peer noise fallback wait input confirm - ha ⟨sender, raw, -, hin, -⟩
    rw [hin] at ha
    cases ha
  case accepts =>
    rintro (h | ⟨-, ha⟩)
    · exact Bool.noConfusion (haccepts.symm.trans h)
    · cases ha
  case moves => intro caller noise legacy cycle next sender raw _ ha; cases ha
  case dropped => intro ha; cases ha
  case closing => intro ha; cases ha
  case reopening => intro ha; cases ha

/-- The attempt goes on after the step. -/
def GoesOn (C : Crypto) (m : Machine C cfg) (x : Env × Action) : Prop :=
  (step C x.1 m x.2).session.history.installed = m.session.history.installed ∧
    (step C x.1 m x.2).task.awaitsKey = true

/-- The attempt is over after the step, and no key was stored. -/
def EndsHere (C : Crypto) (m : Machine C cfg) (x : Env × Action) : Prop :=
  (step C x.1 m x.2).session.history.installed = m.session.history.installed ∧
    (step C x.1 m x.2).task.rests = true

instance (m : Machine C cfg) (x : Env × Action) : Decidable (GoesOn C m x) :=
  inferInstanceAs (Decidable (_ ∧ _))

instance (m : Machine C cfg) (x : Env × Action) : Decidable (EndsHere C m x) :=
  inferInstanceAs (Decidable (_ ∧ _))

theorem fails_last {m : Machine C cfg} {x : Env × Action} (hend : EndsHere C m x) :
    Fails C m [x] :=
  ⟨fun h => h.1 hend.1, fun _ => rfl, hend.2⟩

theorem fails_first {m : Machine C cfg} {x : Env × Action} {steps : List (Env × Action)}
    (hgo : GoesOn C m x) (h : Fails C (step C x.1 m x.2) steps) : Fails C m (x :: steps) := by
  refine ⟨fun h => h.1 hgo.1, fun hidle => ?_, h⟩
  have hbusy := hgo.2
  rw [hidle] at hbusy
  cases hbusy

theorem unmarked_broken :
    (run Crypto.toy occupied [greets]).session.peers.book.peers = [guest, newcomer] ∧
      Unmarked occupied.session (run Crypto.toy occupied (greets :: broken)).session := by
  let m := step Crypto.toy greets.1 occupied greets.2
  have hrun : (greeting Crypto.toy greets.1 occupied greets.2).isSome = true ∧
      GoesOn Crypto.toy occupied greets ∧ m.task.opens = false ∧ m.task.accepts = false ∧
      (run Crypto.toy occupied [greets]).session.peers.book.peers = [guest, newcomer] ∧
      EndsHere Crypto.toy m (at' 2, .input (.ioError .timeout)) := by decide +kernel
  obtain ⟨hgreets, hgo, hopens, haccepts, hbook, hend⟩ := hrun
  obtain ⟨first, hfirst⟩ := Option.isSome_iff_exists.mp hgreets
  have hbegins : Begins Crypto.toy greets.1 occupied greets.2 := .poll hfirst
  have hfails : Fails Crypto.toy occupied (greets :: broken) := fails_first hgo (fails_last hend)
  have hharm : Along (fun m x => step Crypto.toy x.1 m x.2)
      (fun m' x => Harmless Crypto.toy occupied.session x.1 m' x.2) occupied (greets :: broken) :=
    along_cons.mpr ⟨harmless_greets, along_cons.mpr ⟨harmless_broken hopens haccepts, trivial⟩⟩
  exact ⟨hbook, unmarked_of_fails hbegins hfails hharm⟩

/-- A host in a call is asked to take in somebody else, and refuses. -/
theorem unmarked_refused :
    let x : Env × Action := (at' 2, .handshake .server newcomer)
    let m := run Crypto.toy occupied [x]
    occupied.session.peers.book.peers = [guest] ∧ Fails Crypto.toy occupied [x] ∧
      m.session.status.state = .active ∧ m.session.peers.book.peers = [guest, newcomer] ∧
      ¬ Unmarked occupied.session m.session := by
  intro x m
  have hrun : occupied.session.peers.book.peers = [guest] ∧ EndsHere Crypto.toy occupied x ∧
      m.session.status.state = .active ∧ m.session.peers.book.peers = [guest, newcomer] := by
    decide +kernel
  obtain ⟨hguest, hend, hactive, hboth⟩ := hrun
  refine ⟨hguest, fails_last hend, hactive, hboth, ?_⟩
  intro h
  rw [h.book, hguest] at hboth
  cases hboth

end Examples

end Machine
end GravitalTalk
