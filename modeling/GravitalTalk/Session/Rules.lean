import GravitalTalk.Session.Effects

/-!
# Invariants of the machine

Whether a predicate survives every step of the machine is decided by how it
copes with a few kinds of change: the effects on a session, the keys a handshake
hands on from one wait to the next, and the first message a server lets in.
`Rules` lists them, `step` applies them.
-/
namespace GravitalTalk
namespace Machine

open Session Rendezvous Relation

variable {cfg : Config} {C : Crypto} {env : Env} {i : Arrival}
  {s₀ s t : Session cfg}

/-- `S` holds of sessions, `K` of the keys about to be stored, `N` of a client's
Noise state, `A` of the first messages let in; `F` says whether a client may use
the legacy handshake. -/
structure Rules (C : Crypto) (env : Env) (i : Arrival) (s₀ : Session cfg)
    (S : Session cfg → Prop) (K : SessionKey → SessionKey → Prop) (N : C.Noise → Prop)
    (A : FirstHandshake → Prop) (F : Prop) : Prop where
  rx : ∀ {s t}, S s → RxEffects C env i s₀ s t → S t
  calm : ∀ {s t}, S s → Calm s t → S t
  insert : ∀ {s} a, S s → S { s with peers := s.peers.insert a }
  remove : ∀ {s} a, S s → S { s with peers := s.peers.remove a }
  clearBook : ∀ {s}, S s → S { s with peers := s.peers.clearBook }
  joins : ∀ {s} pending, S s →
    (∀ a p, Finmap.lookup a pending = some p → K p.encKey p.decKey) →
    S { s with pendingJoins := pending }
  pending : ∀ {s a p}, S s → s.pendingJoins.lookup a = some p → K p.encKey p.decKey
  install : ∀ {s enc dec} peer, S s → K enc dec → S (s.installKeys env peer enc dec)
  close : ∀ {s}, S s → S (s.close env)
  noiseServer : ∀ {s t msg1 p}, S s → s.noiseServerBegin C env msg1 = (.ok p, t) →
    K p.encKey p.decKey
  legacyServer : ∀ {s t peer hello w}, A (.legacy hello) → S s →
    s.legacyServerBegin C env peer hello = (.ok w, t) → K w.encKey w.decKey
  legacyClient : ∀ {s t peer wait payload w}, F → S s →
    s.clientAnswer C env peer wait payload = (.ok w, t) → K w.encKey w.decKey
  noiseBegin : ∀ {s hs msg1}, S s → s.noiseClientBegin C env = .ok (hs, msg1) → N hs
  noiseRead : ∀ {hs hs' msg payload}, N hs → C.noiseRead hs msg = some (payload, hs') → N hs'
  noiseClient : ∀ {s t peer hs nonce sid hello2 w}, N hs → S s →
    s.noiseClientAnswer C env peer hs nonce sid hello2 = (.ok w, t) → K w.encKey w.decKey
  legacyMode : ∀ {s}, S s → s.settings.handshakeMode = .legacy → F
  autoMode : ∀ {s}, S s → s.settings.handshakeMode = .auto → s.hasRoomToken = false → F

/-- What a waiting task carries is as the rules want it. -/
def TaskOk (K : SessionKey → SessionKey → Prop) (N : C.Noise → Prop) (F : Prop) :
    Task C → Prop
  | .idle => True
  | .waitFirst .. => True
  | .legacyKe _ _ wait => K wait.encKey wait.decKey
  | .noiseKe _ _ pending => K pending.encKey pending.decKey
  | .helloSent .. => F
  | .noiseSent _ fallback hs .. => (fallback = true → F) ∧ N hs
  | .confirm _ _ fallback wait => (fallback = true → F) ∧ K wait.encKey wait.decKey

def Good (S : Session cfg → Prop) (K : SessionKey → SessionKey → Prop) (N : C.Noise → Prop)
    (F : Prop) (m : Machine C cfg) : Prop :=
  S m.session ∧ TaskOk K N F m.task

theorem sendsOnly_punchHint (C : Crypto) (env : Env) (sweep : Bool) (hint : SocketAddr)
    (s : Session cfg) : SendsOnly s (punchHint C env sweep hint s) := by
  unfold punchHint
  dsimp only
  split_ifs
  · exact (sendsOnly_sendRv C env _ _ s).trans (sendsOnly_punchNeighbours C env _ _ _)
  · exact sendsOnly_sendRv C env _ _ s

theorem sendsOnly_announce (C : Crypto) (env : Env) (cycle : ℕ) (s : Session cfg) :
    SendsOnly s (announce C env cycle s) := by
  unfold announce
  dsimp only
  refine SendsOnly.trans ?_
    (SendsOnly.foldl (fun s hint => sendsOnly_punchHint C env _ hint s) _ _)
  split
  · rfl
  · split_ifs
    · exact (sendsOnly_sendRv C env _ _ s).trans (sendsOnly_sendControl env _ _ _ _ _)
    · exact sendsOnly_sendRv C env _ _ s

/-- Only a setting is changed. -/
theorem armRelay_eq (C : Crypto) (s : Session cfg) :
    armRelay C s = { s with settings := (armRelay C s).settings } := by
  cases hserver : s.rendezvousServer with
  | none => simp only [armRelay, hserver]
  | some server => simp only [armRelay, hserver]

theorem calm_armRelay (C : Crypto) (s : Session cfg) : Calm s (armRelay C s) := by
  have hset (id : UInt32) : Calm s { s with settings.presetSessionId := id } :=
    (.of_eq rfl rfl rfl rfl rfl)
  cases h : s.rendezvousServer with
  | none => rw [armRelay, h]
  | some server =>
    rw [armRelay, h]
    exact hset _

namespace Rules

variable {S : Session cfg → Prop} {K : SessionKey → SessionKey → Prop} {N : C.Noise → Prop}
  {A : FirstHandshake → Prop} {F : Prop} (R : Rules C env i s₀ S K N A F)

include R

/-! ## Server -/

theorem sends (h : S s) (hsend : SendsOnly s t) : S t := R.calm h hsend.calm

theorem transition (h : S s) (e : SessionEvent) : S (s.transition e) :=
  R.calm h (calm_transition s e)

theorem setState (h : S s) (state : SessionState) : S { s with status.state := state } :=
  R.calm h (.of_eq rfl rfl rfl rfl rfl)

theorem waitHead (h : S s) (caller : Caller) (expect : Option SocketAddr) (noise legacy : Bool)
    (cycle next : ℕ) : Good S K N F (waitHead C env caller expect noise legacy cycle next s) := by
  unfold Machine.waitHead
  split_ifs
  · exact ⟨R.sends h (sendsOnly_announce C env cycle s), trivial⟩
  · exact ⟨h, trivial⟩

theorem retryAccept (h : S s) : Good S K N F (retryAccept C env s) := by
  have h' := R.clearBook (R.transition (R.transition (R.transition h .handshakeTimeout)
    .reconnect) .startAccept)
  unfold Machine.retryAccept
  dsimp only
  split_ifs
  · exact ⟨R.transition h' .close, trivial⟩
  · exact R.waitHead h' _ _ _ _ _ _

theorem finished (h : S s) (caller : Caller) (peer : Option SocketAddr)
    (result : Except TransportError Unit) : Good S K N F (finished C env caller peer result s) := by
  unfold Machine.finished
  split
  · exact ⟨R.transition h _, trivial⟩
  · exact ⟨R.transition h _, trivial⟩
  · exact ⟨R.transition h _, trivial⟩
  · exact ⟨R.transition h _, trivial⟩
  · exact R.retryAccept h
  · exact ⟨h, trivial⟩
  · exact ⟨h, trivial⟩
  · split
    · exact ⟨R.remove _ h, trivial⟩
    · exact ⟨h, trivial⟩

theorem unlessClosed (h : S s) (caller : Caller) (peer : Option SocketAddr) {task : Task C}
    (htask : TaskOk K N F task) : Good S K N F (unlessClosed C env caller peer s task) := by
  unfold Machine.unlessClosed
  split_ifs
  · exact R.finished h _ _ _
  · exact ⟨h, htask⟩

theorem beginNoise (h : S s) (caller : Caller) (peer : SocketAddr) (msg1 : Bytes) :
    Good S K N F (beginNoise C env caller peer msg1 s) := by
  have hcalm := (steady_noiseServerBegin C env msg1 s).calm
  unfold Machine.beginNoise
  split
  · rename_i e t ht
    rw [ht] at hcalm
    exact R.finished (R.calm h hcalm) _ _ _
  · rename_i p t ht
    rw [ht] at hcalm
    have hkey := R.noiseServer h ht
    split
    · rename_i e u hu
      exact R.finished (R.calm h (hcalm.trans (calm_of_sendControl hu))) _ _ _
    · rename_i u hu
      exact R.unlessClosed (R.calm h (hcalm.trans (calm_of_sendControl hu))) _ _ hkey

theorem beginLegacy (h : S s) (caller : Caller) (peer : SocketAddr) {hello : ClientHello}
    (hA : A (.legacy hello)) : Good S K N F (beginLegacy C env caller peer hello s) := by
  have hcalm := (steady_legacyServerBegin C env peer hello s).calm
  unfold Machine.beginLegacy
  split
  · rename_i e t ht
    rw [ht] at hcalm
    exact R.finished (R.calm h hcalm) _ _ _
  · rename_i w t ht
    rw [ht] at hcalm
    exact R.unlessClosed (R.calm h hcalm) _ _ (R.legacyServer hA h ht)

theorem beginServer (h : S s) (caller : Caller) (peer : SocketAddr) (first : FirstHandshake)
    (hA : A first) : Good S K N F (beginServer C env caller peer s first) := by
  cases first with
  | noise msg1 => exact R.beginNoise h caller peer msg1
  | legacy hello => exact R.beginLegacy h caller peer hA

/-- The end of a handshake that stores keys the rules accept, or fails. -/
theorem settles {peer : SocketAddr} {enc dec : SessionKey}
    {r : Except TransportError Unit × Session cfg} (hr : Settles env peer enc dec s r) (h : S s)
    (hK : K enc dec) : S r.2 := by
  rcases hr with ⟨e, -, hcalm⟩ | ⟨-, t, hcalm, ht⟩
  · exact R.calm h hcalm.calm
  · rw [ht]
    exact R.install peer (R.calm h hcalm.calm) hK

theorem onKeyExchange (h : S s) (caller : Caller) (peer : SocketAddr) (greeting : MessageType)
    {resend : Session cfg → Except TransportError Unit × Session cfg}
    {finish : KeyExchangeMsg → Session cfg → Except TransportError Unit × Session cfg}
    {task : Task C} (input : Input) (hresend : ∀ {s r t}, resend s = (r, t) → Calm s t)
    {enc dec : SessionKey} (hfinish : ∀ ke s, Settles env peer enc dec s (finish ke s))
    (hK : K enc dec) (htask : TaskOk K N F task) :
    Good S K N F (onKeyExchange C env caller peer greeting resend finish task input s) := by
  unfold Machine.onKeyExchange
  split
  · split
    · split
      · rename_i e t ht
        exact R.finished (R.calm h (hresend ht)) _ _ _
      · rename_i t ht
        exact R.unlessClosed (R.calm h (hresend ht)) _ _ htask
    · split
      · exact R.unlessClosed h _ _ htask
      · split
        · exact R.finished h _ _ _
        · exact R.finished (R.settles (hfinish _ s) h hK) _ _ _
  · exact R.unlessClosed h _ _ htask
  · exact R.finished h _ _ _
  · split_ifs
    · exact R.finished h _ _ _
    · exact ⟨h, htask⟩

/-! ## Client -/

omit R in
theorem good_idle (h : S s) : Good S K N F (rest C s) := ⟨h, trivial⟩

theorem clientEnded (h : S s) (result : Except TransportError Unit) :
    Good S K N F (clientEnded C result s) := by
  cases result with
  | ok _ => exact good_idle (R.transition h _)
  | error _ => exact good_idle (R.transition h _)

theorem sendHello (h : S s) (hF : F) (peer : SocketAddr) (wait : HelloWait) (attempt : ℕ) :
    Good S K N F (sendHello C env peer wait attempt s) := by
  unfold Machine.sendHello
  split
  · rename_i e t ht
    exact R.clientEnded (R.calm h (calm_of_sendControl ht)) _
  · rename_i t ht
    exact ⟨R.calm h (calm_of_sendControl ht), hF⟩

theorem noiseEnded (h : S s) (peer : SocketAddr) {fallback : Bool} (hF : fallback = true → F)
    (e : TransportError) : Good S K N F (noiseEnded C env peer fallback e s) := by
  unfold Machine.noiseEnded
  split_ifs with hfall
  · exact R.sendHello h (hF hfall.1) _ _ _
  · exact R.clientEnded h _

theorem sendNoise (h : S s) (peer : SocketAddr) {fallback : Bool} (hF : fallback = true → F)
    {hs : C.Noise} (hN : N hs) (nonce : Vector UInt8 32) (sid : UInt32) (msg1 : Bytes)
    (attempt : ℕ) : Good S K N F (sendNoise C env peer fallback hs nonce sid msg1 attempt s) := by
  unfold Machine.sendNoise
  split_ifs
  · exact R.clientEnded h _
  · exact R.noiseEnded h _ hF _
  · split
    · rename_i e t ht
      exact R.noiseEnded (R.calm h (calm_of_sendControl ht)) _ hF _
    · rename_i t ht
      exact ⟨R.calm h (calm_of_sendControl ht), hF, hN⟩

theorem startNoiseClient (h : S s) (peer : SocketAddr) {fallback : Bool}
    (hF : fallback = true → F) : Good S K N F (startNoiseClient C env peer fallback s) := by
  unfold Machine.startNoiseClient
  split
  · exact R.noiseEnded h _ hF _
  · rename_i hs msg1 hbegin
    exact R.sendNoise h _ hF (R.noiseBegin h hbegin) _ _ _ _

theorem startClient (h : S s) (peer : SocketAddr) :
    Good S K N F (startClient C env peer s) := by
  unfold Machine.startClient
  split
  · rename_i hmode
    exact R.sendHello h (R.legacyMode h hmode) _ _ _
  · exact R.startNoiseClient h _ nofun
  · rename_i hmode
    exact R.startNoiseClient h _ fun htoken => R.autoMode h hmode (by simpa using htoken)

theorem onHelloSent (h : S s) (hF : F) (peer : SocketAddr) (wait : HelloWait) (attempt : ℕ)
    (input : Input) : Good S K N F (onHelloSent C env peer wait attempt input s) := by
  unfold Machine.onHelloSent
  split
  · split
    · exact ⟨h, hF⟩
    · rename_i view _
      have hcalm := (steady_clientAnswer C env peer wait view.payload s).calm
      split
      · rename_i e t ht
        rw [ht] at hcalm
        exact R.clientEnded (R.calm h hcalm) _
      · rename_i w t ht
        rw [ht] at hcalm
        exact ⟨R.calm h hcalm, nofun, R.legacyClient hF h ht⟩
  · split_ifs
    · exact R.clientEnded h _
    · exact R.sendHello h hF _ _ _
  · exact R.clientEnded h _
  · exact R.clientEnded h _

theorem onNoiseSent (h : S s) (peer : SocketAddr) {fallback : Bool} (hF : fallback = true → F)
    {hs : C.Noise} (hN : N hs) (nonce : Vector UInt8 32) (sid : UInt32) (msg1 : Bytes)
    (attempt : ℕ) (input : Input) :
    Good S K N F (onNoiseSent C env peer fallback hs nonce sid msg1 attempt input s) := by
  unfold Machine.onNoiseSent
  split
  · split
    · exact ⟨h, hF, hN⟩
    · split
      · exact R.noiseEnded h _ hF _
      · rename_i hs' hread
        have hN' := R.noiseRead hN hread
        split
        · exact R.sendNoise h _ hF hN' _ _ _ _
        · rename_i hello2 _
          have hcalm := (steady_noiseClientAnswer C env peer hs' nonce sid hello2 s).calm
          split
          · rename_i e t ht
            rw [ht] at hcalm
            exact R.noiseEnded (R.calm h hcalm) _ hF _
          · rename_i w t ht
            rw [ht] at hcalm
            exact ⟨R.calm h hcalm, hF, R.noiseClient hN' h ht⟩
  · exact R.sendNoise h _ hF hN _ _ _ _
  · exact R.noiseEnded h _ hF _
  · exact R.noiseEnded h _ hF _

theorem onConfirm (h : S s) (peer : SocketAddr) (noise : Bool) {fallback : Bool}
    (hF : fallback = true → F) {wait : ConfirmWait} (hK : K wait.encKey wait.decKey)
    (input : Input) : Good S K N F (onConfirm C env peer noise fallback wait input s) := by
  have hfailed (e : TransportError) {t : Session cfg} (ht : S t) :
      Good S K N F (if noise then Machine.noiseEnded C env peer fallback e t
        else Machine.clientEnded C (.error e) t) := by
    split_ifs
    · exact R.noiseEnded ht _ hF _
    · exact R.clientEnded ht _
  unfold Machine.onConfirm
  dsimp only
  split
  · split
    · exact ⟨h, hF, hK⟩
    · rename_i view _
      have hsettles : Settles env peer wait.encKey wait.decKey s
          (if noise then s.noiseClientFinish C env peer wait view.payload
            else s.clientFinish C env peer wait view.payload) := by
        split_ifs
        · exact settles_noiseClientFinish C env peer wait _ s
        · exact settles_clientFinish C env peer wait _ s
      have hr := R.settles hsettles h hK
      split
      · rename_i e t ht
        rw [ht] at hr
        exact hfailed e hr
      · rename_i t ht
        rw [ht] at hr
        exact R.clientEnded hr _
  · exact ⟨h, hF, hK⟩
  · exact hfailed _ h
  · exact hfailed _ h

/-! ## Datagrams and calls -/

theorem beginJoin (h : S s) (peer : SocketAddr) (msg1 : Bytes) :
    S (s.beginJoin C env peer msg1) := by
  have hretain : S { s with
      pendingJoins := Table.retain
        (fun _ p => msSince env.now p.started < handshakeTimeoutMs) s.pendingJoins } := by
    refine R.joins _ h fun a p hp => ?_
    rw [Table.lookup_retain, Option.filter_eq_some_iff] at hp
    exact R.pending h hp.1
  unfold Session.beginJoin
  dsimp only
  split
  · exact R.sends hretain (sendsOnly_sendControl env _ _ _ _ _)
  · split_ifs
    · exact hretain
    · split
      · rename_i e t ht
        have hcalm := (steady_noiseServerBegin C env msg1 { s with
          pendingJoins := Table.retain
            (fun _ p => msSince env.now p.started < handshakeTimeoutMs) s.pendingJoins }).calm
        rw [ht] at hcalm
        exact R.calm hretain hcalm
      · rename_i p t ht
        have hcalm := (steady_noiseServerBegin C env msg1 { s with
          pendingJoins := Table.retain
            (fun _ p => msSince env.now p.started < handshakeTimeoutMs) s.pendingJoins }).calm
        rw [ht] at hcalm
        have ht' := R.calm hretain hcalm
        have hkey := R.noiseServer hretain ht
        refine R.sends (R.joins _ ht' fun a q hq => ?_) (sendsOnly_sendControl env _ _ _ _ _)
        rw [Table.lookup_insert_eq] at hq
        split_ifs at hq
        · cases hq
          exact hkey
        · exact R.pending ht' hq

theorem finishJoin (h : S s) (view : PacketView) (sender : SocketAddr) :
    S (s.finishJoin env view sender).2 := by
  unfold Session.finishJoin
  split_ifs
  · exact h
  · split
    · exact h
    · rename_i p hp
      have hkey := R.pending h hp
      have herase : S { s with pendingJoins := s.pendingJoins.erase sender } := by
        refine R.joins _ h fun a q hq => ?_
        rw [Table.lookup_erase_eq] at hq
        split_ifs at hq
        exact R.pending h hq
      dsimp only
      split
      · exact herase
      · rename_i ke _
        have hr := R.settles (settles_noiseServerFinish env sender p ke _) herase hkey
        split
        · rename_i e t ht
          rwa [ht] at hr
        · rename_i t ht
          rw [ht] at hr
          exact R.insert _ hr

/-- The packet part that both receive loops share. -/
theorem dispatchPacket {raw : Bytes} {sender : SocketAddr} (hi : i = .loop sender raw)
    (h : S s) (hq : Quiet s₀ s) {view : PacketView} (hview : PacketView.decode raw = .ok view) :
    S (s.dispatchPacket C env view raw sender).2 := by
  subst hi
  exact R.rx h (rx_dispatchPacket hq hview)

theorem recvDatagram {raw : Bytes} {sender : SocketAddr} (hi : i = .loop sender raw)
    (h : S s₀) : S (s₀.recvDatagram C env raw sender).2 := by
  have hcount := sendsOnly_recordReceived s₀ raw.length
  have hheard := quiet_heard env s₀ raw.length
  have hs := R.calm h hheard.calm
  unfold Session.recvDatagram
  dsimp only
  split_ifs
  · subst hi
    exact R.rx (R.sends h hcount) (rx_onRendezvous rfl hcount)
  · split
    · exact R.calm h (.of_eq rfl rfl rfl rfl rfl)
    · rename_i view hview
      split
      · exact R.beginJoin hs _ _
      · exact hs
      · have hfinish := R.finishJoin hs view sender
        split
        · rename_i t ht
          rwa [ht] at hfinish
        · rename_i t ht
          rw [eq_of_finishJoin_false ht]
          exact R.dispatchPacket hi hs hheard hview

theorem pollDatagram {raw : Bytes} {sender : SocketAddr} (hi : i = .loop sender raw)
    (h : S s₀) : S (s₀.pollDatagram C env raw sender).2 := by
  have hheard := quiet_heard env s₀ raw.length
  have hs := R.calm h hheard.calm
  unfold Session.pollDatagram
  dsimp only
  split
  · exact R.calm h (.of_eq rfl rfl rfl rfl rfl)
  · rename_i view hview
    split
    · exact hs
    · exact R.dispatchPacket hi hs hheard hview

theorem afterDatagram {sender : SocketAddr} {r : Followup × Session cfg} (h : S r.2)
    (hA : ∀ first, r.1 = .promote first → A first) :
    Good S K N F (afterDatagram C env sender r) := by
  unfold Machine.afterDatagram
  split
  · exact good_idle h
  · rename_i first hfirst
    exact R.beginServer (R.insert _ h) _ _ first (hA first hfirst)

theorem onWaitFirst (caller : Caller) (expect : Option SocketAddr) (noise legacy : Bool)
    (cycle next : ℕ) (input : Input) (h : S s₀)
    (hi : ∀ sender raw, input = .datagram sender raw → i.datagram = some (sender, raw))
    (hA : ∀ sender raw first, input = .datagram sender raw →
      (hearFirst C env expect noise legacy sender raw s₀).1 = some first → A first) :
    Good S K N F (onWaitFirst C env caller expect noise legacy cycle next input s₀) := by
  have hagain {t : Session cfg} (ht : S t) : Good S K N F (if t.status.closed then
      Machine.finished C env caller none (.error (.peerClosed "session closed")) t
      else Machine.waitHead C env caller expect noise legacy cycle next t) := by
    split_ifs
    · exact R.finished ht _ _ _
    · exact R.waitHead ht _ _ _ _ _ _
  unfold Machine.onWaitFirst
  dsimp only
  split
  · rename_i sender raw
    have hhear : S (hearFirst C env expect noise legacy sender raw s₀).2 := by
      unfold hearFirst
      split
      · split
        · exact R.rx h (rx_onRendezvous (hi sender raw rfl) (.refl _))
        · exact h
      · split
        · exact h
        · split
          · exact h
          · exact h
    split
    · rename_i t ht
      rw [ht] at hhear
      exact hagain hhear
    · rename_i first t ht
      have hfirst := hA sender raw first rfl (by rw [ht])
      rw [ht] at hhear
      refine R.beginServer ?_ _ _ _ hfirst
      unfold registerPeer
      split_ifs
      · exact R.insert _ hhear
      · exact hhear
  · exact hagain h
  · exact R.finished h _ _ _
  · split_ifs
    · exact R.finished h _ _ _
    · exact ⟨h, trivial⟩

theorem handshake (h : S s) (role : SessionRole) (peer : SocketAddr) :
    Good S K N F (handshake C env role peer s) := by
  have hins := R.insert peer h
  unfold Machine.handshake
  dsimp only
  split
  · exact good_idle hins
  · rename_i state _
    have hstate := R.setState hins state
    split
    · exact R.startClient hstate peer
    · have hhole : ∀ r : Except TransportError Unit × Session cfg,
          r = (if s.settings.presetSessionId ≠ 0 then
            sendControl env .heartbeat s.settings.presetSessionId [] peer
              { s with peers := s.peers.insert peer, status.state := state }
          else (.ok (), { s with peers := s.peers.insert peer, status.state := state })) →
          S r.2 := by
        rintro r rfl
        split
        · exact R.sends hstate (sendsOnly_sendControl env _ _ _ _ _)
        · exact hstate
      split
      · rename_i e t ht
        exact R.finished (hhole _ ht.symm) _ _ _
      · rename_i t ht
        have hs := hhole _ ht.symm
        split_ifs
        · exact R.finished hs _ _ _
        · exact R.waitHead hs _ _ _ _ _ _

theorem handshakeOpen (h : S s) : Good S K N F (handshakeOpen C env s) := by
  have harm := R.calm h (calm_armRelay C s)
  unfold Machine.handshakeOpen
  generalize armRelay C s = u at harm
  dsimp only
  split
  · exact good_idle harm
  · rename_i state _
    have hstate := R.setState harm state
    split
    · exact good_idle (R.transition hstate _)
    · exact R.waitHead hstate _ _ _ _ _ _

theorem acceptAdditionalPeer (h : S s) : Good S K N F (acceptAdditionalPeer C env s) := by
  unfold Machine.acceptAdditionalPeer
  split_ifs
  · exact good_idle h
  · exact R.waitHead h _ _ _ _ _ _

end Rules

/-! ## One step -/

/-- The datagram that an action brings in. A receive loop does not read while a
handshake does. -/
def arrival (m : Machine C cfg) : Action → Arrival
  | .input (.datagram sender raw) => .handshake sender raw
  | .recv sender raw | .poll sender raw =>
    match m.task with
    | .idle => .loop sender raw
    | _ => .none
  | _ => .none

/-- Bytes that an action brings in. -/
def Action.bytes : Action → Option Bytes
  | .input (.datagram _ raw) | .recv _ raw | .poll _ raw => some raw
  | _ => none

theorem bytes_of_arrival {m : Machine C cfg} {a : Action} {sender : SocketAddr} {raw : Bytes}
    (h : m.arrival a = .loop sender raw) : a.bytes = some raw := by
  unfold arrival at h
  split at h
  · cases h
  · split at h
    · cases h
      rfl
    · cases h
  · split at h
    · cases h
      rfl
    · cases h
  · cases h

theorem arrival_of_idle {m : Machine C cfg} (h : m.task = .idle) (sender : SocketAddr)
    (raw : Bytes) : m.arrival (.recv sender raw) = .loop sender raw ∧
      m.arrival (.poll sender raw) = .loop sender raw := by
  simp [arrival, h]

theorem arrival_recv {m : Machine C cfg} {sender guest : SocketAddr} {raw raw' : Bytes}
    (h : m.arrival (.recv guest raw') = .loop sender raw) : sender = guest ∧ raw = raw' := by
  simp only [arrival] at h
  split at h
  · cases h
    exact ⟨rfl, rfl⟩
  · cases h

/-- The settings that invariants depend on are set by this action. -/
def Action.sets : Action → Bool
  | .setRoomToken _ | .setHandshakeMode _ | .setMultiPeer _ => true
  | _ => false

/-- Every first message that the action lets in meets `A`. -/
def Admits (C : Crypto) (env : Env) (A : FirstHandshake → Prop) (m : Machine C cfg) :
    Action → Prop
  | .input (.datagram sender raw) => ∀ caller expect noise legacy cycle next first,
      m.task = .waitFirst caller expect noise legacy cycle next →
      (hearFirst C env expect noise legacy sender raw m.session).1 = some first → A first
  | .recv sender raw | .poll sender raw => ∀ view first, m.task = .idle →
      PacketView.decode raw = .ok view → m.session.peekNewPeer view sender = some first → A first
  | _ => True

theorem promote_of_recvDatagram {raw : Bytes} {sender : SocketAddr} {first : FirstHandshake}
    (h : (s.recvDatagram C env raw sender).1 = .promote first) :
    ∃ view, PacketView.decode raw = .ok view ∧ s.peekNewPeer view sender = some first := by
  unfold Session.recvDatagram at h
  dsimp only at h
  split at h
  · cases h
  · split at h
    · cases h
    · rename_i view hview
      split at h
      · cases h
      · rename_i first' _ hpeek
        cases h
        exact ⟨view, hview, hpeek⟩
      · split at h
        · cases h
        · cases h

theorem promote_of_pollDatagram {raw : Bytes} {sender : SocketAddr} {first : FirstHandshake}
    (h : (s.pollDatagram C env raw sender).1 = .promote first) :
    ∃ view, PacketView.decode raw = .ok view ∧ s.peekNewPeer view sender = some first := by
  unfold Session.pollDatagram at h
  dsimp only at h
  split at h
  · cases h
  · rename_i view hview
    split at h
    · rename_i first' hpeek
      cases h
      exact ⟨view, hview, hpeek⟩
    · cases h

variable {S : Session cfg → Prop} {K : SessionKey → SessionKey → Prop} {N : C.Noise → Prop}
  {A : FirstHandshake → Prop} {F : Prop} {m : Machine C cfg}

theorem Rules.onInput {input : Input}
    (R : Rules C env (m.arrival (.input input)) m.session S K N A F) (h : Good S K N F m)
    (hA : Admits C env A m (.input input)) :
    Good S K N F (onInput C env input m) := by
  obtain ⟨hS, hT⟩ := h
  unfold Machine.onInput
  split
  · exact ⟨hS, hT⟩
  · rename_i htask
    refine R.onWaitFirst _ _ _ _ _ _ _ hS ?_ ?_
    · rintro sender raw rfl
      rfl
    · rintro sender raw first rfl hfirst
      exact hA _ _ _ _ _ _ first htask hfirst
  · rename_i caller peer wait htask
    rw [htask] at hT
    exact R.onKeyExchange hS _ _ _ _ (fun h => calm_of_sendControl h)
      (fun ke s => settles_legacyServerFinish C env peer wait ke s) hT hT
  · rename_i caller peer pending htask
    rw [htask] at hT
    exact R.onKeyExchange hS _ _ _ _ (fun h => calm_of_sendControl h)
      (fun ke s => settles_noiseServerFinish env peer pending ke s) hT hT
  · rename_i htask
    rw [htask] at hT
    exact R.onHelloSent hS hT _ _ _ _
  · rename_i htask
    rw [htask] at hT
    exact R.onNoiseSent hS _ hT.1 hT.2 _ _ _ _ _
  · rename_i htask
    rw [htask] at hT
    exact R.onConfirm hS _ _ hT.1 hT.2 _

theorem Rules.whenIdle (h : Good S K N F m) {f : Session cfg → Machine C cfg}
    (hf : m.task = .idle → Good S K N F (f m.session)) : Good S K N F (whenIdle C m f) := by
  unfold Machine.whenIdle
  split
  · rename_i htask
    exact hf htask
  · exact h

/-- Every step that sets none of the settings keeps what the rules keep, if
speaking and reopening do. -/
theorem Rules.step {a : Action} (R : Rules C env (m.arrival a) m.session S K N A F)
    (hsay : ∀ payload, a = .sendAudio payload → S m.session →
      S (m.session.sendAudio C env payload).2)
    (hreopen : a = .reopen → S m.session → S m.session.reopen.2)
    (h : Good S K N F m) (ha : a.sets = false) (hA : Admits C env A m a) :
    Good S K N F (step C env m a) := by
  obtain ⟨hS, hT⟩ := h
  cases a with
  | handshake role peer => exact whenIdle ⟨hS, hT⟩ fun _ => R.handshake hS role peer
  | handshakeOpen => exact whenIdle ⟨hS, hT⟩ fun _ => R.handshakeOpen hS
  | acceptAdditionalPeer => exact whenIdle ⟨hS, hT⟩ fun _ => R.acceptAdditionalPeer hS
  | input i => exact R.onInput ⟨hS, hT⟩ hA
  | cancel => exact good_idle hS
  | turn =>
    exact whenIdle ⟨hS, hT⟩ fun _ => good_idle (R.rx hS (rx_turn C env _))
  | recv sender raw =>
    refine whenIdle ⟨hS, hT⟩ fun hidle => R.afterDatagram
      (R.recvDatagram (arrival_of_idle hidle sender raw).1 hS) ?_
    intro first hfirst
    obtain ⟨view, hview, hpeek⟩ := promote_of_recvDatagram hfirst
    exact hA view first hidle hview hpeek
  | poll sender raw =>
    refine whenIdle ⟨hS, hT⟩ fun hidle => R.afterDatagram
      (R.pollDatagram (arrival_of_idle hidle sender raw).2 hS) ?_
    intro first hfirst
    obtain ⟨view, hview, hpeek⟩ := promote_of_pollDatagram hfirst
    exact hA view first hidle hview hpeek
  | pollTimeout =>
    exact whenIdle ⟨hS, hT⟩ fun _ => good_idle (R.calm hS (quiet_pollTimeout env _).calm)
  | sendAudio payload => exact ⟨hsay payload rfl hS, hT⟩
  | pttPress =>
    exact ⟨R.calm hS ((sendsOnly_signalAll env _ _ _ _ _).calm.after
      (.of_eq rfl rfl rfl rfl rfl)), hT⟩
  | pttRelease =>
    exact ⟨R.calm hS ((sendsOnly_signalAll env _ _ _ _ _).calm.after
      (.of_eq rfl rfl rfl rfl rfl)), hT⟩
  | close => exact ⟨R.close hS, hT⟩
  | reopen => exact ⟨hreopen rfl hS, hT⟩
  | setPresetSessionId id => exact ⟨R.calm hS (.of_eq rfl rfl rfl rfl rfl), hT⟩
  | setRendezvous server => exact ⟨R.calm hS (.of_eq rfl rfl rfl rfl rfl), hT⟩
  | setRelayOnly enabled => exact ⟨R.calm hS (.of_eq rfl rfl rfl rfl rfl), hT⟩
  | setOwnPublic addr => exact ⟨R.calm hS (.of_eq rfl rfl rfl rfl rfl), hT⟩
  | addPathHints addrs => exact ⟨R.calm hS (.of_eq rfl rfl rfl rfl rfl), hT⟩
  | setRoomToken token => cases ha
  | setHandshakeMode mode => cases ha
  | setMultiPeer enabled => cases ha

theorem step_sets (C : Crypto) (env : Env) (m : Machine C cfg) {a : Action}
    (ha : a.sets = true) :
    ∃ settings, (step C env m a).session = { m.session with settings := settings } := by
  cases a with
  | setRoomToken token => exact ⟨_, rfl⟩
  | setHandshakeMode mode => exact ⟨_, rfl⟩
  | setMultiPeer enabled => exact ⟨_, rfl⟩
  | _ => cases ha

/-- A step by rules that ask nothing of keys. -/
theorem Rules.step_free {a : Action} (R : Rules C env (m.arrival a) m.session S
      (fun _ _ => True) (fun _ => True) (fun _ => True) True)
    (hsay : ∀ payload, a = .sendAudio payload → S m.session →
      S (m.session.sendAudio C env payload).2)
    (hreopen : a = .reopen → S m.session → S m.session.reopen.2)
    (h : S m.session) (ha : a.sets = false) : S (Machine.step C env m a).session := by
  have htask : TaskOk (fun _ _ => True) (fun _ => True) True m.task := by
    cases m.task <;> simp [TaskOk]
  have hA : Admits C env (fun _ => True) m a := by
    cases a with
    | input i => cases i <;> simp [Admits]
    | _ => simp [Admits]
  exact (R.step hsay hreopen ⟨h, htask⟩ ha hA).1

/-- The effects themselves follow the rules, with nothing asked of keys. -/
theorem rules_effects (C : Crypto) (env : Env) (i : Arrival)
    (s₀ : Session cfg) :
    Rules C env i s₀ (fun s => Effects C env i s₀ s₀ s) (fun _ _ => True) (fun _ => True)
      (fun _ => True) True where
  rx h hrx := h.trans (effects_of_rx hrx)
  calm h hc := h.tail (.calm hc)
  insert a h := h.tail (.insert a)
  remove a h := h.tail (.remove a)
  clearBook h := h.tail .clearBook
  joins pending h _ := h.tail (.joins pending)
  pending _ _ := trivial
  install peer h _ := h.tail (.install peer _ _)
  close h := h.tail .close
  noiseServer _ _ := trivial
  legacyServer _ _ _ := trivial
  legacyClient _ _ _ := trivial
  noiseBegin _ _ := trivial
  noiseRead _ _ := trivial
  noiseClient _ _ _ := trivial
  legacyMode _ _ := trivial
  autoMode _ _ _ := trivial

/-- A step is a sequence of effects. -/
theorem step_effects (C : Crypto) (env : Env) (m : Machine C cfg) {a : Action}
    (ha : a.sets = false) :
    Effects C env (m.arrival a) m.session m.session (step C env m a).session := by
  exact (rules_effects C env (m.arrival a) m.session).step_free
    (fun payload _ h => h.tail (.say payload)) (fun _ h => h.tail .reopen) .refl ha

/-- What every effect and every setting keeps, every step keeps. -/
theorem step_invariant {Inv : Session cfg → Prop} {m : Machine C cfg} {a : Action}
    (hset : ∀ s settings, Inv s → Inv { s with settings := settings })
    (heff : ∀ {s t}, Inv s → Effect C env (m.arrival a) m.session s t → Inv t)
    (h : Inv m.session) : Inv (step C env m a).session := by
  cases ha : a.sets with
  | true =>
    obtain ⟨settings, hs⟩ := step_sets C env m ha
    rw [hs]
    exact hset _ _ h
  | false =>
    have heffs := step_effects C env m ha
    generalize (step C env m a).session = t at heffs
    induction heffs with
    | refl => exact h
    | tail _ he ih => exact heff ih he

end Machine
end GravitalTalk
