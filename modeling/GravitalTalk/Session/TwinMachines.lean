import GravitalTalk.Session.Twins

/-!
# Twin machines

The calls on a session and the events of a waiting task, for twins: they go on
waiting for the same, and their sessions stay twins.
-/
namespace GravitalTalk

open Session Machine Rendezvous

/-- Machines in the same place, with twin sessions. -/
def Machine.TwinMachines {C : Crypto} {cfg : Config} (X Y : List Mark) (m n : Machine C cfg) :
    Prop :=
  n.task = m.task ∧ Twins X Y m.session n.session

namespace Session.Twins

variable {cfg : Config} (C : Crypto) (env : Env) {s t : Session cfg} {X Y : List Mark}

theorem punchHint (h : Twins X Y s t) (sweep : Bool) (hint : SocketAddr) :
    Twins X Y (Machine.punchHint C env sweep hint s) (Machine.punchHint C env sweep hint t) := by
  unfold Machine.punchHint
  dsimp only
  split
  · exact (h.sendRv C env _ hint).punchNeighbours C env _ _
  · exact h.sendRv C env _ hint

theorem announce (h : Twins X Y s t) (cycle : ℕ) :
    Twins X Y (Machine.announce C env cycle s) (Machine.announce C env cycle t) := by
  have hhints {u v : Session cfg} (h : Twins X Y u v) :
      Twins X Y
        (u.path.pathHints.foldl
          (fun s hint => Machine.punchHint C env (cycle % punchSpreadEvery == 0) hint s) u)
        (v.path.pathHints.foldl
          (fun s hint => Machine.punchHint C env (cycle % punchSpreadEvery == 0) hint s) v) := by
    rw [h.path]
    exact foldl (fun hint _ _ h => h.punchHint C env _ hint) _ h
  unfold Machine.announce
  dsimp only
  apply hhints
  rw [h.rendezvousServer]
  cases s.rendezvousServer with
  | none => exact h
  | some server =>
    dsimp only
    have hsent := h.sendRv C env .register server
    split
    · rw [hsent.settings]
      exact (hsent.sendControl env _ _ _ _).2
    · exact hsent

theorem waitHead (h : Twins X Y s t) (caller : Caller) (expect : Option SocketAddr)
    (noise legacy : Bool) (cycle next : ℕ) :
    TwinMachines X Y (Machine.waitHead C env caller expect noise legacy cycle next s)
      (Machine.waitHead C env caller expect noise legacy cycle next t) := by
  unfold Machine.waitHead
  split
  · exact ⟨rfl, h.announce C env cycle⟩
  · exact ⟨rfl, h⟩

theorem beginWait (h : Twins X Y s t) (caller : Caller) (expect : Option SocketAddr) :
    TwinMachines X Y (Machine.beginWait C env caller expect s)
      (Machine.beginWait C env caller expect t) := by
  unfold Machine.beginWait allowNoise allowLegacy
  rw [h.settings]
  exact h.waitHead C env _ _ _ _ _ _

theorem rest (h : Twins X Y s t) : TwinMachines X Y (Machine.rest C s) (Machine.rest C t) :=
  ⟨rfl, h⟩

theorem setBook (h : Twins X Y s t) (f : AddressBook → AddressBook) :
    Twins X Y { s with peers.book := f s.peers.book } { t with peers.book := f t.peers.book } := by
  obtain ⟨c, l, k, hk, rfl⟩ := h
  exact ⟨_, _, _, hk, rfl⟩

/-- Wait for somebody, unless the session is closed. -/
theorem waitOpen (h : Twins X Y s t) :
    TwinMachines X Y
      (if s.status.closed then Machine.rest C (s.transition .close)
        else Machine.beginWait C env .acceptLoop none s)
      (if t.status.closed then Machine.rest C (t.transition .close)
        else Machine.beginWait C env .acceptLoop none t) := by
  rw [h.status]
  split
  · exact (h.transition _).rest C
  · exact h.beginWait C env _ _

theorem retryAccept (h : Twins X Y s t) :
    TwinMachines X Y (Machine.retryAccept C env s) (Machine.retryAccept C env t) := by
  have hback := ((h.transition .handshakeTimeout).transition .reconnect).transition .startAccept
  exact (hback.setBook AddressBook.clear).waitOpen C env

theorem finished (h : Twins X Y s t) (caller : Caller) (peer : Option SocketAddr)
    (result : Except TransportError Unit) :
    TwinMachines X Y (Machine.finished C env caller peer result s)
      (Machine.finished C env caller peer result t) := by
  unfold Machine.finished
  split
  · exact (h.transition _).rest C
  · exact (h.transition _).rest C
  · exact (h.transition _).rest C
  · exact (h.transition _).rest C
  · exact h.retryAccept C env
  · exact h.rest C
  · exact h.rest C
  · split
    · exact (h.setBook fun book => book.remove _).rest C
    · exact h.rest C

theorem unlessClosed (h : Twins X Y s t) (caller : Caller) (peer : Option SocketAddr)
    (task : Task C) :
    TwinMachines X Y (Machine.unlessClosed C env caller peer s task)
      (Machine.unlessClosed C env caller peer t task) := by
  unfold Machine.unlessClosed
  rw [h.status]
  split
  · exact h.finished C env _ _ _
  · exact ⟨rfl, h⟩

theorem beginNoise (h : Twins X Y s t) (caller : Caller) (peer : SocketAddr) (msg1 : Bytes) :
    TwinMachines X Y (Machine.beginNoise C env caller peer msg1 s)
      (Machine.beginNoise C env caller peer msg1 t) := by
  unfold Machine.beginNoise
  obtain ⟨r, u, v, hs, ht, hbegun⟩ := (h.noiseServerBegin C env msg1).both
  rw [hs, ht]
  cases r with
  | error e => exact hbegun.finished C env _ _ _
  | ok p =>
    obtain ⟨r, u, v, hs, ht, hsent⟩ :=
      (hbegun.sendControl env .handshakeNoiseHello2 p.sessionId p.msg2 peer).both
    dsimp only
    rw [hs, ht]
    cases r with
    | error e => exact hsent.finished C env _ _ _
    | ok _ => exact hsent.unlessClosed C env _ _ _

theorem beginLegacy (h : Twins X Y s t) (caller : Caller) (peer : SocketAddr)
    (hello : ClientHello) :
    TwinMachines X Y (Machine.beginLegacy C env caller peer hello s)
      (Machine.beginLegacy C env caller peer hello t) := by
  unfold Machine.beginLegacy
  obtain ⟨r, u, v, hs, ht, hbegun⟩ := (h.legacyServerBegin C env peer hello).both
  rw [hs, ht]
  cases r with
  | error e => exact hbegun.finished C env _ _ _
  | ok w => exact hbegun.unlessClosed C env _ _ _

theorem beginServer (h : Twins X Y s t) (caller : Caller) (peer : SocketAddr)
    (first : FirstHandshake) :
    TwinMachines X Y (Machine.beginServer C env caller peer s first)
      (Machine.beginServer C env caller peer t first) := by
  cases first with
  | noise msg1 => exact h.beginNoise C env caller peer msg1
  | legacy hello => exact h.beginLegacy C env caller peer hello

theorem registerPeer (h : Twins X Y s t) (caller : Caller) (peer : SocketAddr) :
    Twins X Y (Machine.registerPeer caller peer s) (Machine.registerPeer caller peer t) := by
  unfold Machine.registerPeer
  split
  · exact h.insertPeer peer
  · exact h

theorem hearFirst (h : Twins X Y s t) (expect : Option SocketAddr) (noise legacy : Bool)
    (sender : SocketAddr) (raw : Bytes)
    (hsilent : Message.decode raw = some (s.roomKey C, .punchAck s.settings.probeNonce) →
      silentFor env.now t.live.lastRx = silentFor env.now s.live.lastRx) :
    TwinResults X Y (Machine.hearFirst C env expect noise legacy sender raw s)
      (Machine.hearFirst C env expect noise legacy sender raw t) := by
  unfold Machine.hearFirst
  split
  · split
    · exact ⟨rfl, h.onRendezvous C env raw sender fun hmsg =>
        h.silentFor_pathIsStale (hsilent hmsg)⟩
    · exact ⟨rfl, h⟩
  · split
    · exact ⟨rfl, h⟩
    · split
      · exact ⟨rfl, h⟩
      · exact ⟨rfl, h⟩

/-! ## The client -/

theorem clientEnded (h : Twins X Y s t) (result : Except TransportError Unit) :
    TwinMachines X Y (Machine.clientEnded C result s) (Machine.clientEnded C result t) := by
  cases result with
  | ok _ => exact (h.transition _).rest C
  | error e => exact (h.transition _).rest C

theorem sendHello (h : Twins X Y s t) (peer : SocketAddr) (wait : HelloWait) (attempt : ℕ) :
    TwinMachines X Y (Machine.sendHello C env peer wait attempt s)
      (Machine.sendHello C env peer wait attempt t) := by
  unfold Machine.sendHello
  obtain ⟨r, u, v, hs, ht, hsent⟩ :=
    (h.sendControl env .handshakeClientHello wait.presetSid wait.payload peer).both
  rw [hs, ht]
  cases r with
  | error e => exact hsent.clientEnded C _
  | ok _ => exact ⟨rfl, hsent⟩

theorem startLegacyClient (h : Twins X Y s t) (peer : SocketAddr) :
    TwinMachines X Y (Machine.startLegacyClient C env peer s)
      (Machine.startLegacyClient C env peer t) := by
  unfold Machine.startLegacyClient
  rw [h.clientHello C env]
  exact h.sendHello C env _ _ _

theorem noiseEnded (h : Twins X Y s t) (peer : SocketAddr) (fallback : Bool)
    (e : TransportError) :
    TwinMachines X Y (Machine.noiseEnded C env peer fallback e s)
      (Machine.noiseEnded C env peer fallback e t) := by
  unfold Machine.noiseEnded
  split
  · exact h.startLegacyClient C env peer
  · exact h.clientEnded C _

theorem sendNoise (h : Twins X Y s t) (peer : SocketAddr) (fallback : Bool) (hs : C.Noise)
    (clientNonce : Vector UInt8 32) (presetSid : UInt32) (msg1 : Bytes) (attempt : ℕ) :
    TwinMachines X Y (Machine.sendNoise C env peer fallback hs clientNonce presetSid msg1 attempt s)
      (Machine.sendNoise C env peer fallback hs clientNonce presetSid msg1 attempt t) := by
  unfold Machine.sendNoise
  rw [h.status]
  split
  · exact h.clientEnded C _
  · split
    · exact h.noiseEnded C env _ _ _
    · obtain ⟨r, u, v, hs, ht, hsent⟩ :=
        (h.sendControl env .handshakeNoiseHello1 presetSid msg1 peer).both
      rw [hs, ht]
      cases r with
      | error e => exact hsent.noiseEnded C env _ _ _
      | ok _ => exact ⟨rfl, hsent⟩

theorem startNoiseClient (h : Twins X Y s t) (peer : SocketAddr) (fallback : Bool) :
    TwinMachines X Y (Machine.startNoiseClient C env peer fallback s)
      (Machine.startNoiseClient C env peer fallback t) := by
  unfold Machine.startNoiseClient
  rw [h.noiseClientBegin C env]
  split
  · exact h.noiseEnded C env _ _ _
  · rw [h.settings]
    exact h.sendNoise C env _ _ _ _ _ _ _

theorem startClient (h : Twins X Y s t) (peer : SocketAddr) :
    TwinMachines X Y (Machine.startClient C env peer s) (Machine.startClient C env peer t) := by
  unfold Machine.startClient hasRoomToken
  rw [h.settings]
  split
  · exact h.startLegacyClient C env peer
  · exact h.startNoiseClient C env peer _
  · exact h.startNoiseClient C env peer _

/-! ## Events of a waiting task -/

/-- The answer to a rendezvous probe depends on whether the path was silent. -/
def SameAnswer (s t : Session cfg) : Input → Prop
  | .datagram _ raw => Message.decode raw = some (s.roomKey C, .punchAck s.settings.probeNonce) →
      silentFor env.now t.live.lastRx = silentFor env.now s.live.lastRx
  | _ => True

theorem waitAgain (h : Twins X Y s t) (caller : Caller) (expect : Option SocketAddr)
    (noise legacy : Bool) (cycle next : ℕ) :
    TwinMachines X Y
      (if s.status.closed then
          Machine.finished C env caller none (.error (.peerClosed "session closed")) s
        else Machine.waitHead C env caller expect noise legacy cycle next s)
      (if t.status.closed then
          Machine.finished C env caller none (.error (.peerClosed "session closed")) t
        else Machine.waitHead C env caller expect noise legacy cycle next t) := by
  rw [h.status]
  split
  · exact h.finished C env _ _ _
  · exact h.waitHead C env _ _ _ _ _ _

theorem onWaitFirst (h : Twins X Y s t) (caller : Caller) (expect : Option SocketAddr)
    (noise legacy : Bool) (cycle next : ℕ) (input : Input) (hsame : SameAnswer C env s t input) :
    TwinMachines X Y (Machine.onWaitFirst C env caller expect noise legacy cycle next input s)
      (Machine.onWaitFirst C env caller expect noise legacy cycle next input t) := by
  cases input with
  | datagram sender raw =>
    obtain ⟨r, u, v, hs, ht, hheard⟩ :=
      (h.hearFirst C env expect noise legacy sender raw hsame).both
    unfold Machine.onWaitFirst
    dsimp only
    rw [hs, ht]
    cases r with
    | none => exact hheard.waitAgain C env _ _ _ _ _ _
    | some first => exact (hheard.registerPeer caller sender).beginServer C env _ _ _
  | timeout => exact h.waitAgain C env _ _ _ _ _ _
  | ioError e => exact h.finished C env _ _ _
  | expire =>
    unfold Machine.onWaitFirst
    dsimp only
    split
    · exact h.finished C env _ _ _
    · exact ⟨rfl, h⟩

theorem onKeyExchange (h : Twins X Y s t) (caller : Caller) (peer : SocketAddr)
    (greeting : MessageType)
    {resend : Session cfg → Except TransportError Unit × Session cfg}
    {finish : KeyExchangeMsg → Session cfg → Except TransportError Unit × Session cfg}
    (hresend : ∀ {s t}, Twins X Y s t → TwinResults X Y (resend s) (resend t))
    (hfinish : ∀ ke {s t}, Twins X Y s t → TwinResults X Y (finish ke s) (finish ke t))
    (task : Task C) (input : Input) :
    TwinMachines X Y (Machine.onKeyExchange C env caller peer greeting resend finish task input s)
      (Machine.onKeyExchange C env caller peer greeting resend finish task input t) := by
  cases input with
  | datagram sender raw =>
    unfold Machine.onKeyExchange
    dsimp only
    split
    · obtain ⟨r, u, v, hs, ht, hsent⟩ := (hresend h).both
      rw [hs, ht]
      cases r with
      | error e => exact hsent.finished C env _ _ _
      | ok _ => exact hsent.unlessClosed C env _ _ _
    · split
      · exact h.unlessClosed C env _ _ _
      · split
        · exact h.finished C env _ _ _
        · rename_i ke _
          obtain ⟨r, u, v, hs, ht, hend⟩ := (hfinish ke h).both
          rw [hs, ht]
          exact hend.finished C env _ _ _
  | timeout => exact h.unlessClosed C env _ _ _
  | ioError e => exact h.finished C env _ _ _
  | expire =>
    unfold Machine.onKeyExchange
    dsimp only
    split
    · exact h.finished C env _ _ _
    · exact ⟨rfl, h⟩

theorem onHelloSent (h : Twins X Y s t) (peer : SocketAddr) (wait : HelloWait) (attempt : ℕ)
    (input : Input) :
    TwinMachines X Y (Machine.onHelloSent C env peer wait attempt input s)
      (Machine.onHelloSent C env peer wait attempt input t) := by
  cases input with
  | datagram sender raw =>
    unfold Machine.onHelloSent
    dsimp only
    split
    · exact ⟨rfl, h⟩
    · rename_i view _
      obtain ⟨r, u, v, hs, ht, hsent⟩ := (h.clientAnswer C env peer wait view.payload).both
      rw [hs, ht]
      cases r with
      | error e => exact hsent.clientEnded C _
      | ok w => exact ⟨rfl, hsent⟩
  | timeout =>
    unfold Machine.onHelloSent
    dsimp only
    split
    · exact h.clientEnded C _
    · exact h.sendHello C env _ _ _
  | ioError e => exact h.clientEnded C _
  | expire => exact h.clientEnded C _

theorem onNoiseSent (h : Twins X Y s t) (peer : SocketAddr) (fallback : Bool) (hs : C.Noise)
    (clientNonce : Vector UInt8 32) (presetSid : UInt32) (msg1 : Bytes) (attempt : ℕ)
    (input : Input) :
    TwinMachines X Y
      (Machine.onNoiseSent C env peer fallback hs clientNonce presetSid msg1 attempt input s)
      (Machine.onNoiseSent C env peer fallback hs clientNonce presetSid msg1 attempt input t) := by
  cases input with
  | datagram sender raw =>
    unfold Machine.onNoiseSent
    dsimp only
    split
    · exact ⟨rfl, h⟩
    · split
      · exact h.noiseEnded C env _ _ _
      · split
        · exact h.sendNoise C env _ _ _ _ _ _ _
        · rename_i hs _ _ hello2 _
          obtain ⟨r, u, v, hs, ht, hsent⟩ :=
            (h.noiseClientAnswer C env peer hs clientNonce presetSid hello2).both
          rw [hs, ht]
          cases r with
          | error e => exact hsent.noiseEnded C env _ _ _
          | ok w => exact ⟨rfl, hsent⟩
  | timeout => exact h.sendNoise C env _ _ _ _ _ _ _
  | ioError e => exact h.noiseEnded C env _ _ _
  | expire => exact h.noiseEnded C env _ _ _

theorem confirmFailed (h : Twins X Y s t) (peer : SocketAddr) (noise fallback : Bool)
    (e : TransportError) :
    TwinMachines X Y
      (if noise then Machine.noiseEnded C env peer fallback e s
        else Machine.clientEnded C (.error e) s)
      (if noise then Machine.noiseEnded C env peer fallback e t
        else Machine.clientEnded C (.error e) t) := by
  split
  · exact h.noiseEnded C env _ _ _
  · exact h.clientEnded C _

theorem confirmed (h : Twins X Y s t) (peer : SocketAddr) (noise : Bool) (wait : ConfirmWait)
    (payload : Bytes) :
    TwinResults X Y
      (if noise then s.noiseClientFinish C env peer wait payload
        else s.clientFinish C env peer wait payload)
      (if noise then t.noiseClientFinish C env peer wait payload
        else t.clientFinish C env peer wait payload) := by
  split
  · exact h.noiseClientFinish C env _ _ _
  · exact h.clientFinish C env _ _ _

theorem onConfirm (h : Twins X Y s t) (peer : SocketAddr) (noise fallback : Bool)
    (wait : ConfirmWait) (input : Input) :
    TwinMachines X Y (Machine.onConfirm C env peer noise fallback wait input s)
      (Machine.onConfirm C env peer noise fallback wait input t) := by
  cases input with
  | datagram sender raw =>
    unfold Machine.onConfirm
    dsimp only
    split
    · exact ⟨rfl, h⟩
    · rename_i view _
      obtain ⟨r, u, v, hs, ht, hend⟩ := (h.confirmed C env peer noise wait view.payload).both
      rw [hs, ht]
      cases r with
      | error e => exact hend.confirmFailed C env _ _ _ _
      | ok _ => exact hend.clientEnded C _
  | timeout => exact ⟨rfl, h⟩
  | ioError e => exact h.confirmFailed C env _ _ _ _
  | expire => exact h.confirmFailed C env _ _ _ _

/-! ## Calls -/

/-- The heartbeat of a server with a preset id, and the wait for the client. -/
theorem serve (h : Twins X Y s t) (peer : SocketAddr) :
    TwinMachines X Y
      (match (if s.settings.presetSessionId ≠ 0 then
          s.sendControl env .heartbeat s.settings.presetSessionId [] peer else (.ok (), s)) with
        | (.error e, s) => Machine.finished C env .handshake peer (.error e) s
        | (.ok _, s) =>
          if s.status.closed then
            Machine.finished C env .handshake peer (.error (.peerClosed "session closed")) s
          else Machine.beginWait C env .handshake (some peer) s)
      (match (if t.settings.presetSessionId ≠ 0 then
          t.sendControl env .heartbeat t.settings.presetSessionId [] peer else (.ok (), t)) with
        | (.error e, s) => Machine.finished C env .handshake peer (.error e) s
        | (.ok _, s) =>
          if s.status.closed then
            Machine.finished C env .handshake peer (.error (.peerClosed "session closed")) s
          else Machine.beginWait C env .handshake (some peer) s) := by
  have hwait {u v : Session cfg} (h : Twins X Y u v) :
      TwinMachines X Y
        (if u.status.closed then
          Machine.finished C env .handshake peer (.error (.peerClosed "session closed")) u
        else Machine.beginWait C env .handshake (some peer) u)
        (if v.status.closed then
          Machine.finished C env .handshake peer (.error (.peerClosed "session closed")) v
        else Machine.beginWait C env .handshake (some peer) v) := by
    rw [h.status]
    split
    · exact h.finished C env _ _ _
    · exact h.beginWait C env _ _
  rw [h.settings]
  by_cases hpreset : s.settings.presetSessionId ≠ 0
  · rw [if_pos hpreset, if_pos hpreset]
    obtain ⟨r, u, v, hs, ht, hsent⟩ :=
      (h.sendControl env .heartbeat s.settings.presetSessionId [] peer).both
    rw [hs, ht]
    cases r with
    | error e => exact hsent.finished C env _ _ _
    | ok _ => exact hwait hsent
  · rw [if_neg hpreset, if_neg hpreset]
    exact hwait h

theorem handshake (h : Twins X Y s t) (role : SessionRole) (peer : SocketAddr) :
    TwinMachines X Y (Machine.handshake C env role peer s)
      (Machine.handshake C env role peer t) := by
  have hbook := h.insertPeer peer
  unfold Machine.handshake
  dsimp only
  rw [congrArg Status.state h.status]
  split
  · exact hbook.rest C
  · rename_i state _
    have hset := hbook.setStatus fun st => { st with state := state }
    cases role with
    | client => exact hset.startClient C env peer
    | server => exact hset.serve C env peer

theorem armRelay (h : Twins X Y s t) :
    Twins X Y (Machine.armRelay C s) (Machine.armRelay C t) := by
  unfold Machine.armRelay
  rw [h.rendezvousServer, h.roomKey C]
  split
  · exact h
  · obtain ⟨c, l, k, hk, rfl⟩ := h
    exact ⟨_, _, _, hk, rfl⟩

theorem handshakeOpen (h : Twins X Y s t) :
    TwinMachines X Y (Machine.handshakeOpen C env s) (Machine.handshakeOpen C env t) := by
  have harmed := h.armRelay C
  unfold Machine.handshakeOpen
  dsimp only
  rw [harmed.status]
  split
  · exact harmed.rest C
  · rename_i state _
    have hset := harmed.setStatus fun st => { st with state := state }
    rw [harmed.status] at hset
    exact hset.waitOpen C env

theorem acceptAdditionalPeer (h : Twins X Y s t) :
    TwinMachines X Y (Machine.acceptAdditionalPeer C env s)
      (Machine.acceptAdditionalPeer C env t) := by
  unfold Machine.acceptAdditionalPeer
  rw [h.status]
  split
  · exact h.rest C
  · exact h.beginWait C env _ _

theorem afterDatagram {r r' : Followup × Session cfg} (h : TwinResults X Y r r')
    (sender : SocketAddr) :
    TwinMachines X Y (Machine.afterDatagram C env sender r)
      (Machine.afterDatagram C env sender r') := by
  obtain ⟨f, u, v, rfl, rfl, hend⟩ := h.both
  cases f with
  | done _ => exact hend.rest C
  | promote first => exact (hend.insertPeer sender).beginServer C env _ _ _

end Session.Twins

namespace Machine

variable {cfg : Config} (C : Crypto) (env : Env) {m n : Machine C cfg} {X Y : List Mark}

namespace TwinMachines

theorem onInput (h : TwinMachines X Y m n) (input : Input)
    (hsame : Twins.SameAnswer C env m.session n.session input) :
    TwinMachines X Y (Machine.onInput C env input m) (Machine.onInput C env input n) := by
  obtain ⟨s, task⟩ := m
  obtain ⟨t, task'⟩ := n
  obtain ⟨htask, h⟩ := h
  obtain rfl : task' = task := htask
  cases task' with
  | idle => exact ⟨rfl, h⟩
  | waitFirst caller expect noise legacy cycle next =>
    exact h.onWaitFirst C env _ _ _ _ _ _ _ hsame
  | legacyKe caller peer wait =>
    exact h.onKeyExchange C env _ _ _ (fun h => h.sendControl env _ _ _ _)
      (fun ke _ _ h => h.legacyServerFinish C env _ _ ke) _ _
  | noiseKe caller peer pending =>
    exact h.onKeyExchange C env _ _ _ (fun h => h.sendControl env _ _ _ _)
      (fun ke _ _ h => h.noiseServerFinish env _ _ ke) _ _
  | helloSent peer wait attempt => exact h.onHelloSent C env _ _ _ _
  | noiseSent peer fallback hs clientNonce presetSid msg1 attempt =>
    exact h.onNoiseSent C env _ _ _ _ _ _ _ _
  | confirm peer noise fallback wait => exact h.onConfirm C env _ _ _ _ _

theorem whenIdle (h : TwinMachines X Y m n) {f : Session cfg → Machine C cfg}
    (hf : m.task = .idle → TwinMachines X Y (f m.session) (f n.session)) :
    TwinMachines X Y (Machine.whenIdle C m f) (Machine.whenIdle C n f) := by
  have htask := h.1
  unfold Machine.whenIdle
  rw [htask]
  split
  · rename_i hidle
    exact hf hidle
  · exact h

theorem onSession (h : TwinMachines X Y m n) {f : Session cfg → Session cfg}
    (hf : ∀ {s t}, Twins X Y s t → Twins X Y (f s) (f t)) :
    TwinMachines X Y (Machine.onSession C m f) (Machine.onSession C n f) :=
  ⟨h.1, hf h.2⟩

end TwinMachines

/-- Whatever the step asks about when something was last heard has the same answer. -/
def SameSilence (m n : Machine C cfg) : Action → Prop
  | .turn => silentFor env.now n.session.live.lastRx = silentFor env.now m.session.live.lastRx ∧
      (m.session.settings.multiPeer = true →
        n.session.gonePeers env = m.session.gonePeers env)
  | .pollTimeout => m.session.status.state = .active ∨ m.session.status.state = .paused →
      n.session.heartbeatExpired env = m.session.heartbeatExpired env
  | .recv sender raw => Twins.SameAnswer C env m.session n.session (.datagram sender raw)
  | .input i => Twins.SameAnswer C env m.session n.session i
  | _ => True

theorem TwinMachines.step (h : TwinMachines X Y m n) (a : Action)
    (hsame : SameSilence C env m n a) :
    TwinMachines X Y (Machine.step C env m a) (Machine.step C env n a) := by
  cases a with
  | handshake role peer => exact h.whenIdle C fun _ => h.2.handshake C env role peer
  | handshakeOpen => exact h.whenIdle C fun _ => h.2.handshakeOpen C env
  | acceptAdditionalPeer => exact h.whenIdle C fun _ => h.2.acceptAdditionalPeer C env
  | input i => exact h.onInput C env i hsame
  | cancel => exact h.2.rest C
  | turn => exact h.whenIdle C fun _ => (h.2.turn C env hsame.1 hsame.2).2.rest C
  | recv sender raw =>
    exact h.whenIdle C fun _ =>
      Twins.afterDatagram C env (h.2.recvDatagram C env raw sender hsame) sender
  | poll sender raw =>
    exact h.whenIdle C fun _ =>
      Twins.afterDatagram C env (h.2.pollDatagram C env raw sender) sender
  | pollTimeout => exact h.whenIdle C fun _ => (h.2.pollTimeout env hsame).2.rest C
  | sendAudio payload => exact h.onSession C fun h => (h.sendAudio C env payload).2
  | pttPress => exact h.onSession C fun h => (h.pttPress env).2
  | pttRelease => exact h.onSession C fun h => (h.pttRelease env).2
  | close => exact h.onSession C fun h => h.close env
  | reopen => exact h.onSession C fun h => h.reopen.2
  | setPresetSessionId id =>
    exact h.onSession C fun h => h.setSettings fun x => { x with presetSessionId := id }
  | setRoomToken token =>
    exact h.onSession C fun h => h.setSettings fun x => { x with roomToken := token.filter (· ≠ []) }
  | setHandshakeMode mode =>
    exact h.onSession C fun h => h.setSettings fun x => { x with handshakeMode := mode }
  | setRendezvous server =>
    exact h.onSession C fun h => h.setSettings fun x => { x with rendezvous := server }
  | setMultiPeer enabled =>
    exact h.onSession C fun h => h.setSettings fun x => { x with multiPeer := enabled }
  | setRelayOnly enabled =>
    exact h.onSession C fun h => h.setSettings fun x => { x with relayOnly := enabled }
  | setOwnPublic addr =>
    exact h.onSession C fun h => h.setSettings fun x => { x with ownPublic := some addr }
  | addPathHints addrs => exact h.onSession C fun h => h.addPathHints addrs

end Machine
end GravitalTalk
