import GravitalTalk.Session.Codec
import GravitalTalk.Session.Greetings

/-!
# What a handshake rests on

The keys of a handshake come with two tags: by the one the client shows that it has them, by
the other the server. A `Journal` records what a session has heard and which keys it has
derived; every handshake message and every stored key must be accounted for by it.
-/
namespace GravitalTalk

/-- The keys of a handshake and the tags that go with them. -/
structure Bond where
  sessionId : UInt32
  /-- What the client encrypts with. -/
  clientKey : SessionKey
  serverKey : SessionKey
  clientTag : Vector UInt8 16
  serverTag : Vector UInt8 16
  deriving DecidableEq

/-- What a legacy server derived from a `ClientHello`. -/
def Session.LegacyWait.bond (C : Crypto) (w : Session.LegacyWait) : Bond where
  sessionId := w.sessionId
  clientKey := w.decKey
  serverKey := w.encKey
  clientTag := C.deriveAuthTag w.decKey "GS-client-fin-v1" w.transcript
  serverTag := C.deriveAuthTag w.encKey "GS-server-fin-v1" w.transcript

/-- What a Noise server derived; the tag it will send is inside its confirmation. -/
def PendingJoin.bond (p : PendingJoin) : Option Bond :=
  match TagMsg.decode p.confirm with
  | .ok confirm => some ⟨p.sessionId, p.decKey, p.encKey, p.expectedClientTag, confirm.authTag⟩
  | .error _ => none

/-- What a client derived from the server's answer. -/
def Session.ConfirmWait.bond (C : Crypto) (noise : Bool) (w : Session.ConfirmWait) : Bond where
  sessionId := w.sessionId
  clientKey := w.encKey
  serverKey := w.decKey
  clientTag := C.deriveAuthTag w.encKey
    (if noise then "GS-client-fin-v2" else "GS-client-fin-v1") w.transcript
  serverTag := C.deriveAuthTag w.decKey
    (if noise then "GS-server-fin-v2" else "GS-server-fin-v1") w.transcript

variable {C : Crypto}

def Task.serverBond : Task C → Option Bond
  | .legacyKe _ _ wait => some (wait.bond C)
  | .noiseKe _ _ pending => pending.bond
  | _ => none

def Task.clientBond : Task C → Option Bond
  | .confirm _ noise _ wait => some (wait.bond C noise)
  | _ => none

namespace Machine

variable {cfg : Config}

/-- The bonds of the handshakes in which the machine is the server. -/
def serverBonds (m : Machine C cfg) : Set Bond :=
  {b | m.task.serverBond = some b ∨
    ∃ a p, m.session.pendingJoins.lookup a = some p ∧ p.bond = some b}

def clientBonds (m : Machine C cfg) : Set Bond := {b | m.task.clientBond = some b}

end Machine

/-- What a session has heard and derived so far, and whether it has been a room. -/
structure Journal where
  heard : List (SocketAddr × Bytes)
  clients : Set Bond
  servers : Set Bond
  rooms : Prop

namespace Journal

variable {cfg : Config} {J J' : Journal} {peer : SocketAddr} {codec : UInt8}

/-- Nothing in `J` is missing from `J'`. -/
structure Within (J J' : Journal) : Prop where
  heard : J.heard ⊆ J'.heard
  clients : J.clients ⊆ J'.clients
  servers : J.servers ⊆ J'.servers
  rooms : J.rooms → J'.rooms

def Heard (J : Journal) (peer : SocketAddr) (msg : MessageType) (payload : Bytes) : Prop :=
  ∃ raw, (peer, raw) ∈ J.heard ∧ Bears raw msg payload

theorem Heard.mono {msg : MessageType} {payload : Bytes} (h : J.Heard peer msg payload)
    (hJ : J.Within J') : J'.Heard peer msg payload := by
  obtain ⟨raw, hraw, hbears⟩ := h
  exact ⟨raw, hJ.heard hraw, hbears⟩

variable (C cfg)

/-- A greeting from `peer` prefers this codec. -/
inductive Asked (J : Journal) (peer : SocketAddr) (preferred : UInt8) : Prop
  | legacy {payload : Bytes} {hello : ClientHello}
      (hheard : J.Heard peer .handshakeClientHello payload)
      (hdecode : ClientHello.decode payload = .ok hello)
      (hcodec : hello.codecPreferred = preferred)
  | noise {msg1 payload : Bytes} {hs hs' : C.Noise} {hello : NoiseHello1}
      (hheard : J.Heard peer .handshakeNoiseHello1 msg1)
      (hread : C.noiseRead hs msg1 = some (payload, hs'))
      (hdecode : NoiseHello1.decode payload = .ok hello)
      (hcodec : hello.codecPreferred = preferred)

/-- A greeting from `peer` is answered with this codec. -/
def Chosen (J : Journal) (peer : SocketAddr) (codec : UInt8) : Prop :=
  ∃ preferred, J.Asked C peer preferred ∧ Session.chooseCodec cfg preferred = .ok codec

/-- An answer from `peer` names this codec. -/
inductive Named (J : Journal) (peer : SocketAddr) (codec : UInt8) : Prop
  | legacy {payload : Bytes} {hello : ServerHello}
      (hheard : J.Heard peer .handshakeServerHello payload)
      (hdecode : ServerHello.decode payload = .ok hello)
      (hcodec : hello.codecAccepted = codec)
  | noise {msg2 payload : Bytes} {hs hs' : C.Noise} {hello : NoiseHello2}
      (hheard : J.Heard peer .handshakeNoiseHello2 msg2)
      (hread : C.noiseRead hs msg2 = some (payload, hs'))
      (hdecode : NoiseHello2.decode payload = .ok hello)
      (hcodec : hello.codecAccepted = codec)

/-- What a handshake message to `dest` stands for, given the keys stored so far. -/
inductive Means (J : Journal) (installed : List Install) (dest : SocketAddr) :
    MessageType → Bytes → Prop
  | clientHello {hello : ClientHello} (hcodec : hello.codecPreferred = cfg.codecPreferred) :
    Means J installed dest .handshakeClientHello hello.encode
  | noiseHello1 {hello : NoiseHello1} {hs hs' : C.Noise} {msg1 : Bytes}
      (hcodec : hello.codecPreferred = cfg.codecPreferred)
      (hwrite : C.noiseWrite hs hello.encode = some (msg1, hs')) :
    Means J installed dest .handshakeNoiseHello1 msg1
  | serverHello {hello : ServerHello} (hcodec : J.Chosen C cfg dest hello.codecAccepted) :
    Means J installed dest .handshakeServerHello hello.encode
  | noiseHello2 {hello : NoiseHello2} {hs hs' : C.Noise} {msg2 : Bytes}
      (hcodec : J.Chosen C cfg dest hello.codecAccepted)
      (hwrite : C.noiseWrite hs hello.encode = some (msg2, hs')) :
    Means J installed dest .handshakeNoiseHello2 msg2
  | keyExchange {b : Bond} (hb : b ∈ J.clients) :
    Means J installed dest .handshakeKeyExchange (TagMsg.encode ⟨b.sessionId, b.clientTag⟩)
  | confirm {b : Bond} {e : Install} (hb : b ∈ J.servers) (he : e ∈ installed)
      (hpeer : e.peer = dest) (henc : e.enc = b.serverKey) (hdec : e.dec = b.clientKey)
      (hsid : e.sessionId = b.sessionId) (hcodec : J.rooms ∨ J.Chosen C cfg dest e.codec) :
    Means J installed dest .handshakeSessionConfirm (TagMsg.encode ⟨b.sessionId, b.serverTag⟩)

/-- Why keys were stored. -/
inductive Grounds (J : Journal) (e : Install) : Prop
  | server {b : Bond} {payload : Bytes} {ke : KeyExchangeMsg} (hb : b ∈ J.servers)
      (henc : e.enc = b.serverKey) (hdec : e.dec = b.clientKey) (hsid : e.sessionId = b.sessionId)
      (hheard : J.Heard e.peer .handshakeKeyExchange payload)
      (hdecode : TagMsg.decode payload = .ok ke) (htag : ke.authTag = b.clientTag)
      (hcodec : J.rooms ∨ J.Chosen C cfg e.peer e.codec)
  | client {b : Bond} {payload : Bytes} {confirm : SessionConfirm} (hb : b ∈ J.clients)
      (henc : e.enc = b.clientKey) (hdec : e.dec = b.serverKey) (hsid : e.sessionId = b.sessionId)
      (hheard : J.Heard e.peer .handshakeSessionConfirm payload)
      (hdecode : TagMsg.decode payload = .ok confirm) (htag : confirm.authTag = b.serverTag)
      (hcodec : J.Named C e.peer e.codec)

variable {C cfg}

theorem Asked.mono {preferred : UInt8} (h : J.Asked C peer preferred) (hJ : J.Within J') :
    J'.Asked C peer preferred := by
  cases h with
  | legacy hheard hdecode hcodec => exact .legacy (hheard.mono hJ) hdecode hcodec
  | noise hheard hread hdecode hcodec => exact .noise (hheard.mono hJ) hread hdecode hcodec

theorem Chosen.mono (h : J.Chosen C cfg peer codec) (hJ : J.Within J') :
    J'.Chosen C cfg peer codec := by
  obtain ⟨preferred, hasked, hcodec⟩ := h
  exact ⟨preferred, hasked.mono hJ, hcodec⟩

theorem Named.mono (h : J.Named C peer codec) (hJ : J.Within J') : J'.Named C peer codec := by
  cases h with
  | legacy hheard hdecode hcodec => exact .legacy (hheard.mono hJ) hdecode hcodec
  | noise hheard hread hdecode hcodec => exact .noise (hheard.mono hJ) hread hdecode hcodec

theorem Means.mono {installed installed' : List Install} {msg : MessageType} {payload : Bytes}
    (h : J.Means C cfg installed peer msg payload) (hJ : J.Within J')
    (hinstalled : installed ⊆ installed') : J'.Means C cfg installed' peer msg payload := by
  cases h with
  | clientHello hcodec => exact .clientHello hcodec
  | noiseHello1 hcodec hwrite => exact .noiseHello1 hcodec hwrite
  | serverHello hcodec => exact .serverHello (hcodec.mono hJ)
  | noiseHello2 hcodec hwrite => exact .noiseHello2 (hcodec.mono hJ) hwrite
  | keyExchange hb => exact .keyExchange (hJ.clients hb)
  | confirm hb he hpeer henc hdec hsid hcodec =>
    exact .confirm (hJ.servers hb) (hinstalled he) hpeer henc hdec hsid
      (hcodec.imp hJ.rooms fun h => h.mono hJ)

theorem Grounds.mono {e : Install} (h : J.Grounds C cfg e) (hJ : J.Within J') :
    J'.Grounds C cfg e := by
  cases h with
  | server hb henc hdec hsid hheard hdecode htag hcodec =>
    exact .server (hJ.servers hb) henc hdec hsid (hheard.mono hJ) hdecode htag
      (hcodec.imp hJ.rooms fun h => h.mono hJ)
  | client hb henc hdec hsid hheard hdecode htag hcodec =>
    exact .client (hJ.clients hb) henc hdec hsid (hheard.mono hJ) hdecode htag (hcodec.mono hJ)

end Journal

/-- The confirmation of an admission is under its own session id. -/
def PendingJoin.Confirms (p : PendingJoin) : Prop :=
  ∃ tag, p.confirm = TagMsg.encode ⟨p.sessionId, tag⟩

theorem PendingJoin.Confirms.bond {p : PendingJoin} (h : p.Confirms) :
    ∃ tag, p.confirm = TagMsg.encode ⟨p.sessionId, tag⟩ ∧
      p.bond = some ⟨p.sessionId, p.decKey, p.encKey, p.expectedClientTag, tag⟩ := by
  obtain ⟨tag, hconfirm⟩ := h
  refine ⟨tag, hconfirm, ?_⟩
  rw [PendingJoin.bond, hconfirm, TagMsg.decode_encode]

/-- An admission in progress: a room of this session id has answered a greeting. -/
structure Journal.Admits (C : Crypto) (cfg : Config) (J : Journal) (sid : UInt32)
    (peer : SocketAddr) (p : PendingJoin) : Prop where
  rooms : J.rooms
  confirms : p.Confirms
  answer : J.Means C cfg [] peer .handshakeNoiseHello2 p.msg2
  sessionId : p.sessionId = sid
  running : sid ≠ 0

namespace Session

variable {cfg : Config} {J J' : Journal} {env : Env} {s t : Session cfg} {peer : SocketAddr}

/-- Every stored key and every admission in progress is accounted for. -/
structure Grounded (C : Crypto) (J : Journal) (s : Session cfg) : Prop where
  installed : ∀ e ∈ s.history.installed, J.Grounds C cfg e
  joins : ∀ a p, s.pendingJoins.lookup a = some p → J.Admits C cfg s.status.sessionId a p

namespace Grounded

theorem mono (h : Grounded C J s) (hJ : J.Within J') : Grounded C J' s := by
  constructor
  · exact fun e he => (h.installed e he).mono hJ
  · intro a p hp
    obtain ⟨hrooms, hconfirms, hanswer, hsid, hrunning⟩ := h.joins a p hp
    exact ⟨hJ.rooms hrooms, hconfirms, hanswer.mono hJ (List.Subset.refl _), hsid, hrunning⟩

theorem of_eq (h : Grounded C J s) (hinstalled : t.history.installed = s.history.installed)
    (hjoins : t.pendingJoins = s.pendingJoins)
    (hsid : t.status.sessionId = s.status.sessionId) : Grounded C J t := by
  constructor
  · rw [hinstalled]
    exact h.installed
  · rw [hjoins, hsid]
    exact h.joins

theorem sends (h : Grounded C J s) (hsend : SendsOnly s t) : Grounded C J t := by
  apply h.of_eq
  · rw [hsend.history]
  · rw [hsend.eq]
  · rw [hsend.status]

theorem keeps (h : Grounded C J s) (hkeeps : Keeps s t) : Grounded C J t :=
  h.of_eq hkeeps.installed hkeeps.pendingJoins hkeeps.sessionId

/-- The id of a session that is admitting somebody does not change when it answers. -/
theorem resolved (h : Grounded C J s) (env : Env)
    (hinstalled : t.history.installed = s.history.installed)
    (hjoins : t.pendingJoins = s.pendingJoins)
    (hsid : t.status.sessionId = s.resolvedSessionId env) : Grounded C J t := by
  constructor
  · rw [hinstalled]
    exact h.installed
  · intro a p hp
    rw [hjoins] at hp
    have hadmits := h.joins a p hp
    have hsame : t.status.sessionId = s.status.sessionId := by
      rw [hsid, resolvedSessionId, if_pos hadmits.running]
    rwa [hsame]

theorem greeted {first : FirstHandshake} (h : Grounded C J s)
    (hinstalled : t.history.installed = s.history.installed)
    (hjoins : t.pendingJoins = s.pendingJoins)
    (hagree : t.agreement = s.greeted C env first) : Grounded C J t := by
  have hsid := congrArg Prod.fst hagree
  unfold Session.greeted at hsid
  split at hsid
  · exact h.of_eq hinstalled hjoins hsid
  · exact h.resolved env hinstalled hjoins hsid

/-- Nobody is being admitted, so the session id may change. -/
theorem alone (h : Grounded C J s) (hinstalled : t.history.installed = s.history.installed)
    (hnone : t.pendingJoins = ∅) : Grounded C J t := by
  constructor
  · rw [hinstalled]
    exact h.installed
  · intro a p hp
    rw [hnone, Finmap.lookup_empty] at hp
    cases hp

theorem erase (h : Grounded C J s) (a : SocketAddr) :
    Grounded C J { s with pendingJoins := s.pendingJoins.erase a } := by
  refine ⟨h.installed, ?_⟩
  intro b p hp
  dsimp only at hp ⊢
  rw [Table.lookup_erase_eq] at hp
  split_ifs at hp
  exact h.joins b p hp

theorem joining (h : Grounded C J s) {p : PendingJoin}
    (hp : J.Admits C cfg s.status.sessionId peer p) :
    Grounded C J { s with pendingJoins := s.pendingJoins.insert peer p } := by
  refine ⟨h.installed, ?_⟩
  intro a q hq
  dsimp only at hq ⊢
  rw [Table.lookup_insert_eq] at hq
  split_ifs at hq with ha
  · cases hq
    rwa [ha]
  · exact h.joins a q hq

theorem kept (h : Grounded C J s) (env : Env) :
    Grounded C J { s with pendingJoins := Machine.kept env s } := by
  refine ⟨h.installed, ?_⟩
  intro a p hp
  dsimp only at hp ⊢
  rw [Machine.kept, Table.lookup_retain, Option.filter_eq_some_iff] at hp
  exact h.joins a p hp.1

theorem install {enc dec : SessionKey} (h : Grounded C J s)
    (hnew : J.Grounds C cfg ⟨peer, enc, dec, s.status.sessionId, s.status.negotiatedCodec,
      s.traffic.taken⟩) : Grounded C J (s.installKeys env peer enc dec) := by
  refine ⟨?_, h.joins⟩
  intro e he
  rcases List.mem_cons.mp he with rfl | he
  · exact hnew
  · exact h.installed e he

end Grounded

/-! ## Greetings and answers -/

theorem greets_of_sendControl {Q : SocketAddr → MessageType → Bytes → Prop} {kind : MessageType}
    {sid : UInt32} {body : Bytes} {dest : SocketAddr} {r : Except TransportError Unit}
    (h : s.sendControl env kind sid body dest = (r, t)) (hkind : kind.isGreeting = true)
    (hQ : r = .ok () → Q dest kind body) : Greets env Q s t := by
  have hgreets : Greets env Q s (s.sendControl env kind sid body dest).2 := by
    apply greets_sendControl kind sid body dest s _ (.inl hkind)
    intro hok _
    rw [h] at hok
    exact hQ hok
  rwa [h] at hgreets

/-- What a first message was, when it was heard. -/
def FirstHandshake.HeardFrom (J : Journal) (peer : SocketAddr) : FirstHandshake → Prop
  | .noise msg1 => J.Heard peer .handshakeNoiseHello1 msg1
  | .legacy hello => ∃ payload, J.Heard peer .handshakeClientHello payload ∧
      ClientHello.decode payload = .ok hello

theorem chosen_of_answerCodec {first : FirstHandshake} {codec : UInt8}
    (hfirst : first.HeardFrom J peer) (h : s.answerCodec C env first = some codec) :
    J.Chosen C cfg peer codec := by
  obtain ⟨preferred, hpreferred, hcodec⟩ := Option.bind_eq_some_iff.mp h
  have hchoose : chooseCodec cfg preferred = .ok codec := by
    cases hc : chooseCodec cfg preferred with
    | error e =>
      rw [hc] at hcodec
      cases hcodec
    | ok c =>
      rw [hc] at hcodec
      cases hcodec
      rfl
  refine ⟨preferred, ?_, hchoose⟩
  cases first with
  | noise msg1 =>
    unfold preference at hpreferred
    dsimp only at hpreferred
    split at hpreferred
    · cases hpreferred
    · split at hpreferred
      · cases hpreferred
      · rename_i hread
        split at hpreferred
        · cases hpreferred
        · rename_i hdecode
          split_ifs at hpreferred
          exact .noise hfirst hread hdecode (Option.some.inj hpreferred)
  | legacy hello =>
    obtain ⟨payload, hheard, hdecode⟩ := hfirst
    unfold preference at hpreferred
    dsimp only at hpreferred
    split_ifs at hpreferred
    exact .legacy hheard hdecode (Option.some.inj hpreferred)

theorem noiseServerBegin_confirms {msg1 : Bytes} {p : PendingJoin}
    (h : s.noiseServerBegin C env msg1 = (.ok p, t)) :
    p.Confirms ∧ p.sessionId = s.resolvedSessionId env ∧ t.status.sessionId = p.sessionId := by
  unfold noiseServerBegin at h
  split at h
  · cases h
  · split at h
    · cases h
    · split at h
      · cases h
      · split at h
        · cases h
        · dsimp only at h
          split at h
          · cases h
          · split at h
            · cases h
            · split at h
              · cases h
              · cases h
                exact ⟨⟨_, rfl⟩, rfl, rfl⟩

theorem sent_noiseServerBegin (C : Crypto) (env : Env) (msg1 : Bytes) (s : Session cfg) :
    (s.noiseServerBegin C env msg1).2.traffic.sent = s.traffic.sent := by
  unfold noiseServerBegin
  split
  · rfl
  · split
    · rfl
    · split
      · rfl
      · split
        · rfl
        · dsimp only
          split
          · rfl
          · split
            · rfl
            · split
              · rfl
              · rfl

theorem Grounded.noiseServerBegin (h : Grounded C J s) (env : Env) (msg1 : Bytes) :
    Grounded C J (s.noiseServerBegin C env msg1).2 := by
  have hsteady := steady_noiseServerBegin C env msg1 s
  apply h.greeted
  · rw [hsteady.calm.history]
  · exact hsteady.calm.pendingJoins
  · exact agreement_noiseServerBegin C env msg1 s

/-- A Noise server that goes on has chosen a codec and says so in the second message. -/
theorem noiseServerBegin_means {msg1 : Bytes} {p : PendingJoin}
    (h : s.noiseServerBegin C env msg1 = (.ok p, t))
    (hheard : J.Heard peer .handshakeNoiseHello1 msg1) :
    J.Chosen C cfg peer t.status.negotiatedCodec ∧
      J.Means C cfg [] peer .handshakeNoiseHello2 p.msg2 := by
  obtain ⟨hs, hs', hello2, hwrite, hanswer⟩ := noiseServerBegin_tells h
  have hfirst : FirstHandshake.HeardFrom J peer (.noise msg1) := hheard
  have hchosen : J.Chosen C cfg peer hello2.codecAccepted := chosen_of_answerCodec hfirst hanswer
  have hcodec := noiseServerBegin_codec C env msg1 s
  rw [h, hanswer] at hcodec
  refine ⟨?_, .noiseHello2 hchosen hwrite⟩
  rw [show t.status.negotiatedCodec = hello2.codecAccepted from hcodec]
  exact hchosen

theorem Grounded.legacyServerBegin (h : Grounded C J s) (env : Env) (peer : SocketAddr)
    (hello : ClientHello) : Grounded C J (s.legacyServerBegin C env peer hello).2 := by
  have hsteady := steady_legacyServerBegin C env peer hello s
  apply h.greeted
  · rw [hsteady.calm.history]
  · exact hsteady.calm.pendingJoins
  · exact agreement_legacyServerBegin C env peer hello s

/-- A legacy server that goes on has chosen a codec and has said so. -/
theorem legacyServerBegin_means {hello : ClientHello} {w : LegacyWait}
    (h : s.legacyServerBegin C env peer hello = (.ok w, t))
    (hheard : FirstHandshake.HeardFrom J peer (.legacy hello)) :
    t.status.sessionId = w.sessionId ∧ J.Chosen C cfg peer t.status.negotiatedCodec ∧
      J.Means C cfg [] peer .handshakeServerHello w.serverHello := by
  obtain ⟨answer, hbytes, hanswer⟩ := legacyServerBegin_tells h
  have hchosen : J.Chosen C cfg peer answer.codecAccepted :=
    chosen_of_answerCodec hheard hanswer
  have hcodec := legacyServerBegin_codec C env peer hello s
  rw [h, hanswer] at hcodec
  have hsid : t.status.sessionId = w.sessionId := by
    unfold Session.legacyServerBegin at h
    split at h
    · cases h
    · dsimp only at h
      split at h
      · cases h
      · split at h
        · cases h
        · rename_i u hu
          cases h
          rw [(sendsOnly_of_sendControl hu).status]
  refine ⟨hsid, ?_, ?_⟩
  · rw [show t.status.negotiatedCodec = answer.codecAccepted from hcodec]
    exact hchosen
  · rw [hbytes]
    exact .serverHello hchosen

/-- It has sent nothing else. -/
theorem greets_legacyServerBegin (C : Crypto) (env : Env) (hello : ClientHello) (s : Session cfg)
    (hheard : FirstHandshake.HeardFrom J peer (.legacy hello)) :
    Greets env (J.Means C cfg []) s (s.legacyServerBegin C env peer hello).2 := by
  cases hbegin : s.legacyServerBegin C env peer hello with
  | mk r t =>
    have hmeans (w : LegacyWait) (hw : r = .ok w) :
        J.Means C cfg [] peer .handshakeServerHello w.serverHello := by
      rw [hw] at hbegin
      exact (legacyServerBegin_means hbegin hheard).2.2
    unfold Session.legacyServerBegin at hbegin
    split at hbegin
    · cases hbegin
      rfl
    · dsimp only at hbegin
      split at hbegin
      · cases hbegin
        exact .of_eq rfl
      · split at hbegin
        · rename_i e u hu
          cases hbegin
          exact (greets_of_sendControl hu rfl nofun).after rfl
        · rename_i u hu
          cases hbegin
          exact (greets_of_sendControl hu rfl fun _ => hmeans _ rfl).after rfl

/-! ## Keys -/

/-- The session is accounted for, and so is what it has sent since `s`. -/
structure Accounts (C : Crypto) (env : Env) (J : Journal) (s t : Session cfg) : Prop where
  grounded : Grounded C J t
  greets : Greets env (J.Means C cfg t.history.installed) s t

theorem accounts_of_sends (h : Grounded C J s) (hsend : SendsOnly s t)
    (hgreets : Greets env (J.Means C cfg t.history.installed) s t) : Accounts C env J s t :=
  ⟨h.sends hsend, hgreets⟩

theorem accounts_noiseServerFinish {p : PendingJoin} {ke : KeyExchangeMsg} {payload : Bytes}
    (h : Grounded C J s) (hp : p.Confirms) (hbond : ∀ b, p.bond = some b → b ∈ J.servers)
    (hsid : s.status.sessionId = p.sessionId)
    (hcodec : J.rooms ∨ J.Chosen C cfg peer s.status.negotiatedCodec)
    (hheard : J.Heard peer .handshakeKeyExchange payload)
    (hdecode : TagMsg.decode payload = .ok ke) :
    Accounts C env J s (s.noiseServerFinish env peer p ke).2 := by
  obtain ⟨tag, hconfirm, hb⟩ := hp.bond
  unfold noiseServerFinish
  split_ifs with hid htag
  · exact ⟨h, .refl s⟩
  · exact ⟨h, .refl s⟩
  · rw [not_not] at htag
    split
    · rename_i e t ht
      exact accounts_of_sends h (sendsOnly_of_sendControl ht) (greets_of_sendControl ht rfl nofun)
    · rename_i t ht
      have hsend := sendsOnly_of_sendControl ht
      have hstatus : t.status = s.status := hsend.status
      constructor
      · apply (h.sends hsend).install
        rw [hstatus]
        exact .server (hbond _ hb) rfl rfl hsid hheard hdecode htag hcodec
      · refine (greets_of_sendControl ht rfl fun _ => ?_).before rfl
        rw [hconfirm]
        refine .confirm (hbond _ hb) List.mem_cons_self rfl rfl rfl ?_ ?_
        · rw [hstatus]
          exact hsid
        · rw [hstatus]
          exact hcodec

theorem accounts_legacyServerFinish {w : LegacyWait} {ke : KeyExchangeMsg} {payload : Bytes}
    (h : Grounded C J s) (hbond : w.bond C ∈ J.servers)
    (hsid : s.status.sessionId = w.sessionId)
    (hcodec : J.Chosen C cfg peer s.status.negotiatedCodec)
    (hheard : J.Heard peer .handshakeKeyExchange payload)
    (hdecode : TagMsg.decode payload = .ok ke) :
    Accounts C env J s (s.legacyServerFinish C env peer w ke).2 := by
  unfold legacyServerFinish
  split_ifs with hid htag
  · exact ⟨h, .refl s⟩
  · exact ⟨h, .refl s⟩
  · rw [not_not] at htag
    dsimp only
    split
    · rename_i e t ht
      exact accounts_of_sends h (sendsOnly_of_sendControl ht) (greets_of_sendControl ht rfl nofun)
    · rename_i t ht
      have hsend := sendsOnly_of_sendControl ht
      have hstatus : t.status = s.status := hsend.status
      constructor
      · apply (h.sends hsend).install
        rw [hstatus]
        exact .server hbond rfl rfl hsid hheard hdecode htag (.inr hcodec)
      · refine (greets_of_sendControl ht rfl fun _ => ?_).before rfl
        refine .confirm hbond List.mem_cons_self rfl rfl rfl ?_ ?_
        · rw [hstatus]
          exact hsid
        · rw [hstatus]
          exact .inr hcodec

theorem accounts_clientFinish {w : ConfirmWait} {payload : Bytes} (h : Grounded C J s)
    (hnone : s.pendingJoins = ∅) (hbond : w.bond C false ∈ J.clients)
    (hcodec : J.Named C peer w.codec)
    (hheard : J.Heard peer .handshakeSessionConfirm payload) :
    Accounts C env J s (s.clientFinish C env peer w payload).2 := by
  unfold clientFinish
  split
  · exact ⟨h, .refl s⟩
  · rename_i confirm hdecode
    split_ifs with hid htag
    · exact ⟨h, .refl s⟩
    · exact ⟨h, .refl s⟩
    · rw [not_not] at htag
      constructor
      · refine Grounded.install (h.alone rfl hnone) ?_
        exact .client hbond rfl rfl rfl hheard hdecode htag hcodec
      · exact .of_eq rfl

theorem accounts_noiseClientFinish {w : ConfirmWait} {payload : Bytes} (h : Grounded C J s)
    (hbond : w.bond C true ∈ J.clients) (hcodec : J.Named C peer w.codec)
    (hsid : s.status.sessionId = w.sessionId) (hnegotiated : s.status.negotiatedCodec = w.codec)
    (hheard : J.Heard peer .handshakeSessionConfirm payload) :
    Accounts C env J s (s.noiseClientFinish C env peer w payload).2 := by
  unfold noiseClientFinish
  split
  · exact ⟨h, .refl s⟩
  · rename_i confirm hdecode
    split_ifs with hid htag
    · exact ⟨h, .refl s⟩
    · exact ⟨h, .refl s⟩
    · rw [not_not] at htag
      constructor
      · apply h.install
        rw [hsid, hnegotiated]
        exact .client hbond rfl rfl rfl hheard hdecode htag hcodec
      · exact .of_eq rfl

end Session
end GravitalTalk
