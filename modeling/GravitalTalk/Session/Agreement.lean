import GravitalTalk.Session.Members

/-!
# What a handshake agreed on

Session id, codec and SSRC are stored by handshakes only, at most once in an
attempt. Everything a receive loop does and everything the application sends
leaves them alone.
-/
namespace GravitalTalk

/-- The error by which a transport says that it is closed. -/
def TransportError.closes : TransportError → Bool
  | .peerClosed _ => true
  | _ => false

/-- No send finds the transport closed. -/
def Env.Lasting (env : Env) : Prop :=
  ∀ peer bytes e, env.sendTo peer bytes = .error e → e.closes = false

namespace Session

open Rendezvous

variable {cfg : Config} {C : Crypto} {env : Env} {s t u : Session cfg}

/-- Session id, codec and SSRC. -/
def agreement (s : Session cfg) : UInt32 × UInt8 × UInt32 :=
  (s.status.sessionId, s.status.negotiatedCodec, s.status.localSsrc)

theorem agreement_of_status (h : t.status = s.status) : t.agreement = s.agreement := by
  unfold agreement
  rw [h]

theorem SendsOnly.agreement (h : SendsOnly s t) : t.agreement = s.agreement :=
  agreement_of_status h.status

theorem SpeaksOnly.agreement (h : SpeaksOnly s t) : t.agreement = s.agreement :=
  agreement_of_status h.status

theorem agreement_sendControl (env : Env) (msg : MessageType) (sid : UInt32) (payload : Bytes)
    (peer : SocketAddr) (s : Session cfg) :
    (s.sendControl env msg sid payload peer).2.agreement = s.agreement :=
  (sendsOnly_sendControl env msg sid payload peer s).agreement

theorem sendsOnly_of_sendControl {msg : MessageType} {sid : UInt32} {payload : Bytes}
    {peer : SocketAddr} {r : Except TransportError Unit}
    (h : s.sendControl env msg sid payload peer = (r, t)) : SendsOnly s t := by
  have hsend := sendsOnly_sendControl env msg sid payload peer s
  rwa [h] at hsend

theorem agreement_of_sendControl {msg : MessageType} {sid : UInt32} {payload : Bytes}
    {peer : SocketAddr} {r : Except TransportError Unit}
    (h : s.sendControl env msg sid payload peer = (r, t)) : t.agreement = s.agreement :=
  (sendsOnly_of_sendControl h).agreement

/-! ## Receiving -/

theorem agreement_switchPeer (env : Env) (old new : SocketAddr) (s : Session cfg) :
    (s.switchPeer env old new).agreement = s.agreement := by
  unfold switchPeer
  split
  · rfl
  · rfl

theorem agreement_roomSequence (env : Env) (sender : SocketAddr) (seq : UInt32)
    (s : Session cfg) : (s.roomSequence env sender seq).2.agreement = s.agreement := by
  rcases roomSequence_cases env sender seq s with h | ⟨offset, -, h⟩
  · rw [h]
  · rw [h]
    rfl

theorem agreement_hearFrame (C : Crypto) (env : Env) (sender : SocketAddr) (timestamp : UInt64)
    (plain : Bytes) (s : Session cfg) :
    (s.hearFrame C env sender timestamp plain).agreement = s.agreement := by
  have hroom := agreement_roomSequence env sender (fromBe32 (plain.take 4)) s
  unfold hearFrame
  dsimp only
  split_ifs
  · rfl
  · split
    · rename_i t ht
      rwa [ht] at hroom
    · rename_i seq t ht
      rw [ht] at hroom
      exact (speaksOnly_forwardAudio C env sender _ _).agreement.trans hroom
  · rfl

theorem agreement_hearParity (sender : SocketAddr) (plain : Bytes) (s : Session cfg) :
    (s.hearParity sender plain).agreement = s.agreement := by
  rcases hearParity_cases sender plain s with h | ⟨-, base, -, ⟨-, h⟩ | ⟨seq, payload, -, h⟩⟩
  · rw [h]
  · rw [h]
    rfl
  · rw [h]
    rfl

theorem agreement_onAudioFrame (C : Crypto) (env : Env) (view : PacketView) (raw : Bytes)
    (sender : SocketAddr) (s : Session cfg) :
    (s.onAudioFrame C env view raw sender).agreement = s.agreement := by
  unfold onAudioFrame
  split_ifs
  · split
    · rfl
    · split
      · rfl
      · exact agreement_hearFrame C env sender _ _ _
  · exact agreement_hearFrame C env sender _ _ _

theorem agreement_onAudioFec (C : Crypto) (view : PacketView) (raw : Bytes) (sender : SocketAddr)
    (s : Session cfg) : (s.onAudioFec C view raw sender).agreement = s.agreement := by
  unfold onAudioFec
  split_ifs
  · split
    · rfl
    · split
      · rfl
      · exact agreement_hearParity sender _ _
  · rfl

theorem agreement_handlePacket (C : Crypto) (env : Env) (view : PacketView) (raw : Bytes)
    (sender : SocketAddr) (s : Session cfg) :
    (s.handlePacket C env view raw sender).2.agreement = s.agreement := by
  unfold handlePacket
  split
  · rfl
  · exact agreement_onAudioFrame C env view raw sender s
  · exact agreement_onAudioFec C view raw sender s
  · exact agreement_sendControl env _ _ _ _ s
  · rfl
  · rfl
  · rfl
  · split_ifs
    · rfl
    · exact agreement_sendControl env _ _ _ _ s
  · rfl
  · rfl
  · split
    · rfl
    · rfl
  · split_ifs
    · rfl
    · rfl
  · rfl

theorem agreement_acceptPacket (C : Crypto) (env : Env) (view : PacketView) (raw : Bytes)
    (sender : SocketAddr) (s : Session cfg) :
    (s.acceptPacket C env view raw sender).2.agreement = s.agreement := by
  have hcheck : ((s.see sender env.now).antiReplay view raw sender).2.agreement =
      s.agreement := by
    unfold antiReplay
    dsimp only
    split_ifs
    · rfl
    · rfl
    · rfl
  unfold acceptPacket
  split
  · rename_i t ht
    rwa [ht] at hcheck
  · rename_i t ht
    rw [ht] at hcheck
    exact (agreement_handlePacket C env view raw sender t).trans hcheck

theorem agreement_tryMigrate (C : Crypto) (env : Env) (view : PacketView) (raw : Bytes)
    (sender : SocketAddr) (s : Session cfg) :
    (s.tryMigrate C env view raw sender).2.agreement = s.agreement := by
  unfold tryMigrate
  split_ifs
  · rfl
  · split
    · rfl
    · split
      · rfl
      · dsimp only
        split_ifs
        · exact agreement_switchPeer env _ _ _
        · rfl

theorem agreement_dispatchPacket (C : Crypto) (env : Env) (view : PacketView) (raw : Bytes)
    (sender : SocketAddr) (s : Session cfg) :
    (s.dispatchPacket C env view raw sender).2.agreement = s.agreement := by
  have hmove := agreement_tryMigrate C env view raw sender s
  unfold dispatchPacket
  split_ifs
  · exact agreement_acceptPacket C env view raw sender s
  · split
    · rename_i t ht
      rwa [ht] at hmove
    · rename_i t ht
      rw [ht] at hmove
      exact (agreement_acceptPacket C env view raw sender t).trans hmove

theorem agreement_onRendezvous (C : Crypto) (env : Env) (raw : Bytes) (sender : SocketAddr)
    (s : Session cfg) : (s.onRendezvous C env raw sender).agreement = s.agreement := by
  unfold onRendezvous
  split
  · rfl
  · split
    · rfl
    · split
      · rfl
      · split_ifs
        · exact (SendsOnly.foldl (fun s peer => sendsOnly_sendRv C env _ _ s) _ _).agreement
        · rfl
      · exact (sendsOnly_sendRv C env _ _ s).agreement
      · split_ifs
        · rfl
        · rfl
      · split_ifs
        · unfold probeAnswered
          split
          · rfl
          · split_ifs
            · exact (sendsOnly_sendKeepalive C env _).agreement.trans
                (agreement_switchPeer env _ _ s)
            · rfl
        · rfl

/-! ## Maintenance -/

theorem agreement_maintainPath (C : Crypto) (env : Env) (s : Session cfg) :
    (s.maintainPath C env).agreement = s.agreement := by
  have hkeepalive (s : Session cfg) : (s.keepaliveDue C env).agreement = s.agreement := by
    unfold keepaliveDue
    split
    · exact (sendsOnly_sendKeepalive C env _).agreement
    · rfl
  have hregister (stale : Bool) (s : Session cfg) :
      (s.registerDue C env stale).agreement = s.agreement := by
    unfold registerDue
    split
    · rfl
    · generalize (if stale = true then keepaliveIntervalMs else activeRegisterMs) = interval
      split
      · exact (sendsOnly_sendRv C env _ _ _).agreement
      · rfl
  have hprobe (stale : Bool) (s : Session cfg) :
      (s.probeDue C env stale).agreement = s.agreement := by
    have hhint (first : Bool) (hint : SocketAddr) (s : Session cfg) :
        SendsOnly s (s.probeHint C env first hint) := by
      unfold probeHint
      dsimp only
      split_ifs
      · exact (sendsOnly_sendRv C env _ _ s).trans (sendsOnly_punchNeighbours C env _ _ _)
      · exact sendsOnly_sendRv C env _ _ s
    unfold probeDue
    dsimp only
    split_ifs
    · exact (SendsOnly.foldl (fun s hint => hhint _ hint s) _ _).agreement
    · rfl
    · rfl
  have hroom (s : Session cfg) : (s.maintainRoom C env).agreement = s.agreement := by
    unfold maintainRoom
    dsimp only
    split_ifs
    · rfl
    · refine (sendsOnly_sendRvAll C env _ _ _).agreement.trans ?_
      split
      · rfl
      · exact (sendsOnly_sendRv C env _ _ _).agreement
  have hadvert (stale : Bool) (s : Session cfg) :
      (s.advertiseDue C env stale).agreement = s.agreement := by
    unfold advertiseDue
    dsimp only
    split_ifs
    · rfl
    · exact (sendsOnly_sendRvAll C env _ _ _).agreement
    · rfl
  unfold maintainPath
  dsimp only
  rw [hadvert]
  split_ifs
  · rw [hroom, hprobe, hregister, hkeepalive]
  · rw [hprobe, hregister, hkeepalive]

theorem agreement_turn (C : Crypto) (env : Env) (s : Session cfg) :
    (s.turn C env).2.agreement = s.agreement := by
  unfold turn
  split
  · rfl
  · rename_i jitter _
    dsimp only
    split_ifs
    · exact agreement_maintainPath C env { s with media.jitter := jitter }
    · exact agreement_maintainPath C env { s with media.jitter := jitter }
    · exact agreement_maintainPath C env { s with media.jitter := jitter }
    · exact agreement_maintainPath C env { s with media.jitter := jitter }

theorem agreement_pollTimeout (env : Env) (s : Session cfg) :
    (s.pollTimeout env).2.agreement = s.agreement := by
  unfold pollTimeout checkLiveness
  split_ifs
  · exact (sendsOnly_sendHeartbeat env s).agreement
  · exact (sendsOnly_sendHeartbeat env s).agreement
  · rfl

theorem agreement_close (env : Env) (s : Session cfg) :
    (s.close env).agreement = s.agreement := by
  rw [close_eq]
  rfl

/-! ## Greetings -/

/-- The codec that a greeting prefers, if it is read that far: of a version that is
accepted, and under the room's key. -/
def preference (C : Crypto) (env : Env) (s : Session cfg) : FirstHandshake → Option UInt8
  | .noise msg1 =>
    match C.noiseNew (s.roomPsk C) false env.noiseSeed with
    | none => none
    | some hs =>
      match C.noiseRead hs msg1 with
      | none => none
      | some (payload1, _) =>
        match NoiseHello1.decode payload1 with
        | .error _ => none
        | .ok hello1 =>
          if hello1.protocolVersion < protocolVersionMin then none
          else some hello1.codecPreferred
  | .legacy hello =>
    if hello.protocolVersion < protocolVersionMin then none else some hello.codecPreferred

theorem preference_congr (C : Crypto) (env : Env) (first : FirstHandshake)
    (h : t.settings = s.settings) : t.preference C env first = s.preference C env first := by
  cases first with
  | noise msg1 =>
    unfold preference roomPsk
    rw [h]
  | legacy hello => rfl

/-- What a server has stored once it has read a greeting. -/
def greeted (C : Crypto) (env : Env) (s : Session cfg) (first : FirstHandshake) :
    UInt32 × UInt8 × UInt32 :=
  match s.preference C env first with
  | none => s.agreement
  | some preferred =>
    (s.resolvedSessionId env,
      (chooseCodec cfg preferred).toOption.getD s.status.negotiatedCodec, s.status.localSsrc)

theorem agreement_noiseServerBegin (C : Crypto) (env : Env) (msg1 : Bytes) (s : Session cfg) :
    (s.noiseServerBegin C env msg1).2.agreement = s.greeted C env (.noise msg1) := by
  unfold noiseServerBegin greeted preference
  dsimp only
  cases C.noiseNew (s.roomPsk C) false env.noiseSeed with
  | none => rfl
  | some hs =>
    dsimp only
    cases C.noiseRead hs msg1 with
    | none => rfl
    | some r =>
      dsimp only
      cases NoiseHello1.decode r.1 with
      | error e => rfl
      | ok hello1 =>
        dsimp only
        by_cases hversion : hello1.protocolVersion < protocolVersionMin
        · rw [if_pos hversion, if_pos hversion]
        · rw [if_neg hversion, if_neg hversion]
          dsimp only
          cases chooseCodec cfg hello1.codecPreferred with
          | error e => rfl
          | ok codec =>
            dsimp only
            split
            · rfl
            · split
              · rfl
              · rfl

theorem agreement_legacyServerBegin (C : Crypto) (env : Env) (peer : SocketAddr)
    (hello : ClientHello) (s : Session cfg) :
    (s.legacyServerBegin C env peer hello).2.agreement = s.greeted C env (.legacy hello) := by
  unfold legacyServerBegin greeted preference
  dsimp only
  by_cases hversion : hello.protocolVersion < protocolVersionMin
  · rw [if_pos hversion, if_pos hversion]
  · rw [if_neg hversion, if_neg hversion]
    dsimp only
    cases chooseCodec cfg hello.codecPreferred with
    | error e => rfl
    | ok codec =>
      dsimp only
      split
      · rename_i e t ht
        exact agreement_of_sendControl ht
      · rename_i t ht
        exact agreement_of_sendControl ht

/-! ## Clients -/

theorem agreement_clientAnswer (C : Crypto) (env : Env) (peer : SocketAddr) (wait : HelloWait)
    (payload : Bytes) (s : Session cfg) :
    (s.clientAnswer C env peer wait payload).2.agreement = s.agreement := by
  unfold clientAnswer
  split
  · rfl
  · split_ifs
    · rfl
    · rfl
    · dsimp only
      split
      · rename_i e t ht
        exact agreement_of_sendControl ht
      · rename_i t ht
        exact agreement_of_sendControl ht
    · rfl

/-- What a client stores when it takes a second Noise message. -/
def answered (C : Crypto) (cfg : Config) (hs : C.Noise) (clientNonce : Vector UInt8 32)
    (presetSid : UInt32) (hello2 : NoiseHello2) : Option (UInt32 × UInt8 × UInt32) :=
  if hello2.protocolVersion < protocolVersionMin then none
  else if hello2.codecAccepted ∉ cfg.supportedCodecs then none
  else if presetSid ≠ 0 ∧ hello2.sessionId ≠ presetSid then none
  else (C.noiseHash hs).map fun hash =>
    let transcript := Crypto.buildTranscript clientNonce hello2.serverNonce hello2.sessionId
    (hello2.sessionId, hello2.codecAccepted,
      ssrcOf hello2.sessionId (C.deriveSessionKeys hash transcript).1)

theorem agreement_noiseClientAnswer (C : Crypto) (env : Env) (peer : SocketAddr) (hs : C.Noise)
    (clientNonce : Vector UInt8 32) (presetSid : UInt32) (hello2 : NoiseHello2) (s : Session cfg) :
    (s.noiseClientAnswer C env peer hs clientNonce presetSid hello2).2.agreement =
      (answered C cfg hs clientNonce presetSid hello2).getD s.agreement := by
  unfold noiseClientAnswer answered
  by_cases hversion : hello2.protocolVersion < protocolVersionMin
  · rw [if_pos hversion, if_pos hversion]
    rfl
  · rw [if_neg hversion, if_neg hversion]
    by_cases hcodec : hello2.codecAccepted ∉ cfg.supportedCodecs
    · rw [if_pos hcodec, if_pos hcodec]
      rfl
    · rw [if_neg hcodec, if_neg hcodec]
      by_cases hsid : presetSid ≠ 0 ∧ hello2.sessionId ≠ presetSid
      · rw [if_pos hsid, if_pos hsid]
        rfl
      · rw [if_neg hsid, if_neg hsid]
        cases C.noiseHash hs with
        | none => rfl
        | some hash =>
          dsimp only
          split
          · rename_i e t ht
            exact agreement_of_sendControl ht
          · rename_i t ht
            exact agreement_of_sendControl ht

/-! ## Errors -/

theorem closes_of_sendControl (henv : env.Lasting) {msg : MessageType} {sid : UInt32}
    {payload : Bytes} {peer : SocketAddr} {e : TransportError}
    (h : s.sendControl env msg sid payload peer = (.error e, t)) : e.closes = false := by
  unfold sendControl transmit at h
  dsimp only at h
  split at h
  · cases h
    rfl
  · rename_i bytes _
    cases hsend : env.sendTo peer bytes with
    | error e' =>
      rw [hsend] at h
      cases h
      exact henv peer bytes _ hsend
    | ok n =>
      rw [hsend] at h
      cases h

theorem closes_of_chooseCodec {preferred : UInt8} {e : TransportError}
    (h : chooseCodec cfg preferred = .error e) : e.closes = false := by
  unfold chooseCodec at h
  split_ifs at h
  split at h
  · cases h
  · cases h
    rfl

theorem closes_of_noiseServerBegin {msg1 : Bytes} {e : TransportError}
    (h : s.noiseServerBegin C env msg1 = (.error e, t)) : e.closes = false := by
  unfold noiseServerBegin at h
  split at h
  · cases h
    rfl
  · split at h
    · cases h
      rfl
    · split at h
      · cases h
        rfl
      · split at h
        · cases h
          rfl
        · dsimp only at h
          split at h
          · rename_i e' hcodec
            cases h
            exact closes_of_chooseCodec hcodec
          · split at h
            · cases h
              rfl
            · split at h
              · cases h
                rfl
              · cases h

theorem closes_of_legacyServerBegin (henv : env.Lasting) {peer : SocketAddr} {hello : ClientHello}
    {e : TransportError} (h : s.legacyServerBegin C env peer hello = (.error e, t)) :
    e.closes = false := by
  unfold legacyServerBegin at h
  split at h
  · cases h
    rfl
  · dsimp only at h
    split at h
    · rename_i e' hcodec
      cases h
      exact closes_of_chooseCodec hcodec
    · split at h
      · rename_i e' u hu
        cases h
        exact closes_of_sendControl henv hu
      · cases h

theorem closes_of_noiseServerFinish (henv : env.Lasting) {peer : SocketAddr} {p : PendingJoin}
    {ke : KeyExchangeMsg} {e : TransportError}
    (h : s.noiseServerFinish env peer p ke = (.error e, t)) : e.closes = false := by
  unfold noiseServerFinish at h
  split at h
  · cases h
    rfl
  · split at h
    · cases h
      rfl
    · split at h
      · rename_i e' u hu
        cases h
        exact closes_of_sendControl henv hu
      · cases h

theorem closes_of_legacyServerFinish (henv : env.Lasting) {peer : SocketAddr} {wait : LegacyWait}
    {ke : KeyExchangeMsg} {e : TransportError}
    (h : s.legacyServerFinish C env peer wait ke = (.error e, t)) : e.closes = false := by
  unfold legacyServerFinish at h
  split at h
  · cases h
    rfl
  · split at h
    · cases h
      rfl
    · dsimp only at h
      split at h
      · rename_i e' u hu
        cases h
        exact closes_of_sendControl henv hu
      · cases h

end Session
end GravitalTalk
