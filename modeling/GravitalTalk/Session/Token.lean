import GravitalTalk.Session.Rules

/-!
# Rooms with a token

A room token is to exclude the legacy handshake: keys come only out of a Noise
handshake under the key derived from the token. That holds of every run in which
no server lets a legacy greeting in.
-/
namespace GravitalTalk
namespace Machine

open Session Relation Run

variable {cfg : Config} {C : Crypto} {psk : Vector UInt8 32}

/-- The states of Noise handshakes under `psk`. -/
inductive NoiseFrom (C : Crypto) (psk : Vector UInt8 32) : C.Noise → Prop
  | new {initiator : Bool} {seed : Vector UInt8 32} {hs : C.Noise}
      (h : C.noiseNew (some psk) initiator seed = some hs) : NoiseFrom C psk hs
  | write {hs hs' : C.Noise} {payload msg : Bytes} (h : NoiseFrom C psk hs)
      (hw : C.noiseWrite hs payload = some (msg, hs')) : NoiseFrom C psk hs'
  | read {hs hs' : C.Noise} {payload msg : Bytes} (h : NoiseFrom C psk hs)
      (hr : C.noiseRead hs msg = some (payload, hs')) : NoiseFrom C psk hs'

/-- The two keys of either end of a finished Noise handshake under `psk`. -/
def NoiseKeys (C : Crypto) (psk : Vector UInt8 32) (enc dec : SessionKey) : Prop :=
  ∃ hs hash transcript, NoiseFrom C psk hs ∧ C.noiseHash hs = some hash ∧
    ((enc, dec) = C.deriveSessionKeys hash transcript ∨
      (dec, enc) = C.deriveSessionKeys hash transcript)

/-- The greeting is a Noise one. -/
def FirstIsNoise (first : FirstHandshake) : Prop := ∃ msg1, first = .noise msg1

/-- The action leaves the token alone and does not ask for legacy handshakes. -/
def KeepsToken : Action → Prop
  | .setRoomToken _ => False
  | .setHandshakeMode mode => mode ≠ .legacy
  | _ => True

/-- A session with the token whose stored and pending keys are Noise keys,
those of `before` apart. -/
structure Guarded (C : Crypto) (token : Bytes) (before : List Install) (s : Session cfg) :
    Prop where
  roomToken : s.settings.roomToken = some token
  mode : s.settings.handshakeMode ≠ .legacy
  pending : ∀ a p, s.pendingJoins.lookup a = some p → NoiseKeys C (C.sha256 token) p.encKey p.decKey
  installed : ∀ k ∈ s.history.installed, k ∈ before ∨ NoiseKeys C (C.sha256 token) k.enc k.dec

variable {token : Bytes} {before : List Install} {s t : Session cfg} {env : Env}

theorem Guarded.roomPsk (h : Guarded C token before s) : s.roomPsk C = some (C.sha256 token) := by
  rw [Session.roomPsk, h.roomToken]
  rfl

theorem Guarded.of_eq (h : Guarded C token before s)
    (htoken : t.settings.roomToken = s.settings.roomToken)
    (hmode : t.settings.handshakeMode = s.settings.handshakeMode)
    (hpending : t.pendingJoins = s.pendingJoins)
    (hinst : t.history.installed = s.history.installed) : Guarded C token before t := by
  refine ⟨htoken.trans h.roomToken, hmode ▸ h.mode, ?_, ?_⟩
  · rw [hpending]
    exact h.pending
  · rw [hinst]
    exact h.installed

/-- The responder's keys come from the state that read the greeting. -/
theorem noiseKeys_of_serverBegin (hpsk : s.roomPsk C = some psk) {msg1 : Bytes} {p : PendingJoin}
    (h : s.noiseServerBegin C env msg1 = (.ok p, t)) : NoiseKeys C psk p.encKey p.decKey := by
  unfold noiseServerBegin at h
  rw [hpsk] at h
  split at h
  · cases h
  · rename_i hs hnew
    split at h
    · cases h
    · rename_i payload1 hs1 hread
      split at h
      · cases h
      · split at h
        · cases h
        · dsimp only at h
          split at h
          · cases h
          · split at h
            · cases h
            · rename_i msg2 hs2 hwrite
              split at h
              · cases h
              · rename_i hash hhash
                cases h
                exact ⟨hs2, hash, _, ((NoiseFrom.new hnew).read hread).write hwrite, hhash,
                  .inr rfl⟩

theorem noiseFrom_of_clientBegin (hpsk : s.roomPsk C = some psk) {hs : C.Noise} {msg1 : Bytes}
    (h : s.noiseClientBegin C env = .ok (hs, msg1)) : NoiseFrom C psk hs := by
  unfold noiseClientBegin at h
  rw [hpsk] at h
  split at h
  · cases h
  · rename_i hs0 hnew
    split at h
    · cases h
    · rename_i msg hs1 hwrite
      cases h
      exact (NoiseFrom.new hnew).write hwrite

/-- The initiator's keys come from the state that read the answer. -/
theorem noiseKeys_of_clientAnswer {hs : C.Noise} (hN : NoiseFrom C psk hs) {peer : SocketAddr}
    {nonce : Vector UInt8 32} {sid : UInt32} {hello2 : NoiseHello2} {w : ConfirmWait}
    (h : s.noiseClientAnswer C env peer hs nonce sid hello2 = (.ok w, t)) :
    NoiseKeys C psk w.encKey w.decKey := by
  unfold noiseClientAnswer at h
  split_ifs at h
  · cases h
  · cases h
  · split at h
    · cases h
    · rename_i hash hhash
      dsimp only at h
      split at h
      · cases h
      · cases h
        exact ⟨hs, hash, _, hN, hhash, .inl rfl⟩
  · cases h

theorem Guarded.speaks (h : Guarded C token before s) (hs : SpeaksOnly s t) :
    Guarded C token before t :=
  h.of_eq (by rw [hs.settings]) (by rw [hs.settings]) hs.pendingJoins (by rw [hs.history])

theorem Guarded.reopen (h : Guarded C token before s) : Guarded C token before s.reopen.2 := by
  unfold Session.reopen
  have hwiped : Guarded C token before s.wiped :=
    ⟨h.roomToken, h.mode, fun a p hp => by simp [wiped] at hp, h.installed⟩
  dsimp only
  split_ifs
  · exact h
  · split
    · exact hwiped
    · exact hwiped.of_eq rfl rfl rfl rfl

theorem rules_guarded (C : Crypto) (env : Env) (i : Arrival) (s₀ : Session cfg) (token : Bytes)
    (before : List Install) :
    Rules C env i s₀ (Guarded C token before) (NoiseKeys C (C.sha256 token))
      (NoiseFrom C (C.sha256 token)) FirstIsNoise False where
  rx h hrx := by
    have hk := hrx.keeps
    exact h.of_eq (by rw [hk.settings]) (by rw [hk.settings]) hk.pendingJoins hk.installed
  calm h hc := h.of_eq hc.roomToken hc.handshakeMode hc.pendingJoins (by rw [hc.history])
  insert _ h := h.of_eq rfl rfl rfl rfl
  remove _ h := h.of_eq rfl rfl rfl rfl
  clearBook h := h.of_eq rfl rfl rfl rfl
  joins _ h hp := ⟨h.roomToken, h.mode, hp, h.installed⟩
  pending h hp := h.pending _ _ hp
  install peer h hK := by
    refine ⟨h.roomToken, h.mode, h.pending, fun k hk => ?_⟩
    rcases List.mem_cons.mp hk with rfl | hk
    · exact .inr hK
    · exact h.installed k hk
  close {s} h := by
    rw [close_eq]
    exact h.of_eq rfl rfl rfl rfl
  noiseServer h hp := noiseKeys_of_serverBegin h.roomPsk hp
  legacyServer hA _ _ := by
    obtain ⟨msg1, hA⟩ := hA
    cases hA
  legacyClient hF _ _ := hF.elim
  noiseBegin h hb := noiseFrom_of_clientBegin h.roomPsk hb
  noiseRead hN hr := hN.read hr
  noiseClient hN _ hc := noiseKeys_of_clientAnswer hN hc
  legacyMode h hmode := h.mode hmode
  autoMode h _ htoken := by simp [hasRoomToken, h.roomToken] at htoken

/-- One step: either no legacy greeting is let in and `Rules` apply, or a setting
that is allowed changes. -/
theorem Guarded.step {m : Machine C cfg} {a : Action}
    (h : Good (Guarded C token before) (NoiseKeys C (C.sha256 token))
      (NoiseFrom C (C.sha256 token)) False m)
    (ha : KeepsToken a) (hA : Admits C env FirstIsNoise m a) :
    Good (Guarded C token before) (NoiseKeys C (C.sha256 token))
      (NoiseFrom C (C.sha256 token)) False (step C env m a) := by
  cases hsets : a.sets with
  | false =>
    exact (rules_guarded C env _ _ token before).step
      (fun payload _ h => h.speaks (speaksOnly_sendAudio C env payload _)) (fun _ h => h.reopen)
      h hsets hA
  | true =>
    cases a with
    | setRoomToken token => exact ha.elim
    | setHandshakeMode mode =>
      exact ⟨⟨h.1.roomToken, ha, h.1.pending, h.1.installed⟩, h.2⟩
    | setMultiPeer enabled => exact ⟨h.1.of_eq rfl rfl rfl rfl, h.2⟩
    | _ => cases hsets

/-- From any session at rest with a room token, in a mode other than legacy, whose
admissions in progress are under the token: in every run in which no server-side wait and no receive
loop lets a legacy greeting in, all keys that get stored come out of a Noise
handshake under the key of the token. -/
theorem tokenRoom_keys_noise (C : Crypto) (s : Session cfg) (token : Bytes)
    (htoken : s.settings.roomToken = some token) (hmode : s.settings.handshakeMode ≠ .legacy)
    (hpending : ∀ a p, s.pendingJoins.lookup a = some p →
      NoiseKeys C (C.sha256 token) p.encKey p.decKey)
    (steps : List (Env × Action))
    (hrun : Along (fun m x => step C x.1 m x.2)
      (fun m x => KeepsToken x.2 ∧ Admits C x.1 FirstIsNoise m x.2) (rest C s) steps) :
    ∀ k ∈ (run C (rest C s) steps).session.history.installed,
      k ∈ s.history.installed ∨ NoiseKeys C (C.sha256 token) k.enc k.dec := by
  have hstart : Good (Guarded C token s.history.installed) (NoiseKeys C (C.sha256 token))
      (NoiseFrom C (C.sha256 token)) False (rest C s) :=
    ⟨⟨htoken, hmode, hpending, fun k hk => .inl hk⟩, trivial⟩
  exact (hrun.invariant (fun m x h hx => Guarded.step h hx.1 hx.2) hstart).1.installed

/-! ## Examples -/

/-- A new session with a room token, in the default mode. -/
def tokenRoom : Session Config.default :=
  { initial Config.default (Vector.replicate 8 0) with settings.roomToken := some [7, 7, 7] }

/-- Only a `ClientHello` is let in as a legacy greeting. -/
theorem admits_of_not_hello (m : Machine C cfg) (a : Action)
    (h : ∀ raw view, a.bytes = some raw → PacketView.decode raw = .ok view →
      view.header.msgType ≠ MessageType.handshakeClientHello.code) :
    Admits C env FirstIsNoise m a := by
  have hpeek {sender : SocketAddr} {raw : Bytes} (hraw : a.bytes = some raw) (view : PacketView)
      (first : FirstHandshake) (hview : PacketView.decode raw = .ok view)
      (hp : m.session.peekNewPeer view sender = some first) : FirstIsNoise first := by
    have hne := h raw view hraw hview
    unfold peekNewPeer at hp
    dsimp only at hp
    split_ifs at hp with _ hcode _ _ hnoise
    · cases hp
      exact ⟨_, rfl⟩
    · exact absurd ⟨hne, hnoise⟩ hcode
  cases a with
  | input i =>
    cases i with
    | datagram sender raw =>
      intro caller expect noise legacy cycle next first _ hfirst
      unfold hearFirst at hfirst
      split_ifs at hfirst
      split at hfirst
      · cases hfirst
      · rename_i view hview
        have hne := h raw view rfl hview
        unfold firstMessage at hfirst
        simp only [hne, beq_iff_eq, Bool.and_eq_true, and_false, if_false] at hfirst
        split_ifs at hfirst
        cases hfirst
        exact ⟨_, rfl⟩
    | _ => trivial
  | recv sender raw => exact fun view first _ hview => hpeek rfl view first hview
  | poll sender raw => exact fun view first _ hview => hpeek rfl view first hview
  | _ => trivial

/-- The Noise handshake of a guest who knows the token. -/
noncomputable def noisePairing : List (Env × Action) :=
  let psk := Crypto.toy.sha256 [7, 7, 7]
  [(Pairing.at' 1, .handshake .server Pairing.guest),
    (Pairing.at' 1, .input (.datagram Pairing.guest (Pairing.noiseHelloDatagram psk))),
    (Pairing.at' 1, .input (.datagram Pairing.guest (Pairing.noiseKeyExchangeDatagram psk)))]

/-- It is let in, and its keys are Noise keys. -/
theorem tokenRoom_keys_noise_pairing :
    (run Crypto.toy (rest Crypto.toy tokenRoom) noisePairing).session.history.installed ≠ [] ∧
    ∀ k ∈ (run Crypto.toy (rest Crypto.toy tokenRoom) noisePairing).session.history.installed,
      k ∈ tokenRoom.history.installed ∨
        NoiseKeys Crypto.toy (Crypto.toy.sha256 [7, 7, 7]) k.enc k.dec := by
  refine ⟨by decide +kernel, tokenRoom_keys_noise Crypto.toy tokenRoom [7, 7, 7] rfl (by decide)
    (fun a p hp => by simp [tokenRoom, initial] at hp) _
    ⟨⟨trivial, trivial⟩, ⟨trivial, ?_⟩, ⟨trivial, ?_⟩, trivial⟩⟩
  · refine admits_of_not_hello _ _ fun raw view hraw hview => ?_
    cases hraw
    rw [Pairing.noiseHelloDatagram, PacketBuilder.decode_bytes rfl (by decide +kernel)] at hview
    cases hview
    decide
  · refine admits_of_not_hello _ _ fun raw view hraw hview => ?_
    cases hraw
    rw [Pairing.noiseKeyExchangeDatagram, PacketBuilder.decode_bytes rfl (by decide +kernel)]
      at hview
    cases hview
    decide

/-- States of the toy handshake keep the key they were built with. -/
theorem toy_noiseFrom {hs : Crypto.toy.Noise} (h : NoiseFrom Crypto.toy psk hs) :
    hs.1.take 32 = psk.toList := by
  induction h with
  | new h =>
    cases h
    simp
  | write _ hw ih =>
    cases hw
    exact ih
  | read _ hr ih =>
    simp only [Crypto.toy] at hr
    split_ifs at hr
    cases hr
    exact ih

theorem toy_noiseKeys {enc dec : SessionKey} (h : NoiseKeys Crypto.toy psk enc dec) :
    enc.toList.take 16 = psk.toList.take 16 := by
  obtain ⟨hs, hash, transcript, hfrom, hhash, hkeys⟩ := h
  have hpsk := toy_noiseFrom hfrom
  have hhash' : hash = psk := by
    simp only [Crypto.toy] at hhash
    split_ifs at hhash
    rw [← Option.some.inj hhash, ← fixed_toList_append psk (hs.1.drop 32), ← hpsk,
      List.take_append_drop]
  subst hhash'
  have hkey (info : String) : (Crypto.toy.hkdf (some transcript) hash.toList
      (Crypto.label info) 32).toList.take 16 = hash.toList.take 16 := by
    apply List.ext_getElem
    · simp
    · intro j hj _
      have hlt : j < 16 := by simpa using hj
      simp [Crypto.toy, fixed, List.getElem?_append, hlt]
  rcases hkeys with hkeys | hkeys
  · rw [show enc = _ from (Prod.ext_iff.mp hkeys).1]
    exact hkey _
  · rw [show enc = _ from (Prod.ext_iff.mp hkeys).2]
    exact hkey _

/-- In the default mode a guest without the token pairs the legacy way. -/
theorem tokenRoom_legacy_pairing :
    let m := run Crypto.toy (rest Crypto.toy tokenRoom) Pairing.steps
    Session.new Config.default (Vector.replicate 8 0) =
        some (initial Config.default (Vector.replicate 8 0)) ∧
      tokenRoom.settings.handshakeMode = .auto ∧ m.session.status.state = .active ∧
      ∃ k ∈ m.session.history.installed,
        k ∉ tokenRoom.history.installed ∧
          ¬ NoiseKeys Crypto.toy (Crypto.toy.sha256 [7, 7, 7]) k.enc k.dec := by
  have hinst : (run Crypto.toy (rest Crypto.toy tokenRoom) Pairing.steps).session.history.installed
      = [⟨Pairing.guest, Pairing.keys.2, Pairing.keys.1, 1, 1, 2⟩] := by decide +kernel
  refine ⟨new_default _, rfl, by decide +kernel, ?_⟩
  rw [hinst]
  refine ⟨_, List.mem_singleton_self _, by simp [tokenRoom, initial], fun h => ?_⟩
  exact absurd (toy_noiseKeys h) (by decide +kernel)

end Machine
end GravitalTalk
