import GravitalTalk.Session.PathProbes
import GravitalTalk.Session.Tables
import GravitalTalk.Transport.RendezvousFormat

/-!
# A chosen path works both ways

A guest that chooses a path, and any number of sessions that wait for guests. The
network may lose, repeat, reorder and misdirect what they send, and give a datagram
any apparent source. Strangers may inject what they like but the guest's own nonce,
which is drawn at random for the call and goes out under the key of the room only.

The address that `select_path` returns is then one from which an answer came whose
author had received a probe that the guest itself had sent.
-/
namespace GravitalTalk
namespace Session

open Rendezvous (Message RoomKey)

@[simp] theorem decode_punch (key : RoomKey) (nonce : Vector UInt8 8) :
    Message.decode ((Message.punch nonce).encode key) = some (key, .punch nonce) := by
  have hfits : (Message.punch nonce).Fits := trivial
  exact Message.decode_encode hfits key

@[simp] theorem decode_punchAck (key : RoomKey) (nonce : Vector UInt8 8) :
    Message.decode ((Message.punchAck nonce).encode key) = some (key, .punchAck nonce) := by
  have hfits : (Message.punchAck nonce).Fits := trivial
  exact Message.decode_encode hfits key

@[simp] theorem decode_register (key : RoomKey) :
    Message.decode (Message.register.encode key) = some (key, .register) := by
  have hfits : Message.register.Fits := trivial
  exact Message.decode_encode hfits key

/-! ## What a waiting session says about a nonce -/

section Waiting

variable {cfg : Config} (C : Crypto) (env : Env)

/-- All that is new in the record is as `P` says. -/
def Adds (P : Bytes → Prop) (s t : Session cfg) : Prop :=
  ∀ x ∈ t.traffic.sent, x ∈ s.traffic.sent ∨ P x.2

variable {C env} {P : Bytes → Prop} {s t u : Session cfg}

namespace Adds

theorem of_eq (h : t.traffic.sent = s.traffic.sent) : Adds P s t := by
  intro x hx
  rw [h] at hx
  exact .inl hx

theorem trans (h : Adds P s t) (h' : Adds P t u) : Adds P s u := by
  intro x hx
  rcases h' x hx with hx | hx
  · exact h x hx
  · exact .inr hx

theorem transmit {bytes : Bytes} (h : P bytes) (a : SocketAddr) (s : Session cfg) :
    Adds P s (s.transmit env a bytes).2 := by
  intro x hx
  rcases List.mem_cons.mp hx with rfl | hx
  · exact .inr h
  · exact .inl hx

theorem foldl {β : Type*} {f : Session cfg → β → Session cfg}
    (hf : ∀ s b, Adds P s (f s b)) (l : List β) (s : Session cfg) : Adds P s (l.foldl f s) := by
  induction l generalizing s with
  | nil => exact of_eq rfl
  | cons b l ih => exact (hf s b).trans (ih _)

end Adds

theorem Posts.adds {Q : SocketAddr → Message → Prop} (h : Posts C Q s t)
    (hP : ∀ a msg, Q a msg → P (msg.encode (s.roomKey C))) : Adds P s t := by
  intro x hx
  rcases h.sent hx with hx | ⟨msg, hmsg, henc⟩
  · exact .inl hx
  · rw [henc]
    exact .inr (hP x.1 msg hmsg)

/-- A packet is no message of a room. -/
theorem decode_packet (header : PacketHeader) (payload : Bytes) :
    Message.decode (PacketBuilder.bytes header payload) = none := by
  have hmagic : (PacketBuilder.bytes header payload).take 4 ≠ Rendezvous.magic := by
    intro h
    have hsecond := congrArg (fun l : Bytes => l.getD 1 0) h
    simp [PacketBuilder.bytes, PacketHeader.encode, magicBytes, Rendezvous.magic] at hsecond
  have hrv : Rendezvous.isRendezvous (PacketBuilder.bytes header payload) = false := by
    simp only [Rendezvous.isRendezvous, Bool.and_eq_false_iff]
    right
    simpa using hmagic
  simp [Message.decode, hrv]

theorem adds_sendKeepaliveTo (h : ∀ header payload, P (PacketBuilder.bytes header payload))
    (sid : UInt32) (a : SocketAddr) (s : Session cfg) :
    Adds P s (s.sendKeepaliveTo C env sid a) := by
  unfold sendKeepaliveTo
  dsimp only
  split
  · exact .of_eq rfl
  · rename_i key hkey
    split
    · exact .of_eq rfl
    · rename_i bytes hbytes
      have hpacket : P bytes := by
        split at hbytes
        · rw [(PacketBuilder.encode_eq_ok hbytes).1]
          exact h _ _
        · rw [(PacketBuilder.encode_eq_ok hbytes).1]
          exact h _ _
      have hsent := @Adds.transmit cfg env P bytes hpacket a
        (s.bumpSequence.noteSealed key (makeNonce s.traffic.txSequence sid)
          (sealedHeader env .heartbeat sid s.traffic.txSequence).encode [])
      cases hout : env.sendTo a bytes with
      | error e =>
        unfold transmit at hsent ⊢
        rw [hout] at hsent ⊢
        exact hsent
      | ok n =>
        unfold transmit at hsent ⊢
        rw [hout] at hsent ⊢
        exact hsent

theorem adds_sendKeepalive (h : ∀ header payload, P (PacketBuilder.bytes header payload))
    (s : Session cfg) : Adds P s (s.sendKeepalive C env) :=
  Adds.foldl (fun s' a => adds_sendKeepaliveTo h _ a s') _ s

theorem adds_probeAnswered (h : ∀ header payload, P (PacketBuilder.bytes header payload))
    (sender : SocketAddr) (s : Session cfg) : Adds P s (s.probeAnswered C env sender) := by
  unfold probeAnswered
  split
  · exact .of_eq rfl
  · rename_i old _
    split_ifs
    · refine Adds.trans (t := s.switchPeer env old sender) (.of_eq ?_) (adds_sendKeepalive h _)
      unfold switchPeer
      split <;> rfl
    · exact .of_eq rfl

/-- What a waiting session sends when a message of its room arrives: a probe with a nonce that
is new, or the nonce of a probe back, or a keepalive. -/
theorem adds_onRendezvous (raw : Bytes) (sender : SocketAddr) (s : Session cfg) :
    Adds (fun out =>
        (∃ a, Message.decode out = some (s.roomKey C, .punch (env.punchNonce a))) ∨
        (∃ nonce, Message.decode raw = some (s.roomKey C, .punch nonce) ∧
          Message.decode out = some (s.roomKey C, .punchAck nonce)) ∨
        Message.decode out = none) s (s.onRendezvous C env raw sender) := by
  unfold onRendezvous
  cases hdecode : Message.decode raw with
  | none => exact .of_eq rfl
  | some x =>
    obtain ⟨key, msg⟩ := x
    dsimp only
    by_cases hkey : key ≠ s.roomKey C
    · rw [if_pos hkey]
      exact .of_eq rfl
    · rw [if_neg hkey, not_not.mp hkey]
      cases msg with
      | register => exact .of_eq rfl
      | addrs addrs =>
        dsimp only
        split_ifs <;> exact .of_eq rfl
      | punch nonce =>
        apply Adds.transmit
        exact .inr (.inl ⟨nonce, rfl, decode_punchAck _ nonce⟩)
      | punchAck nonce =>
        dsimp only
        split_ifs
        · exact adds_probeAnswered (fun _ _ => .inr (.inr (decode_packet _ _))) sender s
        · exact .of_eq rfl
      | peers you others =>
        dsimp only
        split_ifs
        · have hprobes : Posts C (fun a msg => msg = .punch (env.punchNonce a)) s
              (others.foldl (fun s peer => s.sendRv C env (.punch (env.punchNonce peer)) peer) s) :=
            Posts.foldl others (fun peer _ s => .sendRv rfl s) s
          refine (hprobes.adds ?_).trans (.of_eq rfl)
          rintro a msg rfl
          exact .inl ⟨a, decode_punch _ _⟩
        · exact .of_eq rfl

end Waiting

/-! ## The network -/

/-- Who sends and receives: the guest, and the sessions that wait. -/
inductive Party (ι : Type*)
  | guest
  | host (i : ι)

/-- A datagram arrives. -/
structure Delivery (ι : Type*) where
  /-- Who sent it; nobody when a stranger made it. -/
  origin : Option (Party ι)
  target : Party ι
  /-- Where it was sent, and from where it seems to come. -/
  dest : SocketAddr
  sender : SocketAddr
  raw : Bytes

variable {ι : Type*} [DecidableEq ι] {cfg : Config} {cfgs : ι → Config}

/-- What can happen to the parties. A turn is anything that other tasks of a party do. -/
inductive Happening (cfg : Config) (cfgs : ι → Config)
  | deliver (d : Delivery ι)
  | timeout
  | ioError (e : TransportError)
  | guestTurn (s : Session cfg)
  | hostTurn (i : ι) (s : Session (cfgs i))

/-- The guest that chooses a path, and the sessions that wait. -/
structure Meeting (cfg : Config) (cfgs : ι → Config) where
  guest : Selection × Session cfg
  hosts : ∀ i, Session (cfgs i)

variable (C : Crypto) (env : Env)

/-- What of it the guest sees. -/
def atGuest (a : Env × Happening cfg cfgs) : Option (Env × PathEvent cfg) :=
  match a.2 with
  | .deliver d =>
    match d.target with
    | .guest => some (a.1, .datagram d.sender d.raw)
    | .host _ => none
  | .timeout => some (a.1, .timeout)
  | .ioError e => some (a.1, .ioError e)
  | .guestTurn s => some (a.1, .meanwhile s)
  | .hostTurn _ _ => none

namespace Meeting

/-- All that `who` has sent. -/
def sent (m : Meeting cfg cfgs) : Party ι → List (SocketAddr × Bytes)
  | .guest => m.guest.2.traffic.sent
  | .host i => (m.hosts i).traffic.sent

def step (m : Meeting cfg cfgs) (a : Env × Happening cfg cfgs) : Meeting cfg cfgs where
  guest :=
    match atGuest a with
    | some event => selectStep C m.guest event
    | none => m.guest
  hosts :=
    match a.2 with
    | .deliver d =>
      match d.target with
      | .guest => m.hosts
      | .host i =>
        Function.update m.hosts i ((m.hosts i).onRendezvous C a.1 d.raw d.sender)
    | .hostTurn i s => Function.update m.hosts i s
    | _ => m.hosts

/-- The guest calls `select_path`. -/
def start (candidates : List SocketAddr) (wait : ℕ) (nonce : Vector UInt8 8) (s : Session cfg)
    (hosts : ∀ i, Session (cfgs i)) : Meeting cfg cfgs :=
  ⟨selectPath C env candidates wait nonce s [], hosts⟩

end Meeting

/-- A probe with the nonce, or the answer to one. -/
def CarriesNonce (key : RoomKey) (nonce : Vector UInt8 8) (raw : Bytes) : Prop :=
  Message.decode raw = some (key, .punch nonce) ∨ Message.decode raw = some (key, .punchAck nonce)

/-- What parties send is delivered as they sent it, and what strangers make does not carry the
nonce, nor does what other tasks send; no host draws the same one. -/
def Fair (key : RoomKey) (nonce : Vector UInt8 8) (m : Meeting cfg cfgs)
    (a : Env × Happening cfg cfgs) : Prop :=
  match a.2 with
  | .deliver d =>
    (match d.origin with
      | some who => (d.dest, d.raw) ∈ m.sent who
      | none => ¬ CarriesNonce key nonce d.raw) ∧
    (d.target ≠ .guest → ∀ peer, a.1.punchNonce peer ≠ nonce)
  | .guestTurn s => Adds (fun raw => ¬ CarriesNonce key nonce raw) m.guest.2 s
  | .hostTurn i s => Adds (fun raw => ¬ CarriesNonce key nonce raw) (m.hosts i) s
  | _ => True

/-- Nobody has sent the nonce yet. -/
def Unused (key : RoomKey) (nonce : Vector UInt8 8) (s : Session cfg) : Prop :=
  ∀ x ∈ s.traffic.sent, ¬ CarriesNonce key nonce x.2

/-- A probe that the guest sent has reached `who`. -/
def Probed (key : RoomKey) (nonce : Vector UInt8 8) (events : List (Env × Happening cfg cfgs))
    (who : Party ι) : Prop :=
  ∃ now d, (now, .deliver d) ∈ events ∧ d.origin = some .guest ∧ d.target = who ∧
    Message.decode d.raw = some (key, .punch nonce)

/-- An answer came to the guest from `addr`, and a probe of the guest had reached its author. -/
def BothWays (key : RoomKey) (nonce : Vector UInt8 8) (events : List (Env × Happening cfg cfgs))
    (addr : SocketAddr) : Prop :=
  ∃ before now d after, events = before ++ (now, .deliver d) :: after ∧
    d.target = .guest ∧ d.sender = addr ∧
    Message.decode d.raw = some (key, .punchAck nonce) ∧
    ∃ who, d.origin = some who ∧ Probed key nonce before who

/-- Every probe with the nonce is the guest's, and every answer follows one. -/
structure Accounted (key : RoomKey) (nonce : Vector UInt8 8)
    (events : List (Env × Happening cfg cfgs)) (m : Meeting cfg cfgs) : Prop where
  origin : ∀ now d, (now, .deliver d) ∈ events →
    Message.decode d.raw = some (key, .punch nonce) → d.origin = some .guest
  probe : ∀ i, ∀ x ∈ (m.hosts i).traffic.sent, Message.decode x.2 ≠ some (key, .punch nonce)
  answer : ∀ who, ∀ x ∈ m.sent who, Message.decode x.2 = some (key, .punchAck nonce) →
    Probed key nonce events who

section Network

variable {C env} {key : RoomKey} {nonce : Vector UInt8 8} {m : Meeting cfg cfgs}
  {events more : List (Env × Happening cfg cfgs)} {a : Env × Happening cfg cfgs}

omit [DecidableEq ι] in
theorem Probed.mono (hmore : events ⊆ more) {who : Party ι} (h : Probed key nonce events who) :
    Probed key nonce more who := by
  obtain ⟨now, d, hmem, hd⟩ := h
  exact ⟨now, d, hmore hmem, hd⟩

omit [DecidableEq ι] in
/-- A probe with the nonce that arrives is the guest's. -/
theorem Accounted.origin_of_fair (h : Accounted key nonce events m) {now : Env} {d : Delivery ι}
    (hfair : Fair key nonce m (now, .deliver d))
    (hdecode : Message.decode d.raw = some (key, .punch nonce)) : d.origin = some .guest := by
  have hsource := hfair.1
  cases horigin : d.origin with
  | none =>
    rw [horigin] at hsource
    exact absurd (.inl hdecode) hsource
  | some who =>
    rw [horigin] at hsource
    cases who with
    | guest => rfl
    | host i => exact absurd hdecode (h.probe i _ hsource)

omit [DecidableEq ι] in
theorem Accounted.origins (h : Accounted key nonce events m) (hfair : Fair key nonce m a)
    (now : Env) (d : Delivery ι) (hmem : (now, .deliver d) ∈ events ++ [a])
    (hdecode : Message.decode d.raw = some (key, .punch nonce)) : d.origin = some .guest := by
  rcases List.mem_append.mp hmem with hmem | hmem
  · exact h.origin now d hmem hdecode
  · rw [← List.mem_singleton.mp hmem] at hfair
    exact h.origin_of_fair hfair hdecode

/-- What a host sends that it has not sent before. -/
theorem Accounted.host (h : Accounted key nonce events m) (hfair : Fair key nonce m a) (i : ι)
    (x : SocketAddr × Bytes) (hx : x ∈ ((m.step C a).hosts i).traffic.sent) :
    x ∈ (m.hosts i).traffic.sent ∨ (Message.decode x.2 ≠ some (key, .punch nonce) ∧
      (Message.decode x.2 = some (key, .punchAck nonce) →
        Probed key nonce (events ++ [a]) (.host i))) := by
  obtain ⟨now, what⟩ := a
  have hquiet {y : Bytes} (hy : ¬ CarriesNonce key nonce y) :
      Message.decode y ≠ some (key, .punch nonce) ∧
        (Message.decode y = some (key, .punchAck nonce) →
          Probed key nonce (events ++ [(now, what)]) (.host i)) :=
    ⟨fun hp => hy (.inl hp), fun hack => absurd (.inr hack) hy⟩
  cases what with
  | timeout => exact .inl hx
  | ioError e => exact .inl hx
  | guestTurn s => exact .inl hx
  | hostTurn j s =>
    dsimp only [Meeting.step] at hx
    by_cases hij : i = j
    · subst hij
      rw [Function.update_self] at hx
      exact (hfair x hx).imp id hquiet
    · rw [Function.update_of_ne hij] at hx
      exact .inl hx
  | deliver d =>
    obtain ⟨origin, target, dest, sender, raw⟩ := d
    dsimp only [Meeting.step] at hx
    cases target with
    | guest => exact .inl hx
    | host j =>
      dsimp only at hx
      by_cases hij : i = j
      · subst hij
        rw [Function.update_self] at hx
        apply (adds_onRendezvous raw sender (m.hosts i) x hx).imp id
        rintro (⟨peer, hout⟩ | ⟨theirs, hraw, hout⟩ | hout)
        · have hnew : now.punchNonce peer ≠ nonce := hfair.2 (by simp) peer
          rw [hout]
          constructor
          · simp [hnew]
          · simp
        · rw [hout]
          constructor
          · simp
          · intro heq
            simp only [Option.some.injEq, Prod.mk.injEq, Message.punchAck.injEq] at heq
            rw [heq.1, heq.2] at hraw
            exact ⟨now, _, by simp, h.origin_of_fair hfair hraw, rfl, hraw⟩
        · rw [hout]
          simp
      · rw [Function.update_of_ne hij] at hx
        exact .inl hx

/-! ### The guest -/

/-- The guest has gone through its own part of the run. -/
theorem guest_foldl (events : List (Env × Happening cfg cfgs)) (m : Meeting cfg cfgs) :
    (events.foldl (Meeting.step C) m).guest =
      (events.filterMap atGuest).foldl (selectStep C) m.guest := by
  induction events generalizing m with
  | nil => rfl
  | cons a events ih =>
    rw [List.foldl_cons, ih]
    unfold Meeting.step
    cases hsees : atGuest a with
    | none => simp [hsees]
    | some event => simp [hsees]

theorem guest_run (candidates : List SocketAddr) (wait : ℕ) (nonce : Vector UInt8 8)
    (s : Session cfg) (hosts : ∀ i, Session (cfgs i)) (events : List (Env × Happening cfg cfgs)) :
    (events.foldl (Meeting.step C) (.start C env candidates wait nonce s hosts)).guest =
      selectPath C env candidates wait nonce s (events.filterMap atGuest) := by
  rw [guest_foldl]
  rfl

omit [DecidableEq ι] in
/-- A datagram that the guest has read was delivered to it. -/
theorem delivered_of_atGuest {now : Env} {sender : SocketAddr} {raw : Bytes}
    (h : (now, .datagram sender raw) ∈ events.filterMap atGuest) :
    ∃ d, (now, .deliver d) ∈ events ∧ d.target = .guest ∧ d.sender = sender ∧ d.raw = raw := by
  obtain ⟨⟨now', what⟩, hmem, hsees⟩ := List.mem_filterMap.mp h
  cases what with
  | timeout => simp [atGuest] at hsees
  | ioError e => simp [atGuest] at hsees
  | guestTurn s => simp [atGuest] at hsees
  | hostTurn i s => simp [atGuest] at hsees
  | deliver d =>
    obtain ⟨origin, target, dest, sender', raw'⟩ := d
    cases target with
    | host i => simp [atGuest] at hsees
    | guest =>
      simp only [atGuest, Option.some.injEq, Prod.mk.injEq, PathEvent.datagram.injEq] at hsees
      obtain ⟨rfl, rfl, rfl⟩ := hsees
      exact ⟨_, hmem, rfl, rfl, rfl⟩

/-- Among the messages a guest may send, the answer with its own nonce follows its own probe. -/
theorem Addressed.answer_of {p₀ : Probing} {seen : List (Env × PathEvent cfg)} {dest : SocketAddr}
    {msg : Message} (h : Addressed p₀ seen dest msg) {key key' : RoomKey} {nonce : Vector UInt8 8}
    (hdecode : Message.decode (msg.encode key') = some (key, .punchAck nonce)) :
    Heard p₀ seen dest (.punch nonce) := by
  cases h with
  | register _ => simp at hdecode
  | probe _ => simp at hdecode
  | sweep _ _ _ => simp at hdecode
  | back _ => simp at hdecode
  | answer h =>
    simp only [decode_punchAck, Option.some.injEq, Prod.mk.injEq, Message.punchAck.injEq] at hdecode
    rwa [hdecode.2] at h

/-- The guest in its part of the run, and everybody accounted for. -/
structure Underway (candidates : List SocketAddr) (wait : ℕ) (nonce : Vector UInt8 8)
    (s : Session cfg) (C : Crypto) (env : Env) (events : List (Env × Happening cfg cfgs))
    (m : Meeting cfg cfgs) : Prop where
  guest : m.guest = selectPath C env candidates wait nonce s (events.filterMap atGuest)
  accounted : Accounted (s.roomKey C) nonce events m

variable {candidates : List SocketAddr} {wait : ℕ} {s : Session cfg}

/-- An answer that is new in the record of the guest follows its own probe. -/
theorem Underway.guest_posts (h : Underway candidates wait nonce s C env events m)
    (hfair : Fair (s.roomKey C) nonce m a) {event : Env × PathEvent cfg}
    (hsees : atGuest a = some event) (hread : event.2.isRead = true)
    {x : SocketAddr × Bytes} (hx : x ∈ ((m.step C a).guest).2.traffic.sent)
    (hdecode : Message.decode x.2 = some (s.roomKey C, .punchAck nonce)) :
    x ∈ m.guest.2.traffic.sent ∨ Probed (s.roomKey C) nonce (events ++ [a]) .guest := by
  have hseen : (events ++ [a]).filterMap atGuest = events.filterMap atGuest ++ [event] := by
    simp [List.filterMap_append, hsees]
  have hstep : (m.step C a).guest = selectPath C env candidates wait nonce s
      ((events ++ [a]).filterMap atGuest) := by
    rw [hseen, selectPath_append, ← h.guest, Meeting.step, hsees]
  rcases selectPath_addresses C env candidates wait nonce s (events.filterMap atGuest) event with
    hno | hposts
  · rw [hread] at hno
    cases hno
  · rw [← hseen, ← hstep, ← h.guest] at hposts
    rcases hposts.sent hx with hold | ⟨msg, hmsg, henc⟩
    · exact .inl hold
    · rw [henc] at hdecode
      obtain ⟨now, raw, hmem, hraw⟩ := hmsg.answer_of hdecode
      obtain ⟨d, hd, htarget, -, rfl⟩ := delivered_of_atGuest hmem
      have horigin := h.accounted.origins hfair now d hd hraw
      exact .inr ⟨now, d, hd, horigin, htarget, hraw⟩

/-- Other tasks of the guest do not send the nonce. -/
theorem guest_turn {now : Env} {t : Session cfg}
    (hfair : Fair key nonce m (now, .guestTurn t)) {x : SocketAddr × Bytes}
    (hx : x ∈ ((m.step C (now, .guestTurn t)).guest).2.traffic.sent) :
    x ∈ m.guest.2.traffic.sent ∨ ¬ CarriesNonce key nonce x.2 := by
  obtain ⟨⟨selection, u⟩, hosts⟩ := m
  cases selection with
  | probing p => exact hfair x hx
  | done r => exact .inl hx

theorem Underway.step (h : Underway candidates wait nonce s C env events m)
    (hfair : Fair (s.roomKey C) nonce m a) :
    Underway candidates wait nonce s C env (events ++ [a]) (m.step C a) := by
  have hmore : events ⊆ events ++ [a] := List.subset_append_left _ _
  constructor
  · rw [List.filterMap_append, List.filterMap_cons, List.filterMap_nil, Meeting.step]
    cases hsees : atGuest a with
    | none => simpa using h.guest
    | some event => simp [selectPath_append, h.guest]
  · constructor
    · exact h.accounted.origins hfair
    · intro i x hx
      rcases h.accounted.host (C := C) hfair i x hx with hold | ⟨hnew, -⟩
      · exact h.accounted.probe i x hold
      · exact hnew
    · intro who x hx hdecode
      cases who with
      | host i =>
        rcases h.accounted.host (C := C) hfair i x hx with hold | ⟨-, hnew⟩
        · exact (h.accounted.answer (.host i) x hold hdecode).mono hmore
        · exact hnew hdecode
      | guest =>
        have hkeep (hold : x ∈ m.guest.2.traffic.sent) :
            Probed (s.roomKey C) nonce (events ++ [a]) .guest :=
          (h.accounted.answer .guest x hold hdecode).mono hmore
        obtain ⟨now, what⟩ := a
        cases what with
        | hostTurn i u => exact hkeep hx
        | guestTurn u =>
          rcases guest_turn hfair hx with hold | hno
          · exact hkeep hold
          · exact absurd (.inr hdecode) hno
        | timeout => exact (h.guest_posts hfair rfl rfl hx hdecode).elim hkeep id
        | ioError e => exact (h.guest_posts hfair rfl rfl hx hdecode).elim hkeep id
        | deliver d =>
          obtain ⟨origin, target, dest, sender, raw⟩ := d
          cases target with
          | host i => exact hkeep hx
          | guest => exact (h.guest_posts hfair rfl rfl hx hdecode).elim hkeep id

omit [DecidableEq ι] in
/-- The run starts with nothing but the guest's first probes. -/
theorem underway_start {hosts : ∀ i, Session (cfgs i)} (hguest : Unused (s.roomKey C) nonce s)
    (hhosts : ∀ i, Unused (s.roomKey C) nonce (hosts i)) :
    Underway candidates wait nonce s C env []
      (Meeting.start C env candidates wait nonce s hosts) := by
  refine ⟨rfl, nofun, fun i x hx hp => hhosts i x hx (.inl hp), ?_⟩
  intro who x hx hdecode
  cases who with
  | host i => exact absurd (.inr hdecode) (hhosts i x hx)
  | guest =>
    have hbegin : Informed (Probing.begin C env candidates wait nonce s) []
        (Probing.begin C env candidates wait nonce s) := informed_begin candidates wait nonce s
    have hposts : Posts C (Addressed (Probing.begin C env candidates wait nonce s) []) s
        ((Probing.begin C env candidates wait nonce s).head C env s).2 := (hbegin.head s).posts
    rcases hposts.sent hx with hold | ⟨msg, hmsg, henc⟩
    · exact absurd (.inr hdecode) (hguest x hold)
    · rw [henc] at hdecode
      obtain ⟨now, raw, hmem, -⟩ := hmsg.answer_of hdecode
      cases hmem

theorem underway_run (before : List (Env × Happening cfg cfgs))
    (hfair : Run.Along (Meeting.step C) (Fair (s.roomKey C) nonce) m events)
    (h : Underway candidates wait nonce s C env before m) :
    Underway candidates wait nonce s C env (before ++ events)
      (events.foldl (Meeting.step C) m) := by
  induction events generalizing m before with
  | nil => simpa using h
  | cons a events ih =>
    have hnext := ih (before ++ [a]) hfair.2 (h.step hfair.1)
    rwa [List.append_assoc] at hnext

/-- An address that a call returns has answered it. -/
theorem Reason.heard {p₀ : Probing} {seen : List (Env × PathEvent cfg)} {addr : SocketAddr}
    (h : Reason env p₀ seen s (.ok addr)) :
    ∃ now raw, (now, .datagram addr raw) ∈ seen ∧
      Message.decode raw = some (p₀.key, .punchAck p₀.nonce) := by
  have hmem : ∃ t, (addr, t) ∈ answers p₀.key p₀.nonce seen := by
    cases h with
    | answered hr =>
      cases hr with
      | @nearby pre _ t heq _ _ => exact ⟨t, by simp [heq]⟩
      | @faraway _ t rest heq _ _ => exact ⟨t, by simp [heq]⟩
  obtain ⟨t, hmem⟩ := hmem
  obtain ⟨⟨now, event⟩, hseen, hanswer⟩ := List.mem_filterMap.mp hmem
  cases event with
  | timeout => simp [answerOf] at hanswer
  | ioError e => simp [answerOf] at hanswer
  | meanwhile u => simp [answerOf] at hanswer
  | datagram sender raw =>
    simp only [answerOf] at hanswer
    split_ifs at hanswer with hack
    obtain ⟨rfl, -⟩ := Prod.mk.inj (Option.some.inj hanswer)
    exact ⟨now, raw, hseen, hack⟩

end Network

/-- A path that `select_path` chose works both ways: an answer came from it to the guest, and its
author had received a probe that the guest had sent. -/
theorem chosen_path_answers (C : Crypto) (env : Env) (candidates : List SocketAddr) (wait : ℕ)
    (nonce : Vector UInt8 8) (s : Session cfg) (hosts : ∀ i, Session (cfgs i))
    (events : List (Env × Happening cfg cfgs)) (addr : SocketAddr)
    (hguest : Unused (s.roomKey C) nonce s) (hhosts : ∀ i, Unused (s.roomKey C) nonce (hosts i))
    (hfair : Run.Along (Meeting.step C) (Fair (s.roomKey C) nonce)
      (.start C env candidates wait nonce s hosts) events)
    (hdone : (events.foldl (Meeting.step C)
      (.start C env candidates wait nonce s hosts)).guest.1 = .done (.ok addr)) :
    BothWays (s.roomKey C) nonce events addr := by
  obtain ⟨hreasons, -⟩ :=
    selectPath_law C env candidates wait nonce s (events.filterMap atGuest)
  rw [guest_run] at hdone
  obtain ⟨pre, hpre, hreason⟩ := hreasons _ hdone
  obtain ⟨now, raw, hmem, hraw⟩ := hreason.heard
  obtain ⟨d, hd, htarget, hsender, rfl⟩ := delivered_of_atGuest (hpre.subset hmem)
  obtain ⟨before, after, rfl⟩ := List.append_of_mem hd
  obtain ⟨hbefore, hnow, -⟩ := Run.along_append.mp hfair
  have haccounted := (underway_run [] hbefore (underway_start hguest hhosts)).accounted
  refine ⟨before, now, d, after, rfl, htarget, hsender, hraw, ?_⟩
  have hsource := hnow.1
  cases horigin : d.origin with
  | none =>
    rw [horigin] at hsource
    exact absurd (.inr hraw) hsource
  | some who =>
    rw [horigin] at hsource
    exact ⟨who, rfl, haccounted.answer who _ hsource hraw⟩

/-! A guest probes a session in its own network, which answers. -/
namespace Neighbourhood

def nonce : Vector UInt8 8 := Vector.replicate 8 7

def waiting : Session Config.default := Session.initial Config.default (Vector.replicate 8 1)

def hostAddr : SocketAddr := .v4 #v[192, 168, 1, 2] 5000

def guestAddr : SocketAddr := .v4 #v[192, 168, 1, 3] 5000

def key : RoomKey := waiting.roomKey Crypto.toy

noncomputable def moment : Env := Env.basic 0 hostAddr

noncomputable def there : Env × Happening Config.default fun _ : Unit => Config.default :=
  (moment, .deliver
    ⟨some .guest, .host (), hostAddr, guestAddr, (Message.punch nonce).encode key⟩)

noncomputable def back : Env × Happening Config.default fun _ : Unit => Config.default :=
  (moment, .deliver
    ⟨some (.host ()), .guest, guestAddr, hostAddr, (Message.punchAck nonce).encode key⟩)

end Neighbourhood

open Neighbourhood in
theorem chosen_path_answers_at_home :
    BothWays (waiting.roomKey Crypto.toy) nonce [there, back] hostAddr := by
  have hdraw : ∀ peer, moment.punchNonce peer ≠ nonce := by
    intro peer
    show Vector.replicate 8 0 ≠ nonce
    decide
  apply chosen_path_answers Crypto.toy moment [hostAddr] pathSelectTimeoutMs nonce waiting
    (fun _ => waiting)
  · exact nofun
  · exact fun _ => nofun
  · refine ⟨⟨?_, fun _ => hdraw⟩, ⟨?_, fun _ => hdraw⟩, trivial⟩
    · exact List.Mem.head _
    · have hanswer : (waiting.onRendezvous Crypto.toy moment ((Message.punch nonce).encode key)
          guestAddr).traffic.sent = [(guestAddr, (Message.punchAck nonce).encode key)] := by
        simp [onRendezvous, key]
        rfl
      show _ ∈ (waiting.onRendezvous Crypto.toy moment ((Message.punch nonce).encode key)
          guestAddr).traffic.sent
      rw [hanswer]
      exact List.mem_singleton_self _
  · show (selectStep Crypto.toy (selectPath Crypto.toy moment [hostAddr] pathSelectTimeoutMs nonce
      waiting []) (moment, .datagram hostAddr ((Message.punchAck nonce).encode key))).1 = _
    have hprobing :
        (selectPath Crypto.toy moment [hostAddr] pathSelectTimeoutMs nonce waiting []).1 =
        .probing { Probing.begin Crypto.toy moment [hostAddr] pathSelectTimeoutMs nonce waiting with
          cycle := 1, nextSend := 250000 } := rfl
    simp [selectStep, hprobing, Probing.receive, Probing.begin, Probing.hear, key]
    rfl

end Session
end GravitalTalk
