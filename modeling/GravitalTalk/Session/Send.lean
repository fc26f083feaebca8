import GravitalTalk.Session.State

/-!
# Sending

Every datagram a session sends goes through `transmit`. What follows are the
sending functions of `session.rs`: control packets, rendezvous messages,
keepalives, audio with its parity, and the push-to-talk signals. All but the
audio ones change nothing but the group `Traffic`.
-/
namespace GravitalTalk
namespace Session

open Rendezvous (Message)

variable {cfg : Config} (C : Crypto) (env : Env)

/-- `transport.send_to`: its answer, and the datagram in the record. -/
def transmit (peer : SocketAddr) (bytes : Bytes) (s : Session cfg) :
    Except TransportError ℕ × Session cfg :=
  (env.sendTo peer bytes, { s with traffic.sent := (peer, bytes) :: s.traffic.sent })

/-- The next `tx_sequence`. -/
def bumpSequence (s : Session cfg) : Session cfg :=
  { s with traffic := { s.traffic with
    txSequence := s.traffic.txSequence + 1
    taken := s.traffic.taken + 1 } }

/-- The cipher is called. -/
def noteSealed (key : SessionKey) (nonce aad plain : Bytes) (s : Session cfg) : Session cfg :=
  { s with traffic.sealed := ⟨key, nonce, aad, plain, s.traffic.taken⟩ :: s.traffic.sealed }

def sendControl (msg : MessageType) (sid : UInt32) (payload : Bytes) (peer : SocketAddr)
    (s : Session cfg) : Except TransportError Unit × Session cfg :=
  let header := PacketHeader.new msg.code sid s.traffic.txSequence (UInt64.ofNat env.now)
  let s := s.bumpSequence
  match PacketBuilder.encode header payload cfg.mtu with
  | .error e => (.error (.protocol e), s)
  | .ok bytes =>
    match s.transmit env peer bytes with
    | (.error e, s) => (.error e, s)
    | (.ok n, s) => (.ok (), s.recordSent n)

/-- A rendezvous message; a failure to send is not an error. -/
def sendRv (msg : Message) (peer : SocketAddr) (s : Session cfg) : Session cfg :=
  (s.transmit env peer (msg.encode (s.roomKey C))).2

/-- Ports next to the known one, in the order they are probed. -/
def neighbours (around : SocketAddr) : List SocketAddr :=
  let base := around.port.toNat
  let ports := (List.range' 1 punchSpread).flatMap fun delta =>
    (if base + delta < 2 ^ 16 then [base + delta] else []) ++
      (if delta ≤ base then [base - delta] else [])
  (ports.filter fun p => 1024 ≤ p).map fun p => around.withPort (UInt16.ofNat p)

def sendRvAll (msg : Message) (peers : List SocketAddr) (s : Session cfg) : Session cfg :=
  peers.foldl (fun s peer => s.sendRv C env msg peer) s

def punchNeighbours (around : SocketAddr) (nonce : Vector UInt8 8) (s : Session cfg) :
    Session cfg :=
  s.sendRvAll C env (.punch nonce) (neighbours around)

/-- Header of a packet that is to be encrypted. -/
def sealedHeader (msg : MessageType) (sid seq : UInt32) : PacketHeader :=
  ⟨protocolVersion, Flags.encrypted, msg.code, sid, seq, UInt64.ofNat env.now⟩

def sendKeepaliveTo (sid : UInt32) (peer : SocketAddr) (s : Session cfg) : Session cfg :=
  let header := sealedHeader env .heartbeat sid s.traffic.txSequence
  let nonce := makeNonce s.traffic.txSequence sid
  let s := s.bumpSequence
  match s.peers.encKeyFor peer with
  | none => s
  | some key =>
    let s := s.noteSealed key nonce header.encode []
    let packet := match C.encryptInPlace key nonce header.encode [] with
      | .ok body => PacketBuilder.encode header body (headerSize + tagSize + 8)
      | .error _ => PacketBuilder.encode { header with flags := .empty } []
          (headerSize + tagSize + 8)
    match packet with
    | .error _ => s
    | .ok bytes =>
      match s.transmit env peer bytes with
      | (.error _, s) => s
      | (.ok n, s) => { s.recordSent n with traffic.lastTx := env.now }

def sendKeepalive (s : Session cfg) : Session cfg :=
  s.peers.book.all.foldl (fun s' peer => s'.sendKeepaliveTo C env s.status.sessionId peer) s

def sendHeartbeat (s : Session cfg) : Session cfg :=
  s.peers.book.all.foldl
    (fun s' peer => (s'.sendControl env .heartbeat s.status.sessionId [] peer).2) s

/-- Parity goes out encrypted or not at all. -/
def sendFecParity (sid : UInt32) (parity : FecParity) (peer : SocketAddr) (s : Session cfg) :
    Session cfg :=
  let header := sealedHeader env .audioFec sid s.traffic.txSequence
  let nonce := makeNonce s.traffic.txSequence sid
  let plain := be32 parity.seqBase ++ parity.window :: parity.payload
  let s := s.bumpSequence
  match s.peers.encKeyFor peer with
  | none => s
  | some key =>
    let s := s.noteSealed key nonce header.encode plain
    match C.encryptInPlace key nonce header.encode plain with
    | .error _ => s
    | .ok body =>
      match PacketBuilder.encode header body cfg.mtu with
      | .error _ => s
      | .ok bytes =>
        match s.transmit env peer bytes with
        | (.error _, s) => s
        | (.ok n, s) => s.recordSent n

/-- One audio packet for `peer`: encrypted under its key, in clear without one. -/
def audioPacket (sid seq : UInt32) (plain : Bytes) (peer : SocketAddr) (s : Session cfg) :
    Except Error Bytes :=
  let header := sealedHeader env .audioFrame sid seq
  match s.peers.encKeyFor peer with
  | some key =>
    match C.encryptInPlace key (makeNonce seq sid) header.encode plain with
    | .error e => .error e
    | .ok body => PacketBuilder.encode header body cfg.mtu
  | none => PacketBuilder.encode { header with flags := .empty } plain cfg.mtu

/-- The cipher is called for an audio packet, if there is a key for `peer`. -/
def noteAudio (sid seq : UInt32) (plain : Bytes) (peer : SocketAddr) (s : Session cfg) :
    Session cfg :=
  match s.peers.encKeyFor peer with
  | some key =>
    s.noteSealed key (makeNonce seq sid) (sealedHeader env .audioFrame sid seq).encode plain
  | none => s

/-- The transport took an audio packet with this plaintext. -/
def noteFramed (peer : SocketAddr) (plain : Bytes) (s : Session cfg) : Session cfg :=
  { s with traffic.framed := (peer, fromBe32 (plain.take 4)) :: s.traffic.framed }

/-- The parity, if the frame completed a group, goes along with it. -/
def followUp (sid : UInt32) (parity : Option FecParity) (peer : SocketAddr) (s : Session cfg) :
    Session cfg :=
  match parity with
  | some p => s.sendFecParity C env sid p peer
  | none => s

/-- The loop over targets: the bytes sent, or the error that ended it. -/
def sendFrames (sid seq : UInt32) (plain : Bytes) (parity : Option FecParity) (alone : Bool) :
    List SocketAddr → ℕ → Session cfg → Except TransportError ℕ × Session cfg
  | [], total, s => (.ok total, s)
  | peer :: rest, total, s =>
    let packet := s.audioPacket C env sid seq plain peer
    let s := s.noteAudio env sid seq plain peer
    match packet with
    | .error e => (.error (.protocol e), s)
    | .ok bytes =>
      match s.transmit env peer bytes with
      | (.ok n, s) =>
        sendFrames sid seq plain parity alone rest (total + n)
          ((s.noteFramed peer plain).followUp C env sid parity peer)
      | (.error e, s) =>
        if alone then (.error e, s)
        else sendFrames sid seq plain parity alone rest total (s.followUp C env sid parity peer)

/-- `send_audio_to`: number the frame, feed the parity encoder, send to each target. -/
def sendAudioTo (payload : Bytes) (targets : List SocketAddr) (s : Session cfg) :
    Except TransportError Unit × Session cfg :=
  let audioSeq := s.voice.audioTxSeq
  let seq := s.traffic.txSequence
  let sid := s.status.sessionId
  let plain := be32 audioSeq ++ payload
  let pushed := s.voice.fecEnc.push audioSeq payload
  let s := { s.bumpSequence with voice := ⟨audioSeq + 1, pushed.2⟩ }
  match s.sendFrames C env sid seq plain pushed.1 (targets.length == 1) targets 0 with
  | (.error e, s) => (.error e, s)
  | (.ok total, s) => (.ok (), { s.recordSent total with traffic.lastTx := env.now })

def sendAudio (payload : Bytes) (s : Session cfg) : Except TransportError Unit × Session cfg :=
  if s.status.state ≠ .active then (.error (.invalidState "not active"), s)
  else if s.peers.book.all = [] then (.error (.invalidState "no peer"), s)
  else s.sendAudioTo C env payload s.peers.book.all

/-- What `from` just said goes to the others, unless the host is talking. -/
def forwardAudio (sender : SocketAddr) (payload : Bytes) (s : Session cfg) : Session cfg :=
  if s.status.pttActive then s
  else if s.peers.book.others sender = [] then s
  else (s.sendAudioTo C env payload (s.peers.book.others sender)).2

/-- The two control messages of a push-to-talk signal, to one target after the
other until a send fails. -/
def signalAll (first second : MessageType) (sid : UInt32) :
    List SocketAddr → Session cfg → Except TransportError Unit × Session cfg
  | [], s => (.ok (), s)
  | peer :: rest, s =>
    match s.sendControl env first sid (be32 sid) peer with
    | (.error e, s) => (.error e, s)
    | (.ok _, s) =>
      match s.sendControl env second sid [] peer with
      | (.error e, s) => (.error e, s)
      | (.ok _, s) => signalAll first second sid rest s

def pttPress (s : Session cfg) : Except TransportError Unit × Session cfg :=
  let s := { s with status.pttActive := true }
  s.signalAll env .floorRequest .controlResume s.status.sessionId s.peers.book.all

def pttRelease (s : Session cfg) : Except TransportError Unit × Session cfg :=
  let s := { s with status.pttActive := false }
  s.signalAll env .floorRelease .controlPause s.status.sessionId s.peers.book.all

/-! ## Control packets -/

/-- A control payload of `n` bytes fits into a packet of this configuration. -/
def Fits (cfg : Config) (n : ℕ) : Prop := n ≤ maxPayloadSize ∧ headerSize + n + 4 ≤ cfg.mtu

variable {payload : Bytes}

/-- A payload that does not fit costs a number. -/
theorem sendControl_unfit (h : ¬ Fits cfg payload.length) (msg : MessageType) (sid : UInt32)
    (peer : SocketAddr) (s : Session cfg) :
    ∃ e, s.sendControl env msg sid payload peer = (.error e, s.bumpSequence) := by
  unfold sendControl PacketBuilder.encode
  dsimp only
  split_ifs with hp hc
  · exact ⟨_, rfl⟩
  · exact ⟨_, rfl⟩
  · exact absurd ⟨Nat.not_lt.mp hp, Nat.not_lt.mp hc⟩ h

theorem sendControl_fit (h : Fits cfg payload.length)
    (hsend : ∀ peer bytes, env.sendTo peer bytes = .ok bytes.length) (msg : MessageType)
    (sid : UInt32) (peer : SocketAddr) (s : Session cfg) :
    (s.sendControl env msg sid payload peer).1 = .ok () ∧
      (s.sendControl env msg sid payload peer).2.traffic.sent.length =
        s.traffic.sent.length + 1 := by
  unfold sendControl PacketBuilder.encode transmit
  dsimp only
  rw [if_neg (Nat.not_lt.mpr h.1), if_neg (Nat.not_lt.mpr h.2)]
  dsimp only
  rw [hsend]
  exact ⟨rfl, rfl⟩

/-- The control packet with the number `seq`. -/
def controlPacket (msg : MessageType) (sid seq : UInt32) (payload : Bytes) : Bytes :=
  PacketBuilder.bytes (PacketHeader.new msg.code sid seq (UInt64.ofNat env.now)) payload

/-- The control packet with the number `seq` fits, and the transport takes it. -/
def Takes (cfg : Config) (msg : MessageType) (sid seq : UInt32) (payload : Bytes)
    (peer : SocketAddr) : Prop :=
  Fits cfg payload.length ∧ ∃ n, env.sendTo peer (controlPacket env msg sid seq payload) = .ok n

theorem sendControl_ok_iff (msg : MessageType) (sid : UInt32) (payload : Bytes)
    (peer : SocketAddr) (s : Session cfg) :
    (s.sendControl env msg sid payload peer).1 = .ok () ↔
      Takes env cfg msg sid s.traffic.txSequence payload peer := by
  by_cases hfits : Fits cfg payload.length
  · unfold Takes controlPacket sendControl PacketBuilder.encode transmit
    dsimp only
    rw [if_neg (Nat.not_lt.mpr hfits.1), if_neg (Nat.not_lt.mpr hfits.2)]
    dsimp only
    cases env.sendTo peer (PacketBuilder.bytes
      (PacketHeader.new msg.code sid s.traffic.txSequence (UInt64.ofNat env.now)) payload) with
    | error e => simp
    | ok n => simp [hfits]
  · obtain ⟨e, he⟩ := sendControl_unfit env hfits msg sid peer s
    rw [he]
    simp [Takes, hfits]

/-! ## What sending leaves alone -/

end Session

/-- `key` is one this end encrypts with. -/
def Peers.SealsWith (p : Peers) (key : SessionKey) : Prop :=
  (∃ a pair, p.peerKeys.lookup a = some pair ∧ pair.1 = key) ∨ p.encryptKey = some key

theorem Peers.sealsWith_of_encKeyFor {p : Peers} {a : SocketAddr} {key : SessionKey}
    (h : p.encKeyFor a = some key) : p.SealsWith key := by
  unfold Peers.encKeyFor at h
  split at h
  · rename_i pair hpair
    exact .inl ⟨a, pair, hpair, Option.some.inj h⟩
  · exact .inr h

/-- Every key of `q` is one that `p` has, for the same use. -/
structure Peers.Narrows (p q : Peers) : Prop where
  pairs : ∀ a pair, q.peerKeys.lookup a = some pair → ∃ b, p.peerKeys.lookup b = some pair
  encryptKey : ∀ key, q.encryptKey = some key → p.encryptKey = some key
  decryptKey : ∀ key, q.decryptKey = some key → p.decryptKey = some key

namespace Peers

variable {p q : Peers}

theorem narrows_of_eq (hkeys : q.peerKeys = p.peerKeys) (henc : q.encryptKey = p.encryptKey)
    (hdec : q.decryptKey = p.decryptKey) : p.Narrows q := by
  refine ⟨fun a pair h => ⟨a, hkeys ▸ h⟩, fun key h => henc ▸ h, fun key h => hdec ▸ h⟩

@[refl] theorem Narrows.refl (p : Peers) : p.Narrows p := narrows_of_eq rfl rfl rfl

theorem Narrows.sealsWith (h : p.Narrows q) {key : SessionKey} (hkey : q.SealsWith key) :
    p.SealsWith key := by
  rcases hkey with ⟨a, pair, ha, rfl⟩ | hkey
  · obtain ⟨b, hb⟩ := h.pairs a pair ha
    exact .inl ⟨b, pair, hb, rfl⟩
  · exact .inr (h.encryptKey key hkey)

theorem narrows_dropAll (p : Peers) (gone : Finset SocketAddr) : p.Narrows (p.dropAll gone) := by
  refine ⟨fun a pair h => ⟨a, ?_⟩, fun _ h => h, fun _ h => h⟩
  simp only [dropAll, Table.lookup_retain, Option.filter_eq_some_iff] at h
  exact h.1

theorem narrows_switch (p : Peers) (book : AddressBook) (old new : SocketAddr) :
    p.Narrows (p.switch book old new) := by
  refine ⟨fun a pair h => ?_, fun _ h => h, fun _ h => h⟩
  simp only [switch, Table.lookup_rename] at h
  split at h
  · rename_i hold
    split_ifs at h
    · cases h
      exact ⟨old, hold⟩
    · exact ⟨a, h⟩
  · exact ⟨a, h⟩

theorem narrows_close (p : Peers) : p.Narrows p.close := ⟨fun a _ h => ⟨a, h⟩, nofun, nofun⟩

end Peers

/-- From `a` to `b` the cipher was called as `new` has it: under keys that meet
`K`, and each time with one of the `n` numbers taken since `a`. All that went out
under one of them is what `out` gives for it. -/
structure Emission (K : SessionKey → Prop) (a b : Traffic) (n : ℕ) (out : ℕ → Bytes × Bytes)
    (new : List Seal) : Prop where
  taken : b.taken = a.taken + n
  sequence : b.txSequence = a.txSequence + UInt32.ofNat n
  sealed : b.sealed = new ++ a.sealed
  key : ∀ e ∈ new, K e.key
  bound : ∀ e ∈ new, e.taken ≤ b.taken
  number : ∀ e ∈ new, ∃ i < n, a.taken + i < e.taken ∧ out i = (e.aad, e.plain) ∧
    ∃ sid, e.nonce = makeNonce (a.txSequence + UInt32.ofNat i) sid

def Emits (K : SessionKey → Prop) (a b : Traffic) : Prop :=
  ∃ n out new, Emission K a b n out new

section Emission

variable {K : SessionKey → Prop} {a b c : Traffic} {n m : ℕ} {out out' : ℕ → Bytes × Bytes}
  {new new' : List Seal}

/-- Nothing was taken and nothing encrypted. -/
theorem Emission.none (out : ℕ → Bytes × Bytes) (htaken : b.taken = a.taken)
    (hseq : b.txSequence = a.txSequence) (hsealed : b.sealed = a.sealed) :
    Emission K a b 0 out [] :=
  ⟨htaken, by rw [hseq]; exact (UInt32.add_zero _).symm, hsealed, nofun, nofun, nofun⟩

/-- The numbers of the second part follow those of the first. -/
theorem Emission.trans (h : Emission K a b n out new) (h' : Emission K b c m out' new') :
    Emission K a c (n + m) (fun i => if i < n then out i else out' (i - n)) (new' ++ new) := by
  constructor
  · rw [h'.taken, h.taken, Nat.add_assoc]
  · rw [h'.sequence, h.sequence, UInt32.ofNat_add, add_assoc]
  · rw [h'.sealed, h.sealed, List.append_assoc]
  · intro e he
    rcases List.mem_append.mp he with he | he
    · exact h'.key e he
    · exact h.key e he
  · intro e he
    rcases List.mem_append.mp he with he | he
    · exact h'.bound e he
    · exact (h.bound e he).trans (by rw [h'.taken]; exact Nat.le_add_right _ _)
  · intro e he
    rcases List.mem_append.mp he with he | he
    · obtain ⟨i, hi, hafter, hout, sid, hnonce⟩ := h'.number e he
      refine ⟨n + i, Nat.add_lt_add_left hi n, ?_, ?_, sid, ?_⟩
      · rw [h.taken] at hafter
        omega
      · rw [if_neg (by omega), Nat.add_sub_cancel_left, hout]
      · rw [hnonce, h.sequence, UInt32.ofNat_add, add_assoc]
    · obtain ⟨i, hi, hafter, hout, hnonce⟩ := h.number e he
      exact ⟨i, by omega, hafter, by rw [if_pos hi, hout], hnonce⟩

/-- One more call under a number that was taken already. -/
theorem Emission.again (h : Emission K a b n out new) {e : Seal} {i : ℕ} (sid : UInt32)
    (hi : i < n) (hkey : K e.key) (hout : out i = (e.aad, e.plain))
    (hnonce : e.nonce = makeNonce (a.txSequence + UInt32.ofNat i) sid) (hc : e.taken = b.taken) :
    Emission K a { b with sealed := e :: b.sealed } n out (e :: new) := by
  constructor
  · exact h.taken
  · exact h.sequence
  · rw [List.cons_append, ← h.sealed]
  · exact List.forall_mem_cons.mpr ⟨hkey, h.key⟩
  · exact List.forall_mem_cons.mpr ⟨hc.le, h.bound⟩
  · refine List.forall_mem_cons.mpr ⟨⟨i, hi, ?_, hout, sid, hnonce⟩, h.number⟩
    rw [hc, h.taken]
    exact Nat.add_lt_add_left hi _

/-- The log may go on being written to in its other fields. -/
theorem Emission.congr (h : Emission K a b n out new) (htaken : c.taken = b.taken)
    (hseq : c.txSequence = b.txSequence) (hsealed : c.sealed = b.sealed) :
    Emission K a c n out new :=
  ⟨htaken.trans h.taken, hseq.trans h.sequence, hsealed.trans h.sealed, h.key,
    fun e he => htaken ▸ h.bound e he, h.number⟩

theorem Emits.of_eq (htaken : b.taken = a.taken) (hseq : b.txSequence = a.txSequence)
    (hsealed : b.sealed = a.sealed) : Emits K a b :=
  ⟨0, fun _ => ([], []), [], .none _ htaken hseq hsealed⟩

@[refl] theorem Emits.refl (K : SessionKey → Prop) (a : Traffic) : Emits K a a :=
  .of_eq rfl rfl rfl

@[trans] theorem Emits.trans (h : Emits K a b) (h' : Emits K b c) : Emits K a c := by
  obtain ⟨n, out, new, h⟩ := h
  obtain ⟨m, out', new', h'⟩ := h'
  exact ⟨_, _, _, h.trans h'⟩

theorem Emits.mono {K' : SessionKey → Prop} (h : Emits K a b) (hK : ∀ key, K key → K' key) :
    Emits K' a b := by
  obtain ⟨n, out, new, h⟩ := h
  exact ⟨n, out, new, h.taken, h.sequence, h.sealed, fun e he => hK _ (h.key e he), h.bound,
    h.number⟩

end Emission

namespace Session

open Rendezvous (Message)

variable {cfg : Config} (C : Crypto) (env : Env)

/-- One number is taken; whatever it was for, `frame` is what goes out under it. -/
theorem emission_bump (K : SessionKey → Prop) (s : Session cfg) (frame : Bytes × Bytes) :
    Emission K s.traffic s.bumpSequence.traffic 1 (fun _ => frame) [] :=
  ⟨rfl, rfl, rfl, nofun, nofun, nofun⟩

/-- One number is taken, and something goes out under it. -/
theorem emission_seal {K : SessionKey → Prop} (s : Session cfg) {key : SessionKey} (hkey : K key)
    (sid : UInt32) (aad plain : Bytes) :
    Emission K s.traffic (s.bumpSequence.noteSealed key (makeNonce s.traffic.txSequence sid) aad
      plain).traffic 1 (fun _ => (aad, plain))
      [⟨key, makeNonce s.traffic.txSequence sid, aad, plain, s.traffic.taken + 1⟩] :=
  (emission_bump K s (aad, plain)).again sid Nat.one_pos hkey rfl
    (by rw [show UInt32.ofNat 0 = 0 from rfl, UInt32.add_zero]) rfl

/-- `t` is `s` after sending: only `Traffic` may differ, and there was no audio. -/
structure SendsOnly (s t : Session cfg) : Prop where
  eq : t = { s with traffic := t.traffic }
  framed : t.traffic.framed = s.traffic.framed
  emits : Emits s.peers.SealsWith s.traffic t.traffic

namespace SendsOnly

variable {s t u : Session cfg}

/-- Something was noted that has nothing to do with numbers and keys. -/
theorem of_eq (heq : t = { s with traffic := t.traffic })
    (hframed : t.traffic.framed = s.traffic.framed) (htaken : t.traffic.taken = s.traffic.taken)
    (hseq : t.traffic.txSequence = s.traffic.txSequence)
    (hsealed : t.traffic.sealed = s.traffic.sealed) : SendsOnly s t :=
  ⟨heq, hframed, .of_eq htaken hseq hsealed⟩

@[refl] theorem refl (s : Session cfg) : SendsOnly s s := .of_eq rfl rfl rfl rfl rfl

theorem settings (h : SendsOnly s t) : t.settings = s.settings := by rw [h.eq]
theorem status (h : SendsOnly s t) : t.status = s.status := by rw [h.eq]
theorem peers (h : SendsOnly s t) : t.peers = s.peers := by rw [h.eq]
theorem pendingJoins (h : SendsOnly s t) : t.pendingJoins = s.pendingJoins := by rw [h.eq]
theorem media (h : SendsOnly s t) : t.media = s.media := by rw [h.eq]
theorem voice (h : SendsOnly s t) : t.voice = s.voice := by rw [h.eq]
theorem path (h : SendsOnly s t) : t.path = s.path := by rw [h.eq]
theorem live (h : SendsOnly s t) : t.live = s.live := by rw [h.eq]
theorem history (h : SendsOnly s t) : t.history = s.history := by rw [h.eq]

@[trans] theorem trans (h : SendsOnly s t) (h' : SendsOnly t u) : SendsOnly s u := by
  refine ⟨?_, h'.framed.trans h.framed, h.emits.trans ?_⟩
  · rw [h'.eq, h.eq]
  · rw [← h.peers]
    exact h'.emits

theorem foldl {β : Type*} {f : Session cfg → β → Session cfg}
    (hf : ∀ s b, SendsOnly s (f s b)) (l : List β) (s : Session cfg) :
    SendsOnly s (l.foldl f s) := by
  induction l generalizing s with
  | nil => rfl
  | cons b l ih => exact (hf s b).trans (ih _)

end SendsOnly

theorem sendsOnly_transmit (peer : SocketAddr) (bytes : Bytes) (s : Session cfg) :
    SendsOnly s (s.transmit env peer bytes).2 := .of_eq rfl rfl rfl rfl rfl

theorem sendsOnly_bumpSequence (s : Session cfg) : SendsOnly s s.bumpSequence :=
  ⟨rfl, rfl, 1, _, [], emission_bump _ s ([], [])⟩

/-- A number is taken and the cipher called for `peer`. -/
theorem sendsOnly_seal {peer : SocketAddr} {key : SessionKey} (s : Session cfg)
    (hkey : s.peers.encKeyFor peer = some key) (sid : UInt32) (aad plain : Bytes) :
    SendsOnly s
      (s.bumpSequence.noteSealed key (makeNonce s.traffic.txSequence sid) aad plain) :=
  ⟨rfl, rfl, 1, _, _, emission_seal s (Peers.sealsWith_of_encKeyFor hkey) sid aad plain⟩

theorem sendsOnly_recordReceived (s : Session cfg) (n : ℕ) : SendsOnly s (s.recordReceived n) :=
  .of_eq rfl rfl rfl rfl rfl

theorem sendsOnly_sendControl (msg : MessageType) (sid : UInt32) (payload : Bytes)
    (peer : SocketAddr) (s : Session cfg) :
    SendsOnly s (s.sendControl env msg sid payload peer).2 := by
  have hbump := sendsOnly_bumpSequence s
  unfold sendControl transmit
  dsimp only
  split
  · exact hbump
  · cases env.sendTo peer _ with
    | error e => exact hbump.trans (.of_eq rfl rfl rfl rfl rfl)
    | ok n => exact hbump.trans (.of_eq rfl rfl rfl rfl rfl)

theorem sendsOnly_sendRv (msg : Message) (peer : SocketAddr) (s : Session cfg) :
    SendsOnly s (s.sendRv C env msg peer) := sendsOnly_transmit env peer _ s

theorem sendsOnly_sendRvAll (msg : Message) (peers : List SocketAddr) (s : Session cfg) :
    SendsOnly s (s.sendRvAll C env msg peers) :=
  SendsOnly.foldl (fun s peer => sendsOnly_sendRv C env msg peer s) peers s

theorem sendsOnly_punchNeighbours (around : SocketAddr) (nonce : Vector UInt8 8)
    (s : Session cfg) : SendsOnly s (s.punchNeighbours C env around nonce) :=
  sendsOnly_sendRvAll C env _ _ s

theorem sendsOnly_sendKeepaliveTo (sid : UInt32) (peer : SocketAddr) (s : Session cfg) :
    SendsOnly s (s.sendKeepaliveTo C env sid peer) := by
  unfold sendKeepaliveTo transmit
  dsimp only
  split
  · exact sendsOnly_bumpSequence s
  · rename_i key hkey
    have hseal := sendsOnly_seal s hkey sid
      (sealedHeader env .heartbeat sid s.traffic.txSequence).encode []
    split
    · exact hseal
    · cases env.sendTo peer _ with
      | error e => exact hseal.trans (.of_eq rfl rfl rfl rfl rfl)
      | ok n => exact hseal.trans (.of_eq rfl rfl rfl rfl rfl)

theorem sendsOnly_sendKeepalive (s : Session cfg) : SendsOnly s (s.sendKeepalive C env) :=
  SendsOnly.foldl (fun s' peer => sendsOnly_sendKeepaliveTo C env _ peer s') _ s

theorem sendsOnly_sendHeartbeat (s : Session cfg) : SendsOnly s (s.sendHeartbeat env) :=
  SendsOnly.foldl (fun s' peer => sendsOnly_sendControl env _ _ _ peer s') _ s

theorem sendsOnly_sendFecParity (sid : UInt32) (parity : FecParity) (peer : SocketAddr)
    (s : Session cfg) : SendsOnly s (s.sendFecParity C env sid parity peer) := by
  unfold sendFecParity transmit
  dsimp only
  split
  · exact sendsOnly_bumpSequence s
  · rename_i key hkey
    have hseal := sendsOnly_seal s hkey sid
      (sealedHeader env .audioFec sid s.traffic.txSequence).encode
      (be32 parity.seqBase ++ parity.window :: parity.payload)
    split
    · exact hseal
    · split
      · exact hseal
      · cases env.sendTo peer _ with
        | error e => exact hseal.trans (.of_eq rfl rfl rfl rfl rfl)
        | ok n => exact hseal.trans (.of_eq rfl rfl rfl rfl rfl)

theorem sendsOnly_followUp (sid : UInt32) (parity : Option FecParity) (peer : SocketAddr)
    (s : Session cfg) : SendsOnly s (s.followUp C env sid parity peer) := by
  cases parity with
  | none => rfl
  | some p => exact sendsOnly_sendFecParity C env sid p peer s

theorem sendsOnly_signalAll (first second : MessageType) (sid : UInt32)
    (targets : List SocketAddr) (s : Session cfg) :
    SendsOnly s (s.signalAll env first second sid targets).2 := by
  induction targets generalizing s with
  | nil => rfl
  | cons peer rest ih =>
    have h1 := sendsOnly_sendControl env first sid (be32 sid) peer s
    rw [signalAll]
    split
    · rename_i e t heq
      rwa [heq] at h1
    · rename_i t heq
      rw [heq] at h1
      have h2 := sendsOnly_sendControl env second sid [] peer t
      split
      · rename_i e u heq'
        rw [heq'] at h2
        exact h1.trans h2
      · rename_i u heq'
        rw [heq'] at h2
        exact (h1.trans h2).trans (ih u)

/-! ## Audio -/

/-- Only the log of the cipher is written to. -/
theorem noteAudio_eq (sid seq : UInt32) (plain : Bytes) (peer : SocketAddr) (s : Session cfg) :
    ∃ log, s.noteAudio env sid seq plain peer = { s with traffic.sealed := log } := by
  unfold noteAudio
  split
  · exact ⟨_, rfl⟩
  · exact ⟨s.traffic.sealed, rfl⟩

/-- `t` is `s` after sending audio: only `Voice` and `Traffic` may differ. -/
structure SpeaksOnly (s t : Session cfg) : Prop where
  eq : t = { s with voice := t.voice, traffic := t.traffic }
  emits : Emits s.peers.SealsWith s.traffic t.traffic

namespace SpeaksOnly

variable {s t : Session cfg}

@[refl] theorem refl (s : Session cfg) : SpeaksOnly s s := ⟨rfl, .refl _ _⟩

theorem settings (h : SpeaksOnly s t) : t.settings = s.settings := by rw [h.eq]
theorem status (h : SpeaksOnly s t) : t.status = s.status := by rw [h.eq]
theorem peers (h : SpeaksOnly s t) : t.peers = s.peers := by rw [h.eq]
theorem pendingJoins (h : SpeaksOnly s t) : t.pendingJoins = s.pendingJoins := by rw [h.eq]
theorem media (h : SpeaksOnly s t) : t.media = s.media := by rw [h.eq]
theorem live (h : SpeaksOnly s t) : t.live = s.live := by rw [h.eq]
theorem history (h : SpeaksOnly s t) : t.history = s.history := by rw [h.eq]

end SpeaksOnly

/-- A target whose packet is made and taken by the transport. -/
theorem sendFrames_cons_ok {sid seq : UInt32} {plain raw : Bytes} {parity : Option FecParity}
    {alone : Bool} {peer : SocketAddr} {rest : List SocketAddr} {total n : ℕ} {s : Session cfg}
    (hpacket : s.audioPacket C env sid seq plain peer = .ok raw)
    (hsend : env.sendTo peer raw = .ok n) :
    s.sendFrames C env sid seq plain parity alone (peer :: rest) total =
      sendFrames C env sid seq plain parity alone rest (total + n)
        (((transmit env peer raw (s.noteAudio env sid seq plain peer)).2.noteFramed peer
          plain).followUp C env sid parity peer) := by
  rw [sendFrames, hpacket]
  unfold transmit
  dsimp only
  rw [hsend]

/-- From `s` to `t` the frame `frame` went out under a number taken right after
those of `a`, and other packets under later ones. -/
def Frames (a : Traffic) (frame : Bytes × Bytes) (s t : Session cfg) : Prop :=
  t = { s with traffic := t.traffic } ∧ ∃ n out new, 0 < n ∧ out 0 = frame ∧
    Emission s.peers.SealsWith a t.traffic n out new

namespace Frames

variable {s t u : Session cfg} {a : Traffic} {frame : Bytes × Bytes}

theorem sends (h : Frames a frame s t) (h' : SendsOnly t u) : Frames a frame s u := by
  obtain ⟨heq, n, out, new, hn, hout, hem⟩ := h
  obtain ⟨m, out', new', hem'⟩ := h'.emits
  have hpeers : t.peers = s.peers := by rw [heq]
  rw [hpeers] at hem'
  refine ⟨by rw [h'.eq, heq], _, _, _, Nat.add_pos_left hn m, ?_, hem.trans hem'⟩
  rw [if_pos hn, hout]

theorem congr (h : Frames a frame s t) (heq : u = { t with traffic := u.traffic })
    (htaken : u.traffic.taken = t.traffic.taken)
    (hseq : u.traffic.txSequence = t.traffic.txSequence)
    (hsealed : u.traffic.sealed = t.traffic.sealed) : Frames a frame s u := by
  obtain ⟨ht, n, out, new, hn, hout, hem⟩ := h
  exact ⟨by rw [heq, ht], n, out, new, hn, hout, hem.congr htaken hseq hsealed⟩

/-- The cipher is called for one more target. -/
theorem noteAudio {sid : UInt32} {plain : Bytes}
    (h : Frames a ((sealedHeader env .audioFrame sid a.txSequence).encode, plain) s t)
    (peer : SocketAddr) : Frames a ((sealedHeader env .audioFrame sid a.txSequence).encode, plain)
      s (t.noteAudio env sid a.txSequence plain peer) := by
  obtain ⟨heq, n, out, new, hn, hout, hem⟩ := h
  have hpeers : t.peers = s.peers := by rw [heq]
  unfold Session.noteAudio
  split
  · rename_i key hkey
    have hheld : s.peers.SealsWith key := by
      rw [← hpeers]
      exact Peers.sealsWith_of_encKeyFor hkey
    refine ⟨by rw [noteSealed, heq], n, out, _, hn, hout,
      hem.again sid hn hheld hout ?_ rfl⟩
    rw [show UInt32.ofNat 0 = 0 from rfl, UInt32.add_zero]
  · exact ⟨heq, n, out, new, hn, hout, hem⟩

end Frames

theorem frames_sendFrames {a : Traffic} {sid : UInt32} {plain : Bytes} (parity : Option FecParity)
    (alone : Bool) (targets : List SocketAddr) (total : ℕ) {s t : Session cfg}
    (h : Frames a ((sealedHeader env .audioFrame sid a.txSequence).encode, plain) s t) :
    Frames a ((sealedHeader env .audioFrame sid a.txSequence).encode, plain) s
      (t.sendFrames C env sid a.txSequence plain parity alone targets total).2 := by
  induction targets generalizing total t with
  | nil => exact h
  | cons peer rest ih =>
    have hnote := h.noteAudio env peer
    rw [sendFrames]
    split
    · exact hnote
    · rename_i bytes _
      let out := (transmit env peer bytes (t.noteAudio env sid a.txSequence plain peer)).2
      have hsend : Frames a _ s out := hnote.sends (sendsOnly_transmit env peer bytes _)
      have hframed : Frames a _ s (out.noteFramed peer plain) := hsend.congr rfl rfl rfl rfl
      unfold transmit
      cases env.sendTo peer bytes with
      | ok n => exact ih _ (hframed.sends (sendsOnly_followUp C env sid parity peer _))
      | error e =>
        cases alone with
        | true => exact hsend
        | false => exact ih _ (hsend.sends (sendsOnly_followUp C env sid parity peer _))

/-- Audio also advances the group `Voice`. -/
theorem sendAudioTo_voice (payload : Bytes) (targets : List SocketAddr) (s : Session cfg) :
    (s.sendAudioTo C env payload targets).2 = { s with
      voice := ⟨s.voice.audioTxSeq + 1, (s.voice.fecEnc.push s.voice.audioTxSeq payload).2⟩
      traffic := (s.sendAudioTo C env payload targets).2.traffic } ∧
    Emits s.peers.SealsWith s.traffic (s.sendAudioTo C env payload targets).2.traffic := by
  let numbered : Session cfg := { s.bumpSequence with voice :=
    ⟨s.voice.audioTxSeq + 1, (s.voice.fecEnc.push s.voice.audioTxSeq payload).2⟩ }
  let frame : Bytes × Bytes := ((sealedHeader env .audioFrame s.status.sessionId
    s.traffic.txSequence).encode, be32 s.voice.audioTxSeq ++ payload)
  have hstart : Frames s.traffic frame numbered numbered :=
    ⟨rfl, 1, fun _ => frame, [], Nat.one_pos, rfl, emission_bump _ s frame⟩
  have h := frames_sendFrames C env (s.voice.fecEnc.push s.voice.audioTxSeq payload).1
    (targets.length == 1) targets 0 hstart
  have hend {t : Session cfg} (ht : Frames s.traffic frame numbered t) :
      t = { s with voice := numbered.voice, traffic := t.traffic } ∧
        Emits s.peers.SealsWith s.traffic t.traffic :=
    ⟨ht.1, ht.2.imp fun n ⟨out, new, _, _, hem⟩ => ⟨out, new, hem⟩⟩
  unfold sendAudioTo
  dsimp only
  split
  · rename_i e t heq
    rw [show numbered.sendFrames C env _ _ _ _ _ targets 0 = _ from heq] at h
    exact hend h
  · rename_i total t heq
    rw [show numbered.sendFrames C env _ _ _ _ _ targets 0 = _ from heq] at h
    exact hend (h.congr rfl rfl rfl rfl)

theorem speaksOnly_sendAudioTo (payload : Bytes) (targets : List SocketAddr) (s : Session cfg) :
    SpeaksOnly s (s.sendAudioTo C env payload targets).2 := by
  obtain ⟨heq, hemits⟩ := sendAudioTo_voice C env payload targets s
  refine ⟨?_, hemits⟩
  rw [heq]

theorem speaksOnly_forwardAudio (sender : SocketAddr) (payload : Bytes) (s : Session cfg) :
    SpeaksOnly s (s.forwardAudio C env sender payload) := by
  unfold forwardAudio
  split_ifs
  · rfl
  · rfl
  · exact speaksOnly_sendAudioTo C env payload _ s

theorem speaksOnly_sendAudio (payload : Bytes) (s : Session cfg) :
    SpeaksOnly s (s.sendAudio C env payload).2 := by
  unfold sendAudio
  split_ifs
  · rfl
  · rfl
  · exact speaksOnly_sendAudioTo C env payload _ s

end Session
end GravitalTalk
