import GravitalTalk.Session.Loops

/-!
# Push-to-talk signals

`ptt_press` and `ptt_release` send two control messages to each target and give up at
the first send that fails, where `send_audio_to` and `send_heartbeat` go on with the
next target.
-/
namespace GravitalTalk

namespace Session

open Machine

variable {cfg : Config} {env : Env} {s t : Session cfg} {sid seq : UInt32}

/-- A control message for a target. -/
structure Signal where
  msg : MessageType
  payload : Bytes
  peer : SocketAddr

/-- Control messages in the order given, until a send fails. -/
def sendUntilError (env : Env) (sid : UInt32) :
    List Signal → Session cfg → Except TransportError Unit × Session cfg
  | [], s => (.ok (), s)
  | m :: ms, s =>
    match s.sendControl env m.msg sid m.payload m.peer with
    | (.error e, s) => (.error e, s)
    | (.ok _, s) => sendUntilError env sid ms s

/-- The two messages for each of the targets. -/
def signals (first second : MessageType) (sid : UInt32) (targets : List SocketAddr) :
    List Signal :=
  targets.flatMap fun peer => [⟨first, be32 sid, peer⟩, ⟨second, [], peer⟩]

theorem signalAll_eq (env : Env) (first second : MessageType) (sid : UInt32)
    (targets : List SocketAddr) (s : Session cfg) :
    s.signalAll env first second sid targets =
      s.sendUntilError env sid (signals first second sid targets) := by
  induction targets generalizing s with
  | nil => rfl
  | cons peer rest ih =>
    rw [signalAll, signals, List.flatMap_cons, ← signals]
    simp only [List.cons_append, List.nil_append, sendUntilError]
    cases s.sendControl env first sid (be32 sid) peer with
    | mk result t =>
      cases result with
      | error e => rfl
      | ok u =>
        dsimp only
        cases t.sendControl env second sid [] peer with
        | mk result v =>
          cases result with
          | error e => rfl
          | ok u => exact ih v

/-! ## Messages and their packets -/

/-- A packet says what type of message it is. -/
theorem code_of_controlPacket {env : Env} {msg msg' : MessageType} {sid seq seq' : UInt32}
    {payload payload' : Bytes}
    (h : controlPacket env msg sid seq payload = controlPacket env msg' sid seq' payload') :
    msg.code = msg'.code := by
  have hread (msg : MessageType) (seq : UInt32) (payload : Bytes) :
      (PacketHeader.decode (controlPacket env msg sid seq payload)) =
        .ok (PacketHeader.new msg.code sid seq (UInt64.ofNat env.now)) :=
    PacketHeader.decode_encode_append rfl _
  have hheader := (hread msg seq payload).symm.trans (h ▸ hread msg' seq' payload')
  exact congrArg PacketHeader.msgType (Except.ok.inj hheader)

/-- No two of the messages are of one type and for one target. -/
def Distinct (ms : List Signal) : Prop :=
  ms.Pairwise fun m m' => ¬ (m.peer = m'.peer ∧ m.msg.code = m'.msg.code)

theorem distinct_signals {first second : MessageType} (hne : first.code ≠ second.code)
    (sid : UInt32)
    {targets : List SocketAddr} (hnodup : targets.Nodup) :
    Distinct (signals first second sid targets) := by
  induction targets with
  | nil => exact List.Pairwise.nil
  | cons peer rest ih =>
    obtain ⟨hpeer, hrest⟩ := List.nodup_cons.mp hnodup
    have hothers : ∀ m ∈ signals first second sid rest, m.peer ≠ peer := by
      intro m hm hp
      obtain ⟨q, hq, hmem⟩ := List.mem_flatMap.mp hm
      have hmq : m.peer = q := by
        simp only [List.mem_cons, List.not_mem_nil, or_false] at hmem
        rcases hmem with rfl | rfl
        · rfl
        · rfl
      exact hpeer (hp ▸ hmq ▸ hq)
    unfold Distinct at ih ⊢
    rw [signals, List.flatMap_cons, ← signals]
    simp only [List.cons_append, List.nil_append, List.pairwise_cons, List.forall_mem_cons]
    refine ⟨⟨fun h => hne h.2, fun m hm h => hothers m hm h.1.symm⟩,
      fun m hm h => hothers m hm h.1.symm, ih hrest⟩

/-! ## What is attempted -/

/-- A packet of each of the messages was handed to the transport. -/
def Attempts (env : Env) (sid : UInt32) (ms : List Signal) (s t : Session cfg) : Prop :=
  ∃ new, t.traffic.sent = new ++ s.traffic.sent ∧
    ∀ m ∈ ms, ∃ seq, (m.peer, controlPacket env m.msg sid seq m.payload) ∈ new

/-- Every message fits into a packet, and the transport takes all of them but the last. -/
def Unbroken (env : Env) (cfg : Config) (sid : UInt32) : UInt32 → List Signal → Prop
  | _, [] => True
  | seq, m :: ms => Fits cfg m.payload.length ∧
    (ms ≠ [] → Takes env cfg m.msg sid seq m.payload m.peer) ∧ Unbroken env cfg sid (seq + 1) ms

/-- A control packet that fits is handed to the transport. -/
theorem sendControl_sent {payload : Bytes} (h : Fits cfg payload.length) (env : Env)
    (msg : MessageType) (sid : UInt32) (peer : SocketAddr) (s : Session cfg) :
    (s.sendControl env msg sid payload peer).2.traffic.sent =
      (peer, controlPacket env msg sid s.traffic.txSequence payload) :: s.traffic.sent := by
  unfold sendControl PacketBuilder.encode transmit controlPacket
  dsimp only
  rw [if_neg (Nat.not_lt.mpr h.1), if_neg (Nat.not_lt.mpr h.2)]
  dsimp only
  cases env.sendTo peer (PacketBuilder.bytes
    (PacketHeader.new msg.code sid s.traffic.txSequence (UInt64.ofNat env.now)) payload) with
  | error e => rfl
  | ok n => rfl

theorem sendUntilError_sent (env : Env) (sid : UInt32) (ms : List Signal) (s : Session cfg) :
    ∃ new, (s.sendUntilError env sid ms).2.traffic.sent = new ++ s.traffic.sent := by
  induction ms generalizing s with
  | nil => exact ⟨[], rfl⟩
  | cons m ms ih =>
    have hfirst : ∃ new, (s.sendControl env m.msg sid m.payload m.peer).2.traffic.sent =
        new ++ s.traffic.sent := by
      by_cases hfits : Fits cfg m.payload.length
      · exact ⟨[_], sendControl_sent hfits env m.msg sid m.peer s⟩
      · obtain ⟨e, he⟩ := sendControl_unfit env hfits m.msg sid m.peer s
        rw [he]
        exact ⟨[], rfl⟩
    rw [sendUntilError]
    cases hsend : s.sendControl env m.msg sid m.payload m.peer with
    | mk result t =>
      rw [hsend] at hfirst
      cases result with
      | error e => exact hfirst
      | ok u =>
        obtain ⟨new, hnew⟩ := hfirst
        obtain ⟨later, hlater⟩ := ih t
        exact ⟨later ++ new, by rw [hlater, hnew, List.append_assoc]⟩

section Attempts

variable {m : Signal} {ms : List Signal} {u : Session cfg}

/-- The packet of one message is not that of another. -/
theorem packet_ne {m' : Signal} (h : ¬ (m.peer = m'.peer ∧ m.msg.code = m'.msg.code))
    (seq seq' : UInt32) : (m'.peer, controlPacket env m'.msg sid seq m'.payload) ≠
      (m.peer, controlPacket env m.msg sid seq' m.payload) := by
  intro heq
  obtain ⟨hpeer, hpacket⟩ := Prod.ext_iff.mp heq
  exact h ⟨hpeer.symm, (code_of_controlPacket hpacket).symm⟩

/-- One message is attempted; the others are attempted after it. -/
theorem attempts_cons (hfirst : ∀ m' ∈ ms, ¬ (m.peer = m'.peer ∧ m.msg.code = m'.msg.code))
    (hsent : t.traffic.sent =
      (m.peer, controlPacket env m.msg sid seq m.payload) :: s.traffic.sent)
    (hlater : ∃ new, u.traffic.sent = new ++ t.traffic.sent) :
    Attempts env sid (m :: ms) s u ↔ Attempts env sid ms t u := by
  obtain ⟨later, hlater⟩ := hlater
  have hall : u.traffic.sent =
      (later ++ [(m.peer, controlPacket env m.msg sid seq m.payload)]) ++ s.traffic.sent := by
    rw [hlater, hsent, List.append_assoc]
    rfl
  constructor
  · rintro ⟨new, hnew, hmem⟩
    refine ⟨later, hlater, fun m' hm' => ?_⟩
    obtain ⟨seq', hseq'⟩ := hmem m' (List.mem_cons_of_mem _ hm')
    rw [List.append_cancel_right (hnew.symm.trans hall)] at hseq'
    rcases List.mem_append.mp hseq' with h | h
    · exact ⟨seq', h⟩
    · exact absurd (List.mem_singleton.mp h) (packet_ne (hfirst m' hm') _ _)
  · rintro ⟨new, hnew, hmem⟩
    obtain rfl : new = later := List.append_cancel_right (hnew.symm.trans hlater)
    refine ⟨_, hall, ?_⟩
    rw [List.forall_mem_cons]
    refine ⟨⟨seq, List.mem_append_right _ (List.mem_singleton_self _)⟩, fun m' hm' => ?_⟩
    obtain ⟨seq', hseq'⟩ := hmem m' hm'
    exact ⟨seq', List.mem_append_left _ hseq'⟩

/-- Nothing is attempted any more, and nothing is left to attempt. -/
theorem attempts_self (env : Env) (sid : UInt32) (ms : List Signal) (s : Session cfg) :
    Attempts env sid ms s s ↔ ms = [] := by
  constructor
  · rintro ⟨new, hnew, hmem⟩
    obtain rfl : new = [] := List.append_cancel_right hnew.symm
    rw [List.eq_nil_iff_forall_not_mem]
    intro m hm
    obtain ⟨seq, hseq⟩ := hmem m hm
    cases hseq
  · rintro rfl
    exact ⟨[], rfl, by simp⟩

end Attempts

/-- All of the messages are attempted exactly when no send but the last one fails. -/
theorem attempts_iff (env : Env) (sid : UInt32) {ms : List Signal} (hdistinct : Distinct ms)
    (s : Session cfg) : Attempts env sid ms s (s.sendUntilError env sid ms).2 ↔
      Unbroken env cfg sid s.traffic.txSequence ms := by
  induction ms generalizing s with
  | nil => exact ⟨fun _ => trivial, fun _ => ⟨[], rfl, by simp⟩⟩
  | cons m ms ih =>
    obtain ⟨hfirst, hrest⟩ := List.pairwise_cons.mp hdistinct
    rw [sendUntilError, Unbroken]
    by_cases hfits : Fits cfg m.payload.length
    · have hsent := sendControl_sent hfits env m.msg sid m.peer s
      have hseq := sendControl_txSequence env m.msg sid m.payload m.peer s
      have hok := sendControl_ok_iff env m.msg sid m.payload m.peer s
      cases hsend : s.sendControl env m.msg sid m.payload m.peer with
      | mk result t =>
        rw [hsend] at hsent hseq hok
        rw [and_iff_right hfits, ← hok]
        cases result with
        | error e =>
          -- the send failed, so this message has to be the last
          dsimp only
          rw [attempts_cons hfirst hsent ⟨[], rfl⟩, attempts_self]
          constructor
          · rintro rfl
            exact ⟨fun h => absurd rfl h, trivial⟩
          · rintro ⟨hlast, -⟩
            by_contra hne
            cases hlast hne
        | ok u =>
          dsimp only
          rw [attempts_cons hfirst hsent (sendUntilError_sent env sid ms t), ih hrest t, hseq]
          simp
    · obtain ⟨e, he⟩ := sendControl_unfit env hfits m.msg sid m.peer s
      rw [he]
      have hnone := attempts_self env sid (m :: ms) s
      constructor
      · intro h
        exact absurd (hnone.mp h) (by simp)
      · rintro ⟨h, -⟩
        exact absurd h hfits

/-- The signals of a call to all peers are all attempted exactly when no send but the last one
fails. -/
theorem attempts_signalAll_iff (env : Env) {first second : MessageType}
    (hne : first.code ≠ second.code) (sid : UInt32) (s : Session cfg) :
    Attempts env sid (signals first second sid s.peers.book.all) s
        (s.signalAll env first second sid s.peers.book.all).2 ↔
      Unbroken env cfg sid s.traffic.txSequence (signals first second sid s.peers.book.all) := by
  rw [signalAll_eq]
  exact attempts_iff env sid (distinct_signals hne sid s.peers.book.nodup) s

theorem attempts_pttPress_iff (env : Env) (s : Session cfg) :
    Attempts env s.status.sessionId
        (signals .floorRequest .controlResume s.status.sessionId s.peers.book.all) s
        (s.pttPress env).2 ↔
      Unbroken env cfg s.status.sessionId s.traffic.txSequence
        (signals .floorRequest .controlResume s.status.sessionId s.peers.book.all) :=
  attempts_signalAll_iff env (by decide) s.status.sessionId { s with status.pttActive := true }

theorem attempts_pttRelease_iff (env : Env) (s : Session cfg) :
    Attempts env s.status.sessionId
        (signals .floorRelease .controlPause s.status.sessionId s.peers.book.all) s
        (s.pttRelease env).2 ↔
      Unbroken env cfg s.status.sessionId s.traffic.txSequence
        (signals .floorRelease .controlPause s.status.sessionId s.peers.book.all) :=
  attempts_signalAll_iff env (by decide) s.status.sessionId { s with status.pttActive := false }

/-- `ptt_press` and `ptt_release` attempt both messages to every target exactly when no send but
the last one fails. -/
theorem ptt_attempts_iff (env : Env) (s : Session cfg) :
    let sid := s.status.sessionId
    let press := signals .floorRequest .controlResume sid s.peers.book.all
    let release := signals .floorRelease .controlPause sid s.peers.book.all
    (Attempts env sid press s (s.pttPress env).2 ↔
      Unbroken env cfg sid s.traffic.txSequence press) ∧
    (Attempts env sid release s (s.pttRelease env).2 ↔
      Unbroken env cfg sid s.traffic.txSequence release) :=
  ⟨attempts_pttPress_iff env s, attempts_pttRelease_iff env s⟩

/-- If the first target cannot be reached, not everything is attempted. -/
theorem not_attempts_of_unreachable {env : Env} {s : Session cfg} {peer : SocketAddr}
    {rest : List SocketAddr} (hbook : s.peers.book.all = peer :: rest)
    (hfail : ∀ bytes n, env.sendTo peer bytes ≠ .ok n) :
    ¬ Attempts env s.status.sessionId
      (signals .floorRequest .controlResume s.status.sessionId s.peers.book.all) s
      (s.pttPress env).2 := by
  rw [attempts_pttPress_iff, hbook]
  rintro ⟨-, htakes, -⟩
  obtain ⟨-, n, hsend⟩ := htakes (by simp)
  exact hfail _ n hsend

namespace SignalExample

open Pairing

/-- A room with two guests. -/
noncomputable def room : Session Config.default :=
  (run Crypto.toy (rest Crypto.toy (initial Config.default (Vector.replicate 8 0)))
    (roomSteps ++ [(at' 2, .recv newcomer (noiseHelloDatagram (Vector.replicate 32 0))),
      (at' 2, .recv newcomer (noiseKeyExchangeDatagram (Vector.replicate 32 0)))])).session

/-- The first guest cannot be reached. -/
noncomputable def unreachable : Env :=
  { at' 3 with sendTo := fun peer bytes => if peer = guest then .error .io else .ok bytes.length }

end SignalExample

open SignalExample Pairing in
/-- The second guest hears nothing of the call, though everything sent to it would arrive. -/
theorem ptt_unreachable :
    room.peers.book.all = [guest, newcomer] ∧
      (∀ bytes, unreachable.sendTo newcomer bytes = .ok bytes.length) ∧
      ¬ Attempts unreachable room.status.sessionId
        (signals .floorRequest .controlResume room.status.sessionId room.peers.book.all) room
        (room.pttPress unreachable).2 := by
  have hbook : room.peers.book.all = [guest, newcomer] := by decide +kernel
  refine ⟨hbook, fun _ => rfl, not_attempts_of_unreachable hbook ?_⟩
  intro bytes n hsend
  cases hsend

end Session
end GravitalTalk
