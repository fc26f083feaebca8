import GravitalTalk.Session.Machine

/-!
# Pairing again

`close` followed by `reopen` is meant to leave a session as good as new. Which
fields really start again is settled here for every state of a session.
-/
namespace GravitalTalk
namespace Session

variable {cfg : Config} (env : Env)

/-! ## What `close` does -/

theorem sendControl_lastTx (msg : MessageType) (sid : UInt32) (payload : Bytes)
    (peer : SocketAddr) (s : Session cfg) :
    (s.sendControl env msg sid payload peer).2.traffic.lastTx = s.traffic.lastTx := by
  unfold sendControl transmit
  dsimp only
  split
  · rfl
  · cases env.sendTo peer _ <;> rfl

/-- The farewells of `close`. -/
def sayClose (sid : UInt32) (peers : List SocketAddr) (s : Session cfg) : Session cfg :=
  peers.foldl (fun s peer => (s.sendControl env .close sid [] peer).2) s

theorem sendsOnly_sayClose (sid : UInt32) (peers : List SocketAddr) (s : Session cfg) :
    SendsOnly s (s.sayClose env sid peers) :=
  SendsOnly.foldl (fun s peer => sendsOnly_sendControl env _ _ _ peer s) peers s

theorem sayClose_lastTx (sid : UInt32) (peers : List SocketAddr) (s : Session cfg) :
    (s.sayClose env sid peers).traffic.lastTx = s.traffic.lastTx := by
  unfold sayClose
  induction peers generalizing s with
  | nil => rfl
  | cons peer peers ih => rw [List.foldl_cons, ih, sendControl_lastTx]

/-- All that `close` changes. -/
theorem close_eq (s : Session cfg) :
    s.close env = { s with
      status := { s.status with closed := true, state := (s.status.state.next .close).next .close }
      peers := s.peers.close
      traffic := (s.close env).traffic } := by
  have h := sendsOnly_sayClose env s.status.sessionId s.peers.book.all { s with
    status.closed := true
    peers := { s.peers with encryptKey := none, decryptKey := none } }
  unfold sayClose at h
  unfold close
  dsimp only
  rw [h.eq]
  rfl

/-- The farewells are not encrypted. -/
theorem close_emits (s : Session cfg) :
    Emits s.peers.SealsWith s.traffic (s.close env).traffic := by
  have h := sendsOnly_sayClose env s.status.sessionId s.peers.book.all { s with
    status.closed := true
    peers := { s.peers with encryptKey := none, decryptKey := none } }
  refine h.emits.mono fun key hkey => ?_
  rcases hkey with hkey | hkey
  · exact .inl hkey
  · cases hkey

theorem close_framed (s : Session cfg) : (s.close env).traffic.framed = s.traffic.framed :=
  (sendsOnly_sayClose env s.status.sessionId s.peers.book.all { s with
    status.closed := true
    peers := { s.peers with encryptKey := none, decryptKey := none } }).framed

theorem close_lastTx (s : Session cfg) : (s.close env).traffic.lastTx = s.traffic.lastTx :=
  sayClose_lastTx env s.status.sessionId s.peers.book.all { s with
    status.closed := true
    peers := { s.peers with encryptKey := none, decryptKey := none } }

/-! ## Close, then reopen -/

/-- Everything that records a connection is as in `fresh`. -/
structure StartsClean (fresh t : Session cfg) : Prop where
  peers : t.peers = fresh.peers
  pendingJoins : t.pendingJoins = fresh.pendingJoins
  live : t.live = fresh.live
  sessionId : t.status.sessionId = fresh.status.sessionId
  negotiatedCodec : t.status.negotiatedCodec = fresh.status.negotiatedCodec
  localSsrc : t.status.localSsrc = fresh.status.localSsrc
  pttActive : t.status.pttActive = fresh.status.pttActive
  peerPttActive : t.status.peerPttActive = fresh.status.peerPttActive
  txSequence : t.traffic.txSequence = fresh.traffic.txSequence
  counters : t.traffic.counters = fresh.traffic.counters
  lastTx : t.traffic.lastTx = fresh.traffic.lastTx
  voice : t.voice = fresh.voice
  media : t.media = fresh.media
  congestion : t.congestion = fresh.congestion
  rtt : t.rtt = fresh.rtt
  timers : t.path.timers = fresh.path.timers

/-- The fields that neither `close` nor `reopen` writes still have the values
`new` gave them. -/
def Untouched (s : Session cfg) : Prop :=
  s.media.floor = none ∧ s.media.gapSince = 0 ∧ s.traffic.lastTx = 0 ∧
    s.path.timers = Path.new.timers

theorem wiped_media (s : Session cfg) : s.wiped.media = Media.fresh cfg ↔
    s.media.floor = none ∧ s.media.gapSince = 0 := by
  simp only [wiped, Media.fresh, JitterBuffer.reset, Media.mk.injEq, true_and, and_true]

theorem startsClean_wiped (s t : Session cfg) (nonce : Vector UInt8 8)
    (ht : t = { s.wiped with status := t.status })
    (hstatus : (t.status.sessionId, t.status.negotiatedCodec, t.status.localSsrc,
      t.status.pttActive, t.status.peerPttActive) = (0, 0, 0, false, false)) :
    StartsClean (initial cfg nonce) t ↔ s.Untouched := by
  simp only [Prod.mk.injEq] at hstatus
  obtain ⟨hid, hcodec, hssrc, hptt, hpeer⟩ := hstatus
  constructor
  · intro h
    have hmedia : s.wiped.media = Media.fresh cfg := by
      have := h.media
      rwa [ht] at this
    have hlast := h.lastTx
    have htimers := h.timers
    rw [ht] at hlast htimers
    exact ⟨((wiped_media s).mp hmedia).1, ((wiped_media s).mp hmedia).2, hlast, htimers⟩
  · rintro ⟨hfloor, hgap, hlast, htimers⟩
    have hmedia := (wiped_media s).mpr ⟨hfloor, hgap⟩
    constructor
    case sessionId => exact hid
    case negotiatedCodec => exact hcodec
    case localSsrc => exact hssrc
    case pttActive => exact hptt
    case peerPttActive => exact hpeer
    case media => rw [ht]; exact hmedia
    case lastTx => rw [ht]; exact hlast
    case timers => rw [ht]; exact htimers
    all_goals rw [ht]; rfl

/-- `close` and then `reopen` succeeds and gives a session like a new one, with
its settings kept, exactly when the session had been started (and not merely
reopened) and the fields that both functions forget had never been written. -/
theorem close_reopen_clean_iff (s fresh : Session cfg) (nonce : Vector UInt8 8)
    (hnew : Session.new cfg nonce = some fresh) :
    ((s.close env).reopen.1 = .ok () ∧ StartsClean fresh (s.close env).reopen.2 ∧
        (s.close env).reopen.2.settings = s.settings) ↔
      (s.status.state ≠ .idle ∧ s.status.state ≠ .reconnecting) ∧ s.Untouched := by
  have hfresh := eq_initial_of_new hnew
  subst hfresh
  have hclosed : (s.close env).status.closed = true := by rw [close_eq]
  have hstate : (s.close env).wiped.status.state.transition .reconnect =
      if s.status.state = .idle ∨ s.status.state = .reconnecting then none
      else some .reconnecting := by
    rw [← SessionState.reconnect_after_close, close_eq]
    rfl
  have huntouched : (s.close env).Untouched ↔ s.Untouched := by
    unfold Untouched
    rw [close_lastTx, close_eq]
  rw [reopen, hclosed]
  by_cases h : s.status.state = .idle ∨ s.status.state = .reconnecting
  · rw [if_pos h] at hstate
    simp only [Bool.not_true, Bool.false_eq_true, if_false, hstate]
    constructor
    · rintro ⟨hok, -⟩
      cases hok
    · rintro ⟨⟨hi, hr⟩, -⟩
      exact absurd h (by tauto)
  · rw [if_neg h] at hstate
    simp only [Bool.not_true, Bool.false_eq_true, if_false, hstate]
    rw [startsClean_wiped (s.close env) _ nonce rfl rfl, huntouched]
    have hsettings : (s.close env).wiped.settings = s.settings := by rw [close_eq]; rfl
    constructor
    · rintro ⟨-, hclean, -⟩
      exact ⟨not_or.mp h, hclean⟩
    · rintro ⟨-, hclean⟩
      exact ⟨trivial, hclean, hsettings⟩

theorem new_default (nonce : Vector UInt8 8) :
    Session.new Config.default nonce = some (initial Config.default nonce) := by
  rw [new_eq, if_pos (by decide +kernel)]

/-- A session that was started and never used starts clean. -/
theorem close_reopen_clean_started :
    let s : Session Config.default :=
      { initial Config.default (Vector.replicate 8 0) with status.state := .active }
    ((s.close (Env.basic 0 (.v4 (Vector.replicate 4 0) 0))).reopen.1 = .ok () ∧
      StartsClean (initial Config.default (Vector.replicate 8 0))
        (s.close (Env.basic 0 (.v4 (Vector.replicate 4 0) 0))).reopen.2 ∧
      (s.close (Env.basic 0 (.v4 (Vector.replicate 4 0) 0))).reopen.2.settings = s.settings) :=
  (close_reopen_clean_iff _ _ _ (Vector.replicate 8 0) (new_default _)).mpr
    ⟨⟨by decide, by decide⟩, rfl, rfl, rfl, rfl⟩

/-- Two sessions that do not start clean. A new one cannot be reopened at all.
One that waited for a guest and then ran its receive loop for a second can be,
but keeps the time of its keepalive. -/
theorem close_reopen_keeps_keepalive :
    let env := Env.basic 1000000 (.v4 (Vector.replicate 4 0) 0)
    let new := initial Config.default (Vector.replicate 8 0)
    let used := (Machine.run Crypto.toy (Machine.rest Crypto.toy new)
      [(env, .handshakeOpen), (env, .cancel), (env, .turn)]).session
    Session.new Config.default (Vector.replicate 8 0) = some new ∧
      (new.close env).reopen.1 ≠ .ok () ∧
      (used.close env).reopen.1 = .ok () ∧ ¬ StartsClean new (used.close env).reopen.2 := by
  refine ⟨new_default _, by decide, by decide +kernel, fun h => ?_⟩
  exact absurd h.timers (by decide +kernel)

end Session
end GravitalTalk
