import GravitalTalk.Session.Effects
import GravitalTalk.Session.Machine

/-!
# Twin sessions

Two sessions that differ only in their metrics, in the times something was last
heard, and in the record of what the replay windows were asked. Whatever does
not look at these times does the same to both.
-/
namespace GravitalTalk
namespace Session

open Rendezvous (Message)

variable {cfg : Config} (C : Crypto) (env : Env) {s t : Session cfg} {X Y : List Mark}
  {α β : Type*}

/-- `s` and `t` are twins that have recorded the same marks since they had
recorded `X` and `Y`. -/
def Twins (X Y : List Mark) (s t : Session cfg) : Prop :=
  ∃ counters live said, s.history.marked = said ++ X ∧ t = { s with
    traffic.counters := counters
    live := live
    history.marked := said ++ Y }

/-- The same results, and twin sessions. -/
def TwinResults (X Y : List Mark) (r r' : α × Session cfg) : Prop :=
  r.1 = r'.1 ∧ Twins X Y r.2 r'.2

theorem TwinResults.both {r r' : α × Session cfg} (h : TwinResults X Y r r') :
    ∃ x s' t', r = (x, s') ∧ r' = (x, t') ∧ Twins X Y s' t' :=
  ⟨r.1, r.2, r'.2, rfl, Prod.ext h.1.symm rfl, h.2⟩

namespace Twins

theorem foldl {f : Session cfg → β → Session cfg}
    (hf : ∀ b {s t : Session cfg}, Twins X Y s t → Twins X Y (f s b) (f t b)) (bs : List β)
    (h : Twins X Y s t) : Twins X Y (bs.foldl f s) (bs.foldl f t) := by
  induction bs generalizing s t with
  | nil => exact h
  | cons b bs ih => exact ih (hf b h)

theorem settings (h : Twins X Y s t) : t.settings = s.settings := by
  obtain ⟨c, l, k, hk, rfl⟩ := h
  rfl

theorem status (h : Twins X Y s t) : t.status = s.status := by
  obtain ⟨c, l, k, hk, rfl⟩ := h
  rfl

theorem peers (h : Twins X Y s t) : t.peers = s.peers := by
  obtain ⟨c, l, k, hk, rfl⟩ := h
  rfl

theorem pendingJoins (h : Twins X Y s t) : t.pendingJoins = s.pendingJoins := by
  obtain ⟨c, l, k, hk, rfl⟩ := h
  rfl

theorem media (h : Twins X Y s t) : t.media = s.media := by
  obtain ⟨c, l, k, hk, rfl⟩ := h
  rfl

theorem path (h : Twins X Y s t) : t.path = s.path := by
  obtain ⟨c, l, k, hk, rfl⟩ := h
  rfl

theorem roomKey (h : Twins X Y s t) : t.roomKey C = s.roomKey C := by
  unfold Session.roomKey
  rw [h.settings]

theorem rendezvousServer (h : Twins X Y s t) : t.rendezvousServer = s.rendezvousServer := by
  unfold Session.rendezvousServer hasRoomToken
  rw [h.settings]

theorem roomPsk (h : Twins X Y s t) : t.roomPsk C = s.roomPsk C := by
  unfold Session.roomPsk
  rw [h.settings]

theorem resolvedSessionId (h : Twins X Y s t) :
    t.resolvedSessionId env = s.resolvedSessionId env := by
  unfold Session.resolvedSessionId
  rw [h.settings, h.status]

theorem silentFor_pathIsStale (h : Twins X Y s t) {now : ℕ}
    (hsilent : silentFor now t.live.lastRx = silentFor now s.live.lastRx) :
    t.pathIsStale now = s.pathIsStale now := by
  unfold Session.pathIsStale
  rw [hsilent, h.path]

/-! ## Sending -/

theorem transmit (h : Twins X Y s t) (peer : SocketAddr) (bytes : Bytes) :
    TwinResults X Y (s.transmit env peer bytes) (t.transmit env peer bytes) := by
  obtain ⟨c, l, k, hk, rfl⟩ := h
  exact ⟨rfl, _, _, _, hk, rfl⟩

theorem sendControl (h : Twins X Y s t) (msg : MessageType) (sid : UInt32) (payload : Bytes)
    (peer : SocketAddr) :
    TwinResults X Y (s.sendControl env msg sid payload peer)
      (t.sendControl env msg sid payload peer) := by
  obtain ⟨c, l, k, hk, rfl⟩ := h
  unfold Session.sendControl
  dsimp only [bumpSequence, Session.transmit]
  split
  · exact ⟨rfl, _, _, _, hk, rfl⟩
  · rename_i bytes _
    cases env.sendTo peer bytes with
    | error e => exact ⟨rfl, _, _, _, hk, rfl⟩
    | ok n => exact ⟨rfl, _, _, _, hk, rfl⟩

theorem sendRv (h : Twins X Y s t) (msg : Message) (peer : SocketAddr) :
    Twins X Y (s.sendRv C env msg peer) (t.sendRv C env msg peer) := by
  unfold Session.sendRv
  rw [h.roomKey C]
  exact (h.transmit env peer _).2

theorem sendRvAll (h : Twins X Y s t) (msg : Message) (peers : List SocketAddr) :
    Twins X Y (s.sendRvAll C env msg peers) (t.sendRvAll C env msg peers) :=
  foldl (fun peer _ _ h => h.sendRv C env msg peer) peers h

theorem punchNeighbours (h : Twins X Y s t) (around : SocketAddr) (nonce : Vector UInt8 8) :
    Twins X Y (s.punchNeighbours C env around nonce) (t.punchNeighbours C env around nonce) :=
  h.sendRvAll C env _ _

theorem sendKeepaliveTo (h : Twins X Y s t) (sid : UInt32) (peer : SocketAddr) :
    Twins X Y (s.sendKeepaliveTo C env sid peer) (t.sendKeepaliveTo C env sid peer) := by
  obtain ⟨c, l, k, hk, rfl⟩ := h
  unfold Session.sendKeepaliveTo
  dsimp only [bumpSequence, noteSealed]
  split
  · exact ⟨_, _, _, hk, rfl⟩
  · split
    · exact ⟨_, _, _, hk, rfl⟩
    · rename_i bytes _
      dsimp only [Session.transmit]
      cases env.sendTo peer bytes with
      | error e => exact ⟨_, _, _, hk, rfl⟩
      | ok n => exact ⟨_, _, _, hk, rfl⟩

theorem sendKeepalive (h : Twins X Y s t) :
    Twins X Y (s.sendKeepalive C env) (t.sendKeepalive C env) := by
  unfold Session.sendKeepalive
  rw [h.peers, h.status]
  exact foldl (fun peer _ _ h => h.sendKeepaliveTo C env _ peer) _ h

theorem sendHeartbeat (h : Twins X Y s t) : Twins X Y (s.sendHeartbeat env) (t.sendHeartbeat env) := by
  unfold Session.sendHeartbeat
  rw [h.peers, h.status]
  exact foldl (fun peer _ _ h => (h.sendControl env _ _ _ peer).2) _ h

theorem sendFecParity (h : Twins X Y s t) (sid : UInt32) (parity : FecParity) (peer : SocketAddr) :
    Twins X Y (s.sendFecParity C env sid parity peer) (t.sendFecParity C env sid parity peer) := by
  obtain ⟨c, l, k, hk, rfl⟩ := h
  unfold Session.sendFecParity
  dsimp only [bumpSequence, noteSealed]
  split
  · exact ⟨_, _, _, hk, rfl⟩
  · split
    · exact ⟨_, _, _, hk, rfl⟩
    · split
      · exact ⟨_, _, _, hk, rfl⟩
      · rename_i bytes _
        dsimp only [Session.transmit]
        cases env.sendTo peer bytes with
        | error e => exact ⟨_, _, _, hk, rfl⟩
        | ok n => exact ⟨_, _, _, hk, rfl⟩

theorem audioPacket (h : Twins X Y s t) (sid seq : UInt32) (plain : Bytes) (peer : SocketAddr) :
    t.audioPacket C env sid seq plain peer = s.audioPacket C env sid seq plain peer := by
  unfold Session.audioPacket
  rw [h.peers]

theorem noteAudio (h : Twins X Y s t) (sid seq : UInt32) (plain : Bytes) (peer : SocketAddr) :
    Twins X Y (s.noteAudio env sid seq plain peer) (t.noteAudio env sid seq plain peer) := by
  obtain ⟨c, l, k, hk, rfl⟩ := h
  unfold Session.noteAudio
  dsimp only [noteSealed]
  split
  · exact ⟨_, _, _, hk, rfl⟩
  · exact ⟨_, _, _, hk, rfl⟩

theorem noteFramed (h : Twins X Y s t) (peer : SocketAddr) (plain : Bytes) :
    Twins X Y (s.noteFramed peer plain) (t.noteFramed peer plain) := by
  obtain ⟨c, l, k, hk, rfl⟩ := h
  exact ⟨_, _, _, hk, rfl⟩

theorem followUp (h : Twins X Y s t) (sid : UInt32) (parity : Option FecParity) (peer : SocketAddr) :
    Twins X Y (s.followUp C env sid parity peer) (t.followUp C env sid parity peer) := by
  cases parity with
  | none => exact h
  | some p => exact h.sendFecParity C env sid p peer

theorem sendFrames (h : Twins X Y s t) (sid seq : UInt32) (plain : Bytes) (parity : Option FecParity)
    (alone : Bool) (targets : List SocketAddr) (total : ℕ) :
    TwinResults X Y (s.sendFrames C env sid seq plain parity alone targets total)
      (t.sendFrames C env sid seq plain parity alone targets total) := by
  induction targets generalizing s t total with
  | nil => exact ⟨rfl, h⟩
  | cons peer rest ih =>
    have hnote := h.noteAudio env sid seq plain peer
    simp only [Session.sendFrames, h.audioPacket C env]
    split
    · exact ⟨rfl, hnote⟩
    · rename_i bytes _
      obtain ⟨r, u, v, hs, ht, hsent⟩ := (hnote.transmit env peer bytes).both
      rw [hs, ht]
      cases r with
      | ok n => exact ih ((hsent.noteFramed peer plain).followUp C env sid parity peer) _
      | error e =>
        dsimp only
        split_ifs
        · exact ⟨rfl, hsent⟩
        · exact ih (hsent.followUp C env sid parity peer) _

theorem recordSent (h : Twins X Y s t) (n : ℕ) : Twins X Y (s.recordSent n) (t.recordSent n) := by
  obtain ⟨c, l, k, hk, rfl⟩ := h
  exact ⟨_, _, _, hk, rfl⟩

theorem sendAudioTo (h : Twins X Y s t) (payload : Bytes) (targets : List SocketAddr) :
    TwinResults X Y (s.sendAudioTo C env payload targets) (t.sendAudioTo C env payload targets) := by
  obtain ⟨c, l, k, hk, rfl⟩ := h
  unfold Session.sendAudioTo
  dsimp only [bumpSequence]
  obtain ⟨r, u, v, hs, ht, h⟩ := TwinResults.both (sendFrames C env
    (s := { s with
      traffic := { s.traffic with
        txSequence := s.traffic.txSequence + 1
        taken := s.traffic.taken + 1 }
      voice := ⟨s.voice.audioTxSeq + 1, (s.voice.fecEnc.push s.voice.audioTxSeq payload).2⟩ })
    ⟨c, l, k, hk, rfl⟩ s.status.sessionId s.traffic.txSequence (be32 s.voice.audioTxSeq ++ payload)
    (s.voice.fecEnc.push s.voice.audioTxSeq payload).1 (targets.length == 1) targets 0)
  rw [hs, ht]
  cases r with
  | error e => exact ⟨rfl, h⟩
  | ok total =>
    obtain ⟨c', l', k', hk', rfl⟩ := h
    exact ⟨rfl, _, _, _, hk', rfl⟩

theorem sendAudio (h : Twins X Y s t) (payload : Bytes) :
    TwinResults X Y (s.sendAudio C env payload) (t.sendAudio C env payload) := by
  unfold Session.sendAudio
  rw [h.status, h.peers]
  split_ifs
  · exact ⟨rfl, h⟩
  · exact ⟨rfl, h⟩
  · exact h.sendAudioTo C env payload _

theorem forwardAudio (h : Twins X Y s t) (sender : SocketAddr) (payload : Bytes) :
    Twins X Y (s.forwardAudio C env sender payload) (t.forwardAudio C env sender payload) := by
  unfold Session.forwardAudio
  rw [h.status, h.peers]
  split_ifs
  · exact h
  · exact h
  · exact (h.sendAudioTo C env payload _).2

theorem signalAll (h : Twins X Y s t) (first second : MessageType) (sid : UInt32)
    (targets : List SocketAddr) :
    TwinResults X Y (s.signalAll env first second sid targets)
      (t.signalAll env first second sid targets) := by
  induction targets generalizing s t with
  | nil => exact ⟨rfl, h⟩
  | cons peer rest ih =>
    simp only [Session.signalAll]
    obtain ⟨r, u, v, hs, ht, h'⟩ := (h.sendControl env first sid (be32 sid) peer).both
    rw [hs, ht]
    cases r with
    | error e => exact ⟨rfl, h'⟩
    | ok _ =>
      obtain ⟨r, u, v, hs, ht, h''⟩ := (h'.sendControl env second sid [] peer).both
      dsimp only
      rw [hs, ht]
      cases r with
      | error e => exact ⟨rfl, h''⟩
      | ok _ => exact ih h''

theorem setStatus (h : Twins X Y s t) (f : Status → Status) :
    Twins X Y { s with status := f s.status } { t with status := f t.status } := by
  obtain ⟨c, l, k, hk, rfl⟩ := h
  exact ⟨_, _, _, hk, rfl⟩

theorem pttPress (h : Twins X Y s t) :
    TwinResults X Y (s.pttPress env) (t.pttPress env) := by
  obtain ⟨c, l, k, hk, rfl⟩ := h
  exact (setStatus ⟨c, l, k, hk, rfl⟩ fun st => { st with pttActive := true }).signalAll env _ _ _ _

theorem pttRelease (h : Twins X Y s t) :
    TwinResults X Y (s.pttRelease env) (t.pttRelease env) := by
  obtain ⟨c, l, k, hk, rfl⟩ := h
  exact (setStatus ⟨c, l, k, hk, rfl⟩ fun st => { st with pttActive := false }).signalAll env _ _ _ _

/-! ## The path -/

theorem switchPeer (h : Twins X Y s t) (old new : SocketAddr) :
    Twins X Y (s.switchPeer env old new) (t.switchPeer env old new) := by
  obtain ⟨c, l, k, hk, rfl⟩ := h
  unfold Session.switchPeer
  dsimp only
  split
  · exact ⟨_, _, _, hk, rfl⟩
  · exact ⟨_, _, _, hk, rfl⟩

theorem openWith (h : Twins X Y s t) (key : SessionKey) (view : PacketView) (raw : Bytes) :
    t.openWith C key view raw = s.openWith C key view raw := by
  unfold Session.openWith
  rw [h.status]

theorem openAs (h : Twins X Y s t) (peer : SocketAddr) (view : PacketView) (raw : Bytes) :
    t.openAs C peer view raw = s.openAs C peer view raw := by
  unfold Session.openAs
  simp only [h.peers, h.openWith C]

theorem owners (h : Twins X Y s t) (view : PacketView) (raw : Bytes) :
    t.owners C view raw = s.owners C view raw := by
  unfold Session.owners
  simp only [h.peers, h.openAs C]

theorem freshFor (h : Twins X Y s t) (old : SocketAddr) (seq : UInt32) :
    t.freshFor old seq = s.freshFor old seq := by
  unfold Session.freshFor
  rw [h.peers]

theorem noteOpened (h : Twins X Y s t) (sender : SocketAddr) (key : SessionKey) (view : PacketView)
    (raw plain : Bytes) :
    Twins X Y (s.noteOpened sender key view raw plain) (t.noteOpened sender key view raw plain) := by
  obtain ⟨c, l, k, hk, rfl⟩ := h
  exact ⟨_, _, _, hk, rfl⟩

theorem tryMigrate (h : Twins X Y s t) (view : PacketView) (raw : Bytes) (sender : SocketAddr) :
    TwinResults X Y (s.tryMigrate C env view raw sender) (t.tryMigrate C env view raw sender) := by
  unfold Session.tryMigrate
  rw [h.owners C]
  split_ifs
  · exact ⟨rfl, h⟩
  · split
    · exact ⟨rfl, h⟩
    · rw [h.openAs C]
      split
      · exact ⟨rfl, h⟩
      · rename_i key plain _
        have hnote := h.noteOpened sender key view raw plain
        dsimp only
        rw [hnote.freshFor]
        split_ifs
        · exact ⟨rfl, hnote.switchPeer env _ _⟩
        · exact ⟨rfl, hnote⟩

theorem probeAnswered (h : Twins X Y s t) (sender : SocketAddr)
    (hstale : t.pathIsStale env.now = s.pathIsStale env.now) :
    Twins X Y (s.probeAnswered C env sender) (t.probeAnswered C env sender) := by
  unfold Session.probeAnswered
  rw [h.peers]
  split
  · exact h
  · rw [hstale]
    split_ifs
    · exact (h.switchPeer env _ _).sendKeepalive C env
    · exact h

theorem addPathHints (h : Twins X Y s t) (addrs : List SocketAddr) :
    Twins X Y (s.addPathHints addrs) (t.addPathHints addrs) := by
  obtain ⟨c, l, k, hk, rfl⟩ := h
  exact ⟨_, _, _, hk, rfl⟩

/-- Only the answer to a probe makes a session look at how long it has heard nothing. -/
theorem onRendezvous (h : Twins X Y s t) (raw : Bytes) (sender : SocketAddr)
    (hstale : Message.decode raw = some (s.roomKey C, .punchAck s.settings.probeNonce) →
      t.pathIsStale env.now = s.pathIsStale env.now) :
    Twins X Y (s.onRendezvous C env raw sender) (t.onRendezvous C env raw sender) := by
  unfold Session.onRendezvous
  split
  · exact h
  · rename_i key msg hmsg
    rw [h.roomKey C]
    by_cases hkey : key ≠ s.roomKey C
    · rw [if_pos hkey, if_pos hkey]
      exact h
    · rw [if_neg hkey, if_neg hkey]
      rw [not_not] at hkey
      subst hkey
      cases msg with
      | register => exact h
      | peers you others =>
        dsimp only
        rw [h.rendezvousServer]
        split_ifs
        · have hpunch := foldl
            (fun peer _ _ h => h.sendRv C env (.punch (env.punchNonce peer)) peer) others h
          exact hpunch.addPathHints others
        · exact h
      | punch nonce => exact h.sendRv C env (.punchAck nonce) sender
      | addrs addrs =>
        dsimp only
        rw [h.peers]
        split_ifs
        · exact h.addPathHints _
        · exact h
      | punchAck nonce =>
        dsimp only
        rw [h.settings]
        split_ifs with hnonce
        · subst hnonce
          exact h.probeAnswered C env sender (hstale hmsg)
        · exact h

theorem setPath (h : Twins X Y s t) (f : Path → Path) :
    Twins X Y { s with path := f s.path } { t with path := f t.path } := by
  obtain ⟨c, l, k, hk, rfl⟩ := h
  exact ⟨_, _, _, hk, rfl⟩

theorem live_keepaliveDue (s : Session cfg) : (s.keepaliveDue C env).live = s.live := by
  unfold Session.keepaliveDue
  split
  · exact (sendsOnly_sendKeepalive C env _).live
  · rfl

theorem keepaliveDue (h : Twins X Y s t) : Twins X Y (s.keepaliveDue C env) (t.keepaliveDue C env) := by
  unfold Session.keepaliveDue
  rw [h.path]
  split
  · exact sendKeepalive C env (h.setPath fun _ => _)
  · exact h

theorem registerDue (h : Twins X Y s t) (stale : Bool) :
    Twins X Y (s.registerDue C env stale) (t.registerDue C env stale) := by
  unfold Session.registerDue
  rw [h.rendezvousServer, h.path]
  split
  · exact h
  · split_ifs
    · exact sendRv C env (h.setPath fun _ => _) _ _
    · exact h
    · exact sendRv C env (h.setPath fun _ => _) _ _
    · exact h

theorem probeHint (h : Twins X Y s t) (first : Bool) (hint : SocketAddr) :
    Twins X Y (s.probeHint C env first hint) (t.probeHint C env first hint) := by
  unfold Session.probeHint
  rw [h.settings]
  dsimp only
  split_ifs
  · exact (h.sendRv C env _ hint).punchNeighbours C env _ _
  · exact h.sendRv C env _ hint

theorem probeDue (h : Twins X Y s t) (stale : Bool) :
    Twins X Y (s.probeDue C env stale) (t.probeDue C env stale) := by
  unfold Session.probeDue
  rw [h.path]
  split_ifs
  · exact foldl (fun hint _ _ h => h.probeHint C env _ hint) _ (h.setPath fun _ => _)
  · exact h.setPath fun _ => _
  · exact h

theorem ownAddresses (h : Twins X Y s t) : t.ownAddresses env = s.ownAddresses env := by
  unfold Session.ownAddresses
  rw [h.settings]

theorem advertiseDue (h : Twins X Y s t) (stale : Bool) :
    Twins X Y (s.advertiseDue C env stale) (t.advertiseDue C env stale) := by
  have hset := h.setPath fun p => { p with lastAdvert := env.now }
  have hown := hset.ownAddresses env
  have hbook := congrArg Peers.book h.peers
  have hadvert := congrArg Path.lastAdvert h.path
  unfold Session.advertiseDue
  dsimp only at hown ⊢
  rw [hadvert, hown, hbook]
  split_ifs
  · exact hset
  · exact hset.sendRvAll C env _ _
  · exact h

theorem dropPeers (h : Twins X Y s t) (gone : Finset SocketAddr) :
    Twins X Y (s.dropPeers gone) (t.dropPeers gone) := by
  obtain ⟨c, l, k, hk, rfl⟩ := h
  exact ⟨_, _, _, hk, rfl⟩

theorem registerAnew (h : Twins X Y s t) :
    Twins X Y
      (match s.rendezvousServer with
        | none => s
        | some server => s.sendRv C env .register server)
      (match t.rendezvousServer with
        | none => t
        | some server => t.sendRv C env .register server) := by
  rw [h.rendezvousServer]
  cases s.rendezvousServer with
  | none => exact h
  | some server => exact h.sendRv C env _ server

theorem probeUnknown (h : Twins X Y s t) :
    Twins X Y
      (s.sendRvAll C env (.punch s.settings.probeNonce)
        (s.path.pathHints.filter fun hint => !s.peers.book.contains hint))
      (t.sendRvAll C env (.punch t.settings.probeNonce)
        (t.path.pathHints.filter fun hint => !t.peers.book.contains hint)) := by
  rw [h.settings, h.path, h.peers]
  exact h.sendRvAll C env _ _

theorem maintainRoom (h : Twins X Y s t) (hgone : t.gonePeers env = s.gonePeers env) :
    Twins X Y (s.maintainRoom C env) (t.maintainRoom C env) := by
  have hdrop := h.dropPeers (s.gonePeers env)
  have hset := hdrop.setPath fun p => { p with lastRoomProbe := env.now }
  have hprobe := congrArg Path.lastRoomProbe h.path
  unfold Session.maintainRoom
  dsimp only
  rw [hgone, hprobe]
  by_cases hdue : msSince env.now s.path.lastRoomProbe < keepaliveIntervalMs
  · rw [if_pos hdue, if_pos hdue]
    exact hdrop
  · rw [if_neg hdue, if_neg hdue]
    exact (hset.registerAnew C env).probeUnknown C env

theorem maintainPath (h : Twins X Y s t)
    (hsilent : silentFor env.now t.live.lastRx = silentFor env.now s.live.lastRx)
    (hgone : s.settings.multiPeer = true → t.gonePeers env = s.gonePeers env) :
    Twins X Y (s.maintainPath C env) (t.maintainPath C env) := by
  have hkept := h.keepaliveDue C env
  have hstale : (t.keepaliveDue C env).pathIsStale env.now =
      (s.keepaliveDue C env).pathIsStale env.now := by
    apply hkept.silentFor_pathIsStale
    rw [live_keepaliveDue, live_keepaliveDue, hsilent]
  set stale := (s.keepaliveDue C env).pathIsStale env.now with hdef
  have hfront := (hkept.registerDue C env stale).probeDue C env stale
  have hquiet (s : Session cfg) :
      Quiet s (((s.keepaliveDue C env).registerDue C env stale).probeDue C env stale) :=
    ((quiet_keepaliveDue C env s).trans (quiet_registerDue C env stale _)).trans
      (quiet_probeDue C env stale _)
  have hseen (s : Session cfg) :
      (((s.keepaliveDue C env).registerDue C env stale).probeDue C env stale).gonePeers env =
        s.gonePeers env := by
    unfold gonePeers
    rw [(hquiet s).peerSeen]
  unfold Session.maintainPath
  dsimp only
  rw [hstale, ← hdef, hfront.settings]
  split_ifs with hroom
  · rw [(hquiet s).settings] at hroom
    refine (hfront.maintainRoom C env ?_).advertiseDue C env stale
    rw [hseen, hseen]
    exact hgone hroom
  · exact hfront.advertiseDue C env stale

/-! ## Handshakes -/

theorem installKeys (h : Twins X Y s t) (peer : SocketAddr) (enc dec : SessionKey) :
    Twins X Y (s.installKeys env peer enc dec) (t.installKeys env peer enc dec) := by
  obtain ⟨c, l, k, hk, rfl⟩ := h
  exact ⟨_, _, _, hk, rfl⟩

theorem insertPeer (h : Twins X Y s t) (peer : SocketAddr) :
    Twins X Y { s with peers := s.peers.insert peer } { t with peers := t.peers.insert peer } := by
  obtain ⟨c, l, k, hk, rfl⟩ := h
  exact ⟨_, _, _, hk, rfl⟩

theorem setJoins (h : Twins X Y s t) (f : Table SocketAddr PendingJoin → Table SocketAddr PendingJoin) :
    Twins X Y { s with pendingJoins := f s.pendingJoins }
      { t with pendingJoins := f t.pendingJoins } := by
  obtain ⟨c, l, k, hk, rfl⟩ := h
  exact ⟨_, _, _, hk, rfl⟩

theorem sendThen (h : Twins X Y s t) (msg : MessageType) (sid : UInt32) (payload : Bytes)
    (peer : SocketAddr) (x : α) :
    TwinResults X Y
      (match s.sendControl env msg sid payload peer with
        | (.error e, s) => ((.error e : Except TransportError α), s)
        | (.ok _, s) => (.ok x, s))
      (match t.sendControl env msg sid payload peer with
        | (.error e, s) => (.error e, s)
        | (.ok _, s) => (.ok x, s)) := by
  obtain ⟨r, u, v, hs, ht, hsent⟩ := (h.sendControl env msg sid payload peer).both
  rw [hs, ht]
  cases r with
  | error e => exact ⟨rfl, hsent⟩
  | ok _ => exact ⟨rfl, hsent⟩

theorem noiseServerBegin (h : Twins X Y s t) (msg1 : Bytes) :
    TwinResults X Y (s.noiseServerBegin C env msg1) (t.noiseServerBegin C env msg1) := by
  have hid := h.setStatus fun st => { st with sessionId := s.resolvedSessionId env }
  unfold Session.noiseServerBegin
  rw [h.roomPsk C, h.resolvedSessionId env]
  dsimp only
  split
  · exact ⟨rfl, h⟩
  · split
    · exact ⟨rfl, h⟩
    · split
      · exact ⟨rfl, h⟩
      · split
        · exact ⟨rfl, h⟩
        · split
          · exact ⟨rfl, hid⟩
          · rename_i codec _
            have hcodec := hid.setStatus fun st => { st with negotiatedCodec := codec }
            split
            · exact ⟨rfl, hcodec⟩
            · split
              · exact ⟨rfl, hcodec⟩
              · exact ⟨rfl, hcodec⟩

theorem confirmKeys (h : Twins X Y s t) (sid : UInt32) (payload : Bytes) (peer : SocketAddr)
    (enc dec : SessionKey) :
    TwinResults X Y
      (match s.sendControl env .handshakeSessionConfirm sid payload peer with
        | (.error e, s) => ((.error e : Except TransportError Unit), s)
        | (.ok _, s) => (.ok (), s.installKeys env peer enc dec))
      (match t.sendControl env .handshakeSessionConfirm sid payload peer with
        | (.error e, s) => (.error e, s)
        | (.ok _, s) => (.ok (), s.installKeys env peer enc dec)) := by
  obtain ⟨r, u, v, hs, ht, hsent⟩ := (h.sendControl env .handshakeSessionConfirm sid payload
    peer).both
  rw [hs, ht]
  cases r with
  | error e => exact ⟨rfl, hsent⟩
  | ok _ => exact ⟨rfl, hsent.installKeys env peer enc dec⟩

theorem noiseServerFinish (h : Twins X Y s t) (peer : SocketAddr) (pending : PendingJoin)
    (ke : KeyExchangeMsg) :
    TwinResults X Y (s.noiseServerFinish env peer pending ke)
      (t.noiseServerFinish env peer pending ke) := by
  unfold Session.noiseServerFinish
  split_ifs
  · exact ⟨rfl, h⟩
  · exact ⟨rfl, h⟩
  · exact h.confirmKeys env _ _ _ _ _

theorem legacyServerBegin (h : Twins X Y s t) (peer : SocketAddr) (hello : ClientHello) :
    TwinResults X Y (s.legacyServerBegin C env peer hello)
      (t.legacyServerBegin C env peer hello) := by
  have hid := h.setStatus fun st => { st with sessionId := s.resolvedSessionId env }
  unfold Session.legacyServerBegin
  rw [h.resolvedSessionId env]
  dsimp only
  split
  · exact ⟨rfl, h⟩
  · split
    · exact ⟨rfl, hid⟩
    · rename_i codec _
      have hcodec := hid.setStatus fun st => { st with negotiatedCodec := codec }
      exact hcodec.sendThen env _ _ _ _ _

theorem legacyServerFinish (h : Twins X Y s t) (peer : SocketAddr) (wait : LegacyWait)
    (ke : KeyExchangeMsg) :
    TwinResults X Y (s.legacyServerFinish C env peer wait ke)
      (t.legacyServerFinish C env peer wait ke) := by
  unfold Session.legacyServerFinish
  split_ifs
  · exact ⟨rfl, h⟩
  · exact ⟨rfl, h⟩
  · exact h.confirmKeys env _ _ _ _ _

theorem clientHello (h : Twins X Y s t) : t.clientHello C env = s.clientHello C env := by
  unfold Session.clientHello
  rw [h.settings]

theorem clientAnswer (h : Twins X Y s t) (peer : SocketAddr) (wait : HelloWait)
    (payload : Bytes) :
    TwinResults X Y (s.clientAnswer C env peer wait payload)
      (t.clientAnswer C env peer wait payload) := by
  unfold Session.clientAnswer
  split
  · exact ⟨rfl, h⟩
  · dsimp only
    split_ifs
    · exact ⟨rfl, h⟩
    · exact ⟨rfl, h⟩
    · exact h.sendThen env _ _ _ _ _
    · exact ⟨rfl, h⟩

theorem clientFinish (h : Twins X Y s t) (peer : SocketAddr) (wait : ConfirmWait)
    (payload : Bytes) :
    TwinResults X Y (s.clientFinish C env peer wait payload)
      (t.clientFinish C env peer wait payload) := by
  unfold Session.clientFinish
  split
  · exact ⟨rfl, h⟩
  · dsimp only
    split_ifs
    · exact ⟨rfl, h⟩
    · exact ⟨rfl, h⟩
    · refine ⟨rfl, installKeys env (h.setStatus fun st => { st with
        sessionId := wait.sessionId
        localSsrc := ssrcOf wait.sessionId wait.encKey
        negotiatedCodec := wait.codec }) _ _ _⟩

theorem noiseClientBegin (h : Twins X Y s t) :
    t.noiseClientBegin C env = s.noiseClientBegin C env := by
  unfold Session.noiseClientBegin
  rw [h.roomPsk C]

theorem noiseClientAnswer (h : Twins X Y s t) (peer : SocketAddr) (hs : C.Noise)
    (clientNonce : Vector UInt8 32) (presetSid : UInt32) (hello2 : NoiseHello2) :
    TwinResults X Y (s.noiseClientAnswer C env peer hs clientNonce presetSid hello2)
      (t.noiseClientAnswer C env peer hs clientNonce presetSid hello2) := by
  unfold Session.noiseClientAnswer
  split
  · exact ⟨rfl, h⟩
  · split
    · exact ⟨rfl, h⟩
    · split
      · exact ⟨rfl, h⟩
      · split
        · exact ⟨rfl, h⟩
        · rename_i hash _
          dsimp only
          exact sendThen env (h.setStatus fun st => { st with
            sessionId := hello2.sessionId
            negotiatedCodec := hello2.codecAccepted
            localSsrc := ssrcOf hello2.sessionId (C.deriveSessionKeys hash
              (Crypto.buildTranscript clientNonce hello2.serverNonce hello2.sessionId)).1 })
            _ _ _ _ _

theorem noiseClientFinish (h : Twins X Y s t) (peer : SocketAddr) (wait : ConfirmWait)
    (payload : Bytes) :
    TwinResults X Y (s.noiseClientFinish C env peer wait payload)
      (t.noiseClientFinish C env peer wait payload) := by
  unfold Session.noiseClientFinish
  split
  · exact ⟨rfl, h⟩
  · split_ifs
    · exact ⟨rfl, h⟩
    · exact ⟨rfl, h⟩
    · exact ⟨rfl, h.installKeys env _ _ _⟩

theorem peekNewPeer (h : Twins X Y s t) (view : PacketView) (sender : SocketAddr) :
    t.peekNewPeer view sender = s.peekNewPeer view sender := by
  unfold Session.peekNewPeer
  rw [h.status, h.settings, h.peers]

theorem beginJoin (h : Twins X Y s t) (peer : SocketAddr) (msg1 : Bytes) :
    Twins X Y (s.beginJoin C env peer msg1) (t.beginJoin C env peer msg1) := by
  have hold := h.setJoins fun joins =>
    Table.retain (fun _ p => msSince env.now p.started < handshakeTimeoutMs) joins
  unfold Session.beginJoin
  dsimp only
  rw [h.pendingJoins]
  rw [h.pendingJoins] at hold
  split
  · rename_i p _
    exact (hold.sendControl env _ _ _ _).2
  · split
    · exact hold
    · obtain ⟨r, u, v, hs, ht, hbegun⟩ := (hold.noiseServerBegin C env msg1).both
      rw [hs, ht]
      cases r with
      | error e => exact hbegun
      | ok p =>
        exact (sendControl env (hbegun.setJoins fun joins => joins.insert peer p) _ _ _ _).2

theorem finishJoin (h : Twins X Y s t) (view : PacketView) (sender : SocketAddr) :
    TwinResults X Y (s.finishJoin env view sender) (t.finishJoin env view sender) := by
  unfold Session.finishJoin
  rw [h.pendingJoins]
  split
  · exact ⟨rfl, h⟩
  · split
    · exact ⟨rfl, h⟩
    · rename_i pending _
      have hgone := h.setJoins fun joins => joins.erase sender
      rw [h.pendingJoins] at hgone
      dsimp only
      split
      · exact ⟨rfl, hgone⟩
      · rename_i ke _
        obtain ⟨r, u, v, hs, ht, hend⟩ := (hgone.noiseServerFinish env sender pending ke).both
        rw [hs, ht]
        cases r with
        | error e => exact ⟨rfl, hend⟩
        | ok _ => exact ⟨rfl, hend.insertPeer sender⟩

/-! ## Receiving -/

theorem recordReceived (h : Twins X Y s t) (n : ℕ) :
    Twins X Y (s.recordReceived n) (t.recordReceived n) := by
  obtain ⟨c, l, k, hk, rfl⟩ := h
  exact ⟨_, _, _, hk, rfl⟩

theorem recordIntegrityError (h : Twins X Y s t) :
    Twins X Y s.recordIntegrityError t.recordIntegrityError := by
  obtain ⟨c, l, k, hk, rfl⟩ := h
  exact ⟨_, _, _, hk, rfl⟩

theorem recordReplayDrop (h : Twins X Y s t) :
    Twins X Y s.recordReplayDrop t.recordReplayDrop := by
  obtain ⟨c, l, k, hk, rfl⟩ := h
  exact ⟨_, _, _, hk, rfl⟩

theorem see (h : Twins X Y s t) (peer : SocketAddr) (now : ℕ) :
    Twins X Y (s.see peer now) (t.see peer now) := by
  obtain ⟨c, l, k, hk, rfl⟩ := h
  exact ⟨_, _, _, hk, rfl⟩

theorem heard (h : Twins X Y s t) : Twins X Y (s.heard env) (t.heard env) := by
  obtain ⟨c, l, k, hk, rfl⟩ := h
  exact ⟨_, _, _, hk, rfl⟩

theorem transition (h : Twins X Y s t) (e : SessionEvent) :
    Twins X Y (s.transition e) (t.transition e) :=
  h.setStatus fun st => { st with state := st.state.next e }

theorem dropPeer (h : Twins X Y s t) (peer : SocketAddr) :
    Twins X Y (s.dropPeer peer) (t.dropPeer peer) := by
  obtain ⟨c, l, k, hk, rfl⟩ := h
  exact ⟨_, _, _, hk, rfl⟩

theorem roomSequence (h : Twins X Y s t) (sender : SocketAddr) (audioSeq : UInt32) :
    TwinResults X Y (s.roomSequence env sender audioSeq) (t.roomSequence env sender audioSeq) := by
  obtain ⟨c, l, k, hk, rfl⟩ := h
  unfold Session.roomSequence
  dsimp only
  split
  · split
    · exact ⟨rfl, _, _, _, hk, rfl⟩
    · split
      · exact ⟨rfl, _, _, _, hk, rfl⟩
      · exact ⟨rfl, _, _, _, hk, rfl⟩
  · exact ⟨rfl, _, _, _, hk, rfl⟩

theorem playFrame (h : Twins X Y s t) (seq : UInt32) (timestamp : UInt64) (payload : Bytes) :
    Twins X Y (s.playFrame env seq timestamp payload) (t.playFrame env seq timestamp payload) := by
  obtain ⟨c, l, k, hk, rfl⟩ := h
  exact ⟨_, _, _, hk, rfl⟩

theorem hearFrame (h : Twins X Y s t) (sender : SocketAddr) (timestamp : UInt64)
    (plain : Bytes) :
    Twins X Y (s.hearFrame C env sender timestamp plain)
      (t.hearFrame C env sender timestamp plain) := by
  unfold Session.hearFrame
  dsimp only
  rw [h.settings]
  split
  · exact h.recordIntegrityError
  · split
    · obtain ⟨r, u, v, hs, ht, hfloor⟩ :=
        (h.roomSequence env sender (fromBe32 (plain.take 4))).both
      rw [hs, ht]
      cases r with
      | none => exact hfloor
      | some seq => exact (hfloor.playFrame env _ _ _).forwardAudio C env _ _
    · exact h.playFrame env _ _ _

theorem parityBase (h : Twins X Y s t) (sender : SocketAddr) (senderBase : UInt32) :
    t.parityBase sender senderBase = s.parityBase sender senderBase := by
  unfold Session.parityBase
  rw [h.settings, h.media]

theorem hearParity (h : Twins X Y s t) (sender : SocketAddr) (plain : Bytes) :
    Twins X Y (s.hearParity sender plain) (t.hearParity sender plain) := by
  have hbase := h.parityBase sender (fromBe32 (plain.take 4))
  obtain ⟨c, l, k, hk, rfl⟩ := h
  unfold Session.hearParity
  rw [hbase]
  dsimp only
  split
  · exact ⟨_, _, _, hk, rfl⟩
  · split
    · exact ⟨_, _, _, hk, rfl⟩
    · split
      · exact ⟨_, _, _, hk, rfl⟩
      · exact ⟨_, _, _, hk, rfl⟩

theorem onAudioFrame (h : Twins X Y s t) (view : PacketView) (raw : Bytes)
    (sender : SocketAddr) :
    Twins X Y (s.onAudioFrame C env view raw sender) (t.onAudioFrame C env view raw sender) := by
  unfold Session.onAudioFrame
  rw [h.peers]
  split
  · split
    · exact h.recordIntegrityError
    · rw [h.openWith C]
      split
      · exact h.recordIntegrityError
      · exact (h.noteOpened sender _ view raw _).hearFrame C env _ _ _
  · exact h.hearFrame C env _ _ _

theorem onAudioFec (h : Twins X Y s t) (view : PacketView) (raw : Bytes) (sender : SocketAddr) :
    Twins X Y (s.onAudioFec C view raw sender) (t.onAudioFec C view raw sender) := by
  unfold Session.onAudioFec
  rw [h.peers]
  split
  · split
    · exact h
    · rw [h.openWith C]
      split
      · exact h.recordIntegrityError
      · exact (h.noteOpened sender _ view raw _).hearParity _ _
  · exact h

theorem handlePacket (h : Twins X Y s t) (view : PacketView) (raw : Bytes)
    (sender : SocketAddr) :
    TwinResults X Y (s.handlePacket C env view raw sender)
      (t.handlePacket C env view raw sender) := by
  unfold Session.handlePacket
  split
  · exact ⟨rfl, h.recordIntegrityError⟩
  · exact ⟨rfl, h.onAudioFrame C env view raw sender⟩
  · exact ⟨rfl, h.onAudioFec C view raw sender⟩
  · rw [h.status]
    exact h.sendControl env _ _ _ _
  · exact ⟨rfl, h.setPath fun p => { p with lastAck := env.now }⟩
  · exact ⟨rfl, h.setStatus fun st => { st with peerPttActive := false }⟩
  · exact ⟨rfl, h.setStatus fun st => { st with peerPttActive := true }⟩
  · rw [h.status]
    split
    · exact ⟨rfl, h⟩
    · exact ⟨rfl, (h.sendControl env _ _ _ _).2⟩
  · exact ⟨rfl, h.setStatus fun st => { st with pttActive := false }⟩
  · exact ⟨rfl, h.setStatus fun st => { st with peerPttActive := false }⟩
  · split
    · obtain ⟨c, l, k, hk, rfl⟩ := h
      exact ⟨rfl, _, _, _, hk, rfl⟩
    · exact ⟨rfl, h⟩
  · rw [h.settings]
    split
    · exact ⟨rfl, h.dropPeer sender⟩
    · exact ⟨rfl, h.transition _⟩
  · exact ⟨rfl, h⟩

/-- Both windows are asked the same, and both histories say so. -/
theorem antiReplay (h : Twins X Y s t) (view : PacketView) (raw : Bytes) (sender : SocketAddr) :
    TwinResults X Y (s.antiReplay view raw sender) (t.antiReplay view raw sender) := by
  obtain ⟨c, l, k, hk, rfl⟩ := h
  have hmark (m : Mark) : m :: s.history.marked = (m :: k) ++ X := by
    rw [hk, List.cons_append]
  unfold Session.antiReplay
  dsimp only
  split
  · exact ⟨rfl, _, _, _, hk, rfl⟩
  · split
    · exact ⟨rfl, _, _, _, hmark _, rfl⟩
    · exact ⟨rfl, _, _, _, hmark _, rfl⟩

theorem acceptPacket (h : Twins X Y s t) (view : PacketView) (raw : Bytes)
    (sender : SocketAddr) :
    TwinResults X Y (s.acceptPacket C env view raw sender)
      (t.acceptPacket C env view raw sender) := by
  unfold Session.acceptPacket
  obtain ⟨r, u, v, hs, ht, hasked⟩ :=
    ((h.see sender env.now).antiReplay view raw sender).both
  rw [hs, ht]
  cases r with
  | false => exact ⟨rfl, hasked⟩
  | true => exact hasked.handlePacket C env view raw sender

theorem dispatchPacket (h : Twins X Y s t) (view : PacketView) (raw : Bytes)
    (sender : SocketAddr) :
    TwinResults X Y (s.dispatchPacket C env view raw sender)
      (t.dispatchPacket C env view raw sender) := by
  unfold Session.dispatchPacket
  rw [h.peers]
  split
  · exact h.acceptPacket C env view raw sender
  · obtain ⟨r, u, v, hs, ht, hmoved⟩ := (h.tryMigrate C env view raw sender).both
    rw [hs, ht]
    cases r with
    | false => exact ⟨rfl, hmoved⟩
    | true => exact hmoved.acceptPacket C env view raw sender

theorem recvDatagram (h : Twins X Y s t) (raw : Bytes) (sender : SocketAddr)
    (hsilent : Message.decode raw = some (s.roomKey C, .punchAck s.settings.probeNonce) →
      silentFor env.now t.live.lastRx = silentFor env.now s.live.lastRx) :
    TwinResults X Y (s.recvDatagram C env raw sender) (t.recvDatagram C env raw sender) := by
  have hrecv := h.recordReceived raw.length
  have hheard := hrecv.heard env
  unfold Session.recvDatagram
  dsimp only
  split
  · exact ⟨rfl, hrecv.onRendezvous C env raw sender fun hmsg =>
      hrecv.silentFor_pathIsStale (hsilent hmsg)⟩
  · split
    · exact ⟨rfl, hrecv.recordIntegrityError⟩
    · rename_i view _
      rw [hheard.peekNewPeer]
      split
      · exact ⟨rfl, hheard.beginJoin C env sender _⟩
      · exact ⟨rfl, hheard⟩
      · obtain ⟨r, u, v, hs, ht, hjoin⟩ := (hheard.finishJoin env view sender).both
        rw [hs, ht]
        cases r with
        | true => exact ⟨rfl, hjoin⟩
        | false =>
          have hdispatch := hjoin.dispatchPacket C env view raw sender
          exact ⟨congrArg Followup.done hdispatch.1, hdispatch.2⟩

theorem pollDatagram (h : Twins X Y s t) (raw : Bytes) (sender : SocketAddr) :
    TwinResults X Y (s.pollDatagram C env raw sender) (t.pollDatagram C env raw sender) := by
  have hrecv := h.recordReceived raw.length
  have hheard := hrecv.heard env
  unfold Session.pollDatagram
  dsimp only
  split
  · exact ⟨rfl, hrecv.recordIntegrityError⟩
  · rename_i view _
    rw [hheard.peekNewPeer]
    split
    · exact ⟨rfl, hheard⟩
    · have hdispatch := hheard.dispatchPacket C env view raw sender
      exact ⟨congrArg Followup.done hdispatch.1, hdispatch.2⟩

theorem checkLiveness (h : Twins X Y s t)
    (hexpired : t.heartbeatExpired env = s.heartbeatExpired env) :
    TwinResults X Y (s.checkLiveness env) (t.checkLiveness env) := by
  unfold Session.checkLiveness
  rw [hexpired]
  split
  · exact ⟨rfl, h.transition _⟩
  · obtain ⟨c, l, k, hk, rfl⟩ := h
    exact ⟨rfl, _, _, _, hk, rfl⟩

theorem pollTimeout (h : Twins X Y s t)
    (hexpired : s.status.state = .active ∨ s.status.state = .paused →
      t.heartbeatExpired env = s.heartbeatExpired env) :
    TwinResults X Y (s.pollTimeout env) (t.pollTimeout env) := by
  have hbeat (s : Session cfg) :
      (s.sendHeartbeat env).heartbeatExpired env = s.heartbeatExpired env := by
    unfold Session.heartbeatExpired
    rw [(sendsOnly_sendHeartbeat env s).live]
  unfold Session.pollTimeout
  rw [h.status]
  split
  · rename_i hstate
    refine (h.sendHeartbeat env).checkLiveness env ?_
    rw [hbeat, hbeat, hexpired hstate]
  · exact ⟨rfl, h⟩

theorem setMedia (h : Twins X Y s t) (f : Media cfg → Media cfg) :
    Twins X Y { s with media := f s.media } { t with media := f t.media } := by
  obtain ⟨c, l, k, hk, rfl⟩ := h
  exact ⟨_, _, _, hk, rfl⟩

/-- What a turn does about a frame that is missing. -/
theorem giveUp (h : Twins X Y s t) :
    TwinResults X Y
      (if !s.media.jitter.hasPending then ((none : Option Frame), { s with media.gapSince := 0 })
        else if s.media.gapSince = 0 then (none, { s with media.gapSince := max env.now 1 })
        else if cfg.jitterBufferMs.toNat * 1000 ≤ env.now - s.media.gapSince then
          (none, { s with media := { s.media with
            jitter := s.media.jitter.skipToAvailable
            gapSince := 0 } })
        else (none, s))
      (if !t.media.jitter.hasPending then (none, { t with media.gapSince := 0 })
        else if t.media.gapSince = 0 then (none, { t with media.gapSince := max env.now 1 })
        else if cfg.jitterBufferMs.toNat * 1000 ≤ env.now - t.media.gapSince then
          (none, { t with media := { t.media with
            jitter := t.media.jitter.skipToAvailable
            gapSince := 0 } })
        else (none, t)) := by
  obtain ⟨c, l, k, hk, rfl⟩ := h
  dsimp only
  split_ifs
  · exact ⟨rfl, _, _, _, hk, rfl⟩
  · exact ⟨rfl, _, _, _, hk, rfl⟩
  · exact ⟨rfl, _, _, _, hk, rfl⟩
  · exact ⟨rfl, _, _, _, hk, rfl⟩

theorem turn (h : Twins X Y s t)
    (hsilent : silentFor env.now t.live.lastRx = silentFor env.now s.live.lastRx)
    (hgone : s.settings.multiPeer = true → t.gonePeers env = s.gonePeers env) :
    TwinResults X Y (s.turn C env) (t.turn C env) := by
  have hpop : t.media.jitter.pop = s.media.jitter.pop := by rw [h.media]
  unfold Session.turn
  rw [hpop]
  cases s.media.jitter.pop with
  | mk frame jitter =>
    cases frame with
    | some frame =>
      exact ⟨rfl, h.setMedia fun m => { m with jitter := jitter, gapSince := 0 }⟩
    | none =>
      have hset := h.setMedia fun m => { m with jitter := jitter }
      exact (hset.maintainPath C env hsilent hgone).giveUp env

theorem close (h : Twins X Y s t) : Twins X Y (s.close env) (t.close env) := by
  have hsend {u v : Session cfg} (h : Twins X Y u v) :
      Twins X Y
        (u.peers.book.all.foldl
          (fun s' peer => (s'.sendControl env .close u.status.sessionId [] peer).2) u)
        (v.peers.book.all.foldl
          (fun s' peer => (s'.sendControl env .close v.status.sessionId [] peer).2) v) := by
    rw [h.peers, h.status]
    exact foldl (fun peer _ _ h => (h.sendControl env _ _ _ peer).2) _ h
  have hclear {u v : Session cfg} (h : Twins X Y u v) :
      Twins X Y { u with peers := { u.peers with book := u.peers.book.clear, replayByPeer := ∅ } }
        { v with peers := { v.peers with book := v.peers.book.clear, replayByPeer := ∅ } } := by
    obtain ⟨c, l, k, hk, rfl⟩ := h
    exact ⟨_, _, _, hk, rfl⟩
  have hshut : Twins X Y
      { s with
        status.closed := true
        peers := { s.peers with encryptKey := none, decryptKey := none } }
      { t with
        status.closed := true
        peers := { t.peers with encryptKey := none, decryptKey := none } } := by
    obtain ⟨c, l, k, hk, rfl⟩ := h
    exact ⟨_, _, _, hk, rfl⟩
  exact hclear (((hsend hshut).transition .close).transition .close)

theorem wiped (h : Twins X Y s t) : Twins X Y s.wiped t.wiped := by
  obtain ⟨c, l, k, hk, rfl⟩ := h
  exact ⟨_, _, _, hk, rfl⟩

theorem reopen (h : Twins X Y s t) : TwinResults X Y s.reopen t.reopen := by
  have hwiped := h.wiped
  unfold Session.reopen
  dsimp only
  rw [h.status, hwiped.status]
  split
  · exact ⟨rfl, h⟩
  · split
    · exact ⟨rfl, hwiped⟩
    · rename_i state _
      have hset := hwiped.setStatus fun st => { st with state := state, closed := false }
      rw [hwiped.status] at hset
      exact ⟨rfl, hset⟩

theorem setSettings (h : Twins X Y s t) (f : Settings → Settings) :
    Twins X Y { s with settings := f s.settings } { t with settings := f t.settings } := by
  obtain ⟨c, l, k, hk, rfl⟩ := h
  exact ⟨_, _, _, hk, rfl⟩

end Twins

end Session
end GravitalTalk
