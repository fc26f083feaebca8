import GravitalTalk.Session.Tables

/-!
# Who is in the room

Which task is waiting decides how the tables of the peers hang together. A
handshake that makes the session active starts from empty tables. An admission
to an active session leaves them alone until the keys are stored, and they fit
together afterwards if the newcomer is in the book by then.
-/
namespace GravitalTalk

namespace SessionState

/-- Neither at the start nor in use. -/
def Offline (a : SessionState) : Prop := a ≠ idle ∧ a ≠ reconnecting ∧ a ≠ active

instance (a : SessionState) : Decidable a.Offline := inferInstanceAs (Decidable (_ ∧ _))

variable {a b : SessionState}

theorem Offline.next (h : a.Offline) {e : SessionEvent} (hok : e ≠ .handshakeOk)
    (hresume : e ≠ .resume) (hreconnect : e ≠ .reconnect) : (a.next e).Offline := by
  cases a <;> cases e <;> simp_all [Offline, SessionState.next, transition]

theorem Offline.retry (h : a.Offline) :
    (((a.next .handshakeTimeout).next .reconnect).next .startAccept).Offline := by
  cases a <;> simp_all [Offline, SessionState.next, transition]

theorem Offline.ok (h : a.Offline) (hno : a ≠ handshaking) : (a.next .handshakeOk).Offline := by
  cases a <;> simp_all [Offline, SessionState.next, transition]

theorem Offline.sinks (h : a.Offline) (hab : a.Sinks b) : b.Offline := by
  rcases hab with rfl | rfl | rfl
  · exact h
  · decide
  · decide

end SessionState

section Tasks

variable {C : Crypto}

/-- The end of such a handshake makes the session active. -/
def Caller.opens : Caller → Bool
  | .handshake | .acceptLoop => true
  | .additional | .promote => false

def Task.opens : Task C → Bool
  | .waitFirst caller .. | .legacyKe caller .. | .noiseKe caller .. => caller.opens
  | .helloSent .. | .noiseSent .. | .confirm .. => true
  | .idle => false

/-- The book while a session waits for its first peer. -/
def Task.awaits : Task C → List SocketAddr
  | .idle => []
  | .waitFirst _ expect .. => expect.toList
  | .legacyKe _ peer _ | .noiseKe _ peer _ | .helloSent peer .. | .noiseSent peer ..
  | .confirm peer .. => [peer]

/-- The newcomer that is in the book while its handshake goes on. -/
def Task.promoted : Task C → Option SocketAddr
  | .legacyKe .promote peer _ | .noiseKe .promote peer _ => some peer
  | _ => none

/-- Who waits for a first message from whom. -/
def Task.Sound : Task C → Prop
  | .waitFirst .handshake expect .. => ∃ peer, expect = some peer
  | .waitFirst .acceptLoop expect .. | .waitFirst .additional expect .. => expect = none
  | .waitFirst .promote .. => False
  | _ => True

end Tasks

namespace Machine

open Session Relation Run

variable {cfg : Config} {C : Crypto} {env : Env} {i : Arrival} {s₀ s t : Session cfg}
  {mid : Option SocketAddr}

/-- A session on its way to its first peer. -/
structure Opens (book : List SocketAddr) (s : Session cfg) : Prop where
  unkeyed : Unkeyed s
  book : s.status.state = .handshaking → s.peers.book.peers = book
  offline : s.status.state.Offline

/-- A session that was started; while it is active its tables are linked. -/
structure Runs (mid : Option SocketAddr) (s : Session cfg) : Prop where
  started : s.status.state ≠ .idle ∧ s.status.state ≠ .reconnecting
  linked : s.status.state = .active → Linked mid s

structure Consistent (m : Machine C cfg) : Prop where
  sound : m.task.Sound
  opens : m.task.opens = true → Opens m.task.awaits m.session
  fresh : m.session.status.state = .idle ∨ m.session.status.state = .reconnecting →
    m.task = .idle ∧ Blank m.session
  active : m.session.status.state = .active → Linked m.task.promoted m.session

theorem Opens.consistent {task : Task C} (h : Opens task.awaits s) (hsound : task.Sound) :
    Consistent ⟨s, task⟩ := by
  refine ⟨hsound, fun _ => h, fun hfresh => ?_, fun hactive => absurd hactive h.offline.2.2⟩
  rcases hfresh with hidle | hre
  · exact absurd hidle h.offline.1
  · exact absurd hre h.offline.2.1

theorem Runs.consistent {task : Task C} (h : Runs task.promoted s) (hopens : task.opens = false)
    (hsound : task.Sound) : Consistent ⟨s, task⟩ := by
  refine ⟨hsound, fun ho => ?_, fun hfresh => ?_, h.linked⟩
  · rw [hopens] at ho
    cases ho
  · rcases hfresh with hidle | hre
    · exact absurd hidle h.started.1
    · exact absurd hre h.started.2

theorem Runs.rest (C : Crypto) (h : Runs none s) : Consistent (rest C s) := by
  have hidle : Runs (Task.promoted (.idle : Task C)) s := h
  exact hidle.consistent rfl trivial

theorem runs_of_offline (h : s.status.state.Offline) : Runs mid s :=
  ⟨⟨h.1, h.2.1⟩, fun hactive => absurd hactive h.2.2⟩

theorem Opens.of_eq {book : List SocketAddr} (h : Opens book s) (hpeers : t.peers = s.peers)
    (hseen : t.live.peerSeen = s.live.peerSeen) (hstate : t.status.state = s.status.state) :
    Opens book t := by
  refine ⟨⟨?_, hseen.trans h.unkeyed.seen, ?_⟩, fun hhand => ?_, ?_⟩
  · rw [hpeers]
    exact h.unkeyed.keys
  · rw [hpeers]
    exact h.unkeyed.windows
  · rw [hpeers]
    exact h.book (hstate ▸ hhand)
  · rw [hstate]
    exact h.offline

theorem Opens.steady {book : List SocketAddr} (h : Opens book s) (hs : Steady s t) :
    Opens book t := h.of_eq hs.calm.peers hs.calm.peerSeen hs.state

theorem Runs.of_eq (h : Runs mid s) (hpeers : t.peers = s.peers)
    (hseen : t.live.peerSeen = s.live.peerSeen) (hstate : t.status.state = s.status.state) :
    Runs mid t := by
  refine ⟨by rw [hstate]; exact h.started, fun hactive => ?_⟩
  exact (h.linked (hstate ▸ hactive)).of_eq hpeers hseen

theorem Runs.steady (h : Runs mid s) (hs : Steady s t) : Runs mid t :=
  h.of_eq hs.calm.peers hs.calm.peerSeen hs.state

/-- An active session that receives something keeps its tables linked. -/
theorem Runs.rx (h : Runs none s) (hrx : RxEffects C env i s s t) : Runs none t := by
  have hstate := hrx.keeps.state
  refine ⟨?_, fun hactive => ?_⟩
  · rcases hstate with hsame | hsink | hsink
    · rw [hsame]
      exact h.started
    · rw [hsink]
      decide
    · rw [hsink]
      decide
  · refine (h.linked ?_).rx hrx
    rcases hstate with hsame | hsink | hsink
    · rw [← hsame, hactive]
    · rw [hactive] at hsink
      cases hsink
    · rw [hactive] at hsink
      cases hsink

theorem Opens.rx (hi : ∀ sender raw, i ≠ .loop sender raw) (h : Opens [] s)
    (hrx : RxEffects C env i s s t) : Opens [] t := by
  obtain ⟨hu, hbook⟩ := h.unkeyed.rx hi hrx
  have hstate := hrx.keeps.state
  refine ⟨hu, fun hhand => hbook (h.book ?_), h.offline.sinks hstate⟩
  rcases hstate with hsame | hsink | hsink
  · rw [← hsame, hhand]
  · rw [hhand] at hsink
    cases hsink
  · rw [hhand] at hsink
    cases hsink

/-! ## Server -/

/-- How a session must be while a server-side handshake with `peer` goes on. -/
def Hosts (peer : Option SocketAddr) (s : Session cfg) : Caller → Prop
  | .handshake | .acceptLoop => Opens peer.toList s
  | .additional => Runs none s
  | .promote => Runs peer s

variable {peer : SocketAddr} {caller : Caller}

theorem Hosts.steady {peer : Option SocketAddr} (h : Hosts peer s caller) (hs : Steady s t) :
    Hosts peer t caller := by
  cases caller with
  | handshake => exact Opens.steady h hs
  | acceptLoop => exact Opens.steady h hs
  | additional => exact Runs.steady h hs
  | promote => exact Runs.steady h hs

theorem Hosts.legacyKe (h : Hosts (some peer) s caller) (wait : LegacyWait) :
    Consistent (⟨s, .legacyKe caller peer wait⟩ : Machine C cfg) := by
  cases caller with
  | handshake => exact Opens.consistent h trivial
  | acceptLoop => exact Opens.consistent h trivial
  | additional => exact Runs.consistent h rfl trivial
  | promote => exact Runs.consistent h rfl trivial

theorem Hosts.noiseKe (h : Hosts (some peer) s caller) (pending : PendingJoin) :
    Consistent (⟨s, .noiseKe caller peer pending⟩ : Machine C cfg) := by
  cases caller with
  | handshake => exact Opens.consistent h trivial
  | acceptLoop => exact Opens.consistent h trivial
  | additional => exact Runs.consistent h rfl trivial
  | promote => exact Runs.consistent h rfl trivial

/-- A session that goes offline may be in any order. -/
theorem consistent_transition {book : List SocketAddr} (C : Crypto) (h : Opens book s)
    {e : SessionEvent} (hok : e ≠ .handshakeOk) (hresume : e ≠ .resume)
    (hreconnect : e ≠ .reconnect) : Consistent (rest C (s.transition e)) :=
  Runs.rest C (runs_of_offline (h.offline.next hok hresume hreconnect))

theorem Opens.waitHead (C : Crypto) (env : Env) {expect : Option SocketAddr}
    (h : Opens expect.toList s) {caller : Caller} (noise legacy : Bool) (cycle next : ℕ)
    (hsound : (Task.waitFirst caller expect noise legacy cycle next : Task C).Sound) :
    Consistent (waitHead C env caller expect noise legacy cycle next s) := by
  unfold Machine.waitHead
  split_ifs
  · refine Opens.consistent (h.steady (sendsOnly_announce C env cycle s).steady) ?_
    cases caller <;> exact hsound
  · exact Opens.consistent h hsound

theorem Runs.waitHead (C : Crypto) (env : Env) (h : Runs none s) (noise legacy : Bool)
    (cycle next : ℕ) :
    Consistent (Machine.waitHead C env .additional none noise legacy cycle next s) := by
  unfold Machine.waitHead
  split_ifs
  · exact Runs.consistent (h.steady (sendsOnly_announce C env cycle s).steady) rfl rfl
  · exact Runs.consistent h rfl rfl

theorem Opens.retryAccept (C : Crypto) (env : Env) {book : List SocketAddr} (h : Opens book s) :
    Consistent (retryAccept C env s) := by
  let cleared : Session cfg := { ((s.transition .handshakeTimeout).transition
    .reconnect).transition .startAccept with peers := s.peers.clearBook }
  have hcleared : Opens (none : Option SocketAddr).toList cleared :=
    ⟨⟨h.unkeyed.keys, h.unkeyed.seen, h.unkeyed.windows⟩, fun _ => rfl, h.offline.retry⟩
  unfold Machine.retryAccept
  dsimp only
  split_ifs
  · exact consistent_transition C hcleared nofun nofun nofun
  · exact hcleared.waitHead C env _ _ _ _ rfl

/-- A handshake that fails leaves everything consistent. -/
theorem Hosts.failed (C : Crypto) (env : Env) {peer peer' : Option SocketAddr}
    (h : Hosts peer s caller) (hpeer : caller = .promote → peer' = peer) (e : TransportError) :
    Consistent (finished C env caller peer' (.error e) s) := by
  cases caller with
  | handshake => exact consistent_transition C h nofun nofun nofun
  | acceptLoop =>
    cases e with
    | peerClosed reason => exact consistent_transition C h nofun nofun nofun
    | _ => exact Opens.retryAccept C env h
  | additional => exact Runs.rest C h
  | promote =>
    obtain rfl := hpeer rfl
    cases peer' with
    | none => exact Runs.rest C h
    | some p =>
      have hruns : Runs (some p) s := h
      exact Runs.rest C ⟨hruns.started, fun hactive => (hruns.linked hactive).remove⟩

/-- Keys for the first peer make the session active. -/
theorem Opens.installed (h : Opens [peer] s) (env : Env) (enc dec : SessionKey) (C : Crypto) :
    Consistent (Machine.rest C ((s.installKeys env peer enc dec).transition .handshakeOk)) := by
  apply Runs.rest
  by_cases hhand : s.status.state = .handshaking
  · have hbook := h.book hhand
    have hmem (a : SocketAddr) : a ∈ s.peers.book.peers ↔ a = peer := by
      rw [hbook, List.mem_singleton]
    refine ⟨?_, fun _ => ⟨fun a ha => ?_, fun a ha => ?_, fun a ha => ?_, fun a ha => ?_, nofun⟩⟩
    · simp [Session.transition, installKeys, hhand, SessionState.next, SessionState.transition]
    · rcases Finmap.mem_insert.mp ha with rfl | ha
      · exact (hmem _).mpr rfl
      · rw [h.unkeyed.keys] at ha
        exact absurd ha Finmap.notMem_empty
    · rcases Finmap.mem_insert.mp ha with rfl | ha
      · exact (hmem _).mpr rfl
      · rw [h.unkeyed.seen] at ha
        exact absurd ha Finmap.notMem_empty
    · change a ∈ s.peers.replayByPeer at ha
      rw [h.unkeyed.windows] at ha
      exact absurd ha Finmap.notMem_empty
    · exact .inl (Finmap.mem_insert.mpr (.inl ((hmem a).mp ha)))
  · exact runs_of_offline (h.offline.ok hhand)

/-- Keys for a newcomer that is in the book. -/
theorem Hosts.admitted (C : Crypto) (env : Env) (h : Hosts (some peer) s caller)
    (hbook : s.status.state = .active → peer ∈ s.peers.book.peers) (enc dec : SessionKey) :
    Consistent (finished C env caller (some peer) (.ok ()) (s.installKeys env peer enc dec)) := by
  cases caller with
  | handshake => exact Opens.installed h env enc dec C
  | acceptLoop => exact Opens.installed h env enc dec C
  | additional =>
    have hruns : Runs none s := h
    exact Runs.rest C ⟨hruns.started, fun hactive =>
      (hruns.linked hactive).install env (hbook hactive) nofun enc dec⟩
  | promote =>
    have hruns : Runs (some peer) s := h
    exact Runs.rest C ⟨hruns.started, fun hactive =>
      (hruns.linked hactive).install env (hbook hactive) (fun a ha => (Option.some.inj ha).symm)
        enc dec⟩

theorem Hosts.unlessClosed (C : Crypto) (env : Env) (h : Hosts (some peer) s caller)
    {task : Task C} (htask : Consistent (⟨s, task⟩ : Machine C cfg)) :
    Consistent (unlessClosed C env caller (some peer) s task) := by
  unfold Machine.unlessClosed
  split_ifs
  · exact h.failed C env (fun _ => rfl) _
  · exact htask

theorem Hosts.beginNoise (C : Crypto) (env : Env) (h : Hosts (some peer) s caller)
    (msg1 : Bytes) : Consistent (beginNoise C env caller peer msg1 s) := by
  have hs := steady_noiseServerBegin C env msg1 s
  unfold Machine.beginNoise
  split
  · rename_i e t ht
    rw [ht] at hs
    exact (h.steady hs).failed C env (fun _ => rfl) e
  · rename_i p t ht
    rw [ht] at hs
    split
    · rename_i e u hu
      exact (h.steady (hs.trans (steady_of_sendControl hu))).failed C env (fun _ => rfl) e
    · rename_i u hu
      have hu' := h.steady (hs.trans (steady_of_sendControl hu))
      exact hu'.unlessClosed C env (hu'.noiseKe p)

theorem Hosts.beginLegacy (C : Crypto) (env : Env) (h : Hosts (some peer) s caller)
    (hello : ClientHello) : Consistent (beginLegacy C env caller peer hello s) := by
  have hs := steady_legacyServerBegin C env peer hello s
  unfold Machine.beginLegacy
  split
  · rename_i e t ht
    rw [ht] at hs
    exact (h.steady hs).failed C env (fun _ => rfl) e
  · rename_i w t ht
    rw [ht] at hs
    exact (h.steady hs).unlessClosed C env ((h.steady hs).legacyKe w)

theorem Hosts.beginServer (C : Crypto) (env : Env) (h : Hosts (some peer) s caller)
    (first : FirstHandshake) : Consistent (beginServer C env caller peer s first) := by
  cases first with
  | noise msg1 => exact h.beginNoise C env msg1
  | legacy hello => exact h.beginLegacy C env hello

/-- A waiting server and the session it is in. -/
theorem Consistent.hosts {expect : Option SocketAddr} {noise legacy : Bool} {cycle next : ℕ}
    (h : Consistent (⟨s, .waitFirst caller expect noise legacy cycle next⟩ : Machine C cfg)) :
    Hosts expect s caller := by
  cases caller with
  | handshake => exact h.opens rfl
  | acceptLoop => exact h.opens rfl
  | additional =>
    refine ⟨?_, h.active⟩
    constructor
    · intro hidle
      exact nomatch (h.fresh (.inl hidle)).1
    · intro hre
      exact nomatch (h.fresh (.inr hre)).1
  | promote => exact h.sound.elim

/-- The greeting comes from the peer that is expected, or nobody was. -/
theorem hearFirst_some {expect : Option SocketAddr} {noise legacy : Bool} {sender : SocketAddr}
    {raw : Bytes} {first : FirstHandshake}
    (h : (hearFirst C env expect noise legacy sender raw s).1 = some first) :
    (hearFirst C env expect noise legacy sender raw s).2 = s ∧
      (expect = none ∨ expect = some sender) := by
  unfold hearFirst at h ⊢
  split at h
  · cases h
  · rename_i hrv
    rw [if_neg hrv]
    split at h
    · cases h
    · rename_i hexpect
      rw [if_neg hexpect]
      split at h
      · cases h
      · refine ⟨rfl, ?_⟩
        cases expect with
        | none => exact .inl rfl
        | some p =>
          right
          by_contra hne
          exact hexpect ⟨rfl, hne⟩

/-- An opening wait hears of rendezvous only. -/
theorem rx_hearFirst (C : Crypto) (env : Env) (expect : Option SocketAddr) (noise legacy : Bool)
    (sender : SocketAddr) (raw : Bytes) (s : Session cfg) :
    (hearFirst C env expect noise legacy sender raw s).2 = s ∨
      expect = none ∧ RxEffects C env (.handshake sender raw) s s
        (hearFirst C env expect noise legacy sender raw s).2 := by
  unfold hearFirst
  split
  · cases expect with
    | none => exact .inr ⟨rfl, rx_onRendezvous rfl (.refl s)⟩
    | some p => exact .inl rfl
  · split
    · exact .inl rfl
    · split
      · exact .inl rfl
      · exact .inl rfl

theorem consistent_onWaitFirst {expect : Option SocketAddr} {noise legacy : Bool}
    {cycle next : ℕ}
    (h : Consistent (⟨s, .waitFirst caller expect noise legacy cycle next⟩ : Machine C cfg))
    (input : Input) :
    Consistent (onWaitFirst C env caller expect noise legacy cycle next input s) := by
  have hno : caller ≠ .promote := fun he => by
    subst he
    exact h.sound
  have hagain {t : Session cfg} (ht : Hosts expect t caller) : Consistent (if t.status.closed then
      Machine.finished C env caller none (.error (.peerClosed "session closed")) t
      else Machine.waitHead C env caller expect noise legacy cycle next t) := by
    split_ifs
    · exact ht.failed C env (fun he => absurd he hno) _
    · have hsound := h.sound
      cases caller with
      | handshake => exact Opens.waitHead C env ht _ _ _ _ hsound
      | acceptLoop => exact Opens.waitHead C env ht _ _ _ _ hsound
      | additional =>
        obtain rfl : expect = none := hsound
        exact Runs.waitHead C env ht _ _ _ _
      | promote => exact absurd rfl hno
  unfold Machine.onWaitFirst
  dsimp only
  split
  · rename_i sender raw
    split
    · rename_i t ht
      apply hagain
      rcases rx_hearFirst C env expect noise legacy sender raw s with heq | ⟨rfl, hrx⟩
      · rw [ht] at heq
        obtain rfl : t = s := heq
        exact h.hosts
      · rw [ht] at hrx
        have hosts := h.hosts
        cases caller with
        | handshake =>
          obtain ⟨p, hp⟩ := h.sound
          cases hp
        | acceptLoop => exact Opens.rx (i := .handshake sender raw) nofun hosts hrx
        | additional => exact Runs.rx hosts hrx
        | promote => exact absurd rfl hno
    · rename_i first t ht
      have hfirst : (hearFirst C env expect noise legacy sender raw s).1 = some first := by rw [ht]
      obtain ⟨heq, hexpect⟩ := hearFirst_some hfirst
      rw [ht] at heq
      obtain rfl : t = s := heq
      have hosts := h.hosts
      apply Hosts.beginServer
      cases caller with
      | handshake =>
        obtain ⟨p, rfl⟩ := h.sound
        obtain rfl : p = sender := Option.some.inj (hexpect.resolve_left nofun)
        exact hosts
      | acceptLoop =>
        obtain rfl : expect = none := h.sound
        have hopens : Opens [] t := hosts
        refine ⟨⟨hopens.unkeyed.keys, hopens.unkeyed.seen, hopens.unkeyed.windows⟩,
          fun hhand => ?_, hopens.offline⟩
        have hbook : t.peers.book.peers = [] := hopens.book hhand
        change (t.peers.book.insert sender).peers = [sender]
        unfold AddressBook.insert
        rw [dif_neg (by simp [hbook, maxPeers])]
        simp [hbook]
      | additional => exact hosts
      | promote => exact absurd rfl hno
  · exact hagain h.hosts
  · exact h.hosts.failed C env (fun he => absurd he hno) _
  · split_ifs
    · exact h.hosts.failed C env (fun he => absurd he hno) _
    · exact h

/-- The datagram is the answer that ends the wait of a server for `peer`. -/
def answered (peer : SocketAddr)
    (finish : KeyExchangeMsg → Session cfg → Except TransportError Unit × Session cfg)
    (sender : SocketAddr) (raw : Bytes) (s : Session cfg) : Bool :=
  match isReply peer .handshakeKeyExchange sender raw with
  | none => false
  | some view =>
    match TagMsg.decode view.payload with
    | .error _ => false
    | .ok ke => (finish ke s).1.isOk

theorem Hosts.onKeyExchange (C : Crypto) (env : Env) (h : Hosts (some peer) s caller)
    (greeting : MessageType)
    {resend : Session cfg → Except TransportError Unit × Session cfg}
    {finish : KeyExchangeMsg → Session cfg → Except TransportError Unit × Session cfg}
    {task : Task C} (input : Input)
    (htask : ∀ {t}, Hosts (some peer) t caller → Consistent (⟨t, task⟩ : Machine C cfg))
    (hresend : ∀ {s r t}, resend s = (r, t) → Steady s t)
    {enc dec : SessionKey} (hfinish : ∀ ke s, Settles env peer enc dec s (finish ke s))
    (hbook : s.status.state = .active → ∀ sender raw, input = .datagram sender raw →
      answered peer finish sender raw s = true → peer ∈ s.peers.book.peers) :
    Consistent (onKeyExchange C env caller peer greeting resend finish task input s) := by
  have hwait {t : Session cfg} (ht : Hosts (some peer) t caller) :
      Consistent (Machine.unlessClosed C env caller (some peer) t task) :=
    ht.unlessClosed C env (htask ht)
  unfold Machine.onKeyExchange
  split
  · rename_i sender raw
    split
    · split
      · rename_i e t ht
        exact (h.steady (hresend ht)).failed C env (fun _ => rfl) e
      · rename_i t ht
        exact hwait (h.steady (hresend ht))
    · split
      · exact hwait h
      · rename_i view hview
        split
        · exact h.failed C env (fun _ => rfl) _
        · rename_i ke hke
          dsimp only
          rcases hfinish ke s with ⟨e, he, hs⟩ | ⟨hok, t, hs, ht⟩
          · rw [he]
            exact (h.steady hs).failed C env (fun _ => rfl) e
          · rw [hok, ht]
            refine (h.steady hs).admitted C env (fun hactive => ?_) enc dec
            rw [hs.calm.peers]
            refine hbook (hs.state ▸ hactive) sender raw rfl ?_
            simp only [answered, hview, hke, hok]
            rfl
  · exact hwait h
  · exact h.failed C env (fun _ => rfl) _
  · split_ifs
    · exact h.failed C env (fun _ => rfl) _
    · exact htask h

/-! ## Client -/

theorem Opens.clientFailed (C : Crypto) {book : List SocketAddr} (h : Opens book s)
    (e : TransportError) : Consistent (clientEnded C (.error e) s) :=
  consistent_transition C h nofun nofun nofun

theorem Opens.sendHello (C : Crypto) (env : Env) (h : Opens [peer] s) (wait : HelloWait)
    (attempt : ℕ) : Consistent (sendHello C env peer wait attempt s) := by
  unfold Machine.sendHello
  split
  · rename_i e t ht
    exact (h.steady (steady_of_sendControl ht)).clientFailed C e
  · rename_i t ht
    exact Opens.consistent (h.steady (steady_of_sendControl ht)) trivial

theorem Opens.noiseEnded (C : Crypto) (env : Env) (h : Opens [peer] s) (fallback : Bool)
    (e : TransportError) : Consistent (noiseEnded C env peer fallback e s) := by
  unfold Machine.noiseEnded
  split_ifs
  · exact h.sendHello C env _ _
  · exact h.clientFailed C e

theorem Opens.sendNoise (C : Crypto) (env : Env) (h : Opens [peer] s) (fallback : Bool)
    (hs : C.Noise) (nonce : Vector UInt8 32) (sid : UInt32) (msg1 : Bytes) (attempt : ℕ) :
    Consistent (sendNoise C env peer fallback hs nonce sid msg1 attempt s) := by
  unfold Machine.sendNoise
  split_ifs
  · exact h.clientFailed C _
  · exact h.noiseEnded C env _ _
  · split
    · rename_i e t ht
      exact (h.steady (steady_of_sendControl ht)).noiseEnded C env _ e
    · rename_i t ht
      exact Opens.consistent (h.steady (steady_of_sendControl ht)) trivial

theorem Opens.startClient (C : Crypto) (env : Env) (h : Opens [peer] s) :
    Consistent (startClient C env peer s) := by
  have hnoise (fallback : Bool) : Consistent (startNoiseClient C env peer fallback s) := by
    unfold startNoiseClient
    split
    · exact h.noiseEnded C env _ _
    · exact h.sendNoise C env _ _ _ _ _ _
  unfold Machine.startClient
  split
  · exact h.sendHello C env _ _
  · exact hnoise _
  · exact hnoise _

theorem Opens.onHelloSent (C : Crypto) (env : Env) (h : Opens [peer] s) (wait : HelloWait)
    (attempt : ℕ) (input : Input) :
    Consistent (onHelloSent C env peer wait attempt input s) := by
  unfold Machine.onHelloSent
  split
  · split
    · exact Opens.consistent h trivial
    · rename_i view _
      have hs := steady_clientAnswer C env peer wait view.payload s
      split
      · rename_i e t ht
        rw [ht] at hs
        exact (h.steady hs).clientFailed C e
      · rename_i w t ht
        rw [ht] at hs
        exact Opens.consistent (h.steady hs) trivial
  · split_ifs
    · exact h.clientFailed C _
    · exact h.sendHello C env _ _
  · exact h.clientFailed C _
  · exact h.clientFailed C _

theorem Opens.onNoiseSent (C : Crypto) (env : Env) (h : Opens [peer] s) (fallback : Bool)
    (hs : C.Noise) (nonce : Vector UInt8 32) (sid : UInt32) (msg1 : Bytes) (attempt : ℕ)
    (input : Input) :
    Consistent (onNoiseSent C env peer fallback hs nonce sid msg1 attempt input s) := by
  unfold Machine.onNoiseSent
  split
  · split
    · exact Opens.consistent h trivial
    · split
      · exact h.noiseEnded C env _ _
      · rename_i hs' _
        split
        · exact h.sendNoise C env _ _ _ _ _ _
        · rename_i hello2 _
          have hsteady := steady_noiseClientAnswer C env peer hs' nonce sid hello2 s
          split
          · rename_i e t ht
            rw [ht] at hsteady
            exact (h.steady hsteady).noiseEnded C env _ e
          · rename_i w t ht
            rw [ht] at hsteady
            exact Opens.consistent (h.steady hsteady) trivial
  · exact h.sendNoise C env _ _ _ _ _ _
  · exact h.noiseEnded C env _ _
  · exact h.noiseEnded C env _ _

theorem Opens.onConfirm (C : Crypto) (env : Env) (h : Opens [peer] s) (noise fallback : Bool)
    (wait : ConfirmWait) (input : Input) :
    Consistent (onConfirm C env peer noise fallback wait input s) := by
  have hfailed (e : TransportError) {t : Session cfg} (ht : Opens [peer] t) :
      Consistent (if noise then Machine.noiseEnded C env peer fallback e t
        else Machine.clientEnded C (.error e) t) := by
    split_ifs
    · exact ht.noiseEnded C env _ e
    · exact ht.clientFailed C e
  unfold Machine.onConfirm
  dsimp only
  split
  · split
    · exact Opens.consistent h trivial
    · rename_i view _
      have hsettles : Settles env peer wait.encKey wait.decKey s
          (if noise then s.noiseClientFinish C env peer wait view.payload
            else s.clientFinish C env peer wait view.payload) := by
        split_ifs
        · exact settles_noiseClientFinish C env peer wait _ s
        · exact settles_clientFinish C env peer wait _ s
      split
      · rename_i e t ht
        rw [ht] at hsettles
        rcases hsettles with ⟨_, -, hs⟩ | ⟨hok, -⟩
        · exact hfailed e (h.steady hs)
        · cases hok
      · rename_i t ht
        rw [ht] at hsettles
        rcases hsettles with ⟨_, herr, -⟩ | ⟨-, u, hs, hu⟩
        · cases herr
        · rw [show t = _ from hu]
          exact (h.steady hs).installed env _ _ C
  · exact Opens.consistent h trivial
  · exact hfailed _ h
  · exact hfailed _ h

/-! ## Calls and datagrams -/

theorem opens_of_blank (h : Blank s) (hpeers : t.peers = s.peers.insert peer)
    (hseen : t.live.peerSeen = s.live.peerSeen) (hstate : t.status.state.Offline) :
    Opens [peer] t := by
  have hunkeyed := h.unkeyed
  refine ⟨⟨?_, hseen.trans h.seen, ?_⟩, fun _ => ?_, hstate⟩
  · rw [hpeers]
    exact hunkeyed.keys
  · rw [hpeers]
    exact hunkeyed.windows
  · rw [hpeers, Peers.insert, h.peers]
    rfl

theorem startable {a b : SessionState} {e : SessionEvent}
    (h : a.transition e = some b) (he : e = .startConnect ∨ e = .startAccept) :
    (a = .idle ∨ a = .reconnecting) ∧ b.Offline := by
  rcases he with rfl | rfl
  · cases a <;> simp_all [SessionState.transition, SessionState.Offline] <;> subst h <;> simp
  · cases a <;> simp_all [SessionState.transition, SessionState.Offline] <;> subst h <;> simp

theorem not_startable {a : SessionState} {e : SessionEvent} (h : a.transition e = none)
    (he : e = .startConnect ∨ e = .startAccept) : a ≠ .idle ∧ a ≠ .reconnecting := by
  rcases he with rfl | rfl
  · cases a <;> simp_all [SessionState.transition]
  · cases a <;> simp_all [SessionState.transition]

theorem Consistent.runs (h : Consistent (Machine.rest C s)) (hstate : s.status.state ≠ .idle ∧
    s.status.state ≠ .reconnecting) : Runs none s := ⟨hstate, h.active⟩

theorem startEvent (role : SessionRole) :
    (match role with | .client => SessionEvent.startConnect | .server => .startAccept) =
        .startConnect ∨
      (match role with | .client => SessionEvent.startConnect | .server => .startAccept) =
        .startAccept := by
  cases role with
  | client => exact .inl rfl
  | server => exact .inr rfl

/-- A call that starts a handshake, or is refused and names somebody known. -/
theorem consistent_handshake (C : Crypto) (env : Env) (h : Consistent (Machine.rest C s))
    (role : SessionRole) (hknown : s.status.state = .active →
      peer ∈ s.peers.book.peers ∨ maxPeers ≤ s.peers.book.peers.length) :
    Consistent (handshake C env role peer s) := by
  unfold Machine.handshake
  dsimp only
  split
  · rename_i hnone
    have hruns := h.runs (not_startable hnone (startEvent role))
    refine Runs.rest C ⟨hruns.started, fun hactive => (hruns.linked hactive).of_eq ?_ rfl⟩
    change s.peers.insert peer = s.peers
    unfold Peers.insert AddressBook.insert
    rw [dif_pos (hknown hactive)]
  · rename_i state hsome
    obtain ⟨hold, hoffline⟩ := startable hsome (startEvent role)
    have hopens : Opens [peer] { s with peers := s.peers.insert peer, status.state := state } :=
      opens_of_blank (h.fresh hold).2 rfl rfl hoffline
    cases role with
    | client => exact hopens.startClient C env
    | server =>
      dsimp only
      split
      · rename_i e t ht
        have hs : Steady { s with peers := s.peers.insert peer, status.state := state } t := by
          split at ht
          · exact steady_of_sendControl ht
          · cases ht
        have hosts : Hosts (some peer) t .handshake := hopens.steady hs
        exact hosts.failed C env (by simp) e
      · rename_i t ht
        have hs : Steady { s with peers := s.peers.insert peer, status.state := state } t := by
          split at ht
          · exact steady_of_sendControl ht
          · cases ht
            rfl
        have hosts : Hosts (some peer) t .handshake := hopens.steady hs
        split
        · exact hosts.failed C env (by simp) _
        · exact Opens.waitHead C env hosts _ _ _ _ ⟨peer, rfl⟩

/-- A call that leaves the task, the tables and the lifecycle alone. -/
theorem Consistent.of_eq {m : Machine C cfg} (h : Consistent m)
    (hpeers : t.peers = m.session.peers) (hseen : t.live.peerSeen = m.session.live.peerSeen)
    (hpending : t.pendingJoins = m.session.pendingJoins)
    (hstate : t.status.state = m.session.status.state)
    (hsid : t.status.sessionId = m.session.status.sessionId) : Consistent ⟨t, m.task⟩ := by
  refine ⟨h.sound, fun ho => (h.opens ho).of_eq hpeers hseen hstate, fun hfresh => ?_,
    fun hactive => (h.active (hstate ▸ hactive)).of_eq hpeers hseen⟩
  change t.status.state = _ ∨ t.status.state = _ at hfresh
  rw [hstate] at hfresh
  obtain ⟨htask, hblank⟩ := h.fresh hfresh
  exact ⟨htask, hpeers.trans hblank.peers, hseen.trans hblank.seen,
    hpending.trans hblank.pendingJoins, hsid.trans hblank.sessionId⟩

theorem consistent_handshakeOpen (C : Crypto) (env : Env) (h : Consistent (Machine.rest C s)) :
    Consistent (handshakeOpen C env s) := by
  have harm := armRelay_eq C s
  unfold Machine.handshakeOpen
  generalize (armRelay C s).settings = settings at harm
  rw [harm]
  dsimp only
  split
  · rename_i hnone
    have hruns := h.runs (not_startable hnone (.inr rfl))
    exact Runs.rest C ⟨hruns.started, fun hactive => (hruns.linked hactive).of_eq rfl rfl⟩
  · rename_i state hsome
    obtain ⟨hold, hoffline⟩ := startable hsome (.inr rfl)
    have hblank : Blank s := (h.fresh hold).2
    have hopens : Opens (none : Option SocketAddr).toList
        { s with settings := settings, status.state := state } :=
      ⟨⟨hblank.unkeyed.keys, hblank.unkeyed.seen, hblank.unkeyed.windows⟩,
        fun _ => by rw [hblank.peers]; rfl, hoffline⟩
    split
    · exact consistent_transition C hopens (by simp) (by simp) (by simp)
    · exact hopens.waitHead C env _ _ _ _ rfl

theorem consistent_acceptAdditionalPeer (C : Crypto) (env : Env)
    (h : Consistent (Machine.rest C s)) : Consistent (acceptAdditionalPeer C env s) := by
  unfold Machine.acceptAdditionalPeer
  split_ifs with hcond
  · exact h
  · rw [not_or, not_not] at hcond
    refine Runs.waitHead C env (h.runs ?_) _ _ _ _
    rw [hcond.2]
    decide

/-- What the receive loop hears keeps a session consistent. -/
theorem Consistent.rx (h : Consistent (Machine.rest C s)) (hrx : RxEffects C env i s s t) :
    Consistent (Machine.rest C t) := by
  by_cases hstate : s.status.state = .idle ∨ s.status.state = .reconnecting
  · have hblank := (h.fresh hstate).2.rx hrx
    exact ⟨trivial, nofun, fun _ => ⟨rfl, hblank⟩, fun _ => hblank.linked⟩
  · exact Runs.rest C ((h.runs (not_or.mp hstate)).rx hrx)

/-- A session that greets or answers newcomers was started. -/
theorem Consistent.greets (h : Consistent (Machine.rest C s)) {view : PacketView}
    {sender : SocketAddr} {first : FirstHandshake}
    (hpeek : s.peekNewPeer view sender = some first) :
    Runs none s ∧ sender ∉ s.peers.book.peers := by
  unfold peekNewPeer at hpeek
  dsimp only at hpeek
  split_ifs at hpeek with hclosed htype hbook hsid hnoise
  all_goals
    rw [AddressBook.contains_iff] at hbook
    refine ⟨h.runs (not_or.mp fun hfresh => hsid ?_), hbook⟩
    exact (h.fresh hfresh).2.sessionId

theorem Runs.beginJoin (h : Runs none s) (C : Crypto) (env : Env) (sender : SocketAddr)
    (msg1 : Bytes) : Runs none (s.beginJoin C env sender msg1) := by
  have hretain : Runs none { s with
      pendingJoins := Table.retain
        (fun _ p => msSince env.now p.started < handshakeTimeoutMs) s.pendingJoins } :=
    h.of_eq rfl rfl rfl
  have hbegin := steady_noiseServerBegin C env msg1 { s with
      pendingJoins := Table.retain
        (fun _ p => msSince env.now p.started < handshakeTimeoutMs) s.pendingJoins }
  unfold Session.beginJoin
  dsimp only
  split
  · exact hretain.steady (sendsOnly_sendControl env _ _ _ _ _).steady
  · split_ifs
    · exact hretain
    · split
      · rename_i e t ht
        rw [ht] at hbegin
        exact hretain.steady hbegin
      · rename_i p t ht
        rw [ht] at hbegin
        have hadd : Runs none { t with pendingJoins := t.pendingJoins.insert sender p } :=
          (hretain.steady hbegin).of_eq rfl rfl rfl
        exact hadd.steady (sendsOnly_sendControl env _ _ _ _ _).steady

/-- The packet is the answer that ends an admission in progress. -/
def joins (env : Env) (view : PacketView) (sender : SocketAddr) (s : Session cfg) : Bool :=
  if view.header.msgType ≠ MessageType.handshakeKeyExchange.code then false
  else match s.pendingJoins.lookup sender with
    | none => false
    | some pending =>
      match TagMsg.decode view.payload with
      | .error _ => false
      | .ok ke => (noiseServerFinish env sender pending ke
          { s with pendingJoins := s.pendingJoins.erase sender }).1.isOk

/-- Keys are stored and their owner put in the book, where there is room. -/
theorem Runs.admitted (h : Runs none s) {sender : SocketAddr} (env : Env) (enc dec : SessionKey)
    (hroom : s.status.state = .active → sender ∈ s.peers.book.peers ∨
      s.peers.book.peers.length < maxPeers) :
    Runs none { s.installKeys env sender enc dec with
      peers := (s.installKeys env sender enc dec).peers.insert sender } := by
  refine ⟨h.started, fun hactive => ?_⟩
  have hlinked := h.linked hactive
  by_cases hin : sender ∈ s.peers.book.peers
  · have hsame : s.peers.book.insert sender = s.peers.book := by
      unfold AddressBook.insert
      rw [dif_pos (.inl hin)]
    refine (hlinked.install env hin nofun enc dec).of_eq ?_ rfl
    change { s.peers.install sender enc dec with book := s.peers.book.insert sender } = _
    rw [hsame]
    rfl
  · have hadd : sender ∈ (s.peers.book.insert sender).peers := by
      unfold AddressBook.insert
      rw [dif_neg (by
        rintro (hmem | hfull)
        · exact hin hmem
        · exact absurd ((hroom hactive).resolve_left hin) (Nat.not_lt.mpr hfull))]
      exact List.mem_append_right _ (List.mem_singleton_self sender)
    exact (hlinked.insert hin).install env hadd
      (fun a ha => (Option.some.inj ha).symm) enc dec

/-- An admission that ends stores keys, and there is room in the book. -/
theorem Runs.finishJoin (h : Runs none s) (env : Env) (view : PacketView) (sender : SocketAddr)
    (hroom : s.status.state = .active → joins env view sender s = true →
      sender ∈ s.peers.book.peers ∨ s.peers.book.peers.length < maxPeers) :
    Runs none (s.finishJoin env view sender).2 := by
  unfold Session.finishJoin
  split_ifs with htype
  · exact h
  · cases hpending : s.pendingJoins.lookup sender with
    | none => exact h
    | some pending =>
      have herase : Runs none { s with pendingJoins := s.pendingJoins.erase sender } :=
        h.of_eq rfl rfl rfl
      dsimp only
      cases hke : TagMsg.decode view.payload with
      | error e => exact herase
      | ok ke =>
        have hsettles := settles_noiseServerFinish env sender pending ke
          { s with pendingJoins := s.pendingJoins.erase sender }
        dsimp only
        split
        · rename_i e t ht
          rw [ht] at hsettles
          rcases hsettles with ⟨_, -, hs⟩ | ⟨hok, -⟩
          · exact herase.steady hs
          · cases hok
        · rename_i t ht
          rw [ht] at hsettles
          rcases hsettles with ⟨_, herr, -⟩ | ⟨-, u, hs, hu⟩
          · cases herr
          · rw [show t = _ from hu]
            refine (herase.steady hs).admitted env pending.encKey pending.decKey fun hactive => ?_
            rw [hs.calm.peers]
            refine hroom (hs.state ▸ hactive) ?_
            simp only [joins, htype, hpending, hke, ht, if_false]
            rfl

/-! ## The receive loops -/

theorem Consistent.dispatch (h : Consistent (Machine.rest C s)) {raw : Bytes}
    {sender : SocketAddr} {view : PacketView} (hq : Quiet s t)
    (hview : PacketView.decode raw = .ok view) :
    Consistent (Machine.rest C (t.dispatchPacket C env view raw sender).2) :=
  h.rx (i := .loop sender raw) (hq.rx.trans (rx_dispatchPacket hq hview))

theorem Consistent.quiet (h : Consistent (Machine.rest C s)) (env : Env) (hq : Quiet s t) :
    Consistent (Machine.rest C t) := by
  have hrx : RxEffects C env .none s s t := hq.rx
  exact h.rx hrx

theorem Consistent.greeted (h : Consistent (Machine.rest C s)) (env : Env) (hq : Quiet s t)
    {view : PacketView} {sender : SocketAddr} {first : FirstHandshake}
    (hpeek : t.peekNewPeer view sender = some first) :
    Runs none t ∧ sender ∉ t.peers.book.peers :=
  (h.quiet env hq).greets hpeek

/-- The newcomer is put in the book, and its handshake begins. -/
theorem consistent_promotePeer (h : Runs none s) {sender : SocketAddr}
    (hnew : sender ∉ s.peers.book.peers) (C : Crypto) (env : Env) (first : FirstHandshake) :
    Consistent (promotePeer C env sender first s) := by
  have hosts : Hosts (some sender) { s with peers := s.peers.insert sender } .promote :=
    ⟨h.started, fun hactive => (h.linked hactive).insert hnew⟩
  exact hosts.beginServer C env first

theorem consistent_finishJoin (h : Consistent (Machine.rest C s)) (env : Env) (view : PacketView)
    (sender : SocketAddr) (hroom : s.status.state = .active → joins env view sender s = true →
      sender ∈ s.peers.book.peers ∨ s.peers.book.peers.length < maxPeers) :
    Consistent (Machine.rest C (s.finishJoin env view sender).2) := by
  by_cases hstate : s.status.state = .idle ∨ s.status.state = .reconnecting
  · have hpending : s.pendingJoins = ∅ := (h.fresh hstate).2.pendingJoins
    have hsame : (s.finishJoin env view sender).2 = s := by
      unfold Session.finishJoin
      split_ifs
      · rfl
      · simp only [hpending, Finmap.lookup_empty]
    rw [hsame]
    exact h
  · exact Runs.rest C ((h.runs (not_or.mp hstate)).finishJoin env view sender hroom)

/-- What `recv_audio` has noted when it comes to look at a valid packet. -/
theorem quiet_received (env : Env) (bytes : ℕ) (s : Session cfg) :
    Quiet s ((s.recordReceived bytes).heard env) := .of_eq rfl rfl rfl rfl rfl

theorem consistent_recv (h : Consistent (Machine.rest C s)) (env : Env) {raw : Bytes}
    {sender : SocketAddr} (hroom : s.status.state = .active → ∀ view,
      PacketView.decode raw = .ok view →
      joins env view sender ((s.recordReceived raw.length).heard env) = true →
      sender ∈ s.peers.book.peers ∨ s.peers.book.peers.length < maxPeers) :
    Consistent (afterDatagram C env sender (s.recvDatagram C env raw sender)) := by
  have hq := quiet_received env raw.length s
  have hcount : SendsOnly s (s.recordReceived raw.length) := .of_eq rfl rfl rfl rfl rfl
  unfold Session.recvDatagram
  dsimp only
  split
  · exact h.rx (i := .loop sender raw) (hcount.quiet.rx.trans (rx_onRendezvous rfl hcount))
  · split
    · exact h.quiet env (hcount.quiet.trans (.of_eq rfl rfl rfl rfl rfl))
    · rename_i view hview
      split
      · rename_i msg1 hpeek
        exact Runs.rest C ((h.greeted env hq hpeek).1.beginJoin C env sender msg1)
      · rename_i first _ hpeek
        obtain ⟨hruns, hnew⟩ := h.greeted env hq hpeek
        exact consistent_promotePeer hruns hnew C env first
      · have hjoin := consistent_finishJoin (h.quiet env hq) env view sender fun hactive hjoins =>
          hroom hactive view hview hjoins
        split
        · rename_i t ht
          rw [ht] at hjoin
          exact hjoin
        · rename_i t ht
          obtain rfl := eq_of_finishJoin_false ht
          exact h.dispatch hq hview

theorem consistent_poll (h : Consistent (Machine.rest C s)) (env : Env) (raw : Bytes)
    (sender : SocketAddr) :
    Consistent (afterDatagram C env sender (s.pollDatagram C env raw sender)) := by
  have hq := quiet_received env raw.length s
  unfold Session.pollDatagram
  dsimp only
  split
  · exact h.quiet env (.of_eq rfl rfl rfl rfl rfl)
  · rename_i view hview
    split
    · rename_i first hpeek
      obtain ⟨hruns, hnew⟩ := h.greeted env hq hpeek
      exact consistent_promotePeer hruns hnew C env first
    · exact h.dispatch hq hview

/-! ## Calls that end something -/

theorem offline_close {a : SessionState} (h : a ≠ .idle ∧ a ≠ .reconnecting) :
    ((a.next .close).next .close).Offline ∧ (a.next .close).next .close ≠ .handshaking := by
  cases a <;> simp_all [SessionState.Offline, SessionState.next, SessionState.transition]

theorem Consistent.close {m : Machine C cfg} (h : Consistent m) (env : Env) :
    Consistent ⟨m.session.close env, m.task⟩ := by
  rw [close_eq env m.session]
  by_cases hstate : m.session.status.state = .idle ∨ m.session.status.state = .reconnecting
  · obtain ⟨htask, hblank⟩ := h.fresh hstate
    have hrest : Blank { m.session with
        status := { m.session.status with
          closed := true
          state := (m.session.status.state.next .close).next .close }
        peers := m.session.peers.close
        traffic := (m.session.close env).traffic } := by
      refine ⟨?_, hblank.seen, hblank.pendingJoins, hblank.sessionId⟩
      change m.session.peers.close = _
      rw [hblank.peers]
      rfl
    rw [htask]
    exact ⟨trivial, nofun, fun _ => ⟨rfl, hrest⟩, fun _ => hrest.linked⟩
  · obtain ⟨hoffline, hhand⟩ := offline_close (not_or.mp hstate)
    refine ⟨h.sound, fun ho => ⟨?_, fun hh => absurd hh hhand, hoffline⟩, fun hfresh => ?_,
      fun hactive => absurd hactive hoffline.2.2⟩
    · have hunkeyed := (h.opens ho).unkeyed
      exact ⟨hunkeyed.keys, hunkeyed.seen, rfl⟩
    · rcases hfresh with hidle | hre
      · exact absurd hidle hoffline.1
      · exact absurd hre hoffline.2.1

/-- A session that is opened again has nothing in its tables. -/
theorem Consistent.reopen {m : Machine C cfg} (h : Consistent m)
    (hidle : m.session.status.closed = true → m.task = .idle) :
    Consistent ⟨m.session.reopen.2, m.task⟩ := by
  cases hclosed : m.session.status.closed with
  | false =>
    have hsame : m.session.reopen.2 = m.session := by
      simp only [Session.reopen, hclosed, Bool.not_false, if_true]
    rw [hsame]
    exact h
  | true =>
    have hblank : Blank m.session.reopen.2 := by
      unfold Session.reopen
      simp only [hclosed, Bool.not_true, Bool.false_eq_true, if_false]
      split
      · exact ⟨rfl, rfl, rfl, rfl⟩
      · exact ⟨rfl, rfl, rfl, rfl⟩
    rw [hidle hclosed]
    exact ⟨trivial, (fun hopens => by cases hopens), fun _ => ⟨rfl, hblank⟩,
      fun _ => hblank.linked⟩

/-- Nobody is in the book who has not been admitted when the call is dropped. -/
theorem Consistent.cancel {m : Machine C cfg} (h : Consistent m)
    (hbook : m.session.status.state = .active →
      ∀ p ∈ m.task.promoted, p ∉ m.session.peers.book.peers) :
    Consistent (Machine.rest C m.session) := by
  refine ⟨trivial, nofun, fun hfresh => ⟨rfl, (h.fresh hfresh).2⟩, fun hactive => ?_⟩
  have hlinked := h.active hactive
  refine ⟨hlinked.keys, hlinked.seen, hlinked.windows, fun a ha => .inl ?_, nofun⟩
  exact (hlinked.own a ha).resolve_right fun hmid => hbook hactive a hmid ha

/-! ## Steps -/

/-- The peer whose handshake the datagram ends, on the server's side. -/
def admits (C : Crypto) (env : Env) (m : Machine C cfg) (sender : SocketAddr) (raw : Bytes) :
    Option SocketAddr :=
  match m.task with
  | .legacyKe _ peer wait =>
    if answered peer (fun ke s => s.legacyServerFinish C env peer wait ke) sender raw m.session
    then some peer else none
  | .noiseKe _ peer pending =>
    if answered peer (fun ke s => s.noiseServerFinish env peer pending ke) sender raw m.session
    then some peer else none
  | _ => none

/-- In an active session nobody gets keys without a place in the book, and
nobody a place without keys: no handshake is called for a stranger, whoever ends
a handshake is in the book or finds room in it, a handshake of somebody in the
book is not dropped, and a session is not reopened under a waiting handshake. -/
def Orderly (C : Crypto) (m : Machine C cfg) (x : Env × Action) : Prop :=
  match x.2 with
  | .handshake _ peer => m.task = .idle → m.session.status.state = .active →
      peer ∈ m.session.peers.book.peers ∨ maxPeers ≤ m.session.peers.book.peers.length
  | .input (.datagram sender raw) => m.session.status.state = .active →
      ∀ peer ∈ admits C x.1 m sender raw, peer ∈ m.session.peers.book.peers
  | .recv sender raw => m.session.status.state = .active → ∀ view,
      PacketView.decode raw = .ok view →
      joins x.1 view sender ((m.session.recordReceived raw.length).heard x.1) = true →
      sender ∈ m.session.peers.book.peers ∨ m.session.peers.book.peers.length < maxPeers
  | .cancel => m.session.status.state = .active →
      ∀ p ∈ m.task.promoted, p ∉ m.session.peers.book.peers
  | .reopen => m.session.status.closed = true → m.task = .idle
  | _ => True

/-- A server that waits for a key exchange, and the session it is in. -/
theorem Consistent.serves {m : Machine C cfg} (h : Consistent m) {wait : LegacyWait}
    (htask : m.task = .legacyKe caller peer wait) : Hosts (some peer) m.session caller := by
  have hopens := h.opens
  have hactive := h.active
  have hfresh := h.fresh
  rw [htask] at hopens hactive hfresh
  have hstarted : m.session.status.state ≠ .idle ∧ m.session.status.state ≠ .reconnecting :=
    ⟨fun hidle => (nomatch (hfresh (.inl hidle)).1), fun hre => (nomatch (hfresh (.inr hre)).1)⟩
  cases caller with
  | handshake => exact hopens rfl
  | acceptLoop => exact hopens rfl
  | additional => exact ⟨hstarted, hactive⟩
  | promote => exact ⟨hstarted, hactive⟩

theorem Consistent.servesNoise {m : Machine C cfg} (h : Consistent m) {pending : PendingJoin}
    (htask : m.task = .noiseKe caller peer pending) : Hosts (some peer) m.session caller := by
  have hopens := h.opens
  have hactive := h.active
  have hfresh := h.fresh
  rw [htask] at hopens hactive hfresh
  have hstarted : m.session.status.state ≠ .idle ∧ m.session.status.state ≠ .reconnecting :=
    ⟨fun hidle => (nomatch (hfresh (.inl hidle)).1), fun hre => (nomatch (hfresh (.inr hre)).1)⟩
  cases caller with
  | handshake => exact hopens rfl
  | acceptLoop => exact hopens rfl
  | additional => exact ⟨hstarted, hactive⟩
  | promote => exact ⟨hstarted, hactive⟩

theorem Consistent.input {m : Machine C cfg} (h : Consistent m) (env : Env) (input : Input)
    (hx : Orderly C m (env, .input input)) : Consistent (onInput C env input m) := by
  have hopens {book : List SocketAddr} (ho : m.task.opens = true)
      (hbook : m.task.awaits = book) : Opens book m.session := hbook ▸ h.opens ho
  unfold Machine.onInput
  split
  · exact h
  · rename_i htask
    refine consistent_onWaitFirst ?_ input
    rw [← htask]
    exact h
  · rename_i caller peer wait htask
    refine (h.serves htask).onKeyExchange C env _ input (fun ht => ht.legacyKe wait)
      (fun ht => steady_of_sendControl ht)
      (fun ke s => settles_legacyServerFinish C env peer wait ke s) ?_
    rintro hactive sender raw rfl hanswered
    refine hx hactive peer ?_
    simp only [admits, htask, hanswered, if_true]
    rfl
  · rename_i caller peer pending htask
    refine (h.servesNoise htask).onKeyExchange C env _ input (fun ht => ht.noiseKe pending)
      (fun ht => steady_of_sendControl ht)
      (fun ke s => settles_noiseServerFinish env peer pending ke s) ?_
    rintro hactive sender raw rfl hanswered
    refine hx hactive peer ?_
    simp only [admits, htask, hanswered, if_true]
    rfl
  · rename_i peer wait attempt htask
    exact (hopens (by rw [htask]; rfl) (by rw [htask]; rfl)).onHelloSent C env wait attempt input
  · rename_i peer fallback hs nonce sid msg1 attempt htask
    exact (hopens (by rw [htask]; rfl) (by rw [htask]; rfl)).onNoiseSent C env fallback hs nonce
      sid msg1 attempt input
  · rename_i peer noise fallback wait htask
    exact (hopens (by rw [htask]; rfl) (by rw [htask]; rfl)).onConfirm C env noise fallback wait
      input

/-- A call that reads the socket, when no task does. -/
theorem Consistent.whenIdle {m : Machine C cfg} (h : Consistent m)
    {f : Session cfg → Machine C cfg}
    (hf : m.task = .idle → Consistent (Machine.rest C m.session) → Consistent (f m.session)) :
    Consistent (whenIdle C m f) := by
  unfold Machine.whenIdle
  split
  · rename_i htask
    refine hf htask ?_
    have hm : m = Machine.rest C m.session := by
      cases m
      cases htask
      rfl
    rw [← hm]
    exact h
  · exact h

theorem Consistent.step {m : Machine C cfg} (h : Consistent m) (x : Env × Action)
    (hx : Orderly C m x) : Consistent (step C x.1 m x.2) := by
  obtain ⟨env, a⟩ := x
  cases a with
  | handshake role peer =>
    exact h.whenIdle fun hidle hrest => consistent_handshake C env hrest role (hx hidle)
  | handshakeOpen => exact h.whenIdle fun _ hrest => consistent_handshakeOpen C env hrest
  | acceptAdditionalPeer =>
    exact h.whenIdle fun _ hrest => consistent_acceptAdditionalPeer C env hrest
  | input i => exact h.input env i hx
  | cancel => exact h.cancel hx
  | turn =>
    refine h.whenIdle (f := fun s => Machine.rest C (s.turn C env).2) fun _ hrest => ?_
    exact hrest.rx (rx_turn C env m.session)
  | recv sender raw =>
    refine h.whenIdle (f := fun s => afterDatagram C env sender (s.recvDatagram C env raw sender))
      fun _ hrest => ?_
    exact consistent_recv hrest env hx
  | poll sender raw =>
    refine h.whenIdle (f := fun s => afterDatagram C env sender (s.pollDatagram C env raw sender))
      fun _ hrest => ?_
    exact consistent_poll hrest env raw sender
  | pollTimeout =>
    refine h.whenIdle (f := fun s => Machine.rest C (s.pollTimeout env).2) fun _ hrest => ?_
    exact hrest.quiet env (quiet_pollTimeout env m.session)
  | sendAudio payload =>
    have hs := speaksOnly_sendAudio C env payload m.session
    exact h.of_eq hs.peers (by rw [hs.live]) hs.pendingJoins (by rw [hs.status])
      (by rw [hs.status])
  | pttPress =>
    have hs := sendsOnly_signalAll env .floorRequest .controlResume m.session.status.sessionId
      m.session.peers.book.all { m.session with status.pttActive := true }
    have hseen := congrArg Live.peerSeen hs.live
    have hstate := congrArg Status.state hs.status
    have hsid := congrArg Status.sessionId hs.status
    exact h.of_eq hs.peers hseen hs.pendingJoins hstate hsid
  | pttRelease =>
    have hs := sendsOnly_signalAll env .floorRelease .controlPause m.session.status.sessionId
      m.session.peers.book.all { m.session with status.pttActive := false }
    have hseen := congrArg Live.peerSeen hs.live
    have hstate := congrArg Status.state hs.status
    have hsid := congrArg Status.sessionId hs.status
    exact h.of_eq hs.peers hseen hs.pendingJoins hstate hsid
  | close => exact h.close env
  | reopen => exact h.reopen hx
  | setPresetSessionId id => exact h.of_eq rfl rfl rfl rfl rfl
  | setRoomToken token => exact h.of_eq rfl rfl rfl rfl rfl
  | setHandshakeMode mode => exact h.of_eq rfl rfl rfl rfl rfl
  | setRendezvous server => exact h.of_eq rfl rfl rfl rfl rfl
  | setMultiPeer enabled => exact h.of_eq rfl rfl rfl rfl rfl
  | setRelayOnly enabled => exact h.of_eq rfl rfl rfl rfl rfl
  | setOwnPublic addr => exact h.of_eq rfl rfl rfl rfl rfl
  | addPathHints addrs => exact h.of_eq rfl rfl rfl rfl rfl

end Machine
end GravitalTalk
