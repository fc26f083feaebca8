import GravitalTalk.Relay.Ingress
import GravitalTalk.Session.Loops
import GravitalTalk.Session.Numbering
import GravitalTalk.Transport.ReplayMarks

/-!
# A session behind the relay

A client whose peer is the relay hears the other participants and the relay itself
from one address, and keeps one replay window for both. The relay numbers none of
its own messages: all of them carry the sequence `0`.
-/
namespace GravitalTalk

namespace ReplayWindow

open Serial

/-- `seq` has been here, or the window has moved past it. -/
def Passed (w : ReplayWindow) (seq : UInt32) : Prop :=
  w.initialized = true ∧ seq = w.highest ∨
    w.Late seq ∧ (window ≤ ahead w.highest seq ∨ w.isMarked (ahead w.highest seq) = true)

instance (w : ReplayWindow) (seq : UInt32) : Decidable (w.Passed seq) :=
  inferInstanceAs (Decidable (_ ∨ _))

theorem rejected_iff_passed (w : ReplayWindow) (seq : UInt32) :
    (w.checkAndMark seq).1 = false ↔ w.Passed seq := by
  unfold Passed
  rcases checkAndMark_cases w seq with ⟨hi, he⟩ | ⟨hi, hseq, he⟩ | ⟨-, hlt, hw, he⟩ |
    ⟨-, hlt, hne, he⟩ | ⟨hlate, hw, he⟩ | ⟨hlate, hw, he⟩
  · simp [he, hi, Late]
  · rw [he]
    exact iff_of_true rfl (.inl ⟨hi, hseq⟩)
  · have hne : seq ≠ w.highest := by
      rintro rfl
      rw [ahead_self] at hw
      exact absurd hw (by decide)
    simp [he, hne, not_late_of_ahead_lt hlt]
  · simp [he, hne, not_late_of_ahead_lt (hlt.trans (by decide))]
  · rw [he]
    exact iff_of_true rfl (.inr ⟨hlate, .inl hw⟩)
  · have hne : seq ≠ w.highest := by
      rintro rfl
      exact not_late_of_ahead_lt (by rw [ahead_self]; decide) hlate
    simp [he, hne, hlate, Nat.not_le.mpr hw]

end ReplayWindow

/-- The messages by which the relay tells of the floor. -/
def MessageType.tellsFloor : MessageType → Bool
  | .floorGrant | .floorDeny | .floorTaken | .floorRelease => true
  | _ => false

/-- A floor message as the client reads it. -/
theorem Sent.view_floor {kind : MessageType} {s : UInt32} {raw : Bytes}
    (h : (Sent.floor kind s).bytes = some raw) :
    PacketView.decode raw = .ok ⟨PacketHeader.new kind.code s 0 0, be32 s⟩ := by
  unfold Sent.bytes at h
  dsimp only at h
  split at h
  · rename_i out hout
    obtain ⟨rfl, hlen⟩ := PacketBuilder.encode_eq_ok hout
    cases h
    exact PacketBuilder.decode_bytes rfl hlen
  · cases h

/-- The relay and one of its clients. -/
structure Network (C : Crypto) (cfg : Config) where
  router : Router
  client : Machine C cfg
  /-- Floor messages that the relay has sent to the client. -/
  sent : Set (MessageType × UInt32)

namespace Network

open Session

variable {cfg : Config} {C : Crypto} {env : Env} {s t : Session cfg}

/-- A datagram reaches the relay, it removes idle routes, or the client does something. -/
inductive Event
  | udp (datagram : Bytes) (sender : SocketAddr)
  | webSocket (datagram : Bytes) (channel : ℕ)
  | evictIdle (maxAgeSecs : ℕ) (isClosed : ℕ → Bool)
  | client (a : Machine.Action)

/-- The floor messages for the client, which is at `me`. -/
def floorSent (me : SocketAddr) (sends : Sends) : Set (MessageType × UInt32) :=
  {f | (SessionEndpoint.udp me, Sent.floor f.1 f.2) ∈ sends}

/-- The network delivers what it likes, when it likes: what the client reads is part of
the event. -/
def step (me : SocketAddr) (n : Network C cfg) (x : Env × Event) : Network C cfg :=
  match x.2 with
  | .udp datagram sender =>
    let d := n.router.udpIngress datagram sender x.1.now
    { n with router := d.2, sent := n.sent ∪ floorSent me d.1 }
  | .webSocket datagram channel =>
    let d := n.router.wsIngress datagram channel x.1.now
    { n with router := d.2, sent := n.sent ∪ floorSent me d.1 }
  | .evictIdle maxAgeSecs isClosed =>
    { n with router := n.router.evictIdle maxAgeSecs isClosed x.1.now }
  | .client a => { n with client := Machine.step C x.1 n.client a }

def start (r : Router) (m : Machine C cfg) : Network C cfg := ⟨r, m, ∅⟩

/-- The client, which waits for nothing else, reads a floor message from `relay`, one of
its peers. -/
structure Delivers (relay : SocketAddr) (n : Network C cfg) (a : Machine.Action)
    (kind : MessageType) : Prop where
  idle : n.client.task = .idle
  peer : relay ∈ n.client.session.peers.book.peers
  sent : ∃ s raw, (kind, s) ∈ n.sent ∧ (Sent.floor kind s).bytes = some raw ∧
    (a = .recv relay raw ∨ a = .poll relay raw)

/-- A floor message was not taken for a replay, and did what it is for. -/
structure Processed (kind : MessageType) (s t : Session cfg) : Prop where
  kept : t.traffic.counters.replayedDropped = s.traffic.counters.replayedDropped
  denied : kind = .floorDeny → t.status.pttActive = false
  released : kind = .floorRelease → t.status.peerPttActive = false

/-- The sequence number `0` has not passed the window of `relay`, or there are no keys yet
and so no window. -/
def Expects (relay : SocketAddr) (s : Session cfg) : Prop :=
  s.peers.decryptKey = none ∨ ¬ (s.peers.windowOf relay).Passed 0

/-! ## What the relay sends -/

theorem tellsFloor_of_udpIngress {r : Router} {datagram : Bytes} {sender : SocketAddr} {now : ℕ}
    {target : SessionEndpoint} {kind : MessageType} {s : UInt32}
    (h : (target, Sent.floor kind s) ∈ (r.udpIngress datagram sender now).1) :
    kind.tellsFloor = true := by
  unfold Router.udpIngress at h
  split at h
  · simp at h
  · split at h
    · simp at h
    · dsimp only at h
      split at h
      · unfold Router.grantSends at h
        split at h
        · rcases List.mem_cons.mp h with heq | hmem
          · cases heq
            rfl
          · obtain ⟨other, -, heq⟩ := List.mem_map.mp hmem
            cases heq
            rfl
        · cases List.mem_singleton.mp h
          rfl
        · cases h
      · unfold Router.releaseSends at h
        split at h
        · obtain ⟨other, -, heq⟩ := List.mem_map.mp h
          cases heq
          rfl
        · cases h
      · simp [Router.forward] at h

theorem floor_notMem_wsIngress {r : Router} {datagram : Bytes} {channel now : ℕ}
    {target : SessionEndpoint} {kind : MessageType} {s : UInt32} :
    (target, Sent.floor kind s) ∉ (r.wsIngress datagram channel now).1 := by
  unfold Router.wsIngress
  split
  · simp
  · simp [Router.forward]

/-- Only floor messages are on their way. -/
def Floors (n : Network C cfg) : Prop := ∀ f ∈ n.sent, f.1.tellsFloor = true

theorem floors_step (me : SocketAddr) {n : Network C cfg} (h : n.Floors) (x : Env × Event) :
    (step me n x).Floors := by
  obtain ⟨env, event⟩ := x
  cases event with
  | udp datagram sender =>
    rintro f (hf | hf)
    · exact h f hf
    · exact tellsFloor_of_udpIngress hf
  | webSocket datagram channel =>
    rintro f (hf | hf)
    · exact h f hf
    · exact absurd hf floor_notMem_wsIngress
  | evictIdle maxAgeSecs isClosed => exact h
  | client a => exact h

/-! ## What the client does with it -/

/-- Both loops read a floor message of a peer like this. -/
theorem session_of_read (C : Crypto) (env : Env) {relay : SocketAddr} {raw : Bytes}
    {view : PacketView}
    {a : Machine.Action} {kind : MessageType} (ha : a = .recv relay raw ∨ a = .poll relay raw)
    (hview : PacketView.decode raw = .ok view) (hkind : view.header.msgType = kind.code)
    (hfloor : kind.tellsFloor = true) (hbook : relay ∈ s.peers.book.peers) :
    (Machine.step C env (Machine.rest C s) a).session =
      (((s.recordReceived raw.length).heard env).acceptPacket C env view raw relay).2 := by
  have hcodes : view.header.msgType ≠ MessageType.handshakeClientHello.code ∧
      view.header.msgType ≠ MessageType.handshakeNoiseHello1.code ∧
      view.header.msgType ≠ MessageType.handshakeKeyExchange.code := by
    rw [hkind]
    cases kind with
    | floorGrant => decide
    | floorDeny => decide
    | floorTaken => decide
    | floorRelease => decide
    | _ => cases hfloor
  obtain ⟨hlegacy, hnoise, hexchange⟩ := hcodes
  have hpeek : s.peekNewPeer view relay = none := by
    unfold peekNewPeer
    dsimp only
    split
    · rfl
    · rw [if_pos ⟨hlegacy, hnoise⟩]
  have hjoin (u : Session cfg) : u.finishJoin env view relay = (false, u) := by
    unfold finishJoin
    rw [if_pos hexchange]
  have hdispatch : ((s.recordReceived raw.length).heard env).dispatchPacket C env view raw relay =
      ((s.recordReceived raw.length).heard env).acceptPacket C env view raw relay := by
    unfold dispatchPacket
    rw [if_pos]
    exact (AddressBook.contains_iff _ _).mpr hbook
  have hrv : ¬ Rendezvous.isRendezvous raw = true :=
    fun hrv => decode_of_isRendezvous hrv view hview
  rcases ha with rfl | rfl
  · change (Machine.afterDatagram C env relay (s.recvDatagram C env raw relay)).session = _
    rw [recvDatagram_of_view C env hrv hview]
    simp only [hpeek, hjoin, hdispatch]
    rfl
  · change (Machine.afterDatagram C env relay (s.pollDatagram C env raw relay)).session = _
    rw [pollDatagram_of_view C env hview]
    simp only [hpeek, hdispatch]
    rfl

/-- A floor message that is not taken for a replay does what it is for. -/
theorem processed_handlePacket {relay : SocketAddr} {raw : Bytes} {view : PacketView}
    {kind : MessageType} (hkind : view.header.msgType = kind.code)
    (hfloor : kind.tellsFloor = true)
    (hkept : t.traffic.counters.replayedDropped = s.traffic.counters.replayedDropped) :
    Processed kind s (t.handlePacket C env view raw relay).2 := by
  unfold handlePacket
  rw [hkind]
  cases kind with
  | floorGrant => exact ⟨hkept, nofun, nofun⟩
  | floorDeny => exact ⟨hkept, fun _ => rfl, nofun⟩
  | floorTaken => exact ⟨hkept, nofun, nofun⟩
  | floorRelease => exact ⟨hkept, nofun, fun _ => rfl⟩
  | _ => cases hfloor

theorem antiReplay_expected {relay : SocketAddr} (raw : Bytes) {view : PacketView}
    (hseq : view.header.sequence = 0) (h : Expects relay s) :
    (s.antiReplay view raw relay).1 = true ∧
      (s.antiReplay view raw relay).2.traffic = s.traffic := by
  unfold antiReplay
  cases hkey : s.peers.decryptKey with
  | none => exact ⟨rfl, rfl⟩
  | some key =>
    have htaken : ((s.peers.windowOf relay).checkAndMark view.header.sequence).1 = true := by
      rw [hseq, ← Bool.not_eq_false, ReplayWindow.rejected_iff_passed]
      rcases h with hnone | hnew
      · rw [hkey] at hnone
        cases hnone
      · exact hnew
    simp only [Option.isNone_some, Bool.false_eq_true, if_false, htaken, if_true, and_self]

theorem antiReplay_passed {relay : SocketAddr} (raw : Bytes) {view : PacketView}
    (hseq : view.header.sequence = 0) (h : ¬ Expects relay s) :
    (s.antiReplay view raw relay).1 = false ∧
      (s.antiReplay view raw relay).2.traffic.counters.replayedDropped =
        s.traffic.counters.replayedDropped + 1 := by
  unfold Expects at h
  push Not at h
  obtain ⟨hkey, hpassed⟩ := h
  obtain ⟨key, hkey⟩ := Option.ne_none_iff_exists'.mp hkey
  have hrefused : ((s.peers.windowOf relay).checkAndMark view.header.sequence).1 = false := by
    rw [hseq, ReplayWindow.rejected_iff_passed]
    exact hpassed
  unfold antiReplay
  simp only [hkey, Option.isNone_some, Bool.false_eq_true, if_false, hrefused, true_and]
  rfl

theorem processed_acceptPacket {relay : SocketAddr} {raw : Bytes} {view : PacketView}
    {kind : MessageType} (hkind : view.header.msgType = kind.code)
    (hseq : view.header.sequence = 0) (hfloor : kind.tellsFloor = true)
    (hcount : t.traffic.counters.replayedDropped = s.traffic.counters.replayedDropped) :
    Processed kind s (t.acceptPacket C env view raw relay).2 ↔ Expects relay t := by
  have hseen : Expects relay (t.see relay env.now) ↔ Expects relay t := Iff.rfl
  unfold acceptPacket
  by_cases h : Expects relay t
  · obtain ⟨hok, htraffic⟩ := antiReplay_expected raw hseq (hseen.mpr h)
    refine iff_of_true ?_ h
    rcases hreplay : (t.see relay env.now).antiReplay view raw relay with ⟨_ | _, u⟩
    · rw [hreplay] at hok
      cases hok
    · refine processed_handlePacket hkind hfloor ?_
      rw [hreplay] at htraffic
      rw [htraffic]
      exact hcount
  · obtain ⟨hno, hdrop⟩ := antiReplay_passed raw hseq (mt hseen.mp h)
    refine iff_of_false ?_ h
    rcases hreplay : (t.see relay env.now).antiReplay view raw relay with ⟨_ | _, u⟩
    · intro hprocessed
      have hkept := hprocessed.kept
      rw [hreplay] at hdrop
      change u.traffic.counters.replayedDropped = _ at hkept
      rw [hdrop, ← hcount] at hkept
      exact absurd hkept (by simp [see])
    · rw [hreplay] at hno
      cases hno

/-- A floor message that is delivered is processed exactly when the client expects it. -/
theorem processed_iff {relay : SocketAddr} {n : Network C cfg} {a : Machine.Action}
    {kind : MessageType} (hfloor : kind.tellsFloor = true) (h : Delivers relay n a kind) :
    Processed kind n.client.session (Machine.step C env n.client a).session ↔
      Expects relay n.client.session := by
  obtain ⟨hidle, hbook, sid, raw, -, hbytes, ha⟩ := h
  obtain ⟨r, ⟨s, task⟩, sent⟩ := n
  obtain rfl : task = .idle := hidle
  have hview := Sent.view_floor hbytes
  have hsession := session_of_read C env ha hview rfl hfloor hbook
  change Processed kind s (Machine.step C env (Machine.rest C s) a).session ↔ _
  rw [hsession]
  exact processed_acceptPacket rfl rfl hfloor rfl

/-! ## Runs -/

/-- In any run, every floor message that is delivered is processed exactly when the client
expects each of them: its replay window for the relay has not been at the sequence `0` and
not moved past it, by whatever came from the relay before. -/
theorem floor_reaches_iff (me relay : SocketAddr) (r : Router) (m : Machine C cfg)
    (events : List (Env × Event)) :
    Run.Along (step me) (fun n x => ∀ a kind, x.2 = .client a → Delivers relay n a kind →
        Processed kind n.client.session (step me n x).client.session) (start r m) events ↔
      Run.Along (step me) (fun n x => ∀ a kind, x.2 = .client a → Delivers relay n a kind →
        Expects relay n.client.session) (start r m) events := by
  have hstart : (start r m).Floors := fun f hf => (Set.notMem_empty f hf).elim
  have hone {n : Network C cfg} {x : Env × Event} (hn : n.Floors) {a : Machine.Action}
      {kind : MessageType} (ha : x.2 = .client a) (h : Delivers relay n a kind) :
      Processed kind n.client.session (step me n x).client.session ↔
        Expects relay n.client.session := by
    obtain ⟨s, raw, hsent, -⟩ := h.sent
    have hstep : (step me n x).client = Machine.step C x.1 n.client a := by
      unfold step
      rw [ha]
    rw [hstep]
    exact processed_iff (hn _ hsent) h
  constructor
  · intro hrun
    refine Run.Along.implies (fun n x (hn : n.Floors) _ => floors_step me hn x) ?_ hrun hstart
    intro n x hn hprocessed a kind ha h
    exact (hone hn ha h).mp (hprocessed a kind ha h)
  · intro hrun
    refine Run.Along.implies (fun n x (hn : n.Floors) _ => floors_step me hn x) ?_ hrun hstart
    intro n x hn hexpects a kind ha h
    exact (hone hn ha h).mpr (hexpects a kind ha h)

section Examples

open Machine.Pairing

/-- The client as the relay sees it, and another participant. -/
def me : SocketAddr := .v4 #v[10, 0, 0, 1] 40000
def other : SocketAddr := .v4 #v[10, 0, 0, 2] 40000

/-- A packet of session `7`. -/
def packetOf (kind : MessageType) : Bytes :=
  PacketBuilder.bytes (PacketHeader.new kind.code 7 0 0) (be32 7)

/-- After a handshake through the relay, at `guest`, somebody else takes the floor. -/
noncomputable def talk : List (Env × Event) :=
  steps.map (fun x => (x.1, .client x.2)) ++
    [(at' 2, .udp (packetOf .heartbeat) me), (at' 2, .udp (packetOf .floorRequest) other),
      (at' 2, .client (.recv guest (packetOf .floorTaken)))]

/-- Nobody is in a session of the relay yet, and the client has no peer. -/
noncomputable def alone : Network Crypto.toy Config.default :=
  start (Router.new 4 4) (Machine.rest Crypto.toy (initial Config.default (Vector.replicate 8 0)))

/-- The client never learns that the floor is free. -/
theorem floor_release_lost :
    ¬ Run.Along (step me) (fun n x => ∀ a kind, x.2 = .client a → Delivers guest n a kind →
        Processed kind n.client.session (step me n x).client.session) alone
      (talk ++ [(at' 3, .udp (packetOf .floorRelease) other),
        (at' 3, .client (.recv guest (packetOf .floorRelease)))]) := by
  intro h
  let n := talk.foldl (step me) alone
  let n' := step me n (at' 3, .udp (packetOf .floorRelease) other)
  have hlast := (Run.along_append.mp h).2.2.1
  have hsent : n'.sent = n.sent ∪ floorSent me
      (n.router.udpIngress (packetOf .floorRelease) other (at' 3).now).1 := rfl
  have hdelivers : Delivers guest n' (.recv guest (packetOf .floorRelease)) .floorRelease := by
    refine ⟨by decide +kernel, by decide +kernel, 7, packetOf .floorRelease, ?_, by decide +kernel,
      .inl rfl⟩
    rw [hsent]
    refine .inr ?_
    change (SessionEndpoint.udp me, Sent.floor .floorRelease 7) ∈
      (n.router.udpIngress (packetOf .floorRelease) other (at' 3).now).1
    decide +kernel
  have hkept := (hlast _ _ rfl hdelivers).kept
  revert hkept
  decide +kernel

end Examples

end Network
end GravitalTalk
