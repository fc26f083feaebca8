import GravitalTalk.Core.Message
import GravitalTalk.Core.Packet
import GravitalTalk.Relay.Routing

/-!
# Ingress of the relay

What `udp.rs` and `ws.rs` do with a datagram that is within its sender's budget: a
body of each of the two loops. Only one of them arbitrates the floor. The other one
is compared with it by giving its participant an address of its own.
-/
namespace GravitalTalk

/-- What the relay sends: the datagram it received, a floor message that it builds itself, or
the answer to a rendezvous message. -/
inductive Sent
  | forwarded (datagram : Bytes)
  | floor (kind : MessageType) (sessionId : UInt32)
  | reply (datagram : Bytes)
  deriving DecidableEq, Repr

/-- The bytes of it; a floor message carries its session, and is built in a buffer of 64 bytes. -/
def Sent.bytes : Sent → Option Bytes
  | forwarded datagram => some datagram
  | floor kind s =>
    match PacketBuilder.encode (PacketHeader.new kind.code s 0 0) (be32 s) 64 with
    | .ok out => some out
    | .error _ => none
  | reply datagram => some datagram

abbrev Sends := List (SessionEndpoint × Sent)

def RouteDecision.targets : RouteDecision → List SessionEndpoint
  | broadcast targets => targets
  | _ => []

@[simp] theorem RouteDecision.targets_to (l : List SessionEndpoint) :
    (RouteDecision.to l).targets = l := by
  cases l <;> rfl

namespace Router

variable {r : Router} {s : UInt32} {sender : SessionEndpoint} {now : ℕ}

/-- The datagram goes where the routing table says. -/
def forward (datagram : Bytes) (s : UInt32) (sender : SessionEndpoint) (now : ℕ) (r : Router) :
    Sends × Router :=
  let d := r.route s sender now
  (d.1.targets.map fun target => (target, .forwarded datagram), d.2)

/-- The floor messages that answer a request. -/
def grantSends (s : UInt32) (sender : SocketAddr) : FloorDecision → Sends
  | .granted others =>
    (.udp sender, .floor .floorGrant s) :: others.map fun other => (other, .floor .floorTaken s)
  | .denied => [(.udp sender, .floor .floorDeny s)]
  | _ => []

def releaseSends (s : UInt32) : FloorDecision → Sends
  | .released others => others.map fun other => (other, .floor .floorRelease s)
  | _ => []

/-- A datagram from the UDP socket. -/
def udpIngress (datagram : Bytes) (sender : SocketAddr) (now : ℕ) (r : Router) :
    Sends × Router :=
  if Rendezvous.isRendezvous datagram then
    let d := r.rendezvous.handle datagram sender now
    (d.1.toList.map fun reply => (.udp sender, .reply reply), { r with rendezvous := d.2 })
  else match PacketView.decode datagram with
    | .error _ => ([], r)
    | .ok view =>
      let s := view.header.sessionId
      match MessageType.fromCode view.header.msgType with
      | .ok .floorRequest =>
        -- the sender is registered first
        let d := (r.route s (.udp sender) now).2.floorRequest s sender now
        (grantSends s sender d.1, d.2)
      | .ok .floorRelease =>
        let d := r.floorRelease s sender now
        (releaseSends s d.1, d.2)
      | _ => r.forward datagram s (.udp sender) now

/-- A binary message of a WebSocket connection. -/
def wsIngress (datagram : Bytes) (channel : ℕ) (now : ℕ) (r : Router) : Sends × Router :=
  match PacketView.decode datagram with
  | .error _ => ([], r)
  | .ok view => r.forward datagram view.header.sessionId (.webSocket channel) now

/-! ## Routing and the floor -/

/-- A packet of `sender` is dropped: there is no such session and no place for one, or the
session is full and `sender` not in it. -/
def Refuses (s : UInt32) (sender : SessionEndpoint) (r : Router) : Prop :=
  s = 0 ∨ match r.routes.lookup s with
    | none => r.maxSessions ≤ Table.size r.routes
    | some e => sender ∉ e.peers ∧ r.maxPeersPerSession ≤ e.peers.length

instance (s : UInt32) (sender : SessionEndpoint) (r : Router) : Decidable (r.Refuses s sender) := by
  unfold Refuses
  cases r.routes.lookup s <;> infer_instance

/-- Who is on the floor; a holder that had it for too long is not. -/
def onFloor (now : ℕ) (s : UInt32) (r : Router) : Option SocketAddr :=
  (r.routes.lookup s).bind fun e => if e.floorIsFree now then none else e.floorHolder

/-- The others of an entry are what a packet of `sender` is sent to. -/
def othersOf (s : UInt32) (sender : SessionEndpoint) (r : Router) : List SessionEndpoint :=
  ((r.routes.lookup s).map (RouteEntry.others sender)).getD []

/-- A packet is dropped and its sender is not among the peers, or its sender is one of them and
the packet goes to the others. -/
theorem route_refuses_cases (s : UInt32) (sender : SessionEndpoint) (now : ℕ) (r : Router) :
    r.Refuses s sender ∧ (r.route s sender now).1.targets = [] ∧
        (∀ e, (r.route s sender now).2.routes.lookup s = some e → s ≠ 0 → sender ∉ e.peers) ∨
      ¬r.Refuses s sender ∧ (r.route s sender now).1.targets = r.othersOf s sender ∧
        ∃ e, (r.route s sender now).2.routes.lookup s = some e ∧ sender ∈ e.peers := by
  unfold Refuses route othersOf
  by_cases h0 : s = 0
  · rw [if_pos h0]
    exact .inl ⟨.inl h0, rfl, fun _ _ hne => absurd h0 hne⟩
  · rw [if_neg h0]
    cases hs : r.routes.lookup s with
    | none =>
      dsimp only
      by_cases hfull : r.maxSessions ≤ Table.size r.routes
      · rw [if_pos hfull]
        refine .inl ⟨.inr hfull, rfl, fun e he => ?_⟩
        rw [hs] at he
        cases he
      · rw [if_neg hfull]
        refine .inr ⟨by simp [h0, hfull], rfl, _, Finmap.lookup_insert _, ?_⟩
        exact List.mem_singleton_self sender
    | some e =>
      dsimp only
      by_cases hknown : sender ∈ e.peers
      · have hk : ({ e with lastActivity := now } : RouteEntry).isKnown sender = true :=
          RouteEntry.isKnown_iff.mpr hknown
        right
        rw [admitTo, if_pos hk]
        exact ⟨by simp [h0, hknown], RouteDecision.targets_to _, _, Finmap.lookup_insert _, hknown⟩
      · have hk : ¬({ e with lastActivity := now } : RouteEntry).isKnown sender = true :=
          fun h => hknown (RouteEntry.isKnown_iff.mp h)
        by_cases hfull : r.maxPeersPerSession ≤ e.peers.length
        · left
          rw [admitTo, if_neg hk, if_pos hfull]
          refine ⟨.inr ⟨hknown, hfull⟩, rfl, fun e' he' _ => ?_⟩
          obtain rfl := Option.some.inj ((Finmap.lookup_insert _).symm.trans he')
          exact hknown
        · right
          rw [admitTo, if_neg hk, if_neg hfull]
          refine ⟨by simp [h0, hfull], ?_, _, Finmap.lookup_insert _, by simp⟩
          rw [RouteDecision.targets_to, Option.map_some, Option.getD_some,
            RouteEntry.others_of_notMem hknown]

/-- Two entries with the same floor have the same peer on it. -/
theorem onFloor_congr {r r' : Router} (hnone : r'.routes.lookup s = none → r.onFloor now s = none)
    (hsome : ∀ e', r'.routes.lookup s = some e' → ∃ e, r.routes.lookup s = some e ∧
      e'.floorHolder = e.floorHolder ∧ e'.floorGrantedAt = e.floorGrantedAt) :
    r'.onFloor now s = r.onFloor now s := by
  cases h' : r'.routes.lookup s with
  | none => rw [hnone h', onFloor, h', Option.bind_none]
  | some e' =>
    obtain ⟨e, he, hholder, hgranted⟩ := hsome e' h'
    rw [onFloor, onFloor, h', he, Option.bind_some, Option.bind_some, RouteEntry.floorIsFree,
      RouteEntry.floorIsFree, hholder, hgranted]

/-- Routing leaves everybody on the floor. -/
theorem onFloor_route (s s' : UInt32) (sender : SessionEndpoint) (now now' : ℕ) (r : Router) :
    (r.route s sender now).2.onFloor now' s' = r.onFloor now' s' := by
  by_cases hs : s' = s
  · subst hs
    rcases route_cases s' sender now r with ⟨he, -⟩ | ⟨e, -, hlookup, he⟩ | ⟨-, hnone, -, he⟩
    · rw [he]
    · rw [he]
      apply onFloor_congr
      · intro hnone
        cases (Finmap.lookup_insert _).symm.trans hnone
      · intro e' he'
        obtain rfl := Option.some.inj ((Finmap.lookup_insert _).symm.trans he')
        exact ⟨e, hlookup, admitTo_floor _ _ _ _⟩
    · have hfirst : (r.routes.insert s' (firstEntry sender now)).lookup s' =
          some (firstEntry sender now) := Finmap.lookup_insert _
      rw [he, onFloor, onFloor, hnone]
      dsimp only
      rw [hfirst]
      rfl
  · rw [onFloor, onFloor, lookup_route_of_ne hs]

/-! ## A participant with an address -/

/-- The endpoint that `a` stands for is `a` now. -/
def standIn (w : SessionEndpoint) (a : SocketAddr) (p : SessionEndpoint) : SessionEndpoint :=
  if p = w then .udp a else p

def entryWith (w : SessionEndpoint) (a : SocketAddr) (e : RouteEntry) : RouteEntry :=
  { e with peers := e.peers.map (standIn w a) }

/-- The same relay with `a` in the place of `w`. -/
def withAddr (w : SessionEndpoint) (a : SocketAddr) (r : Router) : Router :=
  { r with routes := Table.revise (fun _ e => some (entryWith w a e)) r.routes }

/-- Nobody has this address. -/
def Unused (a : SocketAddr) (r : Router) : Prop :=
  ∀ s e, r.routes.lookup s = some e → .udp a ∉ e.peers

section StandIn

variable {w : SessionEndpoint} {a : SocketAddr} {e : RouteEntry}

theorem lookup_withAddr (w : SessionEndpoint) (a : SocketAddr) (r : Router) (s : UInt32) :
    (r.withAddr w a).routes.lookup s = (r.routes.lookup s).map (entryWith w a) := by
  rw [withAddr, Table.lookup_revise]
  cases r.routes.lookup s <;> rfl

theorem mem_withAddr : s ∈ (r.withAddr w a).routes ↔ s ∈ r.routes := by
  rw [← Finmap.lookup_isSome, ← Finmap.lookup_isSome, lookup_withAddr, Option.isSome_map]

theorem size_withAddr (w : SessionEndpoint) (a : SocketAddr) (r : Router) :
    Table.size (r.withAddr w a).routes = Table.size r.routes := by
  apply le_antisymm
  · exact Table.size_le_of_mem fun s => mem_withAddr.mp
  · exact Table.size_le_of_mem fun s => mem_withAddr.mpr

theorem mem_entryWith (h : .udp a ∉ e.peers) : .udp a ∈ (entryWith w a e).peers ↔ w ∈ e.peers := by
  dsimp only [entryWith]
  rw [List.mem_map]
  constructor
  · rintro ⟨p, hp, heq⟩
    unfold standIn at heq
    split_ifs at heq with hw
    · exact hw ▸ hp
    · exact absurd (heq ▸ hp) h
  · exact fun hw => ⟨w, hw, if_pos rfl⟩

theorem others_entryWith (h : .udp a ∉ e.peers) :
    (entryWith w a e).others (.udp a) = e.others w := by
  have hkeep : ∀ p ∈ e.peers, (!(standIn w a p).isMatch (.udp a)) = !p.isMatch w := by
    intro p hp
    have hne : p ≠ .udp a := fun heq => h (heq ▸ hp)
    rw [Bool.not_inj_iff, Bool.eq_iff_iff, SessionEndpoint.isMatch_iff,
      SessionEndpoint.isMatch_iff]
    unfold standIn
    split_ifs with hw
    · exact iff_of_true rfl hw
    · exact iff_of_false hne hw
  have hsame : ∀ p ∈ e.others w, standIn w a p = p := fun p hp =>
    if_neg (RouteEntry.mem_others.mp hp).2
  calc (entryWith w a e).others (.udp a)
      = (e.peers.map (standIn w a)).filter fun p => !p.isMatch (.udp a) := rfl
    _ = (e.peers.filter fun p => !(standIn w a p).isMatch (.udp a)).map (standIn w a) :=
        List.filter_map
    _ = (e.others w).map (standIn w a) := by rw [List.filter_congr hkeep]; rfl
    _ = e.others w := by rw [List.map_congr_left hsame, List.map_id']

theorem refuses_withAddr (h : r.Unused a) :
    (r.withAddr w a).Refuses s (.udp a) ↔ r.Refuses s w := by
  unfold Refuses
  rw [lookup_withAddr, size_withAddr]
  cases hs : r.routes.lookup s with
  | none => rfl
  | some e =>
    have hlength : (entryWith w a e).peers.length = e.peers.length := List.length_map _
    simp only [Option.map_some]
    rw [mem_entryWith (h s e hs), hlength]
    rfl

theorem onFloor_withAddr (w : SessionEndpoint) (a : SocketAddr) (r : Router) (s : UInt32) :
    (r.withAddr w a).onFloor now s = r.onFloor now s := by
  apply onFloor_congr
  · intro hnone
    rw [lookup_withAddr, Option.map_eq_none_iff] at hnone
    rw [onFloor, hnone, Option.bind_none]
  · intro e' he'
    rw [lookup_withAddr, Option.map_eq_some_iff] at he'
    obtain ⟨e, he, rfl⟩ := he'
    exact ⟨e, he, rfl, rfl⟩

end StandIn

/-! ## What the arbiter does -/

/-- A step on an entry that leaves it leaves everybody on the floor. -/
theorem onFloor_onEntry {f : RouteEntry → FloorDecision × RouteEntry} (s' : UInt32)
    (hf : ∀ e, r.routes.lookup s = some e →
      (if (f e).2.floorIsFree now then none else (f e).2.floorHolder) =
        if e.floorIsFree now then none else e.floorHolder) :
    (r.onEntry s f).2.onFloor now s' = r.onFloor now s' := by
  unfold onFloor
  rw [lookup_onEntry]
  split_ifs with hs
  · subst hs
    cases he : r.routes.lookup s' with
    | none => rfl
    | some e =>
      simp only [Option.map_some, Option.bind_some]
      exact hf e he
  · rfl

/-- A request that is not routed is ignored; every other one is answered. -/
theorem floorRequest_spec (h0 : (0 : UInt32) ∉ r.routes) (s : UInt32) (a : SocketAddr) (now : ℕ) :
    let d := (r.route s (.udp a) now).2.floorRequest s a now
    r.Refuses s (.udp a) ∧ d.1 = .unknown ∧ (∀ s', d.2.onFloor now s' = r.onFloor now s') ∨
      ¬r.Refuses s (.udp a) ∧ (d.1 = .denied ∨ ∃ others, d.1 = .granted others) := by
  intro d
  rcases route_refuses_cases s (.udp a) now r with ⟨hrefuses, -, hout⟩ | ⟨hroutes, -, e, he, hmem⟩
  · left
    have hunknown : ∀ e, (r.route s (.udp a) now).2.routes.lookup s = some e →
        requestOn a now e = (.unknown, e) := by
      intro e he
      have hs : s ≠ 0 := by
        rintro rfl
        have hsame : r.route 0 (.udp a) now = (.dropped, r) := if_pos rfl
        rw [hsame] at he
        exact h0 (Finmap.mem_iff.mpr ⟨e, he⟩)
      rcases requestOn_cases a now e with ⟨-, hreq⟩ | ⟨hmem, -⟩ | ⟨hmem, -⟩
      · exact hreq
      · exact absurd hmem (hout e he hs)
      · exact absurd hmem (hout e he hs)
    refine ⟨hrefuses, ?_, fun s' => ?_⟩
    · change ((r.route s (.udp a) now).2.onEntry s (requestOn a now)).1 = .unknown
      cases he : (r.route s (.udp a) now).2.routes.lookup s with
      | none => rw [onEntry, he]
      | some e => rw [onEntry_eq s _ he, hunknown e he]
    · refine (onFloor_onEntry s' fun e he => ?_).trans (onFloor_route s s' (.udp a) now now r)
      rw [hunknown e he]
  · right
    refine ⟨hroutes, ?_⟩
    change ((r.route s (.udp a) now).2.onEntry s (requestOn a now)).1 = .denied ∨
      ∃ others, ((r.route s (.udp a) now).2.onEntry s (requestOn a now)).1 = .granted others
    rw [onEntry_eq s _ he]
    rcases requestOn_cases a now e with ⟨hout, -⟩ | ⟨-, -, hreq⟩ | ⟨-, -, hreq⟩
    · exact absurd hmem hout
    · exact .inl (by rw [hreq])
    · exact .inr ⟨_, by rw [hreq]⟩

/-- The release of somebody who is not the holder tells the others when the floor is free, and
changes nobody's hold. -/
theorem floorRelease_spec (now : ℕ) {a : SocketAddr}
    (ha : ∀ e, r.routes.lookup s = some e → e.floorHolder ≠ some a) :
    (r.floorRelease s a now).1 = (match r.routes.lookup s with
      | none => .unknown
      | some e => if e.floorIsFree now then .released (e.others (.udp a)) else .denied) ∧
      ∀ s', (r.floorRelease s a now).2.onFloor now s' = r.onFloor now s' := by
  have hrelease : ∀ e, r.routes.lookup s = some e → releaseOn a now e =
      if e.floorIsFree now then
        (.released (e.others (.udp a)), { e with floorHolder := none, floorGrantedAt := none })
      else (.denied, e) := by
    intro e he
    have hholder : (e.floorHolder == some a) = false := beq_eq_false_iff_ne.mpr (ha e he)
    rw [releaseOn, hholder]
    cases e.floorIsFree now <;> rfl
  constructor
  · cases he : r.routes.lookup s with
    | none => rw [floorRelease, onEntry, he]
    | some e =>
      rw [floorRelease, onEntry_eq s _ he, hrelease e he]
      dsimp only
      split_ifs <;> rfl
  · intro s'
    refine onFloor_onEntry s' fun e he => ?_
    rw [hrelease e he]
    cases hfree : e.floorIsFree now with
    | true => rfl
    | false => simp [hfree]

/-- A packet of a session does not look like a rendezvous message. -/
theorem isRendezvous_of_decode {datagram : Bytes} {view : PacketView}
    (h : PacketView.decode datagram = .ok view) : Rendezvous.isRendezvous datagram = false := by
  have hmagic : datagram.getD 1 0 = magicBytes.2 := by
    unfold PacketView.decode at h
    split_ifs at h
    cases hheader : PacketHeader.decode datagram with
    | error e =>
      rw [hheader] at h
      cases h
    | ok header =>
      unfold PacketHeader.decode at hheader
      split_ifs at hheader with hlen hbad
      exact not_not.mp (not_or.mp hbad).2
  rw [Rendezvous.isRendezvous, Bool.and_eq_false_iff]
  right
  rw [beq_eq_false_iff_ne]
  intro htake
  have hone : (datagram.take 4).getD 1 0 = datagram.getD 1 0 := by
    rw [List.getD_eq_getElem?_getD, List.getElem?_take_of_lt (by decide),
      ← List.getD_eq_getElem?_getD]
  rw [htake, hmagic] at hone
  exact absurd hone (by decide)

theorem udpIngress_eq {datagram : Bytes} {view : PacketView}
    (h : PacketView.decode datagram = .ok view) (a : SocketAddr) (now : ℕ) (r : Router) :
    r.udpIngress datagram a now = match MessageType.fromCode view.header.msgType with
      | .ok .floorRequest =>
        let d := (r.route view.header.sessionId (.udp a) now).2.floorRequest view.header.sessionId a
          now
        (grantSends view.header.sessionId a d.1, d.2)
      | .ok .floorRelease =>
        let d := r.floorRelease view.header.sessionId a now
        (releaseSends view.header.sessionId d.1, d.2)
      | _ => r.forward datagram view.header.sessionId (.udp a) now := by
  rw [udpIngress, isRendezvous_of_decode h, if_neg Bool.false_ne_true, h]

theorem wsIngress_eq {datagram : Bytes} {view : PacketView}
    (h : PacketView.decode datagram = .ok view) (channel now : ℕ) (r : Router) :
    r.wsIngress datagram channel now =
      r.forward datagram view.header.sessionId (.webSocket channel) now := by
  rw [wsIngress, h]

/-- A floor packet of a WebSocket is arbitrated as it is when its participant has an address:
the same is sent to the same peers, the same peers are on the floors afterwards, and nobody
gets the packet itself. -/
structure Arbitrated (datagram : Bytes) (channel : ℕ) (a : SocketAddr) (now : ℕ) (r : Router) :
    Prop where
  sends : (r.wsIngress datagram channel now).1.map
      (fun x => (standIn (.webSocket channel) a x.1, x.2)) =
    ((r.withAddr (.webSocket channel) a).udpIngress datagram a now).1
  floors : ∀ s, (r.wsIngress datagram channel now).2.onFloor now s =
    ((r.withAddr (.webSocket channel) a).udpIngress datagram a now).2.onFloor now s
  kept : ∀ x ∈ (r.wsIngress datagram channel now).1, x.2 ≠ .forwarded datagram

section Arbitration

variable {datagram : Bytes} {view : PacketView} {channel : ℕ} {a : SocketAddr}

/-- Whoever is not sent anything is not forwarded anything, and the other way round. -/
theorem arbitrated_iff (h : PacketView.decode datagram = .ok view) :
    Arbitrated datagram channel a now r ↔
      (r.route view.header.sessionId (.webSocket channel) now).1.targets = [] ∧
      ((r.withAddr (.webSocket channel) a).udpIngress datagram a now).1 = [] ∧
      ∀ s, ((r.withAddr (.webSocket channel) a).udpIngress datagram a now).2.onFloor now s =
        r.onFloor now s := by
  have hsends : (r.wsIngress datagram channel now).1 =
      (r.route view.header.sessionId (.webSocket channel) now).1.targets.map
        fun target => (target, .forwarded datagram) := by
    rw [wsIngress_eq h]
    rfl
  have hfloors (s : UInt32) : (r.wsIngress datagram channel now).2.onFloor now s =
      r.onFloor now s := by
    rw [wsIngress_eq h]
    exact onFloor_route _ s _ now now r
  constructor
  · intro harb
    have hnone : (r.route view.header.sessionId (.webSocket channel) now).1.targets = [] := by
      rw [List.eq_nil_iff_forall_not_mem]
      intro target htarget
      refine harb.kept (target, .forwarded datagram) ?_ rfl
      rw [hsends]
      exact List.mem_map_of_mem htarget
    refine ⟨hnone, ?_, fun s => ?_⟩
    · rw [← harb.sends, hsends, hnone]
      rfl
    · rw [← harb.floors, hfloors]
  · rintro ⟨hnone, hudp, hsame⟩
    rw [hnone, List.map_nil] at hsends
    refine ⟨?_, fun s => ?_, ?_⟩
    · rw [hsends, hudp]
      rfl
    · rw [hfloors, hsame]
    · rw [hsends]
      exact fun x hx => absurd hx List.not_mem_nil

/-- The holders of the floors are peers, so nobody holds one under an address that is not used. -/
theorem not_holder_withAddr (hr : r.Valid) (ha : r.Unused a) (w : SessionEndpoint) (s : UInt32) :
    ∀ e, (r.withAddr w a).routes.lookup s = some e → e.floorHolder ≠ some a := by
  intro e he hholder
  rw [lookup_withAddr, Option.map_eq_some_iff] at he
  obtain ⟨e', he', rfl⟩ := he
  exact ha s e' he' ((hr.ok s e' he').holder a hholder)

/-- A request is arbitrated only where it is dropped: a WebSocket never gets an answer. -/
theorem arbitrated_request_iff (hr : r.Valid) (ha : r.Unused a)
    (h : PacketView.decode datagram = .ok view)
    (hkind : MessageType.fromCode view.header.msgType = .ok .floorRequest) :
    Arbitrated datagram channel a now r ↔
      r.Refuses view.header.sessionId (.webSocket channel) := by
  have h0 : (0 : UInt32) ∉ (r.withAddr (.webSocket channel) a).routes :=
    fun h0 => hr.zero (mem_withAddr.mp h0)
  rw [arbitrated_iff h, udpIngress_eq h, hkind]
  dsimp only
  rcases floorRequest_spec h0 view.header.sessionId a now with ⟨hrefuses, hunknown, hfloors⟩ |
    ⟨hroutes, hanswer⟩
  · rw [refuses_withAddr ha] at hrefuses
    refine iff_of_true ⟨?_, ?_, fun s => ?_⟩ hrefuses
    · rcases route_refuses_cases view.header.sessionId (.webSocket channel) now r with
        ⟨-, hnone, -⟩ | ⟨hroutes, -⟩
      · exact hnone
      · exact absurd hrefuses hroutes
    · rw [hunknown]
      rfl
    · rw [hfloors, onFloor_withAddr]
  · rw [refuses_withAddr ha] at hroutes
    refine iff_of_false (fun harb => ?_) hroutes
    have hsent := harb.2.1
    rcases hanswer with hdenied | ⟨others, hgranted⟩
    · rw [hdenied] at hsent
      cases hsent
    · rw [hgranted] at hsent
      cases hsent

/-- A release is arbitrated where there is nobody to tell, and where it is dropped while the
floor is taken. -/
theorem arbitrated_release_iff (hr : r.Valid) (ha : r.Unused a)
    (h : PacketView.decode datagram = .ok view)
    (hkind : MessageType.fromCode view.header.msgType = .ok .floorRelease) :
    Arbitrated datagram channel a now r ↔
      r.othersOf view.header.sessionId (.webSocket channel) = [] ∨
        r.Refuses view.header.sessionId (.webSocket channel) ∧
          ∃ e, r.routes.lookup view.header.sessionId = some e ∧ e.floorIsFree now = false := by
  obtain ⟨hdecision, hfloors⟩ :=
    floorRelease_spec now (not_holder_withAddr hr ha (.webSocket channel) view.header.sessionId)
  have hrouted : (r.route view.header.sessionId (.webSocket channel) now).1.targets = [] ↔
      r.Refuses view.header.sessionId (.webSocket channel) ∨
        r.othersOf view.header.sessionId (.webSocket channel) = [] := by
    rcases route_refuses_cases view.header.sessionId (.webSocket channel) now r with
      ⟨hrefuses, hnone, -⟩ | ⟨hroutes, htargets, -⟩
    · exact iff_of_true hnone (.inl hrefuses)
    · rw [htargets]
      exact (or_iff_right hroutes).symm
  rw [arbitrated_iff h, udpIngress_eq h, hkind]
  dsimp only
  rw [hdecision, lookup_withAddr, hrouted]
  have hsame : ∀ s, ((r.withAddr (.webSocket channel) a).floorRelease view.header.sessionId a
      now).2.onFloor now s = r.onFloor now s := fun s => by
    rw [hfloors, onFloor_withAddr]
  cases he : r.routes.lookup view.header.sessionId with
  | none =>
    have hnone : r.othersOf view.header.sessionId (.webSocket channel) = [] := by
      rw [othersOf, he]
      rfl
    exact iff_of_true ⟨.inr hnone, rfl, hsame⟩ (.inl hnone)
  | some e =>
    have hothers : r.othersOf view.header.sessionId (.webSocket channel) =
        e.others (.webSocket channel) := by
      rw [othersOf, he]
      rfl
    have hfree : (entryWith (.webSocket channel) a e).floorIsFree now = e.floorIsFree now := rfl
    simp only [Option.map_some]
    rw [hfree, others_entryWith (ha _ e he), hothers]
    cases hheld : e.floorIsFree now with
    | true =>
      have hsends : releaseSends view.header.sessionId
          (if true = true then .released (e.others (.webSocket channel)) else .denied) = [] ↔
          e.others (.webSocket channel) = [] := List.map_eq_nil_iff
      rw [hsends]
      constructor
      · exact fun harb => .inl harb.2.1
      · rintro (hnone | ⟨-, e', he', hheld'⟩)
        · exact ⟨.inr hnone, hnone, hsame⟩
        · obtain rfl := Option.some.inj he'
          rw [hheld] at hheld'
          cases hheld'
    | false =>
      constructor
      · rintro ⟨hrefuses | hnone, -⟩
        · exact .inr ⟨hrefuses, e, rfl, hheld⟩
        · exact .inl hnone
      · rintro (hnone | ⟨hrefuses, -⟩)
        · exact ⟨.inr hnone, rfl, hsame⟩
        · exact ⟨.inl hrefuses, rfl, hsame⟩

/-- Over every run: a request of a WebSocket is arbitrated exactly when routing drops it, a release
exactly when nobody else is in the session, or routing drops it while the floor is taken. -/
theorem ws_arbitration_iff (maxSessions maxPeersPerSession : ℕ) (steps : List (ℕ × Op))
    {kind : MessageType} (hdecode : PacketView.decode datagram = .ok view)
    (hkind : MessageType.fromCode view.header.msgType = .ok kind)
    (hfloor : kind = .floorRequest ∨ kind = .floorRelease)
    (ha : ((new maxSessions maxPeersPerSession).run steps).Unused a) :
    let r := (new maxSessions maxPeersPerSession).run steps
    Arbitrated datagram channel a now r ↔
      kind = .floorRequest ∧ r.Refuses view.header.sessionId (.webSocket channel) ∨
      kind = .floorRelease ∧ (r.othersOf view.header.sessionId (.webSocket channel) = [] ∨
        r.Refuses view.header.sessionId (.webSocket channel) ∧
          ∃ e, r.routes.lookup view.header.sessionId = some e ∧ e.floorIsFree now = false) := by
  intro r
  have hr : r.Valid := ((valid_new maxSessions maxPeersPerSession).run steps).1
  rcases hfloor with rfl | rfl
  · rw [arbitrated_request_iff hr ha hdecode hkind]
    simp
  · rw [arbitrated_release_iff hr ha hdecode hkind]
    simp

end Arbitration

/-- A request of the floor of session `7`. -/
def floorPacket : Bytes := PacketBuilder.bytes (PacketHeader.new 0x40 7 0 0) (be32 7)

theorem decode_floorPacket :
    PacketView.decode floorPacket = .ok ⟨PacketHeader.new 0x40 7 0 0, be32 7⟩ :=
  PacketBuilder.decode_bytes rfl (by decide)

/-- A stranger asks for the floor of a session that is full. -/
theorem ws_arbitration_full :
    let p := SocketAddr.v4 #v[10, 0, 0, 1] 40000
    let a := SocketAddr.v4 #v[10, 0, 0, 2] 40000
    Arbitrated floorPacket 1 a 3 ((new 4 1).run [(0, .route 7 (.udp p))]) := by
  intro p a
  have hunused : ((new 4 1).run [(0, .route 7 (.udp p))]).Unused a := by
    intro s e he
    by_cases hs : s = 7
    · subst hs
      obtain rfl := Option.some.inj ((by decide : _ = some (firstEntry (.udp p) 0)).symm.trans he)
      decide
    · rw [run, List.foldl_cons, List.foldl_nil, step, lookup_route_of_ne hs] at he
      cases he
  exact (ws_arbitration_iff 4 1 [(0, .route 7 (.udp p))] decode_floorPacket rfl (.inl rfl)
    hunused).mpr (.inl ⟨rfl, by decide⟩)

/-- A peer with an address is on the floor when a WebSocket of the session asks for it. The
request is forwarded to that peer and nobody answers; from an address it is denied. -/
theorem ws_request_forwarded :
    let p := SocketAddr.v4 #v[10, 0, 0, 1] 40000
    let a := SocketAddr.v4 #v[10, 0, 0, 2] 40000
    let r := (new 4 4).run
      [(0, .route 7 (.udp p)), (1, .route 7 (.webSocket 1)), (2, .floorRequest 7 p)]
    (r.wsIngress floorPacket 1 3).1 = [(.udp p, .forwarded floorPacket)] ∧
      ((r.withAddr (.webSocket 1) a).udpIngress floorPacket a 3).1 =
        [(.udp a, .floor .floorDeny 7)] ∧
      ¬Arbitrated floorPacket 1 a 3 r := by
  intro p a r
  have hws : (r.wsIngress floorPacket 1 3).1 = [(.udp p, .forwarded floorPacket)] := by
    have htargets : (r.route 7 (.webSocket 1) 3).1.targets = [.udp p] := by decide
    rw [wsIngress_eq decode_floorPacket]
    change (r.forward floorPacket 7 (.webSocket 1) 3).1 = _
    unfold forward
    dsimp only
    rw [htargets]
    rfl
  refine ⟨hws, ?_, fun harb => ?_⟩
  · have hdenied : (((r.withAddr (.webSocket 1) a).route 7 (.udp a) 3).2.floorRequest 7 a 3).1 =
        .denied := by decide
    rw [udpIngress_eq decode_floorPacket]
    change grantSends 7 a (((r.withAddr (.webSocket 1) a).route 7 (.udp a) 3).2.floorRequest 7 a
      3).1 = _
    rw [hdenied]
    rfl
  · refine harb.kept (.udp p, .forwarded floorPacket) ?_ rfl
    rw [hws]
    exact List.mem_singleton_self _

end Router
end GravitalTalk
