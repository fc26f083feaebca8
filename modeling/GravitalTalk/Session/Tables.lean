import GravitalTalk.Session.Rules
import GravitalTalk.Session.Stranger

/-!
# The tables of the peers

The book says who is spoken to; keys, liveness and replay windows are looked up
by address in tables of their own. They speak of the same peers as long as keys
are only stored for somebody in the book.
-/
namespace GravitalTalk
namespace Session

open Relation

variable {cfg : Config} {C : Crypto} {env : Env} {i : Arrival} {s₀ s t : Session cfg}
  {mid : Option SocketAddr}

/-- The tables speak of peers in the book, and everybody in the book has keys,
except `mid`, of whom nothing is known yet. -/
structure Linked (mid : Option SocketAddr) (s : Session cfg) : Prop where
  keys : ∀ a ∈ s.peers.peerKeys, a ∈ s.peers.book.peers
  seen : ∀ a ∈ s.live.peerSeen, a ∈ s.peers.book.peers
  windows : ∀ a ∈ s.peers.replayByPeer, a ∈ s.peers.book.peers
  own : ∀ a ∈ s.peers.book.peers, a ∈ s.peers.peerKeys ∨ mid = some a
  unknown : ∀ a ∈ mid, a ∉ s.peers.peerKeys ∧ a ∉ s.live.peerSeen ∧ a ∉ s.peers.replayByPeer

/-- No table knows anybody. -/
structure Unkeyed (s : Session cfg) : Prop where
  keys : s.peers.peerKeys = ∅
  seen : s.live.peerSeen = ∅
  windows : s.peers.replayByPeer = ∅

/-- Nothing of a connection is there. -/
structure Blank (s : Session cfg) : Prop where
  peers : s.peers = Peers.new
  seen : s.live.peerSeen = ∅
  pendingJoins : s.pendingJoins = ∅
  sessionId : s.status.sessionId = 0

/-- What an effect of the receive loop does to the tables: nothing, or it notes
that a known peer was heard, drops those that depart, or moves one of them. -/
inductive TableEffect (env : Env) (i : Arrival) (s₀ s : Session cfg) (t : Session cfg) : Prop
  | same (hpeers : t.peers = s.peers) (hseen : t.live.peerSeen = s.live.peerSeen)
  | see (sender : SocketAddr) (raw : Bytes) (hi : i = .loop sender raw)
      (hbook : sender ∈ s.peers.book.peers ∨ ∃ old ∈ s₀.peers.peerKeys, old ∉ s₀.peers.book.peers)
      (hpeers : t.peers = s.peers) (hseen : t.live.peerSeen = s.live.peerSeen.insert sender env.now)
  | mark (sender : SocketAddr) (raw : Bytes) (seq : UInt32) (hi : i = .loop sender raw)
      (hbook : sender ∈ s.peers.book.peers ∨ ∃ old ∈ s₀.peers.peerKeys, old ∉ s₀.peers.book.peers)
      (hkey : s.peers.decryptKey.isSome = true)
      (hpeers : t.peers = s.peers.mark sender seq) (hseen : t.live.peerSeen = s.live.peerSeen)
  | drop (gone : Finset SocketAddr) (hgone : ∀ a ∈ gone, Departs env i s₀ a)
      (h : t = s.dropPeers gone)
  | switch (old new : SocketAddr) (book : AddressBook) (raw : Bytes)
      (hi : i.datagram = some (new, raw))
      (hold : old ∈ s₀.peers.peerKeys ∧ i = .loop new raw ∧ new ∉ s₀.peers.book.peers ∨
        s₀.peers.book.primary = some old ∧ Rendezvous.isRendezvous raw = true)
      (hfirst : s.peers = s₀.peers) (hbook : s.peers.book.replace old new = some book)
      (hpeers : t.peers = s.peers.switch book old new)
      (hseen : t.live.peerSeen = s.live.peerSeen.rename old new)

theorem Quiet.tables (h : Quiet s t) : TableEffect env i s₀ s t := .same h.peers h.peerSeen

theorem isRendezvous_of_decode {raw : Bytes} {key : Rendezvous.RoomKey} {msg : Rendezvous.Message}
    (h : Rendezvous.Message.decode raw = some (key, msg)) :
    Rendezvous.isRendezvous raw = true := by
  unfold Rendezvous.Message.decode at h
  split at h
  · cases h
  · rename_i hhead
    rw [Bool.or_eq_true, not_or] at hhead
    simpa using hhead.1

theorem RxEffect.tables (he : RxEffect C env i s₀ s t) : TableEffect env i s₀ s t := by
  have hlost {sender : SocketAddr} (h : sender ∈ s.peers.book.peers ∨ ∃ old pair,
      s₀.peers.peerKeys.lookup old = some pair ∧ old ∉ s₀.peers.book.peers) :
      sender ∈ s.peers.book.peers ∨ ∃ old ∈ s₀.peers.peerKeys, old ∉ s₀.peers.book.peers :=
    h.imp id fun ⟨old, _, hkey, hold⟩ => ⟨old, Finmap.mem_of_lookup_eq_some hkey, hold⟩
  cases he with
  | quiet h => exact h.tables
  | see hi hbook => exact .see _ _ hi (hlost hbook) rfl rfl
  | drop gone hgone => exact .drop gone hgone rfl
  | buffer jitter gap => exact .same rfl rfl
  | note => exact .same rfl rfl
  | migrate hi hview hpeers hbook hopen hfresh hannounces =>
    rename_i sender old raw plain view key
    obtain ⟨⟨enc, hkey⟩, -⟩ := openAs_eq_some.mp hopen
    rcases switchPeer_cases env old sender s with h | ⟨book, hreplace, h⟩
    · exact .same (by rw [h]) (by rw [h])
    · exact .switch old sender book raw (by rw [hi]; rfl)
        (.inl ⟨Finmap.mem_of_lookup_eq_some hkey, hi, hbook⟩) hpeers hreplace h.peers h.peerSeen
  | probe hi hmsg hpeers hprimary hne hstale hlen =>
    rename_i sender old raw
    rcases switchPeer_cases env old sender s with h | ⟨book, hreplace, h⟩
    · exact .same (by rw [h]) (by rw [h])
    · exact .switch old sender book raw hi (.inr ⟨hprimary, isRendezvous_of_decode hmsg⟩) hpeers
        hreplace h.peers h.peerSeen
  | check hi hview hbook =>
    rename_i sender raw view
    rcases antiReplay_cases view raw sender s with ⟨-, h⟩ | ⟨key, hkey, -, h⟩
    · exact .same (by rw [h]) (by rw [h])
    · exact .mark sender raw _ hi (hlost hbook) (by rw [hkey]; rfl) h.peers h.peerSeen
  | hear hi hview htype hmedia hset hfresh hread =>
    rename_i sender raw plain view
    rcases hearFrame_cases C env sender view.header.timestamp plain s with
      h | ⟨-, -, h⟩ | ⟨-, -, offset, -, h⟩
    · exact h.tables
    · exact .same (by rw [h]; rfl) (by rw [h]; rfl)
    · exact .same h.peers (by rw [h.live]; rfl)
  | parity hi hview htype hmedia hset hfresh hflag hread =>
    rename_i sender raw plain view
    rcases hearParity_cases sender plain s with h | ⟨-, base, -, ⟨-, h⟩ | ⟨seq, payload, -, h⟩⟩
    · exact .same (by rw [h]) (by rw [h])
    · exact .same (by rw [h]) (by rw [h])
    · exact .same (by rw [h]) (by rw [h])

/-! ## Linked tables -/

namespace Linked

theorem of_eq (h : Linked mid s) (hpeers : t.peers = s.peers)
    (hseen : t.live.peerSeen = s.live.peerSeen) : Linked mid t := by
  constructor
  · rw [hpeers]
    exact h.keys
  · rw [hpeers, hseen]
    exact h.seen
  · rw [hpeers]
    exact h.windows
  · rw [hpeers]
    exact h.own
  · rw [hpeers, hseen]
    exact h.unknown

/-- A known peer moves with all that is known of it. -/
theorem switch (h : Linked none s) {old new : SocketAddr} {book : AddressBook}
    (hbook : s.peers.book.replace old new = some book)
    (hpeers : t.peers = s.peers.switch book old new)
    (hseen : t.live.peerSeen = s.live.peerSeen.rename old new) : Linked none t := by
  have hold : old ∈ s.peers.book.peers := by
    by_contra hno
    rw [AddressBook.replace_eq_none.mpr hno] at hbook
    cases hbook
  have hmove {α : Type} {m : Table SocketAddr α} (hm : ∀ a ∈ m, a ∈ s.peers.book.peers)
      {a : SocketAddr} (ha : a ∈ m.rename old new) : a ∈ book.peers := by
    rw [AddressBook.mem_replace hbook]
    by_cases hin : old ∈ m
    · rw [Table.mem_rename_of_mem hin] at ha
      exact ha.imp id fun ⟨ha, hne⟩ => ⟨hm a ha, hne⟩
    · rw [Table.rename_of_notMem hin] at ha
      exact .inr ⟨hm a ha, fun he => hin (he ▸ ha)⟩
  constructor
  · rw [hpeers]
    exact fun a ha => hmove h.keys ha
  · rw [hpeers, hseen]
    exact fun a ha => hmove h.seen ha
  · rw [hpeers]
    exact fun a ha => hmove h.windows ha
  · rw [hpeers]
    intro a ha
    have hkey : old ∈ s.peers.peerKeys := (h.own old hold).resolve_right nofun
    refine .inl ((Table.mem_rename_of_mem hkey).mpr ?_)
    exact ((AddressBook.mem_replace hbook).mp ha).imp id fun ⟨ha, hne⟩ =>
      ⟨(h.own a ha).resolve_right nofun, hne⟩
  · exact nofun

theorem drop (h : Linked none s) (gone : Finset SocketAddr) : Linked none (s.dropPeers gone) := by
  have hkeep {a : SocketAddr} (ha : a ∈ s.peers.book.peers) (hgone : a ∉ gone) :
      a ∈ (s.peers.dropAll gone).book.peers := by
    simp [Peers.dropAll, AddressBook.retain, ha, hgone]
  constructor
  · intro a ha
    obtain ⟨ha, hgone⟩ := Table.mem_retain.mp ha
    exact hkeep (h.keys a ha) (by simpa using hgone)
  · intro a ha
    obtain ⟨ha, hgone⟩ := Table.mem_retain.mp ha
    exact hkeep (h.seen a ha) (by simpa using hgone)
  · intro a ha
    obtain ⟨ha, hgone⟩ := Table.mem_retain.mp ha
    exact hkeep (h.windows a ha) (by simpa using hgone)
  · intro a ha
    obtain ⟨ha, hgone⟩ := List.mem_filter.mp ha
    exact .inl (Table.mem_retain.mpr ⟨(h.own a ha).resolve_right (by simp), hgone⟩)
  · intro a ha
    cases ha

theorem table (h₀ : Linked none s₀) (h : Linked none s) (he : TableEffect env i s₀ s t) :
    Linked none t := by
  have hknown {sender : SocketAddr} (hs : sender ∈ s.peers.book.peers ∨
      ∃ old ∈ s₀.peers.peerKeys, old ∉ s₀.peers.book.peers) : sender ∈ s.peers.book.peers := by
    refine hs.resolve_right ?_
    rintro ⟨old, hkey, hold⟩
    exact hold (h₀.keys old hkey)
  cases he with
  | same hpeers hseen => exact h.of_eq hpeers hseen
  | see sender raw hi hbook hpeers hseen =>
    refine ⟨?_, ?_, ?_, ?_, nofun⟩
    · rw [hpeers]
      exact h.keys
    · rw [hpeers, hseen]
      intro a ha
      rcases Finmap.mem_insert.mp ha with rfl | ha
      · exact hknown hbook
      · exact h.seen a ha
    · rw [hpeers]
      exact h.windows
    · rw [hpeers]
      exact h.own
  | mark sender raw seq hi hbook hkey hpeers hseen =>
    refine ⟨?_, ?_, ?_, ?_, nofun⟩
    · rw [hpeers]
      exact h.keys
    · rw [hpeers, hseen]
      exact h.seen
    · rw [hpeers]
      intro a ha
      rcases Finmap.mem_insert.mp ha with rfl | ha
      · exact hknown hbook
      · exact h.windows a ha
    · rw [hpeers]
      exact h.own
  | drop gone hgone ht =>
    rw [ht]
    exact h.drop gone
  | switch old new book raw hi hold hfirst hbook hpeers hseen => exact h.switch hbook hpeers hseen

theorem rx (h : Linked none s₀) (hrx : RxEffects C env i s₀ s₀ t) : Linked none t := by
  induction hrx with
  | refl => exact h
  | tail _ he ih => exact h.table ih he.tables

/-- Keys for somebody in the book. -/
theorem install (h : Linked mid s) (env : Env) {peer : SocketAddr}
    (hbook : peer ∈ s.peers.book.peers) (hmid : ∀ a ∈ mid, a = peer) (enc dec : SessionKey) :
    Linked none (s.installKeys env peer enc dec) := by
  refine ⟨fun a ha => ?_, fun a ha => ?_, h.windows, fun a ha => .inl ?_, nofun⟩
  · rcases Finmap.mem_insert.mp ha with rfl | ha
    · exact hbook
    · exact h.keys a ha
  · rcases Finmap.mem_insert.mp ha with rfl | ha
    · exact hbook
    · exact h.seen a ha
  · refine Finmap.mem_insert.mpr ?_
    rcases h.own a ha with hkey | ha
    · exact .inr hkey
    · exact .inl (hmid a ha)

/-- Somebody new is put in the book, or there is no room. -/
theorem insert (h : Linked none s) {peer : SocketAddr} (hnew : peer ∉ s.peers.book.peers) :
    Linked (some peer) { s with peers := s.peers.insert peer } := by
  have hgrow {a : SocketAddr} (ha : a ∈ s.peers.book.peers) :
      a ∈ (s.peers.book.insert peer).peers := by
    unfold AddressBook.insert
    split
    · exact ha
    · exact List.mem_append_left _ ha
  refine ⟨fun a ha => hgrow (h.keys a ha), fun a ha => hgrow (h.seen a ha),
    fun a ha => hgrow (h.windows a ha), fun a ha => ?_, fun a ha => ?_⟩
  · rcases AddressBook.mem_insert ha with rfl | ha
    · exact .inr rfl
    · exact .inl ((h.own a ha).resolve_right (by simp))
  · obtain rfl := Option.some.inj ha
    exact ⟨fun hin => hnew (h.keys _ hin), fun hin => hnew (h.seen _ hin),
      fun hin => hnew (h.windows _ hin)⟩

/-- The one that was not admitted leaves the book. -/
theorem remove {peer : SocketAddr} (h : Linked (some peer) s) :
    Linked none { s with peers := s.peers.remove peer } := by
  obtain ⟨hkey, hseen, hwindow⟩ := h.unknown peer rfl
  have hstay {a : SocketAddr} (ha : a ∈ s.peers.book.peers) (hne : a ≠ peer) :
      a ∈ (s.peers.book.remove peer).peers := AddressBook.mem_remove.mpr ⟨ha, hne⟩
  refine ⟨fun a ha => hstay (h.keys a ha) fun he => hkey (he ▸ ha),
    fun a ha => hstay (h.seen a ha) fun he => hseen (he ▸ ha),
    fun a ha => hstay (h.windows a ha) fun he => hwindow (he ▸ ha), fun a ha => .inl ?_, nofun⟩
  obtain ⟨ha, hne⟩ := AddressBook.mem_remove.mp ha
  exact (h.own a ha).resolve_right fun he => hne (Option.some.inj he).symm

end Linked

/-! ## Empty tables -/

theorem Blank.linked (h : Blank s) : Linked none s := by
  constructor
  · rw [h.peers]
    exact nofun
  · rw [h.seen]
    exact nofun
  · rw [h.peers]
    exact nofun
  · rw [h.peers]
    exact nofun
  · exact nofun

theorem Blank.unkeyed (h : Blank s) : Unkeyed s :=
  ⟨by rw [h.peers]; rfl, h.seen, by rw [h.peers]; rfl⟩

theorem retain_empty {α : Type} (gone : Finset SocketAddr) :
    Table.retain (fun a _ => a ∉ gone) (∅ : Table SocketAddr α) = ∅ := by
  apply Finmap.ext_lookup
  intro a
  rw [Table.lookup_retain]
  rfl

theorem rename_empty {α : Type} (old new : SocketAddr) :
    (∅ : Table SocketAddr α).rename old new = ∅ := Table.rename_of_notMem Finmap.notMem_empty

/-- In a session that waits for its first peer nothing gets into the tables, and
nobody into an empty book. -/
theorem Unkeyed.table (hi : ∀ sender raw, i ≠ .loop sender raw) (h : Unkeyed s)
    (he : TableEffect env i s₀ s t) :
    Unkeyed t ∧ (s.peers.book.peers = [] → t.peers.book.peers = []) := by
  cases he with
  | same hpeers hseen =>
    rw [hpeers]
    exact ⟨⟨hpeers ▸ h.keys, hseen.trans h.seen, hpeers ▸ h.windows⟩, id⟩
  | see sender raw hl => exact absurd hl (hi _ _)
  | mark sender raw seq hl => exact absurd hl (hi _ _)
  | drop gone hgone ht =>
    rw [ht]
    refine ⟨⟨?_, ?_, ?_⟩, fun hbook => ?_⟩
    · simp only [dropPeers, Peers.dropAll, h.keys, retain_empty]
    · simp only [dropPeers, h.seen, retain_empty]
    · simp only [dropPeers, Peers.dropAll, h.windows, retain_empty]
    · simp [dropPeers, Peers.dropAll, AddressBook.retain, hbook]
  | switch old new book raw hl hold hfirst hbook hpeers hseen =>
    refine ⟨⟨?_, ?_, ?_⟩, fun hempty => ?_⟩
    · rw [hpeers, Peers.switch, h.keys, rename_empty]
    · rw [hseen, h.seen, rename_empty]
    · rw [hpeers, Peers.switch, h.windows, rename_empty]
    · rw [AddressBook.replace_eq_none.mpr (by simp [hempty])] at hbook
      cases hbook

theorem Unkeyed.rx (hi : ∀ sender raw, i ≠ .loop sender raw) (h : Unkeyed s)
    (hrx : RxEffects C env i s₀ s t) :
    Unkeyed t ∧ (s.peers.book.peers = [] → t.peers.book.peers = []) := by
  induction hrx with
  | refl => exact ⟨h, id⟩
  | tail _ he ih =>
    obtain ⟨hu, hbook⟩ := ih.1.table hi he.tables
    exact ⟨hu, hbook ∘ ih.2⟩

/-- A session that was not started stays blank whatever it receives. -/
theorem Blank.rx (h : Blank s₀) (hrx : RxEffects C env i s₀ s₀ t) : Blank t := by
  induction hrx with
  | refl => exact h
  | @tail u v _ he ih =>
    have hkeeps := he.keeps
    have hsame (hpeers : v.peers = u.peers) (hseen : v.live.peerSeen = u.live.peerSeen) : Blank v :=
      ⟨hpeers.trans ih.peers, hseen.trans ih.seen, hkeeps.pendingJoins.trans ih.pendingJoins,
        hkeeps.sessionId.trans ih.sessionId⟩
    have hnobody {sender : SocketAddr} (hs : sender ∈ u.peers.book.peers ∨
        ∃ old ∈ s₀.peers.peerKeys, old ∉ s₀.peers.book.peers) : False := by
      rw [ih.peers, h.peers] at hs
      rcases hs with hs | ⟨old, hs, -⟩
      · cases hs
      · exact absurd hs Finmap.notMem_empty
    cases he.tables with
    | same hpeers hseen => exact hsame hpeers hseen
    | see sender raw hi hbook => exact (hnobody hbook).elim
    | mark sender raw seq hi hbook => exact (hnobody hbook).elim
    | drop gone hgone ht =>
      apply hsame
      · rw [ht, dropPeers, ih.peers]
        simp only [Peers.dropAll, Peers.new, retain_empty]
        rfl
      · rw [ht, dropPeers, ih.seen, retain_empty]
    | switch old new book raw hi hold hfirst hbook hpeers hseen =>
      rw [ih.peers, AddressBook.replace_eq_none.mpr (by simp [Peers.new, AddressBook.new])] at hbook
      cases hbook

end Session
end GravitalTalk
