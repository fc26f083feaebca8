import GravitalTalk.Session.Rules
import GravitalTalk.Transport.ReplayMarks

/-!
# Replays from elsewhere

Once the replay window of a peer knows a packet, a copy of it from another
address does not move the peer. Each packet that the window was asked about is
followed through the run by the key of its sender: the window goes with the key
when the peer moves, and what it knows ages by as much as it has advanced since.
-/
namespace GravitalTalk

namespace Session

open Rendezvous Relation

variable {cfg : Config} {C : Crypto} {env : Env} {i : Arrival} {s₀ s t : Session cfg}

/-! ## What moves a peer -/

/-- The datagram answers a probe, from elsewhere than the only peer, while the path is down. -/
def AnswersProbe (C : Crypto) (env : Env) (sender : SocketAddr) (raw : Bytes) (s : Session cfg) :
    Prop :=
  Message.decode raw = some (s.roomKey C, .punchAck s.settings.probeNonce) ∧
    s.pathIsStale env.now = true ∧ s.peers.book.len = 1 ∧ s.peers.book.primary ≠ some sender

instance (sender : SocketAddr) (raw : Bytes) (s : Session cfg) :
    Decidable (s.AnswersProbe C env sender raw) := inferInstanceAs (Decidable (_ ∧ _))

/-- Why `old` may be moved to `sender`: its packet came from there, or the answer to a probe. -/
inductive Moves (C : Crypto) (env : Env) (i : Arrival) (s₀ : Session cfg)
    (old sender : SocketAddr) : Prop
  | packet {raw plain : Bytes} {view : PacketView} {key : SessionKey}
      (hi : i = .loop sender raw) (hview : PacketView.decode raw = .ok view)
      (hannounces : announces view = true) (hbook : sender ∉ s₀.peers.book.peers)
      (hopen : s₀.openAs C old view raw = some (key, plain))
      (hfresh : s₀.freshFor old view.header.sequence = true)
  | probe {raw : Bytes} (hi : i.datagram = some (sender, raw))
      (h : s₀.AnswersProbe C env sender raw) (hprimary : s₀.peers.book.primary = some old)

/-- Everything that the windows, the keys and the addresses hang on is as it was. -/
structure SameWindows (s t : Session cfg) : Prop where
  keys : t.peers.peerKeys = s.peers.peerKeys
  windows : t.peers.replayByPeer = s.peers.replayByPeer
  closed : t.status.closed = s.status.closed
  installed : t.history.installed = s.history.installed
  marked : t.history.marked = s.history.marked
  switched : t.history.switched = s.history.switched

theorem Calm.sameWindows (h : Calm s t) : SameWindows s t :=
  ⟨by rw [h.peers], by rw [h.peers], h.closed, by rw [h.history], by rw [h.history],
    by rw [h.history]⟩

theorem SpeaksOnly.sameWindows (h : SpeaksOnly s t) : SameWindows s t :=
  ⟨by rw [h.peers], by rw [h.peers], by rw [h.status], by rw [h.history], by rw [h.history],
    by rw [h.history]⟩

/-- What an effect of a receive loop does to them. -/
inductive Touch (C : Crypto) (env : Env) (i : Arrival) (s₀ s t : Session cfg) : Prop
  | nothing (h : SameWindows s t)
  | drop (gone : Finset SocketAddr) (h : t = s.dropPeers gone)
  | switch (old sender : SocketAddr) (hmoves : Moves C env i s₀ old sender)
      (hpeers : s.peers = s₀.peers) (h : t = s.switchPeer env old sender)
  | check (sender : SocketAddr) (raw : Bytes) (view : PacketView)
      (hview : PacketView.decode raw = .ok view) (h : t = (s.antiReplay view raw sender).2)

theorem RxEffect.touch (he : RxEffect C env i s₀ s t) : Touch C env i s₀ s t := by
  cases he with
  | quiet h => exact .nothing h.calm.sameWindows
  | see => exact .nothing ⟨rfl, rfl, rfl, rfl, rfl, rfl⟩
  | drop gone => exact .drop gone rfl
  | buffer jitter gap => exact .nothing ⟨rfl, rfl, rfl, rfl, rfl, rfl⟩
  | note => exact .nothing ⟨rfl, rfl, rfl, rfl, rfl, rfl⟩
  | migrate hi hview hpeers hbook hopen hfresh hannounces =>
    exact .switch _ _ (.packet hi hview hannounces hbook hopen hfresh) hpeers rfl
  | probe hi hmsg hpeers hprimary hne hstale hlen =>
    refine .switch _ _ (.probe hi ⟨hmsg, hstale, hlen, ?_⟩ hprimary) hpeers rfl
    rw [hprimary]
    exact fun h => hne (Option.some.inj h)
  | check hi hview => exact .check _ _ _ hview rfl
  | hear =>
    rename_i sender raw plain view _ _ _ _ _ _ _
    rcases hearFrame_cases C env sender view.header.timestamp plain s with
      h | ⟨-, -, h⟩ | ⟨-, -, offset, -, h⟩
    · exact .nothing h.calm.sameWindows
    · rw [h]
      exact .nothing ⟨rfl, rfl, rfl, rfl, rfl, rfl⟩
    · have hspeaks := h.sameWindows
      exact .nothing ⟨hspeaks.keys, hspeaks.windows, hspeaks.closed, hspeaks.installed,
        hspeaks.marked, hspeaks.switched⟩
  | parity =>
    rename_i sender raw plain view _ _ _ _ _ _ _ _
    rcases hearParity_cases sender plain s with h | ⟨-, base, -, ⟨-, h⟩ | ⟨seq, payload, -, h⟩⟩
    · rw [h]
      exact .nothing ⟨rfl, rfl, rfl, rfl, rfl, rfl⟩
    · rw [h]
      exact .nothing ⟨rfl, rfl, rfl, rfl, rfl, rfl⟩
    · rw [h]
      exact .nothing ⟨rfl, rfl, rfl, rfl, rfl, rfl⟩

/-! ## What the windows know -/

/-- How far marks made under `key` moved the window of its owner. -/
def movedUnder (key : SessionKey) (marks : List Mark) : ℕ :=
  ((marks.filter fun k => k.key = some key).map Mark.advance).sum

@[simp] theorem movedUnder_nil (key : SessionKey) : movedUnder key [] = 0 := rfl

theorem movedUnder_cons (key : SessionKey) (k : Mark) (marks : List Mark) :
    movedUnder key (k :: marks) =
      (if k.key = some key then k.advance else 0) + movedUnder key marks := by
  unfold movedUnder
  split_ifs with h
  · simp [h]
  · simp [h]

/-- Windows, keys and marks fit together: a window knows what it was asked about under the key
of its owner, as far back as it has advanced since. -/
structure Tracked (s : Session cfg) : Prop where
  anchored : ∀ a w, s.peers.replayByPeer.lookup a = some w → w.Anchored
  stored : ∀ a pair, s.peers.peerKeys.lookup a = some pair →
    pair.2 ∈ s.history.installed.map Install.dec
  apart : ∀ a b pair pair', s.peers.peerKeys.lookup a = some pair →
    s.peers.peerKeys.lookup b = some pair' → pair.2 = pair'.2 → a = b
  known : ∀ k ∈ s.history.marked, ∀ key, k.key = some key →
    key ∈ s.history.installed.map Install.dec
  decoded : ∀ k ∈ s.history.marked, ∃ view, PacketView.decode k.datagram = .ok view ∧
    view.header.sequence = k.sequence
  leftBehind : s.status.closed = false → ∀ a pair n k, s.peers.peerKeys.lookup a = some pair →
    s.history.marked[n]? = some k → k.key = some pair.2 →
    k.behind + movedUnder pair.2 (s.history.marked.take n) < 2 ^ 32 →
    (s.peers.windowOf a).LeftBehind k.sequence
      (k.behind + movedUnder pair.2 (s.history.marked.take n)) (k.accepted = true ∧ k.behind ≠ 0)

namespace Tracked

theorem sameWindows (h : Tracked s) (hs : SameWindows s t) : Tracked t := by
  have hwindow (a : SocketAddr) : t.peers.windowOf a = s.peers.windowOf a := by
    unfold Peers.windowOf
    rw [hs.windows]
  refine ⟨?_, ?_, ?_, ?_, ?_, ?_⟩
  · rw [hs.windows]
    exact h.anchored
  · rw [hs.keys, hs.installed]
    exact h.stored
  · rw [hs.keys]
    exact h.apart
  · rw [hs.marked, hs.installed]
    exact h.known
  · rw [hs.marked]
    exact h.decoded
  · rw [hs.closed, hs.keys, hs.marked]
    simp only [hwindow]
    exact h.leftBehind

theorem windowOf_anchored (h : Tracked s) (a : SocketAddr) : (s.peers.windowOf a).Anchored := by
  unfold Peers.windowOf
  cases hw : s.peers.replayByPeer.lookup a with
  | none => exact ReplayWindow.anchored_new
  | some w => exact h.anchored a w hw

theorem dropPeers (h : Tracked s) (gone : Finset SocketAddr) : Tracked (s.dropPeers gone) := by
  have hkeys {a : SocketAddr} {pair : SessionKey × SessionKey}
      (ha : (s.dropPeers gone).peers.peerKeys.lookup a = some pair) :
      a ∉ gone ∧ s.peers.peerKeys.lookup a = some pair := by
    simp only [Session.dropPeers, Peers.dropAll, Table.lookup_retain,
      Option.filter_eq_some_iff, decide_eq_true_eq] at ha
    exact ⟨ha.2, ha.1⟩
  refine ⟨fun a w hw => ?_, fun a pair ha => h.stored a pair (hkeys ha).2,
    fun a b pair pair' ha hb => h.apart a b pair pair' (hkeys ha).2 (hkeys hb).2, h.known,
    h.decoded, fun hopen a pair n k ha hn hkey hage => ?_⟩
  · simp only [Session.dropPeers, Peers.dropAll, Table.lookup_retain,
      Option.filter_eq_some_iff] at hw
    exact h.anchored a w hw.1
  · have hwindow : (s.dropPeers gone).peers.windowOf a = s.peers.windowOf a := by
      simp only [Peers.windowOf, Session.dropPeers, Peers.dropAll, Table.lookup_retain]
      cases s.peers.replayByPeer.lookup a with
      | none => rfl
      | some w => simp [Option.filter, (hkeys ha).1]
    rw [hwindow]
    exact h.leftBehind hopen a pair n k (hkeys ha).2 hn hkey hage

/-- The window goes with the key. -/
theorem switchPeer (h : Tracked s) {old new : SocketAddr} (hold : old ∈ s.peers.peerKeys) :
    Tracked (s.switchPeer env old new) := by
  rcases switchPeer_cases env old new s with he | ⟨book, -, hq⟩
  · rwa [he]
  · refine Tracked.sameWindows ?_ hq.calm.sameWindows
    obtain ⟨own, hown⟩ := Finmap.mem_iff.mp hold
    have hkeys {a : SocketAddr} {pair : SessionKey × SessionKey}
        (ha : (s.peers.peerKeys.rename old new).lookup a = some pair) :
        a = new ∧ pair = own ∨ a ≠ new ∧ a ≠ old ∧ s.peers.peerKeys.lookup a = some pair := by
      rw [Table.lookup_rename, hown] at ha
      dsimp only at ha
      split_ifs at ha with hnew ho
      · exact .inl ⟨hnew, (Option.some.inj ha).symm⟩
      · exact .inr ⟨hnew, ho, ha⟩
    have hother {a : SocketAddr} {pair : SessionKey × SessionKey} (hne : a ≠ old)
        (ha : s.peers.peerKeys.lookup a = some pair) : pair.2 ≠ own.2 :=
      fun heq => hne (h.apart a old pair own ha hown heq)
    refine ⟨fun a w hw => ?_, fun a pair ha => ?_, fun a b pair pair' ha hb heq => ?_, h.known,
      h.decoded, fun hopen a pair n k ha hn hkey hage => ?_⟩
    · simp only [Peers.switch, Table.lookup_rename] at hw
      split at hw
      · rename_i w' hw'
        split_ifs at hw
        · rw [← Option.some.inj hw]
          exact h.anchored old w' hw'
        · exact h.anchored a w hw
      · exact h.anchored a w hw
    · rcases hkeys ha with ⟨-, rfl⟩ | ⟨-, -, ha⟩
      · exact h.stored old _ hown
      · exact h.stored a pair ha
    · rcases hkeys ha with ⟨rfl, rfl⟩ | ⟨-, ho, ha⟩
      · rcases hkeys hb with ⟨rfl, -⟩ | ⟨-, ho, hb⟩
        · rfl
        · exact absurd heq.symm (hother ho hb)
      · rcases hkeys hb with ⟨-, rfl⟩ | ⟨-, -, hb⟩
        · exact absurd heq (hother ho ha)
        · exact h.apart a b pair pair' ha hb heq
    · have hbehind (b : SocketAddr) (hb : s.peers.peerKeys.lookup b = some pair) :=
        h.leftBehind hopen b pair n k hb hn hkey hage
      rcases hkeys ha with ⟨rfl, rfl⟩ | ⟨hne, ho, ha⟩
      · have hw := hbehind old hown
        simp only [Peers.windowOf, Peers.switch, Table.lookup_rename] at hw ⊢
        cases hwin : s.peers.replayByPeer.lookup old with
        | none =>
          rw [hwin] at hw
          exact absurd hw.initialized (by decide)
        | some w =>
          rw [hwin] at hw
          simpa using hw
      · have hw := hbehind a ha
        simp only [Peers.windowOf, Peers.switch, Table.lookup_rename] at hw ⊢
        cases hwin : s.peers.replayByPeer.lookup old with
        | none => exact hw
        | some w => simpa [hne, ho] using hw

/-- The window of the sender learns of one more packet, the others stay as they are. -/
theorem antiReplay (h : Tracked s) {view : PacketView} {raw : Bytes}
    (hview : PacketView.decode raw = .ok view) (sender : SocketAddr) :
    Tracked (s.antiReplay view raw sender).2 := by
  rcases antiReplay_cases view raw sender s with ⟨-, he⟩ | ⟨-, -, -, hq⟩
  · rwa [he]
  · refine Tracked.sameWindows ?_ hq.calm.sameWindows
    have hanchored := h.windowOf_anchored sender
    have hown {a : SocketAddr} {pair : SessionKey × SessionKey}
        (ha : s.peers.peerKeys.lookup a = some pair) :
        (s.peers.peerKeys.lookup sender).map Prod.snd = some pair.2 ↔ a = sender := by
      constructor
      · intro hkey
        obtain ⟨pair', hsender, heq⟩ := Option.map_eq_some_iff.mp hkey
        exact (h.apart sender a pair' pair hsender ha heq).symm
      · rintro rfl
        rw [ha]
        rfl
    have hwindow (a : SocketAddr) : (s.peers.mark sender view.header.sequence).windowOf a =
        if a = sender then ((s.peers.windowOf sender).checkAndMark view.header.sequence).2
        else s.peers.windowOf a := by
      simp only [Peers.mark, Peers.windowOf, Table.lookup_insert_eq]
      split_ifs <;> rfl
    refine ⟨fun a w hw => ?_, h.stored, h.apart, fun k hk key hkey => ?_, fun k hk => ?_,
      fun hopen a pair n k ha hn hkey hage => ?_⟩
    · simp only [Peers.mark, Table.lookup_insert_eq] at hw
      split_ifs at hw
      · rw [← Option.some.inj hw]
        exact hanchored.check _
      · exact h.anchored a w hw
    · rcases List.mem_cons.mp hk with rfl | hk
      · obtain ⟨pair, hpair, rfl⟩ := Option.map_eq_some_iff.mp hkey
        exact h.stored sender pair hpair
      · exact h.known k hk key hkey
    · rcases List.mem_cons.mp hk with rfl | hk
      · exact ⟨view, hview, rfl⟩
      · exact h.decoded k hk
    · cases n with
      | zero =>
        simp only [List.getElem?_cons_zero, Option.some.injEq] at hn
        subst hn
        have hsender := (hown ha).mp hkey
        simp only [List.take_zero, movedUnder_nil, Nat.add_zero, hwindow, hsender, if_true]
        exact hanchored.leftBehind _
      | succ n =>
        simp only [List.getElem?_cons_succ] at hn
        simp only [List.take_succ_cons, movedUnder_cons, hown ha] at hage ⊢
        have hbehind := h.leftBehind hopen a pair n k ha hn hkey (by omega)
        simp only [hwindow]
        split_ifs at hage ⊢ with hsender
        · subst hsender
          have hstep := hbehind.step view.header.sequence (by omega)
          rwa [Nat.add_assoc, Nat.add_comm (movedUnder _ _)] at hstep
        · simpa using hbehind

/-- Keys that were never stored before have no marks yet. -/
theorem installKeys (h : Tracked s) {peer : SocketAddr} {enc dec : SessionKey}
    (hnew : dec ∉ s.history.installed.map Install.dec) :
    Tracked (s.installKeys env peer enc dec) := by
  have hkeys {a : SocketAddr} {pair : SessionKey × SessionKey}
      (ha : (s.installKeys env peer enc dec).peers.peerKeys.lookup a = some pair) :
      a = peer ∧ pair = (enc, dec) ∨ a ≠ peer ∧ s.peers.peerKeys.lookup a = some pair := by
    simp only [Session.installKeys, Peers.install, Table.lookup_insert_eq] at ha
    split_ifs at ha with hpeer
    · exact .inl ⟨hpeer, (Option.some.inj ha).symm⟩
    · exact .inr ⟨hpeer, ha⟩
  have hother {a : SocketAddr} {pair : SessionKey × SessionKey}
      (ha : s.peers.peerKeys.lookup a = some pair) : pair.2 ≠ dec :=
    fun heq => hnew (heq ▸ h.stored a pair ha)
  refine ⟨h.anchored, fun a pair ha => ?_, fun a b pair pair' ha hb heq => ?_,
    fun k hk key hkey => List.mem_cons_of_mem _ (h.known k hk key hkey), h.decoded,
    fun hopen a pair n k ha hn hkey hage => ?_⟩
  · rcases hkeys ha with ⟨-, rfl⟩ | ⟨-, ha⟩
    · exact List.mem_cons_self
    · exact List.mem_cons_of_mem _ (h.stored a pair ha)
  · rcases hkeys ha with ⟨rfl, rfl⟩ | ⟨-, ha⟩
    · rcases hkeys hb with ⟨rfl, -⟩ | ⟨-, hb⟩
      · rfl
      · exact absurd heq.symm (hother hb)
    · rcases hkeys hb with ⟨-, rfl⟩ | ⟨-, hb⟩
      · exact absurd heq (hother ha)
      · exact h.apart a b pair pair' ha hb heq
  · rcases hkeys ha with ⟨-, rfl⟩ | ⟨-, ha⟩
    · exact absurd (h.known k (List.mem_of_getElem? hn) dec hkey) hnew
    · exact h.leftBehind hopen a pair n k ha hn hkey hage

/-- A closed session promises nothing about its windows. -/
theorem close (h : Tracked s) : Tracked (s.close env) := by
  rw [close_eq]
  exact ⟨fun a w hw => by simp [Peers.close] at hw, h.stored, h.apart, h.known, h.decoded, nofun⟩

theorem reopen (h : Tracked s) : Tracked s.reopen.2 := by
  rcases reopen_cases s with he | ⟨hpeers, -, hhistory⟩
  · rwa [he]
  · have hnobody (a : SocketAddr) : s.reopen.2.peers.peerKeys.lookup a = none := by
      rw [hpeers]
      rfl
    refine ⟨fun a w hw => ?_, fun a pair ha => ?_, fun a b pair pair' ha => ?_, ?_, ?_,
      fun _ a pair n k ha => ?_⟩
    · rw [hpeers] at hw
      cases hw
    · rw [hnobody] at ha
      cases ha
    · rw [hnobody] at ha
      cases ha
    · rw [hhistory]
      exact h.known
    · rw [hhistory]
      exact h.decoded
    · rw [hnobody] at ha
      cases ha

end Tracked

theorem tracked_initial (cfg : Config) (nonce : Vector UInt8 8) : Tracked (initial cfg nonce) := by
  have hnobody (a : SocketAddr) : (initial cfg nonce).peers.peerKeys.lookup a = none := rfl
  have hmarks : (initial cfg nonce).history.marked = [] := rfl
  refine ⟨fun a w hw => ?_, fun a pair ha => ?_, fun a b pair pair' ha => ?_, ?_, ?_,
    fun _ a pair n k ha => ?_⟩
  · cases hw
  · rw [hnobody] at ha
    cases ha
  · rw [hnobody] at ha
    cases ha
  · simp [hmarks]
  · simp [hmarks]
  · rw [hnobody] at ha
    cases ha

/-- Every effect keeps track, given that no key is stored twice and that an answered probe moves
a peer with keys of its own. -/
theorem Effect.tracked (he : Effect C env i s₀ s t)
    (hprobe : ∀ sender raw old, i.datagram = some (sender, raw) →
      s₀.AnswersProbe C env sender raw → s₀.peers.book.primary = some old →
      old ∈ s₀.peers.peerKeys)
    (h : (s.history.installed.map Install.dec).Nodup → Tracked s)
    (hnew : (t.history.installed.map Install.dec).Nodup) : Tracked t := by
  cases he with
  | rx he =>
    rw [he.keeps.installed] at hnew
    specialize h hnew
    cases he.touch with
    | nothing hs => exact h.sameWindows hs
    | drop gone ht =>
      rw [ht]
      exact h.dropPeers gone
    | switch old sender hmoves hpeers ht =>
      rw [ht]
      refine h.switchPeer ?_
      rw [hpeers]
      cases hmoves with
      | packet _ _ _ _ hopen =>
        obtain ⟨⟨enc, hkey⟩, -⟩ := openAs_eq_some.mp hopen
        exact Finmap.mem_iff.mpr ⟨_, hkey⟩
      | probe hi hanswers hprimary => exact hprobe _ _ _ hi hanswers hprimary
    | check sender raw view hview ht =>
      rw [ht]
      exact h.antiReplay hview sender
  | calm hc =>
    rw [hc.history] at hnew
    exact (h hnew).sameWindows hc.sameWindows
  | insert a => exact (h hnew).sameWindows ⟨rfl, rfl, rfl, rfl, rfl, rfl⟩
  | remove a => exact (h hnew).sameWindows ⟨rfl, rfl, rfl, rfl, rfl, rfl⟩
  | clearBook => exact (h hnew).sameWindows ⟨rfl, rfl, rfl, rfl, rfl, rfl⟩
  | joins pending => exact (h hnew).sameWindows ⟨rfl, rfl, rfl, rfl, rfl, rfl⟩
  | install peer enc dec =>
    obtain ⟨hdec, hrest⟩ := List.nodup_cons.mp hnew
    exact (h hrest).installKeys hdec
  | say payload =>
    have hs := (speaksOnly_sendAudio C env payload s).sameWindows
    rw [hs.installed] at hnew
    exact (h hnew).sameWindows hs
  | close =>
    rw [close_eq] at hnew
    exact (h hnew).close
  | reopen =>
    refine (h ?_).reopen
    rcases reopen_cases s with he | ⟨-, -, hhistory⟩
    · rwa [he] at hnew
    · rwa [hhistory] at hnew

/-! ## Copies move nobody -/

/-- Without a reason to move anybody in the book, nobody is moved. -/
theorem Effect.switched (he : Effect C env i s₀ s t)
    (hstay : ∀ old sender, old ∈ s₀.peers.book.peers → ¬ Moves C env i s₀ old sender) :
    t.history.switched = s.history.switched := by
  cases he with
  | rx he =>
    cases he.touch with
    | nothing hs => exact hs.switched
    | drop gone ht => rw [ht]; rfl
    | switch old sender hmoves hpeers ht =>
      rw [ht]
      rcases switchPeer_cases env old sender s with he | ⟨book, hbook, -⟩
      · rw [he]
      · refine absurd hmoves (hstay old sender ?_)
        by_contra hno
        rw [hpeers, AddressBook.replace_eq_none.mpr hno] at hbook
        cases hbook
    | check sender raw view hview ht =>
      rw [ht]
      rcases antiReplay_cases view raw sender s with ⟨-, he⟩ | ⟨-, -, -, hq⟩
      · rw [he]
      · rw [hq.history]
  | calm hc => rw [hc.history]
  | insert a => rfl
  | remove a => rfl
  | clearBook => rfl
  | joins pending => rfl
  | install peer enc dec => rfl
  | say payload => exact (speaksOnly_sendAudio C env payload s).sameWindows.switched
  | close => rw [close_eq]
  | reopen =>
    rcases reopen_cases s with he | ⟨-, -, hhistory⟩
    · rw [he]
    · rw [hhistory]

/-- The session took `raw` in from the owner of `key`, did not accept it late, and has not moved
the owner's window by half a turn since. -/
def Remembers (key : SessionKey) (raw : Bytes) (s : Session cfg) : Prop :=
  s.status.closed = false ∧ ∃ n k, s.history.marked[n]? = some k ∧ k.datagram = raw ∧
    k.key = some key ∧ k.behind + movedUnder key (s.history.marked.take n) < 2 ^ 31 ∧
    (k.accepted = true ∧ k.behind ≠ 0 →
      window ≤ k.behind + movedUnder key (s.history.marked.take n))

/-- Whoever's key opens `raw` as an announcement has sent it, and the session remembers it. -/
def Spent (C : Crypto) (raw : Bytes) (s : Session cfg) : Prop :=
  ∀ view, PacketView.decode raw = .ok view → announces view = true →
    ∀ a ∈ s.peers.book.peers, ∀ key plain, s.openAs C a view raw = some (key, plain) →
      s.Remembers key raw

/-- What the session remembers is not fresh. -/
theorem Tracked.stale (h : Tracked s) {a : SocketAddr} {enc key : SessionKey} {raw : Bytes}
    {view : PacketView} (hview : PacketView.decode raw = .ok view)
    (ha : s.peers.peerKeys.lookup a = some (enc, key)) (hraw : s.Remembers key raw) :
    s.freshFor a view.header.sequence = false := by
  obtain ⟨hopen, n, k, hn, rfl, hkey, hage, hlate⟩ := hraw
  obtain ⟨view', hview', hseq⟩ := h.decoded k (List.mem_of_getElem? hn)
  rw [hview] at hview'
  cases hview'
  have hbehind := h.leftBehind hopen a (enc, key) n k ha hn hkey (hage.trans (by decide))
  rw [← hseq] at hbehind
  have hrefused := (hbehind.seen hlate).refused hage
  have hinit := hbehind.initialized
  unfold freshFor
  unfold Peers.windowOf at hrefused hinit
  split
  · rename_i hnone
    rw [hnone] at hinit
    exact absurd hinit (by decide)
  · rename_i w hw
    rwa [hw] at hrefused

end Session

namespace Machine

open Session Relation Run

variable {cfg : Config} {C : Crypto} {m : Machine C cfg}

/-- The step stores no decryption key for the second time. -/
def NewKeys (C : Crypto) (m : Machine C cfg) (x : Env × Action) : Prop :=
  ((step C x.1 m x.2).session.history.installed.map Install.dec).Nodup

instance (m : Machine C cfg) (x : Env × Action) : Decidable (NewKeys C m x) :=
  inferInstanceAs (Decidable (List.Nodup _))

/-- An answered probe moves a peer with keys of its own. -/
def ProbesKeyed (C : Crypto) (m : Machine C cfg) (x : Env × Action) : Prop :=
  ∀ sender raw old, (m.arrival x.2).datagram = some (sender, raw) →
    m.session.AnswersProbe C x.1 sender raw → m.session.peers.book.primary = some old →
    old ∈ m.session.peers.peerKeys

/-- From outside the book come only copies that the session remembers, and no answer to a probe
while the path is down. -/
def OnlyReplays (C : Crypto) (m : Machine C cfg) (x : Env × Action) : Prop :=
  (∀ sender raw, m.arrival x.2 = .loop sender raw → sender ∉ m.session.peers.book.peers →
    m.session.Spent C raw) ∧
  ∀ sender raw, (m.arrival x.2).datagram = some (sender, raw) →
    ¬ m.session.AnswersProbe C x.1 sender raw

theorem OnlyReplays.probesKeyed {x : Env × Action} (h : OnlyReplays C m x) : ProbesKeyed C m x :=
  fun sender raw _ hi hanswers => absurd hanswers (h.2 sender raw hi)

/-- One step keeps track of the windows. -/
theorem tracked_step (h : Tracked m.session) {x : Env × Action} (hnew : NewKeys C m x)
    (hprobe : ProbesKeyed C m x) : Tracked (step C x.1 m x.2).session := by
  refine step_invariant (fun s settings
    (hs : (s.history.installed.map Install.dec).Nodup → Tracked s) => ?_)
    (fun hs he => he.tracked hprobe hs) (fun _ => h) hnew
  exact fun hnodup => (hs hnodup).sameWindows ⟨rfl, rfl, rfl, rfl, rfl, rfl⟩

/-- One step with only replays from outside moves nobody. -/
theorem switched_step (h : Tracked m.session) {x : Env × Action} (hx : OnlyReplays C m x) :
    (step C x.1 m x.2).session.history.switched = m.session.history.switched := by
  have hstay (old sender : SocketAddr) (hold : old ∈ m.session.peers.book.peers) :
      ¬ Moves C x.1 (m.arrival x.2) m.session old sender := by
    intro hmoves
    cases hmoves with
    | packet hi hview hannounces hbook hopen hfresh =>
      obtain ⟨⟨enc, hkey⟩, -⟩ := openAs_eq_some.mp hopen
      have hraw := hx.1 _ _ hi hbook _ hview hannounces old hold _ _ hopen
      rw [h.stale hview hkey hraw] at hfresh
      cases hfresh
    | probe hi hanswers hprimary => exact hx.2 _ _ hi hanswers
  exact step_invariant
    (fun s settings (hs : s.history.switched = m.session.history.switched) => hs)
    (fun hs he => (he.switched hstay).trans hs) rfl

/-- From any session that a run reaches in which no key is stored twice and answered probes move
peers with keys of their own: as long as all that comes from outside the book are copies that the
session remembers, and no answer to a probe while the path is down, nobody's address changes. -/
theorem replays_redirect_nobody (C : Crypto) (nonce : Vector UInt8 8)
    (before after : List (Env × Action))
    (hbefore : Along (fun m x => step C x.1 m x.2) (fun m x => NewKeys C m x ∧ ProbesKeyed C m x)
      (rest C (initial cfg nonce)) before)
    (hafter : Along (fun m x => step C x.1 m x.2) (fun m x => NewKeys C m x ∧ OnlyReplays C m x)
      (run C (rest C (initial cfg nonce)) before) after) :
    (run C (run C (rest C (initial cfg nonce)) before) after).session.history.switched =
      (run C (rest C (initial cfg nonce)) before).session.history.switched := by
  have hreached : Tracked (run C (rest C (initial cfg nonce)) before).session :=
    @Along.invariant _ _ _ _ _ _ (fun m => Tracked m.session)
      (fun _ _ h hx => tracked_step h hx.1 hx.2) hbefore (tracked_initial cfg nonce)
  generalize run C (rest C (initial cfg nonce)) before = m at hreached hafter
  have hinv := hafter.invariant
    (fun m' x (h : Tracked m'.session ∧ m'.session.history.switched = m.session.history.switched)
      hx => ⟨tracked_step h.1 hx.1 hx.2.probesKeyed, (switched_step h.1 hx.2).trans h.2⟩)
    ⟨hreached, rfl⟩
  exact hinv.2

/-! ## Examples -/

namespace ReplayExample

def thief : SocketAddr := .v4 (Vector.replicate 4 7) 7

abbrev start : Machine Crypto.toy Config.default :=
  rest Crypto.toy (initial Config.default (Vector.replicate 8 0))

/-- An audio packet of the guest. -/
def frame (seq : UInt32) : Bytes := Pairing.sealed .audioFrame seq [0, 0, 0, 0, 1]

/-- An answer of the guest to a probe. -/
def answer : Bytes :=
  Rendezvous.Message.encode (start.session.roomKey Crypto.toy) (.punchAck (Vector.replicate 8 0))

/-- The pairing, and what comes from the guest afterwards. -/
noncomputable def heard (raws : List Bytes) : List (Env × Action) :=
  Pairing.steps ++ raws.map fun raw => (Pairing.at' 2, .recv Pairing.guest raw)

/-- What the thief sends again at time `n`. -/
noncomputable def again (n : ℕ) (raw : Bytes) : Env × Action := (Pairing.at' n, .recv thief raw)

theorem bytes_of_datagram {m : Machine C cfg} {a : Action} {sender : SocketAddr} {raw : Bytes}
    (h : (m.arrival a).datagram = some (sender, raw)) : a.bytes = some raw := by
  cases harr : m.arrival a with
  | none =>
    simp only [harr, Arrival.datagram] at h
    cases h
  | loop sender' raw' =>
    simp only [harr, Arrival.datagram, Option.some.injEq, Prod.mk.injEq] at h
    rw [← h.2]
    exact bytes_of_arrival harr
  | handshake sender' raw' =>
    simp only [harr, Arrival.datagram, Option.some.injEq, Prod.mk.injEq] at h
    unfold arrival at harr
    split at harr
    · cases harr
      rw [← h.2]
      rfl
    · split at harr <;> cases harr
    · split at harr <;> cases harr
    · cases harr

/-- No rendezvous message comes in. -/
theorem probesKeyed_of_packet {m : Machine C cfg} {env : Env} {a : Action}
    (h : ∀ raw, a.bytes = some raw → Rendezvous.Message.decode raw = none) :
    ProbesKeyed C m (env, a) := by
  intro sender raw old hi hanswers
  have hmsg := hanswers.1
  rw [h raw (bytes_of_datagram hi)] at hmsg
  cases hmsg

/-- The guest is the only peer, and what the thief repeats is remembered. -/
theorem onlyReplays_again {m : Machine Crypto.toy Config.default} {enc key : SessionKey} {n : ℕ}
    {raw : Bytes} (hbook : m.session.peers.book.peers = [Pairing.guest])
    (hkeys : m.session.peers.peerKeys.lookup Pairing.guest = some (enc, key))
    (hraw : m.session.Remembers key raw) (hmsg : Rendezvous.Message.decode raw = none) :
    OnlyReplays Crypto.toy m (again n raw) := by
  constructor
  · intro sender raw' harr _ view _ _ a ha key' plain hopen
    obtain ⟨-, rfl⟩ := arrival_recv harr
    rw [hbook, List.mem_singleton] at ha
    subst ha
    obtain ⟨⟨enc', hkey⟩, -⟩ := openAs_eq_some.mp hopen
    rw [hkeys] at hkey
    cases hkey
    exact hraw
  · intro sender raw' hi hanswers
    obtain rfl : raw = raw' := Option.some.inj (bytes_of_datagram hi)
    have hanswer := hanswers.1
    rw [hmsg] at hanswer
    cases hanswer

end ReplayExample

open ReplayExample in
/-- The thief repeats the guest's newest packet, and the guest stays where it is. -/
theorem replays_redirect_nobody_newest :
    (run Crypto.toy (run Crypto.toy start (heard [frame 10]))
        [again 3 (frame 10)]).session.history.switched =
      (run Crypto.toy start (heard [frame 10])).session.history.switched := by
  have hframe : Rendezvous.Message.decode (frame 10) = none := by decide +kernel
  have hbefore : Along (fun m x => step Crypto.toy x.1 m x.2)
      (fun m x => NewKeys Crypto.toy m x ∧ ProbesKeyed Crypto.toy m x) start
      (heard [frame 10]) := by
    refine along_and.mpr ⟨by decide +kernel, ?_⟩
    refine ⟨probesKeyed_of_packet ?_, probesKeyed_of_packet ?_, probesKeyed_of_packet ?_,
      probesKeyed_of_packet ?_, trivial⟩
    · exact nofun
    · rintro _ ⟨⟩
      decide +kernel
    · rintro _ ⟨⟩
      decide +kernel
    · rintro _ ⟨⟩
      exact hframe
  have hkeys : (run Crypto.toy start (heard [frame 10])).session.peers.peerKeys.lookup
      Pairing.guest = some (Pairing.keys.2, Pairing.keys.1) := by decide +kernel
  have hnew : NewKeys Crypto.toy (run Crypto.toy start (heard [frame 10]))
      (again 3 (frame 10)) := by decide +kernel
  have hraw : (run Crypto.toy start (heard [frame 10])).session.Remembers Pairing.keys.1
      (frame 10) := by
    have hmark : ((run Crypto.toy start (heard [frame 10])).session.history.marked[0]?).any
        (fun k => decide (k.datagram = frame 10 ∧ k.key = some Pairing.keys.1 ∧ k.behind = 0)) =
        true := by decide +kernel
    obtain ⟨k, hk, hp⟩ := (Option.any_eq_true _ _).mp hmark
    obtain ⟨hdatagram, hown, hzero⟩ := of_decide_eq_true hp
    refine ⟨by decide +kernel, 0, k, hk, hdatagram, hown, ?_, fun hlate => absurd hzero hlate.2⟩
    simp [hzero]
  have honly : OnlyReplays Crypto.toy (run Crypto.toy start (heard [frame 10]))
      (again 3 (frame 10)) :=
    onlyReplays_again (by decide +kernel) hkeys hraw hframe
  have hafter : Along (fun m x => step Crypto.toy x.1 m x.2)
      (fun m x => NewKeys Crypto.toy m x ∧ OnlyReplays Crypto.toy m x)
      (run Crypto.toy start (heard [frame 10])) [again 3 (frame 10)] :=
    ⟨⟨hnew, honly⟩, trivial⟩
  have hmain := replays_redirect_nobody Crypto.toy (Vector.replicate 8 0) (heard [frame 10])
    [again 3 (frame 10)] hbefore
  generalize run Crypto.toy start (heard [frame 10]) = m at hmain hafter ⊢
  exact hmain hafter

open ReplayExample in
/-- A packet that was late is taken once more from the thief, and so is the answer to a probe
once the path is down: the session goes on with the thief. -/
theorem replays_redirect :
    let late := run Crypto.toy start (heard [frame 10, frame 5])
    let probed := run Crypto.toy start (heard [frame 10, answer])
    (late.session.status.state = .active ∧ thief ∉ late.session.peers.book.peers ∧
      (∃ k ∈ late.session.history.marked, k.sender = Pairing.guest ∧ k.datagram = frame 5) ∧
      late.session.history.switched = [] ∧
      (run Crypto.toy late [again 3 (frame 5)]).session.history.switched =
        [(Pairing.guest, thief)]) ∧
    probed.session.status.state = .active ∧ thief ∉ probed.session.peers.book.peers ∧
      probed.session.history.switched = [] ∧
      (run Crypto.toy probed [again 9 answer]).session.history.switched =
        [(Pairing.guest, thief)] := by
  decide +kernel

end Machine
end GravitalTalk
