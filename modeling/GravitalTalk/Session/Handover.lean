import GravitalTalk.Session.RoomFec
import GravitalTalk.Transport.BookOrder
import GravitalTalk.Transport.Playout

/-!
# The floor changes hands

What a session holds for one address: its place in the book, its keys, its replay
window, when it was last heard, and in a room the floor. `switch_peer` moves the
first four and leaves the floor behind.

When the floor passes to another speaker, its numbers continue at the cursor of
the jitter buffer, so they meet the numbers of what still waits there.
-/
namespace GravitalTalk

/-- What `f` gives for `old`, `f'` gives for `new`; for all other addresses they agree. -/
def Moved {α : Type*} (f f' : SocketAddr → Option α) (old new : SocketAddr) : Prop :=
  f' new = f old ∧ ∀ a, a ≠ old → a ≠ new → f' a = f a

namespace AddressBook

/-- The place of an address in the book. -/
def position (b : AddressBook) (a : SocketAddr) : Option ℕ := b.peers.idxOf? a

variable {l : List SocketAddr} {old new : SocketAddr}

theorem idxOf?_append (l l' : List SocketAddr) (a : SocketAddr) :
    (l ++ l').idxOf? a = (l.idxOf? a).or ((l'.idxOf? a).map fun i => i + l.length) :=
  List.findIdx?_append

theorem idxOf?_cons_of_ne {a b : SocketAddr} (h : a ≠ b) (l : List SocketAddr) :
    (b :: l).idxOf? a = (l.idxOf? a).map fun i => i + 1 := by
  rw [List.idxOf?_cons, if_neg (by simpa using h.symm)]

theorem map_add_inj {x y : Option ℕ} {n : ℕ} :
    (x.map fun i => i + n) = (y.map fun i => i + n) ↔ x = y :=
  (Option.map_injective fun _ _ h => Nat.add_right_cancel h).eq_iff

/-- Without `new` everybody else has the same place exactly when `new` was the last. -/
theorem erase_keeps_iff (h : l.Nodup) :
    (∀ a, a ≠ new → (l.erase new).idxOf? a = l.idxOf? a) ↔
      (new ∈ l → l.getLast? = some new) := by
  induction l with
  | nil => simp
  | cons b l ih =>
    obtain ⟨hb, hl⟩ := List.nodup_cons.mp h
    by_cases hbn : b = new
    · subst hbn
      rw [List.erase_cons_head]
      cases l with
      | nil =>
        apply iff_of_true
        · intro a ha
          rw [idxOf?_cons_of_ne ha]
          rfl
        · simp
      | cons c l =>
        -- the one behind `new` moves up
        have hc : c ≠ b := fun he => hb (by simp [he])
        have hmoved : ¬∀ a, a ≠ b → (c :: l).idxOf? a = (b :: c :: l).idxOf? a := by
          intro hall
          have hplace := hall c hc
          rw [idxOf?_cons_of_ne hc, List.idxOf?_cons, if_pos (by simp)] at hplace
          cases hplace
        have hlast : (b :: c :: l).getLast? ≠ some b := by
          rw [List.getLast?_cons_cons]
          exact fun he => hb (List.mem_of_getLast? he)
        exact iff_of_false hmoved fun hall => hlast (hall (by simp))
    · rw [List.erase_cons_tail (by simpa using hbn)]
      have hlast : new ∈ l → (b :: l).getLast? = l.getLast? := by
        intro hmem
        rw [List.getLast?_cons_of_ne_nil (List.ne_nil_of_mem hmem)]
      have hin : new ∈ b :: l ↔ new ∈ l := by simp [Ne.symm hbn]
      have hsame : (∀ a, a ≠ new → (b :: l.erase new).idxOf? a = (b :: l).idxOf? a) ↔
          ∀ a, a ≠ new → (l.erase new).idxOf? a = l.idxOf? a := by
        apply forall₂_congr
        intro a _
        by_cases hab : a = b
        · subst hab
          have hnone : (l.erase new).idxOf? a = none ∧ l.idxOf? a = none := by
            simp only [List.idxOf?_eq_none_iff]
            exact ⟨fun hm => hb (List.mem_of_mem_erase hm), hb⟩
          rw [hnone.1, hnone.2, List.idxOf?_cons, List.idxOf?_cons]
          simp
        · rw [idxOf?_cons_of_ne hab, idxOf?_cons_of_ne hab, map_add_inj]
      rw [hsame, ih hl, hin]
      exact forall_congr' fun hmem => by rw [hlast hmem]

/-- Everybody keeps their place exactly when `new` was nobody, or the last. -/
theorem moved_replaced {before after : List SocketAddr} (h : (before ++ old :: after).Nodup)
    (hne : old ≠ new) :
    Moved (before ++ old :: after).idxOf? (replaced (before ++ old :: after) old new).idxOf?
        old new ↔
      (new ∈ before ++ old :: after → (before ++ old :: after).getLast? = some new) := by
  obtain ⟨hbefore, hrest, hapart⟩ := List.nodup_append.mp h
  obtain ⟨hold, hafter⟩ := List.nodup_cons.mp hrest
  have hfront : old ∉ before := fun hm => hapart old hm old (by simp) rfl
  have hplace {l l' : List SocketAddr} {a : SocketAddr} (ha : a ∉ l) :
      (l ++ a :: l').idxOf? a = some l.length := by
    rw [idxOf?_append, List.idxOf?_eq_none_iff.mpr ha, List.idxOf?_cons, if_pos (by simp)]
    simp
  rw [Moved, replaced_append h, hplace hfront, hplace (hbefore.not_mem_erase)]
  by_cases hin : new ∈ before
  · -- in front of `old`: the place of `old` is one less now
    have hlen := List.length_erase_of_mem hin
    have hpos := List.length_pos_of_mem hin
    apply iff_of_false
    · rintro ⟨hself, -⟩
      have hsame := Option.some.inj hself
      omega
    · intro hlast
      have hback := hlast (by simp [hin])
      rw [List.getLast?_append_of_ne_nil _ (List.cons_ne_nil _ _)] at hback
      exact hapart new hin new (List.mem_of_getLast? hback) rfl
  · have hnone {a : SocketAddr} (ha : a ∉ after) :
        (after.erase new).idxOf? a = none ∧ after.idxOf? a = none := by
      simp only [List.idxOf?_eq_none_iff]
      exact ⟨fun hm => ha (List.mem_of_mem_erase hm), ha⟩
    have hbehind {a : SocketAddr} (hao : a ≠ old) (han : a ≠ new) :
        (before ++ new :: after.erase new).idxOf? a = (before ++ old :: after).idxOf? a ↔
          (after.erase new).idxOf? a = after.idxOf? a := by
      rw [idxOf?_append, idxOf?_append, idxOf?_cons_of_ne han, idxOf?_cons_of_ne hao]
      by_cases ha : a ∈ before
      · obtain ⟨herased, hkept⟩ := hnone (a := a) fun hm => hapart a ha a (by simp [hm]) rfl
        rw [herased, hkept]
        simp
      · rw [List.idxOf?_eq_none_iff.mpr ha, Option.none_or, Option.none_or, map_add_inj,
          map_add_inj]
    have hothers : (∀ a, a ≠ old → a ≠ new → (before ++ new :: after.erase new).idxOf? a =
        (before ++ old :: after).idxOf? a) ↔
        ∀ a, a ≠ new → (after.erase new).idxOf? a = after.idxOf? a := by
      constructor
      · intro hall a han
        by_cases hao : a = old
        · obtain ⟨herased, hkept⟩ := hnone (a := a) (hao ▸ hold)
          rw [herased, hkept]
        · exact (hbehind hao han).mp (hall a hao han)
      · exact fun hall a hao han => (hbehind hao han).mpr (hall a han)
    have hmem : new ∈ before ++ old :: after ↔ new ∈ after := by simp [hin, hne.symm]
    have hlast : new ∈ after → (before ++ old :: after).getLast? = after.getLast? := by
      intro hm
      rw [List.getLast?_append_of_ne_nil _ (List.cons_ne_nil _ _),
        List.getLast?_cons_of_ne_nil (List.ne_nil_of_mem hm)]
    rw [List.erase_of_not_mem hin, hothers, erase_keeps_iff hafter, hmem]
    simp only [true_and]
    exact forall_congr' fun hm => by rw [hlast hm]

end AddressBook

/-- An entry moves, unless there is none and the new address has one of its own. -/
theorem moved_rename {α : Type*} (m : Table SocketAddr α) (old new : SocketAddr) :
    Moved m.lookup (m.rename old new).lookup old new ↔
      (m.lookup old = none → m.lookup new = none) := by
  have hlookup := Table.lookup_rename old new m
  cases hold : m.lookup old with
  | none =>
    simp only [hold] at hlookup
    constructor
    · rintro ⟨hnew, -⟩ -
      exact ((hlookup new).symm.trans hnew).trans hold
    · intro hnew
      exact ⟨(hlookup new).trans ((hnew rfl).trans hold.symm), fun a _ _ => hlookup a⟩
  | some v =>
    simp only [hold] at hlookup
    constructor
    · intro _ hnone
      cases hnone
    · intro _
      refine ⟨?_, fun a hao han => ?_⟩
      · exact ((hlookup new).trans (if_pos rfl)).trans hold.symm
      · exact ((hlookup a).trans (if_neg han)).trans (if_neg hao)

theorem AddressBook.moved_position {b book : AddressBook} {old new : SocketAddr}
    (h : b.replace old new = some book) : Moved b.position book.position old new ↔
      (old ≠ new → new ∈ b.peers → b.peers.getLast? = some new) := by
  unfold replace at h
  split_ifs at h with hold
  cases h
  by_cases hne : old = new
  · subst hne
    have hself : replaced b.peers old old = b.peers := by
      have hset := List.set_getElem_self (List.idxOf_lt_length_of_mem hold)
      rw [List.getElem_idxOf] at hset
      simpa [replaced] using hset
    simp [Moved, position, hself]
  · obtain ⟨before, after, hsplit⟩ := List.append_of_mem hold
    have hnodup := b.nodup
    rw [hsplit] at hnodup
    have hmoved := moved_replaced hnodup hne
    rw [← hsplit] at hmoved
    exact hmoved.trans ⟨fun hlast _ => hlast, fun hlast => hlast hne⟩

namespace Session

variable {cfg : Config} {env : Env} {s : Session cfg} {old new : SocketAddr}

/-- Until when an address has the floor, and the offset of its numbers. -/
def floorOf (s : Session cfg) (a : SocketAddr) : Option (ℕ × UInt32) :=
  match s.media.floor with
  | some (holder, till, offset) => if holder = a then some (till, offset) else none
  | none => none

/-- Everything held for `old` in `s` is held for `new` in `t`, and nothing else changed:
a speaker goes on under the same numbers. -/
structure MovesWhole (s t : Session cfg) (old new : SocketAddr) : Prop where
  position : Moved s.peers.book.position t.peers.book.position old new
  keys : Moved s.peers.peerKeys.lookup t.peers.peerKeys.lookup old new
  window : Moved s.peers.replayByPeer.lookup t.peers.replayByPeer.lookup old new
  seen : Moved s.live.peerSeen.lookup t.live.peerSeen.lookup old new
  floor : Moved s.floorOf t.floorOf old new
  speaks : ∀ (env : Env) (audioSeq : UInt32),
    (t.roomSequence env new audioSeq).1 = (s.roomSequence env old audioSeq).1

/-- Neither address has the floor, and the new one holds nothing that could be in the way. -/
structure Movable (s : Session cfg) (old new : SocketAddr) : Prop where
  floor : old ≠ new → s.floorOf old = none ∧ s.floorOf new = none
  book : old ≠ new → new ∈ s.peers.book.peers → s.peers.book.peers.getLast? = some new
  keys : s.peers.peerKeys.lookup old = none → s.peers.peerKeys.lookup new = none
  window : s.peers.replayByPeer.lookup old = none → s.peers.replayByPeer.lookup new = none
  seen : s.live.peerSeen.lookup old = none → s.live.peerSeen.lookup new = none

/-- The floor has one holder. -/
theorem floorOf_eq_iff : s.floorOf new = s.floorOf old ↔
    (old ≠ new → s.floorOf old = none ∧ s.floorOf new = none) := by
  constructor
  · intro heq hne
    unfold floorOf at heq ⊢
    cases hfloor : s.media.floor with
    | none => simp
    | some f =>
      obtain ⟨holder, till, offset⟩ := f
      simp only [hfloor] at heq ⊢
      by_cases hold : holder = old
      · subst hold
        simp [hne] at heq
      · rw [if_neg hold] at heq ⊢
        exact ⟨rfl, heq⟩
  · intro h
    by_cases hne : old = new
    · rw [hne]
    · obtain ⟨hold, hnew⟩ := h hne
      rw [hold, hnew]

/-- Whether a frame is let through, and how it is numbered, depends on the floor of its
sender, on who else has it and on the buffer. -/
theorem roomSequence_congr {t : Session cfg} (hmedia : t.media = s.media)
    (hold : s.floorOf old = none) (hnew : s.floorOf new = none) (env : Env) (audioSeq : UInt32) :
    (t.roomSequence env new audioSeq).1 = (s.roomSequence env old audioSeq).1 := by
  unfold roomSequence
  unfold floorOf at hold hnew
  rw [hmedia]
  cases hfloor : s.media.floor with
  | none => rfl
  | some f =>
    obtain ⟨holder, till, offset⟩ := f
    simp only [hfloor, ite_eq_right_iff, reduceCtorEq, imp_false] at hold hnew
    simp only [if_neg hold, if_neg hnew]
    split_ifs <;> rfl

/-- A change of address keeps the peer whole exactly when the peer does not have the floor,
and the new address was nobody's. -/
theorem switchPeer_movesWhole_iff (env : Env) (s : Session cfg) {old : SocketAddr}
    (new : SocketAddr) (hold : old ∈ s.peers.book.peers) :
    MovesWhole s (s.switchPeer env old new) old new ↔ Movable s old new := by
  cases hbook : s.peers.book.replace old new with
  | none => exact absurd hold (AddressBook.replace_eq_none.mp hbook)
  | some book =>
    have hpeers : (s.switchPeer env old new).peers = s.peers.switch book old new := by
      simp only [switchPeer, hbook]
    have hseen : (s.switchPeer env old new).live.peerSeen = s.live.peerSeen.rename old new := by
      simp only [switchPeer, hbook]
    have hmedia : (s.switchPeer env old new).media = s.media := by
      simp only [switchPeer, hbook]
    have hposition := AddressBook.moved_position hbook
    have hkeys := moved_rename s.peers.peerKeys old new
    have hwindow := moved_rename s.peers.replayByPeer old new
    have hlive := moved_rename s.live.peerSeen old new
    have hfloor : (s.switchPeer env old new).floorOf = s.floorOf := by
      funext a
      rw [floorOf, hmedia, floorOf]
    constructor
    · rintro ⟨h1, h2, h3, h4, h5, -⟩
      rw [hpeers] at h1 h2 h3
      rw [hseen] at h4
      rw [hfloor] at h5
      exact ⟨floorOf_eq_iff.mp h5.1, hposition.mp h1, hkeys.mp h2, hwindow.mp h3, hlive.mp h4⟩
    · rintro ⟨h1, h2, h3, h4, h5⟩
      refine ⟨?_, ?_, ?_, ?_, ?_, ?_⟩
      · rw [hpeers]
        exact hposition.mpr h2
      · rw [hpeers]
        exact hkeys.mpr h3
      · rw [hpeers]
        exact hwindow.mpr h4
      · rw [hseen]
        exact hlive.mpr h5
      · rw [hfloor]
        exact ⟨floorOf_eq_iff.mpr h1, fun a _ _ => rfl⟩
      · intro env' audioSeq
        by_cases hne : old = new
        · subst hne
          unfold roomSequence
          rw [hmedia]
          cases s.media.floor with
          | none => rfl
          | some f =>
            dsimp only
            split_ifs <;> rfl
        · obtain ⟨hfold, hfnew⟩ := h1 hne
          exact roomSequence_congr hmedia hfold hfnew env' audioSeq

open Machine RoomExample in
/-- A guest who has not spoken moves. -/
theorem movesWhole_silent :
    let s := (run Crypto.toy (rest Crypto.toy (initial Config.default (Vector.replicate 8 0)))
      join).session
    MovesWhole s (s.switchPeer (Pairing.at' 2) Pairing.guest other) Pairing.guest other := by
  intro s
  have hguest : Pairing.guest ∈ s.peers.book.peers ∧ other ∉ s.peers.book.peers ∧
      s.floorOf Pairing.guest = none ∧ s.floorOf other = none ∧
      s.peers.peerKeys.lookup other = none ∧ s.peers.replayByPeer.lookup other = none ∧
      s.live.peerSeen.lookup other = none := by
    decide +kernel
  obtain ⟨hbook, hout, hfloor, hfloor', hkeys, hwindow, hseen⟩ := hguest
  exact (switchPeer_movesWhole_iff (Pairing.at' 2) s other hbook).mpr
    ⟨fun _ => ⟨hfloor, hfloor'⟩, fun _ hin => absurd hin hout, fun _ => hkeys, fun _ => hwindow,
      fun _ => hseen⟩

open Machine RoomExample in
/-- A guest who is speaking moves, and is not heard from the new address. -/
theorem movesWhole_speaker :
    let now := Pairing.at' 1
    let s := (run Crypto.toy (rest Crypto.toy (initial Config.default (Vector.replicate 8 0)))
      (join ++ [(now, frame Pairing.guest 2 0)])).session
    Pairing.guest ∈ s.peers.book.peers ∧ (s.roomSequence now Pairing.guest 1).1 = some 1 ∧
      ((s.switchPeer now Pairing.guest other).roomSequence now other 1).1 = none ∧
      ¬ MovesWhole s (s.switchPeer now Pairing.guest other) Pairing.guest other := by
  intro now s
  have hfacts : Pairing.guest ∈ s.peers.book.peers ∧
      (s.roomSequence now Pairing.guest 1).1 = some 1 ∧
      ((s.switchPeer now Pairing.guest other).roomSequence now other 1).1 = none := by
    decide +kernel
  obtain ⟨hbook, hbefore, hafter⟩ := hfacts
  refine ⟨hbook, hbefore, hafter, fun h => ?_⟩
  have hsame := h.speaks now 1
  rw [hbefore, hafter] at hsame
  cases hsame

/-! ## Another speaker -/

/-- The buffer got where it is by its own operations. -/
def Buffered (m : Media cfg) : Prop :=
  ∃ ops : List JitterBuffer.Op,
    ops.foldl JitterBuffer.step (JitterBuffer.fresh cfg.jitterSlots) = m.jitter

theorem Buffered.of_eq {m m' : Media cfg} (h : Buffered m) (heq : m'.jitter = m.jitter) :
    Buffered m' := by
  rwa [Buffered, heq]

theorem Buffered.step {m m' : Media cfg} (h : Buffered m) (op : JitterBuffer.Op)
    (heq : m'.jitter = m.jitter.step op) : Buffered m' := by
  obtain ⟨ops, hops⟩ := h
  refine ⟨ops ++ [op], ?_⟩
  rw [List.foldl_append, hops, heq]
  rfl

theorem buffered_rx {C : Crypto} {i : Arrival} {s₀ t : Session cfg} (h : Buffered s.media)
    (he : RxEffect C env i s₀ s t) : Buffered t.media := by
  have hswitch (old new : SocketAddr) : Buffered (s.switchPeer env old new).media := by
    rcases switchPeer_cases env old new s with hs | ⟨book, -, hq⟩
    · rwa [hs]
    · exact h.of_eq (by rw [hq.media])
  cases he with
  | quiet hq => exact h.of_eq (by rw [hq.media])
  | see => exact h
  | drop gone => exact h
  | buffer jitter gap hjitter =>
    rcases hjitter with heq | ⟨op, heq⟩
    · exact h.of_eq heq
    · exact h.step op heq
  | note => exact h
  | migrate => exact hswitch _ _
  | probe => exact hswitch _ _
  | check =>
    rename_i sender raw view _ _ _
    rcases antiReplay_cases view raw sender s with ⟨-, hs⟩ | ⟨key, -, -, hq⟩
    · rwa [hs]
    · exact h.of_eq (by rw [hq.media])
  | hear =>
    rename_i sender raw plain view _ _ _ _ _ _ _
    rcases hearFrame_cases C env sender view.header.timestamp plain s with
      hq | ⟨-, -, hplay⟩ | ⟨-, -, offset, -, hq⟩
    · exact h.of_eq (by rw [hq.media])
    · rw [hplay]
      exact h.step (.push _) rfl
    · rw [hq.media]
      exact h.step (.push _) rfl
  | parity =>
    rename_i sender raw plain view _ _ _ _ _ _ _ _
    rcases hearParity_cases sender plain s with
      hs | ⟨-, base, -, ⟨-, hs⟩ | ⟨seq, payload, -, hs⟩⟩
    · rwa [hs]
    · rw [hs]
      exact h.of_eq rfl
    · rw [hs]
      exact h.step (.push _) rfl

theorem buffered_effect {C : Crypto} {i : Arrival} {s₀ t : Session cfg} (h : Buffered s.media)
    (he : Effect C env i s₀ s t) : Buffered t.media := by
  cases he with
  | rx he => exact buffered_rx h he
  | calm hc => exact h.of_eq (by rw [hc.media])
  | insert a => exact h
  | remove a => exact h
  | clearBook => exact h
  | joins pending => exact h
  | install peer enc dec => exact h
  | say payload => exact h.of_eq (by rw [(speaksOnly_sendAudio C env payload s).media])
  | close =>
    rw [close_eq]
    exact h
  | reopen =>
    have hwiped : Buffered s.wiped.media := h.step .reset rfl
    unfold Session.reopen
    dsimp only
    split_ifs
    · exact h
    · split
      · exact hwiped
      · exact hwiped

/-- A frame with this number lets `sender` take the floor that it does not have. -/
def TakesOver (env : Env) (s : Session cfg) (sender : SocketAddr) (audioSeq : UInt32) : Prop :=
  (s.roomSequence env sender audioSeq).1.isSome = true ∧ s.floorOf sender = none

open Serial in
/-- The new speaker's frames, from this one on, are numbered after every frame that waits in
the buffer. Serial numbers have an order only within half a turn. -/
def LaterThanPending (env : Env) (s : Session cfg) (sender : SocketAddr) (audioSeq : UInt32) :
    Prop :=
  ∀ k, k + cfg.jitterSlots < 2 ^ 31 → ∀ env' seq,
    ((s.roomSequence env sender audioSeq).2.roomSequence env' sender
      (audioSeq + UInt32.ofNat k)).1 = some seq →
    ∀ f, s.media.jitter.Keeps f → 0 < ahead seq f.sequence ∧ ahead seq f.sequence < 2 ^ 31

/-- The numbers of a new speaker start at the cursor of the buffer. -/
theorem TakesOver.numbers {sender : SocketAddr} {audioSeq : UInt32}
    (h : TakesOver env s sender audioSeq) (env' : Env) (k : ℕ) :
    ((s.roomSequence env sender audioSeq).2.roomSequence env' sender
      (audioSeq + UInt32.ofNat k)).1 = some (s.media.jitter.nextSeq + UInt32.ofNat k) := by
  obtain ⟨hsome, hfloor⟩ := h
  have hnext : audioSeq + UInt32.ofNat k + (s.media.jitter.nextSeq - audioSeq) =
      s.media.jitter.nextSeq + UInt32.ofNat k := by
    rw [add_right_comm, add_sub_cancel]
  rcases roomSequence_cases env sender audioSeq s with hnone | ⟨offset, htakes, heq⟩
  · rw [hnone] at hsome
    cases hsome
  · cases htakes with
    | keep hkeep =>
      simp [floorOf, hkeep] at hfloor
    | take hothers =>
      rw [heq]
      simp only [roomSequence, if_true, hnext]

end Session

namespace Machine

open Session Serial

variable {cfg : Config}

theorem buffered_run (C : Crypto) {m : Machine C cfg} (h : Buffered m.session.media)
    (steps : List (Env × Action)) : Buffered (run C m steps).session.media := by
  induction steps generalizing m with
  | nil => exact h
  | cons x steps ih =>
    apply ih
    exact step_invariant (fun _ _ h => h)
      (fun h he => buffered_effect h he) h

/-- In every reachable state, a new speaker comes after what waits in the buffer exactly
when nothing waits there. -/
theorem handover_later_iff (C : Crypto) {nonce : Vector UInt8 8} {s₀ : Session cfg}
    (hnew : Session.new cfg nonce = some s₀) (steps : List (Env × Action)) (env : Env)
    (sender : SocketAddr) (audioSeq : UInt32) :
    let s := (run C (rest C s₀) steps).session
    s.settings.multiPeer = true → TakesOver env s sender audioSeq →
      (LaterThanPending env s sender audioSeq ↔ s.media.jitter.hasPending = false) := by
  intro s _ htakes
  have hstart : Buffered (rest C s₀).session.media := by
    rw [eq_initial_of_new hnew]
    exact ⟨[], rfl⟩
  obtain ⟨ops, hops⟩ := buffered_run C hstart steps
  have hvalid : Constructible cfg := by
    rw [new_eq] at hnew
    split_ifs at hnew with hc
    exact hc
  obtain ⟨k, -, -, hring⟩ := JitterBuffer.ring_of_new (if_pos hvalid.1) ops
  change ops.foldl JitterBuffer.step (JitterBuffer.fresh cfg.jitterSlots) = s.media.jitter at hops
  rw [hops] at hring
  constructor
  · intro hlater
    by_contra hpending
    rw [Bool.not_eq_false, hring.hasPending_iff] at hpending
    obtain ⟨f, hf⟩ := hpending
    obtain ⟨-, -, -, hwindow⟩ := hring.keeps hf
    -- the frame with this distance from the cursor gets the very number that waits
    have hsmall : ahead f.sequence s.media.jitter.nextSeq + cfg.jitterSlots < 2 ^ 31 := by
      have := hvalid.1.2
      omega
    have hsame : s.media.jitter.nextSeq +
        UInt32.ofNat (ahead f.sequence s.media.jitter.nextSeq) = f.sequence := by
      rw [ahead, UInt32.ofNat_toNat, add_sub_cancel]
    have hseq := htakes.numbers env (ahead f.sequence s.media.jitter.nextSeq)
    rw [hsame] at hseq
    obtain ⟨hpos, -⟩ := hlater _ hsmall env _ hseq f hf
    rw [ahead_self] at hpos
    exact absurd hpos (lt_irrefl 0)
  · intro hidle k _ env' seq _ f hf
    rw [hring.hasPending_iff.mpr ⟨f, hf⟩] at hidle
    cases hidle

open RoomExample in
/-- A room with two guests. -/
noncomputable def gathered : Machine Crypto.toy Config.default :=
  run Crypto.toy (rest Crypto.toy (initial Config.default (Vector.replicate 8 0)))
    (join ++ joinOther)

open RoomExample in
/-- Nothing waits when the other guest speaks. -/
theorem handover_later_idle :
    LaterThanPending (Pairing.at' 2) gathered.session other 2 := by
  have hfacts : gathered.session.settings.multiPeer = true ∧
      (gathered.session.roomSequence (Pairing.at' 2) other 2).1.isSome = true ∧
      gathered.session.floorOf other = none ∧
      gathered.session.media.jitter.hasPending = false := by
    decide +kernel
  obtain ⟨hmulti, hsome, hfloor, hidle⟩ := hfacts
  have hiff := handover_later_iff Crypto.toy (new_default (Vector.replicate 8 0))
    (join ++ joinOther) (Pairing.at' 2) other 2
  unfold gathered at hmulti hsome hfloor hidle ⊢
  exact (hiff hmulti ⟨hsome, hfloor⟩).mpr hidle

open RoomExample in
/-- Two frames of a guest wait when the other guest takes the floor, whose first frame then
overwrites the first of them. -/
theorem handover_collides :
    let later := Pairing.at' 2
    let m := run Crypto.toy gathered [(Pairing.at' 1, frame Pairing.guest 2 0),
      (Pairing.at' 1, frame Pairing.guest 3 1)]
    Session.new Config.default (Vector.replicate 8 0) =
        some (initial Config.default (Vector.replicate 8 0)) ∧
      m.session.settings.multiPeer = true ∧ TakesOver later m.session other 2 ∧
      m.session.media.jitter.pop.1.map Frame.payload = some (words Pairing.guest 0) ∧
      (step Crypto.toy later m (frame other 2 2)).session.media.jitter.pop.1.map Frame.payload =
        some (words other 2) ∧
      ¬ LaterThanPending later m.session other 2 := by
  intro later m
  have hfacts : m.session.settings.multiPeer = true ∧
      (m.session.roomSequence later other 2).1.isSome = true ∧ m.session.floorOf other = none ∧
      m.session.media.jitter.pop.1 = some ⟨0, 0, words Pairing.guest 0⟩ ∧
      (m.session.media.jitter.slot 0).occupied = true ∧
      (m.session.media.jitter.slot 0).frame = some ⟨0, 0, words Pairing.guest 0⟩ ∧
      ((m.session.roomSequence later other 2).2.roomSequence later other
        (2 + UInt32.ofNat 0)).1 = some 0 ∧
      (step Crypto.toy later m (frame other 2 2)).session.media.jitter.pop.1 =
        some ⟨0, 0, words other 2⟩ := by
    decide +kernel
  obtain ⟨hmulti, hsome, hfloor, hfirst, hocc, hframe, hseq, hsecond⟩ := hfacts
  refine ⟨new_default _, hmulti, ⟨hsome, hfloor⟩, by rw [hfirst]; rfl, by rw [hsecond]; rfl,
    fun h => ?_⟩
  obtain ⟨hpos, -⟩ := h 0 (by decide +kernel) later 0 hseq _ ⟨0, hocc, hframe⟩
  exact absurd hpos (by decide)

end Machine
end GravitalTalk
