import GravitalTalk.Session.Stranger
import GravitalTalk.Session.TwinMachines
import GravitalTalk.Session.Rules
import GravitalTalk.Transport.ReplayMarks
import GravitalTalk.Lib.Run

/-!
# Forged packets

Encrypted audio of a known address whose tag does not verify reaches no buffer.
But the replay window of the sender is asked before the tag is, and the times
something was last heard are set before that. A run is compared here with the
same run without such packets.
-/
namespace GravitalTalk

namespace ReplayWindow

/-- Only a sequence that leads changes the window. -/
theorem checkAndMark_of_not_leads {w : ReplayWindow} {seq : UInt32} (h : ¬w.Leads seq) :
    (w.checkAndMark seq).2 = w := by
  by_cases hlate : w.Late seq
  · exact checkAndMark_late hlate
  · have hrefused : ¬(w.checkAndMark seq).1 = true := fun ha => h ⟨ha, hlate⟩
    rcases checkAndMark_cases w seq with ⟨-, he⟩ | ⟨-, -, he⟩ | ⟨-, -, -, he⟩ | ⟨-, -, -, he⟩ |
      ⟨-, -, he⟩ | ⟨hl, -, -⟩
    · exact absurd (by rw [he]) hrefused
    · rw [he]
    · exact absurd (by rw [he]) hrefused
    · exact absurd (by rw [he]) hrefused
    · rw [he]
    · exact absurd hl hlate

/-- The first sequence of a window leads. -/
theorem leads_new (seq : UInt32) : new.Leads seq := ⟨rfl, fun h => absurd h.1 (by decide)⟩

end ReplayWindow

namespace Peers

theorem mark_of_not_leads {p : Peers} {peer : SocketAddr} {seq : UInt32}
    (h : ¬(p.windowOf peer).Leads seq) : p.mark peer seq = p := by
  cases hw : p.replayByPeer.lookup peer with
  | none =>
    refine absurd ?_ h
    rw [windowOf, hw]
    exact ReplayWindow.leads_new seq
  | some w =>
    rw [mark, ReplayWindow.checkAndMark_of_not_leads h]
    have hsame : p.replayByPeer.insert peer (p.windowOf peer) = p.replayByPeer := by
      refine Finmap.ext_lookup fun a => ?_
      rw [Table.lookup_insert_eq, windowOf, hw]
      split_ifs with ha
      · rw [ha, hw]
        rfl
      · rfl
    rw [hsame]

end Peers

namespace Session

variable {cfg : Config} (C : Crypto) (env : Env)

/-- Encrypted audio or parity for a running session with keys, from an address of the book,
whose tag does not verify. -/
structure Forged (view : PacketView) (raw : Bytes) (sender : SocketAddr) (s : Session cfg) :
    Prop where
  active : s.status.state = .active
  keyed : s.peers.decryptKey.isSome
  known : s.peers.book.contains sender
  media : view.header.msgType = MessageType.audioFrame.code ∨
    view.header.msgType = MessageType.audioFec.code
  encrypted : view.header.flags.contains .encrypted
  unverified : ∀ key ∈ s.peers.decKeyFor sender, s.openWith C key view raw = none

instance (view : PacketView) (raw : Bytes) (sender : SocketAddr) (s : Session cfg) :
    Decidable (Forged C view raw sender s) :=
  decidable_of_iff
    ((s.status.state = .active ∧ s.peers.decryptKey.isSome ∧ s.peers.book.contains sender) ∧
      (view.header.msgType = MessageType.audioFrame.code ∨
        view.header.msgType = MessageType.audioFec.code) ∧
      view.header.flags.contains .encrypted ∧
      ∀ key ∈ s.peers.decKeyFor sender, s.openWith C key view raw = none)
    ⟨fun h => ⟨h.1.1, h.1.2.1, h.1.2.2, h.2.1, h.2.2.1, h.2.2.2⟩,
      fun h => ⟨⟨h.active, h.keyed, h.known⟩, h.media, h.encrypted, h.unverified⟩⟩

/-- Only the counters, the times something was heard and the record of what the windows were
asked differ. -/
def Refreshed (s t : Session cfg) : Prop :=
  ∃ counters live said, t = { s with
    traffic.counters := counters
    live := live
    history.marked := said ++ s.history.marked }

/-- A twin of a session is one of what the session is refreshed to. -/
theorem Twins.refreshed {X Y : List Mark} {s s' t : Session cfg} (h : Twins X Y s t)
    (hs : Refreshed s s') : Twins s'.history.marked t.history.marked s' t := by
  obtain ⟨c, l, k, -, rfl⟩ := h
  obtain ⟨c', l', k', rfl⟩ := hs
  exact ⟨_, _, [], rfl, rfl⟩

theorem Twins.rebase {X Y : List Mark} {s t : Session cfg} (h : Twins X Y s t) :
    Twins s.history.marked t.history.marked s t :=
  h.refreshed ⟨_, _, [], rfl⟩

variable {C} {view : PacketView} {raw : Bytes} {sender : SocketAddr} {s : Session cfg}

theorem handlePacket_forged (h : Forged C view raw sender s) :
    ∃ counters, s.handlePacket C env view raw sender =
      (.ok (), { s with traffic.counters := counters }) := by
  have hkey : s.onAudioFrame C env view raw sender = s.recordIntegrityError := by
    unfold onAudioFrame
    rw [if_pos h.encrypted]
    split
    · rfl
    · rename_i key hkey
      rw [h.unverified key hkey]
  have hparity : ∃ counters, s.onAudioFec C view raw sender =
      { s with traffic.counters := counters } := by
    unfold onAudioFec
    rw [if_pos h.encrypted]
    split
    · exact ⟨_, rfl⟩
    · rename_i key hkey
      rw [h.unverified key hkey]
      exact ⟨_, rfl⟩
  unfold handlePacket
  rcases h.media with hmedia | hmedia
  · rw [hmedia, hkey]
    exact ⟨_, rfl⟩
  · obtain ⟨counters, hfec⟩ := hparity
    rw [hmedia]
    exact ⟨counters, congrArg (Prod.mk _) hfec⟩

theorem Forged.refreshed {t : Session cfg} (h : Forged C view raw sender s)
    (ht : Refreshed s t) : Forged C view raw sender t := by
  obtain ⟨c, l, k, rfl⟩ := ht
  exact ⟨h.active, h.keyed, h.known, h.media, h.encrypted, h.unverified⟩

/-- A forged packet whose sequence does not lead the window leaves no trace but the times and
the counters. -/
theorem dispatchPacket_forged (h : Forged C view raw sender s)
    (hleads : ¬(s.peers.windowOf sender).Leads view.header.sequence) :
    ∃ t, s.dispatchPacket C env view raw sender = (.ok (), t) ∧ Refreshed s t := by
  have hkeys : ¬(s.see sender env.now).peers.decryptKey.isNone = true := by
    change ¬s.peers.decryptKey.isNone = true
    rw [Option.isNone_iff_eq_none, ← Option.not_isSome_iff_eq_none, not_not]
    exact h.keyed
  have hmark : (s.see sender env.now).peers.mark sender view.header.sequence = s.peers :=
    Peers.mark_of_not_leads hleads
  have hhandled {t : Session cfg} (ht : Refreshed s t) :
      ∃ u, t.handlePacket C env view raw sender = (.ok (), u) ∧ Refreshed s u := by
    obtain ⟨counters, hcounted⟩ := handlePacket_forged env (h.refreshed ht)
    obtain ⟨c, l, k, rfl⟩ := ht
    exact ⟨_, hcounted, _, _, k, rfl⟩
  unfold dispatchPacket
  rw [if_pos h.known]
  unfold acceptPacket antiReplay
  rw [if_neg hkeys]
  dsimp only
  rw [hmark]
  split_ifs
  · exact hhandled ⟨_, _, [_], rfl⟩
  · exact ⟨_, rfl, _, _, [_], rfl⟩

theorem Forged.msgType_ne (h : Forged C view raw sender s) :
    view.header.msgType ≠ MessageType.handshakeKeyExchange.code ∧
      view.header.msgType ≠ MessageType.handshakeClientHello.code ∧
      view.header.msgType ≠ MessageType.handshakeNoiseHello1.code := by
  rcases h.media with hmedia | hmedia
  · rw [hmedia]
    decide
  · rw [hmedia]
    decide

theorem Forged.received (h : Forged C view raw sender s) (n : ℕ) :
    Forged C view raw sender ((s.recordReceived n).heard env) :=
  h.refreshed ⟨_, _, [], rfl⟩

/-- A forged packet greets nobody and completes no admission. -/
theorem Forged.not_joining (h : Forged C view raw sender s) :
    s.peekNewPeer view sender = none ∧ s.finishJoin env view sender = (false, s) := by
  obtain ⟨hke, hhello, hnoise⟩ := h.msgType_ne
  constructor
  · unfold peekNewPeer
    dsimp only
    rw [if_pos (show _ ≠ _ ∧ _ ≠ _ from ⟨hhello, hnoise⟩), ite_self]
  · rw [finishJoin, if_pos hke]

theorem Refreshed.of_received {t : Session cfg} {n : ℕ}
    (h : Refreshed ((s.recordReceived n).heard env) t) : Refreshed s t := by
  obtain ⟨c, l, k, rfl⟩ := h
  exact ⟨_, _, k, rfl⟩

theorem recvDatagram_forged (h : Forged C view raw sender s)
    (hview : PacketView.decode raw = .ok view)
    (hleads : ¬(s.peers.windowOf sender).Leads view.header.sequence) :
    ∃ t, s.recvDatagram C env raw sender = (.done (.ok ()), t) ∧ Refreshed s t := by
  have hrv : ¬ Rendezvous.isRendezvous raw = true := fun hrv => decode_of_isRendezvous hrv view hview
  have hin := h.received env raw.length
  obtain ⟨t, ht, hfresh⟩ := dispatchPacket_forged env hin hleads
  unfold recvDatagram
  dsimp only
  rw [if_neg hrv, hview]
  dsimp only
  rw [(hin.not_joining env).1]
  dsimp only
  rw [(hin.not_joining env).2]
  dsimp only
  rw [ht]
  exact ⟨t, rfl, hfresh.of_received⟩

theorem pollDatagram_forged (h : Forged C view raw sender s)
    (hview : PacketView.decode raw = .ok view)
    (hleads : ¬(s.peers.windowOf sender).Leads view.header.sequence) :
    ∃ t, s.pollDatagram C env raw sender = (.done (.ok ()), t) ∧ Refreshed s t := by
  have hin := h.received env raw.length
  obtain ⟨t, ht, hfresh⟩ := dispatchPacket_forged env hin hleads
  unfold pollDatagram
  dsimp only
  rw [hview]
  dsimp only
  rw [(hin.not_joining env).1]
  dsimp only
  rw [ht]
  exact ⟨t, rfl, hfresh.of_received⟩

end Session

namespace Machine

open Session

variable {cfg : Config} (C : Crypto) (env : Env) {m n : Machine C cfg} {a : Action}

/-- The packet that an action brings to a receive loop. -/
def packet (m : Machine C cfg) (a : Action) : Option (SocketAddr × Bytes × PacketView) :=
  match m.arrival a with
  | .loop sender raw => (PacketView.decode raw).toOption.map fun view => (sender, raw, view)
  | _ => none

/-- The action brings in a forged packet. -/
def Forges (m : Machine C cfg) (a : Action) : Prop :=
  ∃ p ∈ packet C m a, Forged C p.2.2 p.2.1 p.1 m.session

/-- The packet that comes in leads the window of its sender. -/
def Leads (m : Machine C cfg) (a : Action) : Prop :=
  ∃ p ∈ packet C m a, (m.session.peers.windowOf p.1).Leads p.2.2.header.sequence

instance (m : Machine C cfg) (a : Action) : Decidable (Forges C m a) :=
  inferInstanceAs (Decidable (∃ p ∈ packet C m a, _))

instance (m : Machine C cfg) (a : Action) : Decidable (Leads C m a) :=
  inferInstanceAs (Decidable (∃ p ∈ packet C m a, _))

/-- The marks of the windows that a step adds. -/
def verdicts (m m' : Machine C cfg) : List Mark :=
  m'.session.history.marked.take
    (m'.session.history.marked.length - m.session.history.marked.length)

/-- The frame that `recv_audio` hands out. -/
def handedOut (m : Machine C cfg) : Action → Option Frame
  | .turn =>
    match m.task with
    | .idle => (m.session.turn C env).1
    | _ => none
  | _ => none

/-- One is what the other is without some forged packets. -/
def Shadow (m n : Machine C cfg) : Prop :=
  TwinMachines m.session.history.marked n.session.history.marked m n

theorem shadow_refl (m : Machine C cfg) : Shadow C m m := ⟨rfl, _, _, [], rfl, rfl⟩

variable {C}

theorem TwinMachines.shadow {X Y : List Mark} (h : TwinMachines X Y m n) : Shadow C m n :=
  ⟨h.1, h.2.rebase⟩

theorem Shadow.verdicts_eq {m' n' : Machine C cfg}
    (h : TwinMachines m.session.history.marked n.session.history.marked m' n') :
    verdicts C m m' = verdicts C n n' := by
  obtain ⟨-, c, l, said, hsaid, hn⟩ := h
  have hmarked : n'.session.history.marked = said ++ n.session.history.marked := by rw [hn]
  unfold verdicts
  rw [hsaid, hmarked]
  simp

theorem Shadow.handedOut_eq (h : Shadow C m n) (hsame : SameSilence C env m n a) :
    handedOut C env m a = handedOut C env n a := by
  cases a with
  | turn =>
    unfold handedOut
    dsimp only
    rw [h.1]
    cases m.task with
    | idle => exact (h.2.turn C env hsame.1 hsame.2).1
    | _ => rfl
  | _ => rfl

theorem of_mem_packet {x : SocketAddr × Bytes × PacketView} (h : x ∈ packet C m a) :
    m.task = .idle ∧ PacketView.decode x.2.1 = .ok x.2.2 ∧
      (a = .recv x.1 x.2.1 ∨ a = .poll x.1 x.2.1) := by
  have hread {sender : SocketAddr} {raw : Bytes}
      (h : x ∈ (PacketView.decode raw).toOption.map fun view => (sender, raw, view)) :
      x.1 = sender ∧ x.2.1 = raw ∧ PacketView.decode raw = .ok x.2.2 := by
    cases hd : PacketView.decode raw with
    | error e =>
      rw [hd] at h
      cases h
    | ok view =>
      rw [hd] at h
      cases h
      exact ⟨rfl, rfl, rfl⟩
  obtain ⟨s, task⟩ := m
  cases a with
  | recv sender raw =>
    cases task with
    | idle =>
      obtain ⟨h1, h2, h3⟩ := hread h
      rw [h1, h2]
      exact ⟨rfl, h3, .inl rfl⟩
    | _ => cases h
  | poll sender raw =>
    cases task with
    | idle =>
      obtain ⟨h1, h2, h3⟩ := hread h
      rw [h1, h2]
      exact ⟨rfl, h3, .inr rfl⟩
    | _ => cases h
  | input i => cases i <;> cases h
  | _ => cases h

/-- A forged packet that does not lead its window may as well not come. -/
theorem Shadow.forged (h : Shadow C m n) (hforged : Forges C m a) (hleads : ¬Leads C m a) :
    Shadow C (step C env m a) n := by
  obtain ⟨x, hpacket, hforged⟩ := hforged
  have hquiet : ¬(m.session.peers.windowOf x.1).Leads x.2.2.header.sequence := fun hlead =>
    hleads ⟨x, hpacket, hlead⟩
  obtain ⟨hidle, hview, hcall⟩ := of_mem_packet hpacket
  have hrest {r : Followup × Session cfg} {t : Session cfg} (hr : r = (.done (.ok ()), t))
      (ht : Refreshed m.session t) : Shadow C (afterDatagram C env x.1 r) n := by
    rw [hr]
    exact ⟨h.1.trans hidle, h.2.refreshed ht⟩
  rcases hcall with rfl | rfl
  · obtain ⟨t, hrecv, ht⟩ := recvDatagram_forged env hforged hview hquiet
    rw [step, whenIdle, hidle]
    exact hrest hrecv ht
  · obtain ⟨t, hpoll, ht⟩ := pollDatagram_forged env hforged hview hquiet
    rw [step, whenIdle, hidle]
    exact hrest hpoll ht

/-! ## A run without some of its datagrams -/

variable (C)

/-- A run and, beside it, the run without the steps that are marked. -/
def both : Machine C cfg × Machine C cfg → (Env × Action) × Bool → Machine C cfg × Machine C cfg :=
  Run.beside fun m x => step C x.1 m x.2

/-- Only forged packets are removed. -/
def RemovesForged (p : Machine C cfg × Machine C cfg) (x : (Env × Action) × Bool) : Prop :=
  x.2 → Forges C p.1 x.1.2

/-- What is removed does not lead its window, and no question about how long something was
silent has another answer because of what was removed before. -/
def Inert (p : Machine C cfg × Machine C cfg) (x : (Env × Action) × Bool) : Prop :=
  if x.2 then ¬Leads C p.1 x.1.2 else SameSilence C x.1.1 p.1 p.2 x.1.2

/-- The windows have the same verdicts in both runs, and both hand out the same frame. -/
def Unharmed (p : Machine C cfg × Machine C cfg) (x : Env × Action) : Prop :=
  verdicts C p.1 (step C x.1 p.1 x.2) = verdicts C p.2 (step C x.1 p.2 x.2) ∧
    handedOut C x.1 p.1 x.2 = handedOut C x.1 p.2 x.2

instance (p : Machine C cfg × Machine C cfg) (x : (Env × Action) × Bool) :
    Decidable (RemovesForged C p x) :=
  inferInstanceAs (Decidable (_ → _))

instance (p : Machine C cfg × Machine C cfg) (x : Env × Action) : Decidable (Unharmed C p x) :=
  inferInstanceAs (Decidable (_ ∧ _))

/-- A run without forged packets, in so far as they are inert, has the same verdicts on all that
is kept and hands out the same frames. -/
theorem forgeries_starve_nobody (m : Machine C cfg) (steps : List ((Env × Action) × Bool))
    (hforged : Run.Along (both C) (RemovesForged C) (m, m) steps)
    (hinert : Run.Along (both C) (Inert C) (m, m) steps) :
    steps.foldl (both C) (m, m) =
        (run C m (steps.map Prod.fst), run C m ((steps.filter (!·.2)).map Prod.fst)) ∧
      Run.Along (both C) (fun p x => x.2 = false → Unharmed C p x.1) (m, m) steps := by
  refine ⟨Run.foldl_beside (m, m) steps, ?_⟩
  refine Run.Along.beside (R := Shadow C) ?_ ?_ (Run.along_and.mpr ⟨hforged, hinert⟩)
    (shadow_refl C m)
  · rintro p ⟨env, a⟩ h ⟨hforges, hleads⟩
    exact h.forged env (hforges rfl) hleads
  · rintro p ⟨env, a⟩ h ⟨-, hsame⟩
    have hstep := TwinMachines.step C env h a hsame
    exact ⟨hstep.shadow, Shadow.verdicts_eq hstep, h.handedOut_eq env hsame⟩

namespace ForgeryExample

open Pairing

/-- The host after the guest has been let in and has been heard with sequence 10. -/
noncomputable def paired : Machine Crypto.toy Config.default :=
  run Crypto.toy (rest Crypto.toy (initial Config.default (Vector.replicate 8 0)))
    (steps ++ [(at' 2, .recv guest (sealed .audioFrame 10 [0, 0, 0, 0, 1]))])

/-- Audio that claims to be the guest's, under another key. -/
def forgery (seq : UInt32) : Bytes :=
  sealedWith (Vector.replicate 32 1) .audioFrame seq [0, 0, 0, 0, 9]

/-- The guest's next frame. -/
def frame : Bytes := sealed .audioFrame 11 [0, 0, 0, 1, 1]

/-- The forged packet, which the other run does without, the frame, and a turn. -/
noncomputable def arrivals (seq : UInt32) : List ((Env × Action) × Bool) :=
  [((at' 2, .recv guest (forgery seq)), true), ((at' 2, .recv guest frame), false),
    ((at' 2, .turn), false)]

end ForgeryExample

open ForgeryExample in
/-- A forged packet from far behind changes nothing. -/
theorem forgeries_starve_nobody_late :
    Run.Along (both Crypto.toy) (fun p x => x.2 = false → Unharmed Crypto.toy p x.1)
      (paired, paired) (arrivals 5) := by
  have hforged : Run.Along (both Crypto.toy) (RemovesForged Crypto.toy) (paired, paired)
      (arrivals 5) := by decide +kernel
  have hbehind : Inert Crypto.toy (paired, paired)
      ((Pairing.at' 2, .recv Pairing.guest (forgery 5)), true) := by
    rw [Inert, if_pos rfl]
    decide +kernel
  have hpacket : Rendezvous.Message.decode frame = none := by decide +kernel
  have hinert : Run.Along (both Crypto.toy) (Inert Crypto.toy) (paired, paired) (arrivals 5) := by
    refine ⟨hbehind, ?_, ?_, trivial⟩
    · intro hprobe
      rw [hpacket] at hprobe
      cases hprobe
    · refine ⟨?_, fun hroom => absurd hroom ?_⟩
      · decide +kernel
      · decide +kernel
  exact (forgeries_starve_nobody Crypto.toy paired (arrivals 5) hforged hinert).2

open ForgeryExample in
/-- One forged packet from far ahead, and the next frame of the guest is refused as too old. -/
theorem forgery_starves_guest :
    Run.Along (both Crypto.toy) (RemovesForged Crypto.toy) (paired, paired) (arrivals 5000) ∧
      ¬Run.Along (both Crypto.toy) (fun p x => x.2 = false → Unharmed Crypto.toy p x.1)
        (paired, paired) (arrivals 5000) := by
  decide +kernel

end Machine
end GravitalTalk
