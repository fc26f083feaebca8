import GravitalTalk.Session.Roster

/-!
# Members

A member is a peer that a handshake was completed with and that has not left. It
keeps its keys, under its latest address, whatever else the session does; in an
orderly run of a session this gives it a place in the book.
-/
namespace GravitalTalk

/-- The entries of a log that an older one does not have. -/
def newly {α : Type*} (old now : List α) : List α := now.take (now.length - old.length)

@[simp] theorem newly_append {α : Type*} (old new : List α) : newly old (new ++ old) = new := by
  rw [newly, List.length_append, Nat.add_sub_cancel, List.take_left]

@[simp] theorem newly_self {α : Type*} (old : List α) : newly old old = [] := by
  rw [newly, Nat.sub_self, List.take_zero]

/-- The address of a peer after these changes of address, newest first. -/
def moved (switches : List (SocketAddr × SocketAddr)) (p : SocketAddr) : SocketAddr :=
  switches.foldr (fun m a => if a = m.1 then m.2 else a) p

namespace Session

open Relation

variable {cfg : Config} {C : Crypto} {env : Env} {i : Arrival} {s₀ s t u : Session cfg}
  {gone : SocketAddr → Prop}

/-- Keys are stored under more addresses, nowhere under fewer. -/
def Grown (s t : Session cfg) : Prop :=
  t.history.switched = s.history.switched ∧ (∀ p ∈ s.peers.peerKeys, p ∈ t.peers.peerKeys) ∧
    ∃ new, t.history.installed = new ++ s.history.installed ∧
      ∀ e ∈ new, e.peer ∈ t.peers.peerKeys

/-- Peers that are not `gone` keep their keys and follow the changes of address;
so do those that were admitted. -/
def Tracks (gone : SocketAddr → Prop) (s t : Session cfg) : Prop :=
  ∃ new moves, t.history.installed = new ++ s.history.installed ∧
    t.history.switched = moves ++ s.history.switched ∧
    (∀ p ∈ s.peers.peerKeys, ¬ gone p → moved moves p ∈ t.peers.peerKeys) ∧
    ∀ e ∈ new, e.peer ∈ t.peers.peerKeys

theorem Grown.of_eq (hkeys : t.peers.peerKeys = s.peers.peerKeys)
    (hhistory : t.history = s.history) :
    Grown s t := by
  refine ⟨by rw [hhistory], fun p hp => by rwa [hkeys], [], by rw [hhistory]; rfl, nofun⟩

@[refl] theorem Grown.refl (s : Session cfg) : Grown s s := .of_eq rfl rfl

theorem Grown.trans (h : Grown s t) (h' : Grown t u) : Grown s u := by
  obtain ⟨hswitched, hkeys, new, hnew, hjoins⟩ := h
  obtain ⟨hswitched', hkeys', new', hnew', hjoins'⟩ := h'
  refine ⟨hswitched'.trans hswitched, fun p hp => hkeys' p (hkeys p hp), new' ++ new, ?_, ?_⟩
  · rw [hnew', hnew, List.append_assoc]
  · intro e he
    rcases List.mem_append.mp he with he | he
    · exact hjoins' e he
    · exact hkeys' _ (hjoins e he)

theorem Grown.tracks (h : Grown s t) : Tracks gone s t := by
  obtain ⟨hswitched, hkeys, new, hnew, hjoins⟩ := h
  exact ⟨new, [], hnew, hswitched, fun p hp _ => hkeys p hp, hjoins⟩

theorem Tracks.grown (h : Tracks gone s t) (h' : Grown t u) : Tracks gone s u := by
  obtain ⟨new, moves, hnew, hmoves, hstays, hjoins⟩ := h
  obtain ⟨hswitched', hkeys', new', hnew', hjoins'⟩ := h'
  refine ⟨new' ++ new, moves, ?_, hswitched'.trans hmoves,
    fun p hp hgone => hkeys' _ (hstays p hp hgone), ?_⟩
  · rw [hnew', hnew, List.append_assoc]
  · intro e he
    rcases List.mem_append.mp he with he | he
    · exact hjoins' e he
    · exact hkeys' _ (hjoins e he)

theorem Tracks.mono {gone' : SocketAddr → Prop} (h : Tracks gone s t)
    (hgone : ∀ p, gone p → gone' p) : Tracks gone' s t := by
  obtain ⟨new, moves, hnew, hmoves, hstays, hjoins⟩ := h
  exact ⟨new, moves, hnew, hmoves, fun p hp hp' => hstays p hp fun h => hp' (hgone p h), hjoins⟩

theorem Grown.install (h : Grown s t) (env : Env) (peer : SocketAddr) (enc dec : SessionKey) :
    Grown s (t.installKeys env peer enc dec) := by
  refine h.trans ⟨rfl, fun p hp => Finmap.mem_insert.mpr (.inr hp), [_], rfl, fun e he => ?_⟩
  rw [List.mem_singleton.mp he]
  exact Finmap.mem_insert.mpr (.inl rfl)

/-! ## The receive loop -/

/-- What an effect does to the stored keys. -/
inductive KeyEffect (env : Env) (i : Arrival) (s₀ s t : Session cfg) : Prop
  | keep (hkeys : t.peers.peerKeys = s.peers.peerKeys)
      (hswitched : t.history.switched = s.history.switched)
  | drop (gone : Finset SocketAddr) (hgone : ∀ a ∈ gone, Departs env i s₀ a)
      (hkeys : t.peers.peerKeys = Table.retain (fun a _ => a ∉ gone) s.peers.peerKeys)
      (hswitched : t.history.switched = s.history.switched)
  | move (old new : SocketAddr) (hstay : ∀ a, ¬ Departs env i s₀ a)
      (hkeys : t.peers.peerKeys = s.peers.peerKeys.rename old new)
      (hswitched : t.history.switched = (old, new) :: s.history.switched)

theorem keyEffect_switchPeer {old new : SocketAddr} (hstay : ∀ a, ¬ Departs env i s₀ a) :
    KeyEffect env i s₀ s (s.switchPeer env old new) := by
  rcases switchPeer_cases env old new s with h | ⟨book, -, h⟩
  · rw [h]
    exact .keep rfl rfl
  · refine .move old new hstay ?_ ?_
    · rw [h.peers]
      rfl
    · rw [h.history]

theorem RxEffect.keyEffect (he : RxEffect C env i s₀ s t) : KeyEffect env i s₀ s t := by
  cases he with
  | quiet h => exact .keep (by rw [h.peers]) (by rw [h.history])
  | see => exact .keep rfl rfl
  | drop gone hgone => exact .drop gone hgone rfl rfl
  | buffer jitter gap => exact .keep rfl rfl
  | note => exact .keep rfl rfl
  | migrate hi hview hpeers hbook hopen hfresh hannounces =>
    refine keyEffect_switchPeer fun a hdeparts => ?_
    cases hdeparts with
    | close raw view hi' hview' htype hroom hknown =>
      rw [hi] at hi'
      cases hi'
      exact hbook hknown
    | silent hi' =>
      rw [hi] at hi'
      cases hi'
  | probe hi hmsg hpeers hprimary hne hstale hlen =>
    refine keyEffect_switchPeer fun a hdeparts => ?_
    cases hdeparts with
    | close raw view hi' hview htype hroom hknown =>
      rw [hi'] at hi
      cases hi
      exact decode_of_isRendezvous (isRendezvous_of_decode hmsg) view hview
    | silent hi' =>
      rw [hi'] at hi
      cases hi
  | check hi hview hbook =>
    rename_i sender raw view
    rcases antiReplay_cases view raw sender s with ⟨-, h⟩ | ⟨key, -, -, h⟩
    · exact .keep (by rw [h]) (by rw [h])
    · exact .keep (by rw [h.peers]; rfl) (by rw [h.history])
  | hear hi hview htype hmedia hset hfresh hread =>
    rename_i sender raw plain view
    rcases hearFrame_cases C env sender view.header.timestamp plain s with
      h | ⟨-, -, h⟩ | ⟨-, -, offset, -, h⟩
    · exact .keep (by rw [h.peers]) (by rw [h.history])
    · exact .keep (by rw [h]; rfl) (by rw [h]; rfl)
    · exact .keep (by rw [h.peers]; rfl) (by rw [h.history]; rfl)
  | parity hi hview htype hmedia hset hfresh hflag hread =>
    rename_i sender raw plain view
    rcases hearParity_cases sender plain s with h | ⟨-, base, -, ⟨-, h⟩ | ⟨seq, payload, -, h⟩⟩
    · exact .keep (by rw [h]) (by rw [h])
    · exact .keep (by rw [h]) (by rw [h])
    · exact .keep (by rw [h]) (by rw [h])

/-- Somebody moves or somebody leaves, not both, and nobody else loses keys. -/
theorem tracks_of_rx (hrx : RxEffects C env i s₀ s t) : Tracks (Departs env i s₀) s t := by
  have hmoves : ∃ moves, t.history.switched = moves ++ s.history.switched ∧
      (moves = [] ∨ ∀ a, ¬ Departs env i s₀ a) ∧
      ∀ p ∈ s.peers.peerKeys, ¬ Departs env i s₀ p → moved moves p ∈ t.peers.peerKeys := by
    induction hrx with
    | refl => exact ⟨[], rfl, .inl rfl, fun p hp _ => hp⟩
    | @tail u v _ he ih =>
      obtain ⟨moves, hmoves, hone, hstays⟩ := ih
      cases he.keyEffect with
      | keep hkeys hswitched =>
        refine ⟨moves, hswitched.trans hmoves, hone, fun p hp hgone => ?_⟩
        rw [hkeys]
        exact hstays p hp hgone
      | drop gone hgone hkeys hswitched =>
        refine ⟨moves, hswitched.trans hmoves, hone, fun p hp hstay => ?_⟩
        rw [hkeys]
        refine Table.mem_retain.mpr ⟨hstays p hp hstay, ?_⟩
        rw [decide_eq_true_eq]
        intro hmem
        rcases hone with rfl | hnobody
        · exact hstay (hgone _ hmem)
        · exact hnobody _ (hgone _ hmem)
      | move old new hstay hkeys hswitched =>
        refine ⟨(old, new) :: moves, by rw [hswitched, hmoves]; rfl, .inr hstay,
          fun p hp hgone => ?_⟩
        have hmem := hstays p hp hgone
        change (if moved moves p = old then new else moved moves p) ∈ v.peers.peerKeys
        rw [hkeys]
        by_cases hold : old ∈ u.peers.peerKeys
        · rw [Table.mem_rename_of_mem hold]
          split_ifs with hp'
          · exact .inl rfl
          · exact .inr ⟨hmem, hp'⟩
        · have hne : moved moves p ≠ old := by
            rintro rfl
            exact hold hmem
          rw [Table.rename_of_notMem hold, if_neg hne]
          exact hmem
  obtain ⟨moves, hmoves, -, hstays⟩ := hmoves
  exact ⟨[], moves, hrx.keeps.installed, hmoves, hstays, nofun⟩

end Session

namespace Machine

open Session Relation Run

variable {cfg : Config} {C : Crypto} {env : Env} {i : Arrival} {s t : Session cfg}

/-- A step without effects of a receive loop only adds keys. -/
theorem rules_grown (C : Crypto) (env : Env) (s₀ base : Session cfg) (sender : SocketAddr) :
    Rules C env (.handshake sender []) s₀ (Grown base) (fun _ _ => True) (fun _ => True)
      (fun _ => True) True where
  rx := by
    intro s t h hrx
    induction hrx with
    | refl => exact h
    | @tail u v _ he ih =>
      refine ih.trans ?_
      cases he with
      | quiet hq => exact .of_eq (by rw [hq.peers]) hq.history
      | see hi => cases hi
      | drop gone hgone =>
        refine ⟨rfl, fun p hp => Table.mem_retain.mpr ⟨hp, ?_⟩, [], rfl, nofun⟩
        rw [decide_eq_true_eq]
        intro hmem
        cases hgone p hmem with
        | close raw view hi => cases hi
        | silent hi => cases hi
      | buffer jitter gap => exact .of_eq rfl rfl
      | note hi => cases hi
      | migrate hi => cases hi
      | probe hi hmsg =>
        cases hi
        cases hmsg
      | check hi => cases hi
      | hear hi => cases hi
      | parity hi => cases hi
  calm h hc := h.trans (.of_eq (by rw [hc.peers]) hc.history)
  insert _ h := h.trans (.of_eq rfl rfl)
  remove _ h := h.trans (.of_eq rfl rfl)
  clearBook h := h.trans (.of_eq rfl rfl)
  joins _ h _ := h.trans (.of_eq rfl rfl)
  pending _ _ := trivial
  install peer h _ := h.install env peer _ _
  close {s} h := by
    rw [close_eq]
    exact h.trans (.of_eq rfl rfl)
  noiseServer _ _ := trivial
  legacyServer _ _ _ := trivial
  legacyClient _ _ _ := trivial
  noiseBegin _ _ := trivial
  noiseRead _ _ := trivial
  noiseClient _ _ _ := trivial
  legacyMode _ _ := trivial
  autoMode _ _ _ := trivial

/-- What such a step does: no datagram is read by a receive loop. -/
abbrev Grows (C : Crypto) (s : Session cfg) (m : Machine C cfg) : Prop :=
  Good (Grown s) (fun _ _ => True) (fun _ => True) True m

/-- A waiting handshake that got nothing of use goes on as after a timeout. -/
theorem onWaitFirst_none {caller : Caller} {expect : Option SocketAddr} {noise legacy : Bool}
    {cycle next : ℕ} {sender : SocketAddr} {raw : Bytes}
    (h : hearFirst C env expect noise legacy sender raw s = (none, t)) :
    onWaitFirst C env caller expect noise legacy cycle next (.datagram sender raw) s =
      onWaitFirst C env caller expect noise legacy cycle next .timeout t := by
  unfold onWaitFirst
  simp only [h]

theorem tracks_onWaitFirst (caller : Caller) (expect : Option SocketAddr) (noise legacy : Bool)
    (cycle next : ℕ) (input : Input) (s : Session cfg) :
    Tracks (fun _ => False) s
      (onWaitFirst C env caller expect noise legacy cycle next input s).session := by
  have hquiet (input : Input) (hin : ∀ sender raw, input ≠ .datagram sender raw)
      (t : Session cfg) :
      Grown t (onWaitFirst C env caller expect noise legacy cycle next input t).session :=
    ((rules_grown C env t t Pairing.guest).onWaitFirst caller expect noise legacy cycle next input
      (.refl t) (fun sender raw h => absurd h (hin sender raw)) (fun _ _ _ _ _ => trivial)).1
  cases input with
  | datagram sender raw =>
    cases hhear : hearFirst C env expect noise legacy sender raw s with
    | mk first t =>
      cases first with
      | none =>
        rw [onWaitFirst_none hhear]
        have hrx := rx_hearFirst C env expect noise legacy sender raw s
        rw [hhear] at hrx
        rcases hrx with heq | ⟨-, hrx⟩
        · rw [show t = s from heq]
          exact (hquiet .timeout nofun s).tracks
        · obtain ⟨new, moves, hnew, hmoves, hstays, hjoins⟩ :=
            (tracks_of_rx hrx).grown (hquiet .timeout nofun t)
          refine ⟨new, moves, hnew, hmoves, fun p hp _ => hstays p hp fun hgone => ?_, hjoins⟩
          cases hgone with
          | close raw view hi => cases hi
          | silent hi => cases hi
      | some first =>
        have hfirst : (hearFirst C env expect noise legacy sender raw s).1 = some first := by
          rw [hhear]
        have hsame := (hearFirst_some hfirst).1
        rw [hhear] at hsame
        obtain rfl : t = s := hsame
        have R := rules_grown C env t t sender
        have hpeer : Grown t (registerPeer caller sender t) := by
          unfold registerPeer
          split_ifs
          · exact R.insert _ (.refl t)
          · rfl
        unfold onWaitFirst
        simp only [hhear]
        exact (R.beginServer hpeer caller sender first trivial).1.tracks
  | timeout => exact (hquiet .timeout nofun s).tracks
  | ioError e => exact (hquiet (.ioError e) nofun s).tracks
  | expire => exact (hquiet .expire nofun s).tracks

theorem tracks_onInput (input : Input) (m : Machine C cfg) :
    Tracks (fun _ => False) m.session (onInput C env input m).session := by
  have R := rules_grown C env m.session m.session Pairing.guest
  have hgrows {n : Machine C cfg} (h : Grows C m.session n) :
      Tracks (fun _ => False) m.session n.session := h.1.tracks
  unfold Machine.onInput
  split
  · exact (Grown.refl _).tracks
  · exact tracks_onWaitFirst _ _ _ _ _ _ _ _
  · rename_i caller peer wait htask
    exact hgrows (R.onKeyExchange (.refl _) _ _ _ _ (fun h => calm_of_sendControl h)
      (fun ke s => settles_legacyServerFinish C env peer wait ke s) trivial trivial)
  · rename_i caller peer pending htask
    exact hgrows (R.onKeyExchange (.refl _) _ _ _ _ (fun h => calm_of_sendControl h)
      (fun ke s => settles_noiseServerFinish env peer pending ke s) trivial trivial)
  · exact hgrows (R.onHelloSent (.refl _) trivial _ _ _ _)
  · exact hgrows (R.onNoiseSent (.refl _) _ (fun _ => trivial) trivial _ _ _ _ _)
  · exact hgrows (R.onConfirm (.refl _) _ _ (fun _ => trivial) trivial _)

theorem grown_quiet (h : Quiet s t) : Grown s t := .of_eq (by rw [h.peers]) h.history

theorem tracks_dispatch {raw : Bytes} {sender : SocketAddr} {view : PacketView} (hq : Quiet s t)
    (hview : PacketView.decode raw = .ok view) :
    Tracks (Departs env (.loop sender raw) s) s (t.dispatchPacket C env view raw sender).2 :=
  tracks_of_rx (hq.rx.trans (rx_dispatchPacket hq hview))

theorem tracks_recv (C : Crypto) (env : Env) (raw : Bytes) (sender : SocketAddr)
    (s : Session cfg) : Tracks (Departs env (.loop sender raw) s) s
      (afterDatagram C env sender (s.recvDatagram C env raw sender)).session := by
  have R := rules_grown C env s s sender
  have hq := quiet_received env raw.length s
  have hcount : SendsOnly s (s.recordReceived raw.length) := .of_eq rfl rfl rfl rfl rfl
  unfold Session.recvDatagram
  dsimp only
  split
  · exact tracks_of_rx (hcount.quiet.rx.trans (rx_onRendezvous rfl hcount))
  · split
    · exact (grown_quiet (hcount.quiet.trans (.of_eq rfl rfl rfl rfl rfl))).tracks
    · rename_i view hview
      split
      · rename_i msg1 _
        exact (R.beginJoin (grown_quiet hq) sender msg1).tracks
      · rename_i first _ _
        exact (R.beginServer (R.insert sender (grown_quiet hq)) .promote sender first
          trivial).1.tracks
      · have hjoin := R.finishJoin (grown_quiet hq) view sender
        split
        · rename_i t ht
          rw [ht] at hjoin
          exact hjoin.tracks
        · rename_i t ht
          obtain rfl := eq_of_finishJoin_false ht
          exact tracks_dispatch hq hview

theorem tracks_poll (C : Crypto) (env : Env) (raw : Bytes) (sender : SocketAddr)
    (s : Session cfg) : Tracks (Departs env (.loop sender raw) s) s
      (afterDatagram C env sender (s.pollDatagram C env raw sender)).session := by
  have R := rules_grown C env s s sender
  have hq := quiet_received env raw.length s
  unfold Session.pollDatagram
  dsimp only
  split
  · exact (grown_quiet (.of_eq rfl rfl rfl rfl rfl)).tracks
  · rename_i view hview
    split
    · rename_i first _
      exact (R.beginServer (R.insert sender (grown_quiet hq)) .promote sender first
        trivial).1.tracks
    · exact tracks_dispatch hq hview

/-! ## Steps -/

/-- The peers that leave in a step: all of them when the session ends, in a room
one that says so and those that the receive loop finds silent. -/
def Leaves (m : Machine C cfg) (x : Env × Action) (p : SocketAddr) : Prop :=
  match x.2 with
  | .close => True
  | .reopen => m.session.status.closed = true
  | .turn | .recv .. | .poll .. => m.task = .idle ∧ Departs x.1 (m.arrival x.2) m.session p
  | _ => False

theorem whenIdle_cases (m : Machine C cfg) (f : Session cfg → Machine C cfg) :
    m.task = .idle ∧ whenIdle C m f = f m.session ∨ whenIdle C m f = m := by
  unfold Machine.whenIdle
  split
  · rename_i htask
    exact .inl ⟨htask, rfl⟩
  · exact .inr rfl

theorem tracks_whenIdle {m : Machine C cfg} {f : Session cfg → Machine C cfg}
    {gone : SocketAddr → Prop}
    (h : m.task = .idle → Tracks gone m.session (f m.session).session) :
    Tracks gone m.session (whenIdle C m f).session := by
  rcases whenIdle_cases m f with ⟨hidle, heq⟩ | heq
  · rw [heq]
    exact h hidle
  · rw [heq]
    exact (Grown.refl _).tracks

theorem step_tracks (m : Machine C cfg) (x : Env × Action) :
    Tracks (Leaves m x) m.session (step C x.1 m x.2).session := by
  obtain ⟨env, a⟩ := x
  have R := rules_grown C env m.session m.session Pairing.guest
  cases a with
  | handshake role peer =>
    exact tracks_whenIdle fun _ => (R.handshake (.refl _) role peer).1.tracks
  | handshakeOpen => exact tracks_whenIdle fun _ => (R.handshakeOpen (.refl _)).1.tracks
  | acceptAdditionalPeer =>
    exact tracks_whenIdle fun _ => (R.acceptAdditionalPeer (.refl _)).1.tracks
  | input i => exact (tracks_onInput i m).mono (by simp)
  | cancel => exact (Grown.refl _).tracks
  | turn =>
    refine tracks_whenIdle (f := fun s => rest C (s.turn C env).2) fun hidle => ?_
    exact (tracks_of_rx (rx_turn C env m.session)).mono fun p hp => ⟨hidle, hp⟩
  | recv sender raw =>
    refine tracks_whenIdle (f := fun s => afterDatagram C env sender
      (s.recvDatagram C env raw sender)) fun hidle => ?_
    refine (tracks_recv C env raw sender m.session).mono fun p hp => ⟨hidle, ?_⟩
    rw [(arrival_of_idle hidle sender raw).1]
    exact hp
  | poll sender raw =>
    refine tracks_whenIdle (f := fun s => afterDatagram C env sender
      (s.pollDatagram C env raw sender)) fun hidle => ?_
    refine (tracks_poll C env raw sender m.session).mono fun p hp => ⟨hidle, ?_⟩
    rw [(arrival_of_idle hidle sender raw).2]
    exact hp
  | pollTimeout =>
    refine tracks_whenIdle (f := fun s => rest C (s.pollTimeout env).2) fun _ => ?_
    exact (grown_quiet (quiet_pollTimeout env m.session)).tracks
  | sendAudio payload =>
    have hs := speaksOnly_sendAudio C env payload m.session
    have hg : Grown m.session (m.session.sendAudio C env payload).2 :=
      .of_eq (by rw [hs.peers]) hs.history
    exact hg.tracks
  | pttPress =>
    have hg : Grown m.session (m.session.pttPress env).2 :=
      R.calm (.refl _) ((sendsOnly_signalAll env _ _ _ _ _).calm.after (.of_eq rfl rfl rfl rfl rfl))
    exact hg.tracks
  | pttRelease =>
    have hg : Grown m.session (m.session.pttRelease env).2 :=
      R.calm (.refl _) ((sendsOnly_signalAll env _ _ _ _ _).calm.after (.of_eq rfl rfl rfl rfl rfl))
    exact hg.tracks
  | close =>
    have hg : Grown m.session (m.session.close env) := R.close (.refl _)
    exact hg.tracks
  | reopen =>
    cases hclosed : m.session.status.closed with
    | false =>
      have hsame : m.session.reopen.2 = m.session := by
        simp only [Session.reopen, hclosed, Bool.not_false, if_true]
      change Tracks _ m.session m.session.reopen.2
      rw [hsame]
      exact (Grown.refl _).tracks
    | true =>
      have hhistory : m.session.reopen.2.history = m.session.history := by
        rcases reopen_cases m.session with h | ⟨-, -, h⟩
        · rw [h]
        · exact h
      refine ⟨[], [], ?_, ?_, fun p _ hp => absurd hclosed hp, fun e he => ?_⟩
      · exact congrArg History.installed hhistory
      · exact congrArg History.switched hhistory
      · cases he
  | setPresetSessionId id => exact (Grown.of_eq rfl rfl).tracks
  | setRoomToken token => exact (Grown.of_eq rfl rfl).tracks
  | setHandshakeMode mode => exact (Grown.of_eq rfl rfl).tracks
  | setRendezvous server => exact (Grown.of_eq rfl rfl).tracks
  | setMultiPeer enabled => exact (Grown.of_eq rfl rfl).tracks
  | setRelayOnly enabled => exact (Grown.of_eq rfl rfl).tracks
  | setOwnPublic addr => exact (Grown.of_eq rfl rfl).tracks
  | addPathHints addrs => exact (Grown.of_eq rfl rfl).tracks

/-! ## Runs -/

/-- A machine and who is a member of its session. -/
structure Assembly (C : Crypto) (cfg : Config) where
  machine : Machine C cfg
  members : Set SocketAddr

/-- Who was a member and does not leave stays one at its latest address, and who
completes a handshake becomes one. -/
def attend (C : Crypto) (r : Assembly C cfg) (x : Env × Action) : Assembly C cfg where
  machine := step C x.1 r.machine x.2
  members :=
    let old := r.machine.session.history
    let now := (step C x.1 r.machine x.2).session.history
    {q | (∃ p ∈ r.members, ¬ Leaves r.machine x p ∧ moved (newly old.switched now.switched) p = q) ∨
      ∃ e ∈ newly old.installed now.installed, e.peer = q}

theorem members_keys {r : Assembly C cfg}
    (h : ∀ p ∈ r.members, p ∈ r.machine.session.peers.peerKeys)
    (x : Env × Action) :
    ∀ p ∈ (attend C r x).members, p ∈ (attend C r x).machine.session.peers.peerKeys := by
  obtain ⟨new, moves, hnew, hmoves, hstays, hjoins⟩ := step_tracks r.machine x
  rintro q (⟨p, hp, hstay, rfl⟩ | ⟨e, he, rfl⟩)
  · rw [hmoves, newly_append]
    exact hstays p (h p hp) hstay
  · rw [hnew, newly_append] at he
    exact hjoins e he

theorem members_run {r : Assembly C cfg}
    (h : ∀ p ∈ r.members, p ∈ r.machine.session.peers.peerKeys) (steps : List (Env × Action)) :
    ∀ p ∈ (steps.foldl (attend C) r).members,
      p ∈ (steps.foldl (attend C) r).machine.session.peers.peerKeys := by
  induction steps generalizing r with
  | nil => exact h
  | cons x steps ih => exact ih (members_keys h x)

/-- The tables of an active session agree about who is in it. -/
structure Tidy (r : Assembly C cfg) : Prop where
  keys : ∀ p ∈ r.machine.session.peers.peerKeys, p ∈ r.machine.session.peers.book.peers
  seen : ∀ p ∈ r.machine.session.live.peerSeen, p ∈ r.machine.session.peers.book.peers
  windows : ∀ p ∈ r.machine.session.peers.replayByPeer, p ∈ r.machine.session.peers.book.peers
  members : ∀ p ∈ r.members, p ∈ r.machine.session.peers.book.peers
  own : ∀ p ∈ r.machine.session.peers.book.peers,
    p ∈ r.machine.session.peers.peerKeys ∨ r.machine.task.promoted = some p
  length : r.machine.session.peers.book.peers.length ≤ maxPeers

theorem run_attend (r : Assembly C cfg) (steps : List (Env × Action)) :
    (steps.foldl (attend C) r).machine = run C r.machine steps := by
  induction steps generalizing r with
  | nil => rfl
  | cons x steps ih => exact ih (attend C r x)

/-- In a run of a new session whose steps are orderly, the tables agree whenever
the session is active. -/
theorem tables_tidy {s : Session cfg} {nonce : Vector UInt8 8}
    (hnew : Session.new cfg nonce = some s) (steps : List (Env × Action))
    (horderly : Along (fun m x => step C x.1 m x.2) (Orderly C) (rest C s) steps)
    (hactive : (run C (rest C s) steps).session.status.state = .active) :
    Tidy (steps.foldl (attend C) ⟨rest C s, ∅⟩) := by
  have hstart : Consistent (rest C s) := by
    rw [eq_initial_of_new hnew]
    have hblank : Blank (initial cfg nonce) := ⟨rfl, rfl, rfl, rfl⟩
    exact ⟨trivial, nofun, fun _ => ⟨rfl, hblank⟩, fun _ => hblank.linked⟩
  have hend : Consistent (run C (rest C s) steps) :=
    horderly.invariant (fun m x h hx => h.step x hx) hstart
  have hmembers : ∀ p ∈ (steps.foldl (attend C) ⟨rest C s, ∅⟩).members,
      p ∈ (steps.foldl (attend C) ⟨rest C s, ∅⟩).machine.session.peers.peerKeys := by
    have hnone : ∀ p ∈ (∅ : Set SocketAddr), p ∈ (rest C s).session.peers.peerKeys :=
      fun p hp => (Set.notMem_empty p hp).elim
    exact members_run (r := ⟨rest C s, ∅⟩) hnone steps
  have hlinked := hend.active hactive
  have hmachine : (steps.foldl (attend C) ⟨rest C s, ∅⟩).machine = run C (rest C s) steps :=
    run_attend _ steps
  rw [hmachine] at hmembers
  constructor
  · rw [hmachine]
    exact hlinked.keys
  · rw [hmachine]
    exact hlinked.seen
  · rw [hmachine]
    exact hlinked.windows
  · rw [hmachine]
    exact fun p hp => hlinked.keys p (hmembers p hp)
  · rw [hmachine]
    exact hlinked.own
  · exact AddressBook.length_le _

open Pairing in
/-- A room that a guest is taken into. -/
theorem tables_tidy_pairing :
    Tidy (((at' 0, .setMultiPeer true) :: steps).foldl (attend Crypto.toy)
      ⟨rest Crypto.toy (initial Config.default (Vector.replicate 8 0)), ∅⟩) := by
  refine tables_tidy (new_default _) _ ⟨trivial, ?_, ?_, ?_, trivial⟩ (by decide +kernel)
  · exact fun _ hactive => absurd hactive (by decide)
  · exact fun hactive => absurd hactive (by decide +kernel)
  · exact fun hactive => absurd hactive (by decide +kernel)

open Pairing in
/-- The host of the room waits for another guest. It gets keys and is heard, but is not put
into the book. -/
theorem additional_peer_unlisted :
    let newcomer := SocketAddr.v4 (Vector.replicate 4 7) 7
    let pairing : List (Env × Action) := (at' 0, .setMultiPeer true) :: steps
    let another : List (Env × Action) := [(at' 2, .acceptAdditionalPeer),
      (at' 2, .input (.datagram newcomer helloDatagram)),
      (at' 2, .input (.datagram newcomer keyExchangeDatagram))]
    let r := (pairing ++ another).foldl (attend Crypto.toy)
      ⟨rest Crypto.toy (initial Config.default (Vector.replicate 8 0)), ∅⟩
    Session.new Config.default (Vector.replicate 8 0) =
        some (initial Config.default (Vector.replicate 8 0)) ∧
      r.machine.session.status.state = .active ∧ newcomer ∈ r.members ∧
      newcomer ∈ r.machine.session.peers.peerKeys ∧
      newcomer ∉ r.machine.session.peers.book.peers ∧ ¬ Tidy r := by
  intro newcomer pairing another r
  have htables : r.machine.session.status.state = .active ∧
      newcomer ∈ r.machine.session.peers.peerKeys ∧
      newcomer ∉ r.machine.session.peers.book.peers := by
    simp only [r, run_attend]
    decide +kernel
  have hmember : newcomer ∈ r.members := by
    simp only [r, another, List.foldl_append]
    refine .inr ?_
    simp only [attend]
    decide +kernel
  clear_value r
  obtain ⟨hactive, hkeys, hbook⟩ := htables
  refine ⟨new_default _, hactive, hmember, hkeys, hbook, ?_⟩
  intro htidy
  exact hbook (htidy.keys newcomer hkeys)

end Machine
end GravitalTalk
