import GravitalTalk.Session.Rules
import GravitalTalk.Session.Stranger

/-!
# After closing

`close` forgets the session's own keys, the book and the replay windows, but not
the keys of single peers and not the admissions in progress. Whether the receive
loops still do anything afterwards depends on exactly these two tables.
-/
namespace GravitalTalk
namespace Machine

open Session Relation Run

variable {cfg : Config} {C : Crypto} {env : Env} {i : Arrival} {s₀ s t : Session cfg}

/-- The receive loops, and nothing else. -/
def Receives : Action → Prop
  | .turn | .recv .. | .poll .. | .pollTimeout => True
  | _ => False

/-! ## Nothing is left -/

/-- Closed, with no key of anybody and no admission that could be confirmed. -/
structure Shut (opened : List Opened) (pushed : List Pushed) (s : Session cfg) : Prop where
  closed : s.status.closed = true
  book : s.peers.book.peers = []
  peerKeys : s.peers.peerKeys = ∅
  decryptKey : s.peers.decryptKey = none
  pending : ∀ a p, s.pendingJoins.lookup a = some p → ¬ Fits cfg p.confirm.length
  opened : s.history.opened = opened
  pushed : s.history.pushed = pushed

variable {opened : List Opened} {pushed : List Pushed}

theorem Shut.calm (h : Shut opened pushed s) (hc : Calm s t) : Shut opened pushed t := by
  refine ⟨hc.closed.trans h.closed, ?_, ?_, ?_, ?_, ?_, ?_⟩
  · rw [hc.peers, h.book]
  · rw [hc.peers, h.peerKeys]
  · rw [hc.peers, h.decryptKey]
  · rw [hc.pendingJoins]
    exact h.pending
  · rw [hc.history, h.opened]
  · rw [hc.history, h.pushed]

theorem Shut.no_key (h : Shut opened pushed s) (key : SessionKey) : ¬ s.HoldsKey key := by
  rintro (⟨a, pair, ha, -⟩ | hkey)
  · simp [h.peerKeys] at ha
  · simp [h.decryptKey] at hkey

theorem Shut.no_reads (h : Shut opened pushed s₀) {view : PacketView} {raw plain : Bytes}
    {sender : SocketAddr} : ¬ Reads C s₀ s view raw sender plain := by
  rintro (⟨key, o, -, hheld, -, -, -, -, -⟩ | ⟨-, -, hbook⟩)
  · exact h.no_key key hheld
  · simp [h.book] at hbook

/-- No effect of a datagram finds anything to work with. -/
theorem Shut.rx (h₀ : Shut opened pushed s₀) (h : Shut opened pushed s)
    (he : RxEffect C env i s₀ s t) : Shut opened pushed t := by
  cases he with
  | quiet hq => exact h.calm hq.calm
  | see => exact ⟨h.closed, h.book, h.peerKeys, h.decryptKey, h.pending, h.opened, h.pushed⟩
  | drop gone =>
    refine ⟨h.closed, ?_, ?_, h.decryptKey, h.pending, h.opened, h.pushed⟩
    · simp [dropPeers, Peers.dropAll, AddressBook.retain, h.book]
    · apply Finmap.ext_lookup
      intro a
      simp [dropPeers, Peers.dropAll, h.peerKeys]
  | buffer jitter gap =>
    exact ⟨h.closed, h.book, h.peerKeys, h.decryptKey, h.pending, h.opened, h.pushed⟩
  | note hi hview hheld hopen => exact absurd hheld (h.no_key _)
  | migrate hi hview hpeers hbook hopen hfresh hannounces =>
    obtain ⟨⟨enc, hkey⟩, -⟩ := openAs_eq_some.mp hopen
    simp [h₀.peerKeys] at hkey
  | probe hi hmsg hpeers hprimary hne hstale hlen =>
    simp [AddressBook.primary, h₀.book] at hprimary
  | check hi hview hbook =>
    rename_i sender raw view
    rcases antiReplay_cases view raw sender s with ⟨-, hs⟩ | ⟨key, hkey, -, -⟩
    · rwa [hs]
    · simp [h.decryptKey] at hkey
  | hear hi hview htype hmedia hset hfresh hread => exact absurd hread h₀.no_reads
  | parity hi hview htype hmedia hset hfresh hflag hread => exact absurd hread h₀.no_reads

theorem Shut.rxs (h₀ : Shut opened pushed s₀) (h : Shut opened pushed s)
    (he : RxEffects C env i s₀ s t) : Shut opened pushed t := by
  induction he with
  | refl => exact h
  | tail _ he ih => exact h₀.rx ih he

theorem noiseServerFinish_fails (env : Env) {p : PendingJoin}
    (h : ¬ Fits cfg p.confirm.length) (peer : SocketAddr) (ke : KeyExchangeMsg) (s : Session cfg) :
    ∃ e, (s.noiseServerFinish env peer p ke).1 = .error e := by
  unfold noiseServerFinish
  split_ifs
  · exact ⟨_, rfl⟩
  · exact ⟨_, rfl⟩
  · obtain ⟨e, he⟩ := sendControl_unfit env h .handshakeSessionConfirm p.sessionId peer s
    split
    · exact ⟨_, rfl⟩
    · rename_i t ht
      rw [ht] at he
      cases he

/-- An admission cannot be finished, only given up. -/
theorem Shut.finishJoin (env : Env) (h : Shut opened pushed s) (view : PacketView)
    (sender : SocketAddr) :
    Shut opened pushed (s.finishJoin env view sender).2 := by
  unfold Session.finishJoin
  split_ifs
  · exact h
  · split
    · exact h
    · rename_i p hp
      have hfits := h.pending sender p hp
      have herase : Shut opened pushed { s with pendingJoins := s.pendingJoins.erase sender } := by
        refine ⟨h.closed, h.book, h.peerKeys, h.decryptKey, fun a q hq => ?_, h.opened, h.pushed⟩
        rw [Table.lookup_erase_eq] at hq
        split_ifs at hq
        exact h.pending a q hq
      dsimp only
      split
      · exact herase
      · rename_i ke _
        obtain ⟨e, he⟩ := noiseServerFinish_fails env hfits sender ke
          { s with pendingJoins := s.pendingJoins.erase sender }
        rcases settles_noiseServerFinish env sender p ke
          { s with pendingJoins := s.pendingJoins.erase sender } with ⟨e', -, hc⟩ | ⟨hok, -⟩
        · split
          · rename_i u hu
            rw [hu] at hc
            exact herase.calm hc.calm
          · rename_i u hu
            rw [hu] at he
            cases he
        · rw [hok] at he
          cases he

theorem peekNewPeer_closed (h : s.status.closed = true) (view : PacketView)
    (sender : SocketAddr) : s.peekNewPeer view sender = none := by
  simp [peekNewPeer, h]

/-- A closed session starts no handshake from a receive loop. -/
theorem step_recv_closed (h : s.status.closed = true) (sender : SocketAddr) (raw : Bytes) :
    step C env (rest C s) (.recv sender raw) = rest C (s.recvDatagram C env raw sender).2 := by
  change afterDatagram C env sender (s.recvDatagram C env raw sender) = _
  unfold afterDatagram
  split
  · rfl
  · rename_i first hfirst
    obtain ⟨view, -, hpeek⟩ := promote_of_recvDatagram hfirst
    simp [peekNewPeer_closed h] at hpeek

theorem step_poll_closed (h : s.status.closed = true) (sender : SocketAddr) (raw : Bytes) :
    step C env (rest C s) (.poll sender raw) = rest C (s.pollDatagram C env raw sender).2 := by
  change afterDatagram C env sender (s.pollDatagram C env raw sender) = _
  unfold afterDatagram
  split
  · rfl
  · rename_i first hfirst
    obtain ⟨view, -, hpeek⟩ := promote_of_pollDatagram hfirst
    simp [peekNewPeer_closed h] at hpeek

theorem Shut.recvDatagram (h : Shut opened pushed s) (raw : Bytes) (sender : SocketAddr) :
    Shut opened pushed (s.recvDatagram C env raw sender).2 := by
  have hcount := sendsOnly_recordReceived s raw.length
  have hheard := quiet_heard env s raw.length
  have hs := h.calm hheard.calm
  unfold Session.recvDatagram
  dsimp only
  split_ifs
  · have hrx : RxEffects C env (.loop sender raw) s (s.recordReceived raw.length)
        ((s.recordReceived raw.length).onRendezvous C env raw sender) := rx_onRendezvous rfl hcount
    exact h.rxs (h.calm hcount.calm) hrx
  · split
    · exact h.calm (.of_eq rfl rfl rfl rfl rfl)
    · rename_i view hview
      rw [peekNewPeer_closed hs.closed]
      have hfinish := hs.finishJoin env view sender
      dsimp only
      split
      · rename_i t ht
        rwa [ht] at hfinish
      · rename_i t ht
        rw [eq_of_finishJoin_false ht]
        exact h.rxs hs (rx_dispatchPacket hheard hview)

theorem Shut.pollDatagram (h : Shut opened pushed s) (raw : Bytes) (sender : SocketAddr) :
    Shut opened pushed (s.pollDatagram C env raw sender).2 := by
  have hheard := quiet_heard env s raw.length
  have hs := h.calm hheard.calm
  unfold Session.pollDatagram
  dsimp only
  split
  · exact h.calm (.of_eq rfl rfl rfl rfl rfl)
  · rename_i view hview
    rw [peekNewPeer_closed hs.closed]
    exact h.rxs hs (rx_dispatchPacket hheard hview)

theorem Shut.step (C : Crypto) (env : Env) (h : Shut opened pushed s) {a : Action}
    (ha : Receives a) :
    ∃ t, step C env (rest C s) a = rest C t ∧ Shut opened pushed t := by
  cases a with
  | turn => exact ⟨_, rfl, h.rxs h (rx_turn C env s)⟩
  | recv sender raw => exact ⟨_, step_recv_closed h.closed sender raw, h.recvDatagram raw sender⟩
  | poll sender raw => exact ⟨_, step_poll_closed h.closed sender raw, h.pollDatagram raw sender⟩
  | pollTimeout => exact ⟨_, rfl, h.calm (quiet_pollTimeout env s).calm⟩
  | _ => exact ha.elim

theorem Shut.run (h : Shut opened pushed s) {steps : List (Env × Action)}
    (ha : ∀ x ∈ steps, Receives x.2) : Shut opened pushed (run C (rest C s) steps).session := by
  induction steps generalizing s with
  | nil => exact h
  | cons x steps ih =>
    obtain ⟨t, ht, hshut⟩ := h.step C x.1 (ha x List.mem_cons_self)
    change Shut opened pushed (Machine.run C (Machine.step C x.1 (rest C s) x.2) steps).session
    rw [ht]
    exact ih hshut fun y hy => ha y (List.mem_cons_of_mem _ hy)

/-! ## Something is left -/

theorem RxEffect.opened_suffix (he : RxEffect C env i s₀ s t) :
    s.history.opened <:+ t.history.opened := by
  cases he with
  | quiet hq => rw [hq.history]
  | see => exact List.suffix_rfl
  | drop gone => exact List.suffix_rfl
  | buffer jitter gap => exact List.suffix_rfl
  | note => exact List.suffix_cons _ _
  | migrate hi hview hpeers hbook hopen hfresh hannounces =>
    rename_i sender old raw plain view key
    rcases switchPeer_cases env old sender s with hs | ⟨book, -, hq⟩
    · rw [hs]
    · rw [hq.history]
  | probe hi hmsg hpeers hprimary hne hstale hlen =>
    rename_i sender old raw
    rcases switchPeer_cases env old sender s with hs | ⟨book, -, hq⟩
    · rw [hs]
    · rw [hq.history]
  | check hi hview hbook =>
    rename_i sender raw view
    rcases antiReplay_cases view raw sender s with ⟨-, hs⟩ | ⟨key, -, -, hq⟩
    · rw [hs]
    · rw [hq.history]
  | hear hi hview htype hmedia hset hfresh hread =>
    rename_i sender raw plain view
    rcases hearFrame_cases C env sender view.header.timestamp plain s with
      hq | ⟨-, -, hs⟩ | ⟨-, -, offset, -, hq⟩
    · rw [hq.history]
    · rw [hs]
      exact List.suffix_rfl
    · rw [hq.history]
      exact List.suffix_rfl
  | parity hi hview htype hmedia hset hfresh hflag hread =>
    rename_i sender raw plain view
    rcases hearParity_cases sender plain s with hs | ⟨-, base, -, ⟨-, hs⟩ | ⟨seq, out, -, hs⟩⟩
    · rw [hs]
    · rw [hs]
    · rw [hs]

theorem RxEffects.opened_suffix (he : RxEffects C env i s₀ s t) :
    s.history.opened <:+ t.history.opened := by
  induction he with
  | refl => exact List.suffix_rfl
  | tail _ he ih => exact ih.trans (RxEffect.opened_suffix he)

/-- A packet that announces an address and verifies under some peer's key is
opened, whoever sent it. -/
theorem opened_of_owner (env : Env) {view : PacketView} {raw : Bytes} (sender : SocketAddr)
    (hann : announces view = true) {a : SocketAddr} (hown : a ∈ s.owners C view raw) :
    ∃ o, (s.tryMigrate C env view raw sender).2.history.opened = o :: s.history.opened := by
  unfold tryMigrate
  rw [if_neg (by simp [hann])]
  split
  · rename_i hnone
    rw [env.first_none hnone] at hown
    exact absurd hown (Finset.notMem_empty a)
  · rename_i old hold
    have hopen := (Finset.mem_filter.mp (env.first_mem hold)).2
    split
    · rename_i hnone
      simp [hnone] at hopen
    · rename_i key plain _
      dsimp only
      split
      · have hnote : ((s.noteOpened sender key view raw plain).switchPeer env old
            sender).history.opened = (s.noteOpened sender key view raw plain).history.opened := by
          rcases switchPeer_cases env old sender (s.noteOpened sender key view raw plain) with
            hs | ⟨book, -, hq⟩
          · rw [hs]
          · rw [hq.history]
        exact ⟨_, hnote⟩
      · exact ⟨_, rfl⟩

/-- The heartbeat of somebody who has `key`. -/
def lateHeader (sid : UInt32) : PacketHeader :=
  ⟨protocolVersion, Flags.encrypted, MessageType.heartbeat.code, sid, 0, 0⟩

theorem announces_late (sid : UInt32) (body : Bytes) :
    announces ⟨lateHeader sid, body⟩ = true := by
  have hflag : Flags.encrypted.contains .encrypted = true := by decide
  have htype : MessageType.fromCode MessageType.heartbeat.code = .ok .heartbeat := by decide
  simp only [announces, lateHeader, hflag, htype]
  rfl

/-- A stored key of a single peer opens that peer's heartbeat after `close`. -/
theorem opened_after_close (env : Env) (hC : C.RoundTrip)
    (hseal : ∀ key nonce aad, (C.aeadEncrypt key nonce aad []).isSome)
    (hclosed : s.status.closed = true) (hbook : s.peers.book.peers = []) {a : SocketAddr}
    {pair : SessionKey × SessionKey} (hkey : s.peers.peerKeys.lookup a = some pair) :
    ∃ raw, s.history.opened.length <
      (step C env (rest C s) (.poll a raw)).session.history.opened.length := by
  let header := lateHeader s.status.sessionId
  obtain ⟨body, hbody⟩ := Option.isSome_iff_exists.mp
    (hseal pair.2 (makeNonce 0 s.status.sessionId) header.encode)
  have hlen := hC.length hbody
  have hview : PacketView.decode (PacketBuilder.bytes header body) = .ok ⟨header, body⟩ :=
    PacketBuilder.decode_bytes rfl (by rw [hlen]; decide)
  have hhead : (PacketBuilder.bytes header body).take headerSize = header.encode := by
    simp [PacketBuilder.bytes]
  have hdec : C.decryptInPlace pair.2 (makeNonce 0 s.status.sessionId) header.encode body =
      .ok [] := by
    refine hC.decryptInPlace ?_
    rw [Crypto.encryptInPlace, hbody]
  let s' := (s.recordReceived (PacketBuilder.bytes header body).length).heard env
  have hown : a ∈ s'.owners C ⟨header, body⟩ (PacketBuilder.bytes header body) := by
    have hopen : s'.openAs C a ⟨header, body⟩ (PacketBuilder.bytes header body) =
        some (pair.2, []) := by
      have hwith : s'.openWith C pair.2 ⟨header, body⟩ (PacketBuilder.bytes header body) =
          some [] := by
        rw [openWith_eq_some, hhead]
        exact hdec
      exact openAs_eq_some.mpr ⟨⟨pair.1, hkey⟩, hwith⟩
    refine Finset.mem_filter.mpr ⟨Finmap.mem_keys.mpr (Finmap.mem_of_lookup_eq_some hkey), ?_⟩
    rw [hopen]
    rfl
  have hann : announces ⟨header, body⟩ = true := announces_late _ body
  obtain ⟨o, ho⟩ := opened_of_owner env a hann hown
  have hdispatch : s'.history.opened.length <
      (s'.dispatchPacket C env ⟨header, body⟩ (PacketBuilder.bytes header body)
        a).2.history.opened.length := by
    have hunknown : a ∉ s'.peers.book.peers := by
      rw [show s'.peers.book.peers = [] from hbook]
      exact List.not_mem_nil
    have hnot : ¬ s'.peers.book.contains a = true := by rwa [AddressBook.contains_iff]
    obtain ⟨-, hfollows⟩ := rx_tryMigrate C env (Quiet.refl s') hview hunknown
    have hlt : s'.history.opened.length < (o :: s'.history.opened).length := Nat.lt_succ_self _
    rw [dispatchPacket, if_neg hnot]
    split
    · rename_i u hu
      rw [hu] at ho
      rwa [← ho] at hlt
    · rename_i u hu
      rw [hu] at ho hfollows
      rw [← ho] at hlt
      obtain ⟨hfollows, hknown⟩ := hfollows rfl
      have hrx : RxEffects C env (.loop a (PacketBuilder.bytes header body)) s' u
          (u.acceptPacket C env ⟨header, body⟩ (PacketBuilder.bytes header body) a).2 :=
        rx_acceptPacket hview hfollows (fun h => absurd h hunknown) hknown
      exact hlt.trans_le (RxEffects.opened_suffix hrx).length_le
  refine ⟨PacketBuilder.bytes header body, ?_⟩
  rw [step_poll_closed hclosed, pollDatagram_of_view C env hview a,
    peekNewPeer_closed hclosed]
  exact hdispatch

theorem noiseServerFinish_ok {p : PendingJoin} (h : Fits cfg p.confirm.length)
    (hsend : ∀ peer bytes, env.sendTo peer bytes = .ok bytes.length) (peer : SocketAddr)
    (s : Session cfg) :
    ∃ t, s.noiseServerFinish env peer p ⟨p.sessionId, p.expectedClientTag⟩ = (.ok (), t) ∧
      t.peers.book = s.peers.book := by
  have hok := (sendControl_fit env h hsend .handshakeSessionConfirm p.sessionId peer s).1
  have hfirst : (s.noiseServerFinish env peer p ⟨p.sessionId, p.expectedClientTag⟩).1 = .ok () := by
    unfold noiseServerFinish
    rw [if_neg (fun hne => hne rfl), if_neg (fun hne => hne rfl)]
    split
    · rename_i e t ht
      rw [ht] at hok
      cases hok
    · rfl
  rcases settles_noiseServerFinish env peer p ⟨p.sessionId, p.expectedClientTag⟩ s with
    ⟨e, he, -⟩ | ⟨-, t, hc, ht⟩
  · rw [he] at hfirst
    cases hfirst
  · refine ⟨_, Prod.ext hfirst ht, ?_⟩
    change t.peers.book = s.peers.book
    rw [hc.calm.peers]

/-- An admission whose confirmation fits is still finished after `close`. -/
theorem admitted_after_close (C : Crypto)
    (hsend : ∀ peer bytes, env.sendTo peer bytes = .ok bytes.length)
    (hclosed : s.status.closed = true) (hbook : s.peers.book.peers = []) {a : SocketAddr}
    {p : PendingJoin} (hp : s.pendingJoins.lookup a = some p) (hfits : Fits cfg p.confirm.length) :
    ∃ raw, (step C env (rest C s) (.recv a raw)).session.peers.book.peers ≠ [] := by
  let header := PacketHeader.new MessageType.handshakeKeyExchange.code 0 0 0
  let ke : KeyExchangeMsg := ⟨p.sessionId, p.expectedClientTag⟩
  have hview : PacketView.decode (PacketBuilder.bytes header ke.encode) =
      .ok ⟨header, ke.encode⟩ :=
    PacketBuilder.decode_bytes rfl (by rw [TagMsg.length_encode]; decide)
  let s' := (s.recordReceived (PacketBuilder.bytes header ke.encode).length).heard env
  have hrv : ¬ Rendezvous.isRendezvous (PacketBuilder.bytes header ke.encode) = true :=
    fun hrv => decode_of_isRendezvous hrv _ hview
  obtain ⟨t, ht, hsame⟩ := noiseServerFinish_ok hfits hsend a
    { s' with pendingJoins := s'.pendingJoins.erase a }
  have hfinish : s'.finishJoin env ⟨header, ke.encode⟩ a =
      (true, { t with peers := t.peers.insert a }) := by
    unfold finishJoin
    rw [if_neg (fun hne => hne rfl), show s'.pendingJoins.lookup a = some p from hp]
    simp only [TagMsg.decode_encode, ke, ht]
  refine ⟨PacketBuilder.bytes header ke.encode, ?_⟩
  rw [step_recv_closed hclosed]
  have hrecv : (s.recvDatagram C env (PacketBuilder.bytes header ke.encode) a).2 =
      { t with peers := t.peers.insert a } := by
    rw [recvDatagram_of_view C env hrv hview a, peekNewPeer_closed hclosed]
    dsimp only
    rw [hfinish]
  rw [hrecv]
  have hempty : t.peers.book.peers = [] := by
    rw [hsame]
    exact hbook
  have hinsert : (t.peers.book.insert a).peers = [a] := by
    unfold AddressBook.insert
    simp [hempty, maxPeers]
  change (t.peers.book.insert a).peers ≠ []
  rw [hinsert]
  exact List.cons_ne_nil _ _

/-- What the claim asks of the receive loops after `close`. -/
def StaysShut (C : Crypto) (s t : Session cfg) (steps : List (Env × Action)) : Prop :=
  (run C (rest C t) steps).session.history.opened = s.history.opened ∧
    (run C (rest C t) steps).session.history.pushed = s.history.pushed ∧
    (run C (rest C t) steps).session.peers.book.peers = []

end Machine
end GravitalTalk
