import GravitalTalk.Session.Rules
import GravitalTalk.Session.Stranger

/-!
# Two receive loops

`recv_audio` and `poll_once` read the same socket, and what a datagram does
should not depend on which of them reads it. Where `poll_once` lacks a branch
that `recv_audio` has (rendezvous messages, and admission in two steps), a
datagram is treated alike only if that branch has nothing to do.
-/
namespace GravitalTalk
namespace Machine

open Session Rendezvous Relation

variable {cfg : Config} (C : Crypto)

/-- The same task, and the same session up to the counters of its metrics. -/
def Alike (m m' : Machine C cfg) : Prop := m.task = m'.task ∧ CountsOnly m.session m'.session

/-- Whichever loop reads `raw` at the time `now`, it does the same. -/
def LoopsAgree (s : Session cfg) (now : ℕ) (sender : SocketAddr) (raw : Bytes) : Prop :=
  ∀ env : Env, env.now = now →
    Alike C (afterDatagram C env sender (s.recvDatagram C env raw sender))
      (afterDatagram C env sender (s.pollDatagram C env raw sender))

/-- `add_path_hints` adds none of these. -/
def KnowsHints (s : Session cfg) (addrs : List SocketAddr) : Prop :=
  (∀ a ∈ addrs, a ∈ s.path.pathHints) ∧ s.path.pathHints.length ≤ maxPathHints

/-- A rendezvous message there is nothing to do about. -/
def Ignored (s : Session cfg) (now : ℕ) (sender : SocketAddr) : Message → Prop
  | .register => True
  | .peers _ others => some sender ≠ s.rendezvousServer ∨ others = [] ∧ KnowsHints s []
  | .punch _ => False
  | .addrs addrs => sender ∉ s.peers.book.peers ∨ KnowsHints s addrs
  | .punchAck nonce => nonce ≠ s.settings.probeNonce ∨ s.pathIsStale now = false ∨
      ∀ old, s.peers.book.peers = [old] → old = sender

/-- A greeting that comes to nothing: it is refused (with the admissions full, without a trace),
or no answer to it fits into a datagram. -/
inductive Declined (s : Session cfg) (now : ℕ) (sender : SocketAddr) (msg1 : Bytes) : Prop
  | refused (hother : ∀ p, s.pendingJoins.lookup sender = some p → p.msg1 ≠ msg1)
      (hfails : ∀ env : Env, env.now = now → ∃ e, (s.noiseServerBegin C env msg1).1 = .error e)
      (hfull : maxPeers ≤ s.pendingJoins.keys.card → ∀ env : Env, env.now = now →
        (s.noiseServerBegin C env msg1).2 = s)
  | unsent (p : PendingJoin) (hp : s.pendingJoins.lookup sender = some p) (hmsg : p.msg1 = msg1)
      (hfit : ¬ Fits cfg p.msg2.length)
      (hfails : ∀ env : Env, env.now = now → ∃ p', s.noiseServerBegin C env msg1 = (.ok p', s) ∧
        ¬ Fits cfg p'.msg2.length)

/-- No admission is old enough to be forgotten. -/
def Recent (s : Session cfg) (now : ℕ) : Prop :=
  ∀ a p, s.pendingJoins.lookup a = some p → msSince now p.started < handshakeTimeoutMs

/-- Nothing in the datagram is for a branch that only `recv_audio` has. -/
def LeftAlone (s : Session cfg) (now : ℕ) (sender : SocketAddr) (raw : Bytes) : Prop :=
  if isRendezvous raw then
    ∀ msg, Message.decode raw = some (s.roomKey C, msg) → Ignored s now sender msg
  else ∀ view, PacketView.decode raw = .ok view →
    (∀ msg1, s.peekNewPeer view sender = some (.noise msg1) →
      Recent s now ∧ Declined C s now sender msg1) ∧
    (view.header.msgType = MessageType.handshakeKeyExchange.code →
      s.pendingJoins.lookup sender = none)

variable {C} {env : Env} {s t : Session cfg} {now : ℕ} {sender : SocketAddr} {raw : Bytes}

/-! ## Rendezvous messages -/

theorem addHints_eq_self {p : Path} {addrs : List SocketAddr} :
    p.addHints addrs = p ↔ (∀ a ∈ addrs, a ∈ p.pathHints) ∧ p.pathHints.length ≤ maxPathHints := by
  have hfold (as hs : List SocketAddr) : ∃ new : List SocketAddr,
      as.foldl (fun hs a => if a ∈ hs then hs else hs ++ [a]) hs = hs ++ new ∧
        (∀ a ∈ new, a ∉ hs) ∧ (new = [] ↔ ∀ a ∈ as, a ∈ hs) := by
    induction as generalizing hs with
    | nil => exact ⟨[], by simp⟩
    | cons a as ih =>
      rw [List.foldl_cons]
      split_ifs with ha
      · obtain ⟨new, heq, hnot, hnil⟩ := ih hs
        exact ⟨new, heq, hnot, by simp [hnil, ha]⟩
      · obtain ⟨new, heq, hnot, -⟩ := ih (hs ++ [a])
        refine ⟨a :: new, by rw [heq, List.append_assoc]; rfl, ?_, by simp [ha]⟩
        intro b hb
        rcases List.mem_cons.mp hb with rfl | hb
        · exact ha
        · intro hin
          exact hnot b hb (List.mem_append_left _ hin)
  obtain ⟨new, heq, hnot, hnil⟩ := hfold addrs p.pathHints
  have hhints : p.addHints addrs = p ↔ (p.pathHints ++ new).drop
      ((p.pathHints ++ new).length - maxPathHints) = p.pathHints := by
    unfold Path.addHints
    rw [heq]
    constructor
    · intro h
      exact congrArg Path.pathHints h
    · intro h
      simp only [h]
  rw [hhints, ← hnil]
  constructor
  · intro h
    have hnew : new = [] := by
      by_contra hne
      have hlast := List.getLast?_eq_some_getLast hne
      have hlen : (p.pathHints ++ new).length - maxPathHints < (p.pathHints ++ new).length := by
        have := List.length_pos_iff.mpr hne
        simp [maxPathHints]
        omega
      have hin : new.getLast hne ∈ p.pathHints := by
        rw [← h]
        apply List.mem_of_getLast?
        rw [List.getLast?_drop, if_neg (by omega), List.getLast?_append, hlast]
        rfl
      exact hnot _ (List.getLast_mem hne) hin
    refine ⟨hnew, ?_⟩
    rw [hnew, List.append_nil] at h
    have hlen := congrArg List.length h
    rw [List.length_drop] at hlen
    omega
  · rintro ⟨rfl, hlen⟩
    rw [List.append_nil, Nat.sub_eq_zero_of_le hlen, List.drop_zero]

theorem sent_sendRvs (C : Crypto) (env : Env) (msg : SocketAddr → Message)
    (peers : List SocketAddr) (s : Session cfg) :
    (peers.foldl (fun s peer => s.sendRv C env (msg peer) peer) s).traffic.sent.length =
      s.traffic.sent.length + peers.length := by
  induction peers generalizing s with
  | nil => rfl
  | cons peer peers ih =>
    rw [List.foldl_cons, ih, List.length_cons]
    simp [sendRv, transmit]
    omega

theorem addPathHints_countsOnly {addrs : List SocketAddr} :
    CountsOnly s (s.addPathHints addrs) ↔ KnowsHints s addrs := by
  unfold KnowsHints
  rw [← addHints_eq_self]
  constructor
  · rintro ⟨c, h⟩
    exact congrArg Session.path h
  · intro h
    apply CountsOnly.of_eq
    unfold addPathHints
    rw [h]

theorem probeAnswered_countsOnly : CountsOnly s (s.probeAnswered C env sender) ↔
    s.pathIsStale env.now = false ∨ ∀ old, s.peers.book.peers = [old] → old = sender := by
  unfold probeAnswered
  split
  · rename_i hnone
    refine iff_of_true (CountsOnly.of_eq rfl) (.inr fun old hold => ?_)
    rw [AddressBook.primary, hold] at hnone
    cases hnone
  · rename_i old hold
    split_ifs with hcond
    · obtain ⟨hne, hstale, hlen⟩ := hcond
      have hbook : s.peers.book.peers = [old] := by
        obtain ⟨a, ha⟩ := List.length_eq_one_iff.mp hlen
        rw [AddressBook.primary, ha] at hold
        rw [ha, Option.some.inj hold]
      refine iff_of_false ?_ ?_
      · rintro ⟨c, h⟩
        have hpeers := congrArg (fun u : Session cfg => u.peers.book.peers) h
        have hreplace :
            s.peers.book.replace old sender = some ⟨[sender], by simp, by simp [maxPeers]⟩ := by
          unfold AddressBook.replace
          rw [dif_pos (by simp [hbook])]
          congr 1
          apply AddressBook.ext
          simp [AddressBook.replaced, hbook, Ne.symm hne]
        rw [(sendsOnly_sendKeepalive C env _).peers] at hpeers
        simp only [switchPeer, hreplace, Peers.switch, hbook, List.cons.injEq, and_true] at hpeers
        exact hne hpeers.symm
      · rintro (hfresh | hsame)
        · rw [hstale] at hfresh
          cases hfresh
        · exact hne (hsame old hbook)
    · refine iff_of_true (CountsOnly.of_eq rfl) ?_
      by_contra hneg
      push Not at hneg
      obtain ⟨hstale, a, ha, hne⟩ := hneg
      apply hcond
      rw [AddressBook.primary, ha] at hold
      cases hold
      exact ⟨hne, by simpa using hstale, by rw [AddressBook.len, ha]; rfl⟩

/-- A rendezvous message changes the session unless there is nothing to do about it. -/
theorem onRendezvous_countsOnly : CountsOnly s (s.onRendezvous C env raw sender) ↔
    ∀ msg, Message.decode raw = some (s.roomKey C, msg) → Ignored s env.now sender msg := by
  unfold onRendezvous
  cases hdecode : Message.decode raw with
  | none => exact iff_of_true (CountsOnly.of_eq rfl) nofun
  | some decoded =>
    obtain ⟨key, msg⟩ := decoded
    dsimp only
    by_cases hkey : key = s.roomKey C
    · subst hkey
      rw [if_neg (by simp)]
      have hone : (∀ m, some (s.roomKey C, msg) = some (s.roomKey C, m) →
          Ignored s env.now sender m) ↔ Ignored s env.now sender msg := by
        constructor
        · intro h
          exact h msg rfl
        · rintro h m heq
          cases heq
          exact h
      rw [hone]
      cases msg with
      | register => exact iff_of_true (CountsOnly.of_eq rfl) trivial
      | peers you others =>
        dsimp only [Ignored]
        split_ifs with hserver
        · rw [← addPathHints_countsOnly]
          simp only [hserver, ne_eq, not_true_eq_false, false_or]
          constructor
          · rintro ⟨c, h⟩
            have hlen := congrArg (fun u : Session cfg => u.traffic.sent.length) h
            have hsent := sent_sendRvs C env
              (fun peer => .punch (env.punchNonce peer)) others s
            have hnil : others = [] := by
              apply List.eq_nil_of_length_eq_zero
              have hhints : ((others.foldl (fun s peer =>
                  s.sendRv C env (.punch (env.punchNonce peer)) peer) s).addPathHints
                  others).traffic.sent.length = s.traffic.sent.length := hlen
              have hsame : ((others.foldl (fun s peer =>
                  s.sendRv C env (.punch (env.punchNonce peer)) peer) s).addPathHints
                  others).traffic.sent.length = s.traffic.sent.length + others.length := hsent
              omega
            subst hnil
            exact ⟨rfl, c, h⟩
          · rintro ⟨rfl, h⟩
            exact h
        · exact iff_of_true (CountsOnly.of_eq rfl) (.inl fun h => hserver h)
      | punch nonce =>
        refine iff_of_false ?_ id
        rintro ⟨c, h⟩
        have hlen := congrArg (fun u : Session cfg => u.traffic.sent.length) h
        simp [sendRv, transmit] at hlen
      | addrs addrs =>
        dsimp only [Ignored]
        split_ifs with hbook
        · rw [AddressBook.contains_iff] at hbook
          rw [addPathHints_countsOnly]
          simp [hbook]
        · rw [AddressBook.contains_iff] at hbook
          exact iff_of_true (CountsOnly.of_eq rfl) (.inl hbook)
      | punchAck nonce =>
        dsimp only [Ignored]
        split_ifs with hnonce
        · rw [probeAnswered_countsOnly]
          simp [hnonce]
        · exact iff_of_true (CountsOnly.of_eq rfl) (.inl hnonce)
    · rw [if_pos hkey]
      refine iff_of_true (CountsOnly.of_eq rfl) fun msg h => ?_
      cases h
      exact absurd rfl hkey

/-! ## Greetings -/

/-- A transport that takes everything. -/
def withSends (env : Env) : Env := { env with sendTo := fun _ bytes => .ok bytes.length }

/-- Reading a greeting depends on settings and status, and changes the status. -/
theorem noiseServerBegin_congr (C : Crypto) (env : Env) (msg1 : Bytes)
    (hset : t.settings = s.settings) (hstat : t.status = s.status) :
    t.noiseServerBegin C env msg1 = ((s.noiseServerBegin C env msg1).1,
      { t with status := (s.noiseServerBegin C env msg1).2.status }) := by
  have hpsk : t.roomPsk C = s.roomPsk C := by rw [roomPsk, hset, roomPsk]
  have hsid : t.resolvedSessionId env = s.resolvedSessionId env := by
    rw [resolvedSessionId, hset, hstat, resolvedSessionId]
  have hkeep (r : Except TransportError PendingJoin) :
      (r, t) = (r, { t with status := s.status }) := by
    rw [← hstat]
  unfold noiseServerBegin
  rw [hpsk, hsid, hstat]
  cases C.noiseNew (s.roomPsk C) false env.noiseSeed with
  | none => exact hkeep _
  | some hs =>
    dsimp only
    cases C.noiseRead hs msg1 with
    | none => exact hkeep _
    | some read =>
      dsimp only
      cases NoiseHello1.decode read.1 with
      | error e => exact hkeep _
      | ok hello1 =>
        dsimp only
        split_ifs
        · exact hkeep _
        · cases chooseCodec cfg hello1.codecPreferred with
          | error e => rfl
          | ok codec =>
            dsimp only
            split
            · rfl
            · split
              · rfl
              · rfl

theorem noiseServerBegin_ok {msg1 : Bytes} {p : PendingJoin}
    (h : s.noiseServerBegin C env msg1 = (.ok p, t)) : p.msg1 = msg1 ∧ p.started = env.now := by
  unfold noiseServerBegin at h
  split at h
  · cases h
  · split at h
    · cases h
    · split at h
      · cases h
      · split at h
        · cases h
        · split at h
          · cases h
          · dsimp only at h
            split at h
            · cases h
            · split at h
              · cases h
              · cases h
                exact ⟨rfl, rfl⟩

theorem remove_insert {b : AddressBook} {a : SocketAddr} (h : a ∉ b.peers) :
    (b.insert a).remove a = b := by
  apply AddressBook.ext
  have hself : b.peers.filter (fun x => decide (x ≠ a)) = b.peers := by
    apply List.filter_eq_self.mpr
    intro x hx
    simp only [decide_eq_true_eq]
    rintro rfl
    exact h hx
  unfold AddressBook.insert
  split_ifs with hfull
  · exact hself
  · simp only [AddressBook.remove, AddressBook.retain, List.filter_append, hself]
    simp

theorem noiseServerBegin_insert (C : Crypto) (env : Env) (peer : SocketAddr) (msg1 : Bytes)
    (s : Session cfg) : noiseServerBegin C env msg1 { s with peers := s.peers.insert peer } =
      ((s.noiseServerBegin C env msg1).1, { s with
        peers := s.peers.insert peer
        status := (s.noiseServerBegin C env msg1).2.status }) :=
  noiseServerBegin_congr C env msg1 rfl rfl

theorem peers_remove_insert {p : Peers} {a : SocketAddr} (h : a ∉ p.book.peers) :
    (p.insert a).remove a = p := by
  unfold Peers.remove Peers.insert
  rw [remove_insert h]

/-- A refused greeting takes its sender out of the book again. -/
theorem promotePeer_refused {msg1 : Bytes} {e : TransportError}
    (hbook : sender ∉ s.peers.book.peers)
    (h : (s.noiseServerBegin C env msg1).1 = .error e) :
    promotePeer C env sender (.noise msg1) s =
      rest C { s with status := (s.noiseServerBegin C env msg1).2.status } := by
  simp only [promotePeer, beginServer, beginNoise, noiseServerBegin_insert, h]
  simp only [finished, peers_remove_insert hbook]

theorem promotePeer_unfit {msg1 : Bytes} {p : PendingJoin} (hbook : sender ∉ s.peers.book.peers)
    (h : (s.noiseServerBegin C env msg1).1 = .ok p) (hfit : ¬ Fits cfg p.msg2.length) :
    promotePeer C env sender (.noise msg1) s =
      rest C (bumpSequence { s with status := (s.noiseServerBegin C env msg1).2.status }) := by
  obtain ⟨e, he⟩ := sendControl_unfit env hfit .handshakeNoiseHello2 p.sessionId sender { s with
      peers := s.peers.insert sender
      status := (s.noiseServerBegin C env msg1).2.status }
  simp only [promotePeer, beginServer, beginNoise, noiseServerBegin_insert, h, he]
  simp only [finished, bumpSequence, peers_remove_insert hbook]

theorem calm_closed_begin {msg1 : Bytes} :
    (s.noiseServerBegin C env msg1).2.status.closed = s.status.closed :=
  (steady_noiseServerBegin C env msg1 s).calm.closed

/-- An accepted greeting leaves `poll_once` waiting for the answer. -/
theorem promotePeer_fit {msg1 : Bytes} {p : PendingJoin} (hclosed : s.status.closed = false)
    (h : (s.noiseServerBegin C env msg1).1 = .ok p) (hfit : Fits cfg p.msg2.length) :
    (promotePeer C (withSends env) sender (.noise msg1) s).task = .noiseKe .promote sender p := by
  have h' : (s.noiseServerBegin C (withSends env) msg1).1 = .ok p := h
  simp only [promotePeer, beginServer, beginNoise, noiseServerBegin_insert, h']
  have hok := (sendControl_fit (withSends env) hfit (fun _ _ => rfl) .handshakeNoiseHello2
    p.sessionId sender { s with
      peers := s.peers.insert sender
      status := (s.noiseServerBegin C (withSends env) msg1).2.status }).1
  have hsend := sendsOnly_sendControl (withSends env) .handshakeNoiseHello2 p.sessionId p.msg2
    sender { s with
      peers := s.peers.insert sender
      status := (s.noiseServerBegin C (withSends env) msg1).2.status }
  split
  · rename_i e t ht
    rw [ht] at hok
    cases hok
  · rename_i t ht
    rw [ht] at hsend
    have hopen : t.status.closed = false := by
      rw [hsend.status]
      exact calm_closed_begin.trans hclosed
    rw [unlessClosed, if_neg (by simp [hopen])]

/-! ## Admissions in `recv_audio` -/

/-- The admissions that are not yet forgotten. -/
def kept (env : Env) (s : Session cfg) : Table SocketAddr PendingJoin :=
  Table.retain (fun _ p => msSince env.now p.started < handshakeTimeoutMs) s.pendingJoins

theorem kept_of_recent (h : Recent s env.now) : kept env s = s.pendingJoins := by
  apply Finmap.ext_lookup
  intro a
  rw [kept, Table.lookup_retain]
  cases hp : s.pendingJoins.lookup a with
  | none => rfl
  | some p => simpa using h a p hp

theorem recent_of_kept (h : kept env s = s.pendingJoins) : Recent s env.now := by
  intro a p hp
  rw [← h, kept, Table.lookup_retain, Option.filter_eq_some_iff] at hp
  simpa using hp.2

theorem beginJoin_eq (msg1 : Bytes) : s.beginJoin C env sender msg1 =
    match ((kept env s).lookup sender).filter (fun p => p.msg1 == msg1) with
    | some p => (sendControl env .handshakeNoiseHello2 p.sessionId p.msg2 sender
        { s with pendingJoins := kept env s }).2
    | none =>
      if maxPeers ≤ (kept env s).keys.card then { s with pendingJoins := kept env s }
      else match noiseServerBegin C env msg1 { s with pendingJoins := kept env s } with
        | (.error _, s) => s
        | (.ok p, s) => (sendControl env .handshakeNoiseHello2 p.sessionId p.msg2 sender
            { s with pendingJoins := s.pendingJoins.insert sender p }).2 := rfl

theorem beginJoin_again {msg1 : Bytes} {p : PendingJoin}
    (hp : (kept env s).lookup sender = some p) (hmsg : p.msg1 = msg1) :
    s.beginJoin C env sender msg1 = (sendControl env .handshakeNoiseHello2 p.sessionId p.msg2
      sender { s with pendingJoins := kept env s }).2 := by
  have hfilter : ((kept env s).lookup sender).filter (fun p => p.msg1 == msg1) = some p := by
    rw [hp]
    simp [hmsg]
  rw [beginJoin_eq, hfilter]

theorem beginJoin_new {msg1 : Bytes}
    (hother : ∀ p, (kept env s).lookup sender = some p → p.msg1 ≠ msg1) :
    s.beginJoin C env sender msg1 =
      if maxPeers ≤ (kept env s).keys.card then { s with pendingJoins := kept env s }
      else match (s.noiseServerBegin C env msg1).1 with
        | .error _ => { s with
            pendingJoins := kept env s
            status := (s.noiseServerBegin C env msg1).2.status }
        | .ok p => (sendControl env .handshakeNoiseHello2 p.sessionId p.msg2 sender { s with
            pendingJoins := (kept env s).insert sender p
            status := (s.noiseServerBegin C env msg1).2.status }).2 := by
  have hfilter : ((kept env s).lookup sender).filter (fun p => p.msg1 == msg1) = none := by
    cases hp : (kept env s).lookup sender with
    | none => rfl
    | some p =>
      have hne := hother p hp
      simpa using hne
  have hcongr := noiseServerBegin_congr C env msg1
    (t := { s with pendingJoins := kept env s }) (s := s) rfl rfl
  rw [beginJoin_eq, hfilter, hcongr]
  dsimp only
  split_ifs
  · rfl
  · cases (s.noiseServerBegin C env msg1).1 with
    | error e => rfl
    | ok p => rfl

theorem sendControl_txSequence (env : Env) (msg : MessageType) (sid : UInt32) (payload : Bytes)
    (peer : SocketAddr) (s : Session cfg) :
    (s.sendControl env msg sid payload peer).2.traffic.txSequence =
      s.traffic.txSequence + 1 := by
  unfold sendControl transmit
  dsimp only
  split
  · rfl
  · cases env.sendTo peer _ <;> rfl

theorem ne_add_one (x : UInt32) : x ≠ x + 1 := by
  intro h
  have hnat := congrArg UInt32.toNat h
  rw [UInt32.toNat_add] at hnat
  have hlt := x.toNat_lt
  have hone : (1 : UInt32).toNat = 1 := rfl
  omega

section Greeting

variable {msg1 : Bytes}

theorem noiseServerBegin_status (C : Crypto) (env : Env) (s : Session cfg) (msg1 : Bytes) :
    (s.noiseServerBegin C env msg1).2 =
      { s with status := (s.noiseServerBegin C env msg1).2.status } :=
  congrArg Prod.snd (noiseServerBegin_congr C env msg1 (t := s) rfl rfl)

/-- With a transport that takes everything, `poll_once` waits after an answer that fits. -/
theorem unfit_of_alike (hclosed : s.status.closed = false)
    (h : Alike C (rest C (s.beginJoin C (withSends env) sender msg1))
      (promotePeer C (withSends env) sender (.noise msg1) s)) {p : PendingJoin}
    (hp : (s.noiseServerBegin C env msg1).1 = .ok p) : ¬ Fits cfg p.msg2.length := by
  intro hfit
  have htask := h.1
  rw [promotePeer_fit hclosed hp hfit] at htask
  cases htask

/-- A greeting that both loops have heard before: neither has an answer that fits. -/
theorem unsent_of_alike (hbook : sender ∉ s.peers.book.peers) (hclosed : s.status.closed = false)
    (h : Alike C (rest C (s.beginJoin C (withSends env) sender msg1))
      (promotePeer C (withSends env) sender (.noise msg1) s)) {p : PendingJoin}
    (hp : (kept env s).lookup sender = some p) (hmsg : p.msg1 = msg1) :
    kept env s = s.pendingJoins ∧ ¬ Fits cfg p.msg2.length ∧
      ∃ p', s.noiseServerBegin C env msg1 = (.ok p', s) ∧ ¬ Fits cfg p'.msg2.length := by
  have hsame : s.noiseServerBegin C (withSends env) msg1 = s.noiseServerBegin C env msg1 := rfl
  obtain ⟨c, halike⟩ := h.2
  have hkept : kept (withSends env) s = kept env s := rfl
  have hp' : (kept (withSends env) s).lookup sender = some p := hp
  rw [beginJoin_again hp' hmsg, hkept] at halike
  cases hr : (s.noiseServerBegin C env msg1).1 with
  | error e =>
    rw [promotePeer_refused hbook (hsame ▸ hr)] at halike
    have htx := congrArg (fun u : Session cfg => u.traffic.txSequence) halike
    exact absurd (htx.trans (sendControl_txSequence _ _ _ _ _ _)) (ne_add_one _)
  | ok p' =>
    have hfit' := unfit_of_alike hclosed h hr
    rw [promotePeer_unfit hbook (hsame ▸ hr) hfit', hsame] at halike
    have hfit : ¬ Fits cfg p.msg2.length := by
      intro hfit
      have hlen := congrArg (fun u : Session cfg => u.traffic.sent.length) halike
      have hsent := (sendControl_fit (withSends env) hfit (fun _ _ => rfl)
        .handshakeNoiseHello2 p.sessionId sender { s with pendingJoins := kept env s }).2
      have hmore := hlen.trans hsent
      simp [rest, bumpSequence] at hmore
    obtain ⟨e, he⟩ := sendControl_unfit (withSends env) hfit .handshakeNoiseHello2
      p.sessionId sender { s with pendingJoins := kept env s }
    rw [he] at halike
    have hstatus := congrArg Session.status halike
    have hstat : (s.noiseServerBegin C env msg1).2.status = s.status := hstatus
    have hpend := congrArg Session.pendingJoins halike
    refine ⟨hpend.symm, hfit, p', ?_, hfit'⟩
    exact Prod.ext hr (by rw [noiseServerBegin_status, hstat])

/-- A greeting that is new to both loops: it is refused, with the admissions full without a
trace. -/
theorem refused_of_alike (hbook : sender ∉ s.peers.book.peers) (hclosed : s.status.closed = false)
    (h : Alike C (rest C (s.beginJoin C (withSends env) sender msg1))
      (promotePeer C (withSends env) sender (.noise msg1) s))
    (hother : ∀ p, (kept env s).lookup sender = some p → p.msg1 ≠ msg1) :
    kept env s = s.pendingJoins ∧ (∃ e, (s.noiseServerBegin C env msg1).1 = .error e) ∧
      (maxPeers ≤ s.pendingJoins.keys.card → (s.noiseServerBegin C env msg1).2 = s) := by
  have hkept : kept (withSends env) s = kept env s := rfl
  have hsame : s.noiseServerBegin C (withSends env) msg1 = s.noiseServerBegin C env msg1 := rfl
  have hother' : ∀ p, (kept (withSends env) s).lookup sender = some p → p.msg1 ≠ msg1 := hother
  obtain ⟨c, halike⟩ := h.2
  rw [beginJoin_new hother', hkept, hsame] at halike
  cases hr : (s.noiseServerBegin C env msg1).1 with
  | error e =>
    rw [promotePeer_refused hbook (hsame ▸ hr), hsame, hr] at halike
    have hpend : kept env s = s.pendingJoins := by
      have hboth := congrArg Session.pendingJoins halike
      dsimp only at hboth
      split_ifs at hboth <;> exact hboth.symm
    refine ⟨hpend, ⟨e, rfl⟩, fun hcard => ?_⟩
    rw [← hpend] at hcard
    rw [if_pos hcard] at halike
    have hstatus := congrArg Session.status halike
    have hstat : (s.noiseServerBegin C env msg1).2.status = s.status := hstatus
    rw [noiseServerBegin_status, hstat]
  | ok p' =>
    have hfit := unfit_of_alike hclosed h hr
    rw [promotePeer_unfit hbook (hsame ▸ hr) hfit, hsame, hr] at halike
    split_ifs at halike with hcard
    · have htx := congrArg (fun u : Session cfg => u.traffic.txSequence) halike
      exact absurd htx.symm (ne_add_one _)
    · -- the new admission would be among those from before, and they are of other greetings
      have hsend := (sendsOnly_sendControl (withSends env) .handshakeNoiseHello2 p'.sessionId
        p'.msg2 sender { s with
          pendingJoins := (kept env s).insert sender p'
          status := (s.noiseServerBegin C env msg1).2.status }).pendingJoins
      have hpend := congrArg Session.pendingJoins halike
      have hinsert : s.pendingJoins = (kept env s).insert sender p' := hpend.trans hsend
      obtain ⟨hmsg, hstarted⟩ := noiseServerBegin_ok (Prod.ext hr rfl)
      refine absurd hmsg (hother p' ?_)
      rw [kept, Table.lookup_retain, hinsert, Finmap.lookup_insert]
      simp [hstarted, msSince, handshakeTimeoutMs]

/-- A greeting that both loops treat alike, whatever their environment, is declined. -/
theorem declined_of_alike {now : ℕ} (hbook : sender ∉ s.peers.book.peers)
    (hclosed : s.status.closed = false)
    (hall : ∀ env : Env, env.now = now → Alike C (rest C (s.beginJoin C env sender msg1))
      (promotePeer C env sender (.noise msg1) s)) :
    Recent s now ∧ Declined C s now sender msg1 := by
  have halike (env : Env) (hnow : env.now = now) := hall (withSends env) hnow
  have hrecent : Recent s now := by
    have hfirst := halike (Env.basic now sender) rfl
    by_cases hcached : ∃ p, (kept (Env.basic now sender) s).lookup sender = some p ∧ p.msg1 = msg1
    · obtain ⟨p, hp, hmsg⟩ := hcached
      exact recent_of_kept (unsent_of_alike hbook hclosed hfirst hp hmsg).1
    · exact recent_of_kept (refused_of_alike hbook hclosed hfirst
        fun p hp hmsg => hcached ⟨p, hp, hmsg⟩).1
  have hkept (env : Env) (hnow : env.now = now) : kept env s = s.pendingJoins :=
    kept_of_recent (hnow ▸ hrecent)
  refine ⟨hrecent, ?_⟩
  by_cases hcached : ∃ p, s.pendingJoins.lookup sender = some p ∧ p.msg1 = msg1
  · obtain ⟨p, hp, hmsg⟩ := hcached
    have hunsent (env : Env) (hnow : env.now = now) :=
      unsent_of_alike hbook hclosed (halike env hnow) (hkept env hnow ▸ hp) hmsg
    exact .unsent p hp hmsg (hunsent (Env.basic now sender) rfl).2.1
      fun env hnow => (hunsent env hnow).2.2
  · have hother : ∀ p, s.pendingJoins.lookup sender = some p → p.msg1 ≠ msg1 :=
      fun p hp hmsg => hcached ⟨p, hp, hmsg⟩
    have hrefused (env : Env) (hnow : env.now = now) :=
      refused_of_alike hbook hclosed (halike env hnow) (hkept env hnow ▸ hother)
    exact .refused hother (fun env hnow => (hrefused env hnow).2.1)
      fun hcard env hnow => (hrefused env hnow).2.2 hcard

theorem alike_of_declined (hbook : sender ∉ s.peers.book.peers) (hrecent : Recent s env.now)
    (hdeclined : Declined C s env.now sender msg1) :
    Alike C (rest C (s.beginJoin C env sender msg1))
      (promotePeer C env sender (.noise msg1) s) := by
  have hkept := kept_of_recent hrecent
  cases hdeclined with
  | refused hother hfails hfull =>
    obtain ⟨e, he⟩ := hfails env rfl
    have hjoin := beginJoin_new (C := C) (s := s) (by rwa [hkept])
    rw [promotePeer_refused hbook he, hjoin, hkept, he]
    refine ⟨rfl, CountsOnly.of_eq ?_⟩
    split_ifs with hcard
    · rw [hfull hcard env rfl]
    · rfl
  | unsent p hp hmsg hfit hfails =>
    obtain ⟨p', hp', hfit'⟩ := hfails env rfl
    have hjoin := beginJoin_again (C := C) (s := s) (by rwa [hkept]) hmsg
    obtain ⟨e, he⟩ := sendControl_unfit env hfit .handshakeNoiseHello2 p.sessionId sender
      { s with pendingJoins := kept env s }
    rw [promotePeer_unfit hbook (congrArg Prod.fst hp') hfit', hjoin, he, hkept, hp']
    exact ⟨rfl, CountsOnly.of_eq rfl⟩

/-- A greeting in both loops: `recv_audio` admits in two steps, `poll_once` waits. -/
theorem greeting_alike (C : Crypto) (s : Session cfg) (now : ℕ) (msg1 : Bytes)
    (hbook : sender ∉ s.peers.book.peers) (hclosed : s.status.closed = false) :
    (∀ env : Env, env.now = now → Alike C (rest C (s.beginJoin C env sender msg1))
      (promotePeer C env sender (.noise msg1) s)) ↔
      Recent s now ∧ Declined C s now sender msg1 := by
  constructor
  · exact declined_of_alike hbook hclosed
  · rintro ⟨hrecent, hdeclined⟩ env rfl
    exact alike_of_declined hbook hrecent hdeclined

end Greeting

/-- Whether a greeting is declined does not depend on traffic and liveness. -/
theorem Declined.congr {msg1 : Bytes} (h : Declined C s now sender msg1)
    (hset : t.settings = s.settings) (hstat : t.status = s.status)
    (hpend : t.pendingJoins = s.pendingJoins) : Declined C t now sender msg1 := by
  have hbegin (env : Env) : t.noiseServerBegin C env msg1 =
      ((s.noiseServerBegin C env msg1).1,
        { t with status := (s.noiseServerBegin C env msg1).2.status }) :=
    noiseServerBegin_congr C env msg1 hset hstat
  have hkeep (env : Env) (hs : (s.noiseServerBegin C env msg1).2 = s) :
      { t with status := (s.noiseServerBegin C env msg1).2.status } = t := by
    rw [hs, ← hstat]
  cases h with
  | refused hother hfails hfull =>
    refine .refused (by rwa [hpend]) (fun env hnow => ?_) fun hcard env hnow => ?_
    · rw [hbegin]
      exact hfails env hnow
    · rw [hbegin]
      exact hkeep env (hfull (by rwa [← hpend]) env hnow)
  | unsent p hp hmsg hfit hfails =>
    refine .unsent p (by rwa [hpend]) hmsg hfit fun env hnow => ?_
    obtain ⟨p', hp', hfit'⟩ := hfails env hnow
    refine ⟨p', ?_, hfit'⟩
    rw [hbegin, hkeep env (by rw [hp']), hp']

/-- What makes a packet the greeting of somebody new. -/
theorem peekNewPeer_some {view : PacketView} {first : FirstHandshake}
    (h : s.peekNewPeer view sender = some first) :
    s.status.closed = false ∧ sender ∉ s.peers.book.peers ∧
      view.header.msgType ≠ MessageType.handshakeKeyExchange.code := by
  unfold peekNewPeer at h
  dsimp only at h
  split_ifs at h with hclosed htype hbook hsid hnoise
  all_goals
    have hopen : s.status.closed = false := by
      rw [Bool.or_eq_true, not_or] at hclosed
      simpa using hclosed.1
    rw [AddressBook.contains_iff] at hbook
    refine ⟨hopen, hbook, ?_⟩
    intro hke
    rw [hke] at htype
    exact htype (by decide)

theorem finishJoin_none {view : PacketView}
    (h : view.header.msgType = MessageType.handshakeKeyExchange.code →
      s.pendingJoins.lookup sender = none) : s.finishJoin env view sender = (false, s) := by
  unfold finishJoin
  split_ifs with htype
  · rfl
  · rw [not_not] at htype
    rw [h htype]

/-- The answer to an admission ends it, one way or the other. -/
theorem finishJoin_pending {view : PacketView} {p : PendingJoin}
    (htype : view.header.msgType = MessageType.handshakeKeyExchange.code)
    (hp : s.pendingJoins.lookup sender = some p) :
    (s.finishJoin env view sender).1 = true ∧
      (s.finishJoin env view sender).2.pendingJoins.lookup sender = none := by
  have herase : (s.pendingJoins.erase sender).lookup sender = none := Finmap.lookup_erase _ _
  unfold finishJoin
  rw [if_neg (by simp [htype]), hp]
  dsimp only
  cases TagMsg.decode view.payload with
  | error e => exact ⟨rfl, herase⟩
  | ok ke =>
    have hsettles := settles_noiseServerFinish env sender p ke
      { s with pendingJoins := s.pendingJoins.erase sender }
    dsimp only
    split
    · rename_i e t ht
      rw [ht] at hsettles
      rcases hsettles with ⟨_, -, hcalm⟩ | ⟨hok, -⟩
      · exact ⟨rfl, by rw [hcalm.calm.pendingJoins]; exact herase⟩
      · cases hok
    · rename_i t ht
      rw [ht] at hsettles
      rcases hsettles with ⟨_, herr, -⟩ | ⟨-, u, hcalm, hu⟩
      · cases herr
      · refine ⟨rfl, ?_⟩
        change t.pendingJoins.lookup sender = none
        rw [show t = _ from hu]
        change u.pendingJoins.lookup sender = none
        rw [hcalm.calm.pendingJoins]
        exact herase

theorem Alike.refl (m : Machine C cfg) : Alike C m m := ⟨rfl, CountsOnly.of_eq rfl⟩

/-- `recv_audio` handles a rendezvous message, `poll_once` counts an error. -/
theorem loopsAgree_rendezvous (C : Crypto) (s : Session cfg) (now : ℕ) (sender : SocketAddr)
    (hrv : isRendezvous raw = true) : LoopsAgree C s now sender raw ↔
      ∀ msg, Message.decode raw = some (s.roomKey C, msg) → Ignored s now sender msg := by
  have hpair (env : Env) : Alike C
      (afterDatagram C env sender (s.recvDatagram C env raw sender))
      (afterDatagram C env sender (s.pollDatagram C env raw sender)) ↔
      CountsOnly (s.recordReceived raw.length)
        ((s.recordReceived raw.length).onRendezvous C env raw sender) := by
    have hrecv : s.recvDatagram C env raw sender =
        (.done (.ok ()), (s.recordReceived raw.length).onRendezvous C env raw sender) := by
      unfold recvDatagram
      dsimp only
      rw [if_pos hrv]
    have hpoll : s.pollDatagram C env raw sender =
        (.done (.ok ()), (s.recordReceived raw.length).recordIntegrityError) := by
      unfold pollDatagram
      dsimp only
      cases hdecode : PacketView.decode raw with
      | error e => rfl
      | ok view => exact absurd hdecode (decode_of_isRendezvous hrv view)
    have hcount : CountsOnly (s.recordReceived raw.length)
        (s.recordReceived raw.length).recordIntegrityError := ⟨_, rfl⟩
    rw [hrecv, hpoll]
    constructor
    · rintro ⟨-, h⟩
      exact hcount.trans h.symm
    · intro h
      exact ⟨rfl, h.symm.trans hcount⟩
  constructor
  · intro h
    exact onRendezvous_countsOnly.mp ((hpair (Env.basic now sender)).mp (h _ rfl))
  · rintro h env rfl
    exact (hpair env).mpr (onRendezvous_countsOnly.mpr h)

section Packet

variable {view : PacketView}

/-- Only `recv_audio` finishes an admission. -/
theorem loopsAgree_known (C : Crypto) (s : Session cfg) (now : ℕ) (sender : SocketAddr)
    (hrv : ¬isRendezvous raw = true) (hdecode : PacketView.decode raw = .ok view)
    (hpeek : s.peekNewPeer view sender = none) : LoopsAgree C s now sender raw ↔
      (view.header.msgType = MessageType.handshakeKeyExchange.code →
        s.pendingJoins.lookup sender = none) := by
  let heardAt (env : Env) : Session cfg := (s.recordReceived raw.length).heard env
  have hrecv (env : Env) := recvDatagram_of_view C env (s := s) hrv hdecode sender
  have hpoll (env : Env) := pollDatagram_of_view C env (s := s) hdecode sender
  unfold LoopsAgree
  simp only [hrecv, hpoll, hpeek]
  constructor
  · intro h htype
    by_contra hsome
    obtain ⟨p, hp⟩ := Option.ne_none_iff_exists'.mp hsome
    let env := Env.basic now sender
    have hfinish : ∃ t, (heardAt env).finishJoin env view sender = (true, t) ∧
        t.pendingJoins.lookup sender = none :=
      have hgone := finishJoin_pending (s := heardAt env) htype hp
      ⟨_, Prod.ext hgone.1 rfl, hgone.2⟩
    obtain ⟨t, ht, hgone⟩ := hfinish
    obtain ⟨-, c, halike⟩ := h env rfl
    rw [ht] at halike
    have hpend := congrArg Session.pendingJoins halike
    have hkeeps : ((heardAt env).dispatchPacket C env view raw sender).2.pendingJoins =
        s.pendingJoins :=
      (rx_dispatchPacket (C := C) (Quiet.refl (heardAt env)) hdecode).keeps.pendingJoins
    have hsame : s.pendingJoins = t.pendingJoins := hkeeps.symm.trans hpend
    rw [← hsame, hp] at hgone
    cases hgone
  · intro h env _
    rw [finishJoin_none (s := heardAt env) h]
    exact Alike.refl _

theorem loopsAgree_greeting (C : Crypto) (s : Session cfg) (now : ℕ) (sender : SocketAddr)
    (hrv : ¬isRendezvous raw = true) (hdecode : PacketView.decode raw = .ok view) {msg1 : Bytes}
    (hpeek : s.peekNewPeer view sender = some (.noise msg1)) :
    LoopsAgree C s now sender raw ↔ Recent s now ∧ Declined C s now sender msg1 := by
  obtain ⟨hclosed, hbook, -⟩ := peekNewPeer_some hpeek
  let heardAt (env : Env) : Session cfg := (s.recordReceived raw.length).heard env
  let u := heardAt (Env.basic now sender)
  have hu (env : Env) (hnow : env.now = now) : heardAt env = u := by
    simp only [heardAt, u, heard, hnow]
    rfl
  have hrecv (env : Env) := recvDatagram_of_view C env (s := s) hrv hdecode sender
  have hpoll (env : Env) := pollDatagram_of_view C env (s := s) hdecode sender
  have hgreeting := greeting_alike C u now msg1 hbook hclosed
  unfold LoopsAgree
  simp only [hrecv, hpoll, hpeek]
  constructor
  · intro h
    obtain ⟨hrecent, hdeclined⟩ := hgreeting.mp fun env hnow => by
      rw [← hu env hnow]
      exact h env hnow
    exact ⟨hrecent, hdeclined.congr rfl rfl rfl⟩
  · rintro ⟨hrecent, hdeclined⟩ env hnow
    have halike := hgreeting.mpr ⟨hrecent, hdeclined.congr rfl rfl rfl⟩ env hnow
    rwa [← hu env hnow] at halike

end Packet

/-- The loops agree exactly on the datagrams in which only `recv_audio` would find nothing
to do. -/
theorem loopsAgree_iff (C : Crypto) (s : Session cfg) (now : ℕ) (sender : SocketAddr)
    (raw : Bytes) : LoopsAgree C s now sender raw ↔ LeftAlone C s now sender raw := by
  unfold LeftAlone
  split_ifs with hrv
  · exact loopsAgree_rendezvous C s now sender hrv
  · cases hdecode : PacketView.decode raw with
    | error e =>
      refine iff_of_true (fun env _ => ?_) (by simp)
      unfold recvDatagram pollDatagram
      simp only [hrv, hdecode, Bool.false_eq_true, if_false]
      exact Alike.refl _
    | ok view =>
      have honly (P : PacketView → Prop) :
          (∀ v, (.ok view : Except Error PacketView) = .ok v → P v) ↔ P view := by
        constructor
        · intro h
          exact h view rfl
        · rintro h v heq
          cases heq
          exact h
      rw [honly]
      cases hpeek : s.peekNewPeer view sender with
      | none =>
        rw [loopsAgree_known C s now sender hrv hdecode hpeek]
        simp
      | some first =>
        obtain ⟨-, -, htype⟩ := peekNewPeer_some hpeek
        cases first with
        | legacy hello =>
          refine iff_of_true (fun env _ => ?_) ⟨?_, fun h => absurd h htype⟩
          · rw [recvDatagram_of_view C env hrv hdecode, pollDatagram_of_view C env hdecode, hpeek]
            exact Alike.refl _
          · rintro msg1 ⟨⟩
        | noise msg1 =>
          rw [loopsAgree_greeting C s now sender hrv hdecode hpeek]
          constructor
          · intro h
            refine ⟨?_, fun hke => absurd hke htype⟩
            rintro m ⟨⟩
            exact h
          · rintro ⟨h, -⟩
            exact h msg1 rfl

namespace Pairing

/-- A room with one guest, and the greeting of another one. -/
def newcomer : SocketAddr := .v4 (Vector.replicate 4 7) 7

noncomputable def roomSteps : List (Env × Action) := (at' 0, .setMultiPeer true) :: steps

end Pairing

open Pairing in
/-- `recv_audio` answers the newcomer and keeps an admission; `poll_once` puts it into the book
and waits. -/
theorem loops_differ_on_greeting :
    ¬ LoopsAgree Crypto.toy (run Crypto.toy
      (rest Crypto.toy (initial Config.default (Vector.replicate 8 0))) roomSteps).session
      2000000 newcomer (noiseHelloDatagram (Vector.replicate 32 0)) := by
  intro h
  have hcard := congrArg (fun pending => pending.keys.card) (h (at' 2) rfl).2.pendingJoins
  exact absurd hcard (by decide +kernel)

end Machine
end GravitalTalk
