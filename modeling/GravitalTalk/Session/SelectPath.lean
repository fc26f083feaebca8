import GravitalTalk.Lib.Run
import GravitalTalk.Session.Machine

/-!
# Choosing a path

`select_path`: a guest probes all addresses that its host may have, and takes the
first one that answers. A public address that answers waits a moment for a local
one. While it probes, other tasks may do anything to the session.

The times of a call are read at the head of its loop and where a datagram is
handled, as one instant each.
-/
namespace GravitalTalk
namespace Session

open Rendezvous (Message RoomKey)

def pathSelectTimeoutMs : ℕ := 6000

/-- How long a public path that answers waits for a local one. -/
def localPathGraceMs : ℕ := 150

/-- What `select_path` remembers from its call on. -/
structure Probing where
  server : Option SocketAddr
  key : RoomKey
  nonce : Vector UInt8 8
  candidates : List SocketAddr
  /-- Public addresses next to which the ports are swept. -/
  sweepTargets : List SocketAddr
  cycle : UInt32
  deadline : ℕ
  nextSend : ℕ
  /-- A public path that answered, and until when a local one may still come. -/
  fallback : Option (SocketAddr × ℕ)
  deriving DecidableEq

/-- A call of `select_path` in progress, or what it returned. -/
inductive Selection
  | probing (p : Probing)
  | done (result : Except TransportError SocketAddr)

/-- What reading the socket gave, or what other tasks did to the session meanwhile. -/
inductive PathEvent (cfg : Config)
  | datagram (sender : SocketAddr) (raw : Bytes)
  | timeout
  | ioError (e : TransportError)
  | meanwhile (s : Session cfg)

variable {cfg : Config} (C : Crypto) (env : Env)

namespace Probing

/-- The call, before its loop; `wait` is in milliseconds. -/
def begin (candidates : List SocketAddr) (wait : ℕ) (nonce : Vector UInt8 8) (s : Session cfg) :
    Probing where
  server := s.rendezvousServer
  key := s.roomKey C
  nonce := nonce
  candidates := candidates
  sweepTargets := candidates.filter (!·.isLocal)
  cycle := 0
  deadline := env.now + wait * 1000
  nextSend := env.now
  fallback := none

/-- The result that is due at `now`, if one is. -/
def due (now : ℕ) (p : Probing) : Option (Except TransportError SocketAddr) :=
  match p.fallback with
  | some (addr, limit) => if limit ≤ now ∨ p.deadline ≤ now then some (.ok addr) else none
  | none => if p.deadline ≤ now then some (.error .timeout) else none

/-- What goes out every interval: the registration, a probe to every candidate, and now and
then the ports next to the public ones. -/
def sendRound (p : Probing) (s : Session cfg) : Session cfg :=
  let s := match p.server with
    | none => s
    | some server => s.sendRv C env .register server
  let s := s.sendRvAll C env (.punch p.nonce) p.candidates
  if p.cycle.toNat % punchSpreadEvery = 0 then
    p.sweepTargets.foldl (fun s target => s.punchNeighbours C env target p.nonce) s
  else s

/-- The head of the loop, up to the wait. -/
def head (p : Probing) (s : Session cfg) : Selection × Session cfg :=
  if s.status.closed then (.done (.error (.peerClosed "session closed")), s)
  else match p.due env.now with
    | some result => (.done result, s)
    | none =>
      if p.nextSend ≤ env.now then
        (.probing { p with cycle := p.cycle + 1, nextSend := env.now + punchIntervalMs * 1000 },
          p.sendRound C env s)
      else (.probing p, s)

/-- One address that the rendezvous server told of: new ones are probed at once. -/
def learn (x : Probing × Session cfg) (peer : SocketAddr) : Probing × Session cfg :=
  if peer ∈ x.1.candidates then x
  else
    ({ x.1 with
        candidates := x.1.candidates ++ [peer]
        sweepTargets :=
          if peer.isLocal then x.1.sweepTargets else x.1.sweepTargets ++ [peer] },
      x.2.sendRv C env (.punch x.1.nonce) peer)

/-- A message of the room. -/
def hear (sender : SocketAddr) (msg : Message) (p : Probing) (s : Session cfg) :
    Selection × Session cfg :=
  match msg with
  | .peers _ others =>
    if some sender = p.server then
      let x := others.foldl (learn C env) (p, s)
      (.probing x.1, x.2)
    else (.probing p, s)
  | .punchAck echoed =>
    if echoed = p.nonce then
      if sender.isLocal then (.done (.ok sender), s)
      else if p.fallback.isNone then
        (.probing { p with fallback := some (sender, env.now + localPathGraceMs * 1000) }, s)
      else (.probing p, s)
    else (.probing p, s)
  | .punch theirs =>
    let s := s.sendRv C env (.punchAck theirs) sender
    if sender ∈ p.candidates then (.probing p, s)
    else (.probing { p with candidates := p.candidates ++ [sender] },
      s.sendRv C env (.punch p.nonce) sender)
  | .register | .addrs _ => (.probing p, s)

/-- What a datagram changes; one without the key of the room is ignored. -/
def receive (sender : SocketAddr) (raw : Bytes) (p : Probing) (s : Session cfg) :
    Selection × Session cfg :=
  match Message.decode raw with
  | none => (.probing p, s)
  | some (key, msg) => if key ≠ p.key then (.probing p, s) else p.hear C env sender msg s

end Probing

/-- Back to the head of the loop, unless the call has returned. -/
def again (x : Selection × Session cfg) : Selection × Session cfg :=
  match x.1 with
  | .probing p => p.head C env x.2
  | .done _ => x

/-- The next thing that happens to a call. -/
def selectStep (x : Selection × Session cfg) (a : Env × PathEvent cfg) :
    Selection × Session cfg :=
  match x.1, a.2 with
  | .probing _, .meanwhile s => (x.1, s)
  | .probing p, .datagram sender raw => again C a.1 (p.receive C a.1 sender raw x.2)
  | .probing p, .timeout => p.head C a.1 x.2
  | .probing _, .ioError e => (.done (.error e), x.2)
  | .done _, _ => x

/-- `select_path` over what happens after its call. -/
def selectPath (candidates : List SocketAddr) (wait : ℕ) (nonce : Vector UInt8 8)
    (s : Session cfg) (events : List (Env × PathEvent cfg)) : Selection × Session cfg :=
  events.foldl (selectStep C) ((Probing.begin C env candidates wait nonce s).head C env s)

/-! ## Who answered -/

/-- The sender of an event that acknowledges the probes with this nonce, and when. -/
def answerOf (key : RoomKey) (nonce : Vector UInt8 8) (a : Env × PathEvent cfg) :
    Option (SocketAddr × ℕ) :=
  match a.2 with
  | .datagram sender raw =>
    if Message.decode raw = some (key, .punchAck nonce) then some (sender, a.1.now) else none
  | _ => none

def answers (key : RoomKey) (nonce : Vector UInt8 8) (events : List (Env × PathEvent cfg)) :
    List (SocketAddr × ℕ) := events.filterMap (answerOf key nonce)

@[simp] theorem answers_nil (key : RoomKey) (nonce : Vector UInt8 8) :
    answers key nonce ([] : List (Env × PathEvent cfg)) = [] := rfl

theorem answers_append (key : RoomKey) (nonce : Vector UInt8 8)
    (events : List (Env × PathEvent cfg)) (a : Env × PathEvent cfg) :
    answers key nonce (events ++ [a]) = answers key nonce events ++
      (answerOf key nonce a).toList := by
  simp only [answers, List.filterMap_append, List.filterMap_cons, List.filterMap_nil]
  cases answerOf key nonce a <;> rfl

/-- Why a call that heard these answers returns `result` at `now`. -/
inductive Explains (heard : List (SocketAddr × ℕ)) (deadline now : ℕ) :
    Except TransportError SocketAddr → Prop
  /-- The first local address that answers is taken at once. -/
  | nearby {pre addr t} : heard = pre ++ [(addr, t)] → addr.isLocal = true →
      (∀ x ∈ pre, x.1.isLocal = false) → Explains heard deadline now (.ok addr)
  /-- Else it is the address that answered first, some time later. -/
  | faraway {addr t rest} : heard = (addr, t) :: rest → (∀ x ∈ heard, x.1.isLocal = false) →
      (t + localPathGraceMs * 1000 ≤ now ∨ deadline ≤ now) → Explains heard deadline now (.ok addr)
  | silence : heard = [] → deadline ≤ now → Explains heard deadline now (.error .timeout)

/-- A call still probes: only public addresses have answered, and the first one is remembered. -/
structure Awaits (p₀ : Probing) (heard : List (SocketAddr × ℕ)) (p : Probing) : Prop where
  key : p.key = p₀.key
  nonce : p.nonce = p₀.nonce
  deadline : p.deadline = p₀.deadline
  faraway : ∀ x ∈ heard, x.1.isLocal = false
  fallback : p.fallback = heard.head?.map fun x => (x.1, x.2 + localPathGraceMs * 1000)

/-- The call has not returned and awaits an answer, or it has returned for one of the reasons
that the source has. -/
inductive Reasoned (p₀ : Probing) (heard : List (SocketAddr × ℕ)) (now : ℕ) :
    Selection × Session cfg → Prop
  | probing {p s} : Awaits p₀ heard p → Reasoned p₀ heard now (.probing p, s)
  | answered {r s} : Explains heard p₀.deadline now r → Reasoned p₀ heard now (.done r, s)
  | closed {s : Session cfg} : s.status.closed = true →
      Reasoned p₀ heard now (.done (.error (.peerClosed "session closed")), s)

section Steps

variable {C env} {p₀ p : Probing} {heard : List (SocketAddr × ℕ)} {s : Session cfg}

theorem awaits_begin (candidates : List SocketAddr) (wait : ℕ) (nonce : Vector UInt8 8)
    (s : Session cfg) : Awaits (Probing.begin C env candidates wait nonce s) []
      (Probing.begin C env candidates wait nonce s) :=
  ⟨rfl, rfl, rfl, nofun, rfl⟩

/-- What is due has a reason. -/
theorem Awaits.explains_due (h : Awaits p₀ heard p) {now : ℕ}
    {r : Except TransportError SocketAddr} (hr : p.due now = some r) :
    Explains heard p₀.deadline now r := by
  have hfallback := h.fallback
  unfold Probing.due at hr
  cases heard with
  | nil =>
    rw [hfallback] at hr
    dsimp only [List.head?_nil, Option.map_none] at hr
    split_ifs at hr with hlate
    cases hr
    exact .silence rfl (h.deadline ▸ hlate)
  | cons x rest =>
    rw [hfallback] at hr
    dsimp only [List.head?_cons, Option.map_some] at hr
    split_ifs at hr with hlate
    cases hr
    exact .faraway rfl h.faraway (h.deadline ▸ hlate)

theorem Awaits.head (h : Awaits p₀ heard p) (s : Session cfg) :
    Reasoned p₀ heard env.now (p.head C env s) := by
  unfold Probing.head
  split_ifs with hclosed hsend
  · exact .closed hclosed
  · cases hdue : p.due env.now with
    | some r => exact .answered (h.explains_due hdue)
    | none => exact .probing ⟨h.key, h.nonce, h.deadline, h.faraway, h.fallback⟩
  · cases hdue : p.due env.now with
    | some r => exact .answered (h.explains_due hdue)
    | none => exact .probing h

theorem Awaits.learn {x : Probing × Session cfg} (h : Awaits p₀ heard x.1) (peer : SocketAddr) :
    Awaits p₀ heard (Probing.learn C env x peer).1 := by
  unfold Probing.learn
  split_ifs with hknown
  · exact h
  · exact ⟨h.key, h.nonce, h.deadline, h.faraway, h.fallback⟩
  · exact ⟨h.key, h.nonce, h.deadline, h.faraway, h.fallback⟩

/-- What the server tells leaves the answers alone. -/
theorem Awaits.learnAll {x : Probing × Session cfg} (h : Awaits p₀ heard x.1)
    (others : List SocketAddr) : Awaits p₀ heard (others.foldl (Probing.learn C env) x).1 := by
  induction others generalizing x with
  | nil => exact h
  | cons peer others ih =>
    apply ih
    exact h.learn peer

/-- An acknowledgement of the probes. -/
theorem Awaits.hear_ack (h : Awaits p₀ heard p) (sender : SocketAddr) (s : Session cfg) :
    (sender.isLocal = true ∧
        p.hear C env sender (.punchAck p.nonce) s = (.done (.ok sender), s)) ∨
      ∃ q, p.hear C env sender (.punchAck p.nonce) s = (.probing q, s) ∧
        Awaits p₀ (heard ++ [(sender, env.now)]) q := by
  dsimp only [Probing.hear]
  rw [if_pos rfl]
  by_cases hlocal : sender.isLocal = true
  · rw [if_pos hlocal]
    exact .inl ⟨hlocal, rfl⟩
  · rw [if_neg hlocal]
    have hfar : ∀ x ∈ heard ++ [(sender, env.now)], x.1.isLocal = false := by
      intro x hx
      rcases List.mem_append.mp hx with hx | hx
      · exact h.faraway x hx
      · rw [List.mem_singleton.mp hx]
        exact Bool.eq_false_of_not_eq_true hlocal
    have hfallback := h.fallback
    right
    cases heard with
    | nil =>
      have hnone : p.fallback.isNone = true := by
        rw [hfallback]
        rfl
      rw [if_pos hnone]
      exact ⟨_, rfl, h.key, h.nonce, h.deadline, hfar, rfl⟩
    | cons x rest =>
      have hsome : ¬ p.fallback.isNone = true := by
        rw [hfallback]
        simp
      rw [if_neg hsome]
      exact ⟨p, rfl, h.key, h.nonce, h.deadline, hfar, hfallback⟩

/-- Any other message is no answer. -/
theorem Awaits.hear_other (h : Awaits p₀ heard p) {msg : Message}
    (hmsg : msg ≠ .punchAck p.nonce) (sender : SocketAddr) (s : Session cfg) :
    ∃ q t, p.hear C env sender msg s = (.probing q, t) ∧ Awaits p₀ heard q := by
  unfold Probing.hear
  cases msg with
  | register => exact ⟨p, s, rfl, h⟩
  | addrs as => exact ⟨p, s, rfl, h⟩
  | punchAck echoed =>
    have hne : echoed ≠ p.nonce := fun he => hmsg (he ▸ rfl)
    dsimp only
    rw [if_neg hne]
    exact ⟨p, s, rfl, h⟩
  | peers you others =>
    dsimp only
    split_ifs
    · exact ⟨_, _, rfl, Awaits.learnAll h others⟩
    · exact ⟨p, s, rfl, h⟩
  | punch theirs =>
    dsimp only
    split_ifs
    · exact ⟨p, _, rfl, h⟩
    · exact ⟨_, _, rfl, h.key, h.nonce, h.deadline, h.faraway, h.fallback⟩

/-- A datagram either answers, which ends the call when it is local, or changes nothing that
counts. -/
theorem Awaits.receive (h : Awaits p₀ heard p) (sender : SocketAddr) (raw : Bytes)
    (s : Session cfg) :
    Reasoned p₀
      (heard ++ (answerOf p₀.key p₀.nonce
        ((env, .datagram sender raw) : Env × PathEvent cfg)).toList) env.now
      (p.receive C env sender raw s) := by
  unfold Probing.receive
  by_cases hack : Message.decode raw = some (p₀.key, .punchAck p₀.nonce)
  · have hanswer : answerOf p₀.key p₀.nonce
        ((env, .datagram sender raw) : Env × PathEvent cfg) = some (sender, env.now) := if_pos hack
    rw [hack, hanswer, ← h.key, ← h.nonce]
    dsimp only
    rw [if_neg (not_not.mpr rfl)]
    rcases h.hear_ack (C := C) sender s with ⟨hlocal, heq⟩ | ⟨q, heq, hq⟩
    · rw [heq]
      exact .answered (.nearby rfl hlocal h.faraway)
    · rw [heq]
      exact .probing hq
  · have hanswer : answerOf p₀.key p₀.nonce
        ((env, .datagram sender raw) : Env × PathEvent cfg) = none :=
      if_neg hack
    rw [hanswer, Option.toList_none, List.append_nil]
    cases hdecode : Message.decode raw with
    | none => exact .probing h
    | some x =>
      obtain ⟨key, msg⟩ := x
      dsimp only
      by_cases hkey : key ≠ p.key
      · rw [if_pos hkey]
        exact .probing h
      · rw [if_neg hkey]
        have hmsg : msg ≠ .punchAck p.nonce := by
          rintro rfl
          rw [not_not, h.key] at hkey
          rw [hdecode, hkey, h.nonce] at hack
          exact hack rfl
        obtain ⟨q, t, heq, hq⟩ := h.hear_other (C := C) hmsg sender s
        rw [heq]
        exact .probing hq

theorem Reasoned.again {x : Selection × Session cfg} (h : Reasoned p₀ heard env.now x) :
    Reasoned p₀ heard env.now (Session.again C env x) := by
  cases h with
  | probing hp => exact hp.head _
  | answered hr => exact .answered hr
  | closed hs => exact .closed hs

/-- The converse of `explains_due`: a call that still probes has no reason to return yet. -/
theorem Awaits.due_of_explains (h : Awaits p₀ heard p) {now : ℕ}
    {r : Except TransportError SocketAddr} (hr : Explains heard p₀.deadline now r) :
    p.due now = some r := by
  have hfallback := h.fallback
  unfold Probing.due
  cases hr with
  | @nearby pre addr t heq hlocal _ =>
    have hmem : (addr, t) ∈ heard := by simp [heq]
    have hfar : addr.isLocal = false := h.faraway _ hmem
    rw [hlocal] at hfar
    exact absurd hfar (by simp)
  | faraway heq _ hlate =>
    rw [hfallback, heq]
    dsimp only [List.head?_cons, Option.map_some]
    rw [h.deadline, if_pos hlate]
  | silence heq hlate =>
    rw [hfallback, heq]
    dsimp only [List.head?_nil, Option.map_none]
    rw [h.deadline, if_pos hlate]

/-- At the head of the loop a call returns when it has a reason. -/
theorem Awaits.head_done (h : Awaits p₀ heard p) {r : Except TransportError SocketAddr}
    (hr : Explains heard p₀.deadline env.now r) (s : Session cfg) :
    ∃ r', (p.head C env s).1 = .done r' := by
  unfold Probing.head
  split_ifs with hclosed hsend
  · exact ⟨_, rfl⟩
  all_goals
    rw [h.due_of_explains hr]
    exact ⟨r, rfl⟩

end Steps

/-! ## What a call returns, and when -/

/-- The time of the last event, or of the call. -/
def clock (events : List (Env × PathEvent cfg)) : ℕ :=
  (events.getLast?.map fun a => a.1.now).getD env.now

/-- Why a call returns `r` where these events have led it. -/
inductive Reason (p₀ : Probing) (events : List (Env × PathEvent cfg)) (s : Session cfg) :
    Except TransportError SocketAddr → Prop
  | answered {r} : Explains (answers p₀.key p₀.nonce events) p₀.deadline (clock env events) r →
      Reason p₀ events s r
  | closed : s.status.closed = true →
      Reason p₀ events s (.error (.peerClosed "session closed"))
  | failed {e : Env} {err : TransportError} : events.getLast? = some (e, .ioError err) →
      Reason p₀ events s (.error err)

/-- The call has got here at the time of the last event for one of the reasons, or awaits more. -/
inductive Told (p₀ : Probing) (events : List (Env × PathEvent cfg)) :
    Selection × Session cfg → Prop
  | probing {p s} : Awaits p₀ (answers p₀.key p₀.nonce events) p → Told p₀ events (.probing p, s)
  | done {pre r s} : pre <+: events → Reason env p₀ pre s r → Told p₀ events (.done r, s)

/-- The call reads the socket, or gives up waiting for it; nothing else runs. -/
def PathEvent.isRead : PathEvent cfg → Bool
  | .meanwhile _ => false
  | _ => true

section Runs

variable {C env} {p₀ : Probing} {events : List (Env × PathEvent cfg)} {a : Env × PathEvent cfg}

@[simp] theorem clock_append : clock env (events ++ [a]) = a.1.now := by
  simp [clock]

theorem Reasoned.told {x : Selection × Session cfg}
    (h : Reasoned p₀ (answers p₀.key p₀.nonce events) (clock env events) x) :
    Told env p₀ events x := by
  cases h with
  | probing hp => exact .probing hp
  | answered hr => exact .done List.prefix_rfl (.answered hr)
  | closed hs => exact .done List.prefix_rfl (.closed hs)

/-- A step of a call that still probes. -/
theorem Awaits.selectStep {p : Probing} (h : Awaits p₀ (answers p₀.key p₀.nonce events) p)
    (s : Session cfg) :
    Told env p₀ (events ++ [a]) (Session.selectStep C (.probing p, s) a) := by
  obtain ⟨now, event⟩ := a
  have hquiet : answerOf p₀.key p₀.nonce (now, event) = none →
      answers p₀.key p₀.nonce (events ++ [(now, event)]) = answers p₀.key p₀.nonce events := by
    intro hnone
    rw [answers_append, hnone, Option.toList_none, List.append_nil]
  cases event with
  | datagram sender raw =>
    apply Reasoned.told
    rw [clock_append, answers_append]
    exact (h.receive sender raw s).again
  | timeout =>
    apply Reasoned.told
    rw [clock_append, hquiet rfl]
    exact h.head s
  | ioError err => exact .done List.prefix_rfl (.failed List.getLast?_concat)
  | meanwhile t =>
    apply Told.probing
    rw [hquiet rfl]
    exact h

/-- A read with which a reason comes ends the call. -/
theorem Awaits.selectStep_done {p : Probing} (h : Awaits p₀ (answers p₀.key p₀.nonce events) p)
    (hread : a.2.isRead = true) {r : Except TransportError SocketAddr}
    (hr : Explains (answers p₀.key p₀.nonce (events ++ [a])) p₀.deadline a.1.now r)
    (s : Session cfg) : ∃ r', (Session.selectStep C (.probing p, s) a).1 = .done r' := by
  rw [answers_append] at hr
  obtain ⟨now, event⟩ := a
  cases event with
  | datagram sender raw =>
    have hnext : Reasoned p₀ _ now.now (p.receive C now sender raw s) := h.receive sender raw s
    unfold Session.selectStep again
    dsimp only
    generalize p.receive C now sender raw s = x at hnext ⊢
    cases hnext with
    | probing hq => exact hq.head_done hr _
    | answered _ => exact ⟨_, rfl⟩
    | closed _ => exact ⟨_, rfl⟩
  | timeout =>
    rw [show answerOf p₀.key p₀.nonce ((now, .timeout) : Env × PathEvent cfg) = none from rfl,
      Option.toList_none, List.append_nil] at hr
    exact h.head_done hr s
  | ioError err => exact ⟨_, rfl⟩
  | meanwhile t => cases hread

theorem Told.selectStep {x : Selection × Session cfg} (h : Told env p₀ events x) :
    Told env p₀ (events ++ [a]) (Session.selectStep C x a) := by
  cases h with
  | probing hp => exact hp.selectStep _
  | done hpre hr =>
    have hstay : Told env p₀ (events ++ [a]) (.done _, _) :=
      .done (hpre.trans (List.prefix_append events [a])) hr
    obtain ⟨now, event⟩ := a
    cases event <;> exact hstay

end Runs

theorem selectPath_append (candidates : List SocketAddr) (wait : ℕ) (nonce : Vector UInt8 8)
    (s : Session cfg) (events : List (Env × PathEvent cfg)) (a : Env × PathEvent cfg) :
    selectPath C env candidates wait nonce s (events ++ [a]) =
      selectStep C (selectPath C env candidates wait nonce s events) a := by
  simp [selectPath]

theorem selectPath_told (candidates : List SocketAddr) (wait : ℕ) (nonce : Vector UInt8 8)
    (s : Session cfg) (events : List (Env × PathEvent cfg)) :
    Told env (Probing.begin C env candidates wait nonce s) events
      (selectPath C env candidates wait nonce s events) := by
  induction events using List.reverseRecOn with
  | nil => exact Reasoned.told ((awaits_begin candidates wait nonce s).head s)
  | append_singleton events a ih =>
    rw [selectPath_append]
    exact ih.selectStep

/-- A result stays. -/
theorem selectPath_done {candidates : List SocketAddr} {wait : ℕ} {nonce : Vector UInt8 8}
    {s : Session cfg} {pre events : List (Env × PathEvent cfg)} (hpre : pre <+: events)
    {r : Except TransportError SocketAddr}
    (h : (selectPath C env candidates wait nonce s pre).1 = .done r) :
    (selectPath C env candidates wait nonce s events).1 = .done r := by
  obtain ⟨rest, rfl⟩ := hpre
  induction rest using List.reverseRecOn with
  | nil => rwa [List.append_nil]
  | append_singleton rest a ih =>
    rw [← List.append_assoc, selectPath_append, selectStep, ih]
    exact ih

/-- A call that has a reason to return when it reads the socket has returned. -/
theorem selectPath_returns {candidates : List SocketAddr} {wait : ℕ} {nonce : Vector UInt8 8}
    {s : Session cfg} {events : List (Env × PathEvent cfg)} {r : Except TransportError SocketAddr}
    (hread : ∀ a ∈ events.getLast?, a.2.isRead = true)
    (hr : let p₀ := Probing.begin C env candidates wait nonce s
      Explains (answers p₀.key p₀.nonce events) p₀.deadline (clock env events) r) :
    ∃ r', (selectPath C env candidates wait nonce s events).1 = .done r' := by
  induction events using List.reverseRecOn with
  | nil => exact (awaits_begin candidates wait nonce s).head_done hr s
  | append_singleton events a _ =>
    rw [selectPath_append]
    have htold := selectPath_told C env candidates wait nonce s events
    rw [clock_append] at hr
    generalize selectPath C env candidates wait nonce s events = x at htold ⊢
    cases htold with
    | probing hp => exact hp.selectStep_done (hread a List.getLast?_concat) hr _
    | @done _ r' _ _ _ =>
      obtain ⟨now, event⟩ := a
      exact ⟨r', by cases event <;> rfl⟩

/-- The law of `select_path`. What it returns has one of the reasons of the source: the first
local address that answered, else the first address that answered once the grace or the time
is over, else a timeout, a closed session or an error of the socket. And wherever it reads the
socket, an answer that is due is not held back. -/
theorem selectPath_law (candidates : List SocketAddr) (wait : ℕ) (nonce : Vector UInt8 8)
    (s : Session cfg) (events : List (Env × PathEvent cfg)) :
    let p₀ := Probing.begin C env candidates wait nonce s
    let x := selectPath C env candidates wait nonce s events
    (∀ r, x.1 = .done r → ∃ pre, pre <+: events ∧ Reason env p₀ pre x.2 r) ∧
      ∀ pre r, pre <+: events → (∀ a ∈ pre.getLast?, a.2.isRead = true) →
        Explains (answers p₀.key p₀.nonce pre) p₀.deadline (clock env pre) r →
        ∃ r', x.1 = .done r' := by
  intro p₀ x
  constructor
  · intro r hr
    have htold : Told env p₀ events x := selectPath_told C env candidates wait nonce s events
    generalize x = y at hr htold ⊢
    cases htold with
    | probing _ => cases hr
    | done hpre hreason =>
      cases hr
      exact ⟨_, hpre, hreason⟩
  · intro pre r hpre hread hr
    obtain ⟨r', hr'⟩ := selectPath_returns C env hread hr
    exact ⟨r', selectPath_done C env hpre hr'⟩

end Session
end GravitalTalk
