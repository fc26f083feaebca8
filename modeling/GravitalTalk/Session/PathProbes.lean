import GravitalTalk.Session.SelectPath

/-!
# Where a call probes

While `select_path` runs it sends messages of its room only, and only to addresses
that it has reason to know: those of its call, those that the rendezvous server told
of, the ports next to public ones of both, and whoever sent it a probe with the key
of the room. A sender without that key never gets an answer.
-/
namespace GravitalTalk
namespace Session

open Rendezvous (Message RoomKey)

variable {cfg : Config} (C : Crypto) (env : Env)

/-- All that happened is that messages of the room went out, as `P` allows. -/
def Posts (P : SocketAddr → Message → Prop) (s t : Session cfg) : Prop :=
  ∃ out : List (SocketAddr × Message),
    t = { s with
      traffic.sent := out.map (fun x => (x.1, x.2.encode (s.roomKey C))) ++ s.traffic.sent } ∧
    ∀ x ∈ out, P x.1 x.2

section Posts

variable {C env} {P Q : SocketAddr → Message → Prop} {s t u : Session cfg}

namespace Posts

@[refl] theorem refl (s : Session cfg) : Posts C P s s := ⟨[], rfl, nofun⟩

theorem roomKey (h : Posts C P s t) : t.roomKey C = s.roomKey C := by
  obtain ⟨out, rfl, -⟩ := h
  rfl

theorem trans (h : Posts C P s t) (h' : Posts C P t u) : Posts C P s u := by
  have hkey := h.roomKey
  obtain ⟨out, rfl, hout⟩ := h
  obtain ⟨out', rfl, hout'⟩ := h'
  refine ⟨out' ++ out, ?_, ?_⟩
  · rw [hkey, List.map_append, List.append_assoc]
  · intro x hx
    rcases List.mem_append.mp hx with hx | hx
    · exact hout' x hx
    · exact hout x hx

theorem mono (hPQ : ∀ a msg, P a msg → Q a msg) (h : Posts C P s t) : Posts C Q s t := by
  obtain ⟨out, heq, hout⟩ := h
  exact ⟨out, heq, fun x hx => hPQ x.1 x.2 (hout x hx)⟩

theorem sendRv {a : SocketAddr} {msg : Message} (h : P a msg) (s : Session cfg) :
    Posts C P s (s.sendRv C env msg a) := by
  refine ⟨[(a, msg)], rfl, ?_⟩
  intro x hx
  rw [List.mem_singleton.mp hx]
  exact h

theorem foldl {β : Type*} {f : Session cfg → β → Session cfg} (l : List β)
    (hf : ∀ b ∈ l, ∀ s, Posts C P s (f s b)) (s : Session cfg) : Posts C P s (l.foldl f s) := by
  induction l generalizing s with
  | nil => exact refl s
  | cons b l ih =>
    apply trans (hf b List.mem_cons_self s)
    exact ih (fun b hb => hf b (List.mem_cons_of_mem _ hb)) _

theorem sendRvAll {msg : Message} (peers : List SocketAddr) (h : ∀ a ∈ peers, P a msg)
    (s : Session cfg) : Posts C P s (s.sendRvAll C env msg peers) :=
  foldl peers (fun a ha s => sendRv (h a ha) s) s

/-- What is in the record afterwards was there before, or is a message that was allowed. -/
theorem sent (h : Posts C P s t) {x : SocketAddr × Bytes} (hx : x ∈ t.traffic.sent) :
    x ∈ s.traffic.sent ∨ ∃ msg, P x.1 msg ∧ x.2 = msg.encode (s.roomKey C) := by
  obtain ⟨out, rfl, hout⟩ := h
  rcases List.mem_append.mp hx with hx | hx
  · obtain ⟨y, hy, rfl⟩ := List.mem_map.mp hx
    exact .inr ⟨y.2, hout y hy, rfl⟩
  · exact .inl hx

end Posts
end Posts

/-! ## What a call learns -/

section Learned

variable {C env} (p₀ : Probing) (events : List (Env × PathEvent cfg))

/-- A message with the key of the room came from `sender`. -/
def Heard (sender : SocketAddr) (msg : Message) : Prop :=
  ∃ env raw, (env, .datagram sender raw) ∈ events ∧ Message.decode raw = some (p₀.key, msg)

/-- The call was told of `a`, when it was made or by its server. -/
inductive Suggested (a : SocketAddr) : Prop
  | given (h : a ∈ p₀.candidates)
  | told {server you : SocketAddr} {others : List SocketAddr} (hserver : p₀.server = some server)
      (h : Heard p₀ events server (.peers you others)) (ha : a ∈ others)

/-- What the call may send where. -/
inductive Addressed : SocketAddr → Message → Prop
  | register {server} (h : p₀.server = some server) : Addressed server .register
  | probe {a} (h : Suggested p₀ events a) : Addressed a (.punch p₀.nonce)
  | sweep {target a} (h : Suggested p₀ events target) (hfar : target.isLocal = false)
      (ha : a ∈ neighbours target) : Addressed a (.punch p₀.nonce)
  | back {a theirs} (h : Heard p₀ events a (.punch theirs)) : Addressed a (.punch p₀.nonce)
  | answer {a theirs} (h : Heard p₀ events a (.punch theirs)) : Addressed a (.punchAck theirs)

/-- The addresses that a call holds all come from there. -/
structure Informed (p : Probing) : Prop where
  server : p.server = p₀.server
  key : p.key = p₀.key
  nonce : p.nonce = p₀.nonce
  candidates : ∀ a ∈ p.candidates,
    Suggested p₀ events a ∨ ∃ theirs, Heard p₀ events a (.punch theirs)
  sweepTargets : ∀ a ∈ p.sweepTargets, Suggested p₀ events a ∧ a.isLocal = false

variable {p₀ events} {more : List (Env × PathEvent cfg)} {p : Probing} {s : Session cfg}

theorem Heard.mono (hmore : events ⊆ more) {a : SocketAddr} {msg : Message}
    (h : Heard p₀ events a msg) : Heard p₀ more a msg := by
  obtain ⟨env, raw, hmem, hdecode⟩ := h
  exact ⟨env, raw, hmore hmem, hdecode⟩

theorem Suggested.mono (hmore : events ⊆ more) {a : SocketAddr} (h : Suggested p₀ events a) :
    Suggested p₀ more a := by
  cases h with
  | given h => exact .given h
  | told hserver h ha => exact .told hserver (h.mono hmore) ha

theorem Informed.mono (hmore : events ⊆ more) (h : Informed p₀ events p) : Informed p₀ more p where
  server := h.server
  key := h.key
  nonce := h.nonce
  candidates a ha := (h.candidates a ha).imp (·.mono hmore) fun ⟨theirs, hp⟩ =>
    ⟨theirs, hp.mono hmore⟩
  sweepTargets a ha := ⟨(h.sweepTargets a ha).1.mono hmore, (h.sweepTargets a ha).2⟩

theorem informed_begin (candidates : List SocketAddr) (wait : ℕ) (nonce : Vector UInt8 8)
    (s : Session cfg) :
    Informed (Probing.begin C env candidates wait nonce s) ([] : List (Env × PathEvent cfg))
      (Probing.begin C env candidates wait nonce s) where
  server := rfl
  key := rfl
  nonce := rfl
  candidates _ ha := .inl (.given ha)
  sweepTargets a ha := by
    obtain ⟨hmem, hfar⟩ := List.mem_filter.mp ha
    exact ⟨.given hmem, by simpa using hfar⟩

/-- A probe goes to a candidate. -/
theorem Informed.probe (h : Informed p₀ events p) {a : SocketAddr} (ha : a ∈ p.candidates) :
    Addressed p₀ events a (.punch p.nonce) := by
  rw [h.nonce]
  rcases h.candidates a ha with hs | ⟨theirs, hp⟩
  · exact .probe hs
  · exact .back hp

theorem Informed.sendRound (h : Informed p₀ events p) (s : Session cfg) :
    Posts C (Addressed p₀ events) s (p.sendRound C env s) := by
  have hround (t : Session cfg) (hregister : Posts C (Addressed p₀ events) s t) :
      Posts C (Addressed p₀ events) s
        (if p.cycle.toNat % punchSpreadEvery = 0 then
          p.sweepTargets.foldl (fun s target => s.punchNeighbours C env target p.nonce)
            (t.sendRvAll C env (.punch p.nonce) p.candidates)
        else t.sendRvAll C env (.punch p.nonce) p.candidates) := by
    have hprobes := hregister.trans
      (@Posts.sendRvAll cfg C env _ _ p.candidates (fun a ha => h.probe ha) t)
    split_ifs
    · apply hprobes.trans
      apply Posts.foldl
      intro target htarget s
      obtain ⟨hs, hfar⟩ := h.sweepTargets target htarget
      apply Posts.sendRvAll
      intro a ha
      rw [h.nonce]
      exact .sweep hs hfar ha
    · exact hprobes
  unfold Probing.sendRound
  cases hserver : p.server with
  | none => exact hround s (.refl s)
  | some server => exact hround _ (.sendRv (.register (h.server ▸ hserver)) s)

/-- A call goes on with what it may know, and has sent what it may send. -/
inductive Proceeds (p₀ : Probing) (events : List (Env × PathEvent cfg)) (C : Crypto)
    (s : Session cfg) : Selection × Session cfg → Prop
  | probing {p t} : Informed p₀ events p → Posts C (Addressed p₀ events) s t →
      Proceeds p₀ events C s (.probing p, t)
  | done {r t} : Posts C (Addressed p₀ events) s t → Proceeds p₀ events C s (.done r, t)

theorem Proceeds.posts {x : Selection × Session cfg} (h : Proceeds p₀ events C s x) :
    Posts C (Addressed p₀ events) s x.2 := by
  cases h with
  | probing _ hsent => exact hsent
  | done hsent => exact hsent

theorem Informed.head (h : Informed p₀ events p) (s : Session cfg) :
    Proceeds p₀ events C s (p.head C env s) := by
  unfold Probing.head
  split_ifs
  · exact .done (.refl s)
  · cases p.due env.now with
    | some r => exact .done (.refl s)
    | none =>
      exact .probing ⟨h.server, h.key, h.nonce, h.candidates, h.sweepTargets⟩ (h.sendRound s)
  · cases p.due env.now with
    | some r => exact .done (.refl s)
    | none => exact .probing h (.refl s)

theorem Proceeds.again {x : Selection × Session cfg} (h : Proceeds p₀ events C s x) :
    Proceeds p₀ events C s (Session.again C env x) := by
  cases h with
  | done hsent => exact .done hsent
  | @probing p t hp hsent =>
    have hnext : Proceeds p₀ events C t (p.head C env t) := hp.head t
    unfold Session.again
    dsimp only
    generalize p.head C env t = y at hnext
    cases hnext with
    | probing hq hmore => exact .probing hq (hsent.trans hmore)
    | done hmore => exact .done (hsent.trans hmore)

/-- A new candidate that the call may know. -/
theorem Informed.candidate (h : Informed p₀ events p) {a : SocketAddr}
    (ha : Suggested p₀ events a ∨ ∃ theirs, Heard p₀ events a (.punch theirs)) :
    Informed p₀ events { p with candidates := p.candidates ++ [a] } where
  server := h.server
  key := h.key
  nonce := h.nonce
  candidates b hb := by
    rcases List.mem_append.mp hb with hb | hb
    · exact h.candidates b hb
    · rw [List.mem_singleton.mp hb]
      exact ha
  sweepTargets := h.sweepTargets

/-- A public address next to which the ports are swept from now on. -/
theorem Informed.sweep (h : Informed p₀ events p) {a : SocketAddr} (ha : Suggested p₀ events a)
    (hfar : a.isLocal = false) :
    Informed p₀ events { p with sweepTargets := p.sweepTargets ++ [a] } where
  server := h.server
  key := h.key
  nonce := h.nonce
  candidates := h.candidates
  sweepTargets b hb := by
    rcases List.mem_append.mp hb with hb | hb
    · exact h.sweepTargets b hb
    · rw [List.mem_singleton.mp hb]
      exact ⟨ha, hfar⟩

/-- An address that the server told of. -/
theorem Informed.learn {x : Probing × Session cfg} (h : Informed p₀ events x.1) {peer : SocketAddr}
    (hpeer : Suggested p₀ events peer) : Informed p₀ events (Probing.learn C env x peer).1 ∧
      Posts C (Addressed p₀ events) x.2 (Probing.learn C env x peer).2 := by
  have hcandidate := h.candidate (.inl hpeer)
  have hpunch : Posts C (Addressed p₀ events) x.2 (x.2.sendRv C env (.punch x.1.nonce) peer) := by
    apply Posts.sendRv
    rw [h.nonce]
    exact .probe hpeer
  unfold Probing.learn
  split_ifs with hknown hlocal
  · exact ⟨h, .refl _⟩
  · exact ⟨hcandidate, hpunch⟩
  · exact ⟨hcandidate.sweep hpeer (Bool.eq_false_of_not_eq_true hlocal), hpunch⟩

theorem Informed.learnAll {x : Probing × Session cfg} (h : Informed p₀ events x.1)
    (others : List SocketAddr) (hothers : ∀ a ∈ others, Suggested p₀ events a) :
    Informed p₀ events (others.foldl (Probing.learn C env) x).1 ∧
      Posts C (Addressed p₀ events) x.2 (others.foldl (Probing.learn C env) x).2 := by
  induction others generalizing x with
  | nil => exact ⟨h, .refl _⟩
  | cons peer others ih =>
    have hfirst : Informed p₀ events (Probing.learn C env x peer).1 ∧
        Posts C (Addressed p₀ events) x.2 (Probing.learn C env x peer).2 :=
      h.learn (hothers peer List.mem_cons_self)
    have hrest := ih hfirst.1 fun a ha => hothers a (List.mem_cons_of_mem _ ha)
    exact ⟨hrest.1, hfirst.2.trans hrest.2⟩

theorem Informed.hear (h : Informed p₀ events p) {sender : SocketAddr} {msg : Message}
    (hmsg : Heard p₀ events sender msg) (s : Session cfg) :
    Proceeds p₀ events C s (p.hear C env sender msg s) := by
  unfold Probing.hear
  cases msg with
  | register => exact .probing h (.refl s)
  | addrs as => exact .probing h (.refl s)
  | peers you others =>
    dsimp only
    split_ifs with hserver
    · have htold : ∀ a ∈ others, Suggested p₀ events a := by
        intro a ha
        exact .told (h.server ▸ hserver.symm) hmsg ha
      have hlearn : Informed p₀ events (others.foldl (Probing.learn C env) (p, s)).1 ∧
          Posts C (Addressed p₀ events) s (others.foldl (Probing.learn C env) (p, s)).2 :=
        Informed.learnAll h others htold
      exact .probing hlearn.1 hlearn.2
    · exact .probing h (.refl s)
  | punchAck echoed =>
    dsimp only
    split_ifs
    · exact .done (.refl s)
    · exact .probing ⟨h.server, h.key, h.nonce, h.candidates, h.sweepTargets⟩ (.refl s)
    · exact .probing h (.refl s)
    · exact .probing h (.refl s)
  | punch theirs =>
    have hanswer : Posts C (Addressed p₀ events) s (s.sendRv C env (.punchAck theirs) sender) :=
      .sendRv (.answer hmsg) s
    dsimp only
    split_ifs
    · exact .probing h hanswer
    · apply Proceeds.probing
      · exact h.candidate (.inr ⟨theirs, hmsg⟩)
      · apply hanswer.trans
        apply Posts.sendRv
        rw [h.nonce]
        exact .back hmsg

theorem Informed.receive (h : Informed p₀ events p) {sender : SocketAddr} {raw : Bytes}
    (hmem : (env, .datagram sender raw) ∈ events) (s : Session cfg) :
    Proceeds p₀ events C s (p.receive C env sender raw s) := by
  unfold Probing.receive
  cases hdecode : Message.decode raw with
  | none => exact .probing h (.refl s)
  | some x =>
    obtain ⟨key, msg⟩ := x
    dsimp only
    split_ifs with hkey
    · exact .probing h (.refl s)
    · have hmsg : Heard p₀ events sender msg := by
        refine ⟨env, raw, hmem, ?_⟩
        rw [hdecode, ← h.key, not_not.mp hkey]
      exact h.hear hmsg s

/-- A step of a call that still probes, in which it reads the socket. -/
theorem Informed.selectStep (h : Informed p₀ events p) {a : Env × PathEvent cfg}
    (hread : a.2.isRead = true) (s : Session cfg) :
    Proceeds p₀ (events ++ [a]) C s (Session.selectStep C (.probing p, s) a) := by
  have h : Informed p₀ (events ++ [a]) p := h.mono (List.subset_append_left _ _)
  obtain ⟨now, event⟩ := a
  cases event with
  | datagram sender raw =>
    have hmem : (now, .datagram sender raw) ∈ events ++ [(now, .datagram sender raw)] := by simp
    exact (h.receive hmem s).again
  | timeout => exact h.head s
  | ioError err => exact .done (.refl s)
  | meanwhile t => cases hread

end Learned

/-! ## Over a whole call -/

/-- A call that still probes holds only addresses that it may know. -/
theorem selectPath_informed {candidates : List SocketAddr} {wait : ℕ} {nonce : Vector UInt8 8}
    {s : Session cfg} (events : List (Env × PathEvent cfg)) {p : Probing}
    (h : (selectPath C env candidates wait nonce s events).1 = .probing p) :
    Informed (Probing.begin C env candidates wait nonce s) events p := by
  induction events using List.reverseRecOn generalizing p with
  | nil =>
    have hbegin : Informed (Probing.begin C env candidates wait nonce s) []
        (Probing.begin C env candidates wait nonce s) := informed_begin candidates wait nonce s
    have hfirst : Proceeds _ [] C s ((Probing.begin C env candidates wait nonce s).head C env s) :=
      hbegin.head s
    unfold selectPath at h
    rw [List.foldl_nil] at h
    generalize Probing.head C env _ s = x at h hfirst
    cases hfirst with
    | done _ => cases h
    | probing hp _ =>
      cases h
      exact hp
  | append_singleton events a ih =>
    rw [selectPath_append] at h
    generalize selectPath C env candidates wait nonce s events = x at h ih
    obtain ⟨q | r, t⟩ := x
    · have hq := ih rfl
      cases hread : a.2.isRead with
      | true =>
        have hnext := hq.selectStep (C := C) hread t
        generalize selectStep C (.probing q, t) a = y at h hnext
        cases hnext with
        | done _ => cases h
        | probing hp _ =>
          cases h
          exact hp
      | false =>
        obtain ⟨now, event⟩ := a
        cases event with
        | meanwhile u =>
          cases h
          exact hq.mono (List.subset_append_left _ _)
        | datagram _ _ => cases hread
        | timeout => cases hread
        | ioError _ => cases hread
    · obtain ⟨now, event⟩ := a
      cases event <;> cases h

/-- With every read a call sends messages of its room only: its registration to the server,
its probe to addresses it was told of, to ports next to the public ones among them and to those
who probed it with the key of the room, and the answer to such a probe to whoever sent it. -/
theorem selectPath_addresses (candidates : List SocketAddr) (wait : ℕ) (nonce : Vector UInt8 8)
    (s : Session cfg) (events : List (Env × PathEvent cfg)) (a : Env × PathEvent cfg) :
    a.2.isRead = false ∨
      Posts C (Addressed (Probing.begin C env candidates wait nonce s) (events ++ [a]))
        (selectPath C env candidates wait nonce s events).2
        (selectPath C env candidates wait nonce s (events ++ [a])).2 := by
  have hinformed (p : Probing)
      (h : (selectPath C env candidates wait nonce s events).1 = .probing p) :
      Informed (Probing.begin C env candidates wait nonce s) events p :=
    selectPath_informed C env events h
  rw [selectPath_append]
  generalize selectPath C env candidates wait nonce s events = x at hinformed
  cases hread : a.2.isRead with
  | false => exact .inl rfl
  | true =>
    right
    obtain ⟨p | r, t⟩ := x
    · exact ((hinformed p rfl).selectStep hread t).posts
    · obtain ⟨now, event⟩ := a
      cases event <;> exact .refl t

end Session
end GravitalTalk
