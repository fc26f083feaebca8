import GravitalTalk.Lib.Interleave
import GravitalTalk.Relay.Routing

/-!
# Concurrent registration

`route` and `register_room`, access by access: each look at one of the two maps, and
each insertion, is one atomic step, and any number of calls take their steps in any
order. What is looked up may have changed when the insertion comes.
-/
namespace GravitalTalk.Router

/-- A call, and how far it is. -/
inductive Task
  | route (sessionId : UInt32) (sender : SessionEndpoint)
  /-- The session was not found; `routes.len()` comes next. -/
  | counting (sessionId : UInt32) (sender : SessionEndpoint)
  | inserting (sessionId : UInt32) (sender : SessionEndpoint)
  | routed (sessionId : UInt32) (sender : SessionEndpoint) (decision : RouteDecision)
  | registerRoom (code : String) (sessionId : UInt32) (token : Option String)
  /-- The code was not found. -/
  | creating (code : String) (sessionId : UInt32) (token : Option String)
  | created (code : String) (answer : Bool)
  deriving DecidableEq, Repr

namespace Task

/-- Not begun. -/
def IsCall : Task → Prop
  | route _ _ | registerRoom _ _ _ => True
  | _ => False

variable (C : Crypto)

/-- The next atomic step of a call. -/
def next (now : ℕ) : Task → Router → Task × Router
  | route s sender, r =>
    if s = 0 then (routed s sender .dropped, r)
    else match r.routes.lookup s with
      | some e =>
        let d := admitTo r.maxPeersPerSession sender now e
        (routed s sender d.1, { r with routes := r.routes.insert s d.2 })
      | none => (counting s sender, r)
  | counting s sender, r =>
    if r.maxSessions ≤ Table.size r.routes then (routed s sender .dropped, r)
    else (inserting s sender, r)
  | inserting s sender, r =>
    (routed s sender .registered,
      { r with routes := r.routes.insert s (firstEntry sender now) })
  | registerRoom code s token, r =>
    if code ∈ r.rooms then (created code false, r) else (creating code s token, r)
  | creating code s token, r =>
    (created code true, { r with rooms := r.rooms.insert code (.new C s token) })
  | t, r => (t, r)

/-- A call that is not interrupted is the call. -/
theorem next_route (s : UInt32) (sender : SessionEndpoint) (now : ℕ) (r : Router) :
    let first := next C now (route s sender) r
    let second := next C now first.1 first.2
    next C now second.1 second.2 =
      (routed s sender (r.route s sender now).1, (r.route s sender now).2) := by
  intro first second
  by_cases h0 : s = 0
  · have hfirst : first = (routed s sender .dropped, r) := if_pos h0
    have hsecond : second = (routed s sender .dropped, r) := by
      unfold second
      rw [hfirst]
      rfl
    rw [hsecond, Router.route, if_pos h0]
    rfl
  · have hfirst : first = match r.routes.lookup s with
        | some e =>
          (routed s sender (admitTo r.maxPeersPerSession sender now e).1,
            { r with routes := r.routes.insert s (admitTo r.maxPeersPerSession sender now e).2 })
        | none => (counting s sender, r) := if_neg h0
    rw [Router.route, if_neg h0]
    cases hs : r.routes.lookup s with
    | some e =>
      rw [hs] at hfirst
      unfold second
      rw [hfirst]
      rfl
    | none =>
      rw [hs] at hfirst
      unfold second
      rw [hfirst]
      by_cases hfull : r.maxSessions ≤ Table.size r.routes
      · simp only [next, if_pos hfull]
      · simp only [next, if_neg hfull]

theorem next_registerRoom (code : String) (s : UInt32) (token : Option String) (now : ℕ)
    (r : Router) :
    let first := next C now (registerRoom code s token) r
    next C now first.1 first.2 =
      (created code (r.registerRoom C code s token).1, (r.registerRoom C code s token).2) := by
  intro first
  unfold first
  by_cases hcode : code ∈ r.rooms
  · simp only [next, Router.registerRoom, if_pos hcode]
  · simp only [next, Router.registerRoom, if_neg hcode]

/-- A call that came back with something that is kept from then on. -/
def IsAnswer : Task → Prop
  | routed _ _ d => d ≠ .dropped
  | created _ answer => answer = true
  | _ => False

end Task

variable {C : Crypto} {ι : Type*} {c : Threads ι Router Task}

/-- Everybody who was told so is registered, there are not too many sessions, and no code was
created twice. -/
structure Kept (c : Threads ι Router Task) : Prop where
  registered : ∀ i s sender d, c.threads i = .routed s sender d → d ≠ .dropped →
    ∃ e, c.shared.routes.lookup s = some e ∧ sender ∈ e.peers
  size : Table.size c.shared.routes ≤ c.shared.maxSessions
  created : ∀ i j code, c.threads i = .created code true → c.threads j = .created code true → i = j

/-- What the insertions rely on: the session is still not there and has still a place (or nobody
but the caller is in it), and the code is still not there. -/
def Undisturbed (c : Threads ι Router Task) (x : ℕ × ι) : Prop :=
  match c.threads x.2 with
  | .inserting s sender =>
    match c.shared.routes.lookup s with
    | none => Table.size c.shared.routes < c.shared.maxSessions
    | some e => ∀ p ∈ e.peers, p = sender
  | .creating code _ _ => code ∉ c.shared.rooms
  | _ => True

instance (c : Threads ι Router Task) (x : ℕ × ι) : Decidable (Undisturbed c x) := by
  unfold Undisturbed
  split
  · split <;> infer_instance
  · infer_instance
  · infer_instance

/-- Whoever is in the tables was told so, and of a code that was created there is a room. -/
structure Answered (c : Threads ι Router Task) : Prop where
  peers : ∀ s e, c.shared.routes.lookup s = some e → ∀ p ∈ e.peers,
    ∃ i d, c.threads i = .routed s p d ∧ d ≠ .dropped
  rooms : ∀ code, code ∈ c.shared.rooms ↔ ∃ i, c.threads i = .created code true

/-! ## One step -/

/-- Neither the tables nor the answers differ. -/
structure Quiet (c c' : Threads ι Router Task) : Prop where
  shared : c'.shared = c.shared
  answers : ∀ i t, t.IsAnswer → (c'.threads i = t ↔ c.threads i = t)

theorem Quiet.kept {c c' : Threads ι Router Task} (h : Quiet c c') (hc : Kept c) : Kept c' := by
  refine ⟨fun i s sender d hi hd => ?_, ?_, fun i j code hi hj => ?_⟩
  · rw [h.shared]
    exact hc.registered i s sender d ((h.answers i (.routed s sender d) hd).mp hi) hd
  · rw [h.shared]
    exact hc.size
  · exact hc.created i j code ((h.answers i (.created code true) rfl).mp hi)
      ((h.answers j (.created code true) rfl).mp hj)

theorem Quiet.answered {c c' : Threads ι Router Task} (h : Quiet c c') (hc : Answered c) :
    Answered c' := by
  refine ⟨fun s e hs p hp => ?_, fun code => ?_⟩
  · rw [h.shared] at hs
    obtain ⟨i, d, hi, hd⟩ := hc.peers s e hs p hp
    exact ⟨i, d, (h.answers i (.routed s p d) hd).mpr hi, hd⟩
  · rw [h.shared, hc.rooms]
    exact exists_congr fun i => (h.answers i (.created code true) rfl).symm

variable [DecidableEq ι]

/-- A step that neither changes the tables nor gives an answer. -/
theorem quiet_of_next {now : ℕ} {i : ι} {t : Task}
    (hnext : (c.threads i).next C now c.shared = (t, c.shared))
    (hbefore : ¬(c.threads i).IsAnswer) (hafter : ¬t.IsAnswer) :
    Quiet c (c.advance (Task.next C) (now, i)) := by
  refine ⟨by rw [Threads.shared_advance, hnext], fun j u hu => ?_⟩
  by_cases hj : j = i
  · subst hj
    rw [Threads.threads_advance_self, hnext]
    constructor
    · rintro rfl
      exact absurd hu hafter
    · rintro rfl
      exact absurd hu hbefore
  · rw [Threads.threads_advance_of_ne hj]

theorem quiet_of_finished {now : ℕ} {i : ι}
    (hnext : (c.threads i).next C now c.shared = (c.threads i, c.shared)) :
    Quiet c (c.advance (Task.next C) (now, i)) := by
  refine ⟨by rw [Threads.shared_advance, hnext], fun j u _ => ?_⟩
  by_cases hj : j = i
  · subst hj
    rw [Threads.threads_advance_self, hnext]
  · rw [Threads.threads_advance_of_ne hj]

/-- What a step can be: a quiet one, a packet of a session that is there, the insertion of a
session, or that of a room. -/
theorem advance_cases (c : Threads ι Router Task) (now : ℕ) (i : ι) :
    Quiet c (c.advance (Task.next C) (now, i)) ∧ Undisturbed c (now, i) ∨
    (∃ s sender e, c.threads i = .route s sender ∧ c.shared.routes.lookup s = some e ∧
      (c.threads i).next C now c.shared =
        (.routed s sender (admitTo c.shared.maxPeersPerSession sender now e).1,
          { c.shared with
            routes := c.shared.routes.insert s
              (admitTo c.shared.maxPeersPerSession sender now e).2 })) ∨
    (∃ s sender, c.threads i = .inserting s sender) ∨
    ∃ code s token, c.threads i = .creating code s token := by
  cases ht : c.threads i with
  | route s sender =>
    have hundisturbed : Undisturbed c (now, i) := by simp [Undisturbed, ht]
    have hbefore : ¬(c.threads i).IsAnswer := by simp [ht, Task.IsAnswer]
    by_cases h0 : s = 0
    · left
      refine ⟨quiet_of_next (t := Task.routed s sender .dropped) ?_ hbefore ?_, hundisturbed⟩
      · rw [ht, Task.next, if_pos h0]
      · exact fun h => h rfl
    · cases hs : c.shared.routes.lookup s with
      | none =>
        left
        refine ⟨quiet_of_next (t := Task.counting s sender) ?_ hbefore not_false, hundisturbed⟩
        rw [ht, Task.next, if_neg h0, hs]
      | some e =>
        refine .inr (.inl ⟨s, sender, e, rfl, hs, ?_⟩)
        rw [Task.next, if_neg h0, hs]
  | counting s sender =>
    left
    have hbefore : ¬(c.threads i).IsAnswer := by simp [ht, Task.IsAnswer]
    refine ⟨?_, by simp [Undisturbed, ht]⟩
    by_cases hfull : c.shared.maxSessions ≤ Table.size c.shared.routes
    · refine quiet_of_next (t := Task.routed s sender .dropped) ?_ hbefore fun h => h rfl
      rw [ht, Task.next, if_pos hfull]
    · refine quiet_of_next (t := Task.inserting s sender) ?_ hbefore not_false
      rw [ht, Task.next, if_neg hfull]
  | inserting s sender => exact .inr (.inr (.inl ⟨s, sender, rfl⟩))
  | routed s sender d =>
    exact .inl ⟨quiet_of_finished (by rw [ht]; rfl), by simp [Undisturbed, ht]⟩
  | registerRoom code s token =>
    left
    have hbefore : ¬(c.threads i).IsAnswer := by simp [ht, Task.IsAnswer]
    refine ⟨?_, by simp [Undisturbed, ht]⟩
    by_cases hcode : code ∈ c.shared.rooms
    · refine quiet_of_next (t := Task.created code false) ?_ hbefore Bool.false_ne_true
      rw [ht, Task.next, if_pos hcode]
    · refine quiet_of_next (t := Task.creating code s token) ?_ hbefore not_false
      rw [ht, Task.next, if_neg hcode]
  | creating code s token => exact .inr (.inr (.inr ⟨code, s, token, rfl⟩))
  | created code answer =>
    exact .inl ⟨quiet_of_finished (by rw [ht]; rfl), by simp [Undisturbed, ht]⟩

/-! ### A packet of a session that is there -/

theorem admitTo_peers (max : ℕ) (sender : SessionEndpoint) (now : ℕ) (e : RouteEntry) :
    (∀ p ∈ e.peers, p ∈ (admitTo max sender now e).2.peers) ∧
      ((admitTo max sender now e).1 ≠ .dropped → sender ∈ (admitTo max sender now e).2.peers) ∧
      ∀ p ∈ (admitTo max sender now e).2.peers,
        p ∈ e.peers ∨ p = sender ∧ (admitTo max sender now e).1 ≠ .dropped := by
  unfold admitTo
  dsimp only
  split_ifs with hknown hfull
  · exact ⟨fun _ hp => hp, fun _ => RouteEntry.isKnown_iff.mp hknown, fun _ hp => .inl hp⟩
  · exact ⟨fun _ hp => hp, fun h => absurd rfl h, fun _ hp => .inl hp⟩
  · refine ⟨fun _ hp => List.mem_append_left _ hp, fun _ => by simp, fun p hp => ?_⟩
    rcases List.mem_append.mp hp with hp | hp
    · exact .inl hp
    · exact .inr ⟨List.mem_singleton.mp hp, RouteDecision.to_ne_dropped _⟩

variable {now : ℕ} {i : ι} {s : UInt32} {sender : SessionEndpoint} {e : RouteEntry}

omit [DecidableEq ι] in
/-- Who was told so is in the entry still, when an entry that keeps everybody is inserted. -/
theorem Kept.registered_insert (hc : Kept c) {entry : RouteEntry}
    (hkeeps : ∀ e, c.shared.routes.lookup s = some e → ∀ p ∈ e.peers, p ∈ entry.peers) {j : ι}
    {s' : UInt32} {p : SessionEndpoint} {d : RouteDecision}
    (hj : c.threads j = .routed s' p d) (hd : d ≠ .dropped) :
    ∃ e', (c.shared.routes.insert s entry).lookup s' = some e' ∧ p ∈ e'.peers := by
  obtain ⟨e', he', hp⟩ := hc.registered j s' p d hj hd
  by_cases hs' : s' = s
  · subst hs'
    exact ⟨entry, Finmap.lookup_insert _, hkeeps e' he' p hp⟩
  · exact ⟨e', (Finmap.lookup_insert_of_ne _ hs').trans he', hp⟩

section Admitted

variable (hi : c.threads i = .route s sender) (hs : c.shared.routes.lookup s = some e)
  (hnext : (c.threads i).next C now c.shared =
    (.routed s sender (admitTo c.shared.maxPeersPerSession sender now e).1,
      { c.shared with
        routes := c.shared.routes.insert s
          (admitTo c.shared.maxPeersPerSession sender now e).2 }))

include hs hnext in
theorem kept_admitted (hc : Kept c) : Kept (c.advance (Task.next C) (now, i)) := by
  obtain ⟨hold, hsender, -⟩ := admitTo_peers c.shared.maxPeersPerSession sender now e
  refine ⟨fun j s' p d hj hd => ?_, ?_, fun j k code hj hk => ?_⟩
  · rw [Threads.shared_advance, hnext]
    by_cases hself : Task.routed s' p d =
        .routed s sender (admitTo c.shared.maxPeersPerSession sender now e).1
    · obtain ⟨rfl, rfl, rfl⟩ := Task.routed.inj hself
      exact ⟨_, Finmap.lookup_insert _, hsender hd⟩
    · have hbefore := Threads.threads_of_advance hj (by rw [hnext]; exact hself)
      refine hc.registered_insert (fun e' he' p hp => ?_) hbefore hd
      obtain rfl : e = e' := Option.some.inj (hs.symm.trans he')
      exact hold p hp
  · rw [Threads.shared_advance, hnext]
    exact (Table.size_insert_of_mem (Finmap.mem_iff.mpr ⟨e, hs⟩) _).trans_le hc.size
  · exact hc.created j k code (Threads.threads_of_advance hj (by simp [hnext]))
      (Threads.threads_of_advance hk (by simp [hnext]))

include hi hs hnext in
theorem answered_admitted (hc : Answered c) : Answered (c.advance (Task.next C) (now, i)) := by
  obtain ⟨-, -, hpeers⟩ := admitTo_peers c.shared.maxPeersPerSession sender now e
  refine ⟨fun s' e' he' p hp => ?_, fun code => ?_⟩
  · rw [Threads.shared_advance, hnext] at he'
    dsimp only at he'
    rw [Table.lookup_insert_eq] at he'
    have hearlier {e' : RouteEntry} (he' : c.shared.routes.lookup s' = some e')
        (hp : p ∈ e'.peers) : ∃ j d, (c.advance (Task.next C) (now, i)).threads j =
          .routed s' p d ∧ d ≠ .dropped := by
      obtain ⟨j, d, hj, hd⟩ := hc.peers s' e' he' p hp
      exact ⟨j, d, Threads.threads_advance_of hj (by simp [hi]), hd⟩
    split_ifs at he' with hs'
    · subst hs'
      obtain rfl := Option.some.inj he'
      rcases hpeers p hp with hp | ⟨rfl, hd⟩
      · exact hearlier hs hp
      · exact ⟨i, _, by rw [Threads.threads_advance_self, hnext], hd⟩
    · exact hearlier he' hp
  · rw [Threads.shared_advance, hnext]
    refine (hc.rooms code).trans (exists_congr fun j => ?_)
    exact ⟨fun hj => Threads.threads_advance_of hj (by simp [hi]),
      fun hj => Threads.threads_of_advance hj (by simp [hnext])⟩

end Admitted

/-! ### The insertion of a session -/

section Inserting

variable (hi : c.threads i = .inserting s sender)

include hi

omit [DecidableEq ι] in
theorem next_inserting (C : Crypto) (now : ℕ) :
    (c.threads i).next C now c.shared = (.routed s sender .registered,
    { c.shared with routes := c.shared.routes.insert s (firstEntry sender now) }) := by
  rw [hi]
  rfl

/-- The insertion is right exactly when nobody else has begun the session since, and its place
is still free. -/
theorem kept_inserting_iff (hc : Kept c) (ha : Answered c) :
    Kept (c.advance (Task.next C) (now, i)) ↔ Undisturbed c (now, i) := by
  have hnext := next_inserting hi C now
  have hshared : (c.advance (Task.next C) (now, i)).shared =
      { c.shared with routes := c.shared.routes.insert s (firstEntry sender now) } := by
    rw [Threads.shared_advance, hnext]
  have hundisturbed : Undisturbed c (now, i) ↔ match c.shared.routes.lookup s with
      | none => Table.size c.shared.routes < c.shared.maxSessions
      | some e => ∀ p ∈ e.peers, p = sender := by
    rw [Undisturbed, hi]
  rw [hundisturbed]
  constructor
  · intro hkept
    cases hs : c.shared.routes.lookup s with
    | none =>
      have hsize := hkept.size
      rw [hshared] at hsize
      dsimp only at hsize
      rwa [Table.size_insert_of_notMem (Finmap.lookup_eq_none.mp hs)] at hsize
    | some e =>
      intro p hp
      -- whoever is in the entry was told so, and is still there only if it is the caller
      obtain ⟨j, d, hj, hd⟩ := ha.peers s e hs p hp
      obtain ⟨e', he', hp'⟩ := hkept.registered j s p d
        (Threads.threads_advance_of hj (by simp [hi])) hd
      rw [hshared] at he'
      obtain rfl := Option.some.inj ((Finmap.lookup_insert _).symm.trans he')
      exact List.mem_singleton.mp hp'
  · intro hfree
    refine ⟨fun j s' p d hj hd => ?_, ?_, fun j k code hj hk => ?_⟩
    · rw [hshared]
      by_cases hself : Task.routed s' p d = .routed s sender .registered
      · obtain ⟨rfl, rfl, -⟩ := Task.routed.inj hself
        exact ⟨_, Finmap.lookup_insert _, List.mem_singleton_self _⟩
      · have hbefore := Threads.threads_of_advance hj (by rw [hnext]; exact hself)
        refine hc.registered_insert (fun e' he' p hp => ?_) hbefore hd
        rw [he'] at hfree
        exact List.mem_singleton.mpr (hfree p hp)
    · rw [hshared]
      dsimp only
      cases hs : c.shared.routes.lookup s with
      | none =>
        rw [hs] at hfree
        rw [Table.size_insert_of_notMem (Finmap.lookup_eq_none.mp hs)]
        exact hfree
      | some e =>
        exact (Table.size_insert_of_mem (Finmap.mem_iff.mpr ⟨e, hs⟩) _).trans_le hc.size
    · exact hc.created j k code (Threads.threads_of_advance hj (by simp [hnext]))
        (Threads.threads_of_advance hk (by simp [hnext]))

theorem answered_inserting (ha : Answered c) : Answered (c.advance (Task.next C) (now, i)) := by
  have hnext := next_inserting hi C now
  refine ⟨fun s' e' he' p hp => ?_, fun code => ?_⟩
  · rw [Threads.shared_advance, hnext] at he'
    dsimp only at he'
    rw [Table.lookup_insert_eq] at he'
    split_ifs at he' with hs'
    · subst hs'
      obtain rfl := Option.some.inj he'
      obtain rfl := List.mem_singleton.mp hp
      exact ⟨i, .registered, by rw [Threads.threads_advance_self, hnext], by simp⟩
    · obtain ⟨j, d, hj, hd⟩ := ha.peers s' e' he' p hp
      exact ⟨j, d, Threads.threads_advance_of hj (by simp [hi]), hd⟩
  · rw [Threads.shared_advance, hnext]
    refine (ha.rooms code).trans (exists_congr fun j => ?_)
    exact ⟨fun hj => Threads.threads_advance_of hj (by simp [hi]),
      fun hj => Threads.threads_of_advance hj (by simp [hnext])⟩

end Inserting

/-! ### The insertion of a room -/

section Creating

variable {code : String} {token : Option String} (hi : c.threads i = .creating code s token)

include hi

omit [DecidableEq ι] in
theorem next_creating (C : Crypto) (now : ℕ) :
    (c.threads i).next C now c.shared = (.created code true,
    { c.shared with rooms := c.shared.rooms.insert code (.new C s token) }) := by
  rw [hi]
  rfl

theorem kept_creating_iff (hc : Kept c) (ha : Answered c) :
    Kept (c.advance (Task.next C) (now, i)) ↔ Undisturbed c (now, i) := by
  have hnext := next_creating hi C now
  have hundisturbed : Undisturbed c (now, i) ↔ code ∉ c.shared.rooms := by
    rw [Undisturbed, hi]
  rw [hundisturbed]
  constructor
  · intro hkept hcode
    obtain ⟨j, hj⟩ := (ha.rooms code).mp hcode
    have hself : (c.advance (Task.next C) (now, i)).threads i = .created code true := by
      rw [Threads.threads_advance_self, hnext]
    obtain rfl := hkept.created j i code (Threads.threads_advance_of hj (by simp [hi])) hself
    rw [hi] at hj
    cases hj
  · intro hfree
    have hnone (j : ι) : c.threads j ≠ .created code true := fun hj =>
      hfree ((ha.rooms code).mpr ⟨j, hj⟩)
    refine ⟨fun j s' p d hj hd => ?_, ?_, fun j k code' hj hk => ?_⟩
    · rw [Threads.shared_advance, hnext]
      exact hc.registered j s' p d (Threads.threads_of_advance hj (by simp [hnext])) hd
    · rw [Threads.shared_advance, hnext]
      exact hc.size
    · by_cases hcode : code' = code
      · subst hcode
        have honly {j : ι} (hj : (c.advance (Task.next C) (now, i)).threads j =
            .created code' true) : j = i := by
          by_contra hne
          rw [Threads.threads_advance_of_ne hne] at hj
          exact hnone j hj
        rw [honly hj, honly hk]
      · exact hc.created j k code' (Threads.threads_of_advance hj (by simp [hnext, hcode]))
          (Threads.threads_of_advance hk (by simp [hnext, hcode]))

theorem answered_creating (ha : Answered c) : Answered (c.advance (Task.next C) (now, i)) := by
  have hnext := next_creating hi C now
  refine ⟨fun s' e' he' p hp => ?_, fun code' => ?_⟩
  · rw [Threads.shared_advance, hnext] at he'
    obtain ⟨j, d, hj, hd⟩ := ha.peers s' e' he' p hp
    exact ⟨j, d, Threads.threads_advance_of hj (by simp [hi]), hd⟩
  · rw [Threads.shared_advance, hnext]
    dsimp only
    rw [Finmap.mem_insert, ha.rooms]
    constructor
    · rintro (rfl | ⟨j, hj⟩)
      · exact ⟨i, by rw [Threads.threads_advance_self, hnext]⟩
      · exact ⟨j, Threads.threads_advance_of hj (by simp [hi])⟩
    · rintro ⟨j, hj⟩
      by_cases hcode : code' = code
      · exact .inl hcode
      · exact .inr ⟨j, Threads.threads_of_advance hj (by simp [hnext, hcode])⟩

end Creating

/-! ## Whole runs -/

theorem kept_advance_iff (hc : Kept c) (ha : Answered c) (x : ℕ × ι) :
    Kept (c.advance (Task.next C) x) ↔ Undisturbed c x := by
  obtain ⟨now, i⟩ := x
  rcases advance_cases (C := C) c now i with ⟨hquiet, hundisturbed⟩ |
    ⟨s, sender, e, hi, hs, hnext⟩ | ⟨s, sender, hi⟩ | ⟨code, s, token, hi⟩
  · exact iff_of_true (hquiet.kept hc) hundisturbed
  · refine iff_of_true (kept_admitted hs hnext hc) ?_
    simp [Undisturbed, hi]
  · exact kept_inserting_iff hi hc ha
  · exact kept_creating_iff hi hc ha

theorem answered_advance (ha : Answered c) (x : ℕ × ι) :
    Answered (c.advance (Task.next C) x) := by
  obtain ⟨now, i⟩ := x
  rcases advance_cases (C := C) c now i with ⟨hquiet, -⟩ |
    ⟨s, sender, e, hi, hs, hnext⟩ | ⟨s, sender, hi⟩ | ⟨code, s, token, hi⟩
  · exact hquiet.answered ha
  · exact answered_admitted hi hs hnext ha
  · exact answered_inserting hi ha
  · exact answered_creating hi ha

/-- Nobody is lost, no session too many begun and no code created twice in any state of a run,
exactly when every insertion of the run comes undisturbed. -/
theorem registration_iff (C : Crypto) (calls : ι → Task) (hcalls : ∀ i, (calls i).IsCall)
    (maxSessions maxPeersPerSession : ℕ) (schedule : List (ℕ × ι)) :
    let start : Threads ι Router Task := ⟨new maxSessions maxPeersPerSession, calls⟩
    (∀ done, done <+: schedule → Kept (done.foldl (Threads.advance (Task.next C)) start)) ↔
      Run.Along (Threads.advance (Task.next C)) Undisturbed start schedule := by
  intro start
  have hnone (i : ι) {t : Task} (ht : ¬t.IsCall) : calls i ≠ t := by
    rintro rfl
    exact ht (hcalls i)
  have hkept : Kept start :=
    ⟨fun i _ _ _ hi => absurd hi (hnone i not_false), Nat.zero_le _,
      fun i _ _ hi => absurd hi (hnone i not_false)⟩
  have hanswered : Answered start :=
    ⟨nofun, fun code => iff_of_false Finmap.notMem_empty fun ⟨i, hi⟩ =>
      hnone i (t := .created code true) not_false hi⟩
  exact Run.good_iff_along hanswered hkept (fun _ x ha hc => kept_advance_iff hc ha x)
    fun _ x ha _ _ => answered_advance ha x

/-- Two packets of one session, one after the other. -/
theorem registration_in_turn :
    let a := SessionEndpoint.udp (.v4 #v[10, 0, 0, 1] 40000)
    let start : Threads (Fin 2) Router Task := ⟨new 4 4, ![.route 7 a, .route 7 (.webSocket 1)]⟩
    let schedule := [(0, 0), (0, 0), (0, 0), (1, 1)]
    ∀ done, done <+: schedule →
      Kept (done.foldl (Threads.advance (Task.next Crypto.toy)) start) := by
  intro a start schedule
  exact (registration_iff Crypto.toy ![.route 7 a, .route 7 (.webSocket 1)]
    (by intro i; fin_cases i <;> trivial) 4 4 schedule).mpr (by decide)

/-- The first two packets of a session find no entry, and both begin it: the first sender was
told it is registered, and is not. Two creations of a code that alternate both succeed. -/
theorem registration_interleaved :
    let a := SessionEndpoint.udp (.v4 #v[10, 0, 0, 1] 40000)
    let b := SessionEndpoint.webSocket 1
    let begun : Threads (Fin 2) Router Task := ⟨new 4 4, ![.route 7 a, .route 7 b]⟩
    let routed := [(0, 0), (0, 1), (0, 0), (0, 1), (0, 0), (0, 1)].foldl
      (Threads.advance (Task.next Crypto.toy)) begun
    let asked : Threads (Fin 2) Router Task :=
      ⟨new 4 4, ![.registerRoom "GT" 1 none, .registerRoom "GT" 2 none]⟩
    let created := [(0, 0), (0, 1), (0, 0), (0, 1)].foldl
      (Threads.advance (Task.next Crypto.toy)) asked
    (routed.threads 0 = .routed 7 a .registered ∧ ¬Kept routed) ∧
      created.threads 0 = .created "GT" true ∧ created.threads 1 = .created "GT" true := by
  intro a b begun routed asked created
  have hreturned : routed.threads 0 = .routed 7 a .registered := by decide
  have hentry : routed.shared.routes.lookup 7 = some (firstEntry b 0) := by decide
  refine ⟨⟨hreturned, fun hkept => ?_⟩, by decide, by decide⟩
  obtain ⟨e, he, ha⟩ := hkept.registered 0 7 a .registered hreturned (by decide)
  rw [hentry] at he
  obtain rfl := Option.some.inj he
  exact absurd ha (by decide)

end GravitalTalk.Router
