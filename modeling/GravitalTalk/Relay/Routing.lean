import GravitalTalk.Relay.Router

/-!
# Sessions of the relay

What the routing table keeps over every run: no session zero, no more sessions and
peers than configured, no peer twice, and a floor holder that is one of the peers.
A packet goes to all other peers of its session and to nobody else.
-/
namespace GravitalTalk

namespace RouteEntry

theorem isKnown_iff {sender : SessionEndpoint} {e : RouteEntry} :
    e.isKnown sender = true ↔ sender ∈ e.peers := by
  simp [isKnown]

theorem mem_others {sender p : SessionEndpoint} {e : RouteEntry} :
    p ∈ e.others sender ↔ p ∈ e.peers ∧ p ≠ sender := by
  simp [others, ← Bool.not_eq_true]

theorem others_of_notMem {sender : SessionEndpoint} {e : RouteEntry} (h : sender ∉ e.peers) :
    e.others sender = e.peers := by
  apply List.filter_eq_self.mpr
  intro p hp
  have hne : p ≠ sender := fun he => h (he ▸ hp)
  simpa [← Bool.not_eq_true] using hne

/-- A floor that is not free has a holder that has not had it for too long. -/
theorem autoRelease_of_not_free {now : ℕ} {e : RouteEntry} (h : ¬e.floorIsFree now = true) :
    e.autoRelease now = e := by
  unfold floorIsFree at h
  unfold autoRelease
  cases hholder : e.floorHolder with
  | none => rfl
  | some holder =>
    cases hgranted : e.floorGrantedAt with
    | none => rfl
    | some granted =>
      rw [hholder, hgranted] at h
      exact if_neg (by simpa using h)

/-- No peer twice, no more of them than `max`, and the holder of the floor is one. -/
structure Ok (max : ℕ) (e : RouteEntry) : Prop where
  nodup : e.peers.Nodup
  length : e.peers.length ≤ max
  holder : ∀ h, e.floorHolder = some h → .udp h ∈ e.peers

end RouteEntry

theorem RouteDecision.to_ne_dropped (targets : List SessionEndpoint) :
    RouteDecision.to targets ≠ .dropped := by
  unfold RouteDecision.to
  split <;> simp

namespace Router

open RouteEntry

variable {max now : ℕ} {e : RouteEntry} {r : Router}

/-! ## One entry -/

/-- A packet that is not dropped leaves its sender among the peers and goes to the others. -/
theorem admitTo_spec (max now : ℕ) (sender : SessionEndpoint) (e : RouteEntry) :
    (admitTo max sender now e).1 = .dropped ∧ sender ∉ e.peers ∧
        (admitTo max sender now e).2 = { e with lastActivity := now } ∨
      sender ∈ (admitTo max sender now e).2.peers ∧
        (admitTo max sender now e).1 = .to ((admitTo max sender now e).2.others sender) := by
  unfold admitTo
  by_cases hknown : ({ e with lastActivity := now } : RouteEntry).isKnown sender = true
  · right
    dsimp only
    rw [if_pos hknown]
    exact ⟨isKnown_iff.mp hknown, rfl⟩
  · have hnew : sender ∉ e.peers := fun h => hknown (isKnown_iff.mpr h)
    dsimp only
    rw [if_neg hknown]
    split_ifs with hfull
    · exact .inl ⟨rfl, hnew, rfl⟩
    · right
      refine ⟨by simp, ?_⟩
      have hself : ([sender].filter fun p => !p.isMatch sender) = [] := by simp
      have hothers : e.others sender = e.peers := others_of_notMem hnew
      dsimp only [others] at hothers ⊢
      rw [List.filter_append, hself, hothers, List.append_nil]

theorem admitTo_ok (he : e.Ok (Nat.max 1 max)) (sender : SessionEndpoint) :
    (admitTo max sender now e).2.Ok (Nat.max 1 max) := by
  unfold admitTo
  dsimp only
  split_ifs with hknown hfull
  · exact ⟨he.nodup, he.length, he.holder⟩
  · exact ⟨he.nodup, he.length, he.holder⟩
  · have hnew : sender ∉ e.peers := fun h => hknown (isKnown_iff.mpr h)
    refine ⟨?_, ?_, fun h hh => List.mem_append_left _ (he.holder h hh)⟩
    · exact List.nodup_append.mpr ⟨he.nodup, List.nodup_singleton sender, by
        rintro a ha b hb rfl
        exact hnew (List.mem_singleton.mp hb ▸ ha)⟩
    · rw [List.length_append, List.length_singleton]
      exact (Nat.succ_le_of_lt (Nat.not_le.mp hfull)).trans (Nat.le_max_right 1 max)

/-- Routing leaves the floor alone. -/
theorem admitTo_floor (max now : ℕ) (sender : SessionEndpoint) (e : RouteEntry) :
    (admitTo max sender now e).2.floorHolder = e.floorHolder ∧
      (admitTo max sender now e).2.floorGrantedAt = e.floorGrantedAt := by
  unfold admitTo
  dsimp only
  split_ifs <;> exact ⟨rfl, rfl⟩

theorem firstEntry_ok (sender : SessionEndpoint) : (firstEntry sender now).Ok (Nat.max 1 max) :=
  ⟨List.nodup_singleton sender, Nat.le_max_left 1 max, nofun⟩

/-- A request of a stranger is ignored; one of a peer is denied, or puts it on a floor that is
free. -/
theorem requestOn_cases (sender : SocketAddr) (now : ℕ) (e : RouteEntry) :
    .udp sender ∉ e.peers ∧ requestOn sender now e = (.unknown, e) ∨
    .udp sender ∈ e.peers ∧ e.floorIsFree now = false ∧ requestOn sender now e = (.denied, e) ∨
      .udp sender ∈ e.peers ∧ e.floorIsFree now = true ∧
        requestOn sender now e = (.granted (e.others (.udp sender)),
          { e with floorHolder := some sender, floorGrantedAt := some now }) := by
  unfold requestOn
  by_cases hknown : e.isKnown (.udp sender) = true
  · have hmem := isKnown_iff.mp hknown
    rw [hknown, Bool.not_true, if_neg Bool.false_ne_true]
    by_cases hfree : e.floorIsFree now = true
    · refine .inr (.inr ⟨hmem, hfree, ?_⟩)
      dsimp only
      rw [if_pos hfree, hfree]
      rfl
    · have hheld := Bool.eq_false_of_not_eq_true hfree
      refine .inr (.inl ⟨hmem, hheld, ?_⟩)
      dsimp only
      rw [if_neg hfree, autoRelease_of_not_free hfree, hheld]
      rfl
  · left
    refine ⟨fun hmem => hknown (isKnown_iff.mpr hmem), ?_⟩
    rw [Bool.eq_false_of_not_eq_true hknown]
    rfl

theorem requestOn_ok (he : e.Ok max) (sender : SocketAddr) : (requestOn sender now e).2.Ok max := by
  rcases requestOn_cases sender now e with ⟨-, hsame⟩ | ⟨-, -, hsame⟩ | ⟨hmem, -, hgranted⟩
  · rw [hsame]
    exact he
  · rw [hsame]
    exact he
  · rw [hgranted]
    refine ⟨he.nodup, he.length, fun h hh => ?_⟩
    rw [← Option.some.inj hh]
    exact hmem

/-- A release leaves the entry, or the floor to nobody; the second only for its holder, or
when it was free. -/
theorem releaseOn_cases (sender : SocketAddr) (now : ℕ) (e : RouteEntry) :
    releaseOn sender now e = (.denied, e) ∨
      (e.floorHolder = some sender ∨ e.floorIsFree now = true) ∧
        releaseOn sender now e = (.released (e.others (.udp sender)),
          { e with floorHolder := none, floorGrantedAt := none }) := by
  unfold releaseOn
  by_cases hholder : (e.floorHolder == some sender || e.floorIsFree now) = true
  · right
    refine ⟨by simpa using hholder, ?_⟩
    rw [hholder]
    rfl
  · left
    rw [Bool.eq_false_of_not_eq_true hholder]
    rfl

theorem releaseOn_ok (he : e.Ok max) (sender : SocketAddr) : (releaseOn sender now e).2.Ok max := by
  rcases releaseOn_cases sender now e with hsame | ⟨-, hfree⟩
  · rw [hsame]
    exact he
  · rw [hfree]
    exact ⟨he.nodup, he.length, nofun⟩

/-- What is left of an entry has its floor. -/
theorem keepEntry_floor {maxAgeSecs : ℕ} {isClosed : ℕ → Bool} {e' : RouteEntry}
    (h : keepEntry maxAgeSecs isClosed now e = some e') :
    e'.floorHolder = e.floorHolder ∧ e'.floorGrantedAt = e.floorGrantedAt := by
  unfold keepEntry at h
  dsimp only at h
  split_ifs at h
  cases h
  exact ⟨rfl, rfl⟩

theorem keepEntry_ok (he : e.Ok max) {maxAgeSecs : ℕ} {isClosed : ℕ → Bool} {e' : RouteEntry}
    (h : keepEntry maxAgeSecs isClosed now e = some e') : e'.Ok max := by
  unfold keepEntry at h
  dsimp only at h
  split_ifs at h
  cases h
  refine ⟨he.nodup.filter _, (List.length_filter_le _ _).trans he.length, ?_⟩
  intro h hh
  exact List.mem_filter.mpr ⟨he.holder h hh, rfl⟩

/-! ## One call -/

theorem onEntry_eq (s : UInt32) (f : RouteEntry → FloorDecision × RouteEntry) {r : Router}
    {e : RouteEntry} (h : r.routes.lookup s = some e) :
    r.onEntry s f = ((f e).1, { r with routes := r.routes.insert s (f e).2 }) := by
  rw [onEntry, h]

theorem lookup_onEntry (s s' : UInt32) (f : RouteEntry → FloorDecision × RouteEntry) (r : Router) :
    (r.onEntry s f).2.routes.lookup s' =
      if s' = s then (r.routes.lookup s).map fun e => (f e).2 else r.routes.lookup s' := by
  unfold onEntry
  cases h : r.routes.lookup s with
  | none =>
    dsimp only
    split_ifs with hs
    · rw [hs, h]
      rfl
    · rfl
  | some e => exact Table.lookup_insert_eq _ _ _ _

/-- A packet of a session that is there changes its entry; one of another session begins it,
if there is place. -/
theorem route_cases (s : UInt32) (sender : SessionEndpoint) (now : ℕ) (r : Router) :
    r.route s sender now = (.dropped, r) ∧ (s = 0 ∨ s ∉ r.routes) ∨
      (∃ e, s ≠ 0 ∧ r.routes.lookup s = some e ∧ r.route s sender now =
        ((admitTo r.maxPeersPerSession sender now e).1,
          { r with routes :=
              r.routes.insert s (admitTo r.maxPeersPerSession sender now e).2 })) ∨
      s ≠ 0 ∧ r.routes.lookup s = none ∧ Table.size r.routes < r.maxSessions ∧
        r.route s sender now =
          (.registered, { r with routes := r.routes.insert s (firstEntry sender now) }) := by
  unfold route
  by_cases h0 : s = 0
  · rw [if_pos h0]
    exact .inl ⟨rfl, .inl h0⟩
  · rw [if_neg h0]
    cases hs : r.routes.lookup s with
    | none =>
      dsimp only
      split_ifs with hfull
      · exact .inl ⟨rfl, .inr (Finmap.lookup_eq_none.mp hs)⟩
      · exact .inr (.inr ⟨h0, rfl, Nat.not_le.mp hfull, rfl⟩)
    | some e => exact .inr (.inl ⟨e, h0, rfl, rfl⟩)

theorem lookup_route_of_ne {s s' : UInt32} (h : s' ≠ s) (sender : SessionEndpoint) (now : ℕ)
    (r : Router) : (r.route s sender now).2.routes.lookup s' = r.routes.lookup s' := by
  rcases route_cases s sender now r with ⟨he, -⟩ | ⟨e, -, -, he⟩ | ⟨-, -, -, he⟩
  · rw [he]
  · rw [he]
    exact Finmap.lookup_insert_of_ne _ h
  · rw [he]
    exact Finmap.lookup_insert_of_ne _ h

/-- What the table keeps. A session that begins has one peer, whatever the configured number. -/
structure Valid (r : Router) : Prop where
  zero : (0 : UInt32) ∉ r.routes
  size : Table.size r.routes ≤ r.maxSessions
  ok : ∀ s e, r.routes.lookup s = some e → e.Ok (Nat.max 1 r.maxPeersPerSession)

theorem valid_new (maxSessions maxPeersPerSession : ℕ) :
    (new maxSessions maxPeersPerSession).Valid :=
  ⟨Finmap.notMem_empty, Nat.zero_le _, nofun⟩

theorem Valid.insert_of_mem (hr : r.Valid) {s : UInt32} (hs : s ∈ r.routes)
    (he : e.Ok (Nat.max 1 r.maxPeersPerSession)) :
    Valid { r with routes := r.routes.insert s e } := by
  refine ⟨?_, (Table.size_insert_of_mem hs e).trans_le hr.size, fun s' e' h' => ?_⟩
  · intro h0
    rcases Finmap.mem_insert.mp h0 with h0 | h0
    · exact hr.zero (h0 ▸ hs)
    · exact hr.zero h0
  · dsimp only at h'
    rw [Table.lookup_insert_eq] at h'
    split_ifs at h' with hs'
    · exact Option.some.inj h' ▸ he
    · exact hr.ok s' e' h'

theorem Valid.onEntry (hr : r.Valid) (s : UInt32) {f : RouteEntry → FloorDecision × RouteEntry}
    (hf : ∀ e : RouteEntry, e.Ok (Nat.max 1 r.maxPeersPerSession) →
      (f e).2.Ok (Nat.max 1 r.maxPeersPerSession)) :
    (r.onEntry s f).2.Valid := by
  cases h : r.routes.lookup s with
  | none =>
    rw [Router.onEntry, h]
    exact hr
  | some e =>
    rw [onEntry_eq s f h]
    exact hr.insert_of_mem (Finmap.mem_iff.mpr ⟨e, h⟩) (hf e (hr.ok s e h))

theorem Valid.route (hr : r.Valid) (s : UInt32) (sender : SessionEndpoint) :
    (r.route s sender now).2.Valid := by
  rcases route_cases s sender now r with ⟨he, -⟩ | ⟨e, -, hs, he⟩ | ⟨h0, hs, hsize, he⟩
  · rw [he]
    exact hr
  · rw [he]
    exact hr.insert_of_mem (Finmap.mem_iff.mpr ⟨e, hs⟩) (admitTo_ok (hr.ok s e hs) sender)
  · rw [he]
    refine ⟨?_, ?_, fun s' e' h' => ?_⟩
    · intro hmem
      rcases Finmap.mem_insert.mp hmem with hmem | hmem
      · exact h0 hmem.symm
      · exact hr.zero hmem
    · change Table.size (r.routes.insert s _) ≤ r.maxSessions
      rw [Table.size_insert_of_notMem (Finmap.lookup_eq_none.mp hs)]
      exact hsize
    · dsimp only at h'
      rw [Table.lookup_insert_eq] at h'
      split_ifs at h' with hs'
      · exact Option.some.inj h' ▸ firstEntry_ok sender
      · exact hr.ok s' e' h'

theorem Valid.evictIdle (hr : r.Valid) (maxAgeSecs : ℕ) (isClosed : ℕ → Bool) :
    (r.evictIdle maxAgeSecs isClosed now).Valid := by
  refine ⟨fun h0 => hr.zero (Table.mem_of_mem_revise h0), ?_, fun s e' h' => ?_⟩
  · exact (Table.size_le_of_mem fun s => Table.mem_of_mem_revise).trans hr.size
  · change (Table.revise _ r.routes).lookup s = some e' at h'
    rw [Table.lookup_revise, Option.bind_eq_some_iff] at h'
    obtain ⟨e, he, hkept⟩ := h'
    exact keepEntry_ok (hr.ok s e he) hkept

@[simp] theorem maxPeersPerSession_onEntry (s : UInt32)
    (f : RouteEntry → FloorDecision × RouteEntry) (r : Router) :
    (r.onEntry s f).2.maxPeersPerSession = r.maxPeersPerSession := by
  unfold onEntry
  split <;> rfl

@[simp] theorem maxSessions_onEntry (s : UInt32)
    (f : RouteEntry → FloorDecision × RouteEntry) (r : Router) :
    (r.onEntry s f).2.maxSessions = r.maxSessions := by
  unfold onEntry
  split <;> rfl

/-- The configuration stays. -/
theorem config_step (r : Router) (x : ℕ × Op) :
    (r.step x).maxSessions = r.maxSessions ∧
      (r.step x).maxPeersPerSession = r.maxPeersPerSession := by
  obtain ⟨now, op⟩ := x
  cases op with
  | route s sender =>
    change (r.route s sender now).2.maxSessions = _ ∧ (r.route s sender now).2.maxPeersPerSession = _
    rcases route_cases s sender now r with ⟨he, -⟩ | ⟨e, -, -, he⟩ | ⟨-, -, -, he⟩ <;>
      rw [he] <;> exact ⟨rfl, rfl⟩
  | floorRequest s sender => exact ⟨maxSessions_onEntry _ _ _, maxPeersPerSession_onEntry _ _ _⟩
  | floorRelease s sender => exact ⟨maxSessions_onEntry _ _ _, maxPeersPerSession_onEntry _ _ _⟩
  | evictIdle maxAgeSecs isClosed => exact ⟨rfl, rfl⟩

theorem Valid.step (hr : r.Valid) (x : ℕ × Op) : (r.step x).Valid := by
  obtain ⟨now, op⟩ := x
  cases op with
  | route s sender => exact hr.route s sender
  | floorRequest s sender => exact hr.onEntry s fun e he => requestOn_ok he sender
  | floorRelease s sender => exact hr.onEntry s fun e he => releaseOn_ok he sender
  | evictIdle maxAgeSecs isClosed => exact hr.evictIdle maxAgeSecs isClosed

theorem Valid.run (hr : r.Valid) (steps : List (ℕ × Op)) :
    (r.run steps).Valid ∧ (r.run steps).maxSessions = r.maxSessions ∧
      (r.run steps).maxPeersPerSession = r.maxPeersPerSession := by
  induction steps generalizing r with
  | nil => exact ⟨hr, rfl, rfl⟩
  | cons x steps ih =>
    obtain ⟨hs, hp⟩ := config_step r x
    obtain ⟨hvalid, hsessions, hpeers⟩ := ih (hr.step x)
    exact ⟨hvalid, hsessions.trans hs, hpeers.trans hp⟩

/-- A packet that is not dropped: its sender is registered, and it goes to the other peers. -/
theorem route_spec {s : UInt32} {sender : SessionEndpoint}
    (h : (r.route s sender now).1 ≠ .dropped) :
    ∃ e, (r.route s sender now).2.routes.lookup s = some e ∧ sender ∈ e.peers ∧
      (r.route s sender now).1 = .to (e.others sender) := by
  rcases route_cases s sender now r with ⟨he, -⟩ | ⟨e, -, -, he⟩ | ⟨-, -, -, he⟩
  · exact absurd (by rw [he]) h
  · rw [he] at h ⊢
    refine ⟨_, Finmap.lookup_insert _, ?_⟩
    rcases admitTo_spec r.maxPeersPerSession now sender e with ⟨hd, -⟩ | hspec
    · exact absurd hd h
    · exact hspec
  · rw [he]
    have hothers : (firstEntry sender now).others sender = [] := by simp [others, firstEntry]
    refine ⟨_, Finmap.lookup_insert _, List.mem_singleton_self sender, ?_⟩
    rw [hothers]
    rfl

/-- A registered peer is never dropped. -/
theorem route_of_mem (hr : r.Valid) {s : UInt32} {sender : SessionEndpoint}
    (hs : r.routes.lookup s = some e) (hmem : sender ∈ e.peers) :
    (r.route s sender now).1 ≠ .dropped := by
  have hin : s ∈ r.routes := Finmap.mem_iff.mpr ⟨e, hs⟩
  rcases route_cases s sender now r with ⟨-, h0 | hout⟩ | ⟨e', -, hs', he⟩ | ⟨-, hnone, -⟩
  · exact absurd (h0 ▸ hin) hr.zero
  · exact absurd hin hout
  · rw [he]
    obtain rfl : e = e' := Option.some.inj (hs.symm.trans hs')
    rcases admitTo_spec r.maxPeersPerSession now sender e with ⟨-, hnew, -⟩ |
      ⟨-, hto⟩
    · exact absurd hmem hnew
    · rw [hto]
      exact RouteDecision.to_ne_dropped _
  · rw [hs] at hnone
    cases hnone

/-- The law of the routing table, over every run. -/
theorem routing_law (maxSessions maxPeersPerSession : ℕ) (hmax : 1 ≤ maxPeersPerSession)
    (steps : List (ℕ × Op)) :
    let r := (new maxSessions maxPeersPerSession).run steps
    (0 : UInt32) ∉ r.routes ∧ Table.size r.routes ≤ maxSessions ∧
    (∀ s e, r.routes.lookup s = some e →
      e.peers.Nodup ∧ e.peers.length ≤ maxPeersPerSession) ∧
    ∀ s sender now, let d := r.route s sender now
      (d.1 ≠ .dropped → ∃ e, d.2.routes.lookup s = some e ∧ sender ∈ e.peers ∧
        ((∀ p ∈ e.peers, p = sender) ∧ d.1 = .registered ∨
          ∃ targets, targets ≠ [] ∧ targets.Nodup ∧ d.1 = .broadcast targets ∧
            ∀ p, p ∈ targets ↔ p ∈ e.peers ∧ p ≠ sender)) ∧
      (∀ s', s' ≠ s → d.2.routes.lookup s' = r.routes.lookup s') ∧
      ∀ e, r.routes.lookup s = some e → sender ∈ e.peers → d.1 ≠ .dropped := by
  intro r
  have hstart := valid_new maxSessions maxPeersPerSession
  obtain ⟨hvalid, hsessions, hpeers⟩ := hstart.run steps
  refine ⟨hvalid.zero, hvalid.size.trans_eq hsessions, fun s e he => ?_, fun s sender now => ?_⟩
  · have hok := hvalid.ok s e he
    rw [hpeers] at hok
    exact ⟨hok.nodup, hok.length.trans_eq (Nat.max_eq_right hmax)⟩
  · refine ⟨fun hd => ?_, fun s' hne => lookup_route_of_ne hne sender now r,
      fun e he hmem => route_of_mem hvalid he hmem⟩
    obtain ⟨e, he, hmem, hto⟩ := route_spec hd
    have hok := (hvalid.route s sender).ok s e he
    refine ⟨e, he, hmem, ?_⟩
    by_cases hnone : e.others sender = []
    · left
      refine ⟨fun p hp => ?_, by rw [hto, hnone]; rfl⟩
      by_contra hne
      have hin := mem_others.mpr ⟨hp, hne⟩
      rw [hnone] at hin
      exact List.not_mem_nil hin
    · right
      refine ⟨e.others sender, hnone, hok.nodup.filter _, ?_, fun p => mem_others⟩
      rw [hto, RouteDecision.to, if_neg (by simpa using hnone)]

/-- Two peers of one session: the second one's packet goes to the first. -/
theorem routing_law_pair :
    let first := SessionEndpoint.udp (.v4 #v[10, 0, 0, 1] 40000)
    let second := SessionEndpoint.webSocket 3
    let r := (new 4 2).run [(0, .route 7 first), (1, .route 7 second)]
    (0 : UInt32) ∉ r.routes ∧ Table.size r.routes ≤ 4 ∧ (r.route 7 second 2).1 ≠ .dropped := by
  intro first second r
  have hlaw := routing_law 4 2 (by decide) [(0, .route 7 first), (1, .route 7 second)]
  have hentry : r.routes.lookup 7 = some ⟨[first, second], 1, none, none⟩ := by decide
  exact ⟨hlaw.1, hlaw.2.1, (hlaw.2.2.2 7 second 2).2.2 _ hentry (by simp)⟩

end Router
end GravitalTalk
