import GravitalTalk.Relay.Routing

/-!
# The floor of a session

Once the floor is granted nobody gets it again before its holder has released it,
has had it for too long, or the session is gone. Every call but these leaves the
holder on the floor.
-/
namespace GravitalTalk.Router

open RouteEntry

variable {r : Router} {s : UInt32} {p : SocketAddr} {since : ℕ}

/-- `p` is on the floor of `s` since that instant. -/
def Holds (s : UInt32) (p : SocketAddr) (since : ℕ) (r : Router) : Prop :=
  ∃ e, r.routes.lookup s = some e ∧ e.floorHolder = some p ∧ e.floorGrantedAt = some since

/-- A call that ends the hold of `p`: its own release succeeds, or the session is evicted. -/
def Ends (s : UInt32) (p : SocketAddr) (r : Router) (x : ℕ × Op) : Prop :=
  x.2 = .floorRelease s p ∧ (r.floorRelease s p x.1).1.isReleased = true ∨
    ∃ maxAgeSecs isClosed, x.2 = .evictIdle maxAgeSecs isClosed ∧
      s ∈ r.routes ∧ s ∉ (r.evictIdle maxAgeSecs isClosed x.1).routes

theorem not_free_of_holder {e : RouteEntry} {now : ℕ} (hh : e.floorHolder = some p)
    (hg : e.floorGrantedAt = some since) (hnow : now - since ≤ floorMaxHold) :
    e.floorIsFree now = false := by
  rw [floorIsFree, hh, hg]
  exact decide_eq_false (Nat.not_lt.mpr hnow)

/-- What a granted request leaves behind. -/
theorem holds_of_granted {now : ℕ} (h : (r.floorRequest s p now).1.isGranted = true) :
    (r.floorRequest s p now).2.Holds s p now := by
  unfold floorRequest at h ⊢
  cases hs : r.routes.lookup s with
  | none =>
    rw [onEntry, hs] at h
    cases h
  | some e =>
    rw [onEntry_eq s _ hs] at h ⊢
    rcases requestOn_cases p now e with ⟨-, hsame⟩ | ⟨-, -, hsame⟩ | ⟨-, -, hgranted⟩
    · rw [hsame] at h
      cases h
    · rw [hsame] at h
      cases h
    · refine ⟨(requestOn p now e).2, Finmap.lookup_insert _, ?_, ?_⟩
      · rw [hgranted]
      · rw [hgranted]

/-- While `p` is on the floor for no more than the time allowed, nobody is granted it. -/
theorem Holds.not_granted (h : r.Holds s p since) {now : ℕ} (hnow : now - since ≤ floorMaxHold)
    (q : SocketAddr) : (r.floorRequest s q now).1.isGranted = false := by
  obtain ⟨e, he, hh, hg⟩ := h
  rw [floorRequest, onEntry_eq s _ he]
  rcases requestOn_cases q now e with ⟨-, hsame⟩ | ⟨-, -, hsame⟩ | ⟨-, hfree, -⟩
  · rw [hsame]
    rfl
  · rw [hsame]
    rfl
  · rw [not_free_of_holder hh hg hnow] at hfree
    cases hfree

theorem Holds.onEntry (h : r.Holds s p since) (s' : UInt32)
    {f : RouteEntry → FloorDecision × RouteEntry}
    (hf : s' = s → ∀ e : RouteEntry, e.floorHolder = some p → e.floorGrantedAt = some since →
      (f e).2 = e) : (r.onEntry s' f).2.Holds s p since := by
  obtain ⟨e, he, hh, hg⟩ := h
  refine ⟨e, ?_, hh, hg⟩
  rw [lookup_onEntry]
  split_ifs with hs
  · rw [← hs, he, Option.map_some, hf hs.symm e hh hg]
  · exact he

theorem Holds.route (h : r.Holds s p since) (s' : UInt32) (sender : SessionEndpoint) (now : ℕ) :
    (r.route s' sender now).2.Holds s p since := by
  obtain ⟨e, he, hh, hg⟩ := h
  by_cases hs : s = s'
  · subst hs
    rcases route_cases s sender now r with ⟨hsame, -⟩ | ⟨e', -, he', hroute⟩ | ⟨-, hnone, -⟩
    · rw [hsame]
      exact ⟨e, he, hh, hg⟩
    · obtain rfl : e = e' := Option.some.inj (he.symm.trans he')
      have hfloor := admitTo_floor r.maxPeersPerSession now sender e
      rw [hroute]
      exact ⟨_, Finmap.lookup_insert _, hfloor.1.trans hh, hfloor.2.trans hg⟩
    · rw [he] at hnone
      cases hnone
  · exact ⟨e, (lookup_route_of_ne hs sender now r).trans he, hh, hg⟩

/-- One call in time keeps `p` on the floor, unless it ends the hold. -/
theorem Holds.step (h : r.Holds s p since) {x : ℕ × Op} (hnow : x.1 - since ≤ floorMaxHold) :
    (r.step x).Holds s p since ∨ Ends s p r x := by
  obtain ⟨now, op⟩ := x
  cases op with
  | route s' sender => exact .inl (h.route s' sender now)
  | floorRequest s' q =>
    left
    refine h.onEntry s' fun _ e hh hg => ?_
    rcases requestOn_cases q now e with ⟨-, hsame⟩ | ⟨-, -, hsame⟩ | ⟨-, hfree, -⟩
    · rw [hsame]
    · rw [hsame]
    · rw [not_free_of_holder hh hg hnow] at hfree
      cases hfree
  | floorRelease s' q =>
    by_cases hself : s' = s ∧ q = p
    · obtain ⟨rfl, rfl⟩ := hself
      obtain ⟨e, he, hh, hg⟩ := h
      refine .inr (.inl ⟨rfl, ?_⟩)
      rw [floorRelease, onEntry_eq _ _ he]
      rcases releaseOn_cases q now e with hdenied | ⟨-, hreleased⟩
      · have hholder : releaseOn q now e ≠ (.denied, e) := by simp [releaseOn, hh]
        exact absurd hdenied hholder
      · rw [hreleased]
        rfl
    · left
      refine h.onEntry s' fun hs e hh hg => ?_
      rcases releaseOn_cases q now e with hdenied | ⟨hq | hfree, -⟩
      · rw [hdenied]
      · exact absurd ⟨hs, Option.some.inj (hq.symm.trans hh)⟩ hself
      · rw [not_free_of_holder hh hg hnow] at hfree
        cases hfree
  | evictIdle maxAgeSecs isClosed =>
    obtain ⟨e, he, hh, hg⟩ := h
    have hlookup : (r.evictIdle maxAgeSecs isClosed now).routes.lookup s =
        keepEntry maxAgeSecs isClosed now e := by
      rw [evictIdle, Table.lookup_revise, he, Option.bind_some]
    cases hkept : keepEntry maxAgeSecs isClosed now e with
    | none =>
      refine .inr (.inr ⟨maxAgeSecs, isClosed, rfl, Finmap.mem_iff.mpr ⟨e, he⟩, ?_⟩)
      exact Finmap.lookup_eq_none.mp (hlookup.trans hkept)
    | some e' =>
      left
      have hfloor := keepEntry_floor hkept
      exact ⟨e', hlookup.trans hkept, hfloor.1.trans hh, hfloor.2.trans hg⟩

/-- Calls in time keep `p` on the floor, unless one of them ends the hold. -/
theorem Holds.run (h : r.Holds s p since) {steps : List (ℕ × Op)}
    (hnow : ∀ x ∈ steps, x.1 - since ≤ floorMaxHold) :
    (r.run steps).Holds s p since ∨
      ∃ before x after, steps = before ++ x :: after ∧ Ends s p (r.run before) x := by
  induction steps generalizing r with
  | nil => exact .inl h
  | cons x steps ih =>
    obtain ⟨hx, hsteps⟩ := List.forall_mem_cons.mp hnow
    rcases h.step hx with hstep | hends
    · rcases ih hstep hsteps with hrun | ⟨before, y, after, hsplit, hends⟩
      · exact .inl hrun
      · exact .inr ⟨x :: before, y, after, by rw [hsplit, List.cons_append], hends⟩
    · exact .inr ⟨[], x, steps, rfl, hends⟩

/-- Between two grants of one floor its first holder released it, or had it for too long, or the
session was evicted; and the holder is always one of the peers. -/
theorem floor_exclusive (maxSessions maxPeersPerSession : ℕ) :
    let start := new maxSessions maxPeersPerSession
    (∀ (before mid : List (ℕ × Op)) (s : UInt32) (p q : SocketAddr) (tp tq : ℕ),
      (((before ++ (tp, Op.floorRequest s p) :: mid) ++ [(tq, Op.floorRequest s q)]).map
        Prod.fst).Pairwise (· ≤ ·) →
      ((start.run before).floorRequest s p tp).1.isGranted = true →
      ((start.run (before ++ (tp, .floorRequest s p) :: mid)).floorRequest s q tq).1.isGranted =
        true →
      floorMaxHold < tq - tp ∨ ∃ early x late, mid = early ++ x :: late ∧
        Ends s p (start.run (before ++ (tp, .floorRequest s p) :: early)) x) ∧
    ∀ steps s e, (start.run steps).routes.lookup s = some e →
      ∀ h, e.floorHolder = some h → .udp h ∈ e.peers := by
  intro start
  constructor
  · intro before mid s p q tp tq hclock hp hq
    by_contra hnot
    obtain ⟨htime, hends⟩ := not_or.mp hnot
    have hrun (calls : List (ℕ × Op)) : start.run (before ++ (tp, .floorRequest s p) :: calls) =
        ((start.run before).floorRequest s p tp).2.run calls := by
      rw [run, List.foldl_append]
      rfl
    have hmid : ∀ x ∈ mid, x.1 - tp ≤ floorMaxHold := by
      intro x hx
      have hle : x.1 ≤ tq := by
        rw [List.map_append, List.pairwise_append] at hclock
        exact hclock.2.2 x.1 (List.mem_map_of_mem (by simp [hx])) tq (by simp)
      omega
    rcases (holds_of_granted hp).run hmid with hholds | ⟨early, x, late, hsplit, hend⟩
    · rw [hrun, hholds.not_granted (Nat.not_lt.mp htime) q] at hq
      cases hq
    · exact hends ⟨early, x, late, hsplit, by rw [hrun]; exact hend⟩
  · intro steps s e he
    exact (((valid_new maxSessions maxPeersPerSession).run steps).1.ok s e he).holder

/-- The holder releases the floor, and another peer gets it. -/
theorem floor_exclusive_released :
    let p := SocketAddr.v4 #v[10, 0, 0, 1] 40000
    let q := SocketAddr.v4 #v[10, 0, 0, 2] 40000
    let before := [(0, Op.route 7 (.udp p)), (1, Op.route 7 (.udp q))]
    let mid := [(3, Op.floorRelease 7 p)]
    let start := new 4 2
    floorMaxHold < 4 - 2 ∨ ∃ early x late, mid = early ++ x :: late ∧
      Ends 7 p (start.run (before ++ (2, .floorRequest 7 p) :: early)) x := by
  intro p q before mid start
  exact (floor_exclusive 4 2).1 before mid 7 p q 2 4 (by decide) (by decide) (by decide)

end GravitalTalk.Router
