import GravitalTalk.Relay.Ingress

/-!
# Repeated requests and foreign releases

A floor message can arrive twice, late, or from somebody who has no say. What such a
message does to the floors, and whom it is told to, for every table that calls lead to.
-/
namespace GravitalTalk.Router

open RouteEntry

variable {r : Router} {s : UInt32} {sender : SocketAddr} {now : ℕ}

/-- The holder of the floor of `s`, and the time of its grant. -/
def floorState (s : UInt32) (r : Router) : Option (Option SocketAddr × Option ℕ) :=
  (r.routes.lookup s).map fun e => (e.floorHolder, e.floorGrantedAt)

/-- The registered peers of `s`. -/
def peersOf (s : UInt32) (r : Router) : List SessionEndpoint :=
  ((r.routes.lookup s).map RouteEntry.peers).getD []

/-- No floor changes. -/
def SameFloors (r r' : Router) : Prop := ∀ s, r'.floorState s = r.floorState s

theorem peersOf_eq {e : RouteEntry} (he : r.routes.lookup s = some e) : r.peersOf s = e.peers := by
  rw [peersOf, he]
  rfl

theorem onFloor_eq {e : RouteEntry} (he : r.routes.lookup s = some e) (now : ℕ) :
    r.onFloor now s = if e.floorIsFree now then none else e.floorHolder := by
  rw [onFloor, he, Option.bind_some]

theorem floorHolder_eq {e : RouteEntry} (he : r.routes.lookup s = some e) :
    r.floorHolder s = e.floorHolder := by
  rw [floorHolder, he, Option.bind_some]

/-! ## A floor that nobody holds has no time of a grant -/

def Stamped (e : RouteEntry) : Prop := e.floorHolder = none → e.floorGrantedAt = none

/-- Every entry of the table is so. -/
def AllStamped (r : Router) : Prop := ∀ s e, r.routes.lookup s = some e → Stamped e

theorem stamped_requestOn {e : RouteEntry} (he : Stamped e) (sender : SocketAddr) (now : ℕ) :
    Stamped (requestOn sender now e).2 := by
  rcases requestOn_cases sender now e with ⟨-, hsame⟩ | ⟨-, -, hsame⟩ | ⟨-, -, hgranted⟩
  · rw [hsame]
    exact he
  · rw [hsame]
    exact he
  · rw [hgranted]
    intro hnone
    cases hnone

theorem stamped_releaseOn {e : RouteEntry} (he : Stamped e) (sender : SocketAddr) (now : ℕ) :
    Stamped (releaseOn sender now e).2 := by
  rcases releaseOn_cases sender now e with hsame | ⟨-, hreleased⟩
  · rw [hsame]
    exact he
  · rw [hreleased]
    intro _
    rfl

theorem AllStamped.insert (hr : r.AllStamped) {e : RouteEntry} (he : Stamped e) (s : UInt32) :
    AllStamped { r with routes := r.routes.insert s e } := by
  intro s' e' he'
  dsimp only at he'
  rw [Table.lookup_insert_eq] at he'
  split_ifs at he' with hs
  · obtain rfl := Option.some.inj he'
    exact he
  · exact hr s' e' he'

theorem AllStamped.onEntry (hr : r.AllStamped) (s : UInt32)
    {f : RouteEntry → FloorDecision × RouteEntry} (hf : ∀ e, Stamped e → Stamped (f e).2) :
    (r.onEntry s f).2.AllStamped := by
  cases he : r.routes.lookup s with
  | none =>
    rw [Router.onEntry, he]
    exact hr
  | some e =>
    rw [onEntry_eq s f he]
    exact hr.insert (hf e (hr s e he)) s

/-- Every call keeps it. -/
theorem AllStamped.step (hr : r.AllStamped) (x : ℕ × Op) : (r.step x).AllStamped := by
  obtain ⟨now, op⟩ := x
  cases op with
  | route s sender =>
    change (r.route s sender now).2.AllStamped
    rcases route_cases s sender now r with ⟨hsame, -⟩ | ⟨e, -, he, hroute⟩ | ⟨-, -, -, hroute⟩
    · rw [hsame]
      exact hr
    · have hfloor := admitTo_floor r.maxPeersPerSession now sender e
      rw [hroute]
      apply hr.insert
      intro hnone
      rw [hfloor.1] at hnone
      rw [hfloor.2]
      exact hr s e he hnone
    · rw [hroute]
      apply hr.insert
      intro _
      rfl
  | floorRequest s sender => exact hr.onEntry s fun e he => stamped_requestOn he sender now
  | floorRelease s sender => exact hr.onEntry s fun e he => stamped_releaseOn he sender now
  | evictIdle maxAgeSecs isClosed =>
    intro s e' he'
    change (Table.revise _ r.routes).lookup s = some e' at he'
    rw [Table.lookup_revise, Option.bind_eq_some_iff] at he'
    obtain ⟨e, he, hkept⟩ := he'
    have hfloor := keepEntry_floor hkept
    intro hnone
    rw [hfloor.1] at hnone
    rw [hfloor.2]
    exact hr s e he hnone

theorem allStamped_run (maxSessions maxPeersPerSession : ℕ) (steps : List (ℕ × Op)) :
    ((new maxSessions maxPeersPerSession).run steps).AllStamped := by
  apply List.foldlRecOn
  · intro s e he
    cases he
  · exact fun r hr x _ => hr.step x

/-! ## One call -/

theorem sameFloors_onEntry {f : RouteEntry → FloorDecision × RouteEntry}
    (hf : ∀ e, r.routes.lookup s = some e →
      (f e).2.floorHolder = e.floorHolder ∧ (f e).2.floorGrantedAt = e.floorGrantedAt) :
    r.SameFloors (r.onEntry s f).2 := by
  intro s'
  unfold floorState
  rw [lookup_onEntry]
  split_ifs with hs
  · subst hs
    cases he : r.routes.lookup s' with
    | none => rfl
    | some e =>
      obtain ⟨hholder, hgranted⟩ := hf e he
      rw [Option.map_some, Option.map_some, Option.map_some, hholder, hgranted]
  · rfl

/-- A request of the peer that is on the floor takes it from nobody and gives no more time. -/
theorem sameFloors_of_onFloor (h : r.onFloor now s = some sender) :
    r.SameFloors (r.floorRequest s sender now).2 := by
  apply sameFloors_onEntry
  intro e he
  rw [onFloor_eq he] at h
  rcases requestOn_cases sender now e with ⟨-, hsame⟩ | ⟨-, -, hsame⟩ | ⟨-, hfree, -⟩
  · rw [hsame]
    exact ⟨rfl, rfl⟩
  · rw [hsame]
    exact ⟨rfl, rfl⟩
  · rw [if_pos hfree] at h
    cases h

/-- Only a registered peer can ask for the floor. -/
theorem request_of_stranger (h : .udp sender ∉ r.peersOf s) (now : ℕ) :
    (r.floorRequest s sender now).1 = .unknown ∧ r.SameFloors (r.floorRequest s sender now).2 := by
  have hrequest : ∀ e, r.routes.lookup s = some e → requestOn sender now e = (.unknown, e) := by
    intro e he
    rw [peersOf_eq he] at h
    rcases requestOn_cases sender now e with ⟨-, hsame⟩ | ⟨hmem, -⟩ | ⟨hmem, -⟩
    · exact hsame
    · exact absurd hmem h
    · exact absurd hmem h
  constructor
  · unfold floorRequest
    cases he : r.routes.lookup s with
    | none => rw [onEntry, he]
    | some e => rw [onEntry_eq s _ he, hrequest e he]
  · apply sameFloors_onEntry
    intro e he
    rw [hrequest e he]
    exact ⟨rfl, rfl⟩

/-- A release of somebody else than the holder needs a free floor. -/
theorem releaseOn_of_other {e : RouteEntry} (h : e.floorHolder ≠ some sender) (now : ℕ) :
    releaseOn sender now e = (.denied, e) ∨ e.floorIsFree now = true ∧
      releaseOn sender now e = (.released (e.others (.udp sender)),
        { e with floorHolder := none, floorGrantedAt := none }) := by
  rcases releaseOn_cases sender now e with hdenied | ⟨hholder | hfree, hreleased⟩
  · exact .inl hdenied
  · exact absurd hholder h
  · exact .inr ⟨hfree, hreleased⟩

/-- It leaves a floor that is held, or that nobody holds. -/
theorem sameFloors_release (hr : r.AllStamped) (h : r.floorHolder s ≠ some sender)
    (hcase : r.floorHolder s = none ∨ r.onFloor now s ≠ none) :
    r.SameFloors (r.floorRelease s sender now).2 := by
  apply sameFloors_onEntry
  intro e he
  rw [floorHolder_eq he] at h hcase
  rw [onFloor_eq he] at hcase
  rcases releaseOn_of_other h now with hdenied | ⟨hfree, hreleased⟩
  · rw [hdenied]
    exact ⟨rfl, rfl⟩
  · rw [hreleased]
    rw [if_pos hfree] at hcase
    rcases hcase with hnone | hheld
    · exact ⟨hnone.symm, (hr s e he hnone).symm⟩
    · exact absurd rfl hheld

/-- Nobody is told while the floor is held. -/
theorem release_silent (h : r.floorHolder s ≠ some sender) (hheld : r.onFloor now s ≠ none) :
    releaseSends s (r.floorRelease s sender now).1 = [] := by
  unfold floorRelease
  cases he : r.routes.lookup s with
  | none =>
    rw [onEntry, he]
    rfl
  | some e =>
    rw [floorHolder_eq he] at h
    rw [onFloor_eq he] at hheld
    rw [onEntry_eq s _ he]
    rcases releaseOn_of_other h now with hdenied | ⟨hfree, -⟩
    · rw [hdenied]
      rfl
    · rw [if_pos hfree] at hheld
      exact absurd rfl hheld

/-- After the time of the holder the release of any peer frees the floor, which all other peers
are told. -/
theorem release_overdue (hholder : r.floorHolder s ≠ none) (hover : r.onFloor now s = none)
    (sender : SocketAddr) : (r.floorRelease s sender now).2.floorState s = some (none, none) ∧
      (r.floorRelease s sender now).1 = .released (r.othersOf s (.udp sender)) := by
  cases he : r.routes.lookup s with
  | none =>
    rw [floorHolder, he] at hholder
    exact absurd rfl hholder
  | some e =>
    rw [floorHolder_eq he] at hholder
    rw [onFloor_eq he] at hover
    have hfree : e.floorIsFree now = true := by
      by_contra hheld
      rw [if_neg hheld] at hover
      exact hholder hover
    have hreleased : releaseOn sender now e = (.released (e.others (.udp sender)),
        { e with floorHolder := none, floorGrantedAt := none }) := by
      rw [releaseOn, hfree, Bool.or_true]
      rfl
    unfold floorRelease floorState othersOf
    rw [onEntry_eq s _ he, hreleased, he]
    dsimp only
    rw [Finmap.lookup_insert]
    exact ⟨rfl, rfl⟩

/-- The law of floor messages that arrive again or from somebody else, over every run. -/
theorem floor_answers (maxSessions maxPeersPerSession : ℕ) (steps : List (ℕ × Op)) (s : UInt32)
    (sender : SocketAddr) (now : ℕ) :
    let r := (new maxSessions maxPeersPerSession).run steps
    let request := r.floorRequest s sender now
    let release := r.floorRelease s sender now
    (r.onFloor now s = some sender → r.SameFloors request.2) ∧
    (.udp sender ∉ r.peersOf s → request.1 = .unknown ∧ grantSends s sender request.1 = [] ∧
      r.SameFloors request.2) ∧
    (r.floorHolder s ≠ some sender →
      (r.floorHolder s = none ∨ r.onFloor now s ≠ none → r.SameFloors release.2) ∧
      (r.onFloor now s ≠ none → releaseSends s release.1 = []) ∧
      (r.floorHolder s ≠ none → r.onFloor now s = none → .udp sender ∈ r.peersOf s →
        release.2.floorState s = some (none, none) ∧
        releaseSends s release.1 =
          (r.othersOf s (.udp sender)).map fun other => (other, .floor .floorRelease s))) := by
  intro r request release
  have hstamped : r.AllStamped := allStamped_run maxSessions maxPeersPerSession steps
  refine ⟨sameFloors_of_onFloor, ?_, ?_⟩
  · intro hstranger
    obtain ⟨hunknown, hsame⟩ := request_of_stranger hstranger now
    refine ⟨hunknown, ?_, hsame⟩
    have hrequest : request.1 = .unknown := hunknown
    rw [hrequest]
    rfl
  · intro hother
    refine ⟨sameFloors_release hstamped hother, release_silent hother, ?_⟩
    intro hholder hover _
    obtain ⟨hfree, htold⟩ := release_overdue hholder hover sender
    have hrelease : release.1 = .released (r.othersOf s (.udp sender)) := htold
    rw [hrelease]
    exact ⟨hfree, rfl⟩

/-- The peer on the floor asks again and is denied; a stranger releases a floor that nobody holds
and the peers are told; a peer that is not the holder releases the floor after its time. -/
theorem floor_answers_broken :
    let p := SocketAddr.v4 #v[10, 0, 0, 1] 40000
    let q := SocketAddr.v4 #v[10, 0, 0, 2] 40000
    let stranger := SocketAddr.v4 #v[10, 0, 0, 3] 40000
    let free := (new 4 2).run [(0, .route 7 (.udp p)), (1, .route 7 (.udp q))]
    let held := free.step (2, .floorRequest 7 p)
    (held.onFloor 3 7 = some p ∧ (held.floorRequest 7 p 3).1 = .denied ∧
      grantSends 7 p (held.floorRequest 7 p 3).1 = [(.udp p, .floor .floorDeny 7)]) ∧
    (.udp stranger ∉ free.peersOf 7 ∧ free.floorHolder 7 = none ∧
      releaseSends 7 (free.floorRelease 7 stranger 3).1 =
        [(.udp p, .floor .floorRelease 7), (.udp q, .floor .floorRelease 7)]) ∧
    (.udp q ∈ held.peersOf 7 ∧ held.floorHolder 7 ≠ some q ∧
      (held.floorRelease 7 q (floorMaxHold + 3)).2.floorState 7 = some (none, none) ∧
      held.floorState 7 = some (some p, some 2)) := by
  decide +kernel

end GravitalTalk.Router
