import GravitalTalk.Relay.Control

/-!
# The directory of rooms

What the relay says of a room code follows from what it said before: from the last
time it gave the code to somebody, unless somebody had it deleted since.
-/
namespace GravitalTalk

/-! ## What touches the rooms -/

namespace Router

def withRooms (rooms : Table String RoomEntry) (r : Router) : Router := { r with rooms := rooms }

variable (rooms : Table String RoomEntry)

@[simp] theorem routes_withRooms (r : Router) : (r.withRooms rooms).routes = r.routes := rfl

@[simp] theorem maxSessions_withRooms (r : Router) :
    (r.withRooms rooms).maxSessions = r.maxSessions := rfl

/-! Datagrams are forwarded without a look at the rooms. -/

theorem route_withRooms (s : UInt32) (sender : SessionEndpoint) (now : ℕ) (r : Router) :
    (r.withRooms rooms).route s sender now =
      ((r.route s sender now).1, (r.route s sender now).2.withRooms rooms) := by
  unfold route
  split
  · rfl
  · rw [routes_withRooms, maxSessions_withRooms]
    cases r.routes.lookup s with
    | some e => rfl
    | none =>
      dsimp only
      split
      · rfl
      · rfl

theorem onEntry_withRooms (s : UInt32) (f : RouteEntry → FloorDecision × RouteEntry)
    (r : Router) :
    (r.withRooms rooms).onEntry s f = ((r.onEntry s f).1, (r.onEntry s f).2.withRooms rooms) := by
  unfold onEntry
  rw [routes_withRooms]
  cases r.routes.lookup s with
  | some e => rfl
  | none => rfl

theorem forward_withRooms (datagram : Bytes) (s : UInt32) (sender : SessionEndpoint) (now : ℕ)
    (r : Router) : (r.withRooms rooms).forward datagram s sender now =
      ((r.forward datagram s sender now).1,
        (r.forward datagram s sender now).2.withRooms rooms) := by
  unfold forward
  rw [route_withRooms]

theorem udpIngress_withRooms (datagram : Bytes) (sender : SocketAddr) (now : ℕ) (r : Router) :
    (r.withRooms rooms).udpIngress datagram sender now =
      ((r.udpIngress datagram sender now).1,
        (r.udpIngress datagram sender now).2.withRooms rooms) := by
  unfold udpIngress
  split
  · rfl
  · split
    · rfl
    · dsimp only
      split
      · unfold floorRequest
        rw [route_withRooms, onEntry_withRooms]
      · unfold floorRelease
        rw [onEntry_withRooms]
      · rw [forward_withRooms]

theorem wsIngress_withRooms (datagram : Bytes) (channel now : ℕ) (r : Router) :
    (r.withRooms rooms).wsIngress datagram channel now =
      ((r.wsIngress datagram channel now).1,
        (r.wsIngress datagram channel now).2.withRooms rooms) := by
  unfold wsIngress
  split
  · rfl
  · rw [forward_withRooms]

theorem rooms_udpIngress (datagram : Bytes) (sender : SocketAddr) (now : ℕ) (r : Router) :
    (r.udpIngress datagram sender now).2.rooms = r.rooms :=
  congrArg (fun d => d.2.rooms) (udpIngress_withRooms r.rooms datagram sender now r)

theorem rooms_wsIngress (datagram : Bytes) (channel now : ℕ) (r : Router) :
    (r.wsIngress datagram channel now).2.rooms = r.rooms :=
  congrArg (fun d => d.2.rooms) (wsIngress_withRooms r.rooms datagram channel now r)

end Router

namespace Control

open Observability Rooms Trace

variable {C : Crypto}

/-- What a client is told of the room that it created. -/
def createdBody (code : String) (sessionId : UInt32) : String :=
  "\x7b\"code\":\"" ++ code ++ "\",\"session_id\":" ++ toString sessionId.toNat ++ "\x7d"

/-- A client was told that it has the code for the session, which `given` protects. -/
inductive Created (code : String) (sessionId : UInt32) (given : Option String) :
    (Moment × Event) × Answer → Prop
  | http {m : Moment} {request : Request} (method : request.method = .post)
      (path : request.path = "/api/rooms")
      (session : extractSessionId request.body = some sessionId)
      (token : extractToken request.body = given) :
      Created code sessionId given
        ((m, .http request), .response (jsonResponse 201 (createdBody code sessionId)))
  | grpc {m : Moment} {text : String} {peers : Int32} (token : tokenOf text = given) :
      Created code sessionId given
        ((m, .grpc (.createRoom sessionId text)), .reply (.room ⟨code, sessionId, peers⟩))

/-- A client asked to delete the room. -/
inductive Deleted (code : String) : (Moment × Event) × Answer → Prop
  | http {m : Moment} {request : Request} {answer : Answer} (method : request.method = .delete)
      (path : request.path = "/api/rooms/" ++ code) : Deleted code ((m, .http request), answer)
  | grpc {m : Moment} {answer : Answer} : Deleted code ((m, .grpc (.deleteRoom code)), answer)

/-- What a request makes of the rooms. -/
inductive Writes (C : Crypto) (rooms : Table String RoomEntry) (y : (Moment × Event) × Answer) :
    Table String RoomEntry → Prop
  | nothing (created : ∀ code s given, ¬ Created code s given y)
      (deleted : ∀ code, ¬ Deleted code y) : Writes C rooms y rooms
  | create {code : String} {s : UInt32} {given : Option String} (fresh : code ∉ rooms)
      (valid : isValidCode code = true)
      (created : ∀ code' s' given', Created code' s' given' y ↔
        code' = code ∧ s' = s ∧ given' = given)
      (deleted : ∀ code, ¬ Deleted code y) : Writes C rooms y (rooms.insert code (.new C s given))
  | delete {code : String} (created : ∀ code s given, ¬ Created code s given y)
      (deleted : ∀ code', Deleted code' y ↔ code' = code) : Writes C rooms y (rooms.erase code)

/-- A code leads to a room when it was given to somebody, or was there before, and was not
deleted. -/
theorem Writes.lookup_iff {rooms rooms' : Table String RoomEntry} {y : (Moment × Event) × Answer}
    (h : Writes C rooms y rooms') (code : String) (entry : RoomEntry) :
    rooms'.lookup code = some entry ↔
      (∃ s given, Created code s given y ∧ entry = .new C s given) ∨
        rooms.lookup code = some entry ∧ ¬ Deleted code y := by
  cases h with
  | nothing created deleted =>
    constructor
    · exact fun hlookup => .inr ⟨hlookup, deleted code⟩
    · rintro (⟨s, given, hcreated, -⟩ | ⟨hlookup, -⟩)
      · exact absurd hcreated (created code s given)
      · exact hlookup
  | @create new s given fresh valid created deleted =>
    rw [Table.lookup_insert_eq]
    by_cases hcode : code = new
    · subst hcode
      have hnone : rooms.lookup code = none := Finmap.lookup_eq_none.mpr fresh
      simp [created, hnone, eq_comm]
    · have hother : ∀ s given, ¬ Created code s given y := by
        intro s' given' hcreated
        exact hcode ((created _ _ _).mp hcreated).1
      simp [hcode, hother, deleted]
  | @delete old created deleted =>
    rw [Table.lookup_erase_eq]
    by_cases hcode : code = old
    · simp [created, deleted, hcode]
    · simp [created, deleted, hcode]

/-! ## One step -/

/-- The line end that `json_response` adds is not what tells two bodies apart. -/
theorem jsonResponse_inj {status : ℕ} {body body' : String} (h : body ≠ body' ++ "\n")
    (h' : body' ≠ body ++ "\n") (hsame : jsonResponse status body = jsonResponse status body') :
    body = body' := by
  have hbody := congrArg Response.body hsame
  unfold jsonResponse at hbody
  dsimp only at hbody
  split at hbody
  · split at hbody
    · exact hbody
    · exact absurd hbody h
  · split at hbody
    · exact absurd hbody.symm h'
    · simpa using hbody

/-- Two rooms of one session are told apart. -/
theorem jsonResponse_createdBody {code code' : String} {s : UInt32}
    (h : jsonResponse 201 (createdBody code s) = jsonResponse 201 (createdBody code' s)) :
    code = code' := by
  have hline (code code' : String) : createdBody code s ≠ createdBody code' s ++ "\n" := by
    intro h
    have hlast := congrArg (fun t => t.toList.getLast?) h
    simp only [createdBody, String.toList_append] at hlast
    exact absurd ((List.getLast?_concat.symm.trans hlast).trans List.getLast?_concat) (by decide)
  simpa [createdBody] using jsonResponse_inj (hline code code') (hline code' code) h

theorem created_http {m : Moment} {request : Request} {response : Response} {code : String}
    {s : UInt32} {given : Option String}
    (h : Created code s given ((m, .http request), .response response)) :
    request.method = .post ∧ request.path = "/api/rooms" ∧
      extractSessionId request.body = some s ∧ extractToken request.body = given ∧
      response = jsonResponse 201 (createdBody code s) := by
  cases h with
  | http method path session token => exact ⟨method, path, session, token, rfl⟩

/-- Either no room is made of a body or the one that is announced. -/
theorem handleCreateRoom_cases (C : Crypto) (body : Bytes) (code : String) (r : Router) :
    (∃ response : Response, response.status ≠ 201 ∧
        handleCreateRoom C body code r = (response, r)) ∨
      ∃ s, extractSessionId body = some s ∧ code ∉ r.rooms ∧
        handleCreateRoom C body code r = (jsonResponse 201 (createdBody code s),
          { r with rooms := r.rooms.insert code (.new C s (extractToken body)) }) := by
  unfold handleCreateRoom
  cases hsession : extractSessionId body with
  | none => exact .inl ⟨_, by decide, rfl⟩
  | some s =>
    dsimp only
    by_cases hzero : s = 0
    · rw [if_pos hzero]
      exact .inl ⟨_, by decide, rfl⟩
    · rw [if_neg hzero]
      by_cases hcode : code ∈ r.rooms
      · rw [Router.registerRoom, if_pos hcode]
        exact .inl ⟨_, by decide, rfl⟩
      · rw [Router.registerRoom, if_neg hcode]
        exact .inr ⟨s, rfl, hcode, rfl⟩

theorem stripPrefix_eq_some {start s rest : String} :
    stripPrefix start s = some rest ↔ s = start ++ rest := by
  rw [stripPrefix, Option.map_eq_some_iff]
  constructor
  · rintro ⟨tail, htail, rfl⟩
    obtain ⟨p, hs, hp⟩ := List.dropPrefix?_eq_some_iff.mp htail
    rw [eq_of_beq hp] at hs
    apply String.toList_inj.mp
    rw [hs, String.toList_append, String.toList_ofList]
  · rintro rfl
    refine ⟨rest.toList, List.dropPrefix?_eq_some_iff.mpr ?_, String.ofList_toList⟩
    exact ⟨start.toList, String.toList_append, beq_self_eq_true _⟩

theorem not_created_of_status {m : Moment} {request : Request} {response : Response}
    (h : response.status ≠ 201) (code : String) (s : UInt32) (given : Option String) :
    ¬ Created code s given ((m, .http request), .response response) := by
  intro hcreated
  obtain ⟨-, -, -, -, rfl⟩ := created_http hcreated
  exact h rfl

theorem not_created_of_path {m : Moment} {request : Request} {answer : Answer}
    (h : request.path ≠ "/api/rooms") (code : String) (s : UInt32) (given : Option String) :
    ¬ Created code s given ((m, .http request), answer) := by
  rintro ⟨-, hpath⟩
  exact h hpath

theorem deleted_http {m : Moment} {request : Request} {answer : Answer} {code : String} :
    Deleted code ((m, .http request), answer) ↔
      request.method = .delete ∧ stripPrefix "/api/rooms/" request.path = some code := by
  rw [stripPrefix_eq_some]
  constructor
  · rintro ⟨hmethod, hpath⟩
    exact ⟨hmethod, hpath⟩
  · exact fun h => .http h.1 h.2

theorem rooms_handleDeleteRoom (code : String) (r : Router) :
    (handleDeleteRoom code r).2.rooms = r.rooms.erase code := by
  have hrooms : (r.removeRoom code).2.rooms = r.rooms.erase code := rfl
  unfold handleDeleteRoom
  split
  · next h => rw [← hrooms, h]
  · next h => rw [← hrooms, h]

theorem writes_handle (C : Crypto) (m : Moment) (request : Request) (s : Relay) :
    Writes C s.router.rooms ((m, .http request), .response (handle C m request s).1)
      (handle C m request s).2.router.rooms := by
  have hfixed {path : String} (hpath : request.path = path)
      (hother : stripPrefix "/api/rooms/" path = none) (answer : Answer) (code : String) :
      ¬ Deleted code ((m, .http request), answer) := by
    rw [deleted_http, hpath, hother]
    exact fun h => nomatch h.2
  unfold handle
  split
  · next hpath =>
    exact .nothing (not_created_of_status (show 200 ≠ 201 by decide)) (hfixed hpath (by decide) _)
  split
  · next hpath =>
    refine .nothing (not_created_of_path ?_) (hfixed hpath (by decide) _)
    rw [hpath]
    decide
  split
  · next hpath =>
    have hkept := hfixed hpath (by decide)
    split
    · exact .nothing (not_created_of_status (show 200 ≠ 201 by decide)) (hkept _)
    · next hmethod =>
      rcases handleCreateRoom_cases C request.body (generateCode m.nanos s.counter) s.router with
        ⟨response, hstatus, h⟩ | ⟨sid, hsession, hfresh, h⟩
      · rw [h]
        exact .nothing (not_created_of_status hstatus) (hkept _)
      · rw [h]
        refine .create hfresh (isValidCode_generateCode _ _) ?_ (hkept _)
        intro code' sid' given'
        constructor
        · intro hcreated
          obtain ⟨-, -, hsession', htoken, hbody⟩ := created_http hcreated
          obtain rfl : sid = sid' := Option.some.inj (hsession.symm.trans hsession')
          exact ⟨(jsonResponse_createdBody hbody).symm, rfl, htoken.symm⟩
        · rintro ⟨rfl, rfl, rfl⟩
          exact .http hmethod hpath hsession rfl
    · exact .nothing (not_created_of_status (show 405 ≠ 201 by decide)) (hkept _)
  next hpath =>
  have hcreated {answer : Answer} := @not_created_of_path m request answer hpath
  split
  · next code hcode =>
    split
    · next hmethod =>
      refine .nothing hcreated ?_
      intro code' hdeleted
      exact nomatch hmethod.symm.trans (deleted_http.mp hdeleted).1
    · next hmethod =>
      dsimp only
      rw [rooms_handleDeleteRoom]
      refine .delete hcreated ?_
      intro code'
      rw [deleted_http, hcode]
      simp [hmethod, eq_comm]
    · next hget hdelete =>
      refine .nothing hcreated ?_
      intro code' hdeleted
      exact hdelete (deleted_http.mp hdeleted).1
  · next hcode =>
    refine .nothing hcreated ?_
    intro code' hdeleted
    exact nomatch hcode.symm.trans (deleted_http.mp hdeleted).2

theorem writes_serve (C : Crypto) (m : Moment) (call : Call) (s : Relay) :
    Writes C s.router.rooms ((m, .grpc call), .reply (serve C m call s).1)
      (serve C m call s).2.router.rooms := by
  cases call with
  | createRoom sid text =>
    unfold serve createRoom
    dsimp only
    by_cases hzero : sid = 0
    · rw [if_pos hzero]
      exact .nothing (by rintro _ _ _ ⟨⟩) (by rintro _ ⟨⟩)
    · rw [if_neg hzero]
      by_cases hcode : generateCode m.nanos s.counter ∈ s.router.rooms
      · rw [Router.registerRoom, if_pos hcode]
        exact .nothing (by rintro _ _ _ ⟨⟩) (by rintro _ ⟨⟩)
      · rw [Router.registerRoom, if_neg hcode]
        refine .create hcode (isValidCode_generateCode _ _) ?_ (by rintro _ ⟨⟩)
        intro code' sid' given'
        constructor
        · intro hcreated
          cases hcreated with
          | grpc token => exact ⟨rfl, rfl, token.symm⟩
        · rintro ⟨rfl, rfl, rfl⟩
          exact .grpc rfl
  | getRoom code text => exact .nothing (by rintro _ _ _ ⟨⟩) (by rintro _ ⟨⟩)
  | listRooms => exact .nothing (by rintro _ _ _ ⟨⟩) (by rintro _ ⟨⟩)
  | deleteRoom code =>
    refine .delete (by rintro _ _ _ ⟨⟩) ?_
    intro code'
    constructor
    · rintro ⟨⟩
      rfl
    · rintro rfl
      exact .grpc
  | watchRoom code => exact .nothing (by rintro _ _ _ ⟨⟩) (by rintro _ ⟨⟩)

theorem writes_step (C : Crypto) (s : Relay) (x : Moment × Event) :
    Writes C s.router.rooms (x, (step C s x).1) (step C s x).2.router.rooms := by
  obtain ⟨m, event⟩ := x
  cases event with
  | http request => exact writes_handle C m request s
  | grpc call => exact writes_serve C m call s
  | udp datagram sender =>
    unfold step
    dsimp only
    rw [Router.rooms_udpIngress]
    exact .nothing (by rintro _ _ _ ⟨⟩) (by rintro _ ⟨⟩)
  | webSocket datagram channel =>
    unfold step
    dsimp only
    rw [Router.rooms_wsIngress]
    exact .nothing (by rintro _ _ _ ⟨⟩) (by rintro _ ⟨⟩)
  | evictIdle maxAgeSecs isClosed => exact .nothing (by rintro _ _ _ ⟨⟩) (by rintro _ ⟨⟩)

/-! ## What a room code leads to -/

/-- The code was given to somebody for the session and not deleted since. -/
def Live (history : List ((Moment × Event) × Answer)) (code : String) (s : UInt32)
    (given : Option String) : Prop :=
  Since (Created code s given) (Deleted code) history

/-- The token is one with this digest. -/
def Knows (C : Crypto) (hash : String) (token : Option String) : Prop :=
  ∃ t, token = some t ∧ t ≠ "" ∧ hashToken C t = hash

/-- The token is as good as the one that protects the room. -/
def Admits (C : Crypto) (given token : Option String) : Prop :=
  ∀ g, given = some g → g ≠ "" → Knows C (hashToken C g) token

inductive Outcome
  | found (sessionId : UInt32)
  | locked
  | notFound

/-- What the history says to who asks for a code with a token. -/
inductive Verdict (C : Crypto) (history : List ((Moment × Event) × Answer)) (code : String)
    (token : Option String) : Outcome → Prop
  | found {s : UInt32} {given : Option String} (live : Live history code s given)
      (admits : Admits C given token) : Verdict C history code token (.found s)
  | locked {s : UInt32} {given : Option String} (live : Live history code s given)
      (refuses : ¬ Admits C given token) (silent : token = none) :
      Verdict C history code token .locked
  | refused {s : UInt32} {given : Option String} (live : Live history code s given)
      (refuses : ¬ Admits C given token) (spoken : token ≠ none) :
      Verdict C history code token .notFound
  | absent (absent : ∀ s given, ¬ Live history code s given) :
      Verdict C history code token .notFound

def Outcome.response (code : String) (r : Router) : Outcome → Response
  | found s => jsonResponse 200 (roomBody code s (r.peerCount s))
  | locked => jsonResponse 401 "\x7b\"error\":\"room requires token\"\x7d"
  | notFound =>
    if isValidCode code then jsonResponse 404 "\x7b\"error\":\"room not found\"\x7d"
    else jsonResponse 400 "\x7b\"error\":\"invalid room code format\"\x7d"

def Outcome.reply (code : String) (r : Router) : Outcome → Reply
  | found s => .room (toProtoRoom code s r)
  | locked => .status .unauthenticated "room requires token"
  | notFound => .status .notFound "room not found"

/-- To who wants to watch the room. -/
def Outcome.watched : Outcome → Reply
  | found s => .events s
  | locked => .status .unauthenticated "room requires token"
  | notFound => .status .notFound "room not found"

variable {s : Relay} {code : String} {sid : UInt32} {given token : Option String}

/-- The rooms of the router are the ones that have been created and not deleted. -/
theorem lookup_rooms (hstart : s.router.rooms = ∅) (es : List (Moment × Event)) (code : String)
    (entry : RoomEntry) :
    (after (step C) s es).router.rooms.lookup code = some entry ↔
      ∃ sid given, Live (trace (step C) s es) code sid given ∧ entry = .new C sid given := by
  have hempty (k : String) : s.router.rooms.lookup k = none := by rw [hstart, Finmap.lookup_empty]
  rw [lookup_iff_since (fun s k => s.router.rooms.lookup k)
    (fun k v y => ∃ sid given, Created k sid given y ∧ v = .new C sid given) Deleted hempty
    (fun s x k v => (writes_step C s x).lookup_iff k v)]
  constructor
  · rintro ⟨past, y, later, hy, ⟨sid, given, hcreated, hentry⟩, hlater⟩
    exact ⟨sid, given, ⟨past, y, later, hy, hcreated, hlater⟩, hentry⟩
  · rintro ⟨sid, given, ⟨past, y, later, hy, hcreated, hlater⟩, hentry⟩
    exact ⟨past, y, later, hy, ⟨sid, given, hcreated, hentry⟩, hlater⟩

theorem isValidCode_of_mem (hstart : s.router.rooms = ∅) (es : List (Moment × Event))
    (hcode : code ∈ (after (step C) s es).router.rooms) : isValidCode code = true := by
  have hinv : ∀ k ∈ (after (step C) s es).router.rooms, isValidCode k = true := by
    refine after_invariant (fun s : Relay => ∀ k ∈ s.router.rooms, isValidCode k = true) ?_ ?_
    · intro s x hs k hk
      have hwrites := writes_step C s x
      generalize (step C s x).2.router.rooms = rooms at hk hwrites
      cases hwrites with
      | nothing => exact hs k hk
      | create fresh valid =>
        rcases Finmap.mem_insert.mp hk with rfl | hk
        · exact valid
        · exact hs k hk
      | delete => exact hs k (Finmap.mem_erase.mp hk).2
    · intro k hk
      rw [hstart] at hk
      exact absurd hk Finmap.notMem_empty
  exact hinv code hcode

/-! ## What the router answers -/

theorem admits_iff (sid : UInt32) :
    Admits C given token ↔
      ∀ hash, (RoomEntry.new C sid given).tokenHash = some hash → Knows C hash token := by
  cases given with
  | none => simp [Admits, RoomEntry.new]
  | some g =>
    by_cases hg : g = ""
    · simp [Admits, RoomEntry.new, hg, Option.filter]
    · simp [Admits, RoomEntry.new, hg, Option.filter]

theorem roomRequiresToken_iff {r : Router}
    (h : r.rooms.lookup code = some (.new C sid given)) :
    r.roomRequiresToken code = true ↔ ¬ Admits C given none := by
  have hsilent (hash : String) : ¬ Knows C hash none := fun ⟨t, ht, _⟩ => nomatch ht
  rw [Router.roomRequiresToken, h, admits_iff sid, Option.any_some]
  cases (RoomEntry.new C sid given).tokenHash <;> simp [hsilent]

theorem resolveRoom_of_admits {r : Router} (h : r.rooms.lookup code = some (.new C sid given))
    (hadmits : Admits C given token) : r.resolveRoom C code token = some sid := by
  rw [admits_iff sid] at hadmits
  rw [Router.resolveRoom, h, Option.bind_some]
  cases hhash : (RoomEntry.new C sid given).tokenHash with
  | none => rfl
  | some hash =>
    obtain ⟨t, rfl, hne, hsame⟩ := hadmits hash hhash
    simp [Option.filter, hne, hsame, RoomEntry.new]

theorem resolveRoom_of_refuses {r : Router} (h : r.rooms.lookup code = some (.new C sid given))
    (hrefuses : ¬ Admits C given token) : r.resolveRoom C code token = none := by
  rw [admits_iff sid] at hrefuses
  rw [Router.resolveRoom, h, Option.bind_some]
  cases hhash : (RoomEntry.new C sid given).tokenHash with
  | none =>
    refine absurd ?_ hrefuses
    rw [hhash]
    nofun
  | some hash =>
    cases token with
    | none => rfl
    | some t =>
      by_cases hne : t = ""
      · simp [Option.filter, hne]
      · have hother : hashToken C t ≠ hash := by
          rintro rfl
          refine hrefuses ?_
          rw [hhash]
          rintro _ ⟨⟩
          exact ⟨t, rfl, hne, rfl⟩
        simp [Option.filter, hne, hother]

/-- Who says nothing is locked out of a room that has a token. -/
theorem locks_iff {r : Router} (h : r.rooms.lookup code = some (.new C sid given)) :
    (r.roomRequiresToken code && token.isNone) = true ↔ token = none ∧ ¬ Admits C given token := by
  rw [Bool.and_eq_true, roomRequiresToken_iff h, Option.isNone_iff_eq_none]
  constructor
  · rintro ⟨hrefuses, rfl⟩
    exact ⟨rfl, hrefuses⟩
  · rintro ⟨rfl, hrefuses⟩
    exact ⟨hrefuses, rfl⟩

theorem isNone_tokenOf (text : String) : (tokenOf text).isNone = decide (text = "") := by
  by_cases h : text = ""
  · simp [tokenOf, h]
  · simp [tokenOf, h]

theorem handleGetRoom_found {r : Router} (h : r.rooms.lookup code = some (.new C sid given))
    (hvalid : isValidCode code = true) (hadmits : Admits C given token) :
    handleGetRoom C code token r = (Outcome.found sid).response code r := by
  have hopen : ¬ (r.roomRequiresToken code && token.isNone) = true :=
    fun hlocks => ((locks_iff h).mp hlocks).2 hadmits
  rw [handleGetRoom, hvalid, if_neg (by decide), if_neg hopen, resolveRoom_of_admits h hadmits]
  rfl

theorem handleGetRoom_refused {r : Router} (h : r.rooms.lookup code = some (.new C sid given))
    (hvalid : isValidCode code = true) (hrefuses : ¬ Admits C given token) :
    handleGetRoom C code token r =
      (if token = none then Outcome.locked else .notFound).response code r := by
  rw [handleGetRoom, hvalid, if_neg (by decide), resolveRoom_of_refuses h hrefuses]
  by_cases htoken : token = none
  · rw [if_pos ((locks_iff h).mpr ⟨htoken, hrefuses⟩), if_pos htoken]
    rfl
  · rw [if_neg fun hlocks => htoken ((locks_iff h).mp hlocks).1, if_neg htoken, Outcome.response,
      if_pos hvalid]

theorem getRoom_found {r : Router} {text : String}
    (h : r.rooms.lookup code = some (.new C sid given)) (hadmits : Admits C given (tokenOf text)) :
    getRoom C code text r = (Outcome.found sid).reply code r := by
  have hopen : ¬ (r.roomRequiresToken code && (tokenOf text).isNone) = true :=
    fun hlocks => ((locks_iff h).mp hlocks).2 hadmits
  rw [getRoom, ← isNone_tokenOf, if_neg hopen, resolveRoom_of_admits h hadmits]
  rfl

theorem getRoom_refused {r : Router} {text : String}
    (h : r.rooms.lookup code = some (.new C sid given))
    (hrefuses : ¬ Admits C given (tokenOf text)) :
    getRoom C code text r =
      (if tokenOf text = none then Outcome.locked else .notFound).reply code r := by
  rw [getRoom, ← isNone_tokenOf, resolveRoom_of_refuses h hrefuses]
  by_cases htoken : tokenOf text = none
  · rw [if_pos ((locks_iff h).mpr ⟨htoken, hrefuses⟩), if_pos htoken]
    rfl
  · rw [if_neg fun hlocks => htoken ((locks_iff h).mp hlocks).1, if_neg htoken]
    rfl

/-! ## What the history says -/

variable {es : List (Moment × Event)}

/-- What is live in the history is what the router has. -/
theorem Live.same (hstart : s.router.rooms = ∅)
    (h : (after (step C) s es).router.rooms.lookup code = some (.new C sid given)) {sid' : UInt32}
    {given' : Option String} (hlive : Live (trace (step C) s es) code sid' given') :
    sid' = sid ∧ ∀ token, Admits C given' token ↔ Admits C given token := by
  have hlookup := (lookup_rooms hstart es code _).mpr ⟨sid', given', hlive, rfl⟩
  have hentry : RoomEntry.new C sid' given' = .new C sid given :=
    Option.some.inj (hlookup.symm.trans h)
  refine ⟨congrArg RoomEntry.sessionId hentry, fun token => ?_⟩
  rw [admits_iff sid', admits_iff sid, hentry]

theorem verdict_absent (hstart : s.router.rooms = ∅)
    (h : (after (step C) s es).router.rooms.lookup code = none) (o : Outcome) :
    Verdict C (trace (step C) s es) code token o ↔ o = .notFound := by
  have habsent (sid : UInt32) (given : Option String) :
      ¬ Live (trace (step C) s es) code sid given := by
    intro hlive
    cases h.symm.trans ((lookup_rooms hstart es code _).mpr ⟨sid, given, hlive, rfl⟩)
  constructor
  · intro hverdict
    cases hverdict with
    | found live => exact absurd live (habsent _ _)
    | locked live => exact absurd live (habsent _ _)
    | refused => rfl
    | absent => rfl
  · rintro rfl
    exact .absent habsent

theorem verdict_found (hstart : s.router.rooms = ∅)
    (h : (after (step C) s es).router.rooms.lookup code = some (.new C sid given))
    (hlive : Live (trace (step C) s es) code sid given) (hadmits : Admits C given token)
    (o : Outcome) : Verdict C (trace (step C) s es) code token o ↔ o = .found sid := by
  constructor
  · intro hverdict
    cases hverdict with
    | found live => rw [(live.same hstart h).1]
    | locked live refuses => exact absurd (((live.same hstart h).2 _).mpr hadmits) refuses
    | refused live refuses => exact absurd (((live.same hstart h).2 _).mpr hadmits) refuses
    | absent absent => exact absurd hlive (absent _ _)
  · rintro rfl
    exact .found hlive hadmits

theorem verdict_refused (hstart : s.router.rooms = ∅)
    (h : (after (step C) s es).router.rooms.lookup code = some (.new C sid given))
    (hlive : Live (trace (step C) s es) code sid given) (hrefuses : ¬ Admits C given token)
    (o : Outcome) : Verdict C (trace (step C) s es) code token o ↔
      o = if token = none then .locked else .notFound := by
  constructor
  · intro hverdict
    cases hverdict with
    | found live admits => exact absurd (((live.same hstart h).2 _).mp admits) hrefuses
    | locked live refuses silent => rw [if_pos silent]
    | refused live refuses spoken => rw [if_neg spoken]
    | absent absent => exact absurd hlive (absent _ _)
  · rintro rfl
    by_cases htoken : token = none
    · rw [if_pos htoken]
      exact .locked hlive hrefuses htoken
    · rw [if_neg htoken]
      exact .refused hlive hrefuses htoken

/-- Exactly one verdict fits a history and a code, and both kinds of requests are answered
by it. -/
theorem exists_verdict (hstart : s.router.rooms = ∅) (es : List (Moment × Event)) (code : String)
    (token : Option String) : ∃ o, (∀ o', Verdict C (trace (step C) s es) code token o' ↔ o' = o) ∧
      handleGetRoom C code token (after (step C) s es).router =
        o.response code (after (step C) s es).router ∧
      ∀ text, token = tokenOf text → getRoom C code text (after (step C) s es).router =
        o.reply code (after (step C) s es).router := by
  cases h : (after (step C) s es).router.rooms.lookup code with
  | none =>
    refine ⟨.notFound, verdict_absent hstart h, ?_, ?_⟩
    · simp only [handleGetRoom, Router.roomRequiresToken, Router.resolveRoom, h, Outcome.response]
      cases isValidCode code <;> rfl
    · intro text htext
      simp only [getRoom, Router.roomRequiresToken, Router.resolveRoom, h]
      rfl
  | some entry =>
    obtain ⟨sid, given, hlive, rfl⟩ := (lookup_rooms hstart es code entry).mp h
    have hvalid : isValidCode code = true :=
      isValidCode_of_mem hstart es (Finmap.mem_of_lookup_eq_some h)
    by_cases hadmits : Admits C given token
    · refine ⟨.found sid, verdict_found hstart h hlive hadmits,
        handleGetRoom_found h hvalid hadmits, ?_⟩
      rintro text rfl
      exact getRoom_found h hadmits
    · refine ⟨_, verdict_refused hstart h hlive hadmits,
        handleGetRoom_refused h hvalid hadmits, ?_⟩
      rintro text rfl
      exact getRoom_refused h hadmits

/-- Who watches a room is told of the session that is found without a token. -/
theorem watchRoom_of_getRoom {r : Router} {o : Outcome} (h : getRoom C code "" r = o.reply code r) :
    watchRoom C code r = o.watched := by
  have htoken : tokenOf "" = none := rfl
  rw [getRoom, htoken, decide_eq_true rfl, Bool.and_true] at h
  unfold watchRoom
  split at h
  · next hneeds =>
    rw [if_pos hneeds]
    cases o <;> simp_all [Outcome.reply, Outcome.watched]
  · next hneeds =>
    rw [if_neg hneeds]
    cases hsession : r.resolveRoom C code none with
    | none => cases o <;> simp_all [Outcome.reply, Outcome.watched]
    | some sid => cases o <;> simp_all [Outcome.reply, Outcome.watched, toProtoRoom]

theorem handle_get (C : Crypto) (m : Moment) (code : String) (query : Option String)
    (body : Bytes) (s : Relay) :
    (handle C m ⟨.get, "/api/rooms/" ++ code, query, body⟩ s).1 =
      handleGetRoom C code (query.bind queryToken) s.router := by
  have hcode : stripPrefix "/api/rooms/" ("/api/rooms/" ++ code) = some code :=
    stripPrefix_eq_some.mpr rfl
  have hne {path : String} (hpath : stripPrefix "/api/rooms/" path = none) :
      "/api/rooms/" ++ code ≠ path := by
    rintro rfl
    cases hcode.symm.trans hpath
  unfold handle
  dsimp only
  rw [if_neg (hne (by decide)), if_neg (hne (by decide)), if_neg (hne (by decide)), hcode]

/-- What the relay answers to who asks for a room, over HTTP or over gRPC, or to who wants to watch
it, is what the history of its answers says. -/
theorem directory (C : Crypto) (maxSessions maxPeersPerSession : ℕ) (counter : UInt64)
    (es : List (Moment × Event)) (m : Moment) (code text : String) (query : Option String)
    (body : Bytes) :
    let start : Relay := ⟨.new maxSessions maxPeersPerSession, counter⟩
    let history := trace (step C) start es
    let s := after (step C) start es
    (∃ o, (∀ o', Verdict C history code (query.bind queryToken) o' ↔ o' = o) ∧
      (step C s (m, .http ⟨.get, "/api/rooms/" ++ code, query, body⟩)).1 =
        .response (o.response code s.router)) ∧
    (∃ o, (∀ o', Verdict C history code (tokenOf text) o' ↔ o' = o) ∧
      (step C s (m, .grpc (.getRoom code text))).1 = .reply (o.reply code s.router)) ∧
    ∃ o, (∀ o', Verdict C history code none o' ↔ o' = o) ∧
      (step C s (m, .grpc (.watchRoom code))).1 = .reply o.watched := by
  intro start history s
  have hstart : start.router.rooms = ∅ := rfl
  refine ⟨?_, ?_, ?_⟩
  · obtain ⟨o, hverdict, hresponse, -⟩ := exists_verdict hstart es code (query.bind queryToken)
    refine ⟨o, hverdict, congrArg Answer.response ?_⟩
    exact (handle_get C m code query body s).trans hresponse
  · obtain ⟨o, hverdict, -, hreply⟩ := exists_verdict hstart es code (tokenOf text)
    exact ⟨o, hverdict, congrArg Answer.reply (hreply text rfl)⟩
  · obtain ⟨o, hverdict, -, hreply⟩ := exists_verdict hstart es code none
    exact ⟨o, hverdict, congrArg Answer.reply (watchRoom_of_getRoom (hreply "" rfl))⟩

end Control
end GravitalTalk
