import GravitalTalk.Relay.Directory

/-!
# What a token hides

The session of a room that has a token is told to who knows the token, and to
everybody by the list of the rooms.
-/
namespace GravitalTalk
namespace Control

open Observability Rooms Trace

variable {C : Crypto} {code hash : String} {r r' : Router}

/-- A request that neither lists the rooms nor asks for this one with its token. -/
def Discreet (C : Crypto) (code hash : String) : Event → Prop
  | .http request => request.method = .get →
      request.path ≠ "/api/rooms" ∧
        (request.path = "/api/rooms/" ++ code → ¬ Knows C hash (request.query.bind queryToken))
  | .grpc (.getRoom asked text) => asked = code → ¬ Knows C hash (tokenOf text)
  | .grpc .listRooms => False
  | _ => True

/-- The rooms differ in nothing but the session of the room that has the token. -/
def Masked (code hash : String) (rooms rooms' : Table String RoomEntry) : Prop :=
  ∀ k, rooms'.lookup k = rooms.lookup k ∨ k = code ∧
    ∃ sid sid', rooms.lookup k = some ⟨sid, some hash⟩ ∧ rooms'.lookup k = some ⟨sid', some hash⟩

/-- Two routers that differ in nothing else. -/
structure Alike (code hash : String) (r r' : Router) : Prop where
  rest : r' = r.withRooms r'.rooms
  rooms : Masked code hash r.rooms r'.rooms

namespace Masked

variable {rooms rooms' : Table String RoomEntry}

theorem mem_iff (h : Masked code hash rooms rooms') (k : String) : k ∈ rooms' ↔ k ∈ rooms := by
  rw [← Finmap.lookup_isSome, ← Finmap.lookup_isSome]
  rcases h k with hsame | ⟨-, sid, sid', hleft, hright⟩
  · rw [hsame]
  · rw [hleft, hright]
    rfl

theorem insert (h : Masked code hash rooms rooms') (k : String) (entry : RoomEntry) :
    Masked code hash (rooms.insert k entry) (rooms'.insert k entry) := by
  intro k'
  rw [Table.lookup_insert_eq, Table.lookup_insert_eq]
  split
  · exact .inl rfl
  · exact h k'

theorem erase (h : Masked code hash rooms rooms') (k : String) :
    Masked code hash (rooms.erase k) (rooms'.erase k) := by
  intro k'
  rw [Table.lookup_erase_eq, Table.lookup_erase_eq]
  split
  · exact .inl rfl
  · exact h k'

end Masked

namespace Alike

/-- What neither looks at the rooms nor changes them. -/
theorem forwards (h : Alike code hash r r') (f : Router → Sends × Router)
    (hf : ∀ rooms r, f (r.withRooms rooms) = ((f r).1, (f r).2.withRooms rooms)) :
    (f r).1 = (f r').1 ∧ Alike code hash (f r).2 (f r').2 := by
  have hleft : (f r).2.rooms = r.rooms := congrArg (fun d => d.2.rooms) (hf r.rooms r)
  rw [h.rest, hf]
  exact ⟨rfl, rfl, hleft ▸ h.rooms⟩

theorem registerRoom (h : Alike code hash r r') (C : Crypto) (k : String) (sid : UInt32)
    (token : Option String) : ∃ made after after', r.registerRoom C k sid token = (made, after) ∧
      r'.registerRoom C k sid token = (made, after') ∧ Alike code hash after after' := by
  unfold Router.registerRoom
  by_cases hk : k ∈ r.rooms
  · rw [if_pos hk, if_pos ((h.rooms.mem_iff k).mpr hk)]
    exact ⟨false, r, r', rfl, rfl, h⟩
  · rw [if_neg hk, if_neg ((h.rooms.mem_iff k).not.mpr hk)]
    refine ⟨true, _, _, rfl, rfl, ?_, h.rooms.insert k _⟩
    rw [h.rest]
    rfl

theorem removeRoom (h : Alike code hash r r') (k : String) :
    ∃ removed after after', r.removeRoom k = (removed, after) ∧
      r'.removeRoom k = (removed, after') ∧ Alike code hash after after' := by
  have hanswer : decide (k ∈ r'.rooms) = decide (k ∈ r.rooms) :=
    decide_eq_decide.mpr (h.rooms.mem_iff k)
  refine ⟨_, _, _, rfl, Prod.ext hanswer rfl, ?_, h.rooms.erase k⟩
  rw [h.rest]
  rfl

theorem peerCount (h : Alike code hash r r') (sid : UInt32) :
    r'.peerCount sid = r.peerCount sid := by
  rw [h.rest]
  rfl

theorem roomRequiresToken (h : Alike code hash r r') (k : String) :
    r'.roomRequiresToken k = r.roomRequiresToken k := by
  unfold Router.roomRequiresToken
  rcases h.rooms k with hsame | ⟨-, sid, sid', hleft, hright⟩
  · rw [hsame]
  · rw [hleft, hright]
    rfl

/-- Without the token, what is resolved is the same. -/
theorem resolveRoom (h : Alike code hash r r') {k : String} {token : Option String}
    (htoken : k = code → ¬ Knows C hash token) :
    r'.resolveRoom C k token = r.resolveRoom C k token := by
  unfold Router.resolveRoom
  rcases h.rooms k with hsame | ⟨hk, sid, sid', hleft, hright⟩
  · rw [hsame]
  · rw [hleft, hright, Option.bind_some, Option.bind_some]
    cases token with
    | none => rfl
    | some text =>
      by_cases hne : text = ""
      · simp [Option.filter, hne]
      · have hother : hashToken C text ≠ hash := fun hhash => htoken hk ⟨text, rfl, hne, hhash⟩
        simp [Option.filter, hne, hother]

theorem handleCreateRoom (h : Alike code hash r r') (body : Bytes) (k : String) :
    (handleCreateRoom C body k r).1 = (handleCreateRoom C body k r').1 ∧
      Alike code hash (handleCreateRoom C body k r).2 (handleCreateRoom C body k r').2 := by
  unfold Observability.handleCreateRoom
  cases extractSessionId body with
  | none => exact ⟨rfl, h⟩
  | some sid =>
    dsimp only
    by_cases hzero : sid = 0
    · rw [if_pos hzero, if_pos hzero]
      exact ⟨rfl, h⟩
    · rw [if_neg hzero, if_neg hzero]
      obtain ⟨made, after, after', hleft, hright, hrooms⟩ :=
        h.registerRoom C k sid (extractToken body)
      rw [hleft, hright]
      cases made with
      | true => exact ⟨rfl, hrooms⟩
      | false => exact ⟨rfl, hrooms⟩

theorem handleGetRoom (h : Alike code hash r r') {k : String} {token : Option String}
    (htoken : k = code → ¬ Knows C hash token) :
    handleGetRoom C k token r = handleGetRoom C k token r' := by
  unfold Control.handleGetRoom
  simp only [h.roomRequiresToken, h.resolveRoom htoken, h.peerCount]

theorem getRoom (h : Alike code hash r r') {k text : String}
    (htoken : k = code → ¬ Knows C hash (tokenOf text)) :
    getRoom C k text r = getRoom C k text r' := by
  unfold Control.getRoom toProtoRoom
  simp only [h.roomRequiresToken, h.resolveRoom htoken, h.peerCount]

theorem watchRoom (h : Alike code hash r r') (k : String) :
    watchRoom C k r = watchRoom C k r' := by
  have htoken : k = code → ¬ Knows C hash none := fun _ ⟨_, ht, _⟩ => nomatch ht
  unfold Control.watchRoom
  simp only [h.roomRequiresToken, h.resolveRoom htoken]

theorem handleDeleteRoom (h : Alike code hash r r') (k : String) :
    (handleDeleteRoom k r).1 = (handleDeleteRoom k r').1 ∧
      Alike code hash (handleDeleteRoom k r).2 (handleDeleteRoom k r').2 := by
  obtain ⟨removed, after, after', hleft, hright, hrooms⟩ := h.removeRoom k
  unfold Control.handleDeleteRoom
  rw [hleft, hright]
  cases removed with
  | true => exact ⟨rfl, hrooms⟩
  | false => exact ⟨rfl, hrooms⟩

end Alike

/-- Two relays whose routers differ in nothing else. -/
structure Matched (code hash : String) (s t : Relay) : Prop where
  counter : t.counter = s.counter
  router : Alike code hash s.router t.router

namespace Matched

variable {s t : Relay}

theorem handle (h : Matched code hash s t) (m : Moment) {request : Request}
    (hdiscreet : Discreet C code hash (.http request)) :
    (handle C m request s).1 = (handle C m request t).1 ∧
      Matched code hash (handle C m request s).2 (handle C m request t).2 := by
  unfold Control.handle
  split
  · exact ⟨rfl, h⟩
  split
  · exact ⟨rfl, h⟩
  split
  · next hpath =>
    split
    · next hmethod => exact absurd hpath (hdiscreet hmethod).1
    · rw [h.counter]
      obtain ⟨hanswer, hrooms⟩ := h.router.handleCreateRoom (C := C) request.body
        (generateCode m.nanos s.counter)
      exact ⟨hanswer, rfl, hrooms⟩
    · exact ⟨rfl, h⟩
  · split
    · next k hk =>
      split
      · next hmethod =>
        refine ⟨h.router.handleGetRoom ?_, h⟩
        rintro rfl
        exact (hdiscreet hmethod).2 (stripPrefix_eq_some.mp hk)
      · obtain ⟨hanswer, hrooms⟩ := h.router.handleDeleteRoom k
        exact ⟨hanswer, h.counter, hrooms⟩
      · exact ⟨rfl, h⟩
    · exact ⟨rfl, h⟩

theorem createRoom (h : Matched code hash s t) (m : Moment) (sid : UInt32) (text : String) :
    (createRoom C m sid text s).1 = (createRoom C m sid text t).1 ∧
      Matched code hash (createRoom C m sid text s).2 (createRoom C m sid text t).2 := by
  unfold Control.createRoom
  by_cases hzero : sid = 0
  · rw [if_pos hzero, if_pos hzero]
    exact ⟨rfl, h⟩
  · rw [if_neg hzero, if_neg hzero, h.counter]
    dsimp only
    obtain ⟨made, after, after', hleft, hright, hrooms⟩ :=
      h.router.registerRoom C (generateCode m.nanos s.counter) sid (tokenOf text)
    rw [hleft, hright]
    cases made with
    | true =>
      refine ⟨?_, rfl, hrooms⟩
      dsimp only
      rw [toProtoRoom, toProtoRoom, hrooms.peerCount]
    | false => exact ⟨rfl, rfl, hrooms⟩

theorem serve (h : Matched code hash s t) (m : Moment) {call : Call}
    (hdiscreet : Discreet C code hash (.grpc call)) :
    (serve C m call s).1 = (serve C m call t).1 ∧
      Matched code hash (serve C m call s).2 (serve C m call t).2 := by
  cases call with
  | createRoom sid text => exact h.createRoom m sid text
  | getRoom k text => exact ⟨h.router.getRoom hdiscreet, h⟩
  | listRooms => exact absurd hdiscreet not_false
  | deleteRoom k =>
    obtain ⟨removed, after, after', hleft, hright, hrooms⟩ := h.router.removeRoom k
    unfold Control.serve
    dsimp only
    rw [hleft, hright]
    exact ⟨rfl, h.counter, hrooms⟩
  | watchRoom k => exact ⟨h.router.watchRoom k, h⟩

theorem step (h : Matched code hash s t) {x : Moment × Event}
    (hdiscreet : Discreet C code hash x.2) :
    (step C s x).1 = (step C t x).1 ∧ Matched code hash (step C s x).2 (step C t x).2 := by
  obtain ⟨m, event⟩ := x
  cases event with
  | http request =>
    obtain ⟨hanswer, hstate⟩ := h.handle m hdiscreet
    exact ⟨congrArg Answer.response hanswer, hstate⟩
  | grpc call =>
    obtain ⟨hanswer, hstate⟩ := h.serve m hdiscreet
    exact ⟨congrArg Answer.reply hanswer, hstate⟩
  | udp datagram sender =>
    obtain ⟨hanswer, hrouter⟩ := h.router.forwards (·.udpIngress datagram sender m.now)
      fun rooms r => Router.udpIngress_withRooms rooms datagram sender m.now r
    exact ⟨congrArg Answer.sends hanswer, h.counter, hrouter⟩
  | webSocket datagram channel =>
    obtain ⟨hanswer, hrouter⟩ := h.router.forwards (·.wsIngress datagram channel m.now)
      fun rooms r => Router.wsIngress_withRooms rooms datagram channel m.now r
    exact ⟨congrArg Answer.sends hanswer, h.counter, hrouter⟩
  | evictIdle maxAgeSecs isClosed =>
    obtain ⟨-, hrouter⟩ := h.router.forwards
      (fun r => ([], r.evictIdle maxAgeSecs isClosed m.now)) fun _ _ => rfl
    exact ⟨rfl, h.counter, hrouter⟩

end Matched

/-! ## What is told -/

/-- The number in front of a comma is what the digits say. -/
theorem toDigits_comma {m n : ℕ} {rest rest' : List Char}
    (h : Nat.toDigits 10 m ++ ',' :: rest = Nat.toDigits 10 n ++ ',' :: rest') : m = n := by
  have hdigits (n : ℕ) (rest : List Char) :
      (Nat.toDigits 10 n ++ ',' :: rest).takeWhile Char.isDigit = Nat.toDigits 10 n := by
    apply takeWhile_append_head
    · intro c hc
      exact Nat.isDigit_of_mem_toDigits (by decide) (by decide) hc
    · rintro c ⟨⟩
      rfl
  have hsame : Nat.toDigits 10 m = Nat.toDigits 10 n := by
    rw [← hdigits m rest, h, hdigits]
  rw [← Nat.ofDigitChars_toDigits (b := 10) (n := m) (by decide) (by decide), hsame,
    Nat.ofDigitChars_toDigits (by decide) (by decide)]

theorem roomBody_session {sid sid' : UInt32} {peers peers' : ℕ}
    (h : roomBody code sid peers = roomBody code sid' peers') : sid = sid' := by
  have htext := congrArg String.toList h
  simp only [roomBody, String.toList_append, List.append_assoc, List.append_cancel_left_eq,
    Nat.toString_eq_repr, Nat.toList_repr] at htext
  exact UInt32.toNat_inj.mp (toDigits_comma htext)

/-- An entry of a list is joined to what is in front of it and what is behind it. -/
theorem intercalate_middle (sep : String) (before behind : List String) :
    ∃ p q, ∀ e, sep.intercalate (before ++ e :: behind) = p ++ e ++ q := by
  have hbehind : ∃ q, ∀ e, sep.intercalate (e :: behind) = e ++ q := by
    cases behind with
    | nil => exact ⟨"", fun e => by simp⟩
    | cons f behind =>
      refine ⟨sep ++ sep.intercalate (f :: behind), fun e => ?_⟩
      rw [String.intercalate_cons_of_ne_nil (List.cons_ne_nil _ _), String.append_assoc]
  obtain ⟨q, hq⟩ := hbehind
  by_cases hbefore : before = []
  · refine ⟨"", q, fun e => ?_⟩
    rw [hbefore, List.nil_append, hq, String.empty_append]
  · refine ⟨sep.intercalate before ++ sep, q, fun e => ?_⟩
    rw [String.intercalate_append_of_ne_nil hbefore (List.cons_ne_nil _ _), hq]
    simp only [String.append_assoc]

/-! ## One room with a token -/

/-- The router with a room for the session, which the token `given` protects. -/
def withRoom (C : Crypto) (code given : String) (r : Router) (sid : UInt32) : Router :=
  r.withRooms (r.rooms.insert code (.new C sid (some given)))

variable {given : String} {sid sid' : UInt32}

theorem lookup_withRoom (sid : UInt32) :
    (withRoom C code given r sid).rooms.lookup code = some (.new C sid (some given)) :=
  Finmap.lookup_insert _

theorem alike_withRoom (hgiven : given ≠ "") (sid sid' : UInt32) :
    Alike code (hashToken C given) (withRoom C code given r sid)
      (withRoom C code given r sid') := by
  refine ⟨rfl, fun k => ?_⟩
  by_cases hk : k = code
  · subst hk
    refine .inr ⟨rfl, sid, sid', ?_, ?_⟩
    · rw [lookup_withRoom, RoomEntry.new, Option.filter, if_pos (decide_eq_true hgiven)]
      rfl
    · rw [lookup_withRoom, RoomEntry.new, Option.filter, if_pos (decide_eq_true hgiven)]
      rfl
  · left
    rw [withRoom, withRoom]
    exact (Finmap.lookup_insert_of_ne _ hk).trans (Finmap.lookup_insert_of_ne _ hk).symm

theorem admits_of_knows {token : Option String} (h : Knows C (hashToken C given) token) :
    Admits C (some given) token := by
  rintro g ⟨⟩ -
  exact h

theorem listRooms_withRoom {before behind : List String} (hbefore : code ∉ before)
    (hbehind : code ∉ behind) (sid : UInt32) :
    (withRoom C code given r sid).listRooms (before ++ code :: behind) =
      r.listRooms before ++ (code, sid, r.peerCount sid) :: r.listRooms behind := by
  have hother {order : List String} (horder : code ∉ order) :
      (withRoom C code given r sid).listRooms order = r.listRooms order := by
    apply List.filterMap_congr
    intro k hk
    have hne : k ≠ code := fun h => horder (h ▸ hk)
    rw [withRoom]
    exact congrArg _ (Finmap.lookup_insert_of_ne _ hne)
  rw [← hother hbefore, ← hother hbehind]
  unfold Router.listRooms
  rw [List.filterMap_append, List.filterMap_cons, lookup_withRoom]
  rfl

/-- The map is gone through in some order, and every room comes once. -/
def Moment.Enumerates (m : Moment) (r : Router) : Prop :=
  m.order.Nodup ∧ ∀ k, k ∈ m.order ↔ k ∈ r.rooms

theorem split_order {m : Moment} (h : m.Enumerates (withRoom C code given r sid)) :
    ∃ before behind, m.order = before ++ code :: behind ∧ code ∉ before ∧ code ∉ behind := by
  have hmem : code ∈ m.order :=
    (h.2 code).mpr (Finmap.mem_of_lookup_eq_some (lookup_withRoom sid))
  obtain ⟨before, behind, horder⟩ := List.append_of_mem hmem
  have hnodup := h.1
  rw [horder, List.nodup_middle, List.nodup_cons, List.mem_append] at hnodup
  exact ⟨before, behind, horder, fun hb => hnodup.1 (.inl hb), fun hb => hnodup.1 (.inr hb)⟩

/-- The list of the rooms shows the session. -/
theorem handleListRooms_tells {m : Moment} (h : m.Enumerates (withRoom C code given r sid))
    (hsame : handleListRooms m.order (withRoom C code given r sid) =
      handleListRooms m.order (withRoom C code given r sid')) : sid = sid' := by
  obtain ⟨before, behind, horder, hbefore, hbehind⟩ := split_order h
  obtain ⟨p, q, hpq⟩ := intercalate_middle "," ((r.listRooms before).map fun room =>
    roomBody room.1 room.2.1 room.2.2) ((r.listRooms behind).map fun room =>
    roomBody room.1 room.2.1 room.2.2)
  unfold handleListRooms at hsame
  rw [horder, listRooms_withRoom hbefore hbehind, listRooms_withRoom hbefore hbehind] at hsame
  simp only [List.map_append, List.map_cons, hpq] at hsame
  have hline (body body' : String) : "[" ++ body ++ "]\n" ≠ "[" ++ body' ++ "]\n" ++ "\n" := by
    intro h
    have hlast := congrArg (fun t => t.toList.reverse) h
    simp at hlast
  have hbodies := jsonResponse_inj (hline _ _) (hline _ _) hsame
  exact roomBody_session (by simpa using hbodies)

theorem listRooms_tells {m : Moment} (h : m.Enumerates (withRoom C code given r sid))
    (hsame : listRooms m.order (withRoom C code given r sid) =
      listRooms m.order (withRoom C code given r sid')) : sid = sid' := by
  obtain ⟨before, behind, horder, hbefore, hbehind⟩ := split_order h
  unfold listRooms toProtoRoom at hsame
  rw [horder, listRooms_withRoom hbefore hbehind, listRooms_withRoom hbefore hbehind] at hsame
  simp only [List.map_append, List.map_cons] at hsame
  have hrooms := (List.append_cancel_left (Reply.rooms.inj hsame))
  exact (Room.mk.inj (List.cons.inj hrooms).1).2.1

/-- So does what who knows the token is answered. -/
theorem handleGetRoom_tells (hcode : isValidCode code = true) {token : Option String}
    (htoken : Knows C (hashToken C given) token)
    (hsame : handleGetRoom C code token (withRoom C code given r sid) =
      handleGetRoom C code token (withRoom C code given r sid')) : sid = sid' := by
  rw [handleGetRoom_found (lookup_withRoom sid) hcode (admits_of_knows htoken),
    handleGetRoom_found (lookup_withRoom sid') hcode (admits_of_knows htoken)] at hsame
  have hline (sid sid' : UInt32) (peers peers' : ℕ) :
      roomBody code sid peers ≠ roomBody code sid' peers' ++ "\n" := by
    intro h
    have hlast := congrArg (fun t => t.toList.reverse) h
    simp [roomBody] at hlast
  exact roomBody_session (jsonResponse_inj (hline _ _ _ _) (hline _ _ _ _) hsame)

theorem getRoom_tells {text : String} (htoken : Knows C (hashToken C given) (tokenOf text))
    (hsame : getRoom C code text (withRoom C code given r sid) =
      getRoom C code text (withRoom C code given r sid')) : sid = sid' := by
  rw [getRoom_found (lookup_withRoom sid) (admits_of_knows htoken),
    getRoom_found (lookup_withRoom sid') (admits_of_knows htoken)] at hsame
  exact (Room.mk.inj (Reply.room.inj hsame)).2.1

/-- The session of a room with a token is told by the lists of the rooms and to who asks with the
token, and by nothing else. -/
theorem session_told (C : Crypto) (r : Router) (counter : UInt64) {code given : String}
    {sid sid' : UInt32} (hcode : isValidCode code = true) (hgiven : given ≠ "")
    (hne : sid ≠ sid') :
    let relay (sid : UInt32) : Relay := ⟨withRoom C code given r sid, counter⟩
    (∀ es, (∀ x ∈ es, Discreet C code (hashToken C given) x.2) →
      trace (step C) (relay sid) es = trace (step C) (relay sid') es) ∧
    ∀ m event, m.Enumerates (relay sid).router →
      ((step C (relay sid) (m, event)).1 = (step C (relay sid') (m, event)).1 ↔
        Discreet C code (hashToken C given) event) := by
  intro relay
  have hmatched : Matched code (hashToken C given) (relay sid) (relay sid') :=
    ⟨rfl, alike_withRoom hgiven sid sid'⟩
  constructor
  · intro es hes
    exact trace_eq_of_related (fun s t x hst hx => hst.step hx) hes hmatched
  · intro m event hm
    constructor
    · intro hsame
      cases event with
      | http request =>
        intro hmethod
        obtain ⟨method, path, query, body⟩ := request
        obtain rfl : method = .get := hmethod
        constructor
        · rintro rfl
          exact hne (handleListRooms_tells hm (Answer.response.inj hsame))
        · rintro rfl htoken
          have hanswers := Answer.response.inj hsame
          rw [handle_get, handle_get] at hanswers
          exact hne (handleGetRoom_tells hcode htoken hanswers)
      | grpc call =>
        cases call with
        | getRoom asked text =>
          rintro rfl htoken
          exact hne (getRoom_tells htoken (Answer.reply.inj hsame))
        | listRooms => exact hne (listRooms_tells hm (Answer.reply.inj hsame))
        | createRoom => trivial
        | deleteRoom => trivial
        | watchRoom => trivial
      | udp => trivial
      | webSocket => trivial
      | evictIdle => trivial
    · intro hdiscreet
      exact (hmatched.step hdiscreet).1

/-- Who watches the room is not told, who lists the rooms is. -/
theorem session_told_radio :
    let relay (sid : UInt32) : Relay :=
      ⟨withRoom .toy "GRVT-2847" "radio" (.new 2 2) sid, 0⟩
    let m : Moment := ⟨0, 0, ["GRVT-2847"], ""⟩
    trace (step .toy) (relay 1) [(m, .grpc (.watchRoom "GRVT-2847"))] =
        trace (step .toy) (relay 2) [(m, .grpc (.watchRoom "GRVT-2847"))] ∧
      (step .toy (relay 1) (m, .grpc .listRooms)).1 ≠
        (step .toy (relay 2) (m, .grpc .listRooms)).1 := by
  intro relay m
  obtain ⟨hsecret, htold⟩ := session_told .toy (.new 2 2) 0
    (show isValidCode "GRVT-2847" = true by decide +kernel) (show "radio" ≠ "" by decide)
    (show (1 : UInt32) ≠ 2 by decide)
  constructor
  · apply hsecret
    intro x hx
    rw [List.mem_singleton.mp hx]
    trivial
  · refine (htold m (.grpc .listRooms) ⟨List.nodup_singleton _, fun k => ?_⟩).not.mpr not_false
    rw [List.mem_singleton]
    exact (Finmap.mem_insert.trans (or_iff_left Finmap.notMem_empty)).symm

end Control
end GravitalTalk
