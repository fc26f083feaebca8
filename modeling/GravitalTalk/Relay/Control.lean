import GravitalTalk.Lib.Trace
import GravitalTalk.Relay.Ingress
import GravitalTalk.Relay.Rooms

/-!
# The control plane of the relay

The HTTP requests of `observability.rs` and the calls of `grpc.rs`. Both work on the
one router that forwards the datagrams; a client of either may name a room that was
created through the other.
-/
namespace GravitalTalk

/-- The router, and the `COUNTER` of the codes. -/
structure Relay where
  router : Router
  counter : UInt64

namespace Control

open Observability Rooms

/-- What a request finds: the clock, the order in which the map of the rooms is gone through, and
what the metrics are at that moment. -/
structure Moment where
  now : ℕ
  nanos : UInt64
  order : List String
  metrics : String

/-! ## HTTP -/

inductive Method
  | get
  | post
  | delete
  | other
  deriving DecidableEq, Repr

structure Request where
  method : Method
  path : String
  query : Option String
  body : Bytes

/-- `str::strip_prefix`. -/
def stripPrefix (start s : String) : Option String :=
  (s.toList.dropPrefix? start.toList).map String.ofList

/-- The first `token=` of a query. -/
def queryToken (query : String) : Option String :=
  (query.toList.splitOn '&').findSome? fun kv => stripPrefix "token=" (String.ofList kv)

def methodNotAllowed : Response :=
  jsonResponse 405 "\x7b\"error\":\"method not allowed\"\x7d"

/-- A code is drawn for a body that names a session. -/
def drawsCode (body : Bytes) : Bool := (extractSessionId body).any fun id => id ≠ 0

/-- What is said of a room. -/
def roomBody (code : String) (sessionId : UInt32) (peers : ℕ) : String :=
  "\x7b\"code\":\"" ++ code ++ "\",\"session_id\":" ++ toString sessionId.toNat ++
    ",\"peer_count\":" ++ toString peers ++ "\x7d"

def handleGetRoom (C : Crypto) (code : String) (token : Option String) (r : Router) : Response :=
  if !isValidCode code then jsonResponse 400 "\x7b\"error\":\"invalid room code format\"\x7d"
  else if r.roomRequiresToken code && token.isNone then
    jsonResponse 401 "\x7b\"error\":\"room requires token\"\x7d"
  else match r.resolveRoom C code token with
    | none => jsonResponse 404 "\x7b\"error\":\"room not found\"\x7d"
    | some sessionId => jsonResponse 200 (roomBody code sessionId (r.peerCount sessionId))

def handleDeleteRoom (code : String) (r : Router) : Response × Router :=
  match r.removeRoom code with
  | (true, r) => (jsonResponse 200 "\x7b\"deleted\":true\x7d", r)
  | (false, r) => (jsonResponse 404 "\x7b\"error\":\"room not found\"\x7d", r)

def handleListRooms (order : List String) (r : Router) : Response :=
  let entries := (r.listRooms order).map fun room => roomBody room.1 room.2.1 room.2.2
  jsonResponse 200 ("[" ++ ",".intercalate entries ++ "]\n")

/-- `handle`. -/
def handle (C : Crypto) (m : Moment) (req : Request) (s : Relay) : Response × Relay :=
  if req.path = "/healthz" then (jsonResponse 200 "\"ok\"", s)
  else if req.path = "/metrics" then (⟨200, m.metrics⟩, s)
  else if req.path = "/api/rooms" then
    match req.method with
    | .get => (handleListRooms m.order s.router, s)
    | .post =>
      let d := handleCreateRoom C req.body (generateCode m.nanos s.counter) s.router
      (d.1, ⟨d.2, if drawsCode req.body then s.counter + 1 else s.counter⟩)
    | _ => (methodNotAllowed, s)
  else match stripPrefix "/api/rooms/" req.path with
    | some code =>
      match req.method with
      | .get => (handleGetRoom C code (req.query.bind queryToken) s.router, s)
      | .delete =>
        let d := handleDeleteRoom code s.router
        (d.1, { s with router := d.2 })
      | _ => (methodNotAllowed, s)
    | none => (⟨404, "\x7b\"error\":\"not found\"\x7d\n"⟩, s)

/-! ## gRPC -/

inductive Code
  | invalidArgument
  | alreadyExists
  | unauthenticated
  | notFound
  deriving DecidableEq, Repr

structure Room where
  code : String
  sessionId : UInt32
  peerCount : Int32
  deriving DecidableEq

inductive Call
  | createRoom (sessionId : UInt32) (token : String)
  | getRoom (code token : String)
  | listRooms
  | deleteRoom (code : String)
  | watchRoom (code : String)
  deriving DecidableEq, Repr

inductive Reply
  | room (room : Room)
  | rooms (rooms : List Room)
  | deleted (deleted : Bool)
  /-- The events of this session follow. -/
  | events (sessionId : UInt32)
  | status (code : Code) (message : String)
  deriving DecidableEq

def toProtoRoom (code : String) (sessionId : UInt32) (r : Router) : Room :=
  ⟨code, sessionId, Int32.ofNat (r.peerCount sessionId)⟩

/-- An empty token is none. -/
def tokenOf (token : String) : Option String := if token = "" then none else some token

def createRoom (C : Crypto) (m : Moment) (sessionId : UInt32) (token : String) (s : Relay) :
    Reply × Relay :=
  if sessionId = 0 then (.status .invalidArgument "session_id must be > 0", s)
  else
    let code := generateCode m.nanos s.counter
    match s.router.registerRoom C code sessionId (tokenOf token) with
    | (false, r) => (.status .alreadyExists "room code collision, retry", ⟨r, s.counter + 1⟩)
    | (true, r) => (.room (toProtoRoom code sessionId r), ⟨r, s.counter + 1⟩)

def getRoom (C : Crypto) (code token : String) (r : Router) : Reply :=
  if r.roomRequiresToken code && token = "" then .status .unauthenticated "room requires token"
  else match r.resolveRoom C code (tokenOf token) with
    | none => .status .notFound "room not found"
    | some sessionId => .room (toProtoRoom code sessionId r)

def listRooms (order : List String) (r : Router) : Reply :=
  .rooms ((r.listRooms order).map fun room => toProtoRoom room.1 room.2.1 r)

def watchRoom (C : Crypto) (code : String) (r : Router) : Reply :=
  if r.roomRequiresToken code then .status .unauthenticated "room requires token"
  else match r.resolveRoom C code none with
    | none => .status .notFound "room not found"
    | some sessionId => .events sessionId

/-- The call of `ServerControl`. -/
def serve (C : Crypto) (m : Moment) (call : Call) (s : Relay) : Reply × Relay :=
  match call with
  | .createRoom sessionId token => createRoom C m sessionId token s
  | .getRoom code token => (getRoom C code token s.router, s)
  | .listRooms => (listRooms m.order s.router, s)
  | .deleteRoom code =>
    let d := s.router.removeRoom code
    (.deleted d.1, { s with router := d.2 })
  | .watchRoom code => (watchRoom C code s.router, s)

/-! ## The relay -/

/-- A request or a datagram comes in, or the relay removes idle routes. -/
inductive Event
  | http (request : Request)
  | grpc (call : Call)
  | udp (datagram : Bytes) (sender : SocketAddr)
  | webSocket (datagram : Bytes) (channel : ℕ)
  | evictIdle (maxAgeSecs : ℕ) (isClosed : ℕ → Bool)

inductive Answer
  | response (response : Response)
  | reply (reply : Reply)
  | sends (sends : Sends)

def step (C : Crypto) (s : Relay) (x : Moment × Event) : Answer × Relay :=
  match x.2 with
  | .http request =>
    let d := handle C x.1 request s
    (.response d.1, d.2)
  | .grpc call =>
    let d := serve C x.1 call s
    (.reply d.1, d.2)
  | .udp datagram sender =>
    let d := s.router.udpIngress datagram sender x.1.now
    (.sends d.1, { s with router := d.2 })
  | .webSocket datagram channel =>
    let d := s.router.wsIngress datagram channel x.1.now
    (.sends d.1, { s with router := d.2 })
  | .evictIdle maxAgeSecs isClosed =>
    (.sends [], { s with router := s.router.evictIdle maxAgeSecs isClosed x.1.now })

end Control
end GravitalTalk
