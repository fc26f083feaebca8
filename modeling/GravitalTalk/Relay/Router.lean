import GravitalTalk.Lib.Run
import GravitalTalk.Transport.Registry

/-!
# The routing table of the relay

`router.rs`: which endpoints are in which session, and who holds its floor. One
call is one step here, at one instant; `Relay.Registration` takes the calls apart.
-/
namespace GravitalTalk

/-- A peer of a group. A channel is known by its identity. -/
inductive SessionEndpoint
  | udp (addr : SocketAddr)
  | webSocket (channel : ℕ)
  deriving DecidableEq, Repr

namespace SessionEndpoint

/-- `matches`. -/
def isMatch : SessionEndpoint → SessionEndpoint → Bool
  | udp a, udp b => a == b
  | webSocket a, webSocket b => a == b
  | _, _ => false

@[simp] theorem isMatch_iff (a b : SessionEndpoint) : a.isMatch b = true ↔ a = b := by
  cases a <;> cases b <;> simp [isMatch]

end SessionEndpoint

/-- The longest hold of the floor, in microseconds. -/
def floorMaxHold : ℕ := 30 * 1000000

structure RouteEntry where
  peers : List SessionEndpoint
  lastActivity : ℕ
  floorHolder : Option SocketAddr
  floorGrantedAt : Option ℕ
  deriving DecidableEq, Repr

namespace RouteEntry

def new (now : ℕ) : RouteEntry := ⟨[], now, none, none⟩

/-- Nobody has the floor, or the holder has had it for too long. -/
def floorIsFree (now : ℕ) (e : RouteEntry) : Bool :=
  match e.floorHolder, e.floorGrantedAt with
  | none, _ => true
  | some _, some granted => floorMaxHold < now - granted
  | some _, none => false

/-- A holder that has had the floor for too long is off it. -/
def autoRelease (now : ℕ) (e : RouteEntry) : RouteEntry :=
  match e.floorHolder, e.floorGrantedAt with
  | some _, some granted =>
    if floorMaxHold < now - granted then { e with floorHolder := none, floorGrantedAt := none }
    else e
  | _, _ => e

def isKnown (sender : SessionEndpoint) (e : RouteEntry) : Bool := e.peers.any (·.isMatch sender)

/-- The peers a packet of `sender` goes to. -/
def others (sender : SessionEndpoint) (e : RouteEntry) : List SessionEndpoint :=
  e.peers.filter fun p => !p.isMatch sender

end RouteEntry

inductive RouteDecision
  | broadcast (targets : List SessionEndpoint)
  | registered
  | dropped
  deriving DecidableEq, Repr

/-- A packet goes to the targets, if there are any. -/
def RouteDecision.to (targets : List SessionEndpoint) : RouteDecision :=
  if targets.isEmpty then registered else broadcast targets

inductive FloorDecision
  | granted (others : List SessionEndpoint)
  | denied
  | released (others : List SessionEndpoint)
  | unknown
  deriving DecidableEq, Repr

def FloorDecision.isGranted : FloorDecision → Bool
  | granted _ => true
  | _ => false

def FloorDecision.isReleased : FloorDecision → Bool
  | released _ => true
  | _ => false

/-- A room code: its session, and the digest of its token. -/
structure RoomEntry where
  sessionId : UInt32
  tokenHash : Option String
  deriving DecidableEq, Repr

/-- The token's digest as a string. -/
def hashToken (C : Crypto) (token : String) : String :=
  let hexDigit (n : ℕ) : String := String.singleton (Nat.digitChar n)
  String.join ((C.sha256 (Crypto.label token)).toList.map fun b =>
    hexDigit (b.toNat / 16) ++ hexDigit (b.toNat % 16))

def RoomEntry.new (C : Crypto) (sessionId : UInt32) (token : Option String) : RoomEntry :=
  ⟨sessionId, (token.filter fun t => t ≠ "").map (hashToken C)⟩

structure Router where
  routes : Table UInt32 RouteEntry
  rooms : Table String RoomEntry
  maxSessions : ℕ
  maxPeersPerSession : ℕ
  rendezvous : Rendezvous.Registry

namespace Router

def new (maxSessions maxPeersPerSession : ℕ) : Router :=
  ⟨∅, ∅, maxSessions, maxPeersPerSession, .new maxSessions⟩

/-- The part of `route` that holds the entry of the session. -/
def admitTo (max : ℕ) (sender : SessionEndpoint) (now : ℕ) (e : RouteEntry) :
    RouteDecision × RouteEntry :=
  let e := { e with lastActivity := now }
  if e.isKnown sender then (.to (e.others sender), e)
  else if max ≤ e.peers.length then (.dropped, e)
  else (.to e.peers, { e with peers := e.peers ++ [sender] })

/-- The entry of a session that starts with `sender`. -/
def firstEntry (sender : SessionEndpoint) (now : ℕ) : RouteEntry :=
  { RouteEntry.new now with peers := [sender] }

def route (sessionId : UInt32) (sender : SessionEndpoint) (now : ℕ) (r : Router) :
    RouteDecision × Router :=
  if sessionId = 0 then (.dropped, r)
  else match r.routes.lookup sessionId with
    | some e =>
      let d := admitTo r.maxPeersPerSession sender now e
      (d.1, { r with routes := r.routes.insert sessionId d.2 })
    | none =>
      if r.maxSessions ≤ Table.size r.routes then (.dropped, r)
      else (.registered, { r with routes := r.routes.insert sessionId (firstEntry sender now) })

/-- What is left of an entry: a disconnected WebSocket goes, and so does a session without
peers or without traffic. -/
def keepEntry (maxAgeSecs : ℕ) (isClosed : ℕ → Bool) (now : ℕ) (e : RouteEntry) :
    Option RouteEntry :=
  let peers := e.peers.filter fun p => match p with
    | .webSocket channel => !isClosed channel
    | .udp _ => true
  if peers ≠ [] ∧ now - e.lastActivity < maxAgeSecs * 1000000 then some { e with peers := peers }
  else none

def evictIdle (maxAgeSecs : ℕ) (isClosed : ℕ → Bool) (now : ℕ) (r : Router) : Router :=
  { r with routes := Table.revise (fun _ e => keepEntry maxAgeSecs isClosed now e) r.routes }

/-- What `floor_request` does with the entry of the session. -/
def requestOn (sender : SocketAddr) (now : ℕ) (e : RouteEntry) : FloorDecision × RouteEntry :=
  if !e.isKnown (.udp sender) then (.unknown, e)
  else
    let e := if e.floorIsFree now then e else e.autoRelease now
    if !e.floorIsFree now then (.denied, e)
    else (.granted (e.others (.udp sender)),
      { e with floorHolder := some sender, floorGrantedAt := some now })

def releaseOn (sender : SocketAddr) (now : ℕ) (e : RouteEntry) : FloorDecision × RouteEntry :=
  let isHolder := e.floorHolder == some sender || e.floorIsFree now
  if !isHolder then (.denied, e)
  else (.released (e.others (.udp sender)), { e with floorHolder := none, floorGrantedAt := none })

/-- A step on the entry of one session; `unknown` when there is none. -/
def onEntry (sessionId : UInt32) (f : RouteEntry → FloorDecision × RouteEntry) (r : Router) :
    FloorDecision × Router :=
  match r.routes.lookup sessionId with
  | none => (.unknown, r)
  | some e => ((f e).1, { r with routes := r.routes.insert sessionId (f e).2 })

def floorRequest (sessionId : UInt32) (sender : SocketAddr) (now : ℕ) (r : Router) :
    FloorDecision × Router := r.onEntry sessionId (requestOn sender now)

def floorRelease (sessionId : UInt32) (sender : SocketAddr) (now : ℕ) (r : Router) :
    FloorDecision × Router := r.onEntry sessionId (releaseOn sender now)

def floorHolder (sessionId : UInt32) (r : Router) : Option SocketAddr :=
  (r.routes.lookup sessionId).bind RouteEntry.floorHolder

def registerRoom (C : Crypto) (code : String) (sessionId : UInt32) (token : Option String)
    (r : Router) : Bool × Router :=
  if code ∈ r.rooms then (false, r)
  else (true, { r with rooms := r.rooms.insert code (.new C sessionId token) })

/-! ## Runs -/

/-- A call of the routing table. -/
inductive Op
  | route (sessionId : UInt32) (sender : SessionEndpoint)
  | floorRequest (sessionId : UInt32) (sender : SocketAddr)
  | floorRelease (sessionId : UInt32) (sender : SocketAddr)
  | evictIdle (maxAgeSecs : ℕ) (isClosed : ℕ → Bool)

def step (r : Router) (x : ℕ × Op) : Router :=
  match x.2 with
  | .route s sender => (r.route s sender x.1).2
  | .floorRequest s sender => (r.floorRequest s sender x.1).2
  | .floorRelease s sender => (r.floorRelease s sender x.1).2
  | .evictIdle maxAgeSecs isClosed => r.evictIdle maxAgeSecs isClosed x.1

def run (r : Router) (steps : List (ℕ × Op)) : Router := steps.foldl step r

end Router
end GravitalTalk
