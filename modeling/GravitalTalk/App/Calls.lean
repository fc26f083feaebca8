import GravitalTalk.App.Contacts
import Mathlib.Data.Finset.Basic

/-!
# Calls between contacts

The rest of `contacts.dart`: calling a contact, being called, inviting with a link, and the
mailbox in which a device listens for all of them.

What the service reads of the session controller, and the clock, are read anew in every step.
An operation that goes on after it has waited for the list to be saved leaves the rest of its
work behind as a `Save`; its timers are in the state until they fire. There is a mailbox.
Sounds, notifications and the sockets are left out: what is sent is recorded.
-/
namespace GravitalTalk

inductive ConnectionRole
  | host | join
  deriving DecidableEq, Repr

/-- What a step reads of the session controller. -/
structure Controller where
  isLive : Bool
  busy : Bool
  role : Option ConnectionRole
  roomCode : Option Text
  /-- `server.token`. -/
  token : Text
  /-- The invitation to the room that is open. -/
  pairingUri : Option Text
  answerUri : Option Text
  deriving DecidableEq, Repr

/-- The members `t` and `uri` of a message beside those of `KnockMessage`. -/
structure CallsPlatform extends ContactsPlatform where
  kindOf : Bytes → Option Text
  uriOf : Bytes → Option Text

structure IncomingCall where
  contact : Contact
  invite : Text
  auto : Bool
  deriving DecidableEq, Repr

/-- The timer of a call that was made. -/
structure CallTimer where
  contactId : Text
  started : ℤ
  hadRoom : Bool
  deriving DecidableEq, Repr

/-- Timers that send once. -/
inductive Timer
  | hello (contact : Contact)
  | ring (contactId invite : Text)
  deriving DecidableEq, Repr

/-- What is left to do once the list is saved. -/
inductive Save
  | plain
  /-- The rest of `addFromLink`. -/
  | opened (contact : Contact)
  /-- The rest of `_onPaired` of a guest. -/
  | met (contact : Contact)
  deriving DecidableEq, Repr

/-- A message that went out: to whom, sealed under which secret. -/
structure SentKnock where
  contactId : Text
  secret : Text
  kind : Text
  invite : Option Text
  deriving DecidableEq, Repr

/-- `_callTimeout` in milliseconds. -/
def callTimeoutMs : ℤ := 45000

def autoAcceptMs : ℤ := 30000

/-- How often the answer to a call is repeated. -/
def answerTicks : ℕ := 25

structure Calls where
  list : ContactsService
  saves : List Save
  /-- `_subscribed`, and the topics of the mailbox itself. -/
  subscribed : Finset Text
  box : Finset Text
  activeId : Option Text
  callTimer : Option CallTimer
  dismissed : Finset Text
  invitingId : Option Text
  greeted : Finset Text
  autoAcceptId : Option Text
  autoAcceptUntil : ℤ
  autoCall : Option Contact
  incoming : Option IncomingCall
  accepted : Option Contact
  wasLive : Bool
  talkingId : Option Text
  roomId : Option Text
  roomSecret : Option Text
  /-- `_answerTimer`: who called, and how often it has fired. -/
  answering : Option (Text × ℕ)
  /-- `_roomAnswerTimer`: id and token of the room. -/
  roomAnswering : Option (Text × Text)
  timers : List Timer
  sent : List SentKnock
  /-- Answers handed to the controller. -/
  applied : List Text
  deriving DecidableEq

namespace Calls

open ContactsService (idFor)

variable (P : CallsPlatform) (c : Controller) (now : ℤ)

def new : Calls :=
  ⟨.new, [], ∅, ∅, none, none, ∅, none, ∅, none, 0, none, none, none, false, none, none, none,
    none, none, [], [], []⟩

/-- `_topic`. -/
def topic (contactId : Text) : Text := text "gt/1/" ++ contactId

/-- The contacts to listen for, and the room. -/
def wanted (s : Calls) : Finset Text :=
  (s.list.contacts.map (·.id)).toFinset ∪ s.roomId.toFinset

/-- `_syncMailbox`. -/
def syncMailbox (s : Calls) : Calls :=
  { s with
    box := (s.box ∪ (s.wanted \ s.subscribed).image topic) \ (s.subscribed \ s.wanted).image topic
    subscribed := s.wanted }

/-- `_save`, with what its caller goes on to do. -/
def save (list : ContactsService) (rest : Save) (s : Calls) : Calls :=
  { s with list := list, saves := s.saves ++ [rest] }

def send (contactId secret kind : Text) (invite : Option Text) (s : Calls) : Calls :=
  { s with sent := ⟨contactId, secret, kind, invite⟩ :: s.sent }

def sendTo (contact : Contact) (kind : Text) (invite : Option Text) (s : Calls) : Calls :=
  s.send contact.id contact.secret kind invite

/-! ## The list -/

def rename (contact : Contact) (name : Text) (s : Calls) : Calls :=
  if trim name = [] then s else s.save (s.list.rename contact name) .plain

def edit (contactId : Text) (note : Option Text) (muted autoAnswer : Option Bool) (s : Calls) :
    Calls :=
  match s.list.byId contactId with
  | none => s
  | some _ => s.save (s.list.edit contactId note muted autoAnswer) .plain

def remove (contact : Contact) (s : Calls) : Calls := s.save (s.list.remove contact) .plain

def contactLink (secret : Text) (s : Calls) : Calls :=
  { s with list := s.list.contactLink P.toContactsPlatform secret }

def linkSaved (secret : Text) (s : Calls) : Calls :=
  match idFor P.toContactsPlatform secret with
  | none => s
  | some _ =>
    if s.list.drawn.contains secret then
      s.save (s.list.linkSaved P.toContactsPlatform secret) .plain
    else s

/-- `addFromLink` up to the save; the contact is the first of the list then. -/
def addFromLink (raw : Text) (s : Calls) : Calls :=
  match ContactLink.tryParse P.uris raw with
  | none => s
  | some link =>
    if link.device = P.deviceId then s
    else match idFor P.toContactsPlatform link.secret with
      | none => s
      | some _ =>
        let list := s.list.addFromLink P.toContactsPlatform raw
        s.save list (match list.contacts with
          | contact :: _ => .opened contact
          | [] => .plain)

/-- A save is done: listen where it is due, and go on with what was left. -/
def saved (i : ℕ) (s : Calls) : Calls :=
  match s.saves[i]? with
  | none => s
  | some rest =>
    let s := syncMailbox { s with saves := s.saves.eraseIdx i }
    match rest with
    | .plain => s
    | .opened contact =>
      { s with
        autoAcceptId := some contact.id
        autoAcceptUntil := now + autoAcceptMs
        timers := s.timers ++ List.replicate 5 (.hello contact) }
    | .met contact => { s with timers := s.timers ++ List.replicate 3 (.hello contact) }

/-! ## The room -/

/-- `_roomToken`. -/
def roomToken : Option Text :=
  if c.role = none ∨ c.roomCode = none ∨ c.token = [] then none else some c.token

/-- The part of `_syncRoom` about the room of which this device is the host. -/
def syncHosted (s : Calls) : Calls :=
  let token := (roomToken c).filter fun _ => c.role = some .host
  let id := token.bind (idFor P.toContactsPlatform)
  if id = s.roomId then s
  else syncMailbox { s with roomId := id, roomSecret := if id = none then none else token }

/-- `send` of `_syncRoom`. -/
def answerRoom (id token : Text) (s : Calls) : Calls :=
  match c.answerUri with
  | none => s
  | some answer => s.send id token (text "answer") (some answer)

/-- `_syncRoom`. -/
def syncRoom (s : Calls) : Calls :=
  let s := s.syncHosted P c
  match (roomToken c).filter fun _ => c.role = some .join && c.answerUri.isSome && !c.isLive with
  | none => { s with roomAnswering := none }
  | some token =>
    if s.roomAnswering.isSome then s
    else match idFor P.toContactsPlatform token with
      | none => s
      | some id => { s.answerRoom c id token with roomAnswering := some (id, token) }

def roomTick (s : Calls) : Calls :=
  match s.roomAnswering with
  | none => s
  | some (id, token) => s.answerRoom c id token

/-- `_onRoomDatagram`. -/
def onRoomDatagram (secret : Text) (data : Bytes) (s : Calls) : Calls :=
  match P.knockOpen secret data with
  | none => s
  | some plain =>
    match P.jsonDecode plain, P.uriOf plain with
    | some ⟨device, some ts, _⟩, some answer =>
      if device = some P.deviceId ∨ maxAgeMs < |now - ts| ∨ P.kindOf plain ≠ some (text "answer")
      then s
      else { s with applied := answer :: s.applied }
    | _, _ => s

/-! ## Inviting -/

def startInviting (link : Text) (s : Calls) : Calls :=
  { s with
    invitingId := (ContactLink.tryParse P.uris link).bind fun parsed =>
      idFor P.toContactsPlatform parsed.secret
    greeted := ∅ }

def stopInviting (s : Calls) : Calls :=
  { s with invitingId := none, greeted := ∅, autoCall := none }

/-- `ring`: invite a contact to the room that is open. -/
def ring (contact : Contact) (s : Calls) : Calls :=
  match c.pairingUri with
  | none => s
  | some invite => { s with timers := s.timers ++ List.replicate 5 (.ring contact.id invite) }

/-- `_onGreeting`. -/
def onGreeting (contact : Contact) (s : Calls) : Calls :=
  if some contact.id ≠ s.invitingId ∨ contact.device = [] then s
  else if contact.device ∈ s.greeted then s
  else
    let s := { s with greeted := insert contact.device s.greeted }
    if c.isLive then s.ring c contact
    else if !c.busy && s.callTimer.isNone then { s with autoCall := some contact }
    else s

/-- The screen goes on to call. -/
def takeAutoCall (s : Calls) : Calls := { s with autoCall := none }

/-- A timer fires. -/
def fire (i : ℕ) (s : Calls) : Calls :=
  match s.timers[i]? with
  | none => s
  | some timer =>
    let s := { s with timers := s.timers.eraseIdx i }
    match timer with
    | .hello contact => s.sendTo contact (text "hello") none
    | .ring contactId invite =>
      match s.list.byId contactId with
      | none => s
      | some target =>
        if c.pairingUri = some invite then s.sendTo target (text "call") (some invite) else s

/-! ## Calling -/

/-- `tick` of `call`. -/
def tick (s : Calls) : Calls :=
  match s.callTimer with
  | none => s
  | some timer =>
    if c.isLive ∨ callTimeoutMs < now - timer.started ∨
        (timer.hadRoom = true ∧ c.pairingUri = none) then
      { s with callTimer := none, activeId := if c.isLive then s.activeId else none }
    else match c.pairingUri with
      | none => s
      | some invite =>
        let s := { s with callTimer := some { timer with hadRoom := true } }
        match s.list.byId timer.contactId with
        | none => s
        | some target => s.sendTo target (text "call") (some invite)

def call (contact : Contact) (s : Calls) : Calls :=
  tick c now { s with
    activeId := some contact.id
    callTimer := some ⟨contact.id, now, false⟩ }

def cancelCall (s : Calls) : Calls :=
  if s.callTimer.isNone then s else { s with callTimer := none, activeId := none }

/-- What `_onPaired` does once the contact is stored, which is the first of the list then. -/
def afterPaired (e : PairedEvent) (list : ContactsService) : Save :=
  match list.contacts with
  | contact :: _ => if e.isHost then .plain else .met contact
  | [] => .plain

/-- `_onPaired` up to the save. -/
def onPaired (e : PairedEvent) (s : Calls) : Calls :=
  let list := s.list.onPaired P.toContactsPlatform s.activeId e now
  let active := s.list.byId (s.activeId.getD [])
  let s := { s with callTimer := none, activeId := none }
  match active with
  | some active => { s.save list .plain with talkingId := some active.id }
  | none =>
    if e.token = [] then s
    else match idFor P.toContactsPlatform e.token with
      | none => s
      | some id => { s.save list (afterPaired e list) with talkingId := some id }

/-- `_onController`. -/
def onController (s : Calls) : Calls :=
  let s := s.syncRoom P c
  let ended := s.wasLive && !c.isLive
  let s := if ended && s.invitingId.isSome then s.stopInviting else s
  let s := if ended then { s with talkingId := none } else s
  { s with wasLive := c.isLive }

/-! ## Being called -/

/-- A greeting: somebody opened an invitation of this device. -/
def onHello (contact updated : Contact) (s : Calls) : Calls :=
  let s := if contact.device = [] ∧ contact.name = pendingName then
    { s with accepted := some updated } else s
  s.onGreeting c updated

/-- A contact calls. -/
def onCall (updated : Contact) (invite : Text) (s : Calls) : Calls :=
  if c.isLive ∨ c.busy then s
  else if invite ∈ s.dismissed ∨ s.incoming.map (·.invite) = some invite then s
  else if updated.muted then s
  else
    let auto := updated.autoAnswer ||
      (some updated.id = s.autoAcceptId && decide (now < s.autoAcceptUntil))
    { s with
      autoAcceptId := if auto then none else s.autoAcceptId
      incoming := some ⟨updated, invite, auto⟩ }

/-- What a message says, once its sender is stored. -/
def onMessage (contact updated : Contact) (kind invite : Option Text) (s : Calls) : Calls :=
  let s := if kind = some (text "hello") then s.onHello c contact updated else s
  match invite with
  | none => s
  | some invite =>
    if kind = some (text "answer") then { s with applied := invite :: s.applied }
    else if kind = some (text "call") then s.onCall c now updated invite
    else s

/-- `handleDatagram`. -/
def handleDatagram (data : Bytes) (origin : Option Origin) (s : Calls) : Calls :=
  if data.length < 41 ∨ data.head? ≠ some 0x47 then s
  else
    let id := hex ((data.drop 5).take 8)
    match s.list.byId id with
    | none =>
      match s.roomSecret with
      | none => s
      | some secret => if some id = s.roomId then s.onRoomDatagram P now secret data else s
    | some contact =>
      match P.knockOpen contact.secret data with
      | none => s
      | some plain =>
        match P.jsonDecode plain with
        | some ⟨some device, some ts, name⟩ =>
          if device = P.deviceId ∨ maxAgeMs < |now - ts| then s
          else
            let updated := ContactsService.heard contact device name origin now
            (s.save (s.list.put updated) .plain).onMessage c now contact updated (P.kindOf plain)
              (P.uriOf plain)
        | _ => s

/-- `_sendAnswers`, each time its timer fires. -/
def answerTick (s : Calls) : Calls :=
  match s.answering with
  | none => s
  | some (contactId, ticks) =>
    if answerTicks < ticks + 1 ∨ c.isLive then { s with answering := none }
    else match s.list.byId contactId with
      | none => { s with answering := none }
      | some contact =>
        let s := { s with answering := some (contactId, ticks + 1) }
        match c.answerUri with
        | none => s
        | some answer => s.sendTo contact (text "answer") (some answer)

def accept (s : Calls) : Calls :=
  match s.incoming with
  | none => s
  | some call =>
    { s with
      incoming := none
      dismissed := insert call.invite s.dismissed
      activeId := some call.contact.id
      answering := some (call.contact.id, 0) }

def reject (s : Calls) : Calls :=
  match s.incoming with
  | none => s
  | some call => { s with incoming := none, dismissed := insert call.invite s.dismissed }

/-- `init`, with the contacts that were stored. -/
def init (contacts : List Contact) : Calls :=
  syncMailbox { new with list := { ContactsService.new with contacts := contacts } }

/-! ## Runs -/

/-- What the user does, what arrives, and what timers and saves do. -/
inductive Op
  | rename (contact : Contact) (name : Text)
  | edit (contactId : Text) (note : Option Text) (muted autoAnswer : Option Bool)
  | remove (contact : Contact)
  | contactLink (secret : Text)
  | linkSaved (secret : Text)
  | addFromLink (raw : Text)
  | saved (i : ℕ)
  | startInviting (link : Text)
  | stopInviting
  | takeAutoCall
  | ring (contact : Contact)
  | fire (i : ℕ)
  | call (contact : Contact)
  | tick
  | cancelCall
  | paired (e : PairedEvent)
  | controller
  | roomTick
  | datagram (data : Bytes) (origin : Option Origin)
  | answerTick
  | accept
  | reject
  deriving DecidableEq, Repr

/-- A step: what the controller and the clock say, and what happens. -/
abbrev Event := Controller × ℤ × Op

def step (s : Calls) (e : Event) : Calls :=
  match e with
  | (_, _, .rename contact name) => s.rename contact name
  | (_, _, .edit contactId note muted autoAnswer) => s.edit contactId note muted autoAnswer
  | (_, _, .remove contact) => s.remove contact
  | (_, _, .contactLink secret) => s.contactLink P secret
  | (_, _, .linkSaved secret) => s.linkSaved P secret
  | (_, _, .addFromLink raw) => s.addFromLink P raw
  | (_, now, .saved i) => s.saved now i
  | (_, _, .startInviting link) => s.startInviting P link
  | (_, _, .stopInviting) => s.stopInviting
  | (_, _, .takeAutoCall) => s.takeAutoCall
  | (c, _, .ring contact) => s.ring c contact
  | (c, _, .fire i) => s.fire c i
  | (c, now, .call contact) => s.call c now contact
  | (c, now, .tick) => s.tick c now
  | (_, _, .cancelCall) => s.cancelCall
  | (_, now, .paired e) => s.onPaired P now e
  | (c, _, .controller) => s.onController P c
  | (c, _, .roomTick) => s.roomTick c
  | (c, now, .datagram data origin) => s.handleDatagram P c now data origin
  | (c, _, .answerTick) => s.answerTick c
  | (_, _, .accept) => s.accept
  | (_, _, .reject) => s.reject

/-! ## What a step touches

The mailbox depends on a few fields, and whether a call rings on a few others. Most operations
leave both alone. -/

/-- What listening depends on. -/
def mail (s : Calls) : Finset Text × Finset Text × List Save × List Contact × Option Text :=
  (s.box, s.subscribed, s.saves, s.list.contacts, s.roomId)

/-- What ringing depends on, beside the contacts. -/
def bell (s : Calls) : Option IncomingCall × Finset Text × Option Text × ℤ :=
  (s.incoming, s.dismissed, s.autoAcceptId, s.autoAcceptUntil)

/-- Neither changes. -/
structure Aside (s t : Calls) : Prop where
  mail : t.mail = s.mail
  bell : t.bell = s.bell

section Asides

variable {P c now} {s t u : Calls}

theorem Aside.trans (h : Aside s t) (h' : Aside t u) : Aside s u :=
  ⟨h'.mail.trans h.mail, h'.bell.trans h.bell⟩

theorem aside_ring (contact : Contact) (s : Calls) : Aside s (s.ring c contact) := by
  unfold ring
  split
  · exact ⟨rfl, rfl⟩
  · exact ⟨rfl, rfl⟩

theorem aside_onGreeting (contact : Contact) (s : Calls) :
    Aside s (s.onGreeting c contact) := by
  have hgreeted : Aside s { s with greeted := insert contact.device s.greeted } := ⟨rfl, rfl⟩
  unfold onGreeting
  dsimp only
  split_ifs
  · exact ⟨rfl, rfl⟩
  · exact ⟨rfl, rfl⟩
  · exact hgreeted.trans (aside_ring contact _)
  · exact ⟨rfl, rfl⟩
  · exact hgreeted

theorem aside_onHello (contact updated : Contact) (s : Calls) :
    Aside s (s.onHello c contact updated) := by
  unfold onHello
  dsimp only
  split_ifs
  · have haccepted : Aside s { s with accepted := some updated } := ⟨rfl, rfl⟩
    exact haccepted.trans (aside_onGreeting updated _)
  · exact aside_onGreeting updated s

theorem aside_onRoomDatagram (secret : Text) (data : Bytes) (s : Calls) :
    Aside s (s.onRoomDatagram P now secret data) := by
  unfold onRoomDatagram
  split
  · exact ⟨rfl, rfl⟩
  · split
    · split_ifs <;> exact ⟨rfl, rfl⟩
    · exact ⟨rfl, rfl⟩

theorem aside_answerRoom (id token : Text) (s : Calls) : Aside s (s.answerRoom c id token) := by
  unfold answerRoom
  split <;> exact ⟨rfl, rfl⟩

theorem aside_roomTick (s : Calls) : Aside s (s.roomTick c) := by
  unfold roomTick
  split
  · exact ⟨rfl, rfl⟩
  · exact aside_answerRoom _ _ s

theorem aside_fire (i : ℕ) (s : Calls) : Aside s (s.fire c i) := by
  unfold fire
  split
  · exact ⟨rfl, rfl⟩
  · split
    · exact ⟨rfl, rfl⟩
    · dsimp only
      split
      · exact ⟨rfl, rfl⟩
      · split_ifs <;> exact ⟨rfl, rfl⟩

theorem aside_tick (s : Calls) : Aside s (s.tick c now) := by
  unfold tick
  split
  · exact ⟨rfl, rfl⟩
  · split_ifs
    · exact ⟨rfl, rfl⟩
    · exact ⟨rfl, rfl⟩
    · split
      · exact ⟨rfl, rfl⟩
      · dsimp only
        split <;> exact ⟨rfl, rfl⟩

theorem aside_call (contact : Contact) (s : Calls) : Aside s (s.call c now contact) := by
  have hset : Aside s { s with
      activeId := some contact.id
      callTimer := some ⟨contact.id, now, false⟩ } := ⟨rfl, rfl⟩
  exact hset.trans (aside_tick _)

theorem aside_cancelCall (s : Calls) : Aside s s.cancelCall := by
  unfold cancelCall
  split_ifs <;> exact ⟨rfl, rfl⟩

theorem aside_answerTick (s : Calls) : Aside s (s.answerTick c) := by
  unfold answerTick
  split
  · exact ⟨rfl, rfl⟩
  · split_ifs
    · exact ⟨rfl, rfl⟩
    · split
      · exact ⟨rfl, rfl⟩
      · dsimp only
        split <;> exact ⟨rfl, rfl⟩

theorem aside_contactLink (secret : Text) (s : Calls) : Aside s (s.contactLink P secret) := by
  have hcontacts := ContactsService.contacts_contactLink (P := P.toContactsPlatform) (s := s.list)
    secret
  constructor
  · simp only [mail, contactLink, hcontacts]
  · rfl

end Asides

end Calls
end GravitalTalk
