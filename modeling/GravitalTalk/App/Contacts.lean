import GravitalTalk.App.Links
import GravitalTalk.Lib.BigEndian
import GravitalTalk.Lib.Run

/-!
# The contact list

`contacts.dart`: the contacts of a device and the operations that change them. An operation
that only waits after it has changed the list is one step; `contactLink` waits between drawing
a secret and storing the contact, and is two.

The knock codec, the JSON of a message and the URI library are parameters. The service is
available, and a clock reading is an argument.
-/
namespace GravitalTalk

structure Contact where
  id : Text
  secret : Text
  name : Text
  device : Text
  custom : Bool
  note : Text
  muted : Bool
  autoAnswer : Bool
  lastLocal : Option Text
  lastPublic : Option Text
  lastSeen : ℤ
  deriving DecidableEq, Repr

structure PairedEvent where
  isHost : Bool
  token : Text
  room : Text
  peerName : Text
  peerDevice : Text
  peerHost : Option Text
  deriving DecidableEq, Repr

/-- The members of a message that `handleDatagram` reads, each of them absent when it is not of
its type. -/
structure KnockMessage where
  dev : Option Text
  ts : Option ℤ
  name : Option Text
  deriving DecidableEq, Repr

/-- Where a datagram came from, and whether that is a private address. -/
structure Origin where
  address : Text
  isPrivate : Bool
  deriving DecidableEq, Repr

/-- What the contacts use of the rest: the codec on the UTF-8 of a secret, the JSON of an opened
datagram, the URIs, and the identifier of this device. -/
structure ContactsPlatform where
  contactId : Text → Option Bytes
  knockOpen : Text → Bytes → Option Bytes
  jsonDecode : Bytes → Option KnockMessage
  uris : UriLibrary
  deviceId : Text

def pendingName : Text := text "Contacto nuevo"

/-- `_maxAge` in milliseconds. -/
def maxAgeMs : ℤ := 300000

def hexDigit (n : ℕ) : UInt16 := UInt16.ofNat (if n < 10 then 48 + n else 87 + n)

/-- `_hex`. -/
def hex (bytes : Bytes) : Text :=
  bytes.flatMap fun b => [hexDigit (b.toNat / 16), hexDigit (b.toNat % 16)]

/-- The part of the service that its list depends on: the list, the secret of the link that was
shown last, and the secrets that were drawn for a contact not yet stored. -/
structure ContactsService where
  contacts : List Contact
  pendingLink : Text
  drawn : List Text
  deriving DecidableEq, Repr

namespace ContactsService

variable (P : ContactsPlatform)

def new : ContactsService := ⟨[], [], []⟩

def idFor (secret : Text) : Option Text := (P.contactId secret).map hex

def byId (s : ContactsService) (id : Text) : Option Contact := s.contacts.find? (·.id = id)

/-- The first contact of a device, if the device is named. -/
def ofDevice (s : ContactsService) (device : Text) : Option Contact :=
  if device = [] then none else s.contacts.find? (·.device = device)

/-- `_put`: to the front, in place of those with its id or its device. -/
def put (s : ContactsService) (contact : Contact) : ContactsService :=
  { s with contacts := contact :: s.contacts.filter fun c =>
      c.id ≠ contact.id ∧ (contact.device = [] ∨ c.device ≠ contact.device) }

def rename (s : ContactsService) (contact : Contact) (name : Text) : ContactsService :=
  let clean := trim name
  if clean = [] then s else s.put { contact with name := clean, custom := true }

def edit (s : ContactsService) (contactId : Text) (note : Option Text)
    (muted autoAnswer : Option Bool) : ContactsService :=
  match s.byId contactId with
  | none => s
  | some current =>
    let updated := { current with
      note := (note.map fun n => (trim n).take 280).getD current.note
      muted := muted.getD current.muted
      autoAnswer := autoAnswer.getD current.autoAnswer }
    { s with contacts := s.contacts.map fun c => if c.id = contactId then updated else c }

def remove (s : ContactsService) (contact : Contact) : ContactsService :=
  { s with contacts := s.contacts.filter (·.id ≠ contact.id) }

/-- First part of `contactLink`, which draws a secret unless the link shown last is still
waiting for someone. -/
def contactLink (s : ContactsService) (secret : Text) : ContactsService :=
  let pending := if s.pendingLink = [] then none else s.byId ((idFor P s.pendingLink).getD [])
  if pending = none ∨ (pending.map (·.device)).getD [] ≠ [] then
    if idFor P secret = none then s
    else { s with pendingLink := secret, drawn := s.drawn ++ [secret] }
  else s

/-- Second part of `contactLink`, once the secret is saved. -/
def linkSaved (s : ContactsService) (secret : Text) : ContactsService :=
  match idFor P secret with
  | none => s
  | some id =>
    if secret ∈ s.drawn then
      { s with
        contacts := s.contacts ++
          [⟨id, secret, pendingName, [], false, [], false, false, none, none, 0⟩]
        drawn := s.drawn.erase secret }
    else s

/-- A name that the user gave stays, else the one that was told. -/
def keptName (known : Option Contact) (told : Text) : Text :=
  match known with
  | some c => if c.custom then c.name else told
  | none => told

def addFromLink (s : ContactsService) (raw : Text) : ContactsService :=
  match ContactLink.tryParse P.uris raw with
  | none => s
  | some link =>
    if link.device = P.deviceId then s
    else match idFor P link.secret with
      | none => s
      | some id =>
        let known := s.ofDevice link.device
        s.put { id := id, secret := link.secret, device := link.device
                name := keptName known (if link.name = [] then pendingName else link.name)
                custom := (known.map (·.custom)).getD false
                note := [], muted := false, autoAnswer := false
                lastLocal := link.ip, lastPublic := none
                lastSeen := (known.map (·.lastSeen)).getD 0 }

/-- `_onPaired`, with the contact of the call in progress. -/
def onPaired (s : ContactsService) (activeId : Option Text) (e : PairedEvent) (now : ℤ) :
    ContactsService :=
  match s.byId (activeId.getD []) with
  | some active =>
    s.put { active with lastSeen := now, lastLocal := e.peerHost.or active.lastLocal }
  | none =>
    if e.token = [] then s
    else match idFor P e.token with
      | none => s
      | some id =>
        let known := s.ofDevice e.peerDevice
        let told := if e.peerName ≠ [] then e.peerName
          else if e.isHost then text "Invitado de " ++ e.room else text "Sala " ++ e.room
        s.put { id := id, secret := e.token, device := e.peerDevice
                name := keptName known told
                custom := (known.map (·.custom)).getD false
                note := [], muted := false, autoAnswer := false
                lastLocal := e.peerHost, lastPublic := none, lastSeen := now }

/-- What `handleDatagram` makes of the contact that a message is from. -/
def heard (contact : Contact) (device : Text) (name : Option Text) (origin : Option Origin)
    (now : ℤ) : Contact :=
  let told := (name.map trim).filter (· ≠ [])
  { contact with
    device := device
    name := if contact.custom then contact.name else told.getD contact.name
    lastLocal := ((origin.filter (·.isPrivate)).map (·.address)).or contact.lastLocal
    lastPublic := ((origin.filter (!·.isPrivate)).map (·.address)).or contact.lastPublic
    lastSeen := now }

/-- What `handleDatagram` does to the list. -/
def handleDatagram (s : ContactsService) (data : Bytes) (origin : Option Origin) (now : ℤ) :
    ContactsService :=
  if data.length < 41 ∨ data.head? ≠ some 0x47 then s
  else match s.byId (hex ((data.drop 5).take 8)) with
    | none => s
    | some contact =>
      match (P.knockOpen contact.secret data).bind P.jsonDecode with
      | some ⟨some device, some ts, name⟩ =>
        if device = P.deviceId ∨ maxAgeMs < |now - ts| then s
        else s.put (heard contact device name origin now)
      | _ => s

inductive Op
  | contactLink (secret : Text)
  | linkSaved (secret : Text)
  | addFromLink (raw : Text)
  | onPaired (activeId : Option Text) (e : PairedEvent) (now : ℤ)
  | handleDatagram (data : Bytes) (origin : Option Origin) (now : ℤ)
  | rename (contact : Contact) (name : Text)
  | edit (contactId : Text) (note : Option Text) (muted autoAnswer : Option Bool)
  | remove (contact : Contact)
  deriving DecidableEq, Repr

def step (s : ContactsService) : Op → ContactsService
  | .contactLink secret => s.contactLink P secret
  | .linkSaved secret => s.linkSaved P secret
  | .addFromLink raw => s.addFromLink P raw
  | .onPaired activeId e now => s.onPaired P activeId e now
  | .handleDatagram data origin now => s.handleDatagram P data origin now
  | .rename contact name => s.rename contact name
  | .edit contactId note muted autoAnswer => s.edit contactId note muted autoAnswer
  | .remove contact => s.remove contact

/-! ## Distinct ids and devices -/

/-- Two contacts with other ids, and on other devices if they are on any. -/
def Apart (a b : Contact) : Prop := a.id ≠ b.id ∧ (a.device ≠ [] → a.device ≠ b.device)

/-- The id of a contact is the one of its secret. -/
def Genuine (c : Contact) : Prop := idFor P c.secret = some c.id

/-- What is asked of the arguments: a contact from elsewhere in the app has the id of its secret,
and the random generator did not draw a secret that is stored. -/
def Allowed (s : ContactsService) : Op → Prop
  | .rename contact _ => Genuine P contact
  | .linkSaved secret => ∀ c ∈ s.contacts, c.secret ≠ secret
  | _ => True

instance (s : ContactsService) (op : Op) : Decidable (Allowed P s op) := by
  cases op <;> unfold Allowed <;> first | infer_instance | (unfold Genuine; infer_instance)

structure Listed (s : ContactsService) : Prop where
  apart : s.contacts.Pairwise Apart
  genuine : ∀ c ∈ s.contacts, Genuine P c

variable {P} {s : ContactsService}

theorem listed_new : Listed P new := ⟨List.Pairwise.nil, by simp [new]⟩

theorem mem_of_byId {id : Text} {c : Contact} (h : s.byId id = some c) :
    c ∈ s.contacts ∧ c.id = id :=
  ⟨List.mem_of_find?_eq_some h, by simpa using List.find?_some h⟩

/-- An id names one contact. -/
theorem Listed.eq_of_id (h : Listed P s) {a b : Contact} (ha : a ∈ s.contacts)
    (hb : b ∈ s.contacts) (hid : a.id = b.id) : a = b := by
  have hids : (s.contacts.map Contact.id).Nodup :=
    List.pairwise_map.mpr (h.apart.imp fun hab => hab.1)
  exact List.inj_on_of_nodup_map hids ha hb hid

theorem Listed.sublist (h : Listed P s) {t : ContactsService}
    (hsub : t.contacts.Sublist s.contacts) : Listed P t :=
  ⟨h.apart.sublist hsub, fun c hc => h.genuine c (hsub.subset hc)⟩

/-- A contact at the front drives out all that are not apart from it. -/
theorem Listed.put (h : Listed P s) {contact : Contact} (hc : Genuine P contact) :
    Listed P (s.put contact) := by
  have hrest : Listed P { s with contacts := s.contacts.filter fun c =>
      c.id ≠ contact.id ∧ (contact.device = [] ∨ c.device ≠ contact.device) } :=
    h.sublist List.filter_sublist
  refine ⟨List.pairwise_cons.mpr ⟨?_, hrest.apart⟩, ?_⟩
  · intro c hkept
    obtain ⟨hid, hdevice⟩ := of_decide_eq_true (List.mem_filter.mp hkept).2
    exact ⟨hid.symm, fun hnamed => (hdevice.resolve_left hnamed).symm⟩
  · intro c hmem
    rcases List.mem_cons.mp hmem with rfl | hmem
    · exact hc
    · exact hrest.genuine c hmem

/-- A rewrite that keeps what a contact is known by. -/
theorem Listed.map (h : Listed P s) {f : Contact → Contact}
    (hf : ∀ c ∈ s.contacts, (f c).id = c.id ∧ (f c).secret = c.secret ∧ (f c).device = c.device) :
    Listed P { s with contacts := s.contacts.map f } := by
  constructor
  · refine List.pairwise_map.mpr (h.apart.imp_of_mem ?_)
    intro a b ha hb hab
    obtain ⟨hida, -, hdevicea⟩ := hf a ha
    obtain ⟨hidb, -, hdeviceb⟩ := hf b hb
    rw [Apart, hida, hidb, hdevicea, hdeviceb]
    exact hab
  · intro c hc
    obtain ⟨d, hd, rfl⟩ := List.mem_map.mp hc
    obtain ⟨hid, hsecret, -⟩ := hf d hd
    rw [Genuine, hid, hsecret]
    exact h.genuine d hd

theorem Listed.edit (h : Listed P s) (contactId : Text) (note : Option Text)
    (muted autoAnswer : Option Bool) : Listed P (s.edit contactId note muted autoAnswer) := by
  unfold ContactsService.edit
  cases hcurrent : s.byId contactId with
  | none => exact h
  | some current =>
    obtain ⟨hmem, hid⟩ := mem_of_byId hcurrent
    refine h.map fun c hc => ?_
    split_ifs with hsame
    · obtain rfl := h.eq_of_id hmem hc (hid.trans hsame.symm)
      exact ⟨rfl, rfl, rfl⟩
    · exact ⟨rfl, rfl, rfl⟩

theorem contacts_contactLink (secret : Text) : (s.contactLink P secret).contacts = s.contacts := by
  unfold contactLink
  dsimp only
  split_ifs <;> rfl

theorem Listed.linkSaved (h : Listed P s)
    (hinj : ∀ a b id, idFor P a = some id → idFor P b = some id → a = b) {secret : Text}
    (hfresh : ∀ c ∈ s.contacts, c.secret ≠ secret) : Listed P (s.linkSaved P secret) := by
  unfold ContactsService.linkSaved
  cases hid : idFor P secret with
  | none => exact h
  | some id =>
    dsimp only
    split_ifs
    · refine ⟨List.pairwise_append.mpr ⟨h.apart, List.pairwise_singleton _ _, ?_⟩, ?_⟩
      · intro c hc d hd
        rw [List.mem_singleton.mp hd]
        refine ⟨?_, fun hnamed => hnamed⟩
        intro heq
        exact hfresh c hc (hinj c.secret secret id (by rw [h.genuine c hc, heq]) hid)
      · intro c hc
        rcases List.mem_append.mp hc with hc | hc
        · exact h.genuine c hc
        · rw [List.mem_singleton.mp hc]
          exact hid
    · exact h

theorem Listed.addFromLink (h : Listed P s) (raw : Text) : Listed P (s.addFromLink P raw) := by
  unfold ContactsService.addFromLink
  cases ContactLink.tryParse P.uris raw with
  | none => exact h
  | some link =>
    dsimp only
    by_cases hself : link.device = P.deviceId
    · rw [if_pos hself]
      exact h
    · rw [if_neg hself]
      cases hid : idFor P link.secret with
      | none => exact h
      | some id => exact h.put hid

theorem Listed.onPaired (h : Listed P s) (activeId : Option Text) (e : PairedEvent) (now : ℤ) :
    Listed P (s.onPaired P activeId e now) := by
  unfold ContactsService.onPaired
  cases hactive : s.byId (activeId.getD []) with
  | some active => exact h.put (h.genuine active (mem_of_byId hactive).1)
  | none =>
    dsimp only
    by_cases hempty : e.token = []
    · rw [if_pos hempty]
      exact h
    · rw [if_neg hempty]
      cases hid : idFor P e.token with
      | none => exact h
      | some id => exact h.put hid

theorem Listed.handleDatagram (h : Listed P s) (data : Bytes) (origin : Option Origin)
    (now : ℤ) : Listed P (s.handleDatagram P data origin now) := by
  unfold ContactsService.handleDatagram
  split_ifs
  · exact h
  · cases hcontact : s.byId (hex ((data.drop 5).take 8)) with
    | none => exact h
    | some contact =>
      have hgenuine : Genuine P contact := h.genuine contact (mem_of_byId hcontact).1
      dsimp only
      split
      · split_ifs
        · exact h
        · exact h.put hgenuine
      · exact h

theorem Listed.step (hinj : ∀ a b id, idFor P a = some id → idFor P b = some id → a = b)
    (h : Listed P s) {op : Op} (hop : Allowed P s op) : Listed P (step P s op) := by
  cases op with
  | contactLink secret =>
    exact h.sublist (by rw [ContactsService.step, contacts_contactLink])
  | linkSaved secret => exact h.linkSaved hinj hop
  | addFromLink raw => exact h.addFromLink raw
  | onPaired activeId e now => exact h.onPaired activeId e now
  | handleDatagram data origin now => exact h.handleDatagram data origin now
  | rename contact name =>
    change Listed P (s.rename contact name)
    unfold rename
    dsimp only
    split_ifs
    · exact h
    · exact h.put hop
  | edit contactId note muted autoAnswer => exact h.edit contactId note muted autoAnswer
  | remove contact => exact h.sublist List.filter_sublist

/-- Where distinct secrets have distinct ids, a run from the empty list leaves contacts with
pairwise distinct ids, no two of them on the same device. -/
theorem contacts_distinct (P : ContactsPlatform)
    (hinj : ∀ a b id, idFor P a = some id → idFor P b = some id → a = b) {ops : List Op}
    (h : Run.Along (step P) (Allowed P) new ops) :
    (ops.foldl (step P) new).contacts.Pairwise Apart :=
  (h.invariant (fun _ _ hlisted hop => hlisted.step hinj hop) listed_new).apart

/-- A platform on which two secrets have ids, datagrams are not sealed, and every message is a
greeting of one phone at time 1000. -/
def toyPlatform : ContactsPlatform where
  contactId secret :=
    if secret = text "ABCDEFGHJKLMNPQR" then some [1, 0, 0, 0, 0, 0, 0, 0]
    else if secret = text "GRVT-A3F2-secret" then some [2, 0, 0, 0, 0, 0, 0, 0]
    else none
  knockOpen _ data := some data
  jsonDecode _ := some ⟨text "phone-1", some 1000, text "Ana"⟩
  uris := toyLibrary
  deviceId := text "laptop-1"

theorem toyPlatform_ids (a b id : Text) (ha : idFor toyPlatform a = some id)
    (hb : idFor toyPlatform b = some id) : a = b := by
  have hother : hex [1, 0, 0, 0, 0, 0, 0, 0] ≠ hex [2, 0, 0, 0, 0, 0, 0, 0] := by decide
  simp only [idFor, toyPlatform] at ha hb
  split_ifs at ha hb with h1 h2 h3 h4 h5 <;> simp_all

/-- A link is shown and answered by a phone, the phone joins a room, and its contact is edited. -/
theorem contacts_distinct_phone :
    ([.contactLink (text "ABCDEFGHJKLMNPQR"), .linkSaved (text "ABCDEFGHJKLMNPQR"),
      .handleDatagram ([0x47, 0x54, 0x4B, 0x4E, 1, 1] ++ List.replicate 35 0) none 1000,
      .onPaired none ⟨true, text "GRVT-A3F2-secret", text "GRVT-A3F2", text "Ana",
        text "phone-1", none⟩ 2000,
      .edit (hex [2, 0, 0, 0, 0, 0, 0, 0]) (text "nota") none true].foldl
      (step toyPlatform) new).contacts.Pairwise Apart :=
  contacts_distinct toyPlatform toyPlatform_ids (by decide +kernel)

end ContactsService
end GravitalTalk
