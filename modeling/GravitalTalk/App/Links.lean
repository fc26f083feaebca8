import GravitalTalk.App.Text

/-!
# The links of the app

`pairing_uri.dart` and the invitation of `contacts.dart`: an invitation to a room, the answer
of a guest with its addresses, and the link that makes two devices contacts. Each is written
as a URI and read back from scanned text by a parser of its own.

The URI library and the upper case of a text are parameters. A thrown decoding error counts
as no value.
-/
namespace GravitalTalk

def pairingVersion : Text := text "1"

/-- The trimmed text, if anything is left of it. -/
def nonEmpty (value : Option Text) : Option Text :=
  let v := (value.map trim).getD []
  if v = [] then none else some v

/-- An optional text as the parsers leave it: not empty, and trimmed. -/
def Tidy (o : Option Text) : Prop := ∀ t ∈ o, t ≠ [] ∧ trim t = t

theorem Tidy.map_trim {o : Option Text} (h : Tidy o) : o.map trim = o := by
  cases o with
  | none => rfl
  | some t => rw [Option.map_some, (h t rfl).2]

theorem Tidy.nonEmpty {o : Option Text} (h : Tidy o) : nonEmpty o = o := by
  cases o with
  | none => rfl
  | some t =>
    obtain ⟨hne, htrim⟩ := h t rfl
    simp [GravitalTalk.nonEmpty, htrim, hne]

variable (U : UriLibrary) (upper : Text → Text)

/-! ## The answer of a guest -/

structure PairingAnswer where
  room : Text
  addresses : List Text
  deriving DecidableEq, Repr

namespace PairingAnswer

/-- The room and the addresses that `tryParse` finds in a query. -/
def ofQuery (q : Params) : PairingAnswer where
  room := upper (trim ((q.get (text "room")).getD []))
  addresses := ((((q.get (text "addr")).getD []).splitOn 44).map trim).filter (· ≠ [])

def tryParse (raw : Text) : Option PairingAnswer := do
  let uri ← U.tryParse (trim raw)
  if uri.scheme ≠ pairingScheme ∨ uri.host ≠ text "answer" then none
  else
    let q ← U.queryParameters uri
    let answer := ofQuery upper q
    if answer.room = [] ∨ answer.addresses = [] then none else return answer

def params (a : PairingAnswer) : Params :=
  .field (text "v") pairingVersion ++ .field (text "room") a.room ++
  .field (text "addr") ([44].intercalate a.addresses)

def toUri (a : PairingAnswer) : Text :=
  linkText pairingScheme (text "answer") (U.joinQuery a.params)

/-- A room in the form in which it is read, and addresses that the separator keeps apart. -/
structure Normal (a : PairingAnswer) : Prop where
  room : a.room ≠ [] ∧ trim a.room = a.room ∧ upper a.room = a.room
  some_address : a.addresses ≠ []
  addresses : ∀ t ∈ a.addresses, t ≠ [] ∧ trim t = t ∧ (44 : UInt16) ∉ t

end PairingAnswer

/-! ## The invitation to a room -/

structure PairingUri where
  host : Text
  room : Text
  udpPort : Option Int64
  obsPort : Option Int64
  token : Option Text
  publicEndpoint : Option Text
  rendezvous : Option Text
  name : Option Text
  device : Option Text
  deriving DecidableEq, Repr

namespace PairingUri

def looksLikeRoomCode (code : Text) : Bool :=
  contains code (text "-") && 4 ≤ code.length && code.length ≤ 24

/-- A text without the marks of a URI is taken for a code. -/
def isBare (t : Text) : Bool := !contains t (text "://") && !startsWith t (text "//")

/-- A scanner may have cut the scheme off. -/
def normalized (t : Text) : Text :=
  if startsWith t (text "//") then text "gravital-talk:" ++ t else t

/-- The fields that `tryParse` finds in a query. -/
def ofQuery (q : Params) : PairingUri where
  host := ((q.get (text "host")).map trim).getD []
  room := upper (trim ((q.get (text "room")).getD []))
  udpPort := intTryParse ((q.get (text "udp")).getD [])
  obsPort := intTryParse ((q.get (text "obs")).getD [])
  token := (q.get (text "token")).map trim
  publicEndpoint := nonEmpty (q.get (text "pub"))
  rendezvous := nonEmpty (q.get (text "rv"))
  name := nonEmpty (q.get (text "n"))
  device := nonEmpty (q.get (text "dev"))

/-- Forms 1 and 2 of `tryParse`. -/
def parseLink (t : Text) : Option PairingUri := do
  let uri ← U.tryParse (normalized t)
  if uri.scheme ≠ pairingScheme then none
  else
    let q ← U.queryParameters uri
    let invite := ofQuery upper q
    if invite.room = [] then none else return invite

def tryParse (raw : Text) : Option PairingUri :=
  let t := trim raw
  if t = [] then none
  else if isBare t then
    let code := upper t
    if looksLikeRoomCode code then some ⟨[], code, none, none, none, none, none, none, none⟩
    else none
  else parseLink U upper t

def params (p : PairingUri) : Params :=
  .field (text "v") pairingVersion ++
  .field (text "host") (if p.host = [] then none else p.host) ++
  .field (text "room") p.room ++
  .field (text "udp") (p.udpPort.map intText) ++
  .field (text "obs") (p.obsPort.map intText) ++
  .field (text "token") (p.token.filter (· ≠ [])) ++
  .field (text "pub") p.publicEndpoint ++
  .field (text "rv") p.rendezvous ++
  .field (text "n") (p.name.filter (· ≠ [])) ++
  .field (text "dev") (p.device.filter (· ≠ []))

def toUri (p : PairingUri) : Text :=
  linkText pairingScheme (text "pair") (U.joinQuery p.params)

/-- The fields in the form in which they are read; a host that is not given is empty. -/
structure Normal (p : PairingUri) : Prop where
  host : trim p.host = p.host
  room : p.room ≠ [] ∧ trim p.room = p.room ∧ upper p.room = p.room
  token : Tidy p.token
  publicEndpoint : Tidy p.publicEndpoint
  rendezvous : Tidy p.rendezvous
  name : Tidy p.name
  device : Tidy p.device

end PairingUri

/-! ## The link of a contact -/

structure ContactLink where
  secret : Text
  name : Text
  device : Text
  ip : Option Text
  deriving DecidableEq, Repr

namespace ContactLink

/-- The fields that `tryParse` finds in a query. -/
def ofQuery (q : Params) : ContactLink where
  secret := trim ((q.get (text "s")).getD [])
  name := trim ((q.get (text "n")).getD [])
  device := trim (((q.get (text "d")).or (q.get (text "dev"))).getD [])
  ip := nonEmpty (q.get (text "ip"))

def tryParse (raw : Text) : Option ContactLink := do
  let uri ← U.tryParse (trim raw)
  if uri.scheme ≠ pairingScheme ∨ (uri.host ≠ text "i" ∧ uri.host ≠ text "contact") then none
  else
    let q ← U.queryParameters uri
    let link := ofQuery q
    if link.secret.length < 16 then none else return link

def params (c : ContactLink) : Params :=
  .field (text "v") (text "2") ++
  .field (text "s") c.secret ++
  .field (text "n") (if c.name = [] then none else c.name) ++
  .field (text "d") (if c.device = [] then none else c.device) ++
  .field (text "ip") c.ip

def toUri (c : ContactLink) : Text :=
  linkText pairingScheme (text "i") (U.makeQuery c.params)

/-- A secret that is long enough, and trimmed texts. -/
structure Normal (c : ContactLink) : Prop where
  secret : trim c.secret = c.secret ∧ 16 ≤ c.secret.length
  name : trim c.name = c.name
  device : trim c.device = c.device
  ip : Tidy c.ip

end ContactLink

/-! ## Round trips -/

variable {U upper}

/-- A link whose query was joined is read with the entries that went in. -/
theorem read_link (hU : U.Inverse) {host : Text}
    (hhost : host ∈ [text "pair", text "answer", text "i"]) {params : Params}
    (hne : params ≠ []) (hkeys : params.Keyed) :
    U.tryParse (trim (linkText pairingScheme host (U.joinQuery params))) =
        some ⟨pairingScheme, host, U.joinQuery params⟩ ∧
      U.queryParameters ⟨pairingScheme, host, U.joinQuery params⟩ = some params := by
  rw [UriLibrary.trim_link hU hhost, hU.tryParse_link host hhost params hne]
  exact ⟨rfl, UriLibrary.splitQueryString_joinQuery hU hne hkeys⟩

namespace PairingAnswer

theorem keyed_params (a : PairingAnswer) : a.params.Keyed := by
  simp only [params, Params.keyed_append]
  exact ⟨⟨Params.keyed_field (by decide) _, Params.keyed_field (by decide) _⟩,
    Params.keyed_field (by decide) _⟩

theorem ofQuery_params {a : PairingAnswer} (h : a.Normal upper) : ofQuery upper a.params = a := by
  have hsplit : (([44].intercalate a.addresses).splitOn 44) = a.addresses :=
    List.splitOn_intercalate 44 (fun t ht => (h.addresses t ht).2.2) h.some_address
  have htrim : a.addresses.map trim = a.addresses := by
    rw [List.map_congr_left fun t ht => (h.addresses t ht).2.1, List.map_id']
  have hkeep : a.addresses.filter (· ≠ []) = a.addresses :=
    List.filter_eq_self.mpr fun t ht => by simpa using (h.addresses t ht).1
  obtain ⟨-, hroom, hupper⟩ := h.room
  simp +decide only [ofQuery, params, Params.get_append, Params.get_field, if_true, if_false,
    Option.or_none, Option.none_or, Option.getD_some, hsplit, htrim, hkeep, hroom, hupper]

theorem round_trip (hU : U.Inverse) {a : PairingAnswer} (h : a.Normal upper) :
    tryParse U upper (a.toUri U) = some a := by
  have hne : a.params ≠ [] := by simp [params, Params.field]
  obtain ⟨hparse, hquery⟩ := read_link hU (by decide : text "answer" ∈ _) hne a.keyed_params
  rw [tryParse, toUri, hparse]
  simp [hquery, ofQuery_params h, h.room.1, h.some_address]

end PairingAnswer

namespace PairingUri

theorem keyed_params (p : PairingUri) : p.params.Keyed := by
  simp only [params, Params.keyed_append]
  refine ⟨⟨⟨⟨⟨⟨⟨⟨⟨?_, ?_⟩, ?_⟩, ?_⟩, ?_⟩, ?_⟩, ?_⟩, ?_⟩, ?_⟩, ?_⟩ <;>
    exact Params.keyed_field (by decide) _

theorem filter_of_tidy {o : Option Text} (h : Tidy o) : o.filter (· ≠ []) = o := by
  cases o with
  | none => rfl
  | some t => simp [Option.filter, (h t rfl).1]

theorem port_read (port : Option Int64) : intTryParse ((port.map intText).getD []) = port := by
  cases port with
  | none => decide
  | some n => exact intTryParse_intText n

theorem ofQuery_params {p : PairingUri} (h : p.Normal upper) : ofQuery upper p.params = p := by
  obtain ⟨-, hroom, hupper⟩ := h.room
  have hhost : ((if p.host = [] then none else some p.host).map trim).getD [] = p.host := by
    split_ifs with hempty
    · exact hempty.symm
    · exact h.host
  simp +decide only [ofQuery, params, Params.get_append, Params.get_field, if_true, if_false,
    Option.or_none, Option.none_or, Option.getD_some, hhost, hroom, hupper, port_read,
    filter_of_tidy h.token, filter_of_tidy h.name, filter_of_tidy h.device, h.token.map_trim,
    h.publicEndpoint.nonEmpty, h.rendezvous.nonEmpty, h.name.nonEmpty, h.device.nonEmpty]

/-- A link in full is neither empty nor bare, and keeps its scheme. -/
theorem link_not_bare (host query : Text) :
    isBare (linkText pairingScheme host query) = false ∧
      normalized (linkText pairingScheme host query) = linkText pairingScheme host query := by
  have hmark : contains (linkText pairingScheme host query) (text "://") = true := by
    rw [contains, decide_eq_true_iff]
    exact ⟨pairingScheme, host ++ text "?" ++ query, by simp [linkText]⟩
  have hfront : startsWith (linkText pairingScheme host query) (text "//") = false := rfl
  rw [isBare, normalized, hmark, hfront]
  exact ⟨rfl, rfl⟩

theorem round_trip (hU : U.Inverse) {p : PairingUri} (h : p.Normal upper) :
    tryParse U upper (p.toUri U) = some p := by
  have hne : p.params ≠ [] := by simp [params, Params.field]
  obtain ⟨hparse, hquery⟩ := read_link hU (by decide : text "pair" ∈ _) hne p.keyed_params
  have htrim := UriLibrary.trim_link hU (by decide : text "pair" ∈ _) p.params
  have hsome : linkText pairingScheme (text "pair") (U.joinQuery p.params) ≠ [] := by
    simp [linkText, pairingScheme, text]
  obtain ⟨hbare, hnormalized⟩ := link_not_bare (text "pair") (U.joinQuery p.params)
  rw [htrim] at hparse
  rw [tryParse, toUri, htrim, if_neg hsome, hbare, parseLink, hnormalized, hparse]
  simp [hquery, ofQuery_params h, h.room.1]

end PairingUri

namespace ContactLink

theorem keyed_params (c : ContactLink) : c.params.Keyed := by
  simp only [params, Params.keyed_append]
  refine ⟨⟨⟨⟨?_, ?_⟩, ?_⟩, ?_⟩, ?_⟩ <;> exact Params.keyed_field (by decide) _

theorem ofQuery_params {c : ContactLink} (h : c.Normal) : ofQuery c.params = c := by
  have habsent : ∀ t : Text, trim ((if t = [] then none else some t).getD []) = trim t := by
    intro t
    split_ifs with hempty
    · rw [hempty]
      rfl
    · rfl
  simp +decide only [ofQuery, params, Params.get_append, Params.get_field, if_true, if_false,
    Option.or_none, Option.none_or, Option.getD_some, habsent, h.secret.1, h.name, h.device,
    h.ip.nonEmpty]

/-- No value of the link is empty, so its query is the joined one. -/
theorem valued_params {c : ContactLink} (h : c.Normal) : ∀ p ∈ c.params, p.2 ≠ [] := by
  have hsecret : c.secret ≠ [] := by
    intro hempty
    have := h.secret.2
    rw [hempty] at this
    exact absurd this (by decide)
  have hgiven : ∀ t : Text, ∀ v ∈ (if t = [] then none else some t : Option Text), v ≠ [] := by
    intro t v hv
    split_ifs at hv with hempty
    · cases hv
    · cases hv
      exact hempty
  simp only [params, List.forall_mem_append, Params.forall_field]
  refine ⟨⟨⟨⟨?_, ?_⟩, hgiven c.name⟩, hgiven c.device⟩, fun v hv => (h.ip v hv).1⟩
  · rintro v ⟨⟩
    decide
  · rintro v ⟨⟩
    exact hsecret

theorem round_trip (hU : U.Inverse) {c : ContactLink} (h : c.Normal) :
    tryParse U (c.toUri U) = some c := by
  have hne : c.params ≠ [] := by simp [params, Params.field]
  obtain ⟨hparse, hquery⟩ := read_link hU (by decide : text "i" ∈ _) hne c.keyed_params
  rw [tryParse, toUri, UriLibrary.makeQuery_eq (valued_params h), hparse]
  simp [hquery, ofQuery_params h, Nat.not_lt.mpr h.secret.2]

end ContactLink

/-- Every link is read back with the fields it was made from. -/
theorem links_round_trip (hU : U.Inverse) :
    (∀ p : PairingUri, p.Normal upper → PairingUri.tryParse U upper (p.toUri U) = some p) ∧
    (∀ a : PairingAnswer, a.Normal upper → PairingAnswer.tryParse U upper (a.toUri U) = some a) ∧
    ∀ c : ContactLink, c.Normal → ContactLink.tryParse U (c.toUri U) = some c :=
  ⟨fun _ h => PairingUri.round_trip hU h, fun _ h => PairingAnswer.round_trip hU h,
    fun _ h => ContactLink.round_trip hU h⟩

/-! ## Which texts are accepted -/

variable (U upper)

/-- The version is absent, or the one of this app. -/
def VersionOk (u : Uri) : Prop :=
  ∃ q, U.queryParameters u = some q ∧ (q.get (text "v") = none ∨ q.get (text "v") = pairingVersion)

/-- A code without a URI. -/
def IsCode (t : Text) : Prop :=
  t ≠ [] ∧ PairingUri.isBare t = true ∧ PairingUri.looksLikeRoomCode (upper t) = true

/-- A URI of the app with a room. -/
def NamesRoom (u : Uri) : Prop :=
  u.scheme = pairingScheme ∧
    ∃ q, U.queryParameters u = some q ∧ (PairingUri.ofQuery upper q).room ≠ []

/-- An answer with a room and an address. -/
def NamesAddress (u : Uri) : Prop :=
  (u.scheme = pairingScheme ∧ u.host = text "answer") ∧ ∃ q, U.queryParameters u = some q ∧
    (PairingAnswer.ofQuery upper q).room ≠ [] ∧ (PairingAnswer.ofQuery upper q).addresses ≠ []

/-- A contact link with a secret that is long enough. -/
def NamesSecret (u : Uri) : Prop :=
  (u.scheme = pairingScheme ∧ (u.host = text "i" ∨ u.host = text "contact")) ∧
    ∃ q, U.queryParameters u = some q ∧ 16 ≤ (ContactLink.ofQuery q).secret.length

theorem PairingAnswer.tryParse_ne_none (raw : Text) :
    tryParse U upper raw ≠ none ↔
      ∃ u, U.tryParse (trim raw) = some u ∧ NamesAddress U upper u := by
  unfold tryParse NamesAddress
  cases U.tryParse (trim raw) with
  | none => simp
  | some u =>
    by_cases hkind : u.scheme = pairingScheme ∧ u.host = text "answer"
    · cases hq : U.queryParameters u with
      | none => simp [hkind, hq]
      | some q => simp [hkind, hq]
    · have hother : u.scheme ≠ pairingScheme ∨ u.host ≠ text "answer" := by tauto
      simp [hkind, hother]

theorem ContactLink.tryParse_ne_none (raw : Text) :
    tryParse U raw ≠ none ↔ ∃ u, U.tryParse (trim raw) = some u ∧ NamesSecret U u := by
  unfold tryParse NamesSecret
  cases U.tryParse (trim raw) with
  | none => simp
  | some u =>
    by_cases hkind : u.scheme = pairingScheme ∧ (u.host = text "i" ∨ u.host = text "contact")
    · obtain ⟨hscheme, hhost⟩ := hkind
      cases hq : U.queryParameters u with
      | none => simp [hq]
      | some q => rcases hhost with hhost | hhost <;> simp [hscheme, hhost, hq]
    · have hother : u.scheme ≠ pairingScheme ∨ (u.host ≠ text "i" ∧ u.host ≠ text "contact") := by
        tauto
      simp [hkind, hother]

namespace PairingUri

theorem parseLink_ne_none (t : Text) :
    parseLink U upper t ≠ none ↔ ∃ u, U.tryParse (normalized t) = some u ∧ NamesRoom U upper u := by
  unfold parseLink NamesRoom
  cases U.tryParse (normalized t) with
  | none => simp
  | some u =>
    by_cases hscheme : u.scheme = pairingScheme
    · cases hq : U.queryParameters u with
      | none => simp [hscheme, hq]
      | some q => simp [hscheme, hq]
    · simp [hscheme]

theorem tryParse_ne_none (raw : Text) :
    tryParse U upper raw ≠ none ↔ IsCode upper (trim raw) ∨ isBare (trim raw) = false ∧
      ∃ u, U.tryParse (normalized (trim raw)) = some u ∧ NamesRoom U upper u := by
  rw [← parseLink_ne_none]
  unfold tryParse IsCode
  by_cases hempty : trim raw = []
  · have hbare : isBare [] = true := by decide
    simp [hempty, hbare]
  · cases hbare : isBare (trim raw) with
    | false => simp [hempty, hbare]
    | true =>
      by_cases hcode : looksLikeRoomCode (upper (trim raw)) = true <;>
        simp [hempty, hbare, hcode]

end PairingUri

/-- Every parser accepts its own links only: an invitation is a bare code or a link of its kind
and version, an answer is one of its kind and version, and no text is accepted twice. -/
structure OwnLinks (raw : Text) : Prop where
  invitation : PairingUri.tryParse U upper raw ≠ none → IsCode upper (trim raw) ∨
    ∃ u, U.tryParse (PairingUri.normalized (trim raw)) = some u ∧ u.scheme = pairingScheme ∧
      u.host = text "pair" ∧ VersionOk U u
  answer : PairingAnswer.tryParse U upper raw ≠ none →
    ∃ u, U.tryParse (trim raw) = some u ∧ u.scheme = pairingScheme ∧
      u.host = text "answer" ∧ VersionOk U u
  invitation_answer : PairingUri.tryParse U upper raw = none ∨
    PairingAnswer.tryParse U upper raw = none
  invitation_contact : PairingUri.tryParse U upper raw = none ∨ ContactLink.tryParse U raw = none
  answer_contact : PairingAnswer.tryParse U upper raw = none ∨ ContactLink.tryParse U raw = none

/-- What the text must not be: a link with a room that is of another kind or version than an
invitation, an answer of another version, or a code (or a link without its scheme) that is at
the same time one of the other links as it stands. -/
structure Regular (raw : Text) : Prop where
  invitation : PairingUri.isBare (trim raw) = false →
    ∀ u, U.tryParse (PairingUri.normalized (trim raw)) = some u → NamesRoom U upper u →
      u.host = text "pair" ∧ VersionOk U u
  answer : ∀ u, U.tryParse (trim raw) = some u → NamesAddress U upper u → VersionOk U u
  apart : IsCode upper (trim raw) ∨ startsWith (trim raw) (text "//") = true ∧
      (∃ u, U.tryParse (PairingUri.normalized (trim raw)) = some u ∧ NamesRoom U upper u) →
    ∀ u, U.tryParse (trim raw) = some u → ¬ NamesAddress U upper u ∧ ¬ NamesSecret U u

theorem not_bare_of_startsWith {t : Text} (h : startsWith t (text "//") = true) :
    PairingUri.isBare t = false := by
  rw [PairingUri.isBare, h, Bool.not_true, Bool.and_false]

variable {U upper}

/-- A text that is accepted as an invitation is none of the other links. -/
theorem Regular.not_other {raw : Text} (h : Regular U upper raw)
    (haccepted : PairingUri.tryParse U upper raw ≠ none) {u : Uri}
    (hu : U.tryParse (trim raw) = some u) : ¬ NamesAddress U upper u ∧ ¬ NamesSecret U u := by
  rcases (PairingUri.tryParse_ne_none U upper raw).mp haccepted with hcode | ⟨hbare, v, hv, hroom⟩
  · exact h.apart (.inl hcode) u hu
  · by_cases hfront : startsWith (trim raw) (text "//") = true
    · exact h.apart (.inr ⟨hfront, v, hv, hroom⟩) u hu
    · -- The text is read as it stands, so it is of the kind of an invitation.
      have hsame : PairingUri.normalized (trim raw) = trim raw := if_neg hfront
      obtain ⟨hhost, -⟩ := h.invitation hbare v hv hroom
      rw [hsame, hu] at hv
      obtain rfl := Option.some.inj hv
      constructor
      · intro haddress
        exact absurd (hhost.symm.trans haddress.1.2) (by decide)
      · intro hsecret
        rcases hsecret.1.2 with hother | hother <;>
          exact absurd (hhost.symm.trans hother) (by decide)

theorem OwnLinks.regular {raw : Text} (h : OwnLinks U upper raw) : Regular U upper raw := by
  refine ⟨?_, ?_, ?_⟩
  · intro hbare u hu hroom
    have haccepted : PairingUri.tryParse U upper raw ≠ none :=
      (PairingUri.tryParse_ne_none U upper raw).mpr (.inr ⟨hbare, u, hu, hroom⟩)
    rcases h.invitation haccepted with hcode | ⟨v, hv, -, hhost, hversion⟩
    · rw [hcode.2.1] at hbare
      cases hbare
    · obtain rfl := Option.some.inj (hu.symm.trans hv)
      exact ⟨hhost, hversion⟩
  · intro u hu haddress
    obtain ⟨v, hv, -, -, hversion⟩ := h.answer
      ((PairingAnswer.tryParse_ne_none U upper raw).mpr ⟨u, hu, haddress⟩)
    obtain rfl := Option.some.inj (hu.symm.trans hv)
    exact hversion
  · intro hcase u hu
    have haccepted : PairingUri.tryParse U upper raw ≠ none := by
      rw [PairingUri.tryParse_ne_none]
      exact hcase.imp_right fun hlink => ⟨not_bare_of_startsWith hlink.1, hlink.2⟩
    constructor
    · intro haddress
      exact h.invitation_answer.elim haccepted
        ((PairingAnswer.tryParse_ne_none U upper raw).mpr ⟨u, hu, haddress⟩)
    · intro hsecret
      exact h.invitation_contact.elim haccepted
        ((ContactLink.tryParse_ne_none U raw).mpr ⟨u, hu, hsecret⟩)

theorem Regular.own {raw : Text} (h : Regular U upper raw) : OwnLinks U upper raw := by
  refine ⟨?_, ?_, ?_, ?_, ?_⟩
  · intro haccepted
    rcases (PairingUri.tryParse_ne_none U upper raw).mp haccepted with hcode | ⟨hbare, u, hu, hroom⟩
    · exact .inl hcode
    · obtain ⟨hhost, hversion⟩ := h.invitation hbare u hu hroom
      exact .inr ⟨u, hu, hroom.1, hhost, hversion⟩
  · intro haccepted
    obtain ⟨u, hu, haddress⟩ := (PairingAnswer.tryParse_ne_none U upper raw).mp haccepted
    exact ⟨u, hu, haddress.1.1, haddress.1.2, h.answer u hu haddress⟩
  · by_contra! hboth
    obtain ⟨u, hu, haddress⟩ := (PairingAnswer.tryParse_ne_none U upper raw).mp hboth.2
    exact (h.not_other hboth.1 hu).1 haddress
  · by_contra! hboth
    obtain ⟨u, hu, hsecret⟩ := (ContactLink.tryParse_ne_none U raw).mp hboth.2
    exact (h.not_other hboth.1 hu).2 hsecret
  · by_contra! hboth
    obtain ⟨u, hu, haddress⟩ := (PairingAnswer.tryParse_ne_none U upper raw).mp hboth.1
    obtain ⟨v, hv, hsecret⟩ := (ContactLink.tryParse_ne_none U raw).mp hboth.2
    obtain rfl := Option.some.inj (hu.symm.trans hv)
    rcases hsecret.1.2 with hother | hother <;>
      exact absurd (haddress.1.2.symm.trans hother) (by decide)

variable (U upper)

/-- The parsers accept exactly their own links on the regular texts. -/
theorem own_links_iff (raw : Text) : OwnLinks U upper raw ↔ Regular U upper raw :=
  ⟨OwnLinks.regular, Regular.own⟩

/-! ## A library that keeps plain text as it is -/

/-- Letters, digits and the marks that no encoding escapes. -/
def isUnreserved (c : UInt16) : Bool :=
  (65 ≤ c && c ≤ 90) || (97 ≤ c && c ≤ 122) || (48 ≤ c && c ≤ 57) ||
  c == 45 || c == 46 || c == 95 || c == 126

def toyDigit (c : UInt16) (place : ℕ) : UInt16 := UInt16.ofNat (97 + c.toNat / place % 16)

def toyEscape (c : UInt16) : Text :=
  [37, toyDigit c 4096, toyDigit c 256, toyDigit c 16, toyDigit c 1]

def toyEncode (t : Text) : Text := t.flatMap fun c => if isUnreserved c then [c] else toyEscape c

def toyDecode : Text → Option Text
  | [] => some []
  | 37 :: h :: i :: j :: k :: rest => (toyDecode rest).map
      (UInt16.ofNat ((h.toNat - 97) * 4096 + (i.toNat - 97) * 256 + (j.toNat - 97) * 16 +
        (k.toNat - 97)) :: ·)
  | c :: rest => if c = 37 then none else (toyDecode rest).map (c :: ·)

/-- Scheme, host and query of a text with the three marks between them. -/
def toyParse (t : Text) : Option Uri :=
  let scheme := t.takeWhile (· != 58)
  let rest := t.drop scheme.length
  if startsWith rest (text "://") then
    let host := (rest.drop 3).takeWhile (· != 63)
    some ⟨scheme, host, (rest.drop 3).drop (host.length + 1)⟩
  else none

def toyLibrary : UriLibrary := ⟨toyParse, toyEncode, toyDecode⟩

theorem toNat_toyDigit (c : UInt16) (place : ℕ) :
    (toyDigit c place).toNat = 97 + c.toNat / place % 16 := by
  have := Nat.mod_lt (c.toNat / place) (by norm_num : 0 < 16)
  rw [toyDigit, UInt16.toNat_ofNat']
  omega

theorem toyDecode_toyEncode (t : Text) : toyDecode (toyEncode t) = some t := by
  induction t with
  | nil => rfl
  | cons c t ih =>
    rw [toyEncode, List.flatMap_cons]
    change toyDecode (_ ++ toyEncode t) = _
    by_cases hc : isUnreserved c = true
    · have hmark : c ≠ 37 := by
        rintro rfl
        exact absurd hc (by decide)
      have hstep : toyDecode (c :: toyEncode t) = (toyDecode (toyEncode t)).map (c :: ·) := by
        rw [toyDecode, if_neg hmark]
        rintro h i j k rest hescape -
        exact hmark hescape
      rw [if_pos hc, List.singleton_append, hstep, ih]
      rfl
    · have hvalue : UInt16.ofNat (((toyDigit c 4096).toNat - 97) * 4096 +
          ((toyDigit c 256).toNat - 97) * 256 + ((toyDigit c 16).toNat - 97) * 16 +
          ((toyDigit c 1).toNat - 97)) = c := by
        have hlt := c.toNat_lt
        rw [← UInt16.toNat_inj, UInt16.toNat_ofNat']
        simp only [toNat_toyDigit]
        omega
      rw [if_neg hc, toyEscape]
      simp only [List.cons_append, List.nil_append, toyDecode, ih, Option.map_some, hvalue]

theorem mem_toyEncode {t : Text} {c : UInt16} (h : c ∈ toyEncode t) :
    isUnreserved c = true ∨ c = 37 := by
  obtain ⟨d, -, hc⟩ := List.mem_flatMap.mp h
  have hdigit : ∀ place, isUnreserved (toyDigit d place) = true := by
    intro place
    have hlt := Nat.mod_lt (d.toNat / place) (by norm_num : 0 < 16)
    unfold toyDigit
    generalize d.toNat / place % 16 = n at hlt
    interval_cases n <;> decide
  split_ifs at hc with hd
  · rw [List.mem_singleton.mp hc]
    exact .inl hd
  · simp only [toyEscape, List.mem_cons, List.not_mem_nil, or_false] at hc
    rcases hc with rfl | rfl | rfl | rfl | rfl
    · exact .inr rfl
    all_goals exact .inl (hdigit _)

theorem isUnreserved_solid {c : UInt16} (h : isUnreserved c = true) :
    isSpace c = false ∧ c ≠ 38 ∧ c ≠ 61 := by
  refine ⟨?_, ?_, ?_⟩
  · simp only [isUnreserved, Bool.or_eq_true, Bool.and_eq_true, decide_eq_true_eq, beq_iff_eq,
      UInt16.le_iff_toNat_le, ← UInt16.toNat_inj, UInt16.reduceToNat] at h
    simp only [isSpace, Bool.or_eq_false_iff, Bool.and_eq_false_iff, decide_eq_false_iff_not,
      beq_eq_false_iff_ne, UInt16.le_iff_toNat_le, Ne, ← UInt16.toNat_inj, UInt16.reduceToNat]
    omega
  · rintro rfl
    exact absurd h (by decide)
  · rintro rfl
    exact absurd h (by decide)

theorem toyLibrary_inverse : toyLibrary.Inverse where
  decode_encode := toyDecode_toyEncode
  encode_ne_nil t ht := by
    intro hempty
    have h := toyDecode_toyEncode t
    rw [show toyEncode t = [] from hempty] at h
    exact ht (Option.some.inj h).symm
  encode_plain t c hc := by
    rcases mem_toyEncode hc with h | rfl
    · exact isUnreserved_solid h
    · decide
  tryParse_link host hhost params _ := by
    simp only [List.mem_cons, List.not_mem_nil, or_false] at hhost
    rcases hhost with rfl | rfl | rfl <;> rfl

/-- Upper case of ASCII letters. -/
def toyUpper (t : Text) : Text := t.map fun c => if 97 ≤ c ∧ c ≤ 122 then c - 32 else c

/-- One link of each kind. -/
theorem links_round_trip_plain :
    let invite : PairingUri := ⟨text "relay.local", text "GRVT-A3F2", some 9000, none,
      text "token", none, none, text "Ana", none⟩
    let answer : PairingAnswer := ⟨text "GRVT-A3F2", [text "laptop.local"]⟩
    let contact : ContactLink := ⟨text "abcdefghijklmnop", text "Ana", [], none⟩
    PairingUri.tryParse toyLibrary toyUpper (invite.toUri toyLibrary) = some invite ∧
      PairingAnswer.tryParse toyLibrary toyUpper (answer.toUri toyLibrary) = some answer ∧
      ContactLink.tryParse toyLibrary (contact.toUri toyLibrary) = some contact := by
  intro invite answer contact
  obtain ⟨hinvite, hanswer, hcontact⟩ := @links_round_trip _ toyUpper toyLibrary_inverse
  refine ⟨hinvite invite ?_, hanswer answer ?_, hcontact contact ?_⟩
  · exact ⟨by decide, by decide, by rintro t ⟨⟩; decide, by rintro t ⟨⟩, by rintro t ⟨⟩,
      by rintro t ⟨⟩; decide, by rintro t ⟨⟩⟩
  · exact ⟨by decide, by decide, by decide⟩
  · exact ⟨by decide, by decide, by decide, by rintro t ⟨⟩⟩

/-- The answer of a guest is accepted as an invitation too, and so is an invitation of another
version. -/
theorem answer_taken_for_invitation :
    ¬ OwnLinks toyLibrary toyUpper (text "gravital-talk://answer?v=1&room=A&addr=b") ∧
      ¬ OwnLinks toyLibrary toyUpper (text "gravital-talk://pair?v=2&room=A") := by
  constructor
  · intro h
    have hinvite : PairingUri.tryParse toyLibrary toyUpper
        (text "gravital-talk://answer?v=1&room=A&addr=b") ≠ none := by decide +kernel
    have hanswer : PairingAnswer.tryParse toyLibrary toyUpper
        (text "gravital-talk://answer?v=1&room=A&addr=b") ≠ none := by decide +kernel
    exact h.invitation_answer.elim hinvite hanswer
  · intro h
    have hinvite : PairingUri.tryParse toyLibrary toyUpper
        (text "gravital-talk://pair?v=2&room=A") ≠ none := by decide +kernel
    have huri : toyLibrary.tryParse (PairingUri.normalized
        (trim (text "gravital-talk://pair?v=2&room=A"))) =
        some ⟨pairingScheme, text "pair", text "v=2&room=A"⟩ := by decide +kernel
    rcases h.invitation hinvite with hcode | ⟨u, hu, -, -, q, hq, hversion⟩
    · exact absurd hcode.2.1 (by decide +kernel)
    · obtain rfl := Option.some.inj (huri.symm.trans hu)
      have hquery : toyLibrary.queryParameters ⟨pairingScheme, text "pair", text "v=2&room=A"⟩ =
          some [(text "v", text "2"), (text "room", text "A")] := by decide +kernel
      obtain rfl := Option.some.inj (hquery.symm.trans hq)
      exact absurd hversion (by decide)

end GravitalTalk
