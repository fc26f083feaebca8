import GravitalTalk.App.Contacts

/-!
# What re-pairing keeps

A contact that is stored again comes to the front in place of the entries with its id or its
device. `handleDatagram` copies what the user set from the entry with its id, `addFromLink` and
`_onPaired` only the name from the entry with its device.
-/
namespace GravitalTalk

namespace Contact

/-- The user changed something about the contact. -/
def UserSet (c : Contact) : Prop :=
  c.custom = true ∨ c.note ≠ [] ∨ c.muted = true ∨ c.autoAnswer = true

instance (c : Contact) : Decidable c.UserSet := inferInstanceAs (Decidable (_ ∨ _ ∨ _ ∨ _))

/-- The name that the user gave to `c` is the name of `c'`. -/
def NameKept (c c' : Contact) : Prop := c.custom = true → c'.custom = true ∧ c'.name = c.name

instance (c c' : Contact) : Decidable (c.NameKept c') := inferInstanceAs (Decidable (_ → _ ∧ _))

/-- What the user set in `c` is set in `c'`. -/
structure StillHas (c c' : Contact) : Prop where
  name : c.NameKept c'
  note : c.note ≠ [] → c'.note = c.note
  muted : c.muted = true → c'.muted = true
  autoAnswer : c.autoAnswer = true → c'.autoAnswer = true

instance (c c' : Contact) : Decidable (c.StillHas c') :=
  decidable_of_iff (c.NameKept c' ∧ (c.note ≠ [] → c'.note = c.note) ∧
      (c.muted = true → c'.muted = true) ∧ (c.autoAnswer = true → c'.autoAnswer = true))
    ⟨fun ⟨hname, hnote, hmuted, hauto⟩ => ⟨hname, hnote, hmuted, hauto⟩,
      fun h => ⟨h.name, h.note, h.muted, h.autoAnswer⟩⟩

/-- Nothing is set but the name. -/
structure Plain (c : Contact) : Prop where
  note : c.note = []
  muted : c.muted = false
  autoAnswer : c.autoAnswer = false

theorem StillHas.refl (c : Contact) : c.StillHas c := ⟨fun h => ⟨h, rfl⟩, fun _ => rfl, fun h => h, fun h => h⟩

theorem StillHas.trans {a b c : Contact} (hab : a.StillHas b) (hbc : b.StillHas c) :
    a.StillHas c where
  name hcustom := by
    obtain ⟨hb, hname⟩ := hab.name hcustom
    obtain ⟨hc, hname'⟩ := hbc.name hb
    exact ⟨hc, hname'.trans hname⟩
  note hnote := by
    have hb : b.note = a.note := hab.note hnote
    have hc : c.note = b.note := hbc.note (by rwa [hb])
    rw [hc, hb]
  muted h := hbc.muted (hab.muted h)
  autoAnswer h := hbc.autoAnswer (hab.autoAnswer h)

theorem UserSet.of_stillHas {c c' : Contact} (h : c.UserSet) (hkeeps : c.StillHas c') :
    c'.UserSet := by
  rcases h with hcustom | hnote | hmuted | hauto
  · exact .inl (hkeeps.name hcustom).1
  · exact .inr (.inl (by rwa [hkeeps.note hnote]))
  · exact .inr (.inr (.inl (hkeeps.muted hmuted)))
  · exact .inr (.inr (.inr (hkeeps.autoAnswer hauto)))

theorem stillHas_of_not_userSet {c c' : Contact} (h : ¬ c.UserSet) : c.StillHas c' where
  name hcustom := absurd (.inl hcustom) h
  note hnote := absurd (.inr (.inl hnote)) h
  muted hmuted := absurd (.inr (.inr (.inl hmuted))) h
  autoAnswer hauto := absurd (.inr (.inr (.inr hauto))) h

theorem stillHas_congr {c a b : Contact} (hcustom : a.custom = b.custom) (hname : a.name = b.name)
    (hnote : a.note = b.note) (hmuted : a.muted = b.muted)
    (hauto : a.autoAnswer = b.autoAnswer) : c.StillHas a ↔ c.StillHas b := by
  have hkept : c.NameKept a ↔ c.NameKept b := by
    rw [NameKept, NameKept, hcustom, hname]
  constructor
  · rintro ⟨hn, ho, hm, ha⟩
    exact ⟨hkept.mp hn, hnote ▸ ho, hmuted ▸ hm, hauto ▸ ha⟩
  · rintro ⟨hn, ho, hm, ha⟩
    exact ⟨hkept.mpr hn, hnote ▸ ho, hmuted ▸ hm, hauto ▸ ha⟩

/-- An entry with nothing set but perhaps a name takes the place of `c`. -/
theorem stillHas_plain {c c' : Contact} (h : c'.Plain) :
    c.StillHas c' ↔ c.NameKept c' ∧ c.Plain := by
  constructor
  · intro hkeeps
    refine ⟨hkeeps.name, ?_, ?_, ?_⟩
    · by_contra hnote
      exact hnote ((hkeeps.note hnote).symm.trans h.note)
    · by_contra hmuted
      have hset := hkeeps.muted (Bool.eq_true_of_not_eq_false hmuted)
      rw [h.muted] at hset
      cases hset
    · by_contra hauto
      have hset := hkeeps.autoAnswer (Bool.eq_true_of_not_eq_false hauto)
      rw [h.autoAnswer] at hset
      cases hset
  · rintro ⟨hname, hplain⟩
    refine ⟨hname, fun hnote => absurd hplain.note hnote, fun hmuted => ?_, fun hauto => ?_⟩
    · rw [hplain.muted] at hmuted
      cases hmuted
    · rw [hplain.autoAnswer] at hauto
      cases hauto

end Contact

namespace ContactsService

variable {P : ContactsPlatform} {s t : ContactsService}

/-- What the user set for a contact of a named device is set for one of that device in `t`. -/
def Keeps (s t : ContactsService) : Prop :=
  ∀ c ∈ s.contacts, c.device ≠ [] → c.UserSet →
    ∃ c' ∈ t.contacts, c'.device = c.device ∧ c.StillHas c'

instance (s t : ContactsService) : Decidable (s.Keeps t) :=
  inferInstanceAs (Decidable (∀ c ∈ s.contacts, _ → _ → ∃ c' ∈ t.contacts, _ ∧ _))

theorem Keeps.of_subset (h : s.contacts ⊆ t.contacts) : s.Keeps t :=
  fun c hc _ _ => ⟨c, h hc, rfl, .refl c⟩

theorem Keeps.refl : s.Keeps s := .of_subset (List.Subset.refl _)

theorem Keeps.trans {u : ContactsService} (hst : s.Keeps t) (htu : t.Keeps u) : s.Keeps u := by
  intro c hc hnamed hset
  obtain ⟨c', hc', hdevice, hkeeps⟩ := hst c hc hnamed hset
  obtain ⟨c'', hc'', hdevice', hkeeps'⟩ :=
    htu c' hc' (by rwa [hdevice]) (hset.of_stillHas hkeeps)
  exact ⟨c'', hc'', hdevice'.trans hdevice, hkeeps.trans hkeeps'⟩

/-! ## Putting an entry -/

/-- What an entry with this id and device takes the place of: on its own device the contacts are
as `like` says, and one of another device that goes with the id has a second entry. -/
def Harmless (s : ContactsService) (id device : Text) (like : Contact → Prop) : Prop :=
  ∀ c ∈ s.contacts, c.device ≠ [] →
    (c.device = device → like c) ∧
    (c.device ≠ device → c.id = id → c.UserSet →
      ∃ c' ∈ s.contacts, c'.device = c.device ∧ c'.id ≠ id ∧ c.StillHas c')

theorem mem_put {entry c : Contact} :
    c ∈ (s.put entry).contacts ↔ c = entry ∨ c ∈ s.contacts ∧ c.id ≠ entry.id ∧
      (entry.device = [] ∨ c.device ≠ entry.device) := by
  simp [ContactsService.put]

theorem keeps_put_iff (s : ContactsService) (entry : Contact) :
    s.Keeps (s.put entry) ↔ s.Harmless entry.id entry.device (·.StillHas entry) := by
  constructor
  · intro hkeeps c hc hnamed
    constructor
    · intro hdevice
      by_cases hset : c.UserSet
      · obtain ⟨c', hc', hsame, hstill⟩ := hkeeps c hc hnamed hset
        rcases mem_put.mp hc' with rfl | ⟨-, -, hother⟩
        · exact hstill
        · have hempty : entry.device = [] :=
            hother.resolve_right (not_not_intro (hsame.trans hdevice))
          exact absurd (hdevice.trans hempty) hnamed
      · exact Contact.stillHas_of_not_userSet hset
    · intro hdevice hid hset
      obtain ⟨c', hc', hsame, hstill⟩ := hkeeps c hc hnamed hset
      rcases mem_put.mp hc' with rfl | ⟨hmem, hid', -⟩
      · exact absurd hsame.symm hdevice
      · exact ⟨c', hmem, hsame, hid', hstill⟩
  · intro hharmless c hc hnamed hset
    obtain ⟨hown, hother⟩ := hharmless c hc hnamed
    by_cases hdevice : c.device = entry.device
    · exact ⟨entry, mem_put.mpr (.inl rfl), hdevice.symm, hown hdevice⟩
    · by_cases hid : c.id = entry.id
      · obtain ⟨c', hmem, hsame, hid', hstill⟩ := hother hdevice hid hset
        exact ⟨c', mem_put.mpr (.inr ⟨hmem, hid', .inr (by rwa [hsame])⟩), hsame, hstill⟩
      · exact ⟨c, mem_put.mpr (.inr ⟨hc, hid, .inr hdevice⟩), rfl, .refl c⟩

theorem Harmless.congr {id device : Text} {like like' : Contact → Prop}
    (h : ∀ c ∈ s.contacts, c.device ≠ [] → c.device = device → (like c ↔ like' c)) :
    s.Harmless id device like ↔ s.Harmless id device like' := by
  refine forall₃_congr fun c hc hnamed => and_congr_left' ?_
  exact forall_congr' (h c hc hnamed)

/-! ## Each operation -/

/-- Nothing was set for `c` but a name, and that is the name of the entry found for its device. -/
def NameOnly (s : ContactsService) (c : Contact) : Prop :=
  c.Plain ∧ ∀ known ∈ s.ofDevice c.device, c.NameKept known

/-- `handleDatagram` takes the message for one of `contact` on `device`. -/
structure Accepted (P : ContactsPlatform) (s : ContactsService) (data : Bytes) (now : ℤ)
    (contact : Contact) (device : Text) : Prop where
  framed : ¬ (data.length < 41 ∨ data.head? ≠ some 0x47)
  found : s.byId (hex ((data.drop 5).take 8)) = some contact
  opened : ∃ ts name, (P.knockOpen contact.secret data).bind P.jsonDecode =
    some ⟨some device, some ts, name⟩ ∧ ¬ (device = P.deviceId ∨ maxAgeMs < |now - ts|)

/-- What keeps an operation from losing anything. -/
def Careful (P : ContactsPlatform) (s : ContactsService) : Op → Prop
  | .addFromLink raw => ∀ link ∈ ContactLink.tryParse P.uris raw, link.device ≠ P.deviceId →
      ∀ id ∈ idFor P link.secret, s.Harmless id link.device s.NameOnly
  | .onPaired activeId e _ =>
      match s.byId (activeId.getD []) with
      | some active => s.Harmless active.id active.device (·.StillHas active)
      | none => e.token ≠ [] → ∀ id ∈ idFor P e.token, s.Harmless id e.peerDevice s.NameOnly
  | .handleDatagram data _ now => ∀ contact device, Accepted P s data now contact device →
      s.Harmless contact.id device (·.StillHas contact)
  | _ => True

/-- The operations by which the user changes or deletes an entry. -/
def Op.ByUser : Op → Prop
  | .rename _ _ | .edit _ _ _ _ | .remove _ => True
  | _ => False

theorem ofDevice_isSome {c : Contact} (hc : c ∈ s.contacts) (hnamed : c.device ≠ []) :
    ∃ known, s.ofDevice c.device = some known := by
  rw [ofDevice, if_neg hnamed, ← Option.isSome_iff_exists, List.find?_isSome]
  exact ⟨c, hc, by simp⟩

/-- A new entry with the name of the one known for its device. -/
theorem keeps_renewed_iff {entry : Contact} (told : Text) (hplain : entry.Plain)
    (hname : entry.name = keptName (s.ofDevice entry.device) told)
    (hcustom : entry.custom = ((s.ofDevice entry.device).map (·.custom)).getD false) :
    s.Keeps (s.put entry) ↔ s.Harmless entry.id entry.device s.NameOnly := by
  rw [keeps_put_iff]
  apply Harmless.congr
  intro c hc hnamed hdevice
  obtain ⟨known, hknown⟩ := ofDevice_isSome hc hnamed
  have hkept : c.NameKept entry ↔ c.NameKept known := by
    rw [← hdevice, hknown] at hname hcustom
    simp only [Contact.NameKept, hname, hcustom, keptName, Option.map_some, Option.getD_some]
    refine imp_congr_right fun _ => and_congr_right fun hset => ?_
    rw [if_pos hset]
  rw [Contact.stillHas_plain hplain, hkept, NameOnly, hknown]
  simp [and_comm]

theorem keeps_addFromLink_iff (raw : Text) :
    s.Keeps (s.addFromLink P raw) ↔ Careful P s (.addFromLink raw) := by
  rw [ContactsService.addFromLink, Careful]
  cases hlink : ContactLink.tryParse P.uris raw with
  | none => exact iff_of_true .refl (by simp)
  | some link =>
    simp only [Option.mem_def, Option.some.injEq, forall_eq']
    by_cases hself : link.device = P.deviceId
    · rw [if_pos hself]
      exact iff_of_true .refl fun hother => absurd hself hother
    · rw [if_neg hself, forall_prop_of_true hself]
      cases hid : idFor P link.secret with
      | none => exact iff_of_true .refl (by simp)
      | some id =>
        simp only [Option.some.injEq, forall_eq']
        apply keeps_renewed_iff (if link.name = [] then pendingName else link.name)
        · exact ⟨rfl, rfl, rfl⟩
        · rfl
        · rfl

theorem keeps_onPaired_iff (activeId : Option Text) (e : PairedEvent) (now : ℤ) :
    s.Keeps (s.onPaired P activeId e now) ↔ Careful P s (.onPaired activeId e now) := by
  rw [ContactsService.onPaired, Careful]
  cases hactive : s.byId (activeId.getD []) with
  | some active =>
    dsimp only
    rw [keeps_put_iff]
    apply Harmless.congr
    intro c _ _ _
    exact Contact.stillHas_congr rfl rfl rfl rfl rfl
  | none =>
    dsimp only
    by_cases hempty : e.token = []
    · rw [if_pos hempty]
      exact iff_of_true .refl fun hsome => absurd hempty hsome
    · rw [if_neg hempty, forall_prop_of_true hempty]
      cases hid : idFor P e.token with
      | none => exact iff_of_true .refl (by simp)
      | some id =>
        simp only [Option.mem_def, Option.some.injEq, forall_eq']
        apply keeps_renewed_iff (if e.peerName ≠ [] then e.peerName
          else if e.isHost then text "Invitado de " ++ e.room else text "Sala " ++ e.room)
        · exact ⟨rfl, rfl, rfl⟩
        · rfl
        · rfl

/-- A message keeps all that is set in the contact it is from. -/
theorem stillHas_heard {c contact : Contact} (device : Text) (name : Option Text)
    (origin : Option Origin) (now : ℤ) :
    c.StillHas (heard contact device name origin now) ↔ c.StillHas contact := by
  have hname : c.NameKept (heard contact device name origin now) ↔ c.NameKept contact := by
    refine imp_congr_right fun _ => and_congr_right fun hset => ?_
    have hcustom : contact.custom = true := hset
    simp only [heard, if_pos hcustom]
  exact ⟨fun h => ⟨hname.mp h.name, h.note, h.muted, h.autoAnswer⟩,
    fun h => ⟨hname.mpr h.name, h.note, h.muted, h.autoAnswer⟩⟩

theorem Accepted.unique {data : Bytes} {now : ℤ} {contact contact' : Contact}
    {device device' : Text} (h : Accepted P s data now contact device)
    (h' : Accepted P s data now contact' device') : contact' = contact ∧ device' = device := by
  obtain rfl : contact' = contact := Option.some.inj (h'.found.symm.trans h.found)
  obtain ⟨ts, name, hopened, -⟩ := h.opened
  obtain ⟨ts', name', hopened', -⟩ := h'.opened
  rw [hopened] at hopened'
  cases hopened'
  exact ⟨rfl, rfl⟩

/-- A datagram is accepted for one contact, which is put back, or changes nothing. -/
theorem handleDatagram_cases (data : Bytes) (origin : Option Origin) (now : ℤ) :
    (∃ contact device name, Accepted P s data now contact device ∧
      s.handleDatagram P data origin now = s.put (heard contact device name origin now)) ∨
    ((∀ contact device, ¬ Accepted P s data now contact device) ∧
      s.handleDatagram P data origin now = s) := by
  unfold handleDatagram
  by_cases hframe : data.length < 41 ∨ data.head? ≠ some 0x47
  · rw [if_pos hframe]
    exact .inr ⟨fun _ _ h => h.framed hframe, rfl⟩
  rw [if_neg hframe]
  cases hfound : s.byId (hex ((data.drop 5).take 8)) with
  | none => exact .inr ⟨fun _ _ h => by simpa [hfound] using h.found, rfl⟩
  | some contact =>
    have hsame {contact' device} (h : Accepted P s data now contact' device) :
        contact' = contact := Option.some.inj (h.found.symm.trans hfound)
    dsimp only
    split
    · rename_i device ts name hopened
      split_ifs with hrefused
      · refine .inr ⟨fun contact' device' h => ?_, rfl⟩
        obtain rfl := hsame h
        obtain ⟨ts', name', hopened', hfresh⟩ := h.opened
        rw [hopened] at hopened'
        cases hopened'
        exact hfresh hrefused
      · exact .inl ⟨contact, device, name, ⟨hframe, hfound, ts, name, hopened, hrefused⟩, rfl⟩
    · rename_i hother
      refine .inr ⟨fun contact' device' h => ?_, rfl⟩
      obtain rfl := hsame h
      obtain ⟨ts', name', hopened', -⟩ := h.opened
      exact hother device' ts' name' hopened'

theorem keeps_handleDatagram_iff (data : Bytes) (origin : Option Origin) (now : ℤ) :
    s.Keeps (s.handleDatagram P data origin now) ↔
      Careful P s (.handleDatagram data origin now) := by
  rcases handleDatagram_cases (P := P) (s := s) data origin now with
    ⟨contact, device, name, haccepted, hput⟩ | ⟨hnone, hsame⟩
  · rw [hput, keeps_put_iff]
    refine (Harmless.congr fun c _ _ _ => stillHas_heard device name origin now).trans ?_
    constructor
    · intro hharmless contact' device' haccepted'
      obtain ⟨rfl, rfl⟩ := haccepted.unique haccepted'
      exact hharmless
    · intro hcareful
      exact hcareful contact device haccepted
  · rw [hsame]
    exact iff_of_true .refl fun contact device haccepted => absurd haccepted (hnone contact device)

theorem keeps_linkSaved (secret : Text) : s.Keeps (s.linkSaved P secret) := by
  unfold ContactsService.linkSaved
  cases idFor P secret with
  | none => exact .refl
  | some id =>
    dsimp only
    split_ifs
    · exact .of_subset (List.subset_append_left _ _)
    · exact .refl

theorem keeps_step_iff {op : Op} (hop : ¬ op.ByUser) :
    s.Keeps (step P s op) ↔ Careful P s op := by
  cases op with
  | contactLink secret =>
    have hsame : s.contacts ⊆ (s.contactLink P secret).contacts := by
      rw [contacts_contactLink]
      exact List.Subset.refl _
    exact iff_of_true (.of_subset hsame) trivial
  | linkSaved secret => exact iff_of_true (keeps_linkSaved secret) trivial
  | addFromLink raw => exact keeps_addFromLink_iff raw
  | onPaired activeId e now => exact keeps_onPaired_iff activeId e now
  | handleDatagram data origin now => exact keeps_handleDatagram_iff data origin now
  | rename contact name => exact absurd trivial hop
  | edit contactId note muted autoAnswer => exact absurd trivial hop
  | remove contact => exact absurd trivial hop

theorem keeps_run {ops : List Op}
    (h : Run.Along (step P) (fun s op => ¬ op.ByUser ∧ Careful P s op) s ops) :
    s.Keeps (ops.foldl (step P) s) := by
  apply h.invariant _ .refl
  intro t op hkeeps hop
  exact hkeeps.trans ((keeps_step_iff hop.1).mpr hop.2)

/-- A phone that answered a link, with a note and muted. -/
def notedPhone : ContactsService :=
  [.contactLink (text "ABCDEFGHJKLMNPQR"), .linkSaved (text "ABCDEFGHJKLMNPQR"),
    .handleDatagram ([0x47, 0x54, 0x4B, 0x4E, 1, 1] ++ List.replicate 35 0) none 1000,
    .edit (hex [1, 0, 0, 0, 0, 0, 0, 0]) (text "nota") (some true) none].foldl
    (step toyPlatform) new

end ContactsService
end GravitalTalk
