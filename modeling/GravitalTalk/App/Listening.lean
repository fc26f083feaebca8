import GravitalTalk.App.Calls

/-!
# Where a device listens

The mailbox of a device should listen to the topics of its contacts and of the room it hosts.
The service catches up only when a save of the list is done, so in between it may be late.
-/
namespace GravitalTalk
namespace Calls

/-- What a step does about listening: nothing, or it leaves a save behind, or it catches up. -/
inductive Listens (s t : Calls) : Prop
  | keep (h : t.mail = s.mail)
  | save (rest : Save) (hbox : t.box = s.box) (hsub : t.subscribed = s.subscribed)
      (hsaves : t.saves = s.saves ++ [rest])
  | sync (hbox : t.box = (s.box ∪ (t.wanted \ s.subscribed).image topic) \
      (s.subscribed \ t.wanted).image topic) (hsub : t.subscribed = t.wanted)

section Listening

variable {P c now} {s t u : Calls}

theorem wanted_of_mail (h : t.mail = s.mail) : t.wanted = s.wanted := by
  simp only [mail, Prod.mk.injEq] at h
  rw [wanted, wanted, h.2.2.2.1, h.2.2.2.2]

theorem Aside.listens (h : Aside s t) : Listens s t := .keep h.mail

/-- What does not touch the mailbox may follow. -/
theorem Listens.aside (h : Listens s t) (haside : Aside t u) : Listens s u := by
  have hkeep := haside.mail
  have hwanted := wanted_of_mail hkeep
  cases h with
  | keep h => exact .keep (hkeep.trans h)
  | save rest hbox hsub hsaves =>
    simp only [mail, Prod.mk.injEq] at hkeep
    exact .save rest (hkeep.1.trans hbox) (hkeep.2.1.trans hsub) (hkeep.2.2.1.trans hsaves)
  | sync hbox hsub =>
    simp only [mail, Prod.mk.injEq] at hkeep
    apply Listens.sync
    · rw [hkeep.1, hbox, hwanted]
    · rw [hkeep.2.1, hsub, hwanted]

theorem listens_save (list : ContactsService) (rest : Save) (s : Calls) :
    Listens s (s.save list rest) := .save rest rfl rfl rfl

theorem listens_onCall (updated : Contact) (invite : Text) (h : Listens s t) :
    Listens s (t.onCall c now updated invite) := by
  unfold onCall
  dsimp only
  split_ifs
  · exact h
  · exact h
  · exact h
  all_goals
    cases h with
    | keep h => exact .keep h
    | save rest hbox hsub hsaves => exact .save rest hbox hsub hsaves
    | sync hbox hsub => exact .sync hbox hsub

theorem listens_onMessage (contact updated : Contact) (kind invite : Option Text)
    (h : Listens s t) : Listens s (t.onMessage c now contact updated kind invite) := by
  have hhello :
      Listens s (if kind = some (text "hello") then t.onHello c contact updated else t) := by
    split_ifs
    · exact h.aside (aside_onHello contact updated t)
    · exact h
  unfold onMessage
  dsimp only
  generalize (if kind = some (text "hello") then t.onHello c contact updated else t) = u at hhello ⊢
  split
  · exact hhello
  · split_ifs
    · exact hhello.aside ⟨rfl, rfl⟩
    · exact listens_onCall updated _ hhello
    · exact hhello

theorem listens_handleDatagram (data : Bytes) (origin : Option Origin) (s : Calls) :
    Listens s (s.handleDatagram P c now data origin) := by
  have hsame : Listens s s := .keep rfl
  unfold handleDatagram
  split_ifs
  · exact hsame
  · dsimp only
    split
    · split
      · exact hsame
      · split_ifs
        · exact (aside_onRoomDatagram _ data s).listens
        · exact hsame
    · split
      · exact hsame
      · split
        · split_ifs
          · exact hsame
          · exact listens_onMessage _ _ _ _ (listens_save _ _ s)
        · exact hsame

theorem listens_saved (i : ℕ) (s : Calls) : Listens s (s.saved now i) := by
  unfold saved
  split
  · exact .keep rfl
  · split <;> exact .sync rfl rfl

theorem listens_syncHosted (s : Calls) : Listens s (s.syncHosted P c) := by
  unfold syncHosted
  dsimp only
  split_ifs
  · exact .keep rfl
  all_goals exact .sync rfl rfl

theorem listens_syncRoom (s : Calls) : Listens s (s.syncRoom P c) := by
  have hhosted := listens_syncHosted (P := P) (c := c) s
  unfold syncRoom
  dsimp only
  split
  · exact hhosted.aside ⟨rfl, rfl⟩
  · split_ifs
    · exact hhosted
    · split
      · exact hhosted
      · rename_i token _ _ _ id _
        have hanswer := aside_answerRoom (c := c) id token (s.syncHosted P c)
        exact hhosted.aside (hanswer.trans ⟨rfl, rfl⟩)

theorem listens_onController (s : Calls) : Listens s (s.onController P c) := by
  have hroom := listens_syncRoom (P := P) (c := c) s
  unfold onController
  dsimp only
  split_ifs <;> exact hroom.aside ⟨rfl, rfl⟩

theorem listens_onPaired (e : PairedEvent) (s : Calls) : Listens s (s.onPaired P now e) := by
  unfold onPaired
  dsimp only
  split
  · exact .save _ rfl rfl rfl
  · split_ifs
    · exact .keep rfl
    · split
      · exact .keep rfl
      · exact .save _ rfl rfl rfl

theorem listens_addFromLink (raw : Text) (s : Calls) : Listens s (s.addFromLink P raw) := by
  unfold addFromLink
  split
  · exact .keep rfl
  · split_ifs
    · exact .keep rfl
    · split
      · exact .keep rfl
      · exact listens_save _ _ s

theorem listens_step (s : Calls) (e : Event) : Listens s (step P s e) := by
  obtain ⟨c, now, op⟩ := e
  cases op with
  | rename contact name =>
    change Listens s (s.rename contact name)
    unfold rename
    split_ifs
    · exact .keep rfl
    · exact listens_save _ _ s
  | edit contactId note muted autoAnswer =>
    change Listens s (s.edit contactId note muted autoAnswer)
    unfold edit
    split
    · exact .keep rfl
    · exact listens_save _ _ s
  | remove contact => exact listens_save _ _ s
  | contactLink secret => exact (aside_contactLink secret s).listens
  | linkSaved secret =>
    change Listens s (s.linkSaved P secret)
    unfold linkSaved
    split
    · exact .keep rfl
    · split_ifs
      · exact listens_save _ _ s
      · exact .keep rfl
  | addFromLink raw => exact listens_addFromLink raw s
  | saved i => exact listens_saved i s
  | startInviting link => exact .keep rfl
  | stopInviting => exact .keep rfl
  | takeAutoCall => exact .keep rfl
  | ring contact => exact (aside_ring contact s).listens
  | fire i => exact (aside_fire i s).listens
  | call contact => exact (aside_call contact s).listens
  | tick => exact (aside_tick s).listens
  | cancelCall => exact (aside_cancelCall s).listens
  | paired e => exact listens_onPaired e s
  | controller => exact listens_onController s
  | roomTick => exact (aside_roomTick s).listens
  | datagram data origin => exact listens_handleDatagram data origin s
  | answerTick => exact (aside_answerTick s).listens
  | accept =>
    change Listens s s.accept
    unfold accept
    split <;> exact .keep rfl
  | reject =>
    change Listens s s.reject
    unfold reject
    split <;> exact .keep rfl

/-- The mailbox listens to what is subscribed, which is what is wanted once all is saved. -/
structure Synced (s : Calls) : Prop where
  box : s.box = s.subscribed.image topic
  subscribed : s.saves = [] → s.subscribed = s.wanted

theorem topic_injective : Function.Injective topic := fun _ _ h => List.append_cancel_left h

/-- What is new comes in, what is old goes out. -/
theorem image_catch_up {α β : Type*} [DecidableEq α] [DecidableEq β] {f : α → β}
    (hf : Function.Injective f) (old new : Finset α) :
    (old.image f ∪ (new \ old).image f) \ (old \ new).image f = new.image f := by
  rw [← Finset.image_union, ← Finset.image_sdiff _ _ hf]
  congr 1
  ext a
  simp only [Finset.mem_sdiff, Finset.mem_union]
  tauto

theorem Synced.listens (h : Synced s) (hstep : Listens s t) : Synced t := by
  cases hstep with
  | keep hkeep =>
    have hwanted := wanted_of_mail hkeep
    simp only [mail, Prod.mk.injEq] at hkeep
    constructor
    · rw [hkeep.1, hkeep.2.1, h.box]
    · intro hsaves
      rw [hkeep.2.1, hwanted]
      exact h.subscribed (hkeep.2.2.1 ▸ hsaves)
  | save rest hbox hsub hsaves =>
    constructor
    · rw [hbox, hsub, h.box]
    · intro hnone
      rw [hsaves] at hnone
      simp at hnone
  | sync hbox hsub =>
    constructor
    · rw [hbox, hsub, h.box]
      exact image_catch_up topic_injective _ _
    · exact fun _ => hsub

theorem synced_init (contacts : List Contact) : Synced (init contacts) := by
  constructor
  · simp [init, syncMailbox, new]
  · exact fun _ => rfl

/-- In every run the mailbox listens to the topics that the service believes it subscribed, and
when no save is under way these are the topics of the contacts and of the room it hosts. -/
theorem mailbox_synced (P : CallsPlatform) (contacts : List Contact) (events : List Event) :
    let s := events.foldl (step P) (init contacts)
    s.box = s.subscribed.image topic ∧
      (s.saves = [] →
        s.box = ((s.list.contacts.map (·.id)).toFinset ∪ s.roomId.toFinset).image topic) := by
  intro s
  have hsynced : Synced s := by
    have hall : Run.Along (step P) (fun _ _ => True) (init contacts) events :=
      Run.along_labels.mpr fun _ _ => trivial
    exact hall.invariant (fun s e hs _ => hs.listens (listens_step s e)) (synced_init contacts)
  refine ⟨hsynced.box, fun hsaves => ?_⟩
  rw [hsynced.box, hsynced.subscribed hsaves, wanted]

end Listening

end Calls
end GravitalTalk
