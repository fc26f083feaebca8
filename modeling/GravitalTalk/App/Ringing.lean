import GravitalTalk.App.Calls

/-!
# What rings

When a call rings, whose it can be, and how often a call comes in without anybody being asked.
-/
namespace GravitalTalk
namespace Calls

/-- A datagram of this moment makes `call` ring: a contact sealed it with the secret they share,
lately and on another device, its calls are not muted, nobody is talking, and this invitation
neither rings nor was answered. -/
structure Rings (P : CallsPlatform) (c : Controller) (now : ℤ) (data : Bytes)
    (origin : Option Origin) (s : Calls) (call : IncomingCall) : Prop where
  sealed : ∃ contact plain device ts name,
    s.list.byId (hex ((data.drop 5).take 8)) = some contact ∧
    P.knockOpen contact.secret data = some plain ∧
    P.jsonDecode plain = some ⟨some device, some ts, name⟩ ∧
    P.kindOf plain = some (text "call") ∧ P.uriOf plain = some call.invite ∧
    device ≠ P.deviceId ∧ |now - ts| ≤ maxAgeMs ∧
    call.contact = ContactsService.heard contact device name origin now
  muted : call.contact.muted = false
  idle : c.isLive = false ∧ c.busy = false
  unanswered : call.invite ∉ s.dismissed
  silent : ∀ other, s.incoming = some other → other.invite ≠ call.invite
  auto : call.auto = true ↔ call.contact.autoAnswer = true ∨
    (s.autoAcceptId = some call.contact.id ∧ now < s.autoAcceptUntil)

/-- What a step does about ringing. -/
inductive Chimes (P : CallsPlatform) (s : Calls) (e : Event) (t : Calls) : Prop
  | keep (h : t.bell = s.bell)
  /-- Whoever opened a link may be called without being asked. -/
  | grant (contact : Contact) (i : ℕ) (hop : e.2.2 = .saved i)
      (hsave : s.saves[i]? = some (.opened contact)) (hincoming : t.incoming = s.incoming)
      (hdismissed : t.dismissed = s.dismissed) (hid : t.autoAcceptId = some contact.id)
  | ring (data : Bytes) (origin : Option Origin) (call : IncomingCall)
      (hop : e.2.2 = .datagram data origin) (hrings : Rings P e.1 e.2.1 data origin s call)
      (hincoming : t.incoming = some call) (hdismissed : t.dismissed = s.dismissed)
      (hid : t.autoAcceptId = if call.auto then none else s.autoAcceptId)
  | answer (call : IncomingCall) (hop : e.2.2 = .accept ∨ e.2.2 = .reject)
      (hcall : s.incoming = some call) (hincoming : t.incoming = none)
      (hdismissed : t.dismissed = insert call.invite s.dismissed)
      (hid : t.autoAcceptId = s.autoAcceptId)

section Ringing

variable {P c now} {s t u : Calls}

theorem Aside.chimes (h : Aside s t) (e : Event) : Chimes P s e t := .keep h.bell

theorem bell_save (list : ContactsService) (rest : Save) (s : Calls) :
    (s.save list rest).bell = s.bell := rfl

/-- Nothing but the bell of the service counts. -/
theorem bell_onCall (updated : Contact) (invite : Text) (s : Calls) :
    (s.onCall c now updated invite).bell = s.bell ∨
      ∃ auto, (auto = true ↔ updated.autoAnswer = true ∨
          (s.autoAcceptId = some updated.id ∧ now < s.autoAcceptUntil)) ∧
        (s.onCall c now updated invite).bell =
          (some ⟨updated, invite, auto⟩, s.dismissed, if auto then none else s.autoAcceptId,
            s.autoAcceptUntil) ∧
        updated.muted = false ∧ c.isLive = false ∧ c.busy = false ∧ invite ∉ s.dismissed ∧
        ∀ other, s.incoming = some other → other.invite ≠ invite := by
  unfold onCall
  split_ifs with hbusy hknown hmuted
  · exact .inl rfl
  · exact .inl rfl
  · exact .inl rfl
  · right
    obtain ⟨hlive, hfree⟩ := not_or.mp hbusy
    obtain ⟨hnew, hsilent⟩ := not_or.mp hknown
    refine ⟨_, ?_, rfl, by simpa using hmuted, by simpa using hlive, by simpa using hfree, hnew, ?_⟩
    · rw [Bool.or_eq_true, Bool.and_eq_true, decide_eq_true_eq, decide_eq_true_eq,
        eq_comm (a := some updated.id)]
    · intro other hother heq
      exact hsilent (by rw [hother, ← heq]; rfl)

theorem bell_syncHosted (s : Calls) : (s.syncHosted P c).bell = s.bell := by
  unfold syncHosted
  dsimp only
  split_ifs <;> rfl

theorem bell_syncRoom (s : Calls) : (s.syncRoom P c).bell = s.bell := by
  have hhosted := bell_syncHosted (P := P) (c := c) s
  unfold syncRoom
  dsimp only
  split
  · exact hhosted
  · split_ifs
    · exact hhosted
    · split
      · exact hhosted
      · rename_i token _ _ _ id _
        exact (aside_answerRoom (c := c) id token (s.syncHosted P c)).bell.trans hhosted

theorem bell_onController (s : Calls) : (s.onController P c).bell = s.bell := by
  have hroom := bell_syncRoom (P := P) (c := c) s
  unfold onController
  dsimp only
  split_ifs <;> exact hroom

theorem bell_onPaired (e : PairedEvent) (s : Calls) : (s.onPaired P now e).bell = s.bell := by
  unfold onPaired
  dsimp only
  split
  · rfl
  · split_ifs
    · rfl
    · split <;> rfl

theorem bell_addFromLink (raw : Text) (s : Calls) : (s.addFromLink P raw).bell = s.bell := by
  unfold addFromLink
  split
  · rfl
  · split_ifs
    · rfl
    · split <;> rfl

theorem bell_onHello (contact updated : Contact) (kind : Option Text) (s : Calls) :
    (if kind = some (text "hello") then s.onHello c contact updated else s).bell = s.bell := by
  split_ifs
  · exact (aside_onHello contact updated s).bell
  · rfl

theorem chimes_handleDatagram (data : Bytes) (origin : Option Origin) (s : Calls) :
    Chimes P s (c, now, .datagram data origin) (s.handleDatagram P c now data origin) := by
  have hsame : Chimes P s (c, now, .datagram data origin) s := .keep rfl
  unfold handleDatagram
  split_ifs
  · exact hsame
  · dsimp only
    split
    · split
      · exact hsame
      · split_ifs
        · exact (aside_onRoomDatagram _ data s).chimes _
        · exact hsame
    · rename_i contact hcontact
      split
      · exact hsame
      · rename_i plain hplain
        split
        · rename_i device ts name hmsg
          split_ifs with hold
          · exact hsame
          · obtain ⟨hother, hage⟩ := not_or.mp hold
            unfold onMessage
            dsimp only
            generalize hupdated :
              ContactsService.heard contact device name origin now = updated
            have hbell := bell_onHello (c := c) contact updated (P.kindOf plain)
              (s.save (s.list.put updated) .plain)
            generalize (if P.kindOf plain = some (text "hello") then
              (s.save (s.list.put updated) .plain).onHello c contact updated
              else s.save (s.list.put updated) .plain) = u at hbell ⊢
            rw [bell_save] at hbell
            split
            · exact .keep hbell
            · rename_i invite hinvite
              split_ifs with hanswer hcall
              · exact .keep hbell
              · have hu := hbell
                simp only [bell, Prod.mk.injEq] at hu
                obtain ⟨hincoming, hdismissed, hid, huntil⟩ := hu
                rcases bell_onCall (c := c) updated invite u with
                  hkeep | ⟨auto, hauto, hring, hmuted, hlive, hfree, hnew, hsilent⟩
                · exact .keep (hkeep.trans hbell)
                · simp only [bell, Prod.mk.injEq] at hring
                  obtain ⟨hi, hd, ha, -⟩ := hring
                  rw [hid, huntil] at hauto
                  refine .ring data origin ⟨updated, invite, auto⟩ rfl ?_ hi
                    (hd.trans hdismissed) (by rw [ha, hid])
                  refine ⟨⟨contact, plain, device, ts, name, hcontact, hplain, hmsg, hcall, hinvite,
                    hother, not_lt.mp hage, hupdated.symm⟩, hmuted, ⟨hlive, hfree⟩, ?_, ?_, hauto⟩
                  · rwa [hdismissed] at hnew
                  · rwa [hincoming] at hsilent
              · exact .keep hbell
        · exact hsame

theorem chimes_step (s : Calls) (e : Event) : Chimes P s e (step P s e) := by
  obtain ⟨c, now, op⟩ := e
  cases op with
  | rename contact name =>
    refine .keep ?_
    change (s.rename contact name).bell = s.bell
    unfold rename
    split_ifs <;> rfl
  | edit contactId note muted autoAnswer =>
    refine .keep ?_
    change (s.edit contactId note muted autoAnswer).bell = s.bell
    unfold edit
    split <;> rfl
  | remove contact => exact .keep rfl
  | contactLink secret => exact (aside_contactLink secret s).chimes _
  | linkSaved secret =>
    refine .keep ?_
    change (s.linkSaved P secret).bell = s.bell
    unfold linkSaved
    split
    · rfl
    · split_ifs <;> rfl
  | addFromLink raw => exact .keep (bell_addFromLink raw s)
  | saved i =>
    change Chimes P s (c, now, .saved i) (s.saved now i)
    unfold saved
    split
    · exact .keep rfl
    · rename_i rest hrest
      cases rest with
      | plain => exact .keep rfl
      | met contact => exact .keep rfl
      | opened contact => exact .grant contact i rfl hrest rfl rfl rfl
  | startInviting link => exact .keep rfl
  | stopInviting => exact .keep rfl
  | takeAutoCall => exact .keep rfl
  | ring contact => exact (aside_ring contact s).chimes _
  | fire i => exact (aside_fire i s).chimes _
  | call contact => exact (aside_call contact s).chimes _
  | tick => exact (aside_tick s).chimes _
  | cancelCall => exact (aside_cancelCall s).chimes _
  | paired e => exact .keep (bell_onPaired e s)
  | controller => exact .keep (bell_onController s)
  | roomTick => exact (aside_roomTick s).chimes _
  | datagram data origin => exact chimes_handleDatagram data origin s
  | answerTick => exact (aside_answerTick s).chimes _
  | accept =>
    change Chimes P s (c, now, .accept) s.accept
    unfold accept
    split
    · exact .keep rfl
    · rename_i call hcall
      exact .answer call (.inl rfl) hcall rfl rfl rfl
  | reject =>
    change Chimes P s (c, now, .reject) s.reject
    unfold reject
    split
    · exact .keep rfl
    · rename_i call hcall
      exact .answer call (.inr rfl) hcall rfl rfl rfl

end Ringing

/-- What was answered in a run that led to `s` stays answered, and what rings was not. -/
structure Quietened (P : CallsPlatform) (s₀ : Calls) (events : List Event) (s : Calls) : Prop where
  answered : ∀ before e after, events = before ++ e :: after → e.2.2 = .accept ∨ e.2.2 = .reject →
    ∀ call, (before.foldl (step P) s₀).incoming = some call → call.invite ∈ s.dismissed
  ringing : ∀ call, s.incoming = some call → call.invite ∉ s.dismissed

section Answering

variable {P : CallsPlatform} {s t : Calls} {e : Event}

/-- An invitation that was answered counts as answered from then on. -/
theorem Chimes.dismissed_subset (h : Chimes P s e t) : s.dismissed ⊆ t.dismissed := by
  cases h with
  | keep hkeep =>
    simp only [bell, Prod.mk.injEq] at hkeep
    rw [hkeep.2.1]
  | grant _ _ _ _ _ hdismissed _ => rw [hdismissed]
  | ring _ _ _ _ _ _ hdismissed _ => rw [hdismissed]
  | answer call _ _ _ hdismissed _ =>
    rw [hdismissed]
    exact Finset.subset_insert _ _

/-- What `accept` and `reject` do to a call that rings. -/
theorem dismissed_answer (h : e.2.2 = .accept ∨ e.2.2 = .reject) {call : IncomingCall}
    (hcall : s.incoming = some call) : call.invite ∈ (step P s e).dismissed := by
  obtain ⟨c, now, op⟩ := e
  rcases h with h | h
  · cases h
    change call.invite ∈ s.accept.dismissed
    rw [accept, hcall]
    exact Finset.mem_insert_self _ _
  · cases h
    change call.invite ∈ s.reject.dismissed
    rw [reject, hcall]
    exact Finset.mem_insert_self _ _

theorem Chimes.ringing (h : Chimes P s e t)
    (hs : ∀ call, s.incoming = some call → call.invite ∉ s.dismissed) :
    ∀ call, t.incoming = some call → call.invite ∉ t.dismissed := by
  intro call hcall
  cases h with
  | keep hkeep =>
    simp only [bell, Prod.mk.injEq] at hkeep
    rw [hkeep.2.1]
    exact hs call (hkeep.1 ▸ hcall)
  | grant _ _ _ _ hincoming hdismissed _ =>
    rw [hdismissed]
    exact hs call (hincoming ▸ hcall)
  | ring _ _ _ _ hrings hincoming hdismissed _ =>
    rw [hincoming] at hcall
    cases hcall
    rw [hdismissed]
    exact hrings.unanswered
  | answer _ _ _ hincoming _ _ =>
    rw [hincoming] at hcall
    cases hcall

theorem Quietened.step {s₀ : Calls} {events : List Event}
    (hs : s = events.foldl (Calls.step P) s₀) (h : Quietened P s₀ events s) (e : Event) :
    Quietened P s₀ (events ++ [e]) (Calls.step P s e) := by
  have hchimes := chimes_step (P := P) s e
  refine ⟨?_, hchimes.ringing h.ringing⟩
  intro before e' after hsplit hanswer call hcall
  rcases List.eq_nil_or_concat after with rfl | ⟨after, last, rfl⟩
  · obtain ⟨rfl, hlast⟩ := List.append_inj' hsplit rfl
    obtain rfl : e = e' := by simpa using hlast
    rw [← hs] at hcall
    exact dismissed_answer hanswer hcall
  · have hinit : events = before ++ e' :: after := by
      rw [List.concat_eq_append, ← List.cons_append, ← List.append_assoc] at hsplit
      exact (List.append_inj' hsplit rfl).1
    exact hchimes.dismissed_subset (h.answered before e' after hinit hanswer call hcall)

theorem quietened_run (s₀ : Calls)
    (h₀ : ∀ call, s₀.incoming = some call → call.invite ∉ s₀.dismissed) (events : List Event) :
    Quietened P s₀ events (events.foldl (step P) s₀) := by
  induction events using List.reverseRecOn with
  | nil => exact ⟨fun before _ _ h => by simp at h, h₀⟩
  | append_singleton events e ih =>
    rw [List.foldl_append]
    exact ih.step rfl e

end Answering

/-! ## Calls that nobody was asked about -/

/-- The step lets a call in without asking, though its contact is not one that always may. -/
def passes (P : CallsPlatform) (s : Calls) (e : Event) : Bool :=
  match (step P s e).incoming with
  | none => false
  | some call =>
    decide (s.incoming ≠ some call) && call.auto && !call.contact.autoAnswer

/-- How many steps of a run do so. -/
def passCount (P : CallsPlatform) : Calls → List Event → ℕ
  | _, [] => 0
  | s, e :: events => (passes P s e).toNat + passCount P (step P s e) events

/-- The step stores the contact of a link. -/
def addsLink (P : CallsPlatform) (s : Calls) (e : Event) : Bool :=
  match e.2.2 with
  | .addFromLink _ => decide ((step P s e).saves ≠ s.saves)
  | _ => false

def linkCount (P : CallsPlatform) : Calls → List Event → ℕ
  | _, [] => 0
  | s, e :: events => (addsLink P s e).toNat + linkCount P (step P s e) events

/-- What is left of a save gives a pass. -/
def grants : Save → Bool
  | .opened _ => true
  | _ => false

/-- Calls that may still come in so: one for the last link, one for each that is being saved. -/
def credit (s : Calls) : ℕ := s.saves.countP grants + s.autoAcceptId.isSome.toNat

/-- What a step does about saves. -/
inductive Stores (P : CallsPlatform) (s : Calls) (e : Event) (t : Calls) : Prop
  | keep (h : t.saves = s.saves)
  | add (rest : Save) (h : t.saves = s.saves ++ [rest])
      (hgrants : grants rest = true → ∃ raw, e.2.2 = .addFromLink raw)
  | done (i : ℕ) (rest : Save) (hop : e.2.2 = .saved i) (hrest : s.saves[i]? = some rest)
      (h : t.saves = s.saves.eraseIdx i)

section Passes

variable {P : CallsPlatform} {c : Controller} {now : ℤ} {s t : Calls} {e : Event}

theorem stores_plain (h : t.saves = s.saves ++ [.plain]) : Stores P s e t :=
  .add .plain h (by simp [grants])

theorem Aside.saves (h : Aside s t) : t.saves = s.saves := by
  have hmail := h.mail
  simp only [Calls.mail, Prod.mk.injEq] at hmail
  exact hmail.2.2.1

theorem Aside.stores (h : Aside s t) : Stores P s e t := .keep h.saves

theorem saves_onCall (updated : Contact) (invite : Text) (s : Calls) :
    (s.onCall c now updated invite).saves = s.saves := by
  unfold onCall
  split_ifs <;> rfl

theorem saves_onMessage (contact updated : Contact) (kind invite : Option Text) (s : Calls) :
    (s.onMessage c now contact updated kind invite).saves = s.saves := by
  have hhello : (if kind = some (text "hello") then s.onHello c contact updated else s).saves =
      s.saves := by
    split_ifs
    · exact (aside_onHello contact updated s).saves
    · rfl
  unfold onMessage
  dsimp only
  generalize (if kind = some (text "hello") then s.onHello c contact updated else s) = u at hhello ⊢
  split
  · exact hhello
  · split_ifs
    · exact hhello
    · exact (saves_onCall updated _ u).trans hhello
    · exact hhello

theorem stores_handleDatagram (data : Bytes) (origin : Option Origin) (s : Calls) :
    Stores P s e (s.handleDatagram P c now data origin) := by
  have hsame : Stores P s e s := .keep rfl
  unfold handleDatagram
  split_ifs
  · exact hsame
  · dsimp only
    split
    · split
      · exact hsame
      · split_ifs
        · exact (aside_onRoomDatagram _ data s).stores
        · exact hsame
    · split
      · exact hsame
      · split
        · split_ifs
          · exact hsame
          · exact stores_plain (saves_onMessage _ _ _ _ _)
        · exact hsame

theorem saves_syncRoom (s : Calls) : (s.syncRoom P c).saves = s.saves := by
  have hhosted : (s.syncHosted P c).saves = s.saves := by
    unfold syncHosted
    dsimp only
    split_ifs <;> rfl
  unfold syncRoom
  dsimp only
  split
  · exact hhosted
  · split_ifs
    · exact hhosted
    · split
      · exact hhosted
      · rename_i token _ _ _ id _
        exact (aside_answerRoom (c := c) id token (s.syncHosted P c)).saves.trans hhosted

theorem stores_onPaired (pair : PairedEvent) (s : Calls) :
    Stores P s e (s.onPaired P now pair) := by
  unfold onPaired
  dsimp only
  split
  · exact stores_plain rfl
  · split_ifs
    · exact .keep rfl
    · split
      · exact .keep rfl
      · refine .add _ rfl ?_
        unfold afterPaired
        split
        · split_ifs <;> simp [grants]
        · simp [grants]

theorem stores_step (s : Calls) (e : Event) : Stores P s e (step P s e) := by
  obtain ⟨c, now, op⟩ := e
  cases op with
  | rename contact name =>
    change Stores P s _ (s.rename contact name)
    unfold rename
    split_ifs
    · exact .keep rfl
    · exact stores_plain rfl
  | edit contactId note muted autoAnswer =>
    change Stores P s _ (s.edit contactId note muted autoAnswer)
    unfold edit
    split
    · exact .keep rfl
    · exact stores_plain rfl
  | remove contact => exact stores_plain rfl
  | contactLink secret => exact .keep rfl
  | linkSaved secret =>
    change Stores P s _ (s.linkSaved P secret)
    unfold linkSaved
    split
    · exact .keep rfl
    · split_ifs
      · exact stores_plain rfl
      · exact .keep rfl
  | addFromLink raw =>
    change Stores P s _ (s.addFromLink P raw)
    unfold addFromLink
    split
    · exact .keep rfl
    · split_ifs
      · exact .keep rfl
      · split
        · exact .keep rfl
        · exact .add _ rfl fun _ => ⟨raw, rfl⟩
  | saved i =>
    change Stores P s _ (s.saved now i)
    unfold saved
    split
    · exact .keep rfl
    · rename_i rest hrest
      refine .done i rest rfl hrest ?_
      cases rest <;> rfl
  | startInviting link => exact .keep rfl
  | stopInviting => exact .keep rfl
  | takeAutoCall => exact .keep rfl
  | ring contact => exact (aside_ring contact s).stores
  | fire i => exact (aside_fire i s).stores
  | call contact => exact (aside_call contact s).stores
  | tick => exact (aside_tick s).stores
  | cancelCall => exact (aside_cancelCall s).stores
  | paired pair => exact stores_onPaired pair s
  | controller =>
    refine .keep ?_
    change (s.onController P c).saves = s.saves
    have hroom := saves_syncRoom (P := P) (c := c) s
    unfold onController
    dsimp only
    split_ifs <;> exact hroom
  | roomTick => exact (aside_roomTick s).stores
  | datagram data origin => exact stores_handleDatagram data origin s
  | answerTick => exact (aside_answerTick s).stores
  | accept =>
    refine .keep ?_
    change s.accept.saves = s.saves
    unfold accept
    split <;> rfl
  | reject =>
    refine .keep ?_
    change s.reject.saves = s.saves
    unfold reject
    split <;> rfl

/-- Among the saves, those that give a pass: a link adds one, a finished one is gone. -/
theorem Stores.countP (h : Stores P s e t) (ht : t = step P s e) :
    t.saves.countP grants ≤ s.saves.countP grants + (addsLink P s e).toNat := by
  cases h with
  | keep h => rw [h]; exact Nat.le_add_right _ _
  | add rest h hgrants =>
    rw [h, List.countP_append, List.countP_singleton]
    cases hrest : grants rest with
    | false => simp
    | true =>
      obtain ⟨raw, hop⟩ := hgrants hrest
      have hadds : addsLink P s e = true := by
        unfold addsLink
        rw [hop]
        dsimp only
        rw [← ht, h]
        simp
      rw [hadds]
      simp
  | done i rest _ _ h =>
    rw [h]
    exact (List.Sublist.countP_le (List.eraseIdx_sublist _ _)).trans (Nat.le_add_right _ _)

theorem saves_saved {i : ℕ} {rest : Save} (hrest : s.saves[i]? = some rest) :
    (s.saved now i).saves = s.saves.eraseIdx i := by
  unfold saved
  rw [hrest]
  cases rest <;> rfl

/-- A link that is stored now was among the saves. -/
theorem countP_opened {i : ℕ} {contact : Contact} (hrest : s.saves[i]? = some (.opened contact)) :
    (s.saves.eraseIdx i).countP grants + 1 = s.saves.countP grants := by
  obtain ⟨hi, hget⟩ := List.getElem?_eq_some_iff.mp hrest
  have hperm := (List.getElem_cons_eraseIdx_perm hi).countP_eq grants
  rw [hget, List.countP_cons_of_pos rfl] at hperm
  exact hperm

theorem passes_of_bell (h : (step P s e).incoming = s.incoming) : passes P s e = false := by
  unfold passes
  split
  · rfl
  · rename_i call hcall
    rw [h] at hcall
    simp [hcall]

/-- A step that lets a call in uses a pass, one that stores a link gives one. -/
theorem credit_step (P : CallsPlatform) (s : Calls) (e : Event) :
    (passes P s e).toNat + credit (step P s e) ≤ (addsLink P s e).toNat + credit s := by
  have hsaves := (stores_step (P := P) s e).countP rfl
  unfold credit
  cases chimes_step (P := P) s e with
  | keep hkeep =>
    simp only [bell, Prod.mk.injEq] at hkeep
    rw [passes_of_bell hkeep.1, hkeep.2.2.1]
    simp only [Bool.toNat_false]
    omega
  | grant contact i hop hsave hincoming hdismissed hid =>
    have hgone : (step P s e).saves = s.saves.eraseIdx i := by
      obtain ⟨c, now, op⟩ := e
      cases hop
      exact saves_saved hsave
    have hcount := countP_opened hsave
    rw [passes_of_bell hincoming, hid, hgone]
    simp only [Bool.toNat_false, Option.isSome_some, Bool.toNat_true]
    omega
  | answer call hop hcall hincoming hdismissed hid =>
    have hpass : passes P s e = false := by
      unfold passes
      rw [hincoming]
    rw [hpass, hid]
    simp only [Bool.toNat_false]
    omega
  | ring data origin call hop hrings hincoming hdismissed hid =>
    rw [hid]
    cases hpass : passes P s e with
    | false =>
      have hle : (if call.auto = true then none else s.autoAcceptId).isSome.toNat ≤
          s.autoAcceptId.isSome.toNat := by
        split_ifs <;> simp
      simp only [Bool.toNat_false]
      omega
    | true =>
      unfold passes at hpass
      rw [hincoming] at hpass
      simp only [Bool.and_eq_true, Bool.not_eq_true'] at hpass
      obtain ⟨⟨-, hauto⟩, hcontact⟩ := hpass
      -- the contact may not always come in, so the pass of the link was used
      rcases hrings.auto.mp hauto with hanswer | ⟨hpassed, -⟩
      · rw [hcontact] at hanswer
        cases hanswer
      · rw [if_pos hauto, hpassed]
        simp only [Bool.toNat_true, Option.isSome_none, Bool.toNat_false, Option.isSome_some]
        omega

theorem credit_run (P : CallsPlatform) (s : Calls) (events : List Event) :
    passCount P s events + credit (events.foldl (step P) s) ≤ linkCount P s events + credit s := by
  induction events generalizing s with
  | nil => simp [passCount, linkCount]
  | cons e events ih =>
    have hstep := credit_step P s e
    have hrest := ih (step P s e)
    rw [passCount, linkCount, List.foldl_cons]
    omega

/-- In a run, the calls that were let in without asking, though their contact has not the
permission to come in always, are at most as many as the links that were opened. -/
theorem passes_le_links (P : CallsPlatform) (contacts : List Contact) (events : List Event) :
    passCount P (init contacts) events ≤ linkCount P (init contacts) events := by
  have hrun := credit_run P (init contacts) events
  have hstart : credit (init contacts) = 0 := rfl
  omega

end Passes

end Calls
end GravitalTalk
