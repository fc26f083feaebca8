import GravitalTalk.Lib.Run
import GravitalTalk.Lib.Table
import GravitalTalk.Transport.Rendezvous

/-!
# The rendezvous server

The server side of `rendezvous.rs`: who waits in which room, and the answer to a
`Register`. Registrations that are not renewed expire; they are dropped when their
room is used, or all at once when a new room finds no place.
-/
namespace GravitalTalk
namespace Rendezvous

/-- How long a registration lives, in microseconds. -/
def registrationTtl : ℕ := 30 * 1000000

/-- An address and when it registered last. -/
abbrev Registration := SocketAddr × ℕ

structure Registry where
  rooms : Table RoomKey (List Registration)
  maxRooms : ℕ

namespace Registry

def new (maxRooms : ℕ) : Registry := ⟨∅, maxRooms⟩

def isLive (now : ℕ) (e : Registration) : Bool := now - e.2 < registrationTtl

/-- The registrations of a room that have not expired. -/
def live (now : ℕ) (peers : List Registration) : List Registration := peers.filter (isLive now)

/-- Rooms without what has expired, and without those that are empty then. -/
def sweep (now : ℕ) (rooms : Table RoomKey (List Registration)) :
    Table RoomKey (List Registration) :=
  Table.revise (fun _ peers => if (live now peers).isEmpty then none else some (live now peers)) rooms

/-- The registration of `a`, if there is one, becomes of `now`. -/
def renew (a : SocketAddr) (now : ℕ) : List Registration → Option (List Registration)
  | [] => none
  | e :: rest => if e.1 = a then some ((a, now) :: rest) else (renew a now rest).map (e :: ·)

/-- A room after `a` has asked to be in it. -/
def enter (a : SocketAddr) (now : ℕ) (peers : List Registration) : Option (List Registration) :=
  match renew a now peers with
  | some peers => some peers
  | none => if peers.length < maxPeersPerRoom then some (peers ++ [(a, now)]) else none

/-- The rooms in which a place for `key` is looked for. -/
def makeRoom (key : RoomKey) (now : ℕ) (reg : Registry) : Table RoomKey (List Registration) :=
  if key ∉ reg.rooms ∧ reg.maxRooms ≤ Table.size reg.rooms then sweep now reg.rooms else reg.rooms

/-- `register`: the other addresses of the room, unless it or the server is full. -/
def register (key : RoomKey) (a : SocketAddr) (now : ℕ) (reg : Registry) :
    Option (List SocketAddr) × Registry :=
  let rooms := reg.makeRoom key now
  if key ∉ reg.rooms ∧ reg.maxRooms ≤ Table.size rooms then (none, { reg with rooms := rooms })
  else
    let peers := live now ((rooms.lookup key).getD [])
    match enter a now peers with
    | none => (none, { reg with rooms := rooms.insert key peers })
    | some peers =>
      (some ((peers.map Prod.fst).filter (· ≠ a)), { reg with rooms := rooms.insert key peers })

/-- `handle`: the reply to a datagram. -/
def handle (datagram : Bytes) (sender : SocketAddr) (now : ℕ) (reg : Registry) :
    Option Bytes × Registry :=
  match Message.decode datagram with
  | some (key, .register) =>
    let r := reg.register key sender now
    (r.1.map fun others => Message.encode key (.peers sender others), r.2)
  | _ => (none, reg)

/-- What a run is made of. -/
inductive Op
  | register (key : RoomKey) (a : SocketAddr)
  | handle (datagram : Bytes) (sender : SocketAddr)

/-- Whom an operation asks to register, and where. -/
def Op.asks : Op → Option (RoomKey × SocketAddr)
  | .register key a => some (key, a)
  | .handle datagram sender =>
    match Message.decode datagram with
    | some (key, .register) => some (key, sender)
    | _ => none

def step (reg : Registry) (x : ℕ × Op) : Registry :=
  match x.2 with
  | .register key a => (reg.register key a x.1).2
  | .handle datagram sender => (reg.handle datagram sender x.1).2

def run (reg : Registry) (steps : List (ℕ × Op)) : Registry := steps.foldl step reg

/-- An operation that asks nothing changes nothing; the others register. -/
theorem step_eq (reg : Registry) (now : ℕ) (op : Op) :
    reg.step (now, op) = match op.asks with
      | none => reg
      | some (key, a) => (reg.register key a now).2 := by
  cases op with
  | register key a => rfl
  | handle datagram sender =>
    simp only [step, handle, Op.asks]
    cases hmsg : Message.decode datagram with
    | none => rfl
    | some m =>
      obtain ⟨key, msg⟩ := m
      cases msg <;> rfl

/-! ## One room -/

variable {now : ℕ} {a : SocketAddr} {key : RoomKey} {peers : List Registration}

theorem live_idem (now : ℕ) (peers : List Registration) :
    live now (live now peers) = live now peers := by
  simp [live, List.filter_filter]

theorem renew_eq_none : renew a now peers = none ↔ a ∉ peers.map Prod.fst := by
  induction peers with
  | nil => simp [renew]
  | cons e rest ih =>
    by_cases he : e.1 = a
    · simp [renew, he]
    · have hne : a ≠ e.1 := fun h => he h.symm
      simp [renew, he, ih, hne]

/-- Renewing leaves the addresses as they are. -/
theorem map_renew {peers' : List Registration} (h : renew a now peers = some peers') :
    peers'.map Prod.fst = peers.map Prod.fst := by
  induction peers generalizing peers' with
  | nil => cases h
  | cons e rest ih =>
    by_cases he : e.1 = a
    · rw [renew, if_pos he] at h
      cases h
      simp [he]
    · rw [renew, if_neg he, Option.map_eq_some_iff] at h
      obtain ⟨rest', hrest, rfl⟩ := h
      simp [ih hrest]

theorem mem_renew {peers' : List Registration} (h : renew a now peers = some peers')
    (hnodup : (peers.map Prod.fst).Nodup) {e : Registration} :
    e ∈ peers' ↔ e = (a, now) ∨ e ∈ peers ∧ e.1 ≠ a := by
  induction peers generalizing peers' with
  | nil => cases h
  | cons f rest ih =>
    rw [List.map_cons, List.nodup_cons] at hnodup
    by_cases hf : f.1 = a
    · rw [renew, if_pos hf] at h
      cases h
      have hrest : ∀ e ∈ rest, e.1 ≠ a := fun e he hea =>
        hnodup.1 (hf ▸ hea ▸ List.mem_map_of_mem he)
      constructor
      · intro he
        rcases List.mem_cons.mp he with rfl | he
        · exact .inl rfl
        · exact .inr ⟨List.mem_cons_of_mem _ he, hrest e he⟩
      · rintro (rfl | ⟨he, hne⟩)
        · exact List.mem_cons_self
        · rcases List.mem_cons.mp he with rfl | he
          · exact absurd hf hne
          · exact List.mem_cons_of_mem _ he
    · rw [renew, if_neg hf, Option.map_eq_some_iff] at h
      obtain ⟨rest', hrest, rfl⟩ := h
      rw [List.mem_cons, ih hrest hnodup.2, List.mem_cons]
      constructor
      · rintro (rfl | rfl | ⟨he, hne⟩)
        · exact .inr ⟨.inl rfl, hf⟩
        · exact .inl rfl
        · exact .inr ⟨.inr he, hne⟩
      · rintro (rfl | ⟨rfl | he, hne⟩)
        · exact .inr (.inl rfl)
        · exact .inl rfl
        · exact .inr (.inr ⟨he, hne⟩)

/-- A room that `a` got into holds `a` as of now, and the others as before. -/
theorem mem_enter {peers' : List Registration} (h : enter a now peers = some peers')
    (hnodup : (peers.map Prod.fst).Nodup) {e : Registration} :
    e ∈ peers' ↔ e = (a, now) ∨ e ∈ peers ∧ e.1 ≠ a := by
  unfold enter at h
  split at h
  · rename_i renewed hrenew
    cases h
    exact mem_renew hrenew hnodup
  · rename_i hrenew
    have hnew := renew_eq_none.mp hrenew
    split_ifs at h
    cases h
    rw [List.mem_append, List.mem_singleton]
    constructor
    · rintro (he | rfl)
      · exact .inr ⟨he, fun hea => hnew (hea ▸ List.mem_map_of_mem he)⟩
      · exact .inl rfl
    · rintro (rfl | ⟨he, -⟩)
      · exact .inr rfl
      · exact .inl he

/-- A room holds few addresses, none of them twice. -/
structure RoomOk (peers : List Registration) : Prop where
  nodup : (peers.map Prod.fst).Nodup
  length : peers.length ≤ maxPeersPerRoom

theorem RoomOk.live (h : RoomOk peers) (now : ℕ) : RoomOk (live now peers) := by
  refine ⟨?_, (List.length_filter_le _ _).trans h.length⟩
  exact h.nodup.sublist (List.filter_sublist.map Prod.fst)

theorem RoomOk.enter {peers' : List Registration} (h : RoomOk peers)
    (he : enter a now peers = some peers') : RoomOk peers' := by
  unfold Registry.enter at he
  split at he
  · rename_i renewed hrenew
    cases he
    have hmap := map_renew hrenew
    refine ⟨hmap ▸ h.nodup, ?_⟩
    have hlen := congrArg List.length hmap
    rw [List.length_map, List.length_map] at hlen
    exact hlen.trans_le h.length
  · rename_i hrenew
    have hnew := renew_eq_none.mp hrenew
    split_ifs at he with hlen
    cases he
    constructor
    · rw [List.map_append, List.nodup_append]
      refine ⟨h.nodup, List.nodup_singleton _, ?_⟩
      rintro x hx y hy rfl
      rw [List.map_cons, List.map_nil, List.mem_singleton] at hy
      rw [hy] at hx
      exact hnew hx
    · rw [List.length_append, List.length_singleton]
      exact hlen

/-! ## One registration -/

/-- The registrations of a room; a room that is not there has none. -/
def room (key : RoomKey) (reg : Registry) : List Registration := (reg.rooms.lookup key).getD []

/-- A room lost at most what has expired. -/
def Expires (now : ℕ) (peers peers' : List Registration) : Prop :=
  peers' = peers ∨ peers' = live now peers

theorem Expires.mem {peers' : List Registration} {e : Registration} (h : Expires now peers peers')
    (he : e ∈ peers') : e ∈ peers := by
  rcases h with rfl | rfl
  · exact he
  · exact (List.mem_filter.mp he).1

theorem Expires.mem_of_live {peers' : List Registration} {e : Registration}
    (h : Expires now peers peers') (he : e ∈ peers) (hlive : isLive now e = true) : e ∈ peers' := by
  rcases h with rfl | rfl
  · exact he
  · exact List.mem_filter.mpr ⟨he, hlive⟩

theorem Expires.ok {peers' : List Registration} (h : Expires now peers peers')
    (hok : RoomOk peers) :
    RoomOk peers' := by
  rcases h with rfl | rfl
  · exact hok
  · exact hok.live now

variable {reg : Registry}

theorem getD_lookup_sweep (now : ℕ) (rooms : Table RoomKey (List Registration)) (key : RoomKey) :
    ((sweep now rooms).lookup key).getD [] = live now ((rooms.lookup key).getD []) := by
  rw [sweep, Table.lookup_revise]
  cases hroom : rooms.lookup key with
  | none => rfl
  | some peers =>
    simp only [Option.bind_some, Option.getD_some]
    split_ifs with hempty
    · exact (List.isEmpty_iff.mp hempty).symm
    · rfl

theorem expires_makeRoom (k : RoomKey) :
    Expires now (reg.room k) (((reg.makeRoom key now).lookup k).getD []) := by
  unfold makeRoom
  split_ifs
  · exact .inr (getD_lookup_sweep now reg.rooms k)
  · exact .inl rfl

theorem live_makeRoom : live now (((reg.makeRoom key now).lookup key).getD []) =
    live now (reg.room key) := by
  have hexpires : Expires now (reg.room key) (((reg.makeRoom key now).lookup key).getD []) :=
    expires_makeRoom key
  rcases hexpires with h | h
  · rw [h]
  · rw [h, live_idem]

theorem size_makeRoom_le : Table.size (reg.makeRoom key now) ≤ Table.size reg.rooms := by
  unfold makeRoom
  split_ifs
  · exact Table.size_le_of_mem fun k hk => Table.mem_of_mem_revise hk
  · exact le_rfl

theorem mem_makeRoom (h : key ∈ reg.rooms) : reg.makeRoom key now = reg.rooms := by
  rw [makeRoom, if_neg (fun hc => hc.1 h)]

/-- All that `register` does: it is refused, or `a` enters its room; in either
case rooms lose what has expired at most. -/
theorem register_cases (key : RoomKey) (a : SocketAddr) (now : ℕ) (reg : Registry) :
    ((reg.register key a now).1 = none ∧
      ∀ k, Expires now (reg.room k) ((reg.register key a now).2.room k)) ∨
    ∃ peers', enter a now (live now (reg.room key)) = some peers' ∧
      (reg.register key a now).1 = some ((peers'.map Prod.fst).filter (· ≠ a)) ∧
      (reg.register key a now).2.room key = peers' ∧
      ∀ k, k ≠ key → Expires now (reg.room k) ((reg.register key a now).2.room k) := by
  have hother {k : RoomKey} (hk : k ≠ key) (peers : List Registration) :
      Expires now (reg.room k) ((((reg.makeRoom key now).insert key peers).lookup k).getD []) := by
    rw [Finmap.lookup_insert_of_ne _ hk]
    exact expires_makeRoom k
  unfold register
  dsimp only
  split_ifs
  · exact .inl ⟨rfl, fun k => expires_makeRoom k⟩
  · rw [live_makeRoom]
    cases henter : enter a now (live now (reg.room key)) with
    | none =>
      refine .inl ⟨rfl, fun k => ?_⟩
      by_cases hk : k = key
      · subst hk
        right
        simp [room]
      · exact hother hk _
    | some peers' =>
      refine .inr ⟨peers', rfl, rfl, ?_, fun k hk => hother hk _⟩
      simp [room]

theorem maxRooms_register (key : RoomKey) (a : SocketAddr) (now : ℕ) (reg : Registry) :
    (reg.register key a now).2.maxRooms = reg.maxRooms := by
  unfold register
  dsimp only
  split_ifs
  · rfl
  · cases enter a now (live now (((reg.makeRoom key now).lookup key).getD [])) <;> rfl

/-- A new room is only made where there is place for one. -/
theorem size_register (h : Table.size reg.rooms ≤ reg.maxRooms) (key : RoomKey) (a : SocketAddr)
    (now : ℕ) : Table.size (reg.register key a now).2.rooms ≤ reg.maxRooms := by
  have hmake : Table.size (reg.makeRoom key now) ≤ reg.maxRooms := size_makeRoom_le.trans h
  have hinsert (hroom : ¬ (key ∉ reg.rooms ∧ reg.maxRooms ≤ Table.size (reg.makeRoom key now)))
      (peers : List Registration) :
      Table.size ((reg.makeRoom key now).insert key peers) ≤ reg.maxRooms := by
    by_cases hmem : key ∈ reg.makeRoom key now
    · rw [Table.size_insert_of_mem hmem]
      exact hmake
    · rw [Table.size_insert_of_notMem hmem]
      have hkey : key ∉ reg.rooms := fun hk => hmem (by rwa [mem_makeRoom hk])
      exact Nat.lt_of_not_le fun hfull => hroom ⟨hkey, hfull⟩
  unfold register
  dsimp only
  split_ifs with hroom
  · exact hmake
  · cases enter a now (live now (((reg.makeRoom key now).lookup key).getD [])) with
    | none => exact hinsert hroom _
    | some peers' => exact hinsert hroom _

/-! ## Runs -/

/-- When each address registered last in each room. -/
abbrev Ledger := RoomKey → SocketAddr → Option ℕ

def Ledger.note (l : Ledger) (key : RoomKey) (a : SocketAddr) (now : ℕ) : Ledger :=
  fun k p => if k = key ∧ p = a then some now else l k p

@[simp] theorem Ledger.note_self (l : Ledger) (key : RoomKey) (a : SocketAddr) (now : ℕ) :
    l.note key a now key a = some now := if_pos ⟨rfl, rfl⟩

theorem Ledger.note_other (l : Ledger) {key k : RoomKey} {a p : SocketAddr} (now : ℕ)
    (h : ¬ (k = key ∧ p = a)) : l.note key a now k p = l k p := if_neg h

/-- A registry and what was registered with it. -/
structure Booked where
  registry : Registry
  ledger : Ledger

/-- Registrations that are not refused are entered in the ledger. -/
def record (b : Booked) (x : ℕ × Op) : Booked where
  registry := b.registry.step x
  ledger :=
    match x.2.asks with
    | none => b.ledger
    | some (key, a) =>
      if (b.registry.register key a x.1).1.isSome then b.ledger.note key a x.1 else b.ledger

/-- The rooms are small, and hold what the ledger says except for what has
expired. -/
structure Agrees (now : ℕ) (b : Booked) : Prop where
  size : Table.size b.registry.rooms ≤ b.registry.maxRooms
  ok : ∀ key, RoomOk (b.registry.room key)
  noted : ∀ key a t, (a, t) ∈ b.registry.room key → b.ledger key a = some t
  held : ∀ key a t, b.ledger key a = some t → isLive now (a, t) = true →
    (a, t) ∈ b.registry.room key

theorem isLive_of_le {now' t : ℕ} (hle : now ≤ now') (h : isLive now' (a, t) = true) :
    isLive now (a, t) = true := by
  simp only [isLive, decide_eq_true_eq] at h ⊢
  omega

variable {b : Booked}

theorem Agrees.later (h : Agrees now b) {now' : ℕ} (hle : now ≤ now') : Agrees now' b :=
  ⟨h.size, h.ok, h.noted, fun key a t ht hlive => h.held key a t ht (isLive_of_le hle hlive)⟩

theorem Agrees.record (h : Agrees now b) (op : Op) : Agrees now (record b (now, op)) := by
  unfold Registry.record
  rw [step_eq]
  cases hasks : op.asks with
  | none => exact h
  | some q =>
    obtain ⟨key, a⟩ := q
    dsimp only
    have hsize := size_register h.size key a now
    rw [← maxRooms_register key a now b.registry] at hsize
    rcases register_cases key a now b.registry with ⟨hno, hexp⟩ | ⟨peers', henter, hyes, hkey, hexp⟩
    · rw [hno]
      refine ⟨hsize, fun k => (hexp k).ok (h.ok k), fun k p t hp => ?_, fun k p t ht hlive => ?_⟩
      · exact h.noted k p t ((hexp k).mem hp)
      · exact (hexp k).mem_of_live (h.held k p t ht hlive) hlive
    · rw [hyes]
      simp only [Option.isSome_some, if_true]
      have hok := (h.ok key).live now
      refine ⟨hsize, fun k => ?_, fun k p t hp => ?_, fun k p t ht hlive => ?_⟩
      · by_cases hk : k = key
        · subst hk
          rw [hkey]
          exact hok.enter henter
        · exact (hexp k hk).ok (h.ok k)
      · by_cases hk : k = key
        · subst hk
          rw [hkey, mem_enter henter hok.nodup] at hp
          rcases hp with heq | ⟨hp, hne⟩
          · cases heq
            exact b.ledger.note_self k a now
          · change b.ledger.note k a now k p = some t
            rw [b.ledger.note_other now fun hc => hne hc.2]
            exact h.noted k p t (List.mem_filter.mp hp).1
        · change b.ledger.note key a now k p = some t
          rw [b.ledger.note_other now fun hc => hk hc.1]
          exact h.noted k p t ((hexp k hk).mem hp)
      · change b.ledger.note key a now k p = some t at ht
        by_cases hk : k = key
        · subst hk
          rw [hkey, mem_enter henter hok.nodup]
          by_cases hp : p = a
          · subst hp
            rw [b.ledger.note_self, Option.some.injEq] at ht
            exact .inl (by rw [ht])
          · rw [b.ledger.note_other now fun hc => hp hc.2] at ht
            exact .inr ⟨List.mem_filter.mpr ⟨h.held k p t ht hlive, hlive⟩, hp⟩
        · rw [b.ledger.note_other now fun hc => hk hc.1] at ht
          exact (hexp k hk).mem_of_live (h.held k p t ht hlive) hlive

theorem Agrees.run {t₀ : ℕ} (h : Agrees t₀ b) {steps : List (ℕ × Op)}
    (hclock : (t₀ :: steps.map Prod.fst).Pairwise (· ≤ ·)) (hnow : ∀ x ∈ steps, x.1 ≤ now)
    (hstart : t₀ ≤ now) : Agrees now (steps.foldl Registry.record b) := by
  induction steps generalizing b t₀ with
  | nil => exact h.later hstart
  | cons x steps ih =>
    rw [List.map_cons, List.pairwise_cons] at hclock
    have hx := (h.later (hclock.1 x.1 List.mem_cons_self)).record x.2
    exact ih hx hclock.2 (fun y hy => hnow y (List.mem_cons_of_mem _ hy))
      (hnow x List.mem_cons_self)

/-- The addresses that a registration is told are those whose registration has
not expired. -/
theorem Agrees.told (h : Agrees now b) {others : List SocketAddr}
    (hreg : (b.registry.register key a now).1 = some others) :
    others.Nodup ∧ ∀ p, p ∈ others ↔
      p ≠ a ∧ ∃ t, b.ledger key p = some t ∧ now - t < registrationTtl := by
  have hok := (h.ok key).live now
  rcases register_cases key a now b.registry with ⟨hno, -⟩ | ⟨peers', henter, hyes, -⟩
  · rw [hno] at hreg
    cases hreg
  · rw [hyes] at hreg
    cases hreg
    refine ⟨(hok.enter henter).nodup.filter _, fun p => ?_⟩
    simp only [List.mem_filter, List.mem_map, decide_eq_true_eq]
    constructor
    · rintro ⟨⟨⟨p', t⟩, hmem, rfl⟩, hne⟩
      rw [mem_enter henter hok.nodup] at hmem
      rcases hmem with heq | ⟨hmem, -⟩
      · cases heq
        exact absurd rfl hne
      · obtain ⟨hroom, hlive⟩ := List.mem_filter.mp hmem
        refine ⟨hne, t, h.noted key p' t hroom, ?_⟩
        simpa [isLive] using hlive
    · rintro ⟨hne, t, ht, hlive⟩
      have hlive' : isLive now (p, t) = true := by simpa [isLive] using hlive
      refine ⟨⟨(p, t), ?_, rfl⟩, hne⟩
      rw [mem_enter henter hok.nodup]
      exact .inr ⟨List.mem_filter.mpr ⟨h.held key p t ht hlive', hlive'⟩, hne⟩

/-- Whatever is done in another room, a live registration stays. -/
theorem mem_room_step {op : Op} (hother : ∀ q ∈ op.asks, q.1 ≠ key) {e : Registration}
    (he : e ∈ reg.room key) (hlive : isLive now e = true) : e ∈ (reg.step (now, op)).room key := by
  rw [step_eq]
  cases hasks : op.asks with
  | none => exact he
  | some q =>
    obtain ⟨k, a⟩ := q
    have hne : key ≠ k := fun h => hother (k, a) (by rw [hasks]; rfl) h.symm
    rcases register_cases k a now reg with ⟨-, hexp⟩ | ⟨peers', -, -, -, hexp⟩
    · exact (hexp key).mem_of_live he hlive
    · exact (hexp key hne).mem_of_live he hlive

/-! ## The size of replies -/

theorem length_putAddr_le (a : SocketAddr) : (putAddr a).length ≤ 19 := by
  cases a <;> simp [putAddr]

theorem length_flatMap_putAddr_le (as : List SocketAddr) :
    (as.flatMap putAddr).length ≤ 19 * as.length := by
  induction as with
  | nil => rfl
  | cons a as ih =>
    have ha := length_putAddr_le a
    rw [List.flatMap_cons, List.length_append, List.length_cons]
    omega

theorem length_encode_peers (key : RoomKey) (you : SocketAddr) (others : List SocketAddr) :
    (Message.encode key (.peers you others)).length ≤ registerSize := by
  have hyou := length_putAddr_le you
  have hothers := length_flatMap_putAddr_le (others.take maxPeersPerRoom)
  have htake : (others.take maxPeersPerRoom).length ≤ maxPeersPerRoom := List.length_take_le _ _
  simp only [Message.encode, Message.head, Message.body, magic, List.length_append,
    List.length_cons, List.length_nil, Vector.length_toList]
  unfold maxPeersPerRoom at *
  unfold registerSize
  omega

theorem length_of_decode_register {datagram : Bytes}
    (h : Message.decode datagram = some (key, .register)) : registerSize ≤ datagram.length := by
  unfold Message.decode at h
  split at h
  · cases h
  dsimp only at h
  split at h
  · split at h
    · assumption
    · cases h
  · simp only [Option.bind_eq_bind, Option.bind_eq_some_iff, Option.pure_def] at h
    obtain ⟨_, _, _, _, h⟩ := h
    cases h
  · rw [Option.map_eq_some_iff] at h
    obtain ⟨_, _, h⟩ := h
    cases h
  · rw [Option.map_eq_some_iff] at h
    obtain ⟨_, _, h⟩ := h
    cases h
  · rw [Option.map_eq_some_iff] at h
    obtain ⟨_, _, h⟩ := h
    cases h
  · cases h

/-- Nobody is sent more than it sent. -/
theorem length_reply_le {datagram reply : Bytes} {sender : SocketAddr}
    (h : (reg.handle datagram sender now).1 = some reply) : reply.length ≤ datagram.length := by
  unfold handle at h
  split at h
  · rename_i k hmsg
    rw [Option.map_eq_some_iff] at h
    obtain ⟨others, -, rfl⟩ := h
    exact (length_encode_peers k sender others).trans (length_of_decode_register hmsg)
  · cases h

theorem maxRooms_record (steps : List (ℕ × Op)) (b : Booked) :
    (steps.foldl record b).registry.maxRooms = b.registry.maxRooms := by
  induction steps generalizing b with
  | nil => rfl
  | cons x steps ih =>
    rw [List.foldl_cons, ih]
    change (b.registry.step (x.1, x.2)).maxRooms = _
    rw [step_eq]
    cases x.2.asks with
    | none => rfl
    | some q => exact maxRooms_register _ _ _ _

/-- The law of the server, for every run with a clock that does not go back. -/
theorem registry_law (maxRooms : ℕ) (steps : List (ℕ × Op))
    (hclock : (steps.map Prod.fst).Pairwise (· ≤ ·)) :
    let b := steps.foldl record ⟨new maxRooms, fun _ _ => none⟩
    Table.size b.registry.rooms ≤ maxRooms ∧
    (∀ key peers, b.registry.rooms.lookup key = some peers →
      peers.length ≤ maxPeersPerRoom ∧ (peers.map Prod.fst).Nodup) ∧
    ∀ now, (∀ x ∈ steps, x.1 ≤ now) →
      (∀ key a others, (b.registry.register key a now).1 = some others →
        others.Nodup ∧ ∀ p, p ∈ others ↔
          p ≠ a ∧ ∃ t, b.ledger key p = some t ∧ now - t < registrationTtl) ∧
      (∀ op key p t, (∀ q ∈ op.asks, q.1 ≠ key) → (p, t) ∈ b.registry.room key →
        now - t < registrationTtl → (p, t) ∈ (b.registry.step (now, op)).room key) ∧
      ∀ datagram sender reply, (b.registry.handle datagram sender now).1 = some reply →
        reply.length ≤ datagram.length := by
  intro b
  have hstart : Agrees 0 ⟨new maxRooms, fun _ _ => none⟩ :=
    ⟨Nat.zero_le _, fun _ => ⟨List.nodup_nil, Nat.zero_le _⟩, nofun, nofun⟩
  have hagrees {now : ℕ} (hnow : ∀ x ∈ steps, x.1 ≤ now) : Agrees now b := by
    refine hstart.run (List.pairwise_cons.mpr ⟨?_, hclock⟩) hnow (Nat.zero_le _)
    exact fun t _ => Nat.zero_le t
  have hmax : b.registry.maxRooms = maxRooms := maxRooms_record steps _
  have hend : Agrees ((steps.map Prod.fst).sum) b :=
    hagrees fun x hx => List.single_le_sum (fun _ _ => Nat.zero_le _) _ (List.mem_map_of_mem hx)
  refine ⟨hmax ▸ hend.size, fun key peers hroom => ?_, fun now hnow => ⟨?_, ?_, ?_⟩⟩
  · have hok := hend.ok key
    rw [room, hroom, Option.getD_some] at hok
    exact ⟨hok.length, hok.nodup⟩
  · exact fun key a others hreg => (hagrees hnow).told hreg
  · exact fun op key p t hother hmem hlive => mem_room_step hother hmem (by simpa [isLive] using hlive)
  · exact fun datagram sender reply h => length_reply_le h

/-- Two addresses wait in the only room; the first one comes back and is told of the other. -/
theorem registry_law_two :
    let key : RoomKey := Vector.replicate 16 7
    let first := SocketAddr.v4 #v[10, 0, 0, 1] 40000
    let second := SocketAddr.v4 #v[10, 0, 0, 2] 40000
    let b := [(0, Op.register key first), (5, Op.register key second)].foldl record
      ⟨new 1, fun _ _ => none⟩
    Table.size b.registry.rooms ≤ 1 ∧
      ∀ others, (b.registry.register key first 7).1 = some others → second ∈ others := by
  intro key first second b
  have hlaw := registry_law 1 [(0, .register key first), (5, .register key second)] (by decide)
  have hledger : b.ledger key second = some 5 := by decide
  refine ⟨hlaw.1, fun others hothers => ?_⟩
  exact (((hlaw.2.2 7 (by simp)).1 key first others hothers).2 second).mpr
    ⟨by decide, 5, hledger, by decide⟩

end Registry
end Rendezvous
end GravitalTalk
