import GravitalTalk.Session.Members
import GravitalTalk.Session.Numbering
import GravitalTalk.Session.Stream

/-!
# Echo in a room

A host numbers its own frames and those it forwards in one sequence, and sends
the parity of every `fecWindow` of them to the targets of the last one. A guest
is not sent its own frames. It gets one back from the parity when that is the
only frame of the group that it was not sent.
-/
namespace GravitalTalk
namespace Session

variable {cfg : Config} {C : Crypto} {me : Finset SocketAddr}

/-! ## Groups of frames -/

namespace Utterance

/-- It is the guest that spoke, under one of its addresses. -/
def By (me : Finset SocketAddr) (u : Utterance) : Prop := ∃ a ∈ u.speaker, a ∈ me

/-- The guest is a target. -/
def For (me : Finset SocketAddr) (u : Utterance) : Prop := ∃ a ∈ u.targets, a ∈ me

instance (u : Utterance) : Decidable (u.By me) := inferInstanceAs (Decidable (∃ a ∈ u.speaker, _))
instance (u : Utterance) : Decidable (u.For me) := inferInstanceAs (Decidable (∃ a ∈ u.targets, _))

end Utterance

/-- Frames numbered one after the other from `base` on, for one parity. -/
structure AudioGroup where
  base : UInt32
  said : List Utterance
  deriving DecidableEq

namespace AudioGroup

variable {g : AudioGroup} {u : Utterance}

def push (g : AudioGroup) (u : Utterance) : AudioGroup := { g with said := g.said ++ [u] }

def payloads (g : AudioGroup) : List Bytes := g.said.map Utterance.payload

/-- The payload under a number of the group. -/
def frame (g : AudioGroup) (seq : UInt32) : Bytes := g.payloads.getD (seq - g.base).toNat []

/-- The frames that the guest is not sent. -/
def missed (me : Finset SocketAddr) (g : AudioGroup) : List Utterance :=
  g.said.filter fun u => ¬ u.For me

/-- The guest is not sent what it said, and of a group whose parity it is sent it does not
miss its own frame alone. -/
structure EchoFree (me : Finset SocketAddr) (g : AudioGroup) : Prop where
  direct : ∀ u ∈ g.said, u.By me → ¬ u.For me
  parity : g.said.length = fecWindow → (∃ u ∈ g.said.getLast?, u.For me) →
    ∀ u ∈ g.said, g.missed me = [u] → ¬ u.By me

theorem echoFree_nil (me : Finset SocketAddr) (base : UInt32) : EchoFree me ⟨base, []⟩ :=
  ⟨nofun, nofun⟩

instance (g : AudioGroup) : Decidable (g.EchoFree me) :=
  decidable_of_iff ((∀ u ∈ g.said, u.By me → ¬ u.For me) ∧
    (g.said.length = fecWindow → (∃ u ∈ g.said.getLast?, u.For me) →
      ∀ u ∈ g.said, g.missed me = [u] → ¬ u.By me))
    ⟨fun h => ⟨h.1, h.2⟩, fun h => ⟨h.direct, h.parity⟩⟩

/-- What a peer is sent of a group: the frames it is a target of, and the parity if it is a
target of the last one. -/
inductive Told (g : AudioGroup) (peer : SocketAddr) : MessageType → Bytes → Prop
  | frame (k : ℕ) (u : Utterance) (hu : g.said[k]? = some u) (hpeer : peer ∈ u.targets) :
    Told g peer .audioFrame (be32 (g.base + UInt32.ofNat k) ++ u.payload)
  | parity (u : Utterance) (hfull : g.said.length = fecWindow) (hlast : g.said.getLast? = some u)
      (hpeer : peer ∈ u.targets) :
    Told g peer .audioFec (be32 g.base ++ UInt8.ofNat fecWindow :: groupParity g.payloads)

@[simp] theorem length_push (g : AudioGroup) (u : Utterance) :
    (g.push u).said.length = g.said.length + 1 := by
  simp [push]

@[simp] theorem payloads_push (g : AudioGroup) (u : Utterance) :
    (g.push u).payloads = g.payloads ++ [u.payload] := by
  simp [push, payloads]

/-- Until a group is full more may come into it. -/
theorem Told.push {peer : SocketAddr} {msg : MessageType} {plain : Bytes}
    (h : g.Told peer msg plain) (hroom : g.said.length < fecWindow) (u : Utterance) :
    (g.push u).Told peer msg plain := by
  cases h with
  | frame k v hv hpeer =>
    have hk : k < g.said.length := (List.getElem?_eq_some_iff.mp hv).1
    have hsame : (g.push u).said[k]? = some v := (List.getElem?_append_left hk).trans hv
    exact .frame (g := g.push u) k v hsame hpeer
  | parity v hfull => exact absurd hfull hroom.ne

theorem frame_add {k : ℕ} (hk : k < fecWindow) (hu : g.said[k]? = some u) :
    g.frame (g.base + UInt32.ofNat k) = u.payload := by
  have hsmall : (UInt32.ofNat k).toNat = k := by
    rw [UInt32.toNat_ofNat', Nat.mod_eq_of_lt (hk.trans (by decide))]
  unfold frame payloads
  rw [add_sub_cancel_left, hsmall, List.getD_eq_getElem?_getD, List.getElem?_map, hu]
  rfl

/-- Who is sent all frames but one, misses that one. -/
theorem missed_eq_singleton {k : ℕ} (hu : g.said[k]? = some u) (hmiss : ¬ u.For me)
    (hothers : ∀ j v, j ≠ k → g.said[j]? = some v → v.For me) : g.missed me = [u] := by
  obtain ⟨hk, hget⟩ := List.getElem?_eq_some_iff.mp hu
  have hsplit : g.said = g.said.take k ++ u :: g.said.drop (k + 1) := by
    rw [← hget, List.getElem_cons_drop, List.take_append_drop]
  have hbefore : (g.said.take k).filter (fun u => ¬ u.For me) = [] := by
    apply List.filter_eq_nil_iff.mpr
    intro v hv
    obtain ⟨j, hj, rfl⟩ := List.mem_iff_getElem.mp hv
    have hlt : j < k := by
      rw [List.length_take] at hj
      omega
    simpa using hothers j _ hlt.ne (by simp [List.getElem?_eq_getElem (hlt.trans hk)])
  have hafter : (g.said.drop (k + 1)).filter (fun u => ¬ u.For me) = [] := by
    apply List.filter_eq_nil_iff.mpr
    intro v hv
    obtain ⟨j, hj, rfl⟩ := List.mem_iff_getElem.mp hv
    rw [List.length_drop] at hj
    have hlt : k + 1 + j < g.said.length := by omega
    simpa using hothers (k + 1 + j) _ (by omega) (by simp [List.getElem?_eq_getElem hlt])
  unfold missed
  rw [hsplit, List.filter_append, List.filter_cons_of_pos (by simpa using hmiss), hbefore, hafter]
  rfl

end AudioGroup
end Session

namespace Machine

open Session Relation Run

variable {cfg cfg' : Config} {C : Crypto} {env : Env} {me : Finset SocketAddr}

/-! ## What a host says -/

/-- A datagram of a call: its target, the group of the frame, and the key and the session
that it is for. -/
structure Outgoing where
  peer : SocketAddr
  group : ℕ
  key : Option SessionKey
  sid : UInt32
  raw : Bytes

/-- A host, with the groups of what it numbered, the current one last, and the audio that it
sent. -/
structure Talk (C : Crypto) (cfg : Config) where
  machine : Machine C cfg
  now : ℕ
  group : ℕ → AudioGroup
  wire : List Outgoing

namespace Talk

def start (m : Machine C cfg) : Talk C cfg := ⟨m, 0, fun _ => ⟨0, []⟩, []⟩

def current (r : Talk C cfg) : AudioGroup := r.group r.now

/-- The session `s` says `u`, which leads to `m`. -/
def say (r : Talk C cfg) (m : Machine C cfg) (s : Session cfg) (u : Utterance) : Talk C cfg :=
  let g := r.current.push u
  let group := Function.update r.group r.now g
  let sent := (newly s.traffic.sent m.session.traffic.sent).map fun d =>
    ⟨d.1, r.now, s.peers.encKeyFor d.1, s.status.sessionId, d.2⟩
  if g.said.length < fecWindow then ⟨m, r.now, group, sent ++ r.wire⟩
  else ⟨m, r.now + 1, Function.update group (r.now + 1) ⟨g.base + UInt32.ofNat fecWindow, []⟩,
    sent ++ r.wire⟩

/-- The numbers start again. -/
def restart (r : Talk C cfg) (m : Machine C cfg) : Talk C cfg :=
  { r with
    machine := m
    now := r.now + 1
    group := Function.update r.group (r.now + 1) ⟨0, []⟩ }

end Talk

deriving instance DecidableEq for Voice

/-- A step of a host. -/
def talk (C : Crypto) (r : Talk C cfg) (x : Env × Action) : Talk C cfg :=
  let m := step C x.1 r.machine x.2
  if m.session.voice = r.machine.session.voice then { r with machine := m }
  else match call C x.1 r.machine x.2 with
    | none => r.restart m
    | some (s, u) => r.say m s u

/-- What a step numbers makes no echo. -/
def Spares (C : Crypto) (me : Finset SocketAddr) (r : Talk C cfg) (x : Env × Action) : Prop :=
  ∀ s u, call C x.1 r.machine x.2 = some (s, u) → (r.current.push u).EchoFree me

theorem spares_iff {r : Talk C cfg} {x : Env × Action} :
    Spares C me r x ↔
      ∀ u ∈ (call C x.1 r.machine x.2).map Prod.snd, (r.current.push u).EchoFree me := by
  unfold Spares
  cases call C x.1 r.machine x.2 with
  | none => simp
  | some c => simp [Prod.ext_iff]

instance (r : Talk C cfg) (x : Env × Action) : Decidable (Spares C me r x) :=
  decidable_of_iff _ spares_iff.symm

theorem voice_reopen (s : Session cfg) :
    s.reopen.2.voice = s.voice ∨ s.reopen.2.voice = ⟨0, FecEncoder.new fecWindow⟩ := by
  unfold Session.reopen
  dsimp only
  split_ifs
  · exact .inl rfl
  · split
    · exact .inr rfl
    · exact .inr rfl

/-- What a step of a host is. -/
theorem talk_cases (C : Crypto) (r : Talk C cfg) (x : Env × Action) :
    let m := step C x.1 r.machine x.2
    (m.session.voice = r.machine.session.voice ∧ talk C r x = { r with machine := m }) ∨
      (m.session.voice = ⟨0, FecEncoder.new fecWindow⟩ ∧ talk C r x = r.restart m) ∨
      ∃ s u, call C x.1 r.machine x.2 = some (s, u) ∧ s.voice = r.machine.session.voice ∧
        m.session = (s.sendAudioTo C x.1 u.payload u.targets).2 ∧ talk C r x = r.say m s u := by
  intro m
  by_cases hvoice : m.session.voice = r.machine.session.voice
  · exact .inl ⟨hvoice, if_pos hvoice⟩
  · right
    by_cases hreopen : x.2 = .reopen
    · have hcall : call C x.1 r.machine x.2 = none := by rw [hreopen]; rfl
      have hwiped : m.session.voice = ⟨0, FecEncoder.new fecWindow⟩ := by
        change (step C x.1 r.machine x.2).session.voice ≠ _ at hvoice
        change (step C x.1 r.machine x.2).session.voice = _
        rw [hreopen] at hvoice ⊢
        exact (voice_reopen r.machine.session).resolve_left hvoice
      refine .inl ⟨hwiped, ?_⟩
      unfold talk
      rw [if_neg hvoice, hcall]
    · rcases utters_step C x.1 r.machine hreopen with hmute | ⟨s, u, hcall, hmute, hsession⟩
      · exact absurd hmute.voice hvoice
      · refine .inr ⟨s, u, hcall, hmute.voice, hsession, ?_⟩
        unfold talk
        rw [if_neg hvoice, hcall]

/-- The numbering of a host: the counters stand in the current group, which has room, and
every datagram carries what its target is sent of its group. -/
structure TalkOk (r : Talk C cfg) : Prop where
  seq : r.machine.session.voice.audioTxSeq =
    r.current.base + UInt32.ofNat r.current.said.length
  enc : r.machine.session.voice.fecEnc.Holds r.current.base r.current.payloads
  room : r.current.said.length < fecWindow
  aligned : ∀ i, ∃ n, (r.group i).base = UInt32.ofNat (fecWindow * n)
  bounded : ∀ i, (r.group i).said.length ≤ fecWindow
  later : ∀ i, r.now < i → (r.group i).said = []
  wire : ∀ e ∈ r.wire, e.group ≤ r.now ∧ ∀ key, (∀ k ∈ e.key, k = key) →
    ∃ msg plain, (r.group e.group).Told e.peer msg plain ∧ Carries C key e.sid msg plain e.raw

theorem talkOk_start {s : Session cfg} (h : s.voice = ⟨0, FecEncoder.new fecWindow⟩) :
    TalkOk (Talk.start (rest C s)) where
  seq := by
    change s.voice.audioTxSeq = _
    rw [h]
    rfl
  enc := by
    change s.voice.fecEnc.Holds _ _
    rw [h]
    exact FecEncoder.holds_new _
  room := Nat.zero_lt_succ _
  aligned _ := ⟨0, rfl⟩
  bounded _ := Nat.zero_le _
  later _ _ := rfl
  wire := nofun

namespace TalkOk

variable {r : Talk C cfg} {m : Machine C cfg} {s : Session cfg} {u : Utterance}

theorem quiet (h : TalkOk r) (hvoice : m.session.voice = r.machine.session.voice) :
    TalkOk { r with machine := m } where
  seq := (congrArg Voice.audioTxSeq hvoice).trans h.seq
  enc := by
    change m.session.voice.fecEnc.Holds _ _
    rw [hvoice]
    exact h.enc
  room := h.room
  aligned := h.aligned
  bounded := h.bounded
  later := h.later
  wire := h.wire

/-- A group after the current one changes nothing for what was sent. -/
theorem wire_update (h : TalkOk r) (g : AudioGroup) {e : Outgoing} (he : e ∈ r.wire) :
    Function.update r.group (r.now + 1) g e.group = r.group e.group :=
  Function.update_of_ne (Nat.ne_of_lt (Nat.lt_succ_of_le (h.wire e he).1)) _ _

theorem aligned_update {group : ℕ → AudioGroup} {g : AudioGroup}
    (hgroup : ∀ i, ∃ n, (group i).base = UInt32.ofNat (fecWindow * n)) (j : ℕ)
    (hg : ∃ n, g.base = UInt32.ofNat (fecWindow * n)) :
    ∀ i, ∃ n, (Function.update group j g i).base = UInt32.ofNat (fecWindow * n) := by
  apply (Function.forall_update_iff group fun _ g =>
    ∃ n, g.base = UInt32.ofNat (fecWindow * n)).mpr
  exact ⟨hg, fun i _ => hgroup i⟩

theorem bounded_update {group : ℕ → AudioGroup} {g : AudioGroup}
    (hgroup : ∀ i, (group i).said.length ≤ fecWindow) (j : ℕ)
    (hg : g.said.length ≤ fecWindow) :
    ∀ i, (Function.update group j g i).said.length ≤ fecWindow := by
  apply (Function.forall_update_iff group fun _ g => g.said.length ≤ fecWindow).mpr
  exact ⟨hg, fun i _ => hgroup i⟩

theorem restart (h : TalkOk r) (hvoice : m.session.voice = ⟨0, FecEncoder.new fecWindow⟩) :
    TalkOk (r.restart m) := by
  have hcurrent : (r.restart m).current = ⟨0, []⟩ := Function.update_self _ _ _
  constructor
  · rw [hcurrent]
    exact congrArg Voice.audioTxSeq hvoice
  · rw [hcurrent]
    change m.session.voice.fecEnc.Holds _ _
    rw [hvoice]
    exact FecEncoder.holds_new _
  · rw [hcurrent]
    exact Nat.zero_lt_succ _
  · exact aligned_update h.aligned _ ⟨0, rfl⟩
  · exact bounded_update h.bounded _ (Nat.zero_le _)
  · apply (Function.forall_update_iff r.group fun i g => r.now + 1 < i → g.said = []).mpr
    exact ⟨fun _ => rfl, fun i _ hi => h.later i ((Nat.lt_succ_self _).trans hi)⟩
  · intro e he
    obtain ⟨hle, hcarries⟩ := h.wire e he
    refine ⟨hle.trans (Nat.le_succ _), ?_⟩
    change ∀ key, _ → ∃ msg plain, (Function.update r.group (r.now + 1) _ e.group).Told _ _ _ ∧ _
    rw [h.wire_update _ he]
    exact hcarries

/-- The datagrams of a call carry what their targets are sent of the group. -/
theorem carries_call (h : TalkOk r) (hvoice : s.voice = r.machine.session.voice)
    {d : SocketAddr × Bytes}
    (hpeer : d.1 ∈ u.targets)
    (hcall : OfCallTo C s.peers s.status.sessionId (be32 s.voice.audioTxSeq ++ u.payload)
      (s.voice.fecEnc.push s.voice.audioTxSeq u.payload).1 d) (key : SessionKey)
    (hkey : ∀ k ∈ s.peers.encKeyFor d.1, k = key) :
    ∃ msg plain, (r.current.push u).Told d.1 msg plain ∧
      Carries C key s.status.sessionId msg plain d.2 := by
  have hseq : s.voice.audioTxSeq = r.current.base + UInt32.ofNat r.current.said.length := by
    rw [hvoice]
    exact h.seq
  have henc : s.voice.fecEnc.Holds r.current.base r.current.payloads := by
    rw [hvoice]
    exact h.enc
  rcases hcall key hkey with hframe | ⟨p, hp, hparity⟩
  · refine ⟨_, _, ?_, hframe⟩
    rw [hseq]
    exact .frame (g := r.current.push u) r.current.said.length u List.getElem?_concat_length hpeer
  · have hlen : r.current.payloads.length = r.current.said.length := List.length_map _
    have hroom := h.room
    rcases henc.push u.payload (hlen ▸ hseq) with ⟨hfull, hout, -⟩ | ⟨-, hout, -⟩
    · rw [hout] at hp
      cases hp
      rw [← AudioGroup.payloads_push] at hparity
      refine ⟨_, _, .parity (g := r.current.push u) u ?_ List.getLast?_concat hpeer, hparity⟩
      rw [AudioGroup.length_push]
      omega
    · rw [hout] at hp
      cases hp

theorem wire_say (r : Talk C cfg) (m : Machine C cfg) (s : Session cfg) (u : Utterance) :
    (r.say m s u).wire = ((newly s.traffic.sent m.session.traffic.sent).map fun d =>
      ⟨d.1, r.now, s.peers.encKeyFor d.1, s.status.sessionId, d.2⟩) ++ r.wire := by
  unfold Talk.say
  dsimp only
  split_ifs
  · rfl
  · rfl

/-- The wire after a call, whatever comes after the current group. -/
theorem told_say (h : TalkOk r) (group : ℕ → AudioGroup)
    (hvoice : s.voice = r.machine.session.voice)
    (hm : m.session = (s.sendAudioTo C env u.payload u.targets).2)
    (hnow : group r.now = r.current.push u)
    (hold : ∀ e ∈ r.wire, e.group ≠ r.now → group e.group = r.group e.group) :
    ∀ e ∈ (r.say m s u).wire, e.group ≤ r.now ∧ ∀ key, (∀ k ∈ e.key, k = key) →
      ∃ msg plain, (group e.group).Told e.peer msg plain ∧
        Carries C key e.sid msg plain e.raw := by
  intro e he
  rw [wire_say] at he
  rcases List.mem_append.mp he with he | he
  · obtain ⟨d, hd, rfl⟩ := List.mem_map.mp he
    obtain ⟨sent, hsent, hcalls⟩ := sendsTo_sendAudioTo C env u.targets u.payload s
    rw [hm, hsent, newly_append] at hd
    obtain ⟨hpeer, hcall⟩ := hcalls d hd
    refine ⟨le_rfl, fun key hkey => ?_⟩
    rw [hnow]
    exact h.carries_call hvoice hpeer hcall key hkey
  · obtain ⟨hle, hcarries⟩ := h.wire e he
    refine ⟨hle, fun key hkey => ?_⟩
    obtain ⟨msg, plain, htold, hraw⟩ := hcarries key hkey
    refine ⟨msg, plain, ?_, hraw⟩
    by_cases hcurrent : e.group = r.now
    · rw [hcurrent, hnow]
      rw [hcurrent] at htold
      exact htold.push h.room u
    · rw [hold e he hcurrent]
      exact htold

/-- The number after a call. -/
theorem seq_call (h : TalkOk r) (hvoice : s.voice = r.machine.session.voice)
    (hm : m.session = (s.sendAudioTo C env u.payload u.targets).2) :
    m.session.voice.audioTxSeq =
      r.current.base + UInt32.ofNat (r.current.push u).said.length := by
  have hnext : m.session.voice.audioTxSeq = s.voice.audioTxSeq + 1 := by
    rw [hm, (sendAudioTo_voice C env u.payload u.targets s).1]
  rw [hnext, hvoice, h.seq, AudioGroup.length_push, UInt32.ofNat_add, ← add_assoc]
  rfl

/-- The encoder after a call: with a full group it begins anew. -/
theorem enc_call (h : TalkOk r) (hvoice : s.voice = r.machine.session.voice)
    (hm : m.session = (s.sendAudioTo C env u.payload u.targets).2) :
    (r.current.push u).said.length = fecWindow ∧
        (∀ base, m.session.voice.fecEnc.Holds base []) ∨
      (r.current.push u).said.length < fecWindow ∧
        m.session.voice.fecEnc.Holds r.current.base (r.current.push u).payloads := by
  have hnext : m.session.voice.fecEnc = (s.voice.fecEnc.push s.voice.audioTxSeq u.payload).2 := by
    rw [hm, (sendAudioTo_voice C env u.payload u.targets s).1]
  have hlen : r.current.payloads.length = r.current.said.length := List.length_map _
  have hseq : s.voice.audioTxSeq = r.current.base + UInt32.ofNat r.current.payloads.length := by
    rw [hvoice, hlen]
    exact h.seq
  have henc : s.voice.fecEnc.Holds r.current.base r.current.payloads := by
    rw [hvoice]
    exact h.enc
  have hroom := h.room
  rw [hnext, AudioGroup.length_push, AudioGroup.payloads_push]
  rcases henc.push u.payload hseq with ⟨hfull, -, hempty⟩ | ⟨hfit, -, hholds⟩
  · exact .inl ⟨by omega, hempty⟩
  · exact .inr ⟨by omega, hholds⟩

theorem aligned_push (h : TalkOk r) (u : Utterance) :
    ∀ i, ∃ n, (Function.update r.group r.now (r.current.push u) i).base =
      UInt32.ofNat (fecWindow * n) := by
  exact aligned_update h.aligned _ (h.aligned r.now)

theorem bounded_push (h : TalkOk r) (u : Utterance) :
    ∀ i, (Function.update r.group r.now (r.current.push u) i).said.length ≤ fecWindow := by
  apply bounded_update h.bounded
  rw [AudioGroup.length_push]
  exact h.room

/-- A call that leaves room in the group. -/
theorem say_of_room (h : TalkOk r) (hvoice : s.voice = r.machine.session.voice)
    (hm : m.session = (s.sendAudioTo C env u.payload u.targets).2)
    (hroom : (r.current.push u).said.length < fecWindow)
    (henc : m.session.voice.fecEnc.Holds r.current.base (r.current.push u).payloads) :
    TalkOk (r.say m s u) := by
  have hsay : r.say m s u =
      ⟨m, r.now, Function.update r.group r.now (r.current.push u), (r.say m s u).wire⟩ := by
    rw [wire_say]
    exact if_pos hroom
  have hcurrent : (r.say m s u).current = r.current.push u := by
    rw [hsay]
    exact Function.update_self r.now _ r.group
  constructor
  · rw [hcurrent, hsay]
    exact h.seq_call hvoice hm
  · rw [hcurrent, hsay]
    exact henc
  · rw [hcurrent]
    exact hroom
  · rw [hsay]
    exact h.aligned_push u
  · rw [hsay]
    exact h.bounded_push u
  · rw [hsay]
    apply (Function.forall_update_iff r.group fun i g => r.now < i → g.said = []).mpr
    exact ⟨fun hi => absurd hi (lt_irrefl _), fun i _ => h.later i⟩
  · rw [hsay]
    exact h.told_say _ hvoice hm (Function.update_self ..) fun e _ hne =>
      Function.update_of_ne hne _ _

/-- A call that makes the group full, after which the next group begins. -/
theorem say_of_full (h : TalkOk r) (hvoice : s.voice = r.machine.session.voice)
    (hm : m.session = (s.sendAudioTo C env u.payload u.targets).2)
    (hfull : (r.current.push u).said.length = fecWindow)
    (henc : ∀ base, m.session.voice.fecEnc.Holds base []) : TalkOk (r.say m s u) := by
  let group : ℕ → AudioGroup := Function.update r.group r.now (r.current.push u)
  let next : AudioGroup := ⟨r.current.base + UInt32.ofNat fecWindow, []⟩
  have hsay : r.say m s u =
      ⟨m, r.now + 1, Function.update group (r.now + 1) next, (r.say m s u).wire⟩ := by
    rw [wire_say]
    exact if_neg hfull.ge.not_gt
  have hcurrent : (r.say m s u).current = next := by
    rw [hsay]
    exact Function.update_self (r.now + 1) next group
  have hbefore (i : ℕ) (hi : i ≤ r.now) : Function.update group (r.now + 1) next i = group i :=
    Function.update_of_ne (Nat.ne_of_lt (Nat.lt_succ_of_le hi)) _ _
  constructor
  · rw [hcurrent, hsay]
    refine (h.seq_call hvoice hm).trans ?_
    rw [hfull]
    exact (UInt32.add_zero _).symm
  · rw [hcurrent, hsay]
    exact henc _
  · rw [hcurrent]
    exact Nat.zero_lt_succ _
  · rw [hsay]
    apply aligned_update (h.aligned_push u)
    obtain ⟨n, hn⟩ := h.aligned r.now
    refine ⟨n + 1, ?_⟩
    rw [Nat.mul_succ, UInt32.ofNat_add, ← hn]
    rfl
  · rw [hsay]
    exact bounded_update (h.bounded_push u) _ (Nat.zero_le _)
  · rw [hsay]
    intro i hi
    have hlt : r.now + 1 < i := hi
    have hsame : Function.update group (r.now + 1) next i = r.group i :=
      (Function.update_of_ne hlt.ne' _ _).trans
        (Function.update_of_ne ((Nat.lt_succ_self _).trans hlt).ne' _ _)
    exact (congrArg AudioGroup.said hsame).trans (h.later i ((Nat.lt_succ_self _).trans hlt))
  · rw [hsay]
    intro e he
    obtain ⟨hle, hcarries⟩ := h.told_say (Function.update group (r.now + 1) next) hvoice hm
      ((hbefore r.now le_rfl).trans (Function.update_self ..))
      (fun e he hne => (hbefore e.group (h.wire e he).1).trans (Function.update_of_ne hne _ _))
      e he
    exact ⟨hle.trans (Nat.le_succ _), hcarries⟩

theorem say (h : TalkOk r) (hvoice : s.voice = r.machine.session.voice)
    (hm : m.session = (s.sendAudioTo C env u.payload u.targets).2) : TalkOk (r.say m s u) := by
  rcases h.enc_call hvoice hm with ⟨hfull, henc⟩ | ⟨hroom, henc⟩
  · exact h.say_of_full hvoice hm hfull henc
  · exact h.say_of_room hvoice hm hroom henc

/-- What every step of a host keeps. -/
theorem step (h : TalkOk r) (x : Env × Action) : TalkOk (talk C r x) := by
  rcases talk_cases C r x with ⟨hvoice, htalk⟩ | ⟨hvoice, htalk⟩ | ⟨s, u, -, hvoice, hm, htalk⟩
  · rw [htalk]
    exact h.quiet hvoice
  · rw [htalk]
    exact h.restart hvoice
  · rw [htalk]
    exact h.say hvoice hm

end TalkOk

/-- No group has an echo. -/
def Spared (me : Finset SocketAddr) (r : Talk C cfg) : Prop := ∀ i, (r.group i).EchoFree me

theorem Spared.step {r : Talk C cfg} (h : Spared me r) {x : Env × Action} (hx : Spares C me r x) :
    Spared me (talk C r x) := by
  have hupdate {group : ℕ → AudioGroup} (hgroup : ∀ i, (group i).EchoFree me) (j : ℕ)
      {g : AudioGroup} (hg : g.EchoFree me) : ∀ i, (Function.update group j g i).EchoFree me :=
    (Function.forall_update_iff group fun _ g => g.EchoFree me).mpr ⟨hg, fun i _ => hgroup i⟩
  rcases talk_cases C r x with ⟨-, htalk⟩ | ⟨-, htalk⟩ | ⟨s, u, hcall, -, -, htalk⟩
  · rw [htalk]
    exact h
  · rw [htalk]
    exact hupdate h _ (AudioGroup.echoFree_nil me 0)
  · have hsaid := hupdate h r.now (hx s u hcall)
    rw [htalk]
    unfold Talk.say
    dsimp only
    split_ifs
    · exact hsaid
    · exact hupdate hsaid _ (AudioGroup.echoFree_nil me _)

/-! ## What a guest hears -/

/-- An audio packet that arrives is of this group and was sent to the guest, which is in the
session and holds the key that it was sealed for, and is no host. -/
def FromHost (wire : List Outgoing) (me : Finset SocketAddr) (s : Session cfg) (i : Arrival)
    (g : ℕ) : Prop :=
  ∀ sender raw view msg, i = .loop sender raw → PacketView.decode raw = .ok view →
    MessageType.fromCode view.header.msgType = .ok msg → msg = .audioFrame ∨ msg = .audioFec →
    s.settings.multiPeer = false ∧ ∃ e ∈ wire, e.raw = raw ∧ e.group = g ∧ e.peer ∈ me ∧
      s.status.sessionId = e.sid ∧ ∀ k, s.HoldsKey k → e.key = some k

section Guest

variable {s : Session cfg'} {i : Arrival} {r : Talk C cfg} {g : ℕ} {last : Option ℕ}
  {group : ℕ → AudioGroup} {d : FecDecoder fecWindow} {u : Utterance}

/-- What the guest reads is what it was sent. -/
theorem told_of_fromHost (hC : C.RoundTrip) (h : TalkOk r) (hfrom : FromHost r.wire me s i g)
    {sender : SocketAddr} {raw plain : Bytes} {view : PacketView} {msg : MessageType}
    (hi : i = .loop sender raw) (hview : PacketView.decode raw = .ok view)
    (hmsg : MessageType.fromCode view.header.msgType = .ok msg)
    (haudio : msg = .audioFrame ∨ msg = .audioFec) (hsaid : s.Says C view raw plain) :
    ∃ peer ∈ me, (r.group g).Told peer msg plain := by
  obtain ⟨-, e, he, rfl, rfl, hpeer, hsid, hkeys⟩ := hfrom sender raw view msg hi hview hmsg haudio
  let key := e.key.getD (Vector.replicate 32 0)
  have hkey : ∀ k ∈ e.key, k = key := fun k hk => by
    dsimp only [key]
    rw [Option.mem_def.mp hk]
    rfl
  obtain ⟨-, hcarries⟩ := h.wire e he
  obtain ⟨msg', plain', htold, hraw⟩ := hcarries key hkey
  have hcode : MessageType.fromCode msg'.code = .ok msg' := by
    cases htold <;> decide
  obtain ⟨rfl, rfl⟩ := plain_of_said hC (fun k hk => hkey k (hkeys k hk)) hsid hraw hview hmsg
    hcode hsaid
  exact ⟨e.peer, hpeer, htold⟩

/-- The number is of a frame that the guest is sent. -/
def Addressed (me : Finset SocketAddr) (g : AudioGroup) (seq : UInt32) : Prop :=
  ∃ k u, g.said[k]? = some u ∧ seq = g.base + UInt32.ofNat k ∧ u.For me

/-- The decoder holds frames of the group `last` that the guest was sent, if any. -/
def InGroup (group : ℕ → AudioGroup) (me : Finset SocketAddr) (last : Option ℕ)
    (d : FecDecoder fecWindow) : Prop :=
  d.active = true → ∃ g ∈ last, d.seqBase = (group g).base ∧ d.Tracks (group g).frame ∧
    d.Fills (Addressed me (group g))

/-- `g` is the group `last` or starts at another number. -/
def Unmixed (group : ℕ → AudioGroup) (last : Option ℕ) (g : ℕ) : Prop :=
  ∀ l ∈ last, (group l).base = (group g).base → l = g

instance (last : Option ℕ) (g : ℕ) : Decidable (Unmixed group last g) :=
  inferInstanceAs (Decidable (∀ l ∈ last, _))

/-- A frame that somebody else said, up to trailing zeros. -/
def Foreign (group : ℕ → AudioGroup) (me : Finset SocketAddr) (p : Pushed) : Prop :=
  ∃ g k u, (group g).said[k]? = some u ∧ p.frame.sequence = (group g).base + UInt32.ofNat k ∧
    SamePadded p.frame.payload u.payload ∧ ¬ u.By me

theorem InGroup.select (h : InGroup group me last d) (hg : Unmixed group last g) :
    (d.select (group g).base).Tracks (group g).frame ∧
      (d.select (group g).base).Fills (Addressed me (group g)) := by
  have hapart (ha : d.Apart (group g).base) : (d.select (group g).base).Tracks (group g).frame ∧
      (d.select (group g).base).Fills (Addressed me (group g)) :=
    ⟨ha.tracks_select _, ha.fills_select _⟩
  cases hactive : d.active with
  | false => exact hapart (.inl hactive)
  | true =>
    obtain ⟨l, hl, hbase, htracks, hfills⟩ := h hactive
    by_cases hsame : d.seqBase = (group g).base
    · obtain rfl := hg l hl (hbase.symm.trans hsame)
      exact ⟨htracks.select _, hfills.select _⟩
    · exact hapart (.inr hsame)

theorem groupBase_add {a : AudioGroup} (haligned : ∃ n, a.base = UInt32.ofNat (fecWindow * n))
    {k : ℕ} (hk : k < fecWindow) :
    FecDecoder.groupBase fecWindow (a.base + UInt32.ofNat k) = a.base := by
  obtain ⟨n, hn⟩ := haligned
  have hdiv : (fecWindow * n + k) / fecWindow = n := by
    rw [Nat.mul_add_div (by decide), Nat.div_eq_of_lt hk, Nat.add_zero]
  rw [hn, ← UInt32.ofNat_add, groupBase_ofNat, hdiv]

/-- A frame is taken in. -/
theorem InGroup.pushData (h : InGroup group me last d) (hg : Unmixed group last g)
    (haligned : ∃ n, (group g).base = UInt32.ofNat (fecWindow * n)) {k : ℕ} (hk : k < fecWindow)
    (hu : (group g).said[k]? = some u) (hfor : u.For me) :
    InGroup group me (some g)
      (d.pushData ((group g).base + UInt32.ofNat k) u.payload).2 := by
  obtain ⟨htracks, hfills⟩ := h.select hg
  have hbase := groupBase_add haligned hk
  refine fun _ => ⟨g, rfl, ?_, ?_, ?_⟩
  · rw [seqBase_pushData, hbase]
  · rw [← AudioGroup.frame_add hk hu]
    apply FecDecoder.tracks_pushData
    rw [hbase]
    exact htracks
  · apply FecDecoder.fills_pushData
    · rw [hbase]
      exact hfills
    · exact ⟨k, u, hu, rfl, hfor⟩

theorem payloads_of_full {a : AudioGroup} (hfull : a.said.length = fecWindow) :
    (List.range fecWindow).map (fun k => a.frame (a.base + UInt32.ofNat k)) = a.payloads := by
  apply List.ext_getElem
  · simp [AudioGroup.payloads, hfull]
  · intro k hk hk'
    have hlt : k < a.said.length := by simpa [AudioGroup.payloads] using hk'
    have hframe := AudioGroup.frame_add (hfull ▸ hlt) (List.getElem?_eq_getElem hlt)
    simpa [AudioGroup.payloads] using hframe

/-- A parity is taken in. -/
theorem InGroup.pushParity (h : InGroup group me last d) (hg : Unmixed group last g)
    (hecho : (group g).EchoFree me) (hfull : (group g).said.length = fecWindow)
    (hlast : ∃ u ∈ (group g).said.getLast?, u.For me) :
    let r := d.pushParity
      ⟨(group g).base, UInt8.ofNat fecWindow, groupParity (group g).payloads⟩
    InGroup group me (some g) r.2 ∧
      ∀ seq out, r.1 = some (seq, out) → Foreign group me ⟨⟨seq, 0, out⟩, true⟩ := by
  let p : FecParity := ⟨(group g).base, UInt8.ofNat fecWindow, groupParity (group g).payloads⟩
  obtain ⟨htracks, hfills⟩ := h.select hg
  have hpayload : p.payload = groupParity ((List.range fecWindow).map fun k =>
      (group g).frame (p.seqBase + UInt32.ofNat k)) := congrArg _ (payloads_of_full hfull).symm
  obtain ⟨hnext, hout⟩ := FecDecoder.tracks_pushParity (p := p) htracks hpayload
  refine ⟨fun _ => ⟨g, rfl, FecDecoder.seqBase_select d _, hnext, hfills⟩, fun seq out hr => ?_⟩
  obtain ⟨-, hsame⟩ := hout seq out hr
  have hlen : (d.select p.seqBase).received.length = fecWindow :=
    (htracks.agrees (FecDecoder.active_select d _)).1
  obtain ⟨k, hk, rfl, hothers⟩ := FecDecoder.Fills.pushParity (p := p) hfills hlen hr
  have hget : (group g).said[k]? = some (group g).said[k] := List.getElem?_eq_getElem _
  refine ⟨g, k, (group g).said[k], hget, rfl, ?_, fun hby => ?_⟩
  · rwa [AudioGroup.frame_add hk hget] at hsame
  · have hmiss := hecho.direct _ (List.getElem_mem _) hby
    refine hecho.parity hfull hlast _ (List.getElem_mem _) ?_ hby
    apply AudioGroup.missed_eq_singleton hget hmiss
    intro j v hne hv
    have hj : j < (group g).said.length := (List.getElem?_eq_some_iff.mp hv).1
    obtain ⟨j', v', hv', hnum, hfor⟩ := hothers j (hfull ▸ hj) hne
    have hj' : j' < (group g).said.length := (List.getElem?_eq_some_iff.mp hv').1
    obtain rfl : j = j' := by
      have hnat := congrArg UInt32.toNat (add_left_cancel hnum)
      rw [UInt32.toNat_ofNat', UInt32.toNat_ofNat', Nat.mod_eq_of_lt, Nat.mod_eq_of_lt] at hnat
      · exact hnat
      · unfold fecWindow at hfull
        omega
      · unfold fecWindow at hfull
        omega
    rw [hv] at hv'
    cases hv'
    exact hfor

/-- What arrives leaves the decoder in its group, and is foreign. -/
theorem arriving_host (hC : C.RoundTrip) (h : TalkOk r) (hspared : Spared me r)
    (hlast : InGroup r.group me last s.media.fecDec) (hfrom : FromHost r.wire me s i g) :
    Arriving C i s (fun d => Unmixed r.group last g → InGroup r.group me (some g) d)
      (fun p => Unmixed r.group last g → Foreign r.group me p) where
  wiped _ := nofun
  single hi hview htype hmsg := (hfrom _ _ _ _ hi hview htype hmsg).1
  frame hi hview htype hsaid := by
    obtain ⟨peer, hpeer, htold⟩ := told_of_fromHost hC h hfrom hi hview htype (.inl rfl) hsaid
    cases htold with
    | frame k u hu htarget =>
      obtain ⟨hn, hpayload⟩ := plain_frame ((r.group g).base + UInt32.ofNat k) u.payload
      have hfor : u.For me := ⟨peer, htarget, hpeer⟩
      have hk : k < fecWindow := (List.getElem?_eq_some_iff.mp hu).1.trans_le (h.bounded g)
      rw [hn, hpayload]
      refine ⟨fun hg => hlast.pushData hg (h.aligned g) hk hu hfor, fun _ => ?_⟩
      refine ⟨g, k, u, hu, rfl, fun _ => rfl, fun hby => ?_⟩
      exact (hspared g).direct u (List.mem_of_getElem? hu) hby hfor
  parity hi hview htype hsaid := by
    obtain ⟨peer, hpeer, htold⟩ := told_of_fromHost hC h hfrom hi hview htype (.inr rfl) hsaid
    cases htold with
    | parity u hfull hlastUtterance htarget =>
      obtain ⟨hn, hpayload⟩ := plain_parity (r.group g).base (UInt8.ofNat fecWindow)
        (groupParity (r.group g).payloads)
      have hcount : (be32 (r.group g).base ++
          UInt8.ofNat fecWindow :: groupParity (r.group g).payloads).getD 4 0 =
            UInt8.ofNat fecWindow := by
        simp
      rw [hn, hcount, hpayload]
      have hparity (hg : Unmixed r.group last g) := hlast.pushParity hg (hspared g) hfull
        ⟨u, hlastUtterance, peer, htarget, hpeer⟩
      exact ⟨fun hg => (hparity hg).1, fun seq out hr hg => (hparity hg).2 seq out hr⟩

end Guest

/-- The audio is the host's, and a packet that is taken in is not of another group that
starts at the number of the one before. -/
def HearsHost (r : Talk C cfg) (me : Finset SocketAddr) (l : Listener C cfg')
    (x : Env × Action × ℕ) : Prop :=
  FromHost r.wire me l.machine.session (l.machine.arrival x.2.1) x.2.2 ∧
    (Feeds l.machine.session (listen C l x).machine.session → Unmixed r.group l.last x.2.2)

/-- The decoder is in the last group and what came into the buffer is foreign. -/
structure GuestOk (group : ℕ → AudioGroup) (me : Finset SocketAddr) (l : Listener C cfg) :
    Prop where
  decoder : InGroup group me l.last l.machine.session.media.fecDec
  pushed : ∀ p ∈ l.machine.session.history.pushed, Foreign group me p

theorem GuestOk.step {r : Talk C cfg} {l : Listener C cfg'} {x : Env × Action × ℕ}
    (h : GuestOk r.group me l) (hC : C.RoundTrip) (hr : TalkOk r) (hspared : Spared me r)
    (hx : HearsHost r me l x) : GuestOk r.group me (listen C l x) := by
  obtain ⟨hfrom, hunmixed⟩ := hx
  have htaken := intake_step x.1 (arriving_host hC hr hspared h.decoder hfrom)
  by_cases hfeeds : Feeds l.machine.session (listen C l x).machine.session
  · have hg := hunmixed hfeeds
    have hlast : (listen C l x).last = some x.2.2 := if_pos hfeeds
    refine ⟨?_, fun p hp => ?_⟩
    · rw [hlast]
      rcases htaken.decoder with ⟨hfec, hpushed⟩ | hfec
      · exact absurd hfeeds (not_or.mpr ⟨not_not.mpr hfec, not_not.mpr hpushed⟩)
      · exact hfec hg
    · obtain ⟨new, hnew, hforeign⟩ := htaken.pushed
      change p ∈ (Machine.step C x.1 l.machine x.2.1).session.history.pushed at hp
      rw [hnew] at hp
      rcases List.mem_append.mp hp with hp | hp
      · exact hforeign p hp hg
      · exact h.pushed p hp
  · have hlast : (listen C l x).last = l.last := if_neg hfeeds
    simp only [Feeds, not_or, not_not] at hfeeds
    refine ⟨?_, ?_⟩
    · rw [hlast, hfeeds.1]
      exact h.decoder
    · rw [hfeeds.2]
      exact h.pushed

/-- In every run of a host whose groups make no echo, and every run of a guest that gets what
the host sent it, with any loss, repetition and reordering, all that comes into the guest's
buffer was said by others, if the guest never takes in one group after another with the same
numbers. -/
theorem no_echo (hC : C.RoundTrip) (me : Finset SocketAddr) {nonce nonce' : Vector UInt8 8}
    {s : Session cfg} {s' : Session cfg'} (hhost : Session.new cfg nonce = some s)
    (hguest : Session.new cfg' nonce' = some s') (steps : List (Env × Action))
    (hspares : Along (talk C) (Spares C me) (Talk.start (rest C s)) steps)
    (steps' : List (Env × Action × ℕ))
    (hhears : Along (listen C) (HearsHost (steps.foldl (talk C) (Talk.start (rest C s))) me)
      ⟨rest C s', none⟩ steps') :
    ∀ p ∈ (steps'.foldl (listen C) ⟨rest C s', none⟩).machine.session.history.pushed,
      Foreign (steps.foldl (talk C) (Talk.start (rest C s))).group me p := by
  have hvoice : s.voice = ⟨0, FecEncoder.new fecWindow⟩ := by
    rw [eq_initial_of_new hhost]
    rfl
  have hstep (r : Talk C cfg) (x : Env × Action) (h : TalkOk r ∧ Spared me r)
      (hx : Spares C me r x) : TalkOk (talk C r x) ∧ Spared me (talk C r x) :=
    ⟨h.1.step x, h.2.step hx⟩
  have hfirst : TalkOk (Talk.start (rest C s)) ∧ Spared me (Talk.start (rest C s)) :=
    ⟨talkOk_start hvoice, fun _ => AudioGroup.echoFree_nil me 0⟩
  obtain ⟨htalk, hspared⟩ := hspares.invariant hstep hfirst
  have hstart : GuestOk (steps.foldl (talk C) (Talk.start (rest C s))).group me
      (⟨rest C s', none⟩ : Listener C cfg') := by
    rw [eq_initial_of_new hguest]
    exact ⟨nofun, nofun⟩
  exact (hhears.invariant (fun l x h hx => h.step hC htalk hspared hx) hstart).pushed

/-! ## Examples -/

namespace EchoExample

open RoomExample

abbrev Guest := Listener Crypto.toy Config.default

def host : SocketAddr := .v4 (Vector.replicate 4 7) 9

def guests : Finset SocketAddr := {Pairing.guest}

/-- A room of two guests in which the host makes these steps. -/
noncomputable def steps (calls : List (Env × Action)) : List (Env × Action) :=
  join ++ joinOther ++ calls

noncomputable def room (calls : List (Env × Action)) : Talk Crypto.toy Config.default :=
  (steps calls).foldl (talk Crypto.toy) (Talk.start start)

/-- The guest's nonce and secret are those of its greeting. -/
noncomputable def joining : Env :=
  { Pairing.at' 1 with
    nonce32 := Pairing.hello.clientNonce
    secret := Pairing.hello.ephemeralPublicKey }

/-- What the host answered when the guest came. -/
noncomputable def answers : List Bytes :=
  (run Crypto.toy start join).session.traffic.sent.reverse.map Prod.snd

noncomputable def answer (i : ℕ) : Env × Action × ℕ :=
  (joining, .input (.datagram host (answers.getD i [])), 0)

noncomputable def meets : List (Env × Action × ℕ) :=
  [(joining, .setHandshakeMode .legacy, 0), (joining, .handshake .client host, 0), answer 0, answer 1]

noncomputable def hears (e : Outgoing) : Env × Action × ℕ :=
  (Pairing.at' 1, .recv host e.raw, e.group)

/-- What the host sent to the guest. Only the kernel computes it. -/
@[irreducible] noncomputable def told (calls : List (Env × Action)) : List Outgoing :=
  (room calls).wire.reverse.filter (·.peer ∈ guests)

noncomputable def guestStart : Guest :=
  ⟨rest Crypto.toy (initial Config.default (Vector.replicate 8 1)), none⟩

noncomputable def paired : Guest := meets.foldl (listen Crypto.toy) guestStart

/-- The guest is in the session of the datagram, under the key that it was sealed for. -/
def Tuned (l : Guest) (e : Outgoing) : Prop :=
  l.machine.session.settings.multiPeer = false ∧ l.machine.session.status.sessionId = e.sid ∧
    ∀ k ∈ l.machine.session.history.installed, e.key = some k.dec

instance (l : Guest) (e : Outgoing) : Decidable (Tuned l e) :=
  inferInstanceAs (Decidable (_ ∧ _ ∧ _))

theorem fromHost_recv {l : Guest} {wire : List Outgoing} {e : Outgoing}
    (hkeyed : Keyed l.machine.session) (htuned : Tuned l e) (hpeer : e.peer ∈ guests)
    (he : e ∈ wire) :
    FromHost wire guests l.machine.session (l.machine.arrival (.recv host e.raw)) e.group := by
  obtain ⟨hsingle, hsid, hinst⟩ := htuned
  intro sender raw view msg harr _ _ _
  obtain ⟨-, rfl⟩ := arrival_recv harr
  refine ⟨hsingle, e, he, rfl, rfl, hpeer, hsid, fun key hkey => ?_⟩
  obtain ⟨k, hk, rfl⟩ := hkeyed key hkey
  exact hinst k hk

/-- Datagrams of the host, after the handshake, arrive at a guest that is ready for them. -/
theorem fromHost_hears (calls : List (Env × Action)) (entries : List Outgoing)
    (htold : ∀ e ∈ entries, e ∈ told calls)
    (h : Along (fun l e => listen Crypto.toy l (hears e)) Tuned paired entries) :
    Along (listen Crypto.toy) (fun l x => FromHost (room calls).wire guests l.machine.session
      (l.machine.arrival x.2.1) x.2.2) guestStart (meets ++ entries.map hears) := by
  rw [along_append]
  refine ⟨⟨nofun, nofun, nofun, nofun, trivial⟩, ?_⟩
  have hkeyed : Keyed paired.machine.session :=
    StreamExample.keyed_listen (StreamExample.keyed_listen (StreamExample.keyed_listen
      (StreamExample.keyed_listen (keyed_initial _ _) _) _) _) _
  change Along _ _ paired _
  generalize paired = l at h hkeyed
  induction entries generalizing l with
  | nil => trivial
  | cons e entries ih =>
    obtain ⟨he, hentries⟩ := List.forall_mem_cons.mp htold
    obtain ⟨hwire, hpeer⟩ : e ∈ (room calls).wire ∧ e.peer ∈ guests := by simpa [told] using he
    exact ⟨fromHost_recv hkeyed h.1 hpeer hwire,
      ih hentries _ h.2 (StreamExample.keyed_listen hkeyed _)⟩

end EchoExample

open EchoExample RoomExample in
/-- The guest's own frame is the last of a group, whose parity it is not sent. Of the next group
it loses a frame of the host, which comes back. -/
theorem no_echo_recovered :
    let now := Pairing.at' 1
    let calls := [(now, .sendAudio [1]), (now, .sendAudio [2]), (now, .sendAudio [3]),
      (now, frame Pairing.guest 2 0), (now, .sendAudio [4]), (now, .sendAudio [5]),
      (now, .sendAudio [6]), (now, .sendAudio [7])]
    let heard := ((told calls).eraseIdx 4).map hears
    let pushed := ((meets ++ heard).foldl (listen Crypto.toy)
      guestStart).machine.session.history.pushed
    pushed.head? = some ⟨⟨5, 0, [5]⟩, true⟩ ∧
      ∀ p ∈ pushed, Foreign (room calls).group guests p := by
  intro now calls
  have hrun : let entries := (told calls).eraseIdx 4
      ((meets ++ entries.map hears).foldl (listen Crypto.toy)
          guestStart).machine.session.history.pushed.head? = some ⟨⟨5, 0, [5]⟩, true⟩ ∧
        Along (talk Crypto.toy) (Spares Crypto.toy guests) (Talk.start start) (steps calls) ∧
        Along (fun l e => listen Crypto.toy l (hears e)) Tuned paired entries ∧
        Along (listen Crypto.toy) (fun l x => Feeds l.machine.session
          (listen Crypto.toy l x).machine.session → Unmixed (room calls).group l.last x.2.2)
          guestStart (meets ++ entries.map hears) := by
    decide +kernel
  obtain ⟨hfirst, hspares, htuned, hunmixed⟩ := hrun
  have hhears := fromHost_hears calls ((told calls).eraseIdx 4)
    (fun e he => List.mem_of_mem_eraseIdx he) htuned
  exact ⟨hfirst, no_echo Crypto.toy_roundTrip guests (new_default _) (new_default _) (steps calls)
    hspares _ (along_and.mpr ⟨hhears, hunmixed⟩)⟩

open EchoExample RoomExample in
/-- The guest's own frame is the only one of the group that it is not sent. It gets all that it
is sent, and has its own frame in its jitter buffer. -/
theorem echo_recovered :
    let now := Pairing.at' 1
    let calls := [(now, .sendAudio [1]), (now, frame Pairing.guest 2 0), (now, .sendAudio [2]),
      (now, .sendAudio [3])]
    let heard := (told calls).map hears
    let t := ((meets ++ heard).foldl (listen Crypto.toy) guestStart).machine.session
    Session.new Config.default (Vector.replicate 8 0) = some start.session ∧
      Session.new Config.default (Vector.replicate 8 1) = some guestStart.machine.session ∧
      Along (listen Crypto.toy) (fun l x => FromHost (room calls).wire guests l.machine.session
        (l.machine.arrival x.2.1) x.2.2) guestStart (meets ++ heard) ∧
      ((room calls).group 0).said[1]? = some ⟨some Pairing.guest, [0], [other]⟩ ∧
      ⟨true, 1, some ⟨1, 0, [0]⟩⟩ ∈ t.media.jitter.slots.toList := by
  intro now calls
  have hrun : Along (fun l e => listen Crypto.toy l (hears e)) Tuned paired (told calls) ∧
      ((room calls).group 0).said[1]? = some ⟨some Pairing.guest, [0], [other]⟩ ∧
      ⟨true, 1, some ⟨1, 0, [0]⟩⟩ ∈ ((meets ++ (told calls).map hears).foldl
        (listen Crypto.toy) guestStart).machine.session.media.jitter.slots.toList := by
    decide +kernel
  exact ⟨new_default _, new_default _, fromHost_hears calls (told calls) (fun _ he => he) hrun.1,
    hrun.2⟩

end Machine
end GravitalTalk
