import GravitalTalk.Lib.Xor

/-!
# Forward error correction

`fec.rs`: the encoder sends one XOR parity for every `window` frames, and the
decoder rebuilds the one frame of a group that is missing when its parity
arrives. The sender counts pushes; the receiver infers groups from sequences.
-/
namespace GravitalTalk

def fecWindow : ℕ := 4

structure FecParity where
  seqBase : UInt32
  window : UInt8
  payload : Bytes
  deriving DecidableEq, Repr

structure FecEncoder (window : ℕ) where
  parityBuf : Bytes
  count : ℕ
  seqBase : UInt32
  deriving DecidableEq, Repr

namespace FecEncoder

variable {window : ℕ}

def new (window : ℕ) : FecEncoder window := ⟨[], 0, 0⟩

def push (e : FecEncoder window) (sequence : UInt32) (payload : Bytes) :
    Option FecParity × FecEncoder window :=
  let base := if e.count = 0 then sequence else e.seqBase
  let buf := if e.count = 0 then List.replicate payload.length 0 else e.parityBuf
  let buf := xorGrow buf payload
  if window ≤ e.count + 1 then (some ⟨base, UInt8.ofNat window, buf⟩, ⟨[], 0, base⟩)
  else (none, ⟨buf, e.count + 1, base⟩)

/-- The encoder has taken in `group` since its last parity, from `base` on. -/
structure Holds (e : FecEncoder window) (base : UInt32) (group : List Bytes) : Prop where
  count : e.count = group.length
  base : group ≠ [] → e.seqBase = base
  buf : group ≠ [] → e.parityBuf = groupParity group

theorem holds_new (base : UInt32) : (new window).Holds base [] := ⟨rfl, by simp, by simp⟩

/-- The accumulator is the parity of the group so far, also for its first frame. -/
theorem Holds.acc {e : FecEncoder window} {base : UInt32} {group : List Bytes}
    (h : e.Holds base group) (payload : Bytes) :
    xorGrow (if e.count = 0 then List.replicate payload.length 0 else e.parityBuf) payload =
      groupParity (group ++ [payload]) := by
  cases group with
  | nil =>
    rw [if_pos (by simpa using h.count)]
    have hgrow : growTo (List.replicate payload.length 0) payload.length =
        growTo [] payload.length := by
      simp [growTo]
    simp only [groupParity, List.nil_append, List.foldl_cons, List.foldl_nil, xorGrow, hgrow]
  | cons b group =>
    rw [if_neg (by simp [h.count]), h.buf (by simp), groupParity, groupParity, List.foldl_append]
    rfl

/-- One push: either the group is complete and its parity comes out, or the
encoder holds one frame more. -/
theorem Holds.push {e : FecEncoder window} {base : UInt32} {group : List Bytes}
    (h : e.Holds base group) (payload : Bytes) {sequence : UInt32}
    (hseq : sequence = base + UInt32.ofNat group.length) :
    (window ≤ group.length + 1 ∧
      (e.push sequence payload).1 =
        some ⟨base, UInt8.ofNat window, groupParity (group ++ [payload])⟩ ∧
      ∀ next, (e.push sequence payload).2.Holds next []) ∨
    (group.length + 1 < window ∧ (e.push sequence payload).1 = none ∧
      (e.push sequence payload).2.Holds base (group ++ [payload])) := by
  have hbase : (if e.count = 0 then sequence else e.seqBase) = base := by
    split_ifs with h0
    · have hnil : group.length = 0 := h.count ▸ h0
      rw [hseq, hnil]
      exact UInt32.add_zero base
    · exact h.base fun hnil => h0 (by simp [h.count, hnil])
  have hacc := h.acc payload
  have hcount := h.count
  simp only [FecEncoder.push, hacc, hbase]
  by_cases hw : window ≤ e.count + 1
  · rw [if_pos hw]
    exact .inl ⟨hcount ▸ hw, rfl, fun next => ⟨rfl, by simp, by simp⟩⟩
  · rw [if_neg hw]
    exact .inr ⟨hcount ▸ Nat.not_le.mp hw, rfl, by simpa using hcount, fun _ => rfl, fun _ => rfl⟩

end FecEncoder

structure FecDecoder (window : ℕ) where
  seqBase : UInt32
  received : List (Option Bytes)
  parity : Option Bytes
  active : Bool
  deriving DecidableEq, Repr

namespace FecDecoder

variable {window : ℕ}

def new (window : ℕ) : FecDecoder window := ⟨0, [], none, false⟩

def startGroup (_ : FecDecoder window) (base : UInt32) : FecDecoder window :=
  ⟨base, List.replicate window none, none, true⟩

/-- Sequence rounded down to a multiple of the window. -/
def groupBase (window : ℕ) (sequence : UInt32) : UInt32 :=
  sequence - sequence % UInt32.ofNat window

/-- The decoder set to the group that starts at `base`. -/
def select (d : FecDecoder window) (base : UInt32) : FecDecoder window :=
  if !d.active || d.seqBase != base then d.startGroup base else d

def pushData (d : FecDecoder window) (sequence : UInt32) (payload : Bytes) :
    Bool × FecDecoder window :=
  let d := d.select (groupBase window sequence)
  let offset := (sequence - d.seqBase).toNat
  if offset < window then (true, { d with received := d.received.set offset (some payload) })
  else (false, d)

/-- Positions of the group with no frame. -/
def missing (received : List (Option Bytes)) : List ℕ :=
  (List.range received.length).filter fun i => (received.getD i none).isNone

def tryRecover (d : FecDecoder window) : Option (UInt32 × Bytes) :=
  match d.parity, missing d.received with
  | some parity, [lost] =>
    some (d.seqBase + UInt32.ofNat lost,
      ((d.received.eraseIdx lost).filterMap id).foldl xorInto parity)
  | _, _ => none

def pushParity (d : FecDecoder window) (p : FecParity) :
    Option (UInt32 × Bytes) × FecDecoder window :=
  let d := { d.select p.seqBase with parity := some p.payload }
  (d.tryRecover, d)

/-! ## What the decoder holds -/

theorem select_received (d : FecDecoder window) (base : UInt32) {f : Bytes}
    (h : some f ∈ (d.select base).received) : some f ∈ d.received := by
  unfold select at h
  split_ifs at h
  · simp [startGroup] at h
  · exact h

theorem select_parity (d : FecDecoder window) (base : UInt32) {q : Bytes}
    (h : (d.select base).parity = some q) : d.parity = some q := by
  unfold select at h
  split_ifs at h
  · cases h
  · exact h

theorem pushData_received {d : FecDecoder window} {seq : UInt32}
    {payload f : Bytes} (h : some f ∈ (d.pushData seq payload).2.received) :
    f = payload ∨ some f ∈ d.received := by
  unfold pushData at h
  dsimp only at h
  split_ifs at h
  · rcases List.mem_or_eq_of_mem_set h with hf | hf
    · exact .inr (select_received d _ hf)
    · exact .inl (Option.some.inj hf)
  · exact .inr (select_received d _ h)

theorem pushData_parity {d : FecDecoder window} {seq : UInt32} {payload q : Bytes}
    (h : (d.pushData seq payload).2.parity = some q) : d.parity = some q := by
  unfold pushData at h
  dsimp only at h
  split_ifs at h
  · exact select_parity d _ h
  · exact select_parity d _ h

/-- What a parity gives back is computed from it and from frames received. -/
theorem pushParity_out {d : FecDecoder window} {p : FecParity} {seq : UInt32}
    {out : Bytes} (h : (d.pushParity p).1 = some (seq, out)) :
    ∃ frames : List Bytes, (∀ f ∈ frames, some f ∈ d.received) ∧
      out = frames.foldl xorInto p.payload := by
  unfold pushParity tryRecover at h
  dsimp only at h
  split at h
  · rename_i par lost hpar _
    cases hpar
    obtain ⟨-, rfl⟩ := Prod.mk.inj (Option.some.inj h)
    refine ⟨_, fun f hf => ?_, rfl⟩
    obtain ⟨x, hx, rfl⟩ := List.mem_filterMap.mp hf
    exact select_received d _ (List.mem_of_mem_eraseIdx hx)
  · cases h

/-- Every frame the decoder holds is the one `frame` gives for its place. -/
def Agrees (d : FecDecoder window) (frame : ℕ → Bytes) : Prop :=
  d.received.length = window ∧ ∀ i p, d.received[i]? = some (some p) → p = frame i

theorem agrees_startGroup (d : FecDecoder window) (base : UInt32) (frame : ℕ → Bytes) :
    (d.startGroup base).Agrees frame := by
  refine ⟨by simp [startGroup], fun i p h => ?_⟩
  simp [startGroup, List.getElem?_replicate] at h

theorem Agrees.set {d : FecDecoder window} {frame : ℕ → Bytes} (h : d.Agrees frame) {i : ℕ}
    {p : Bytes} (hp : p = frame i) :
    ({ d with received := d.received.set i (some p) } : FecDecoder window).Agrees frame := by
  refine ⟨by simpa using h.1, fun j q hj => ?_⟩
  rw [List.getElem?_set] at hj
  split_ifs at hj with hij hlt
  · cases hj
    rw [← hij, hp]
  · exact h.2 j q hj

theorem missing_eq_singleton {received : List (Option Bytes)} {k : ℕ}
    (h : missing received = [k]) :
    k < received.length ∧ ∀ i < received.length, i ≠ k → (received.getD i none).isSome := by
  have hmem (i : ℕ) : i ∈ missing received ↔ i < received.length ∧
      (received.getD i none).isNone := by
    rw [missing, List.mem_filter, List.mem_range]
  rw [h] at hmem
  refine ⟨((hmem k).mp (by simp)).1, fun i hi hik => ?_⟩
  by_contra hnone
  have : i ∈ [k] := (hmem i).mpr ⟨hi, by simpa using hnone⟩
  exact hik (by simpa using this)

/-- With one frame missing, the frames present are the group without it. -/
theorem Agrees.present {d : FecDecoder window} {frame : ℕ → Bytes} (h : d.Agrees frame) {k : ℕ}
    (hk : missing d.received = [k]) :
    (d.received.eraseIdx k).filterMap id = ((List.range window).map frame).eraseIdx k := by
  obtain ⟨-, hothers⟩ := missing_eq_singleton hk
  have hsome (i : ℕ) (hi : i < window) (hik : i ≠ k) : d.received[i]? = some (some (frame i)) := by
    have hlt : i < d.received.length := hi.trans_eq h.1.symm
    obtain ⟨p, hp⟩ := Option.isSome_iff_exists.mp (hothers i hlt hik)
    rw [List.getD_eq_getElem?_getD, List.getElem?_eq_getElem hlt, Option.getD_some] at hp
    have hget : d.received[i]? = some (some p) := by rw [List.getElem?_eq_getElem hlt, hp]
    rw [hget, h.2 i p hget]
  have hall : d.received.eraseIdx k = (((List.range window).map frame).eraseIdx k).map some := by
    apply List.ext_getElem?
    intro j
    simp only [List.getElem?_map, List.getElem?_eraseIdx]
    have hpoint (i : ℕ) (hik : i ≠ k) :
        d.received[i]? = ((List.range window)[i]?.map frame).map some := by
      by_cases hi : i < window
      · rw [hsome i hi hik, List.getElem?_range hi]
        rfl
      · have hout : d.received.length ≤ i := h.1.trans_le (Nat.not_lt.mp hi)
        rw [List.getElem?_eq_none hout, List.getElem?_eq_none (by simpa using hi)]
        rfl
    split_ifs with hj
    · exact hpoint j (by omega)
    · exact hpoint (j + 1) (by omega)
  rw [hall, List.filterMap_map]
  exact List.filterMap_some

/-- What comes out of a parity: the frame missing from its group. -/
theorem Agrees.tryRecover {d : FecDecoder window} {frame : ℕ → Bytes} (h : d.Agrees frame)
    (hp : d.parity = some (groupParity ((List.range window).map frame))) {seq : UInt32}
    {out : Bytes}
    (hout : d.tryRecover = some (seq, out)) :
    ∃ k < window, seq = d.seqBase + UInt32.ofNat k ∧ SamePadded out (frame k) := by
  unfold FecDecoder.tryRecover at hout
  rw [hp] at hout
  split at hout
  · rename_i par lost hpar hmiss
    cases hpar
    obtain ⟨rfl, rfl⟩ := Prod.mk.inj (Option.some.inj hout)
    obtain ⟨hlt, -⟩ := missing_eq_singleton hmiss
    rw [h.1] at hlt
    refine ⟨lost, hlt, rfl, ?_⟩
    rw [h.present hmiss]
    exact recover_groupParity (by simp [hlt])
  · cases hout

/-! ## A decoder that follows a stream -/

/-- Every frame the decoder holds is the one `frame` gives for its sequence. -/
structure Tracks (d : FecDecoder window) (frame : UInt32 → Bytes) : Prop where
  idle : d.active = false → d.received = []
  agrees : d.active = true → d.Agrees fun i => frame (d.seqBase + UInt32.ofNat i)

theorem tracks_new (frame : UInt32 → Bytes) : (new window).Tracks frame := ⟨fun _ => rfl, nofun⟩

theorem tracks_startGroup (d : FecDecoder window) (base : UInt32) (frame : UInt32 → Bytes) :
    (d.startGroup base).Tracks frame := ⟨nofun, fun _ => agrees_startGroup d base _⟩

@[simp] theorem active_select (d : FecDecoder window) (base : UInt32) :
    (d.select base).active = true := by
  unfold select
  split_ifs with h
  · rfl
  · simp only [Bool.or_eq_true, Bool.not_eq_true', not_or, Bool.not_eq_false] at h
    exact h.1

@[simp] theorem seqBase_select (d : FecDecoder window) (base : UInt32) :
    (d.select base).seqBase = base := by
  unfold select
  split_ifs with h
  · rfl
  · simp only [Bool.or_eq_true, bne_iff_ne, ne_eq, not_or, not_not] at h
    exact h.2

/-- The decoder has nothing of the group that starts at `base`. -/
def Apart (d : FecDecoder window) (base : UInt32) : Prop := d.active = false ∨ d.seqBase ≠ base

theorem Apart.tracks_select {d : FecDecoder window} {base : UInt32} (h : d.Apart base)
    (frame : UInt32 → Bytes) : (d.select base).Tracks frame := by
  have hnew : (!d.active || d.seqBase != base) = true := by
    rcases h with h | h <;> simp [h]
  rw [select, if_pos hnew]
  exact tracks_startGroup d base frame

theorem Tracks.select {d : FecDecoder window} {frame : UInt32 → Bytes} (h : d.Tracks frame)
    (base : UInt32) : (d.select base).Tracks frame := by
  unfold FecDecoder.select
  split_ifs
  · exact tracks_startGroup d base frame
  · exact h

/-- A frame of the stream goes into its place. -/
theorem tracks_pushData {d : FecDecoder window} {frame : UInt32 → Bytes} {seq : UInt32}
    (h : (d.select (groupBase window seq)).Tracks frame) :
    (d.pushData seq (frame seq)).2.Tracks frame := by
  have hplace (base : UInt32) : base + UInt32.ofNat (seq - base).toNat = seq := by
    rw [UInt32.ofNat_toNat]
    exact add_sub_cancel base seq
  unfold pushData
  dsimp only
  split_ifs
  · refine ⟨fun hidle => ?_, fun hactive => ?_⟩
    · simp at hidle
    · exact (h.agrees hactive).set (by rw [hplace])
  · exact h

/-- The parity of a group of the stream gives back frames of the stream. -/
theorem tracks_pushParity {d : FecDecoder window} {frame : UInt32 → Bytes} {p : FecParity}
    (h : (d.select p.seqBase).Tracks frame)
    (hp : p.payload =
      groupParity ((List.range window).map fun k => frame (p.seqBase + UInt32.ofNat k))) :
    (d.pushParity p).2.Tracks frame ∧
      ∀ seq out, (d.pushParity p).1 = some (seq, out) →
        (∃ k < window, seq = p.seqBase + UInt32.ofNat k) ∧ SamePadded out (frame seq) := by
  have hactive := active_select d p.seqBase
  have hbase := seqBase_select d p.seqBase
  have hagrees : ({ d.select p.seqBase with parity := some p.payload } :
      FecDecoder window).Agrees fun i => frame (p.seqBase + UInt32.ofNat i) := by
    have := h.agrees hactive
    rwa [hbase] at this
  refine ⟨⟨fun hidle => ?_, fun _ => ?_⟩, fun seq out hout => ?_⟩
  · simp [pushParity] at hidle
  · have := h.agrees hactive
    exact this
  · have hparity : ({ d.select p.seqBase with parity := some p.payload } :
        FecDecoder window).parity = some (groupParity ((List.range window).map fun k =>
          frame (p.seqBase + UInt32.ofNat k))) := congrArg some hp
    obtain ⟨k, hk, hseq, hsame⟩ := hagrees.tryRecover hparity hout
    have hseq' : seq = p.seqBase + UInt32.ofNat k := hseq.trans (by rw [hbase])
    exact ⟨⟨k, hk, hseq'⟩, by rwa [hseq']⟩

/-! ## Which places are filled -/

/-- Only places of the group whose sequence meets `P` are filled. -/
def Fills (d : FecDecoder window) (P : UInt32 → Prop) : Prop :=
  ∀ i p, d.received[i]? = some (some p) → P (d.seqBase + UInt32.ofNat i)

theorem fills_startGroup (d : FecDecoder window) (base : UInt32) (P : UInt32 → Prop) :
    (d.startGroup base).Fills P := by
  intro i p h
  simp [startGroup, List.getElem?_replicate] at h

theorem Apart.fills_select {d : FecDecoder window} {base : UInt32} (h : d.Apart base)
    (P : UInt32 → Prop) : (d.select base).Fills P := by
  have hnew : (!d.active || d.seqBase != base) = true := by
    rcases h with h | h <;> simp [h]
  rw [select, if_pos hnew]
  exact fills_startGroup d base P

theorem Fills.select {d : FecDecoder window} {P : UInt32 → Prop} (h : d.Fills P)
    (base : UInt32) : (d.select base).Fills P := by
  unfold FecDecoder.select
  split_ifs
  · exact fills_startGroup d base P
  · exact h

theorem fills_pushData {d : FecDecoder window} {P : UInt32 → Prop} {seq : UInt32}
    (payload : Bytes) (h : (d.select (groupBase window seq)).Fills P) (hseq : P seq) :
    (d.pushData seq payload).2.Fills P := by
  unfold pushData
  dsimp only
  split_ifs
  · intro i p hi
    change P ((d.select (groupBase window seq)).seqBase + UInt32.ofNat i)
    rw [List.getElem?_set] at hi
    split_ifs at hi with hplace hlt
    · rw [← hplace, UInt32.ofNat_toNat, add_sub_cancel]
      exact hseq
    · exact h i p hi
  · exact h

/-- With a frame recovered, all other places of the group are filled. -/
theorem Fills.pushParity {d : FecDecoder window} {P : UInt32 → Prop} {p : FecParity}
    (h : (d.select p.seqBase).Fills P) (hlen : (d.select p.seqBase).received.length = window)
    {seq : UInt32} {out : Bytes} (hout : (d.pushParity p).1 = some (seq, out)) :
    ∃ k < window, seq = p.seqBase + UInt32.ofNat k ∧
      ∀ i < window, i ≠ k → P (p.seqBase + UInt32.ofNat i) := by
  have hbase := seqBase_select d p.seqBase
  unfold FecDecoder.pushParity FecDecoder.tryRecover at hout
  dsimp only at hout
  split at hout
  · rename_i par lost hpar hmiss
    obtain ⟨rfl, rfl⟩ := Prod.mk.inj (Option.some.inj hout)
    obtain ⟨hlt, hothers⟩ := missing_eq_singleton hmiss
    rw [hlen] at hlt hothers
    refine ⟨lost, hlt, by rw [hbase], fun i hi hne => ?_⟩
    obtain ⟨q, hq⟩ := Option.isSome_iff_exists.mp (hothers i hi hne)
    have hplace : i < (d.select p.seqBase).received.length := hi.trans_eq hlen.symm
    rw [List.getD_eq_getElem?_getD, List.getElem?_eq_getElem hplace, Option.getD_some] at hq
    have hfilled := h i q (by rw [List.getElem?_eq_getElem hplace, hq])
    rwa [hbase] at hfilled
  · cases hout

end FecDecoder
end GravitalTalk
