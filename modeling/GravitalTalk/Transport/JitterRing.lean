import GravitalTalk.Lib.Serial
import GravitalTalk.Transport.JitterBuffer

/-!
# What the jitter buffer delivers

Runs of the operations of `jitter_buffer.rs`. Every occupied slot holds a frame
of the window that starts at the cursor, the last one accepted for its
sequence; the cursor only moves forward, and a sequence behind it stays out
until the cursor has gone half a turn past it.
-/
namespace GravitalTalk
namespace JitterBuffer

open Serial

variable {capacity : ℕ}

inductive Op
  | push (frame : Frame)
  | pop
  | popWithDeadline (nowUs deadlineUs : UInt64)
  | skip (count : UInt32)
  | skipToAvailable
  | reset
  deriving DecidableEq, Repr

/-- What an operation answers. -/
inductive Answer
  | pushed (accepted : Bool)
  | popped (frame : Option Frame)
  | done
  deriving DecidableEq, Repr

def perform (b : JitterBuffer capacity) : Op → Answer × JitterBuffer capacity
  | .push frame => (.pushed (b.push frame).1, (b.push frame).2)
  | .pop => (.popped b.pop.1, b.pop.2)
  | .popWithDeadline now deadline =>
    (.popped (b.popWithDeadline now deadline).1, (b.popWithDeadline now deadline).2)
  | .skip count => (.done, b.skip count.toNat)
  | .skipToAvailable => (.done, b.skipToAvailable)
  | .reset => (.done, b.reset)

def step (b : JitterBuffer capacity) (op : Op) : JitterBuffer capacity := (b.perform op).2

/-- What one operation accepts. -/
def accepts (b : JitterBuffer capacity) : Op → List Frame
  | .push frame => if (b.push frame).1 then [frame] else []
  | _ => []

/-- The frames that a run accepts, in order. -/
def acceptedPushes (b : JitterBuffer capacity) : List Op → List Frame
  | [] => []
  | op :: ops => b.accepts op ++ acceptedPushes (b.step op) ops

def lastAccepted (frames : List Frame) (seq : UInt32) : Option Frame :=
  (frames.filter fun f => f.sequence == seq).getLast?

/-- How many positions the cursor moves over a run. -/
def moved (b : JitterBuffer capacity) : List Op → ℕ
  | [] => 0
  | op :: ops => ahead (b.step op).nextSeq b.nextSeq + moved (b.step op) ops

/-- The operation pops `seq` or gives it up: the cursor moves over it. -/
def Passes (b : JitterBuffer capacity) (op : Op) (seq : UInt32) : Prop :=
  b.primed = true ∧ ahead seq b.nextSeq < ahead (b.step op).nextSeq b.nextSeq

/-! ## Slots -/

theorem slot_set (b : JitterBuffer capacity) (i j : ℕ) (s : Slot) :
    slot { b with slots := b.slots.setIfInBounds i s } j =
      if i = j ∧ i < capacity then s else b.slot j := by
  unfold slot
  rw [Vector.getElem?_setIfInBounds]
  by_cases hij : i = j
  · subst hij
    by_cases hi : i < capacity
    · simp [hi]
    · simp [hi]
  · simp [hij]

theorem lt_of_occupied {b : JitterBuffer capacity} {i : ℕ} (h : (b.slot i).occupied = true) :
    i < capacity := by
  by_contra hi
  have hnone : b.slots[i]? = none := Vector.getElem?_eq_none (Nat.not_lt.mp hi)
  rw [slot, hnone] at h
  cases h

theorem occupied_vacate {b : JitterBuffer capacity} {i j : ℕ}
    (h : ((b.vacate i).slot j).occupied = true) : (b.vacate i).slot j = b.slot j ∧ i ≠ j := by
  rw [vacate, slot_set] at h ⊢
  split_ifs at h ⊢ with hij
  refine ⟨rfl, ?_⟩
  rintro rfl
  exact hij ⟨rfl, lt_of_occupied h⟩

theorem vacant_of_not_pending {b : JitterBuffer capacity} (h : b.hasPending = false) (i : ℕ) :
    (b.slot i).occupied = false := by
  rw [hasPending, List.any_eq_false] at h
  unfold slot
  cases hslot : b.slots[i]? with
  | none => rfl
  | some s =>
    have hmem : s ∈ b.slots.toList := by
      rw [Vector.mem_toList_iff]
      exact Vector.mem_of_getElem? hslot
    simpa using h s hmem

@[simp] theorem slot_fresh (i : ℕ) : (fresh capacity).slot i = Slot.empty := by
  unfold slot fresh
  rw [Vector.getElem?_replicate]
  split <;> rfl

/-- Sequences of one window have slots of their own. -/
theorem index_injective {k : ℕ} (hcap : capacity = 2 ^ k) (hk : k ≤ 32) {next s t : UInt32}
    (hs : ahead s next < capacity) (ht : ahead t next < capacity)
    (h : index capacity s = index capacity t) : s = t := by
  have hindex (seq : UInt32) : index capacity seq = (next.toNat + ahead seq next) % capacity := by
    have hnat : seq.toNat = (next.toNat + ahead seq next) % 2 ^ 32 := by
      have hseq := seq.toNat_lt
      have hnext := next.toNat_lt
      simp only [ahead, UInt32.toNat_sub]
      omega
    rw [index, hcap, Nat.and_two_pow_sub_one_eq_mod, hnat,
      Nat.mod_mod_of_dvd _ (pow_dvd_pow 2 hk)]
  rw [hindex, hindex] at h
  have hahead : ahead s next = ahead t next :=
    (Nat.ModEq.add_left_cancel' next.toNat h).eq_of_lt_of_lt hs ht
  have hsub : s - next = t - next := UInt32.toNat_inj.mp hahead
  exact sub_left_injective hsub

/-! ## The invariant -/

/-- What the slots hold after a run that accepted `frames`. -/
structure Ring (b : JitterBuffer capacity) (frames : List Frame) : Prop where
  idle : b.primed = false → ∀ i, (b.slot i).occupied = false
  held : ∀ i, (b.slot i).occupied = true → ∃ f, (b.slot i).frame = some f ∧
    (b.slot i).sequence = f.sequence ∧ index capacity f.sequence = i ∧
    ahead f.sequence b.nextSeq < capacity ∧ lastAccepted frames f.sequence = some f

@[simp] theorem lastAccepted_append (frames : List Frame) (f : Frame) (seq : UInt32) :
    lastAccepted (frames ++ [f]) seq =
      if f.sequence = seq then some f else lastAccepted frames seq := by
  unfold lastAccepted
  rw [List.filter_append]
  split_ifs with h
  · simp [h]
  · simp [h]

theorem Ring.of_vacant {b : JitterBuffer capacity} (h : ∀ i, (b.slot i).occupied = false)
    (frames : List Frame) : Ring b frames := by
  refine ⟨fun _ => h, fun i hi => ?_⟩
  rw [h i] at hi
  cases hi

theorem Ring.fresh (frames : List Frame) : Ring (fresh capacity) frames :=
  Ring.of_vacant (fun i => by rw [slot_fresh]; rfl) frames

/-- A frame of the window always finds its slot free, or holding the same sequence. -/
theorem Ring.store {k : ℕ} (hcap : capacity = 2 ^ k) (hk : k ≤ 32) {b : JitterBuffer capacity}
    {frames : List Frame} (h : Ring b frames) (hprimed : b.primed = true) {f : Frame}
    (hwindow : ahead f.sequence b.nextSeq < capacity) :
    (b.store f).1 = true ∧ Ring (b.store f).2 (frames ++ [f]) := by
  have hfree : ¬ ((b.slot (index capacity f.sequence)).occupied &&
      (b.slot (index capacity f.sequence)).sequence != f.sequence) = true := by
    rw [Bool.and_eq_true, bne_iff_ne]
    rintro ⟨hocc, hne⟩
    obtain ⟨g, -, hseq, hindex, hg, -⟩ := h.held _ hocc
    apply hne
    rw [hseq]
    exact index_injective hcap hk hg hwindow hindex
  rw [JitterBuffer.store, if_neg hfree]
  refine ⟨rfl, ⟨fun hidle => ?_, fun i hi => ?_⟩⟩
  · rw [hprimed] at hidle
    cases hidle
  · rw [slot_set] at hi ⊢
    split_ifs at hi ⊢ with hslot
    · exact ⟨f, rfl, rfl, hslot.1, hwindow, by simp⟩
    · obtain ⟨g, hframe, hseq, hindex, hg, hlast⟩ := h.held i hi
      have hne : f.sequence ≠ g.sequence := by
        intro heq
        have hlt : i < capacity := lt_of_occupied hi
        rw [← hindex] at hlt
        exact hslot ⟨by rw [heq, hindex], heq ▸ hlt⟩
      exact ⟨g, hframe, hseq, hindex, hg, by simpa [hne] using hlast⟩

theorem Ring.push {k : ℕ} (hcap : capacity = 2 ^ k) (hk : k ≤ 32) {b : JitterBuffer capacity}
    {frames : List Frame} (h : Ring b frames) (f : Frame) :
    Ring (b.push f).2 (frames ++ if (b.push f).1 then [f] else []) := by
  have hpos : 0 < capacity := by
    rw [hcap]
    exact Nat.two_pow_pos k
  have hstore {b' : JitterBuffer capacity} (h' : Ring b' frames) (hp : b'.primed = true)
      (hw : ahead f.sequence b'.nextSeq < capacity) :
      Ring (b'.store f).2 (frames ++ if (b'.store f).1 then [f] else []) := by
    obtain ⟨haccept, hring⟩ := h'.store hcap hk hp hw
    rwa [if_pos haccept]
  generalize hanswer : b.push f = answer
  unfold JitterBuffer.push at hanswer
  simp only at hanswer
  split_ifs at hanswer with hprimed hold hfar hpending
  · subst hanswer
    rw [Bool.not_eq_true'] at hprimed
    apply hstore
    · exact Ring.of_vacant (b := { b with nextSeq := f.sequence, primed := true })
        (h.idle hprimed) frames
    · rfl
    · simpa using hpos
  · subst hanswer
    simpa using h
  · subst hanswer
    simpa using h
  · subst hanswer
    rw [Bool.not_eq_true] at hpending
    apply hstore
    · exact Ring.of_vacant (b := { b with nextSeq := f.sequence })
        (vacant_of_not_pending hpending) frames
    · simpa using hprimed
    · simpa using hpos
  · subst hanswer
    exact hstore h (by simpa using hprimed) (Nat.not_le.mp hfar)

/-! ## Moving on -/

theorem foldl_vacate (seqs : List UInt32) (b : JitterBuffer capacity) :
    (seqs.foldl (fun b seq => b.vacate (index capacity seq)) b).primed = b.primed ∧
      ∀ i, ((seqs.foldl (fun b seq => b.vacate (index capacity seq)) b).slot i).occupied = true →
        (seqs.foldl (fun b seq => b.vacate (index capacity seq)) b).slot i = b.slot i ∧
          ∀ seq ∈ seqs, index capacity seq ≠ i := by
  induction seqs generalizing b with
  | nil => exact ⟨rfl, fun i _ => ⟨rfl, fun seq h => by cases h⟩⟩
  | cons seq seqs ih =>
    obtain ⟨hprimed, hslots⟩ := ih (b.vacate (index capacity seq))
    refine ⟨hprimed, fun i hi => ?_⟩
    rw [List.foldl_cons] at hi ⊢
    obtain ⟨hkept, hout⟩ := hslots i hi
    rw [hkept] at hi
    obtain ⟨hsame, hne⟩ := occupied_vacate hi
    refine ⟨hkept.trans hsame, fun t ht => ?_⟩
    cases ht with
    | head => exact hne
    | tail _ ht => exact hout t ht

/-- Moving the window over positions whose slots are free. -/
theorem Ring.advance {b b' : JitterBuffer capacity} {frames : List Frame} (h : Ring b frames)
    (count : ℕ) (hcount : count < 2 ^ 32) (hprimed : b'.primed = b.primed)
    (hnext : b'.nextSeq = b.nextSeq + UInt32.ofNat count)
    (hslots : ∀ i, (b'.slot i).occupied = true → b'.slot i = b.slot i ∧
      ∀ j < count, index capacity (b.nextSeq + UInt32.ofNat j) ≠ i) : Ring b' frames := by
  constructor
  · intro hidle i
    by_contra hocc
    rw [Bool.not_eq_false] at hocc
    have hsame := (hslots i hocc).1
    rw [hsame, h.idle (hprimed ▸ hidle) i] at hocc
    cases hocc
  · intro i hocc
    obtain ⟨hsame, hout⟩ := hslots i hocc
    rw [hsame] at hocc ⊢
    obtain ⟨f, hframe, hseq, hindex, hwindow, hlast⟩ := h.held i hocc
    refine ⟨f, hframe, hseq, hindex, ?_, hlast⟩
    have hnear : ¬ ahead f.sequence b.nextSeq < count := by
      intro hlt
      apply hout _ hlt
      rw [ahead, UInt32.ofNat_toNat, add_sub_cancel, hindex]
    have hcountNat : (UInt32.ofNat count).toNat = count := by
      rw [UInt32.toNat_ofNat', Nat.mod_eq_of_lt hcount]
    have hf := f.sequence.toNat_lt
    have hn := b.nextSeq.toNat_lt
    rw [hnext]
    simp only [ahead, UInt32.toNat_sub, UInt32.toNat_add, hcountNat] at hwindow hnear ⊢
    omega

theorem Ring.skip {b : JitterBuffer capacity} {frames : List Frame} (h : Ring b frames)
    {count : ℕ} (hcount : count < 2 ^ 32) : Ring (b.skip count) frames := by
  unfold JitterBuffer.skip
  split_ifs
  · exact h
  · obtain ⟨hprimed, hslots⟩ :=
      foldl_vacate ((List.range count).map fun i => b.nextSeq + UInt32.ofNat i) b
    refine h.advance count hcount hprimed rfl (fun i hi => ?_)
    obtain ⟨hsame, hout⟩ := hslots i hi
    exact ⟨hsame, fun j hj => hout _ (List.mem_map.mpr ⟨j, List.mem_range.mpr hj, rfl⟩)⟩

/-- `skip_to_available` is a `skip` over less than a window, at least one. -/
theorem skipToAvailable_eq (b : JitterBuffer capacity) :
    ∃ count, (count < capacity ∨ count = 1) ∧ b.skipToAvailable = b.skip count := by
  unfold skipToAvailable
  split_ifs with hprimed
  · exact ⟨1, .inr rfl, by rw [JitterBuffer.skip, if_pos hprimed]⟩
  · cases hfind : (List.range' 1 (capacity - 1)).find? b.available with
    | none => exact ⟨1, .inr rfl, rfl⟩
    | some count =>
      have hmem := List.mem_of_find?_eq_some hfind
      rw [List.mem_range'_1] at hmem
      exact ⟨count, .inl (by omega), rfl⟩

/-- `pop` waits, or hands out the frame at the cursor and moves on by one. -/
theorem Ring.pop {b : JitterBuffer capacity} {frames : List Frame} (h : Ring b frames) :
    b.pop = (none, b) ∨ ∃ f, b.primed = true ∧ f.sequence = b.nextSeq ∧
      lastAccepted frames b.nextSeq = some f ∧
      b.pop = (some f, { b.vacate (index capacity b.nextSeq) with nextSeq := b.nextSeq + 1 }) ∧
      Ring { b.vacate (index capacity b.nextSeq) with nextSeq := b.nextSeq + 1 } frames := by
  unfold JitterBuffer.pop
  simp only
  split_ifs with hprimed hslot
  · exact .inl rfl
  · exact .inl rfl
  · right
    rw [Bool.or_eq_true, bne_iff_ne, not_or, Bool.not_eq_true', Bool.not_eq_false, not_not]
      at hslot
    obtain ⟨f, hframe, hseq, hindex, hwindow, hlast⟩ := h.held _ hslot.1
    have hf : f.sequence = b.nextSeq := hseq.symm.trans hslot.2
    refine ⟨f, by simpa using hprimed, hf, hf ▸ hlast, by rw [hframe], ?_⟩
    refine h.advance 1 (by decide) rfl rfl (fun i hi => ?_)
    obtain ⟨hsame, hne⟩ := occupied_vacate hi
    refine ⟨hsame, fun j hj => ?_⟩
    obtain rfl : j = 0 := by omega
    simpa using hne

theorem Ring.step {k : ℕ} (hcap : capacity = 2 ^ k) (hk : k < 32) {b : JitterBuffer capacity}
    {frames : List Frame} (h : Ring b frames) (op : Op) :
    Ring (b.step op) (frames ++ b.accepts op) := by
  have hlt : capacity < 2 ^ 32 := by
    rw [hcap]
    exact Nat.pow_lt_pow_right (by decide) hk
  have havailable : Ring b.skipToAvailable frames := by
    obtain ⟨count, hcount, heq⟩ := b.skipToAvailable_eq
    rw [heq]
    exact h.skip (by omega)
  cases op with
  | push frame => exact h.push hcap hk.le frame
  | pop =>
    simp only [accepts, List.append_nil]
    obtain hpop | ⟨f, -, -, -, hpop, hring⟩ := h.pop
    · simpa only [JitterBuffer.step, perform, hpop] using h
    · simpa only [JitterBuffer.step, perform, hpop] using hring
  | popWithDeadline now deadline =>
    simp only [accepts, List.append_nil]
    obtain hpop | ⟨f, -, -, -, hpop, hring⟩ := h.pop
    · simp only [JitterBuffer.step, perform, popWithDeadline, hpop]
      split_ifs
      · exact havailable
      · exact h
    · simpa only [JitterBuffer.step, perform, popWithDeadline, hpop] using hring
  | skip count =>
    simp only [accepts, List.append_nil]
    exact h.skip count.toNat_lt
  | skipToAvailable =>
    simp only [accepts, List.append_nil]
    exact havailable
  | reset => exact Ring.fresh _

/-- What a popped frame is, whichever way it was asked for. -/
theorem Ring.popped {b : JitterBuffer capacity} {frames : List Frame} (h : Ring b frames)
    {op : Op} {f : Frame} (hpop : (b.perform op).1 = .popped (some f)) :
    b.primed = true ∧ op ≠ .reset ∧ f.sequence = b.nextSeq ∧
      lastAccepted frames b.nextSeq = some f ∧ (b.step op).nextSeq = b.nextSeq + 1 := by
  cases op with
  | push frame => cases hpop
  | skip count => cases hpop
  | skipToAvailable => cases hpop
  | reset => cases hpop
  | pop =>
    obtain hwait | ⟨g, hprimed, hseq, hlast, hgot, -⟩ := h.pop
    · rw [perform, hwait] at hpop
      cases hpop
    · rw [perform, hgot] at hpop
      cases hpop
      refine ⟨hprimed, by simp, hseq, hlast, ?_⟩
      rw [JitterBuffer.step, perform, hgot]
  | popWithDeadline now deadline =>
    obtain hwait | ⟨g, hprimed, hseq, hlast, hgot, -⟩ := h.pop
    · simp only [perform, popWithDeadline, hwait] at hpop
      cases hpop
    · simp only [perform, popWithDeadline, hgot] at hpop
      cases hpop
      refine ⟨hprimed, by simp, hseq, hlast, ?_⟩
      simp only [JitterBuffer.step, perform, popWithDeadline, hgot]

theorem Ring.run {k : ℕ} (hcap : capacity = 2 ^ k) (hk : k < 32) {b : JitterBuffer capacity}
    {frames : List Frame} (h : Ring b frames) (ops : List Op) :
    Ring (ops.foldl JitterBuffer.step b) (frames ++ b.acceptedPushes ops) := by
  induction ops generalizing b frames with
  | nil => simpa [acceptedPushes] using h
  | cons op ops ih =>
    rw [List.foldl_cons, acceptedPushes, ← List.append_assoc]
    exact ih (h.step hcap hk op)

/-- Every state of a buffer that `new` built keeps the invariant. -/
theorem ring_of_new {b₀ : JitterBuffer capacity} (hnew : new capacity = some b₀) (ops : List Op) :
    ∃ k, capacity = 2 ^ k ∧ k < 32 ∧
      Ring (ops.foldl JitterBuffer.step b₀) (b₀.acceptedPushes ops) := by
  unfold new at hnew
  split_ifs at hnew with hvalid
  cases hnew
  obtain ⟨⟨k, hcap⟩, hsmall⟩ := hvalid
  have hk : k < 32 := by
    by_contra hge
    have hpow : 2 ^ 32 ≤ 2 ^ k := Nat.pow_le_pow_right (by decide) (Nat.not_lt.mp hge)
    rw [← hcap] at hpow
    omega
  have hfresh : Ring (JitterBuffer.fresh capacity) [] := Ring.fresh []
  exact ⟨k, hcap, hk, by simpa using hfresh.run hcap hk ops⟩

/-! ## The cursor -/

theorem skip_primed (b : JitterBuffer capacity) (count : ℕ) :
    (b.skip count).primed = b.primed := by
  unfold JitterBuffer.skip
  split_ifs
  · rfl
  · exact (foldl_vacate _ b).1

theorem store_eq (b : JitterBuffer capacity) (f : Frame) :
    (b.store f).2.primed = b.primed ∧ (b.store f).2.nextSeq = b.nextSeq := by
  unfold JitterBuffer.store
  simp only
  split_ifs <;> exact ⟨rfl, rfl⟩

theorem push_primed {b : JitterBuffer capacity} (hprimed : b.primed = true) (f : Frame) :
    (b.push f).2.primed = true := by
  unfold JitterBuffer.push
  simp only
  split_ifs
  · exact (store_eq _ f).1
  · exact hprimed
  · exact hprimed
  · rw [(store_eq _ f).1, hprimed]
  · rw [(store_eq _ f).1, hprimed]

theorem pop_primed (b : JitterBuffer capacity) : b.pop.2.primed = b.primed := by
  unfold JitterBuffer.pop
  simp only
  split_ifs <;> rfl

theorem skipToAvailable_primed (b : JitterBuffer capacity) :
    b.skipToAvailable.primed = b.primed := by
  obtain ⟨count, -, heq⟩ := b.skipToAvailable_eq
  rw [heq, skip_primed]

theorem step_primed {b : JitterBuffer capacity} (hprimed : b.primed = true) {op : Op}
    (hop : op ≠ .reset) : (b.step op).primed = true := by
  cases op with
  | push frame => exact push_primed hprimed frame
  | pop => exact b.pop_primed.trans hprimed
  | popWithDeadline now deadline =>
    have hpop := b.pop_primed.trans hprimed
    simp only [JitterBuffer.step, perform, popWithDeadline]
    split
    · rename_i heq
      rwa [heq] at hpop
    · rename_i heq
      rw [heq] at hpop
      simp only
      split_ifs
      · rwa [skipToAvailable_primed]
      · exact hpop
  | skip count => exact (b.skip_primed _).trans hprimed
  | skipToAvailable => exact b.skipToAvailable_primed.trans hprimed
  | reset => exact absurd rfl hop

theorem run_primed {b : JitterBuffer capacity} (hprimed : b.primed = true) {ops : List Op}
    (hops : .reset ∉ ops) : (ops.foldl step b).primed = true := by
  induction ops generalizing b with
  | nil => exact hprimed
  | cons op ops ih =>
    rw [List.mem_cons, not_or] at hops
    exact ih (step_primed hprimed (Ne.symm hops.1)) hops.2

/-- A run moves the cursor by the sum of what its operations move it. -/
theorem ahead_run (b : JitterBuffer capacity) (ops : List Op) :
    ahead (ops.foldl step b).nextSeq b.nextSeq = moved b ops % 2 ^ 32 := by
  induction ops generalizing b with
  | nil => simp [moved]
  | cons op ops ih =>
    rw [List.foldl_cons, ahead_trans _ (b.step op).nextSeq, ih, moved, Nat.mod_add_mod, add_comm]

theorem nextSeq_run (b : JitterBuffer capacity) (ops : List Op) :
    (ops.foldl step b).nextSeq = b.nextSeq + UInt32.ofNat (moved b ops) := by
  have hsub : (ops.foldl step b).nextSeq - b.nextSeq = UInt32.ofNat (moved b ops) := by
    apply UInt32.toNat_inj.mp
    rw [UInt32.toNat_ofNat', ← ahead_run]
    rfl
  rw [← hsub, add_sub_cancel]

/-- A sequence less than half a turn behind the cursor is too old. -/
theorem push_behind {b : JitterBuffer capacity} (hprimed : b.primed = true) {f : Frame}
    (hpos : 0 < ahead b.nextSeq f.sequence) (hlt : ahead b.nextSeq f.sequence < 2 ^ 31) :
    (b.push f).1 = false := by
  have hne : b.nextSeq ≠ f.sequence := by
    intro heq
    rw [heq, ahead_self] at hpos
    exact absurd hpos (lt_irrefl 0)
  have hswap := ahead_swap b.nextSeq f.sequence hne
  have hold : (0x80000000 : UInt32) < f.sequence - b.nextSeq := by
    rw [UInt32.lt_iff_toNat_lt]
    change 2147483648 < ahead f.sequence b.nextSeq
    omega
  unfold JitterBuffer.push
  simp [hprimed, hold]

/-- Slots hold the window, pops deliver what was accepted last and move forward, and what
the cursor has passed stays out until it is half a turn behind. -/
theorem delivery_law {b₀ : JitterBuffer capacity} (hnew : new capacity = some b₀)
    (ops : List Op) :
    let b := ops.foldl step b₀
    (∀ i, (b.slot i).occupied = true → ∃ f, (b.slot i).frame = some f ∧
      (b.slot i).sequence = f.sequence ∧ f.sequence.toNat % capacity = i ∧
      ahead f.sequence b.nextSeq < capacity) ∧
    (∀ op f, (b.perform op).1 = .popped (some f) →
      f.sequence = b.nextSeq ∧ lastAccepted (b₀.acceptedPushes ops) b.nextSeq = some f ∧
      ∀ mid op' f', .reset ∉ mid →
        ((mid.foldl step (b.step op)).perform op').1 = .popped (some f') →
        0 < moved b (op :: mid) ∧
          f'.sequence = f.sequence + UInt32.ofNat (moved b (op :: mid))) ∧
    ∀ op seq, op ≠ .reset → Passes b op seq → ∀ mid, .reset ∉ mid →
      ahead (b.step op).nextSeq seq + moved (b.step op) mid < 2 ^ 31 →
      (∀ f, f.sequence = seq → ((mid.foldl step (b.step op)).push f).1 = false) ∧
      ∀ op' f, ((mid.foldl step (b.step op)).perform op').1 = .popped (some f) →
        f.sequence ≠ seq := by
  have hring (ops : List Op) : Ring (ops.foldl step b₀) (b₀.acceptedPushes ops) := by
    obtain ⟨k, -, -, hrun⟩ := ring_of_new hnew ops
    exact hrun
  obtain ⟨k, hcap, -, -⟩ := ring_of_new hnew ops
  set b := ops.foldl step b₀ with hb
  have hlater (op : Op) (mid : List Op) : Ring (mid.foldl step (b.step op))
      (b₀.acceptedPushes (ops ++ op :: mid)) := by
    have hrun := hring (ops ++ op :: mid)
    rwa [List.foldl_append, List.foldl_cons, ← hb] at hrun
  refine ⟨fun i hi => ?_, fun op f hpop => ?_, fun op seq hop hpass mid hmid hmoved => ?_⟩
  · obtain ⟨f, hframe, hseq, hindex, hwindow, -⟩ := (hring ops).held i hi
    refine ⟨f, hframe, hseq, ?_, hwindow⟩
    rw [← hindex, index, hcap, Nat.and_two_pow_sub_one_eq_mod]
  · obtain ⟨-, -, hseq, hlast, hnext⟩ := (hring ops).popped hpop
    refine ⟨hseq, hlast, fun mid op' f' _ hpop' => ?_⟩
    obtain ⟨-, -, hseq', -, -⟩ := (hlater op mid).popped hpop'
    have hone : ahead (b.step op).nextSeq b.nextSeq = 1 := by
      rw [hnext, ahead, add_sub_cancel_left]
      rfl
    refine ⟨by rw [moved, hone]; omega, ?_⟩
    rw [hseq', hseq, ← nextSeq_run]
    rfl
  · obtain ⟨hprimed, hpassed⟩ := hpass
    have hstart : 0 < ahead (b.step op).nextSeq seq := by
      rw [Nat.pos_iff_ne_zero, ne_eq, ahead_eq_zero]
      rintro rfl
      exact absurd hpassed (lt_irrefl _)
    have hdist : ahead (mid.foldl step (b.step op)).nextSeq seq =
        ahead (b.step op).nextSeq seq + moved (b.step op) mid := by
      rw [ahead_trans _ (b.step op).nextSeq, ahead_run]
      omega
    have hprimed' := run_primed (step_primed hprimed hop) hmid
    constructor
    · rintro f rfl
      exact push_behind hprimed' (by omega) (by omega)
    · intro op' f hpop heq
      obtain ⟨-, -, hseq, -, -⟩ := (hlater op mid).popped hpop
      have hzero : ahead (mid.foldl step (b.step op)).nextSeq seq = 0 := by
        rw [← heq, hseq, ahead_self]
      omega

/-- After a long cut the buffer goes on from the new audio, and what was before it is old. -/
theorem delivery_law_cut :
    ((((((fresh 16).step (.push ⟨10, 0, []⟩)).step .pop).step (.push ⟨500, 0, []⟩)).step
      .pop).push ⟨12, 0, []⟩).1 = false :=
  ((delivery_law (by decide +kernel) [.push ⟨10, 0, []⟩, .pop]).2.2
    (.push ⟨500, 0, []⟩) 12 (by decide) ⟨by decide +kernel, by decide +kernel⟩ [.pop] (by decide)
    (by decide +kernel)).1 ⟨12, 0, []⟩ rfl

end JitterBuffer
end GravitalTalk
