import GravitalTalk.Lib.BigEndian
import Mathlib.Data.List.ReduceOption

/-!
# Reassembly of fragments

`fragment.rs`: the pieces of one frame, in whatever order they come. How many came is
counted apart from the slots they fill; the reassembler carries that the two agree.
-/
namespace GravitalTalk

def maxFragments : UInt16 := 16

/-- Errors of the core crate that are about fragments. -/
inductive FragmentError
  | tooManyFragments | fragmentOutOfRange | duplicateFragment | incompleteReassembly
  deriving DecidableEq, Repr

structure FragmentReassembler where
  expectedTotal : UInt16
  buffers : List (Option Bytes)
  received : UInt16
  length_buffers : buffers.length = expectedTotal.toNat
  received_eq : received.toNat = buffers.countP Option.isSome

namespace FragmentReassembler

def new (total : UInt16) : Except FragmentError FragmentReassembler :=
  if total = 0 ∨ maxFragments < total then .error .tooManyFragments
  else .ok
    { expectedTotal := total
      buffers := List.replicate total.toNat none
      received := 0
      length_buffers := List.length_replicate
      received_eq := by simp [List.countP_replicate] }

variable {r : FragmentReassembler} {index : UInt16}

theorem toNat_lt_length (h : index < r.expectedTotal) : index.toNat < r.buffers.length := by
  rw [r.length_buffers]
  exact UInt16.lt_iff_toNat_lt.mp h

theorem countP_set_some {α : Type*} {l : List (Option α)} {i : ℕ} (h : i < l.length)
    (hnone : (l.get ⟨i, h⟩).isSome = false) (a : α) :
    (l.set i (some a)).countP Option.isSome = l.countP Option.isSome + 1 := by
  rw [List.get_eq_getElem] at hnone
  rw [List.countP_set h, hnone]
  simp

/-- What an accepted fragment does. -/
def put (r : FragmentReassembler) (index : UInt16) (payload : Bytes) (h : index < r.expectedTotal)
    (hfree : (r.buffers.get ⟨index.toNat, toNat_lt_length h⟩).isSome = false) :
    FragmentReassembler :=
  { r with
    buffers := r.buffers.set index.toNat (some payload)
    received := r.received + 1
    length_buffers := by rw [List.length_set, r.length_buffers]
    received_eq := by
      have hcount := countP_set_some (toNat_lt_length h) hfree payload
      have hle := (r.buffers.set index.toNat (some payload)).countP_le_length (p := Option.isSome)
      have htotal := r.expectedTotal.toNat_lt
      rw [List.length_set, r.length_buffers] at hle
      have hone : (1 : UInt16).toNat = 1 := rfl
      rw [UInt16.toNat_add, hone, r.received_eq, Nat.mod_eq_of_lt (by omega), hcount] }

def insert (index : UInt16) (payload : Bytes) (r : FragmentReassembler) :
    Except FragmentError Unit × FragmentReassembler :=
  if h : index < r.expectedTotal then
    if hslot : (r.buffers.get ⟨index.toNat, toNat_lt_length h⟩).isSome = false then
      (.ok (), r.put index payload h hslot)
    else (.error .duplicateFragment, r)
  else (.error .fragmentOutOfRange, r)

def isComplete (r : FragmentReassembler) : Bool := r.received == r.expectedTotal

def finish (r : FragmentReassembler) : Except FragmentError Bytes :=
  if !r.isComplete then .error .incompleteReassembly
  else .ok r.buffers.reduceOption.flatten

/-- A call of `insert`. -/
abbrev Arrival := UInt16 × Bytes

def step (r : FragmentReassembler) (x : Arrival) : FragmentReassembler := (r.insert x.1 x.2).2

def run (r : FragmentReassembler) (arrivals : List Arrival) : FragmentReassembler :=
  arrivals.foldl step r

/-- What is in the slot of a fragment. -/
def slot (r : FragmentReassembler) (index : UInt16) : Option Bytes :=
  (r.buffers[index.toNat]?).join

/-! ## One fragment -/

theorem insert_error {payload : Bytes} {e : FragmentError}
    (h : (r.insert index payload).1 = .error e) :
    (r.insert index payload).2 = r := by
  unfold insert at h ⊢
  by_cases hindex : index < r.expectedTotal
  · rw [dif_pos hindex] at h ⊢
    split_ifs at h ⊢
    rfl
  · rw [dif_neg hindex]

@[simp] theorem expectedTotal_step (x : Arrival) : (r.step x).expectedTotal = r.expectedTotal := by
  unfold step insert
  split_ifs <;> rfl

theorem slot_eq_get (h : index < r.expectedTotal) :
    r.slot index = r.buffers.get ⟨index.toNat, toNat_lt_length h⟩ := by
  rw [slot, List.getElem?_eq_getElem (toNat_lt_length h)]
  rfl

/-- A slot takes the first fragment that comes for it. -/
theorem slot_step (x : Arrival) (hindex : index < r.expectedTotal) :
    (r.step x).slot index = (r.slot index).or (if x.1 = index then some x.2 else none) := by
  obtain ⟨i, payload⟩ := x
  by_cases hi : i = index
  · subst hi
    have hget := slot_eq_get hindex
    rw [if_pos rfl]
    unfold step insert
    rw [dif_pos hindex]
    split_ifs with hfree
    · rw [← hget] at hfree
      have hnone : r.slot i = none := by simpa using hfree
      rw [hnone]
      simp [slot, put, toNat_lt_length hindex]
    · rw [← hget] at hfree
      obtain ⟨old, hold⟩ := Option.ne_none_iff_exists'.mp (by simpa using hfree)
      rw [hold, Option.some_or]
  · have hne : i.toNat ≠ index.toNat := fun h => hi (UInt16.toNat_inj.mp h)
    rw [if_neg hi, Option.or_none]
    unfold step insert
    split_ifs with hrange hfree
    · simp [slot, put, List.getElem?_set_ne hne]
    · rfl
    · rfl

/-- It is complete when nothing is missing. -/
theorem isComplete_iff :
    r.isComplete = true ↔ ∀ index < r.expectedTotal, (r.slot index).isSome = true := by
  have hcount : r.isComplete = true ↔ r.buffers.countP Option.isSome = r.buffers.length := by
    rw [isComplete, beq_iff_eq, ← UInt16.toNat_inj, r.received_eq, r.length_buffers]
  rw [hcount, List.countP_eq_length]
  constructor
  · intro h index hindex
    have hlt := toNat_lt_length hindex
    rw [slot, List.getElem?_eq_getElem hlt]
    exact h _ (List.getElem_mem hlt)
  · intro h b hb
    obtain ⟨i, hi, rfl⟩ := List.mem_iff_getElem.mp hb
    have htotal := r.expectedTotal.toNat_lt
    have hlen := r.length_buffers
    have hof : (UInt16.ofNat i).toNat = i := UInt16.toNat_ofNat_of_lt' (by rw [UInt16.size]; omega)
    have hslot := h (UInt16.ofNat i) (UInt16.lt_iff_toNat_lt.mpr (by omega))
    rw [slot, hof, List.getElem?_eq_getElem hi] at hslot
    exact hslot

/-! ## Any number of them -/

@[simp] theorem expectedTotal_run (arrivals : List Arrival) :
    (r.run arrivals).expectedTotal = r.expectedTotal := by
  induction arrivals generalizing r with
  | nil => rfl
  | cons x arrivals ih => exact (ih (r := r.step x)).trans (expectedTotal_step x)

theorem slot_run (arrivals : List Arrival) (hindex : index < r.expectedTotal) :
    (r.run arrivals).slot index = (r.slot index).or (arrivals.lookup index) := by
  induction arrivals generalizing r with
  | nil => simp [run]
  | cons x arrivals ih =>
    have hrun : (r.run (x :: arrivals)).slot index = ((r.step x).run arrivals).slot index := rfl
    have hrest : (((if x.1 = index then some x.2 else none : Option Bytes)).or
        (arrivals.lookup index)) = (x :: arrivals).lookup index := by
      obtain ⟨i, payload⟩ := x
      rw [List.lookup_cons]
      rcases eq_or_ne i index with rfl | hne
      · simp
      · simp [hne, beq_false_of_ne hne.symm]
    rw [hrun, ih (by rw [expectedTotal_step]; exact hindex), slot_step x hindex, Option.or_assoc,
      hrest]

theorem isSome_lookup_iff {arrivals : List Arrival} :
    (arrivals.lookup index).isSome = true ↔ ∃ payload, (index, payload) ∈ arrivals := by
  rw [List.lookup_isSome_iff]
  simp

/-- A new reassembler waits for every one of its fragments. -/
theorem new_eq {total : UInt16} (htotal : 0 < total ∧ total ≤ maxFragments) :
    ∃ start, new total = .ok start ∧ start.expectedTotal = total ∧
      ∀ index, start.slot index = none := by
  have hbounds : ¬(total = 0 ∨ maxFragments < total) := by
    rintro (rfl | hlarge)
    · exact absurd htotal.1 (by decide)
    · exact UInt16.not_lt.mpr htotal.2 hlarge
  rw [new, if_neg hbounds]
  refine ⟨_, rfl, rfl, fun index => ?_⟩
  rw [slot, List.getElem?_replicate]
  split_ifs <;> rfl

/-- The slots, when what is in each is known. -/
theorem buffers_eq {pieces : List Bytes} (hlen : pieces.length = r.expectedTotal.toNat)
    (hslot : ∀ i (h : i < pieces.length), r.slot (UInt16.ofNat i) = some pieces[i]) :
    r.buffers = pieces.map some := by
  have hsize : r.buffers.length = (pieces.map some).length := by
    rw [r.length_buffers, List.length_map, hlen]
  apply List.ext_getElem hsize
  intro i hi hi'
  have hp : i < pieces.length := by rwa [List.length_map] at hi'
  have htotal := r.expectedTotal.toNat_lt
  have hof : (UInt16.ofNat i).toNat = i := UInt16.toNat_ofNat_of_lt' (by rw [UInt16.size]; omega)
  have hi'' := hslot i hp
  rw [slot, hof, List.getElem?_eq_getElem hi] at hi''
  rw [List.getElem_map]
  exact hi''

/-- Whatever the order of the fragments and whatever comes along with them: the frame is there
when every index came, and it is the pieces that came first for each index, in their order. -/
theorem reassembly (total : UInt16) (htotal : 0 < total ∧ total ≤ maxFragments)
    (arrivals : List Arrival) :
    ∃ start, new total = .ok start ∧
      (∀ pieces : List Bytes, pieces.length = total.toNat →
        (∀ i (h : i < pieces.length), arrivals.lookup (UInt16.ofNat i) = some pieces[i]) →
        (start.run arrivals).finish = .ok pieces.flatten) ∧
      ((∃ frame, (start.run arrivals).finish = .ok frame) ↔
        ∀ index < total, ∃ payload, (index, payload) ∈ arrivals) ∧
      ∀ index payload e, ((start.run arrivals).insert index payload).1 = .error e →
        ((start.run arrivals).insert index payload).2 = start.run arrivals := by
  obtain ⟨start, hnew, rfl, hempty⟩ := new_eq htotal
  have hslot (index : UInt16) (h : index < start.expectedTotal) :
      (start.run arrivals).slot index = arrivals.lookup index := by
    rw [slot_run arrivals h, hempty index, Option.none_or]
  have hcomplete : (start.run arrivals).isComplete = true ↔
      ∀ index < start.expectedTotal, ∃ payload, (index, payload) ∈ arrivals := by
    rw [isComplete_iff, expectedTotal_run]
    refine forall₂_congr fun index hindex => ?_
    rw [hslot index hindex, isSome_lookup_iff]
  refine ⟨start, hnew, ?_, ?_, ?_⟩
  · intro pieces hlen hpieces
    have hindex (i : ℕ) (h : i < pieces.length) : UInt16.ofNat i < start.expectedTotal := by
      have hlt := start.expectedTotal.toNat_lt
      rw [UInt16.lt_iff_toNat_lt, UInt16.toNat_ofNat_of_lt' (by rw [UInt16.size]; omega)]
      omega
    have hbuffers : (start.run arrivals).buffers = pieces.map some := by
      apply buffers_eq (by rw [expectedTotal_run, hlen])
      intro i hi
      rw [hslot _ (hindex i hi), hpieces i hi]
    have hreceived : (start.run arrivals).isComplete = true := by
      rw [isComplete, beq_iff_eq, ← UInt16.toNat_inj, received_eq, hbuffers, expectedTotal_run,
        ← hlen]
      simp
    rw [finish, hreceived, hbuffers]
    simp [List.reduceOption]
  · rw [← hcomplete, finish]
    cases (start.run arrivals).isComplete <;> simp
  · intro index payload e he
    exact insert_error he

/-- Two pieces, the second one first, with a duplicate and an index out of range among them. -/
theorem reassembly_reordered :
    ∃ start, new 2 = .ok start ∧
      (start.run [(1, [3]), (7, [9]), (1, [4]), (0, [1, 2])]).finish = .ok [1, 2, 3] := by
  have hpieces : ∀ i (h : i < [[1, 2], [3]].length),
      List.lookup (UInt16.ofNat i) [(1, [3]), (7, [9]), (1, [4]), (0, [1, 2])] =
        some ([[1, 2], [3]] : List Bytes)[i] := by
    decide
  obtain ⟨start, hnew, hframe, -⟩ :=
    reassembly 2 (by decide) [(1, [3]), (7, [9]), (1, [4]), (0, [1, 2])]
  exact ⟨start, hnew, hframe [[1, 2], [3]] rfl hpieces⟩

end FragmentReassembler
end GravitalTalk
