import GravitalTalk.Lib.BigEndian

/-!
# Jitter buffer

`jitter_buffer.rs`: a ring of slots indexed by sequence modulo the capacity,
and the sequence the consumer waits for. The capacity is fixed when the buffer
is built and is a parameter of the type.
-/
namespace GravitalTalk

structure Frame where
  sequence : UInt32
  timestamp : UInt64
  payload : Bytes
  deriving DecidableEq, Repr

structure Slot where
  occupied : Bool
  sequence : UInt32
  frame : Option Frame
  deriving DecidableEq, Repr

def Slot.empty : Slot := ⟨false, 0, none⟩

structure JitterBuffer (capacity : ℕ) where
  slots : Vector Slot capacity
  nextSeq : UInt32
  primed : Bool
  deriving DecidableEq, Repr

namespace JitterBuffer

variable {capacity : ℕ}

def fresh (capacity : ℕ) : JitterBuffer capacity := ⟨Vector.replicate capacity Slot.empty, 0, false⟩

/-- `JitterBuffer::new`; `none` stands for a failed assertion. -/
def new (capacity : ℕ) : Option (JitterBuffer capacity) :=
  if capacity.isPowerOfTwo ∧ capacity ≤ 2048 then some (fresh capacity) else none

/-- The slot of a sequence: `sequence & (capacity - 1)`. -/
def index (capacity : ℕ) (seq : UInt32) : ℕ := seq.toNat &&& (capacity - 1)

def slot (b : JitterBuffer capacity) (i : ℕ) : Slot := b.slots[i]?.getD Slot.empty

def hasPending (b : JitterBuffer capacity) : Bool := b.slots.toList.any Slot.occupied

/-- `reset` writes the initial value into every slot. -/
def reset (_ : JitterBuffer capacity) : JitterBuffer capacity := fresh capacity

/-- Last part of `push`: the frame goes into its slot unless another one is there. -/
def store (b : JitterBuffer capacity) (f : Frame) : Bool × JitterBuffer capacity :=
  let s := b.slot (index capacity f.sequence)
  if s.occupied && s.sequence != f.sequence then (false, b)
  else (true, { b with
    slots := b.slots.setIfInBounds (index capacity f.sequence) ⟨true, f.sequence, some f⟩ })

def push (b : JitterBuffer capacity) (f : Frame) : Bool × JitterBuffer capacity :=
  if !b.primed then store { b with nextSeq := f.sequence, primed := true } f
  else
    let lead := f.sequence - b.nextSeq
    if 0x80000000 < lead then (false, b)
    else if capacity ≤ lead.toNat then
      if b.hasPending then (false, b) else store { b with nextSeq := f.sequence } f
    else store b f

/-- Forget the frame in slot `i`. -/
def vacate (b : JitterBuffer capacity) (i : ℕ) : JitterBuffer capacity :=
  { b with slots := b.slots.setIfInBounds i { b.slot i with occupied := false, frame := none } }

def skip (b : JitterBuffer capacity) (count : ℕ) : JitterBuffer capacity :=
  if !b.primed then b
  else
    let seqs := (List.range count).map fun i => b.nextSeq + UInt32.ofNat i
    { seqs.foldl (fun b seq => b.vacate (index capacity seq)) b with
      nextSeq := b.nextSeq + UInt32.ofNat count }

/-- Whether the frame `ahead` of the awaited one is in the buffer. -/
def available (b : JitterBuffer capacity) (ahead : ℕ) : Bool :=
  let seq := b.nextSeq + UInt32.ofNat ahead
  let s := b.slot (index capacity seq)
  s.occupied && s.sequence == seq

def skipToAvailable (b : JitterBuffer capacity) : JitterBuffer capacity :=
  if !b.primed then b
  else match (List.range' 1 (capacity - 1)).find? b.available with
    | some ahead => b.skip ahead
    | none => b.skip 1

def pop (b : JitterBuffer capacity) : Option Frame × JitterBuffer capacity :=
  if !b.primed then (none, b)
  else
    let i := index capacity b.nextSeq
    let s := b.slot i
    if !s.occupied || s.sequence != b.nextSeq then (none, b)
    else (s.frame, { b.vacate i with nextSeq := b.nextSeq + 1 })

/-- `pop`, and once the deadline is over the hole is given up. -/
def popWithDeadline (b : JitterBuffer capacity) (nowUs deadlineUs : UInt64) :
    Option Frame × JitterBuffer capacity :=
  match b.pop with
  | (some frame, b) => (some frame, b)
  | (none, b) => (none, if deadlineUs ≤ nowUs then b.skipToAvailable else b)

end JitterBuffer
end GravitalTalk
