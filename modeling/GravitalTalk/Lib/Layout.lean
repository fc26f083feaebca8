import GravitalTalk.Lib.BigEndian

/-!
# Records at fixed offsets of a buffer

A record is written to a buffer field by field, each at its own offset. Reading
and writing outside the buffer is `none`. When every field starts where the one
before it ends, the record is the concatenation of its fields, and the fields
can be read back at their offsets.
-/
namespace GravitalTalk

/-- The `n` bytes from offset `off` on. -/
def readAt (buf : Bytes) (off n : ℕ) : Option Bytes :=
  if off + n ≤ buf.length then some (slice buf off n) else none

/-- The byte at offset `off`. -/
def readByte (buf : Bytes) (off : ℕ) : Option UInt8 := buf[off]?

/-- `buf` with `b` in place of what was at offset `off`. -/
def writeAt (buf : Bytes) (off : ℕ) (b : Bytes) : Option Bytes :=
  if off + b.length ≤ buf.length then some (buf.take off ++ b ++ buf.drop (off + b.length))
  else none

variable {buf : Bytes} {off : ℕ}

theorem readAt_of_le {n : ℕ} (h : off + n ≤ buf.length) : readAt buf off n = some (slice buf off n) :=
  if_pos h

theorem readByte_of_lt (h : off < buf.length) : readByte buf off = some (buf.getD off 0) := by
  rw [readByte, List.getD_eq_getElem?_getD, List.getElem?_eq_getElem h, Option.getD_some]

theorem slice_one (h : off < buf.length) : slice buf off 1 = [buf.getD off 0] := by
  rw [slice, List.drop_eq_getElem_cons h, List.getD_eq_getElem?_getD, List.getElem?_eq_getElem h]
  rfl

theorem length_slice {n : ℕ} (h : off + n ≤ buf.length) : (slice buf off n).length = n := by
  simp only [slice, List.length_take, List.length_drop]
  omega

theorem toList_fixed {n : ℕ} {b : Bytes} (h : b.length = n) : (fixed n b).toList = b := by
  have hv : fixed n b = ⟨⟨b⟩, by simpa using h⟩ := by
    have := fixed_toList_append (⟨⟨b⟩, by simpa using h⟩ : Vector UInt8 n) []
    simpa using this
  rw [hv]
  rfl

theorem fixed_slice_eq {n : ℕ} (h : off + n ≤ buf.length) {v : Vector UInt8 n} :
    fixed n (slice buf off n) = v ↔ v.toList = slice buf off n := by
  constructor
  · rintro rfl
    exact toList_fixed (length_slice h)
  · intro hv
    rw [← hv]
    simpa using fixed_toList_append v []

theorem getD_eq_iff (h : off < buf.length) {b : UInt8} :
    buf.getD off 0 = b ↔ [b] = slice buf off 1 := by
  rw [slice_one h, List.singleton_inj, eq_comm]

theorem fromBe32_slice_eq (h : off + 4 ≤ buf.length) {x : UInt32} :
    fromBe32 (slice buf off 4) = x ↔ be32 x = slice buf off 4 := by
  constructor
  · rintro rfl
    exact be32_fromBe32 (length_slice h)
  · intro hx
    rw [← hx, fromBe32_be32]

/-- The fields of a record, each with the offset it is written to. -/
abbrev Layout := List (ℕ × Bytes)

namespace Layout

def writeTo (l : Layout) (buf : Bytes) : Option Bytes :=
  l.foldlM (fun buf field => writeAt buf field.1 field.2) buf

/-- The fields one after the other. -/
def bytes (l : Layout) : Bytes := l.flatMap Prod.snd

/-- The first field starts at `off`, and every other one where the one before it ends. -/
def Adjacent : ℕ → Layout → Prop
  | _, [] => True
  | off, field :: l => field.1 = off ∧ Adjacent (off + field.2.length) l

variable {l : Layout}

@[simp] theorem adjacent_nil : Adjacent off [] := trivial

@[simp] theorem adjacent_cons {field : ℕ × Bytes} :
    Adjacent off (field :: l) ↔ field.1 = off ∧ Adjacent (off + field.2.length) l := Iff.rfl

@[simp] theorem bytes_nil : bytes [] = [] := rfl

@[simp] theorem bytes_cons (field : ℕ × Bytes) : bytes (field :: l) = field.2 ++ l.bytes :=
  List.flatMap_cons

/-- Writing adjacent fields replaces one stretch of the buffer. -/
theorem writeTo_adjacent (h : Adjacent off l) (hfit : off + l.bytes.length ≤ buf.length) :
    l.writeTo buf = some (buf.take off ++ l.bytes ++ buf.drop (off + l.bytes.length)) := by
  induction l generalizing off buf with
  | nil => simp [writeTo]
  | cons field l ih =>
    obtain ⟨rfl, hrest⟩ := h
    simp only [bytes_cons, List.length_append] at hfit
    have hwrite : writeAt buf field.1 field.2 =
        some (buf.take field.1 ++ field.2 ++ buf.drop (field.1 + field.2.length)) :=
      if_pos (by omega)
    have hlen : (buf.take field.1 ++ field.2 ++
        buf.drop (field.1 + field.2.length)).length = buf.length := by
      simp only [List.length_append, List.length_take, List.length_drop]
      omega
    have hfront : (buf.take field.1 ++ field.2).length = field.1 + field.2.length := by
      simp only [List.length_append, List.length_take]
      omega
    unfold writeTo
    rw [List.foldlM_cons, hwrite]
    change writeTo l _ = _
    rw [ih hrest (by omega), List.take_left' hfront, List.drop_append, hfront,
      List.drop_eq_nil_of_le (by omega), List.drop_drop, bytes_cons, List.length_append]
    simp only [List.nil_append, List.append_assoc]
    congr 5
    omega

/-- Every field can be read where it was written. -/
theorem slice_of_mem (h : Adjacent off l) {field : ℕ × Bytes} (hf : field ∈ l) (front rest : Bytes)
    (hfront : front.length = off) :
    slice (front ++ l.bytes ++ rest) field.1 field.2.length = field.2 := by
  induction l generalizing off front with
  | nil => cases hf
  | cons first l ih =>
    obtain ⟨hoff, hrest⟩ := h
    rcases List.mem_cons.mp hf with rfl | hf
    · have := slice_middle front field.2 (bytes l ++ rest) (hoff.trans hfront.symm) rfl
      simpa using this
    · have := ih hrest hf (front ++ first.2) (by simp [hfront])
      simpa using this

/-- Fields that are what a buffer has at their offsets are the front of the buffer. -/
theorem bytes_of_slices (h : Adjacent off l)
    (hslices : ∀ field ∈ l, field.2 = slice buf field.1 field.2.length) :
    l.bytes = slice buf off l.bytes.length := by
  induction l generalizing off with
  | nil => simp [slice]
  | cons field l ih =>
    obtain ⟨rfl, hrest⟩ := h
    have htail := ih hrest fun f hf => hslices f (List.mem_cons_of_mem _ hf)
    have hhead := hslices field List.mem_cons_self
    rw [bytes_cons, List.length_append, slice, List.take_add, List.drop_drop]
    congr 1

end Layout
end GravitalTalk
