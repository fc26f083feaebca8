import GravitalTalk.Lib.BigEndian

/-!
# XOR parity of byte strings

Byte strings of different lengths are compared and combined as if padded with
zero bytes. `groupParity` of a group of strings is their XOR, as long as the longest
of them, and the XOR of a parity with all strings of its group but one is the
string left out, up to trailing zeros.
-/
namespace GravitalTalk

/-- Byte `i` of a string padded with zeros. -/
def byteAt (b : Bytes) (i : ℕ) : UInt8 := b.getD i 0

/-- Equal up to trailing zero bytes. -/
def SamePadded (a b : Bytes) : Prop := ∀ i, byteAt a i = byteAt b i

/-- XOR `data` into an accumulator whose length stays. -/
def xorInto : Bytes → Bytes → Bytes
  | [], _ => []
  | a :: as, [] => a :: as
  | a :: as, b :: bs => (a ^^^ b) :: xorInto as bs

/-- Pad with zeros up to length `n`. -/
def growTo (b : Bytes) (n : ℕ) : Bytes := b ++ List.replicate (n - b.length) 0

/-- XOR into an accumulator that grows to the length of the data. -/
def xorGrow (acc data : Bytes) : Bytes := xorInto (growTo acc data.length) data

def groupParity (group : List Bytes) : Bytes := group.foldl xorGrow []

/-- Byte `i` of the XOR of a group. -/
def xorAt (group : List Bytes) (i : ℕ) : UInt8 := group.foldr (fun b x => byteAt b i ^^^ x) 0

@[simp] theorem length_xorInto (acc data : Bytes) : (xorInto acc data).length = acc.length := by
  fun_induction xorInto acc data <;> simp_all

@[simp] theorem length_growTo (b : Bytes) (n : ℕ) : (growTo b n).length = max b.length n := by
  simp [growTo]
  omega

@[simp] theorem byteAt_growTo (b : Bytes) (n i : ℕ) : byteAt (growTo b n) i = byteAt b i := by
  simp only [byteAt, growTo, List.getD_eq_getElem?_getD]
  by_cases hi : i < b.length
  · rw [List.getElem?_append_left hi]
  · rw [List.getElem?_append_right (by omega), List.getElem?_replicate,
      List.getElem?_eq_none (by omega : b.length ≤ i)]
    split <;> rfl

theorem byteAt_xorInto {acc data : Bytes} (h : data.length ≤ acc.length) (i : ℕ) :
    byteAt (xorInto acc data) i = byteAt acc i ^^^ byteAt data i := by
  induction acc generalizing data i with
  | nil =>
    have : data = [] := List.eq_nil_of_length_eq_zero (by simpa using h)
    subst this
    simp [xorInto, byteAt]
  | cons a acc ih =>
    cases data with
    | nil => simp [xorInto, byteAt]
    | cons b data =>
      cases i with
      | zero => simp [xorInto, byteAt]
      | succ i => simpa [xorInto, byteAt] using ih (Nat.le_of_succ_le_succ h) i

theorem length_xorGrow (acc data : Bytes) :
    (xorGrow acc data).length = max acc.length data.length := by
  simp [xorGrow]

theorem byteAt_xorGrow (acc data : Bytes) (i : ℕ) :
    byteAt (xorGrow acc data) i = byteAt acc i ^^^ byteAt data i := by
  rw [xorGrow, byteAt_xorInto (by simp), byteAt_growTo]

theorem byteAt_foldl_xorGrow (acc : Bytes) (group : List Bytes) (i : ℕ) :
    byteAt (group.foldl xorGrow acc) i = byteAt acc i ^^^ xorAt group i := by
  induction group generalizing acc with
  | nil => simp [xorAt]
  | cons b group ih =>
    rw [List.foldl_cons, ih, byteAt_xorGrow, UInt8.xor_assoc]
    rfl

theorem byteAt_groupParity (group : List Bytes) (i : ℕ) :
    byteAt (groupParity group) i = xorAt group i := by
  rw [groupParity, byteAt_foldl_xorGrow]
  simp [byteAt]

@[simp] theorem length_foldl_xorInto (acc : Bytes) (group : List Bytes) :
    (group.foldl xorInto acc).length = acc.length := by
  induction group generalizing acc with
  | nil => rfl
  | cons b group ih => rw [List.foldl_cons, ih, length_xorInto]

theorem le_length_foldl_xorGrow {b : Bytes} (acc : Bytes) {group : List Bytes}
    (h : b ∈ group ∨ b.length ≤ acc.length) :
    b.length ≤ (group.foldl xorGrow acc).length := by
  induction group generalizing acc with
  | nil => simpa using h
  | cons c group ih =>
    rw [List.foldl_cons]
    apply ih
    rw [length_xorGrow]
    rcases h with h | h
    · rcases List.mem_cons.mp h with rfl | h
      · exact .inr (le_max_right _ _)
      · exact .inl h
    · exact .inr (h.trans (le_max_left _ _))

/-- A parity is at least as long as every string of its group. -/
theorem le_length_groupParity {b : Bytes} {group : List Bytes} (h : b ∈ group) :
    b.length ≤ (groupParity group).length :=
  le_length_foldl_xorGrow [] (.inl h)

theorem byteAt_foldl_xorInto {acc : Bytes} {group : List Bytes}
    (h : ∀ b ∈ group, b.length ≤ acc.length) (i : ℕ) :
    byteAt (group.foldl xorInto acc) i = byteAt acc i ^^^ xorAt group i := by
  induction group generalizing acc with
  | nil => simp [xorAt]
  | cons b group ih =>
    have hb := h b List.mem_cons_self
    have hrest : ∀ c ∈ group, c.length ≤ (xorInto acc b).length := by
      intro c hc
      rw [length_xorInto]
      exact h c (List.mem_cons_of_mem _ hc)
    rw [List.foldl_cons, ih hrest, byteAt_xorInto hb, UInt8.xor_assoc]
    rfl

/-- One string of a group is the XOR of the group with all the others. -/
theorem xorAt_eraseIdx {group : List Bytes} {k : ℕ} {b : Bytes} (h : group[k]? = some b) (i : ℕ) :
    xorAt group i ^^^ xorAt (group.eraseIdx k) i = byteAt b i := by
  induction group generalizing k with
  | nil => simp at h
  | cons c group ih =>
    cases k with
    | zero =>
      have hcb : c = b := by simpa using h
      subst hcb
      simp only [xorAt, List.foldr_cons, List.eraseIdx_cons_zero]
      rw [UInt8.xor_assoc, UInt8.xor_self, UInt8.xor_zero]
    | succ k =>
      have := ih (by simpa using h)
      simp only [xorAt, List.foldr_cons, List.eraseIdx_cons_succ] at this ⊢
      rw [← this]
      have hswap (x y z : UInt8) : (x ^^^ y) ^^^ (x ^^^ z) = y ^^^ z := by
        rw [UInt8.xor_comm x y, UInt8.xor_assoc, ← UInt8.xor_assoc x x z, UInt8.xor_self,
          UInt8.zero_xor]
      exact hswap _ _ _

/-- Recovery: a parity and all strings of its group but number `k` give that
string back, up to trailing zeros. -/
theorem recover_groupParity {group : List Bytes} {k : ℕ} {b : Bytes} (h : group[k]? = some b) :
    SamePadded ((group.eraseIdx k).foldl xorInto (groupParity group)) b := by
  intro i
  have hlen : ∀ c ∈ group.eraseIdx k, c.length ≤ (groupParity group).length := fun c hc =>
    le_length_groupParity (List.mem_of_mem_eraseIdx hc)
  rw [byteAt_foldl_xorInto hlen, byteAt_groupParity, xorAt_eraseIdx h]

/-- A parity is no longer than the longest string of its group. -/
theorem length_groupParity_le {group : List Bytes} {n : ℕ} (h : ∀ b ∈ group, b.length ≤ n) :
    (groupParity group).length ≤ n := by
  have hfold : ∀ acc : Bytes, acc.length ≤ n → (group.foldl xorGrow acc).length ≤ n := by
    induction group with
    | nil => exact fun acc hacc => hacc
    | cons b group ih =>
      intro acc hacc
      apply ih fun c hc => h c (List.mem_cons_of_mem _ hc)
      rw [length_xorGrow]
      exact max_le hacc (h b List.mem_cons_self)
  exact hfold [] (Nat.zero_le n)

/-- Equal up to padding and equally long is equal. -/
theorem SamePadded.eq_iff {a b : Bytes} (h : SamePadded a b) : a = b ↔ a.length = b.length := by
  constructor
  · rintro rfl
    rfl
  · intro hlen
    apply List.ext_getElem hlen
    intro i ha hb
    have hi := h i
    simpa [byteAt, List.getD_eq_getElem?_getD, ha, hb] using hi

/-- The longest string of a group is as long as its parity, and no other is. -/
theorem length_groupParity_eq_iff {group : List Bytes} {b : Bytes} (hb : b ∈ group) :
    (groupParity group).length = b.length ↔ ∀ c ∈ group, c.length ≤ b.length := by
  constructor
  · intro heq c hc
    exact heq ▸ le_length_groupParity hc
  · intro hmax
    exact le_antisymm (length_groupParity_le hmax) (le_length_groupParity hb)

end GravitalTalk
