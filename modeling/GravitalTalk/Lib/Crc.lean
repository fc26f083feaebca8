import Mathlib.Algebra.BigOperators.Intervals
import Mathlib.Algebra.Field.ZMod
import Mathlib.Algebra.Ring.Parity
import Mathlib.Data.ZMod.Basic

/-!
# Cyclic redundancy checks

A shift register over `w` bits with a generator `g`, fed with the bits of a
message. The register is linear, so that what an error does to it does not
depend on the message. An error is noticed when the register does not end at
zero: here for odd errors, for bursts that fit the register, and for two bits
closer than the period of the register.
-/
namespace GravitalTalk
namespace Crc

variable {w : ℕ} (g : BitVec w)

/-- One shift: the bit that leaves the register brings the generator in. -/
def shift (s : BitVec w) : BitVec w := (s <<< 1) ^^^ (if s.msb then g else 0#w)

def top : BitVec w := BitVec.twoPow w (w - 1)

def feed (s : BitVec w) (b : Bool) : BitVec w := shift g (s ^^^ (if b then top else 0#w))

def run (s : BitVec w) (bits : List Bool) : BitVec w := bits.foldl (feed g) s

@[simp] theorem run_nil (s : BitVec w) : run g s [] = s := rfl

@[simp] theorem run_cons (s : BitVec w) (b : Bool) (bits : List Bool) :
    run g s (b :: bits) = run g (feed g s b) bits := rfl

theorem run_append (s : BitVec w) (a b : List Bool) :
    run g s (a ++ b) = run g (run g s a) b := List.foldl_append

/-! ## Linearity -/

theorem ite_xor (a b : Bool) (x : BitVec w) :
    (if a ^^ b then x else 0#w) = (if a then x else 0#w) ^^^ (if b then x else 0#w) := by
  cases a <;> cases b <;> simp

theorem xor_xor_xor (a b c d : BitVec w) : a ^^^ b ^^^ (c ^^^ d) = a ^^^ c ^^^ (b ^^^ d) := by
  rw [BitVec.xor_assoc, BitVec.xor_assoc, ← BitVec.xor_assoc b, BitVec.xor_comm b c,
    BitVec.xor_assoc c]

theorem shift_xor (s t : BitVec w) : shift g (s ^^^ t) = shift g s ^^^ shift g t := by
  unfold shift
  rw [BitVec.shiftLeft_xor_distrib, BitVec.msb_xor, ite_xor, xor_xor_xor]

@[simp] theorem shift_zero : shift g 0#w = 0#w := by
  simp [shift]

theorem feed_xor (s t : BitVec w) (a b : Bool) :
    feed g (s ^^^ t) (a ^^ b) = feed g s a ^^^ feed g t b := by
  unfold feed
  rw [ite_xor, xor_xor_xor, shift_xor]

/-- An error acts on the register by itself. -/
theorem run_xor (s t : BitVec w) {a b : List Bool} (h : a.length = b.length) :
    run g (s ^^^ t) (List.zipWith xor a b) = run g s a ^^^ run g t b := by
  induction a generalizing b s t with
  | nil =>
    obtain rfl : b = [] := List.eq_nil_of_length_eq_zero h.symm
    rfl
  | cons x a ih =>
    cases b with
    | nil => simp at h
    | cons y b =>
      rw [List.zipWith_cons_cons, run_cons, run_cons, run_cons, feed_xor]
      exact ih _ _ (by simpa using h)

theorem run_replicate (s : BitVec w) (n : ℕ) :
    run g s (List.replicate n false) = (shift g)^[n] s := by
  induction n generalizing s with
  | zero => rfl
  | succ n ih =>
    rw [List.replicate_succ, run_cons, ih, Function.iterate_succ_apply]
    simp [feed]

theorem iterate_xor (s t : BitVec w) (n : ℕ) :
    (shift g)^[n] (s ^^^ t) = (shift g)^[n] s ^^^ (shift g)^[n] t := by
  induction n generalizing s t with
  | zero => rfl
  | succ n ih =>
    rw [Function.iterate_succ_apply, shift_xor, ih]
    rfl

/-- Bits that do not reach the top only move up. -/
theorem iterate_of_low {s : BitVec w} {n : ℕ} (h : s.toNat * 2 ^ n < 2 ^ w) :
    (shift g)^[n] s = s <<< n := by
  induction n generalizing s with
  | zero => simp
  | succ n ih =>
    have htwo : s.toNat * 2 * 2 ^ n < 2 ^ w := by
      rwa [mul_assoc, ← pow_succ']
    have hdouble : s.toNat * 2 < 2 ^ w :=
      lt_of_le_of_lt (Nat.le_mul_of_pos_right _ (Nat.two_pow_pos n)) htwo
    have hmsb : s.msb = false := by
      rw [BitVec.msb_eq_false_iff_two_mul_lt]
      omega
    have hshift : shift g s = s <<< 1 := by
      rw [shift, hmsb]
      simp
    have hnat : (s <<< 1).toNat = s.toNat * 2 := by
      rw [BitVec.toNat_shiftLeft, Nat.shiftLeft_eq, pow_one, Nat.mod_eq_of_lt hdouble]
    rw [Function.iterate_succ_apply, hshift, ih (by rwa [hnat]), ← BitVec.shiftLeft_add, add_comm]

/-! ## Nothing is lost -/

variable {g}

theorem eq_zero_of_shift (hw : 0 < w) (hg : g.getLsbD 0 = true) {s : BitVec w}
    (h : shift g s = 0#w) : s = 0#w := by
  have hbit (i : ℕ) : (shift g s).getLsbD i = false := by
    rw [h, BitVec.getLsbD_zero]
  cases hmsb : s.msb with
  | true =>
    have h0 := hbit 0
    rw [shift, hmsb, if_pos rfl, BitVec.getLsbD_xor, hg] at h0
    simp at h0
  | false =>
    apply BitVec.eq_of_getLsbD_eq
    intro i hi
    rw [BitVec.getLsbD_zero]
    by_cases hlast : i = w - 1
    · rw [hlast, ← BitVec.msb_eq_getLsbD_last, hmsb]
    · have hlt : i + 1 < w := by omega
      rw [BitVec.getLsbD_eq_getElem hi]
      simpa [shift, hmsb, hlt] using hbit (i + 1)

theorem eq_zero_of_iterate (hw : 0 < w) (hg : g.getLsbD 0 = true) {n : ℕ} {s : BitVec w}
    (h : (shift g)^[n] s = 0#w) : s = 0#w := by
  induction n generalizing s with
  | zero => exact h
  | succ n ih => exact eq_zero_of_shift hw hg (ih h)

/-! ## Two bits -/

@[simp] theorem msb_top (hw : 0 < w) : (top : BitVec w).msb = true := by
  simp [top, BitVec.msb_eq_getLsbD_last, hw]

/-- Two bits at a distance that is no period of the register. -/
theorem run_two_ne_zero (hw : 0 < w) (hg : g.getLsbD 0 = true) {a k c : ℕ}
    (hk : (shift g)^[k + 1] top ≠ top) :
    run g 0#w (List.replicate a false ++ true :: (List.replicate k false ++ true ::
      List.replicate c false)) ≠ 0#w := by
  intro h
  rw [run_append, run_replicate, run_cons, run_append, run_replicate, run_cons, run_replicate]
    at h
  have hstart : (shift g)^[a] 0#w = 0#w := Function.iterate_fixed (shift_zero g) a
  have hfeed := eq_zero_of_iterate hw hg h
  have hinner := eq_zero_of_shift hw hg hfeed
  rw [hstart, if_pos rfl] at hinner
  apply hk
  rw [Function.iterate_succ_apply]
  have heq := BitVec.xor_eq_zero_iff.mp hinner
  rwa [feed, if_pos rfl, BitVec.zero_xor] at heq

/-! ## Odd errors -/

/-- The number of bits that are set, modulo two. -/
def parity (s : BitVec w) : ZMod 2 := ∑ i ∈ Finset.range w, if s.getLsbD i then 1 else 0

theorem parity_xor (s t : BitVec w) : parity (s ^^^ t) = parity s + parity t := by
  unfold parity
  rw [← Finset.sum_add_distrib]
  apply Finset.sum_congr rfl
  intro i _
  rw [BitVec.getLsbD_xor]
  cases s.getLsbD i <;> cases t.getLsbD i <;> decide

theorem parity_shift (hw : 0 < w) (hg : parity g = 1) (s : BitVec w) :
    parity (shift g s) = parity s := by
  obtain ⟨n, rfl⟩ : ∃ n, w = n + 1 := ⟨w - 1, by omega⟩
  have hleft : parity (s <<< 1) + (if s.msb then 1 else 0) = parity s := by
    have hmsb : s.msb = s.getLsbD n := BitVec.msb_eq_getLsbD_last s
    unfold parity
    rw [Finset.sum_range_succ', Finset.sum_range_succ, hmsb]
    have hsum : ∑ i ∈ Finset.range n, (if (s <<< 1).getLsbD (i + 1) then (1 : ZMod 2) else 0) =
        ∑ i ∈ Finset.range n, if s.getLsbD i then 1 else 0 := by
      apply Finset.sum_congr rfl
      intro i hi
      have hlt : i + 1 < n + 1 := by simpa using hi
      rw [BitVec.getLsbD_eq_getElem (by omega : i < n + 1)]
      simp [hlt]
    rw [hsum]
    simp
  have hgen : parity (if s.msb then g else 0#(n + 1)) = if s.msb then 1 else 0 := by
    split_ifs
    · exact hg
    · simp [parity]
  rw [shift, parity_xor, hgen, hleft]

theorem parity_feed (hw : 0 < w) (hg : parity g = 1) (s : BitVec w) (b : Bool) :
    parity (feed g s b) = parity s + if b then 1 else 0 := by
  have htop : parity (top : BitVec w) = 1 := by
    unfold parity top
    rw [Finset.sum_eq_single (w - 1)]
    · simp [hw]
    · intro i _ hne
      have hne' : ¬ w - 1 = i := fun h => hne h.symm
      simp [BitVec.getLsbD_twoPow, hne']
    · intro h
      exact absurd (Finset.mem_range.mpr (by omega)) h
  rw [feed, parity_shift hw hg, parity_xor]
  cases b with
  | true => rw [if_pos rfl, if_pos rfl, htop]
  | false => simp [parity]

theorem parity_run (hw : 0 < w) (hg : parity g = 1) (s : BitVec w) (bits : List Bool) :
    parity (run g s bits) = parity s + (bits.count true : ZMod 2) := by
  induction bits generalizing s with
  | nil => simp
  | cons b bits ih =>
    rw [run_cons, ih, parity_feed hw hg]
    cases b with
    | true =>
      rw [List.count_cons_self, Nat.cast_add, Nat.cast_one, if_pos rfl, add_assoc, add_comm 1]
    | false => simp

/-- An odd number of bits. -/
theorem run_odd_ne_zero (hw : 0 < w) (hg : parity g = 1) {bits : List Bool}
    (hodd : Odd (bits.count true)) : run g 0#w bits ≠ 0#w := by
  intro h
  have hparity := parity_run hw hg 0#w bits
  rw [h, (ZMod.natCast_eq_one_iff_odd).mpr hodd] at hparity
  simp [parity] at hparity

/-! ## Bursts -/

/-- Bits side by side, the first one on top. -/
def word : List Bool → BitVec w
  | [] => 0#w
  | b :: bits => (if b then top else 0#w) ^^^ (word bits >>> 1)

theorem getLsbD_word {i : ℕ} (hi : i < w) (bits : List Bool) :
    (word bits : BitVec w).getLsbD i = bits.getD (w - 1 - i) false := by
  induction bits generalizing i with
  | nil => simp [word]
  | cons b bits ih =>
    have htop : (if b then (top : BitVec w) else 0#w).getLsbD i = (b && decide (i = w - 1)) := by
      cases b with
      | false => simp
      | true => simp [top, hi]
    rw [word, BitVec.getLsbD_xor, htop, BitVec.getLsbD_ushiftRight]
    by_cases hlast : i = w - 1
    · subst hlast
      have hout : 1 + (w - 1) = w := by omega
      simp [hout]
    · have hsucc : w - 1 - i = w - 1 - (1 + i) + 1 := by omega
      rw [ih (by omega), hsucc]
      simp [hlast]

theorem shift_ushiftRight {s : BitVec w} (hs : s.getLsbD 0 = false) :
    shift g (s >>> 1) = s := by
  have hmsb : (s >>> 1).msb = false := by
    rw [BitVec.msb_eq_getLsbD_last]
    by_cases hw : w = 0
    · subst hw
      simp
    · rw [BitVec.getLsbD_ushiftRight]
      exact BitVec.getLsbD_of_ge _ _ (by omega)
  rw [shift, hmsb]
  apply BitVec.eq_of_getLsbD_eq
  intro i hi
  cases i with
  | zero => simp [hs]
  | succ i =>
    have hcomm : 1 + i = i + 1 := add_comm 1 i
    simp [hi, hcomm]

/-- Bits that fit the register enter it as a word. -/
theorem run_eq_iterate (s : BitVec w) {bits : List Bool} (hlen : bits.length ≤ w) :
    run g s bits = (shift g)^[bits.length] (s ^^^ word bits) := by
  induction bits generalizing s with
  | nil => simp [word]
  | cons b bits ih =>
    have hlt : bits.length < w := hlen
    have hlow : (word bits : BitVec w).getLsbD 0 = false := by
      rw [getLsbD_word (by omega)]
      simp only [List.getD_eq_getElem?_getD]
      rw [List.getElem?_eq_none (by omega), Option.getD_none]
    rw [run_cons, ih _ hlt.le, List.length_cons, Function.iterate_succ_apply, word, feed,
      ← BitVec.xor_assoc, shift_xor g (s ^^^ _), shift_ushiftRight hlow]

/-- Some of at most `w` bits in a row. -/
theorem run_burst_ne_zero (hw : 0 < w) (hg : g.getLsbD 0 = true) {a c : ℕ} {bits : List Bool}
    (hlen : bits.length ≤ w) (htrue : true ∈ bits) :
    run g 0#w (List.replicate a false ++ (bits ++ List.replicate c false)) ≠ 0#w := by
  intro h
  have hstart : (shift g)^[a] 0#w = 0#w := Function.iterate_fixed (shift_zero g) a
  rw [run_append, run_replicate, run_append, run_replicate, hstart, run_eq_iterate _ hlen,
    BitVec.zero_xor] at h
  have hword := eq_zero_of_iterate hw hg (eq_zero_of_iterate hw hg h)
  obtain ⟨k, hk, hbit⟩ := List.getElem_of_mem htrue
  have hget := getLsbD_word (w := w) (i := w - 1 - k) (by omega) bits
  have hpos : w - 1 - (w - 1 - k) = k := by omega
  rw [hword, hpos, List.getD_eq_getElem?_getD, List.getElem?_eq_getElem hk, hbit] at hget
  simp at hget

/-! ## Errors by position -/

theorem eq_replicate_of_count {bits : List Bool} (h : bits.count true = 0) :
    bits = List.replicate bits.length false := by
  rw [List.eq_replicate_iff]
  refine ⟨rfl, fun b hb => ?_⟩
  cases b with
  | false => rfl
  | true => exact absurd hb (List.count_eq_zero.mp h)

theorem count_eq_card (bits : List Bool) :
    bits.count true = ((Finset.range bits.length).filter fun k => bits[k]? = some true).card := by
  induction bits using List.reverseRecOn with
  | nil => rfl
  | append_singleton bits b ih =>
    have hbefore : ((Finset.range bits.length).filter fun k => (bits ++ [b])[k]? = some true) =
        (Finset.range bits.length).filter fun k => bits[k]? = some true := by
      apply Finset.filter_congr
      intro k hk
      rw [List.getElem?_append_left (Finset.mem_range.mp hk)]
    have hlast : (bits ++ [b])[bits.length]? = some b := by simp
    rw [List.count_append, List.length_append, List.length_singleton, Finset.range_add_one,
      Finset.filter_insert, hbefore, hlast, ih]
    cases b with
    | true => simp
    | false => simp

/-- The first bit that is set. -/
theorem exists_first {bits : List Bool} (h : true ∈ bits) :
    ∃ a rest, bits = List.replicate a false ++ true :: rest := by
  induction bits with
  | nil => simp at h
  | cons b bits ih =>
    cases b with
    | true => exact ⟨0, bits, rfl⟩
    | false =>
      obtain ⟨a, rest, hrest⟩ := ih (by simpa using h)
      exact ⟨a + 1, rest, by rw [hrest, List.replicate_succ]; rfl⟩

theorem run_pair_ne_zero (hw : 0 < w) (hg : g.getLsbD 0 = true) {bits : List Bool}
    (hcount : bits.count true = 2)
    (hperiod : ∀ k, 0 < k → k < bits.length → (shift g)^[k] top ≠ top) : run g 0#w bits ≠ 0#w := by
  have hmem : true ∈ bits := List.count_pos_iff.mp (by omega)
  obtain ⟨a, rest, rfl⟩ := exists_first hmem
  have hrest : rest.count true = 1 := by simpa [List.count_replicate] using hcount
  have hmem' : true ∈ rest := List.count_pos_iff.mp (by omega)
  obtain ⟨k, tail, rfl⟩ := exists_first hmem'
  have htail : tail.count true = 0 := by simpa [List.count_replicate] using hrest
  rw [eq_replicate_of_count htail]
  apply run_two_ne_zero hw hg
  apply hperiod (k + 1) (Nat.succ_pos k)
  simp
  omega

theorem run_window_ne_zero (hw : 0 < w) (hg : g.getLsbD 0 = true) {bits : List Bool} {i : ℕ}
    (hmem : true ∈ bits) (hwindow : ∀ k : ℕ, bits[k]? = some true → i ≤ k ∧ k < i + w) :
    run g 0#w bits ≠ 0#w := by
  have hfalse (part : List Bool) (h : ∀ k : ℕ, part[k]? ≠ some true) :
      part = List.replicate part.length false := by
    apply eq_replicate_of_count
    rw [List.count_eq_zero]
    intro hin
    obtain ⟨k, hk⟩ := List.getElem?_of_mem hin
    exact h k hk
  have hfront : bits.take i = List.replicate (bits.take i).length false := by
    apply hfalse
    intro k hk
    rw [List.getElem?_take] at hk
    split_ifs at hk with hlt
    have := hwindow k hk
    omega
  have hback : (bits.drop i).drop w = List.replicate ((bits.drop i).drop w).length false := by
    apply hfalse
    intro k hk
    rw [List.drop_drop, List.getElem?_drop] at hk
    have := hwindow _ hk
    omega
  have hsplit : bits = bits.take i ++ ((bits.drop i).take w ++ (bits.drop i).drop w) := by
    rw [List.take_append_drop, List.take_append_drop]
  have hin : true ∈ (bits.drop i).take w := by
    rw [hsplit, hfront, hback] at hmem
    simpa using hmem
  rw [hsplit, hfront, hback]
  exact run_burst_ne_zero hw hg (List.length_take_le _ _) hin

/-! ## Periods -/

/-- Of the next `n` states none is `t`. -/
def avoids (g t : BitVec w) : ℕ → BitVec w → Bool
  | 0, _ => true
  | n + 1, s => s != t && avoids g t n (shift g s)

theorem ne_of_avoids {t s : BitVec w} {n k : ℕ} (h : avoids g t n s = true) (hk : k < n) :
    (shift g)^[k] s ≠ t := by
  induction n generalizing s k with
  | zero => omega
  | succ n ih =>
    simp only [avoids, Bool.and_eq_true, bne_iff_ne] at h
    cases k with
    | zero => exact h.1
    | succ k =>
      rw [Function.iterate_succ_apply]
      exact ih h.2 (by omega)

end Crc
end GravitalTalk
