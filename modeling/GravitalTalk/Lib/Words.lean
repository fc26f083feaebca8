import Mathlib.Data.Nat.Bitwise
import Mathlib.Tactic.Ring

/-!
# Numbers in words

A number kept in words of `w` bits, the lowest word first.
-/
namespace GravitalTalk
namespace Words

variable {w : ℕ}

def toNat : List (BitVec w) → ℕ
  | [] => 0
  | x :: xs => x.toNat + 2 ^ w * toNat xs

/-- Bit `j`, looked up in the word that holds it. -/
def bit (xs : List (BitVec w)) (j : ℕ) : Bool := (xs[j / w]?.getD 0).getLsbD (j % w)

@[simp] theorem bit_nil (j : ℕ) : bit ([] : List (BitVec w)) j = false := by
  simp [bit]

theorem bit_cons_of_lt (x : BitVec w) (xs : List (BitVec w)) {j : ℕ} (hj : j < w) :
    bit (x :: xs) j = x.getLsbD j := by
  simp [bit, Nat.div_eq_of_lt hj, Nat.mod_eq_of_lt hj]

theorem bit_cons_of_le (hw : 0 < w) (x : BitVec w) (xs : List (BitVec w)) {j : ℕ} (hj : w ≤ j) :
    bit (x :: xs) j = bit xs (j - w) := by
  have hdiv : j / w = (j - w) / w + 1 := Nat.div_eq_sub_div hw hj
  have hmod : j % w = (j - w) % w := Nat.mod_eq_sub_mod hj
  rw [bit, bit, hdiv, hmod, List.getElem?_cons_succ]

theorem testBit_toNat (hw : 0 < w) (xs : List (BitVec w)) (j : ℕ) :
    (toNat xs).testBit j = bit xs j := by
  induction xs generalizing j with
  | nil => simp [toNat]
  | cons x xs ih =>
    rw [toNat, Nat.add_comm, Nat.testBit_two_pow_mul_add _ x.isLt]
    by_cases hj : j < w
    · rw [if_pos hj, bit_cons_of_lt _ _ hj, BitVec.testBit_toNat]
    · rw [if_neg hj, bit_cons_of_le hw _ _ (Nat.not_lt.mp hj), ih]

theorem toNat_lt (xs : List (BitVec w)) : toNat xs < 2 ^ (w * xs.length) := by
  induction xs with
  | nil => simp [toNat]
  | cons x xs ih =>
    calc
      toNat (x :: xs) < 2 ^ w + 2 ^ w * toNat xs := Nat.add_lt_add_right x.isLt _
      _ = 2 ^ w * (toNat xs + 1) := by ring
      _ ≤ 2 ^ w * 2 ^ (w * xs.length) := Nat.mul_le_mul_left _ ih
      _ = 2 ^ (w * (x :: xs).length) := by
        rw [← pow_add, List.length_cons]
        ring_nf

/-- Moving every bit up by `n` multiplies by `2 ^ n`, less what leaves the words. -/
theorem toNat_of_moved (hw : 0 < w) {xs ys : List (BitVec w)} (n : ℕ)
    (hlen : ys.length = xs.length)
    (hmoved : ∀ j < w * xs.length, bit ys j = (decide (n ≤ j) && bit xs (j - n))) :
    toNat ys = toNat xs * 2 ^ n % 2 ^ (w * xs.length) := by
  apply Nat.eq_of_testBit_eq
  intro j
  rw [Nat.testBit_mod_two_pow, Nat.testBit_mul_two_pow, testBit_toNat hw]
  by_cases hj : j < w * xs.length
  · rw [testBit_toNat hw, hmoved j hj, decide_eq_true hj, Bool.true_and]
  · have hout : toNat ys < 2 ^ j := by
      have hlt := toNat_lt ys
      rw [hlen] at hlt
      exact hlt.trans_le (Nat.pow_le_pow_right (by decide) (Nat.not_lt.mp hj))
    rw [← testBit_toNat hw, Nat.testBit_lt_two_pow hout, decide_eq_false hj, Bool.false_and]

end Words
end GravitalTalk
