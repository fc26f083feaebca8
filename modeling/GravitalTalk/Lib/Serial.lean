import Mathlib.Tactic
import Mathlib.Data.UInt

/-!
# Serial numbers modulo `2 ^ 32`

Sequence numbers wrap, so their order is only meaningful through the forward
distance from one to another. Everything below is stated about that distance,
a natural number below `2 ^ 32`, which linear arithmetic can then finish.
-/
namespace GravitalTalk.Serial

/-- How many steps `a` is ahead of `b`. -/
def ahead (a b : UInt32) : ℕ := (a - b).toNat

theorem ahead_lt (a b : UInt32) : ahead a b < 2 ^ 32 := (a - b).toNat_lt

@[simp] theorem ahead_self (a : UInt32) : ahead a a = 0 := by simp [ahead]

theorem ahead_eq_zero {a b : UInt32} : ahead a b = 0 ↔ a = b := by
  rw [ahead, ← UInt32.toNat_inj, UInt32.toNat_sub]
  have ha := a.toNat_lt
  have hb := b.toNat_lt
  omega

/-- Going there and back is a whole turn, unless nothing was moved. -/
theorem ahead_swap (a b : UInt32) (h : a ≠ b) : ahead a b + ahead b a = 2 ^ 32 := by
  have hne : a.toNat ≠ b.toNat := fun he => h (UInt32.toNat_inj.mp he)
  have ha := a.toNat_lt
  have hb := b.toNat_lt
  simp only [ahead, UInt32.toNat_sub]
  omega

/-- Distances add up modulo one turn. -/
theorem ahead_trans (a b c : UInt32) : ahead a c = (ahead a b + ahead b c) % 2 ^ 32 := by
  have ha := a.toNat_lt
  have hb := b.toNat_lt
  have hc := c.toNat_lt
  simp only [ahead, UInt32.toNat_sub]
  omega

/-- Moving the reference forward brings what is ahead nearer. -/
theorem ahead_add_right {a b : UInt32} {n : ℕ} (h : n ≤ ahead a b) :
    ahead a (b + UInt32.ofNat n) = ahead a b - n := by
  have ha := a.toNat_lt
  have hb := b.toNat_lt
  have hn : n % 2 ^ 32 = n := Nat.mod_eq_of_lt (h.trans_lt (ahead_lt a b))
  simp only [ahead, UInt32.toNat_sub, UInt32.toNat_add, UInt32.toNat_ofNat', hn] at h ⊢
  omega

theorem sub_lt_iff (a b c : UInt32) : a - b < c ↔ ahead a b < c.toNat :=
  UInt32.lt_iff_toNat_lt

end GravitalTalk.Serial
