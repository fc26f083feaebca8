import GravitalTalk.Lib.Words
import GravitalTalk.Transport.Replay

/-!
# The shift as a multiplication

The words of the bitmap, the lowest first, are one number of 4096 bits, and
`shift_left` multiplies it by a power of two.
-/
namespace GravitalTalk
namespace ReplayWindow

def number (w : ReplayWindow) : ℕ := Words.toNat w.bitmap.toList

theorem length_words (w : ReplayWindow) : w.bitmap.toList.length = bitmapWords := by
  simp

theorem isMarked_eq_bit (w : ReplayWindow) (j : ℕ) : w.isMarked j = Words.bit w.bitmap.toList j := by
  rw [isMarked_eq, Bitmap.word, Words.bit, Vector.getElem?_toList]

/-- A bit is set after the shift when it was set `n` places below, and the
number is multiplied by `2 ^ n` modulo `2 ^ 4096`. -/
theorem shiftLeft_multiplies (w : ReplayWindow) (n : ℕ) :
    (∀ j < window, (w.shiftLeft n).isMarked j = true ↔ n ≤ j ∧ w.isMarked (j - n) = true) ∧
      (w.shiftLeft n).number = w.number * 2 ^ n % 2 ^ window := by
  constructor
  · intro j hj
    rw [isMarked_shiftLeft w n hj, Bool.and_eq_true, decide_eq_true_iff]
  · have hsize : 64 * w.bitmap.toList.length = window := by
      rw [length_words]
      rfl
    have hlen : (w.shiftLeft n).bitmap.toList.length = w.bitmap.toList.length := by
      rw [length_words, length_words]
    rw [number, number, ← hsize]
    apply Words.toNat_of_moved (by decide) n hlen
    intro j hj
    rw [hsize] at hj
    rw [← isMarked_eq_bit, ← isMarked_eq_bit, isMarked_shiftLeft w n hj]

end ReplayWindow
end GravitalTalk
