import GravitalTalk.Session.LossFree

/-!
# Which configurations build a session

`Session::new` hands the depth of the jitter buffer and the range of bitrates to
constructors with assertions of their own. The depth comes from `jitter_slots`,
which rounds up to a power of two and never down to the largest ring; the lower
end of the range is a constant and the upper one is what the caller asked for.
-/

namespace GravitalTalk

/-! ## Rounding up to a power of two -/

section NextPowerOfTwo

-- The library has no lemma on the least power of two; its loop is reached here.
open private Nat.nextPowerOfTwo.go from Init.Data.Nat.Power2.Basic

theorem nextPowerOfTwo_go_le_iff (n p : ℕ) (h : 0 < p) {j k : ℕ} (hp : p = 2 ^ j) :
    Nat.nextPowerOfTwo.go n p h ≤ 2 ^ k ↔ n ≤ 2 ^ k ∧ p ≤ 2 ^ k := by
  induction hd : n - p using Nat.strong_induction_on generalizing p j with
  | _ d ih =>
  rw [Nat.nextPowerOfTwo.go]
  split_ifs with hlt
  · rw [ih (n - p * 2) (by omega) (p * 2) (by omega) (j := j + 1)
      (by rw [hp, pow_succ]) rfl]
    constructor
    · rintro ⟨hn, hdouble⟩
      exact ⟨hn, by omega⟩
    · rintro ⟨hn, -⟩
      have hjk : j < k := by
        refine (Nat.pow_lt_pow_iff_right one_lt_two).mp ?_
        rw [← hp]
        exact lt_of_lt_of_le hlt hn
      refine ⟨hn, ?_⟩
      calc p * 2 = 2 ^ (j + 1) := by rw [hp, pow_succ]
        _ ≤ 2 ^ k := Nat.pow_le_pow_right (by norm_num) hjk
  · exact ⟨fun hk => ⟨by omega, hk⟩, fun hk => hk.2⟩

/-- The power of two above `n` is the least one. -/
theorem nextPowerOfTwo_le_iff (n k : ℕ) : n.nextPowerOfTwo ≤ 2 ^ k ↔ n ≤ 2 ^ k := by
  rw [Nat.nextPowerOfTwo, nextPowerOfTwo_go_le_iff n 1 _ (pow_zero 2).symm]
  exact and_iff_left Nat.one_le_two_pow

end NextPowerOfTwo

theorem jitterSlots_isPowerOfTwo (bufferMs : UInt16) (frameMs : UInt8) :
    (jitterSlots bufferMs frameMs).isPowerOfTwo := by
  unfold jitterSlots
  rcases max_choice (max (bufferMs.toNat / max frameMs.toNat 1) 1).nextPowerOfTwo 16 with h | h
  · rw [h]
    exact Nat.isPowerOfTwo_nextPowerOfTwo _
  · rw [h]
    exact ⟨4, rfl⟩

/-- The ring is small enough exactly when the frames in the buffer time are. -/
theorem jitterSlots_le_iff (bufferMs : UInt16) (frameMs : UInt8) :
    jitterSlots bufferMs frameMs ≤ 2048 ↔ bufferMs.toNat / max frameMs.toNat 1 ≤ 2048 := by
  have hround := nextPowerOfTwo_le_iff (max (bufferMs.toNat / max frameMs.toNat 1) 1) 11
  unfold jitterSlots
  rw [max_le_iff]
  constructor
  · intro h
    exact (le_max_left _ 1).trans (hround.mp h.1)
  · intro h
    exact ⟨hround.mpr (max_le h (by norm_num)), by norm_num⟩

/-! ## Building -/

namespace CongestionController

/-- `clamp` of the standard library, which asserts that the range is not empty. -/
def checkedClamp (lo hi x : UInt32) : Option UInt32 :=
  if lo ≤ hi then some (clamp lo hi x) else none

end CongestionController

namespace Session

open CongestionController

/-- Building a session from the configuration goes through: the slot count is accepted by the
jitter buffer and the range by the congestion controller, no clamp of the controller fails
later, and the bitrate stays in the range whatever is fed to it. -/
structure Total (cfg : Config) : Prop where
  slots : cfg.jitterSlots.isPowerOfTwo ∧ (JitterBuffer.new cfg.jitterSlots).isSome
  range : (CongestionController.new cfg.maxBitrate congestionMinBitrate cfg.maxBitrate).isSome
  clamps : ∀ bitrate, (checkedClamp congestionMinBitrate cfg.maxBitrate bitrate).isSome
  builds : ∀ probeNonce, (new cfg probeNonce).isSome
  feeds : ∀ probeNonce s, new cfg probeNonce = some s →
    ∀ feeds : List Feed, (feeds.foldl feed s.congestion).InRange

theorem constructible_iff (cfg : Config) : Constructible cfg ↔
    congestionMinBitrate ≤ cfg.maxBitrate ∧
      cfg.jitterBufferMs.toNat / max cfg.frameDurationMs.toNat 1 ≤ 2048 := by
  have hpower : cfg.jitterSlots.isPowerOfTwo := jitterSlots_isPowerOfTwo _ _
  rw [Constructible, and_iff_right hpower, and_comm]
  exact and_congr_right fun _ => jitterSlots_le_iff _ _

theorem total_of_constructible {cfg : Config} (h : Constructible cfg) : Total cfg := by
  obtain ⟨hslots, hrange⟩ := h
  refine ⟨⟨hslots.1, ?_⟩, ?_, ?_, ?_, ?_⟩
  · rw [JitterBuffer.new, if_pos hslots]
    rfl
  · rw [CongestionController.new, if_pos hrange]
    rfl
  · intro bitrate
    rw [checkedClamp, if_pos hrange]
    rfl
  · intro probeNonce
    rw [new_eq, if_pos ⟨hslots, hrange⟩]
    rfl
  · intro probeNonce s hs feeds
    rw [eq_initial_of_new hs]
    induction feeds using List.reverseRecOn with
    | nil => exact ⟨hrange, UInt32.le_refl _⟩
    | append_singleton feeds x _ =>
      rw [List.foldl_append]
      exact inRange_feed hrange _ x

/-- A configuration builds a session, with all that follows, exactly when its bitrate reaches
the constant minimum and the buffer time holds at most 2048 frames. -/
theorem construction_total (cfg : Config) : Total cfg ↔
    congestionMinBitrate ≤ cfg.maxBitrate ∧
      cfg.jitterBufferMs.toNat / max cfg.frameDurationMs.toNat 1 ≤ 2048 := by
  rw [← constructible_iff]
  constructor
  · intro h
    have hbuilds := h.builds (Vector.replicate 8 0)
    rw [new_eq] at hbuilds
    by_contra hno
    rw [if_neg hno] at hbuilds
    cases hbuilds
  · exact total_of_constructible

/-- The default configuration with a bitrate of 6000, and with a buffer of 65535 ms of
one-millisecond frames. -/
theorem construction_panics :
    new { Config.default with maxBitrate := 6000 } (Vector.replicate 8 0) = none ∧
      new { Config.default with frameDurationMs := 1, jitterBufferMs := 65535 }
        (Vector.replicate 8 0) = none := by
  have hlow : ¬ Constructible { Config.default with maxBitrate := 6000 } := by
    rw [constructible_iff]
    decide
  have hlong : ¬ Constructible { Config.default with
      frameDurationMs := 1, jitterBufferMs := 65535 } := by
    rw [constructible_iff]
    decide
  rw [new_eq, new_eq, if_neg hlow, if_neg hlong]
  exact ⟨rfl, rfl⟩

end Session
end GravitalTalk
