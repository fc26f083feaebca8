import GravitalTalk.Core.LossWindow
import GravitalTalk.Session.Receive

/-!
# A stream without loss

What the loss window shows of a stream that comes complete and in order, and what the
congestion controller makes of it when `check_liveness` feeds it the loss.
-/
namespace GravitalTalk

namespace CongestionController

variable {lo hi : UInt32} {c : CongestionController lo hi}

/-- What changes a controller. -/
inductive Feed
  | update (lost rttUs : ℕ)
  | setBitrate (bitrate : UInt32)
  | reset
  deriving DecidableEq, Repr

def feed (c : CongestionController lo hi) : Feed → CongestionController lo hi
  | .update lost rttUs => c.update lost rttUs
  | .setBitrate bitrate => c.setBitrate bitrate
  | .reset => c.reset

/-- A controller as a program can have it. -/
def Reached (c : CongestionController lo hi) : Prop :=
  ∃ (initial : UInt32) (feeds : List Feed), (new initial lo hi).map (feeds.foldl feed) = some c

def InRange (c : CongestionController lo hi) : Prop :=
  lo ≤ c.currentBitrate ∧ c.currentBitrate ≤ hi

theorem clamp_mem (hle : lo ≤ hi) (x : UInt32) : lo ≤ clamp lo hi x ∧ clamp lo hi x ≤ hi := by
  unfold clamp
  split_ifs with hlow hhigh
  · exact ⟨UInt32.le_refl lo, hle⟩
  · exact ⟨hle, UInt32.le_refl hi⟩
  · exact ⟨UInt32.not_lt.mp hlow, UInt32.not_lt.mp hhigh⟩

theorem inRange_feed (hle : lo ≤ hi) (c : CongestionController lo hi) (x : Feed) :
    (c.feed x).InRange := by
  cases x with
  | update lost rttUs => exact clamp_mem hle _
  | setBitrate bitrate => exact clamp_mem hle _
  | reset => exact ⟨hle, UInt32.le_refl hi⟩

theorem Reached.inRange (h : Reached c) : lo ≤ hi ∧ c.InRange := by
  obtain ⟨initial, feeds, hc⟩ := h
  unfold new at hc
  split_ifs at hc with hle
  · refine ⟨hle, ?_⟩
    obtain rfl : feeds.foldl feed ⟨clamp lo hi initial⟩ = c := Option.some.inj hc
    induction feeds using List.reverseRecOn with
    | nil => exact clamp_mem hle initial
    | append_singleton feeds x _ =>
      rw [List.foldl_append]
      exact inRange_feed hle _ x
  · cases hc

/-- At a low round-trip time an update lowers the bitrate when more than three packets of the
window are missing, down to the minimum. -/
theorem update_lt_iff (hle : lo ≤ hi) (h : c.InRange) {lost rttUs : ℕ}
    (hrtt : rttUs ≤ rttThresholdUs) :
    (c.update lost rttUs).currentBitrate < c.currentBitrate ↔ 3 < lost ∧ lo < c.currentBitrate := by
  obtain ⟨hlow, hhigh⟩ := h
  have hlt := c.currentBitrate.toNat_lt
  have hmax := hi.toNat_lt
  simp only [UInt32.le_iff_toNat_le, UInt32.lt_iff_toNat_lt] at *
  by_cases hlost : 3 < lost
  · have hnext : (UInt32.ofNat (c.currentBitrate.toNat * 17 / 20)).toNat =
        c.currentBitrate.toNat * 17 / 20 :=
      UInt32.toNat_ofNat_of_lt' (by rw [UInt32.size]; omega)
    simp only [update, hlost, if_true, clamp, UInt32.lt_iff_toNat_lt, hnext, true_and]
    split_ifs with hbelow habove
    · rfl
    · omega
    · rw [hnext]
      omega
  · have hnext : (saturatingAdd c.currentBitrate congestionAimdIncrement).toNat =
        min (c.currentBitrate.toNat + 2000) (2 ^ 32 - 1) :=
      UInt32.toNat_ofNat_of_lt' (by
        rw [UInt32.size]
        have hinc : congestionAimdIncrement.toNat = 2000 := rfl
        omega)
    simp only [update, hlost, if_false, Nat.not_lt.mpr hrtt, clamp, UInt32.lt_iff_toNat_lt, hnext,
      false_and, iff_false]
    split_ifs with hbelow habove
    · omega
    · omega
    · rw [hnext]
      omega

end CongestionController

namespace LossTracker

open Serial

/-- `n` sequence numbers from `start` on. -/
def consecutive (start : UInt32) (n : ℕ) : List UInt32 :=
  (List.range n).map fun i => start + UInt32.ofNat i

theorem consecutive_succ (start : UInt32) (n : ℕ) :
    consecutive start (n + 1) = consecutive start n ++ [start + UInt32.ofNat n] := by
  simp [consecutive, List.range_succ]

theorem ahead_next (start : UInt32) (n : ℕ) :
    ahead (start + UInt32.ofNat (n + 1)) (start + UInt32.ofNat n) = 1 := by
  have hstart := start.toNat_lt
  simp only [ahead, UInt32.toNat_sub, UInt32.toNat_add, UInt32.toNat_ofNat']
  omega

/-- The window after some packets of the stream: they are its low bits. -/
theorem run_consecutive (start : UInt32) (n : ℕ) :
    let t := run (consecutive start (n + 1))
    t.initialised = true ∧ t.highSeq = start + UInt32.ofNat n ∧
      ∀ i < 64, t.isSet i = decide (i < n + 1) := by
  induction n with
  | zero =>
    refine ⟨rfl, rfl, fun i _ => ?_⟩
    exact (testBit_one i).trans (decide_eq_decide.mpr (by omega))
  | succ n ih =>
    intro t
    obtain ⟨hinit, hhigh, hbits⟩ := ih
    have hnext := ahead_next start n
    have ht : t = (run (consecutive start (n + 1))).record (start + UInt32.ofNat (n + 1)) := by
      unfold t
      rw [consecutive_succ start (n + 1), run_concat]
    rcases record_cases hinit (start + UInt32.ofNat (n + 1)) with
      ⟨hsame, -⟩ | ⟨-, -, hr⟩ | ⟨hback, -⟩
    · rw [hhigh] at hsame
      rw [hsame, ahead_self] at hnext
      cases hnext
    · rw [hhigh, hnext] at hr
      rw [ht, hr]
      refine ⟨hinit, rfl, fun i hi => ?_⟩
      refine (testBit_shiftLeft_or_one _ (by decide) hi).trans ?_
      cases i with
      | zero => simp
      | succ i =>
        have hold : (run (consecutive start (n + 1))).bitmap.toNat.testBit i = decide (i < n + 1) :=
          hbits i (by omega)
        have hone : min 1 lossWindowSize = 1 := rfl
        simp [hone, hold]
    · rw [hhigh, hnext] at hback
      omega

theorem length_filter_lt_range (m n : ℕ) :
    ((List.range m).filter fun i => decide (i < n)).length = min m n := by
  induction m with
  | zero => simp
  | succ m ih =>
    rw [List.range_succ, List.filter_append, List.length_append, ih]
    by_cases h : m < n
    · simp [h]
      omega
    · simp [h]
      omega

/-- As long as the window is not full, what did not come yet counts as lost. -/
theorem lost_consecutive (start : UInt32) {n : ℕ} (hn : 1 ≤ n) :
    (run (consecutive start n)).lost = 64 - n := by
  obtain ⟨n, rfl⟩ := Nat.exists_eq_add_of_le' hn
  obtain ⟨hinit, -, hbits⟩ := run_consecutive start n
  have hfilter : ((List.range 64).filter fun i =>
      (run (consecutive start (n + 1))).bitmap.toNat.testBit i) =
        (List.range 64).filter fun i => decide (i < n + 1) :=
    List.filter_congr fun i hi => hbits i (List.mem_range.mp hi)
  rw [lost, hinit, hfilter, length_filter_lt_range, lossWindowSize]
  simp only [Bool.not_true, Bool.false_eq_true, if_false]
  omega

end LossTracker

open LossTracker

/-- Every packet of the window is there from the sixty-fourth on; and until the sixty-first a check
of a live session with a low round-trip time lowers the bitrate, down to the minimum. -/
theorem loss_free (start : UInt32) (n : ℕ) (hn : 1 ≤ n) :
    let t := LossTracker.run (consecutive start n)
    let Lowers {cfg : Config} (s : Session cfg) (env : Env) : Prop :=
      (s.checkLiveness env).2.congestion.currentBitrate < s.congestion.currentBitrate
    let Checked {cfg : Config} (s : Session cfg) (env : Env) : Prop :=
      s.media.loss = t ∧ s.congestion.Reached ∧
        (s.rtt.currentUs.getD 0).toNat ≤ rttThresholdUs ∧ s.heartbeatExpired env = false
    ((t.lost = 0 ∧ ∀ (cfg : Config) (s : Session cfg) (env : Env), Checked s env → ¬Lowers s env) ↔
      64 ≤ n) ∧
    ∀ (cfg : Config) (s : Session cfg) (env : Env), Checked s env →
      (Lowers s env ↔ n < 61 ∧ congestionMinBitrate < s.congestion.currentBitrate) := by
  intro t Lowers Checked
  have hlost : t.lost = 64 - n := lost_consecutive start hn
  have hlowers (cfg : Config) (s : Session cfg) (env : Env) (h : Checked s env) :
      Lowers s env ↔ n < 61 ∧ congestionMinBitrate < s.congestion.currentBitrate := by
    obtain ⟨hloss, hreached, hrtt, hlive⟩ := h
    obtain ⟨hle, hrange⟩ := hreached.inRange
    have hcheck : (s.checkLiveness env).2.congestion =
        s.congestion.update t.lost (s.rtt.currentUs.getD 0).toNat := by
      rw [Session.checkLiveness, hlive, hloss]
      rfl
    have hfew : 3 < t.lost ↔ n < 61 := by omega
    simp only [Lowers]
    rw [hcheck, CongestionController.update_lt_iff hle hrange hrtt, hfew]
  refine ⟨?_, hlowers⟩
  constructor
  · rintro ⟨hzero, -⟩
    omega
  · intro hfull
    refine ⟨by omega, fun cfg s env h hfalls => ?_⟩
    have hshort := ((hlowers cfg s env h).mp hfalls).1
    omega

/-- A session of the default configuration in which `n` packets came. -/
def listening (n : ℕ) : Session Config.default :=
  let s := Session.initial Config.default (Vector.replicate 8 0)
  { s with media := { s.media with loss := LossTracker.run (consecutive 7 n) } }

theorem checked_listening (n : ℕ) (env : Env) :
    (listening n).media.loss = LossTracker.run (consecutive 7 n) ∧
      (listening n).congestion.Reached ∧
      ((listening n).rtt.currentUs.getD 0).toNat ≤ rttThresholdUs ∧
      (listening n).heartbeatExpired env = false :=
  ⟨rfl, ⟨64000, [], rfl⟩, Nat.zero_le _, rfl⟩

/-- After seventy packets nothing is lost and the bitrate stays. -/
theorem loss_free_full :
    (LossTracker.run (consecutive 7 70)).lost = 0 ∧
      ∀ env : Env, ¬((listening 70).checkLiveness env).2.congestion.currentBitrate <
        (listening 70).congestion.currentBitrate := by
  have h := (loss_free 7 70 (by decide)).1.mpr (by decide)
  exact ⟨h.1, fun env => h.2 _ (listening 70) env (checked_listening 70 env)⟩

/-- After the first packet the window shows sixty-three lost ones, and the bitrate falls. -/
theorem loss_free_short :
    (LossTracker.run [7]).lost = 63 ∧ ∀ env : Env,
      ((listening 1).checkLiveness env).2.congestion.currentBitrate = 54400 ∧
        (listening 1).congestion.currentBitrate = 64000 := by
  have hlost : (LossTracker.run (consecutive 7 1)).lost = 63 := by decide
  refine ⟨hlost, fun env => ⟨?_, rfl⟩⟩
  obtain ⟨-, -, -, hlive⟩ := checked_listening 1 env
  rw [Session.checkLiveness, hlive]
  change ((listening 1).congestion.update (LossTracker.run (consecutive 7 1)).lost 0).currentBitrate =
    54400
  rw [hlost]
  decide

end GravitalTalk
