import GravitalTalk.Core.Metrics

/-!
# The jitter estimate on any clock

`record` reads both timestamps of a sample as signed words, subtracts them, and
subtracts the difference of the sample before. The differences are compared
here with the exact ones, over whole sequences of samples: where no exact
difference leaves the signed range, and none is the smallest value, which
stands for "no sample", the estimate follows the deviations between
neighbouring samples.
-/
namespace GravitalTalk
namespace JitterEstimator

/-- The send and the receive timestamp given to one call. -/
abbrev Sample := UInt64 × UInt64

/-- The exact difference of the two timestamps, both read as signed words. -/
def offset (s : Sample) : ℤ := s.2.toInt64.toInt - s.1.toInt64.toInt

/-- A value of `i64`. -/
def Fits (x : ℤ) : Prop := -2 ^ 63 ≤ x ∧ x < 2 ^ 63

instance (x : ℤ) : Decidable (Fits x) := inferInstanceAs (Decidable (_ ∧ _))

theorem Fits.bmod {x : ℤ} (h : Fits x) : x.bmod (2 ^ 64) = x := by
  obtain ⟨hlow, hhigh⟩ := h
  exact Int.bmod_eq_of_le (by omega) (by omega)

/-- The state after recording the samples in order. -/
def run (samples : List Sample) : JitterEstimator :=
  samples.foldl (fun e s => e.record s.1 s.2) new

@[simp] theorem run_nil : run [] = new := rfl

@[simp] theorem run_concat (before : List Sample) (s : Sample) :
    run (before ++ [s]) = (run before).record s.1 s.2 := by
  simp [run]

/-- Neither subtraction of `record` overflows: the one of the timestamps, and, past the
first sample, the one of the stored difference. -/
def Exact (e : JitterEstimator) (s : Sample) : Prop :=
  Fits (offset s) ∧ (e.prevDiffUs ≠ Int64.minValue →
    Fits ((s.2.toInt64 - s.1.toInt64).toInt - e.prevDiffUs.toInt))

/-- The largest deviation between neighbouring samples. -/
def largest : List Sample → ℕ
  | a :: b :: rest => max (offset b - offset a).natAbs (largest (b :: rest))
  | _ => 0

/-- What one call owes: its subtractions are exact, what it stores is not the mark for
"no sample", and the estimate is bounded by the deviations so far. -/
def Sound (before : List Sample) (s : Sample) : Prop :=
  (run before).Exact s ∧
  (run (before ++ [s])).prevDiffUs ≠ Int64.minValue ∧
  (run (before ++ [s])).jitterUs.toNat ≤ largest (before ++ [s])

/-- Two differences one after the other, close enough to be subtracted. -/
def Close (a b : Sample) : Prop := Fits (offset b - offset a)

/-- Every difference is a word other than the smallest, and neighbours are close. -/
structure Tame (samples : List Sample) : Prop where
  offsets : ∀ s ∈ samples, -2 ^ 63 < offset s ∧ offset s < 2 ^ 63
  close : samples.IsChain Close

@[simp] theorem tame_nil : Tame [] := ⟨by simp, by simp⟩

theorem tame_concat {before : List Sample} {s : Sample} :
    Tame (before ++ [s]) ↔ Tame before ∧ (-2 ^ 63 < offset s ∧ offset s < 2 ^ 63) ∧
      ∀ a ∈ before.getLast?, Close a s := by
  constructor
  · rintro ⟨hoffsets, hclose⟩
    obtain ⟨hbefore, -, hlast⟩ := List.isChain_append.mp hclose
    refine ⟨⟨fun t ht => hoffsets t (by simp [ht]), hbefore⟩, hoffsets s (by simp), ?_⟩
    intro a ha
    exact hlast a ha s (by simp)
  · rintro ⟨⟨hoffsets, hclose⟩, hs, hlast⟩
    refine ⟨?_, List.isChain_append.mpr ⟨hclose, by simp, by simpa using hlast⟩⟩
    intro t ht
    rcases List.mem_append.mp ht with ht | ht
    · exact hoffsets t ht
    · rw [List.mem_singleton.mp ht]
      exact hs

theorem largest_concat (xs : List Sample) (a b : Sample) :
    largest (xs ++ [a] ++ [b]) = max (largest (xs ++ [a])) (offset b - offset a).natAbs := by
  induction xs with
  | nil => simp [largest]
  | cons x xs ih =>
    obtain ⟨y, ys, hys⟩ : ∃ y ys, xs ++ [a] = y :: ys :=
      List.exists_cons_of_ne_nil (by simp)
    rw [hys] at ih
    simp only [List.cons_append] at ih ⊢
    rw [show xs ++ [a] ++ [b] = y :: (ys ++ [b]) by rw [hys]; rfl, hys, largest, largest, ih,
      max_assoc]

/-- The filter moves the estimate towards the deviation, never past it. -/
theorem filter_le (j d : ℕ) :
    (if j < d then j + (d - j) / 16 else j - (j - d) / 16) ≤ max j d := by
  split <;> omega

theorem offset_eq {s : Sample} (h : Fits (offset s)) :
    (s.2.toInt64 - s.1.toInt64).toInt = offset s := by
  rw [Int64.toInt_sub]
  exact h.bmod

theorem record_first {e : JitterEstimator} {s : Sample} (h : e.prevDiffUs = Int64.minValue) :
    e.record s.1 s.2 = { e with prevDiffUs := s.2.toInt64 - s.1.toInt64 } := by
  rw [record, if_pos h]

theorem record_prevDiffUs (e : JitterEstimator) (s : Sample) :
    (e.record s.1 s.2).prevDiffUs = s.2.toInt64 - s.1.toInt64 := by
  unfold record
  split <;> rfl

/-- Past the first sample the new estimate is bounded by the old one and the deviation. -/
theorem record_jitterUs {e : JitterEstimator} {s : Sample} (h : e.prevDiffUs ≠ Int64.minValue)
    (hfits : Fits ((s.2.toInt64 - s.1.toInt64).toInt - e.prevDiffUs.toInt)) :
    (e.record s.1 s.2).jitterUs.toNat ≤
      max e.jitterUs.toNat ((s.2.toInt64 - s.1.toInt64).toInt - e.prevDiffUs.toInt).natAbs := by
  have hd : ((s.2.toInt64 - s.1.toInt64) - e.prevDiffUs).toInt =
      (s.2.toInt64 - s.1.toInt64).toInt - e.prevDiffUs.toInt := by
    rw [Int64.toInt_sub]
    exact hfits.bmod
  have hfilter := filter_le e.jitterUs.toNat
    ((s.2.toInt64 - s.1.toInt64).toInt - e.prevDiffUs.toInt).natAbs
  simp only [record, if_neg h, hd]
  refine le_trans ?_ hfilter
  rw [UInt32.toNat_ofNat']
  exact (Nat.mod_le _ _).trans (min_le_left _ _)

/-- After tame samples the stored difference is the exact one of the last sample. -/
structure Follows (e : JitterEstimator) (samples : List Sample) : Prop where
  start : samples = [] → e.prevDiffUs = Int64.minValue
  stored : ∀ a ∈ samples.getLast?, e.prevDiffUs.toInt = offset a
  bounded : e.jitterUs.toNat ≤ largest samples

theorem follows_nil : new.Follows [] := ⟨fun _ => rfl, by simp, by simp [new, largest]⟩

theorem ne_minValue_iff {x : Int64} : x ≠ Int64.minValue ↔ -2 ^ 63 < x.toInt := by
  have hle := x.le_toInt
  rw [Ne, ← Int64.toInt_inj, Int64.toInt_minValue]
  omega

theorem record_follows {e : JitterEstimator} {before : List Sample} {s : Sample}
    (h : e.Follows before) (ht : Tame (before ++ [s])) :
    (e.record s.1 s.2).Follows (before ++ [s]) := by
  obtain ⟨hbefore, hs, hclose⟩ := tame_concat.mp ht
  have hoffset := offset_eq (s := s) ⟨hs.1.le, hs.2⟩
  refine ⟨by simp, ?_, ?_⟩
  · intro a ha
    obtain rfl : s = a := by simpa using ha
    rw [record_prevDiffUs, hoffset]
  · rcases List.eq_nil_or_concat before with rfl | ⟨rest, a, rfl⟩
    · rw [record_first (h.start rfl)]
      simpa [largest] using h.bounded
    · have hprev : e.prevDiffUs.toInt = offset a := h.stored a (by simp)
      have hmark : e.prevDiffUs ≠ Int64.minValue := by
        rw [ne_minValue_iff, hprev]
        exact (hbefore.offsets a (by simp)).1
      have hnext := record_jitterUs (s := s) hmark (by
        rw [hoffset, hprev]
        exact hclose a (by simp))
      rw [hoffset, hprev] at hnext
      have hbounded := h.bounded
      rw [List.concat_eq_append] at hbounded ⊢
      rw [largest_concat]
      exact hnext.trans (max_le_max_right _ hbounded)

theorem run_follows {samples : List Sample} (h : Tame samples) :
    (run samples).Follows samples := by
  induction samples using List.reverseRecOn with
  | nil => exact follows_nil
  | append_singleton before s ih =>
    rw [run_concat]
    exact record_follows (ih (tame_concat.mp h).1) h

/-- After tame samples a call is sound exactly when it leaves the samples tame. -/
theorem sound_iff {before : List Sample} {s : Sample} (h : Tame before) :
    Sound before s ↔ Tame (before ++ [s]) := by
  have hfollows := run_follows h
  constructor
  · rintro ⟨⟨hfits, hsecond⟩, hmark, -⟩
    have hoffset := offset_eq hfits
    rw [run_concat, record_prevDiffUs, ne_minValue_iff, hoffset] at hmark
    refine tame_concat.mpr ⟨h, ⟨hmark, hfits.2⟩, ?_⟩
    intro a ha
    have hprev := hfollows.stored a ha
    have hne : (run before).prevDiffUs ≠ Int64.minValue := by
      rw [ne_minValue_iff, hprev]
      exact (h.offsets a (List.mem_of_getLast? ha)).1
    have hclose := hsecond hne
    rwa [hoffset, hprev] at hclose
  · intro ht
    obtain ⟨-, hs, hclose⟩ := tame_concat.mp ht
    have hoffset := offset_eq (s := s) ⟨hs.1.le, hs.2⟩
    have hafter := run_follows ht
    refine ⟨⟨⟨hs.1.le, hs.2⟩, ?_⟩, ?_, hafter.bounded⟩
    · intro hne
      rcases List.eq_nil_or_concat before with rfl | ⟨rest, a, rfl⟩
      · exact absurd (hfollows.start rfl) hne
      · rw [hoffset, hfollows.stored a (by simp)]
        exact hclose a (by simp)
    · rw [run_concat, record_prevDiffUs, ne_minValue_iff, hoffset]
      exact hs.1

/-- Every call of a sequence is sound exactly when the samples are tame. -/
theorem sound_on_tame_clocks (samples : List Sample) :
    (∀ before s after, samples = before ++ s :: after → Sound before s) ↔ Tame samples := by
  induction samples using List.reverseRecOn with
  | nil => simp
  | append_singleton xs x ih =>
    constructor
    · intro h
      have hxs : Tame xs := ih.mp fun before s after heq =>
        h before s (after ++ [x]) (by simp [heq])
      exact (sound_iff hxs).mp (h xs x [] rfl)
    · intro h before s after heq
      have hxs := (tame_concat.mp h).1
      rcases List.eq_nil_or_concat after with rfl | ⟨rest, y, rfl⟩
      · obtain ⟨rfl, hx⟩ := List.append_inj' heq rfl
        obtain rfl := List.singleton_inj.mp hx
        exact (sound_iff hxs).mpr h
      · refine ih.mpr hxs before s rest ?_
        have hsplit : xs ++ [x] = (before ++ s :: rest) ++ [y] := by simpa using heq
        exact (List.append_inj' hsplit rfl).1

/-- A peer whose clock reads `2 ^ 63`: the first subtraction leaves the signed range. -/
theorem overflow_on_foreign_clock : ¬ Sound [] (0x8000000000000000, 1000) := by
  rintro ⟨⟨⟨-, hoverflow⟩, -⟩, -⟩
  exact absurd hoverflow (by decide)

/-- Clocks below `2 ^ 62` are tame. -/
theorem tame_of_small {samples : List Sample}
    (h : ∀ s ∈ samples, s.1.toNat < 2 ^ 62 ∧ s.2.toNat < 2 ^ 62) : Tame samples := by
  have hsmall : ∀ s ∈ samples, -2 ^ 62 < offset s ∧ offset s < 2 ^ 62 := by
    intro s hs
    obtain ⟨hsend, hrecv⟩ := h s hs
    have hval : ∀ x : UInt64, x.toNat < 2 ^ 62 → x.toInt64.toInt = x.toNat := by
      intro x hx
      rw [Int64.toInt, UInt64.toBitVec_toInt64, BitVec.toInt_eq_toNat_bmod, UInt64.toNat_toBitVec]
      exact Fits.bmod ⟨by omega, by omega⟩
    rw [offset, hval _ hsend, hval _ hrecv]
    omega
  refine ⟨fun s hs => by have := hsmall s hs; omega, ?_⟩
  refine List.Pairwise.isChain (List.pairwise_of_forall_mem_list ?_)
  intro a ha b hb
  have := hsmall a ha
  have := hsmall b hb
  unfold Close Fits
  omega

end JitterEstimator
end GravitalTalk
