import GravitalTalk.Lib.Run
import Mathlib.Data.List.GetD
import Mathlib.Tactic

/-!
# The playout queue

`voice.rs` of the audio crate: samples wait in a queue between whoever pushes
voice and the sound card. `push` trims the queue when it exceeds its bound; `mix`
adds a tone to what waits and appends what is left of it, without a trim.

`render` interpolates between samples in floating point. How many samples it
takes for an output frame follows from that position, and is an input here.
-/
namespace GravitalTalk

def playoutPrefillMs : ℕ := 30
def playoutMaxMs : ℕ := 120

/-- `i16::saturating_add`. -/
def saturatingAdd16 (x y : Int16) : Int16 :=
  Int16.ofInt (max (-2 ^ 15) (min (x.toInt + y.toInt) (2 ^ 15 - 1)))

@[simp] theorem saturatingAdd16_zero (x : Int16) : saturatingAdd16 x 0 = x := by
  have hlow := x.le_toInt
  have hhigh := x.toInt_lt
  have hzero : (0 : Int16).toInt = 0 := rfl
  have hclamp : max (-2 ^ 15) (min (x.toInt + (0 : Int16).toInt) (2 ^ 15 - 1)) = x.toInt := by
    rw [hzero]
    omega
  rw [saturatingAdd16, hclamp, Int16.ofInt_toInt]

/-- The cushion that fills before the sound starts, and the most that waits. -/
structure PlayoutLimits where
  prefill : ℕ
  max : ℕ
  prefill_le : prefill ≤ max

/-- The limits that `VoicePlayback::start` sets. -/
def PlayoutLimits.ofRate (sampleRate : UInt32) : PlayoutLimits where
  prefill := sampleRate.toNat / 1000 * playoutPrefillMs
  max := sampleRate.toNat / 1000 * playoutMaxMs
  prefill_le := Nat.mul_le_mul_left _ (by decide)

structure PlayoutQueue (limits : PlayoutLimits) where
  samples : List Int16
  primed : Bool
  deriving DecidableEq, Repr

namespace PlayoutQueue

variable {limits : PlayoutLimits}

/-- The queue that `VoicePlayback::start` shares. -/
def new (limits : PlayoutLimits) : PlayoutQueue limits := ⟨[], false⟩

/-- `VoicePlayback::push`. -/
def push (q : PlayoutQueue limits) (mono : List Int16) : PlayoutQueue limits :=
  let samples := q.samples ++ mono
  if limits.max < samples.length then
    { q with samples := samples.drop (samples.length - limits.prefill) }
  else { q with samples := samples }

/-- `PlayoutMixer::mix`. -/
def mix (q : PlayoutQueue limits) (mono : List Int16) : PlayoutQueue limits :=
  let overlap := min mono.length q.samples.length
  { q with
    samples := List.zipWith saturatingAdd16 q.samples (mono.take overlap) ++
      q.samples.drop overlap ++ mono.drop overlap
    primed := true }

/-- One `pop_front` of `render`, after which an empty queue fills its cushion again. -/
def pop (q : PlayoutQueue limits) : PlayoutQueue limits :=
  match q.samples with
  | [] => { q with primed := false }
  | _ :: rest => { q with samples := rest }

/-- One output frame of `render`, which takes so many samples. -/
def renderFrame (q : PlayoutQueue limits) (pops : ℕ) : PlayoutQueue limits :=
  if q.primed then pop^[pops] q else q

def render (q : PlayoutQueue limits) (frames : List ℕ) : PlayoutQueue limits :=
  frames.foldl renderFrame
    { q with primed := q.primed || decide (limits.prefill ≤ q.samples.length) }

inductive Op
  | push (mono : List Int16)
  | mix (mono : List Int16)
  | render (frames : List ℕ)
  deriving DecidableEq, Repr

def step (q : PlayoutQueue limits) : Op → PlayoutQueue limits
  | .push mono => q.push mono
  | .mix mono => q.mix mono
  | .render frames => q.render frames

/-! ## The bound -/

def Bounded (q : PlayoutQueue limits) : Prop := q.samples.length ≤ limits.max

/-- A tone of the operation, if it mixes one, fits in the whole queue. -/
def Op.Fits (limits : PlayoutLimits) : Op → Prop
  | .mix mono => mono.length ≤ limits.max
  | _ => True

theorem length_mix (q : PlayoutQueue limits) (mono : List Int16) :
    (q.mix mono).samples.length = max q.samples.length mono.length := by
  simp only [mix, List.length_append, List.length_zipWith, List.length_take, List.length_drop]
  omega

theorem bounded_push {q : PlayoutQueue limits} (mono : List Int16) : (q.push mono).Bounded := by
  simp only [push, Bounded]
  split_ifs with h
  · have := limits.prefill_le
    simp only [List.length_drop]
    omega
  · exact Nat.le_of_not_lt h

theorem length_pop_le (q : PlayoutQueue limits) : q.pop.samples.length ≤ q.samples.length := by
  unfold pop
  split
  · exact le_rfl
  · rename_i h
    simp [h]

theorem length_renderFrame_le (q : PlayoutQueue limits) (pops : ℕ) :
    (q.renderFrame pops).samples.length ≤ q.samples.length := by
  unfold renderFrame
  split_ifs
  · induction pops with
    | zero => exact le_rfl
    | succ k ih =>
      rw [Function.iterate_succ_apply']
      exact (length_pop_le _).trans ih
  · exact le_rfl

theorem length_render_le (q : PlayoutQueue limits) (frames : List ℕ) :
    (q.render frames).samples.length ≤ q.samples.length := by
  unfold render
  induction frames using List.reverseRecOn with
  | nil => exact le_rfl
  | append_singleton frames pops ih =>
    rw [List.foldl_append]
    exact (length_renderFrame_le _ _).trans ih

/-- A step from within the bound stays there exactly when a tone it mixes fits. -/
theorem bounded_step_iff {q : PlayoutQueue limits} (h : q.Bounded) (op : Op) :
    (q.step op).Bounded ↔ op.Fits limits := by
  cases op with
  | push mono => exact iff_of_true (bounded_push mono) trivial
  | mix mono =>
    change (q.mix mono).samples.length ≤ limits.max ↔ _
    rw [length_mix, max_le_iff]
    exact and_iff_right h
  | render frames => exact iff_of_true ((length_render_le q frames).trans h) trivial

/-- After every operation of a run the queue is within its bound exactly when every tone
fits. -/
theorem bounded_run (ops : List Op) :
    (∀ done, done <+: ops → (done.foldl step (new limits)).Bounded) ↔
      ∀ op ∈ ops, op.Fits limits := by
  have hnew : (new limits).Bounded := Nat.zero_le _
  exact (Run.stays_iff_along hnew fun _ op h => bounded_step_iff h op).trans Run.along_labels

/-! ## Tones and voice -/

/-- How many samples play before a block of voice at the back of the queue. -/
def distance (q : PlayoutQueue limits) (voice : List Int16) : ℕ :=
  q.samples.length - voice.length

/-- The bound does not interfere when the block is pushed after the tone. -/
def Clear (q : PlayoutQueue limits) (tone voice : List Int16) : Prop :=
  max q.samples.length tone.length + voice.length ≤ limits.max

instance (q : PlayoutQueue limits) (tone voice : List Int16) : Decidable (q.Clear tone voice) :=
  inferInstanceAs (Decidable (_ ≤ _))

/-- A tone leaves the distance of the voice behind it as it is, and is added to what was
queued. -/
structure Transparent (q : PlayoutQueue limits) (tone voice : List Int16) : Prop where
  distance : voice ≠ [] →
    ((q.mix tone).push voice).distance voice = (q.push voice).distance voice
  added : ∀ i (hi : i < q.samples.length),
    ((q.mix tone).push voice).samples[i]? =
      some (saturatingAdd16 (q.samples[i]) (tone.getD i 0))

theorem push_samples {q : PlayoutQueue limits} {voice : List Int16}
    (h : q.samples.length + voice.length ≤ limits.max) :
    (q.push voice).samples = q.samples ++ voice := by
  have hfits : ¬ limits.max < (q.samples ++ voice).length := by
    rw [List.length_append]
    omega
  rw [push, if_neg hfits]

theorem distance_push {q : PlayoutQueue limits} {voice : List Int16}
    (h : q.samples.length + voice.length ≤ limits.max) :
    (q.push voice).distance voice = q.samples.length ∧
      (q.push voice).samples.drop ((q.push voice).distance voice) = voice := by
  have hdistance : (q.push voice).distance voice = q.samples.length := by
    rw [distance, push_samples h, List.length_append, Nat.add_sub_cancel]
  rw [hdistance, push_samples h, List.drop_left]
  exact ⟨rfl, rfl⟩

theorem mix_getElem? (q : PlayoutQueue limits) (tone : List Int16) {i : ℕ}
    (hi : i < q.samples.length) :
    (q.mix tone).samples[i]? = some (saturatingAdd16 (q.samples[i]) (tone.getD i 0)) := by
  have hzip : (List.zipWith saturatingAdd16 q.samples
      (tone.take (min tone.length q.samples.length))).length =
        min tone.length q.samples.length := by
    rw [List.length_zipWith, List.length_take]
    omega
  change (List.zipWith saturatingAdd16 q.samples (tone.take (min tone.length q.samples.length)) ++
    q.samples.drop (min tone.length q.samples.length) ++
    tone.drop (min tone.length q.samples.length))[i]? = _
  by_cases htone : i < tone.length
  · rw [List.append_assoc, List.getElem?_append_left (by omega), List.getElem?_zipWith,
      List.getElem?_take_of_lt (by omega), List.getElem?_eq_getElem hi,
      List.getElem?_eq_getElem htone, List.getD_eq_getElem _ _ htone]
  · rw [List.getElem?_append_left (by rw [List.length_append, hzip, List.length_drop]; omega),
      List.getElem?_append_right (by omega), hzip, List.getElem?_drop,
      List.getD_eq_default _ _ (by omega), saturatingAdd16_zero, ← List.getElem?_eq_getElem hi]
    congr 1
    omega

/-- Where the bound does not interfere, a tone is transparent exactly when it is no longer
than the queue, or when no voice follows. -/
theorem transparent_iff {q : PlayoutQueue limits} {tone voice : List Int16}
    (h : q.Clear tone voice) :
    q.Transparent tone voice ↔ tone.length ≤ q.samples.length ∨ voice = [] := by
  unfold Clear at h
  have hmixed : (q.mix tone).samples.length + voice.length ≤ limits.max := by
    rwa [length_mix]
  have hplain : q.samples.length + voice.length ≤ limits.max :=
    (Nat.add_le_add_right (le_max_left _ _) _).trans h
  have hsame : ((q.mix tone).push voice).distance voice = (q.push voice).distance voice ↔
      tone.length ≤ q.samples.length := by
    rw [(distance_push hmixed).1, (distance_push hplain).1, length_mix]
    exact max_eq_left_iff
  constructor
  · intro htransparent
    by_cases hvoice : voice = []
    · exact .inr hvoice
    · exact .inl (hsame.mp (htransparent.distance hvoice))
  · intro hcase
    refine ⟨fun hvoice => hsame.mpr (hcase.resolve_right hvoice), ?_⟩
    intro i hi
    have hfront : i < (q.mix tone).samples.length := by
      rw [length_mix]
      exact lt_of_lt_of_le hi (le_max_left _ _)
    rw [push_samples hmixed, List.getElem?_append_left hfront, mix_getElem? q tone hi]

/-- The queue stays within its bound over a run exactly when every tone fits in it, and a tone
is transparent to the voice behind it exactly when it is no longer than what waits. -/
theorem bounded_and_transparent (limits : PlayoutLimits) :
    (∀ ops : List Op, (∀ done, done <+: ops → (done.foldl step (new limits)).Bounded) ↔
      ∀ op ∈ ops, op.Fits limits) ∧
    ∀ (q : PlayoutQueue limits) (tone voice : List Int16), q.Clear tone voice →
      (q.Transparent tone voice ↔ tone.length ≤ q.samples.length ∨ voice = []) :=
  ⟨bounded_run, fun _ _ _ h => transparent_iff h⟩

/-- At 48 kHz: a tone of two samples over three that wait. -/
theorem tone_over_voice :
    (⟨[100, 100, 32767], true⟩ : PlayoutQueue (.ofRate 48000)).Transparent [5, -5] [100] :=
  ((bounded_and_transparent (.ofRate 48000)).2 ⟨[100, 100, 32767], true⟩ [5, -5] [100]
    (by decide +kernel)).mpr (.inl (by decide))

/-- At 48 kHz: a tone of 121 ms on an empty queue exceeds the bound, and voice pushed after a
tone of two samples on an empty queue waits for the tone. -/
theorem tone_delays_voice :
    ¬ ((new (.ofRate 48000)).mix (List.replicate 5808 1)).Bounded ∧
      (new (.ofRate 48000)).Clear [5, -5] [100] ∧
      ¬ (new (.ofRate 48000)).Transparent [5, -5] [100] := by
  have hclear : (new (.ofRate 48000)).Clear [5, -5] [100] := by
    decide +kernel
  refine ⟨?_, hclear, ?_⟩
  · rw [Bounded, length_mix, List.length_replicate]
    decide +kernel
  · rw [transparent_iff hclear]
    decide +kernel

end PlayoutQueue
end GravitalTalk
