import GravitalTalk.Lib.Serial

/-!
# Anti-replay window

`replay.rs`: a bitmap of 64 words slides over `u32` sequences. Bit `0` stands
for the newest sequence `highest`, bit `k` for the one `k` steps behind it, and
moving `highest` forward shifts the whole bitmap to the left in place.
-/
namespace GravitalTalk

open Serial

def bitmapWords : ℕ := 64

/-- Sequences covered by the window. -/
def window : ℕ := bitmapWords * 64

abbrev Bitmap := Vector (BitVec 64) bitmapWords

/-- `word` of the bitmap; the callers below never leave the array. -/
def Bitmap.word (b : Bitmap) (i : ℕ) : BitVec 64 := b[i]?.getD 0

def Bitmap.zero : Bitmap := Vector.replicate bitmapWords 0

structure ReplayWindow where
  highest : UInt32
  initialized : Bool
  bitmap : Bitmap
  deriving DecidableEq, Repr

namespace ReplayWindow

def new : ReplayWindow := ⟨0, false, Bitmap.zero⟩

def mark (w : ReplayWindow) (age : ℕ) : ReplayWindow :=
  let marked := Bitmap.word w.bitmap (age / 64) ||| (1#64 <<< (age % 64))
  { w with bitmap := w.bitmap.setIfInBounds (age / 64) marked }

def isMarked (w : ReplayWindow) (age : ℕ) : Bool :=
  Bitmap.word w.bitmap (age / 64) &&& (1#64 <<< (age % 64)) != 0

/-- The new value of word `i`, read off words at or below `i`. -/
def shiftWord (words bits : ℕ) (b : Bitmap) (i : ℕ) : BitVec 64 :=
  let val := if words ≤ i then Bitmap.word b (i - words) else 0
  if bits = 0 then val
  else if words < i then (val <<< bits) ||| (Bitmap.word b (i - words - 1) >>> (64 - bits))
  else val <<< bits

/-- The in-place loop, from word `i - 1` down to word `0`. -/
def shiftLoop (words bits : ℕ) : ℕ → Bitmap → Bitmap
  | 0, b => b
  | i + 1, b => shiftLoop words bits i (b.setIfInBounds i (shiftWord words bits b i))

def shiftLeft (w : ReplayWindow) (n : ℕ) : ReplayWindow :=
  if n = 0 then w
  else if bitmapWords ≤ n / 64 then { w with bitmap := Bitmap.zero }
  else { w with bitmap := shiftLoop (n / 64) (n % 64) bitmapWords w.bitmap }

/-- `check_and_mark`: the verdict on `seq` and the window it leaves behind. -/
def checkAndMark (w : ReplayWindow) (seq : UInt32) : Bool × ReplayWindow :=
  if !w.initialized then
    (true, mark { w with initialized := true, highest := seq } 0)
  else
    let diff := seq - w.highest
    if diff = 0 then (false, w)
    else if diff < 0x80000000 then
      if window ≤ diff.toNat then
        (true, mark { w with bitmap := Bitmap.zero, highest := seq } 0)
      else
        (true, mark { w.shiftLeft diff.toNat with highest := seq } 0)
    else
      let age := (w.highest - seq).toNat
      if window ≤ age then (false, w) else (!w.isMarked age, w)

/-! ## Reading single bits -/

theorem and_bit_ne_zero (x : BitVec 64) {i : ℕ} (hi : i < 64) :
    (x &&& (1#64 <<< i) != 0) = x.getLsbD i := by
  rw [Bool.eq_iff_iff, bne_iff_ne, ne_eq, ← not_iff_not, not_not]
  constructor
  · intro h
    have := congrArg (BitVec.getLsbD · i) h
    simpa [hi] using this
  · intro h
    apply BitVec.eq_of_getLsbD_eq
    intro j hj
    by_cases hij : j = i
    · have hx : x.getLsbD i = false := by simpa using h
      simp [hij, hx]
    · simp only [BitVec.getLsbD_and, BitVec.getLsbD_shiftLeft, BitVec.getLsbD_one]
      have : ¬ (j - i = 0 ∧ ¬ j < i) := by omega
      grind

theorem isMarked_eq (w : ReplayWindow) (age : ℕ) :
    w.isMarked age = (Bitmap.word w.bitmap (age / 64)).getLsbD (age % 64) :=
  and_bit_ne_zero _ (Nat.mod_lt _ (by decide))

theorem word_set (b : Bitmap) {i : ℕ} (j : ℕ) (x : BitVec 64) (hi : i < bitmapWords) :
    Bitmap.word (b.setIfInBounds i x) j = if i = j then x else Bitmap.word b j := by
  unfold Bitmap.word
  rw [Vector.getElem?_setIfInBounds, if_pos hi]
  split <;> rfl

@[simp] theorem word_zero (i : ℕ) : Bitmap.word Bitmap.zero i = 0 := by
  rw [Bitmap.word, Bitmap.zero, Vector.getElem?_replicate]
  split <;> rfl

@[simp] theorem mark_highest (w : ReplayWindow) (age : ℕ) : (w.mark age).highest = w.highest := rfl

@[simp] theorem mark_initialized (w : ReplayWindow) (age : ℕ) :
    (w.mark age).initialized = w.initialized := rfl

/-- Marking sets one bit and keeps all others. -/
theorem isMarked_mark (w : ReplayWindow) {age : ℕ} (ha : age < window) (j : ℕ) :
    (w.mark age).isMarked j = (decide (j = age) || w.isMarked j) := by
  have hw : age / 64 < bitmapWords := by
    unfold window at ha
    omega
  simp only [isMarked_eq, mark, word_set _ _ _ hw]
  split_ifs with h
  · have hj : j % 64 < 64 := Nat.mod_lt _ (by decide)
    rw [← h, BitVec.getLsbD_or, BitVec.getLsbD_shiftLeft, BitVec.getLsbD_one, Bool.or_comm]
    congr 1
    simp only [hj, decide_true, Bool.true_and]
    by_cases hja : j = age
    · simp [hja]
    · simp [hja]
      omega
  · have hja : j ≠ age := fun he => h (by rw [he])
    simp [hja]

/-! ## The in-place shift -/

theorem shiftWord_congr (words bits : ℕ) {b b' : Bitmap} {j : ℕ}
    (h : ∀ k ≤ j, Bitmap.word b k = Bitmap.word b' k) :
    shiftWord words bits b j = shiftWord words bits b' j := by
  unfold shiftWord
  rw [h _ (Nat.sub_le _ _), h _ ((Nat.sub_le _ _).trans (Nat.sub_le _ _))]

/-- Going down, the loop only reads words it has not written yet, so each word
of the result is computed from the bitmap before the loop. -/
theorem word_shiftLoop (words bits : ℕ) {i : ℕ} (hi : i ≤ bitmapWords) (b : Bitmap) (j : ℕ) :
    Bitmap.word (shiftLoop words bits i b) j =
      if j < i then shiftWord words bits b j else Bitmap.word b j := by
  induction i generalizing b with
  | zero => simp [shiftLoop]
  | succ i ih =>
    have hi' : i < bitmapWords := hi
    rw [shiftLoop, ih hi'.le]
    by_cases hj : j < i
    · have hsame : ∀ k ≤ j, Bitmap.word (b.setIfInBounds i (shiftWord words bits b i)) k =
          Bitmap.word b k := by
        intro k hk
        rw [word_set _ _ _ hi', if_neg (by omega)]
      rw [if_pos hj, if_pos (Nat.lt_succ_of_lt hj)]
      exact shiftWord_congr words bits hsame
    · rw [if_neg hj, word_set _ _ _ hi']
      split_ifs with hij hlt hlt
      · rw [hij]
      · omega
      · omega
      · rfl

theorem getLsbD_shiftWord (b : Bitmap) (n j : ℕ) :
    (shiftWord (n / 64) (n % 64) b (j / 64)).getLsbD (j % 64) =
      (decide (n ≤ j) && (Bitmap.word b ((j - n) / 64)).getLsbD ((j - n) % 64)) := by
  have hj : j % 64 < 64 := Nat.mod_lt _ (by decide)
  unfold shiftWord
  by_cases hb : n % 64 = 0
  · by_cases hle : n / 64 ≤ j / 64
    · have hnj : n ≤ j := by omega
      have hd : (j - n) / 64 = j / 64 - n / 64 := by omega
      have hm : (j - n) % 64 = j % 64 := by omega
      simp [hb, hle, hnj, hd, hm]
    · have hnj : ¬ n ≤ j := by omega
      simp [hb, hle, hnj]
  · by_cases hlt : n / 64 < j / 64
    · have hnj : n ≤ j := by omega
      by_cases hc : j % 64 < n % 64
      · -- the bit comes out of the lower neighbour
        have hd : (j - n) / 64 = j / 64 - n / 64 - 1 := by omega
        have hm : (j - n) % 64 = 64 - n % 64 + j % 64 := by omega
        simp [hb, hlt, hlt.le, hnj, hd, hm, hc]
      · have hd : (j - n) / 64 = j / 64 - n / 64 := by omega
        have hm : (j - n) % 64 = j % 64 - n % 64 := by omega
        have hout : 64 ≤ 64 - n % 64 + j % 64 := by omega
        simp [hb, hlt, hlt.le, hnj, hd, hm, hc, hj, BitVec.getLsbD_of_ge _ _ hout]
        exact (BitVec.getLsbD_eq_getElem _).symm
    · by_cases he : n / 64 = j / 64
      · have hd : (j - n) / 64 = 0 := by omega
        by_cases hc : j % 64 < n % 64
        · have hnj : ¬ n ≤ j := by omega
          simp [hb, he, hc, hnj]
        · have hnj : n ≤ j := by omega
          have hm : (j - n) % 64 = j % 64 - n % 64 := by omega
          simp [hb, he, hc, hnj, hd, hm, hj]
          exact (BitVec.getLsbD_eq_getElem _).symm
      · have hle : ¬ n / 64 ≤ j / 64 := by omega
        have hnj : ¬ n ≤ j := by omega
        simp [hb, hlt, hle, hnj]

@[simp] theorem shiftLeft_highest (w : ReplayWindow) (n : ℕ) :
    (w.shiftLeft n).highest = w.highest := by
  unfold shiftLeft
  split_ifs <;> rfl

@[simp] theorem shiftLeft_initialized (w : ReplayWindow) (n : ℕ) :
    (w.shiftLeft n).initialized = w.initialized := by
  unfold shiftLeft
  split_ifs <;> rfl

/-- Shifting by `n` ages every mark by `n`; what leaves the window is lost. -/
theorem isMarked_shiftLeft (w : ReplayWindow) (n : ℕ) {j : ℕ} (hj : j < window) :
    (w.shiftLeft n).isMarked j = (decide (n ≤ j) && w.isMarked (j - n)) := by
  have hw : j / 64 < bitmapWords := by
    unfold window at hj
    omega
  unfold shiftLeft
  split_ifs with h0 hbig
  · simp [h0]
  · have hnj : ¬ n ≤ j := by omega
    simp [isMarked_eq, hnj]
  · simp only [isMarked_eq, word_shiftLoop _ _ le_rfl, if_pos hw, getLsbD_shiftWord]

/-! ## What one call does -/

/-- `seq` is behind `highest`: the branch that consults the bitmap. -/
def Late (w : ReplayWindow) (seq : UInt32) : Prop :=
  w.initialized = true ∧ 2 ^ 31 ≤ ahead seq w.highest

instance (w : ReplayWindow) (seq : UInt32) : Decidable (w.Late seq) :=
  inferInstanceAs (Decidable (_ ∧ _))

/-- The window after accepting `seq` as the new `highest`, from the bitmap `b`. -/
def advanced (b : Bitmap) (seq : UInt32) : ReplayWindow := mark ⟨seq, true, b⟩ 0

/-- All that a call can do: the window is replaced by one that starts at `seq`,
with no marks or with the old ones aged, or it stays as it was. -/
theorem checkAndMark_cases (w : ReplayWindow) (seq : UInt32) :
    (w.initialized = false ∧ w.checkAndMark seq = (true, advanced w.bitmap seq)) ∨
    (w.initialized = true ∧ seq = w.highest ∧ w.checkAndMark seq = (false, w)) ∨
    (w.initialized = true ∧ ahead seq w.highest < 2 ^ 31 ∧ window ≤ ahead seq w.highest ∧
      w.checkAndMark seq = (true, advanced Bitmap.zero seq)) ∨
    (w.initialized = true ∧ ahead seq w.highest < window ∧ seq ≠ w.highest ∧
      w.checkAndMark seq =
        (true, advanced (w.shiftLeft (ahead seq w.highest)).bitmap seq)) ∨
    (w.Late seq ∧ window ≤ ahead w.highest seq ∧ w.checkAndMark seq = (false, w)) ∨
    (w.Late seq ∧ ahead w.highest seq < window ∧
      w.checkAndMark seq = (!w.isMarked (ahead w.highest seq), w)) := by
  unfold checkAndMark
  by_cases hi : w.initialized = true
  · simp only [hi, Bool.not_true, Bool.false_eq_true, if_false]
    have hhalf : seq - w.highest < 0x80000000 ↔ ahead seq w.highest < 2 ^ 31 :=
      sub_lt_iff _ _ _
    by_cases h0 : seq - w.highest = 0
    · have he : seq = w.highest := ahead_eq_zero.mp (by rw [ahead, h0]; rfl)
      exact .inr (.inl ⟨trivial, he, if_pos h0⟩)
    rw [if_neg h0]
    by_cases hlt : ahead seq w.highest < 2 ^ 31
    · rw [if_pos (hhalf.mpr hlt)]
      by_cases hw : window ≤ ahead seq w.highest
      · exact .inr (.inr (.inl ⟨trivial, hlt, hw, if_pos hw⟩))
      · have hne : seq ≠ w.highest := fun he => h0 (by simp [he])
        refine .inr (.inr (.inr (.inl ⟨trivial, Nat.not_le.mp hw, hne, ?_⟩)))
        refine (if_neg hw).trans ?_
        rw [shiftLeft_initialized, hi]
        rfl
    · have hl : w.Late seq := ⟨hi, Nat.not_lt.mp hlt⟩
      rw [if_neg (mt hhalf.mp hlt)]
      by_cases hw : window ≤ ahead w.highest seq
      · exact .inr (.inr (.inr (.inr (.inl ⟨hl, hw, if_pos hw⟩))))
      · exact .inr (.inr (.inr (.inr (.inr ⟨hl, Nat.not_le.mp hw, if_neg hw⟩))))
  · simp only [Bool.not_eq_true] at hi
    exact .inl ⟨hi, by simp only [hi, Bool.not_false, if_true]; rfl⟩

theorem not_late_of_ahead_lt {w : ReplayWindow} {seq : UInt32}
    (h : ahead seq w.highest < 2 ^ 31) : ¬ w.Late seq := fun hl => by
  have := hl.2
  omega

/-- A late sequence leaves the window as it found it, whatever the verdict. -/
theorem checkAndMark_late {w : ReplayWindow} {seq : UInt32} (h : w.Late seq) :
    (w.checkAndMark seq).2 = w := by
  have hd := h.2
  rcases checkAndMark_cases w seq with ⟨hi, -⟩ | ⟨-, he, -⟩ | ⟨-, hlt, -⟩ | ⟨-, hlt, -⟩ |
    ⟨-, -, he⟩ | ⟨-, -, he⟩
  · simp [h.1] at hi
  · simp [he] at hd
  · exact absurd h (not_late_of_ahead_lt hlt)
  · exact absurd h (not_late_of_ahead_lt (hlt.trans (by decide)))
  · rw [he]
  · rw [he]

/-- The sequence `seq` was seen by the window, `age` steps behind `highest`:
inside the window its bit is set. -/
structure Seen (w : ReplayWindow) (seq : UInt32) (age : ℕ) : Prop where
  initialized : w.initialized = true
  age_eq : ahead w.highest seq = age
  marked : age < window → w.isMarked age = true

theorem seen_advanced (b : Bitmap) (seq : UInt32) : (advanced b seq).Seen seq 0 := by
  refine ⟨rfl, ahead_self seq, fun h0 => ?_⟩
  rw [advanced, isMarked_mark _ h0]
  simp

/-- Every accepting branch but the late one records the sequence it accepts. -/
theorem seen_of_accepted {w : ReplayWindow} {seq : UInt32}
    (h : (w.checkAndMark seq).1 = true) (hl : ¬ w.Late seq) :
    Seen (w.checkAndMark seq).2 seq 0 := by
  rcases checkAndMark_cases w seq with ⟨-, he⟩ | ⟨-, -, he⟩ | ⟨-, -, -, he⟩ | ⟨-, -, -, he⟩ |
    ⟨hl', -⟩ | ⟨hl', -⟩
  · rw [he]
    exact seen_advanced _ _
  · rw [he] at h
    exact Bool.noConfusion h
  · rw [he]
    exact seen_advanced _ _
  · rw [he]
    exact seen_advanced _ _
  · exact absurd hl' hl
  · exact absurd hl' hl

/-- A seen sequence is refused as long as `highest` is less than half a turn
ahead of it. -/
theorem Seen.refused {w : ReplayWindow} {seq : UInt32} {age : ℕ} (h : w.Seen seq age)
    (hage : age < 2 ^ 31) : (w.checkAndMark seq).1 = false := by
  have hback := h.age_eq
  have hturn := ahead_swap seq w.highest
  rcases checkAndMark_cases w seq with ⟨hi, -⟩ | ⟨-, -, he⟩ | ⟨-, hlt, hw, -⟩ | ⟨-, hlt, hne, -⟩ |
    ⟨-, -, he⟩ | ⟨-, hw, he⟩
  · simp [h.initialized] at hi
  · rw [he]
  · have hne : seq ≠ w.highest := by
      rintro rfl
      simp [window, bitmapWords] at hw
    have := hturn hne
    omega
  · have hsmall : window < 2 ^ 31 := by decide
    have := hturn hne
    omega
  · rw [he]
  · rw [he, hback, h.marked (hback ▸ hw)]
    rfl

/-- How far one call moves `highest` forward. -/
def advance (w : ReplayWindow) (seq : UInt32) : ℕ :=
  ahead (w.checkAndMark seq).2.highest w.highest

/-- Any other call ages a seen sequence by exactly the forward movement, and
keeps its mark while it stays inside the window. -/
theorem Seen.step {w : ReplayWindow} {seq : UInt32} {age : ℕ} (h : w.Seen seq age)
    (next : UInt32) (hage : age + w.advance next < 2 ^ 32) :
    Seen (w.checkAndMark next).2 seq (age + w.advance next) := by
  have htrans := ahead_trans next w.highest seq
  rw [h.age_eq] at htrans
  have hkeep : Seen w seq (age + ahead w.highest w.highest) := by simpa using h
  unfold advance at hage ⊢
  rcases checkAndMark_cases w next with ⟨hi, -⟩ | ⟨-, -, he⟩ | ⟨-, -, hw, he⟩ | ⟨-, -, -, he⟩ |
    ⟨-, -, he⟩ | ⟨-, -, he⟩
  · simp [h.initialized] at hi
  · rw [he]
    exact hkeep
  · rw [he] at hage ⊢
    change age + ahead next w.highest < 2 ^ 32 at hage
    change Seen _ seq (age + ahead next w.highest)
    refine ⟨rfl, ?_, fun hin => ?_⟩
    · change ahead next seq = _
      omega
    · omega
  · rw [he] at hage ⊢
    change age + ahead next w.highest < 2 ^ 32 at hage
    change Seen _ seq (age + ahead next w.highest)
    refine ⟨rfl, ?_, fun hin => ?_⟩
    · change ahead next seq = _
      omega
    · have hshift := isMarked_shiftLeft w (ahead next w.highest) hin
      rw [Nat.add_sub_cancel, h.marked (by omega)] at hshift
      rw [advanced, isMarked_mark _ (by decide)]
      change (_ || (w.shiftLeft (ahead next w.highest)).isMarked _) = true
      simp [hshift]
  · rw [he]
    exact hkeep
  · rw [he]
    exact hkeep

/-! ## Whole runs -/

/-- The window after a list of calls. -/
def run (w : ReplayWindow) (calls : List UInt32) : ReplayWindow :=
  calls.foldl (fun w seq => (w.checkAndMark seq).2) w

/-- Total forward movement of `highest` over a list of calls. -/
def forward (w : ReplayWindow) : List UInt32 → ℕ
  | [] => 0
  | seq :: rest => w.advance seq + (w.checkAndMark seq).2.forward rest

theorem Seen.run {w : ReplayWindow} {seq : UInt32} {age : ℕ} (h : w.Seen seq age)
    (calls : List UInt32) (hage : age + w.forward calls < 2 ^ 32) :
    Seen (w.run calls) seq (age + w.forward calls) := by
  induction calls generalizing w age with
  | nil => simpa [forward, ReplayWindow.run] using h
  | cons next rest ih =>
    simp only [forward] at hage ⊢
    have hstep := h.step next (by omega)
    rw [← Nat.add_assoc] at hage ⊢
    exact ih hstep hage

/-- Once accepted, a sequence is never accepted again (while `highest` moves
less than `2 ^ 31 - 4096`) exactly when it was not late on first acceptance:
the late branch answers `true` without recording the sequence. -/
theorem accepted_once_iff_not_late (before : List UInt32) (seq : UInt32)
    (h : ((new.run before).checkAndMark seq).1 = true) :
    (∀ between : List UInt32,
        ((new.run before).checkAndMark seq).2.forward between < 2 ^ 31 - window →
        ((((new.run before).checkAndMark seq).2.run between).checkAndMark seq).1 = false) ↔
      ¬ (new.run before).Late seq := by
  constructor
  · intro hall hlate
    have hfirst := hall [] (by simp [forward, window, bitmapWords])
    rw [checkAndMark_late hlate] at hfirst
    exact Bool.noConfusion (hfirst.symm.trans h)
  · intro hl between hfwd
    have hseen := (seen_of_accepted h hl).run between (by omega)
    exact hseen.refused (by omega)

/-- Sequence `11` is accepted after `10`, and not again after `12` and `9`. -/
theorem accepted_once_in_order :
    ((((new.run [10]).checkAndMark 11).2.run [12, 9]).checkAndMark 11).1 = false :=
  (accepted_once_iff_not_late [10] 11 (by decide)).mpr (by decide) [12, 9] (by decide)

/-- Sequence `5` arrives late after `10`, is accepted, and is accepted again. -/
theorem late_accepted_twice :
    ((new.run [10]).checkAndMark 5).1 = true ∧
      ((new.run [10]).checkAndMark 5).2.forward [] < 2 ^ 31 - window ∧
      ((((new.run [10]).checkAndMark 5).2.run []).checkAndMark 5).1 = true := by
  decide

end ReplayWindow
end GravitalTalk
