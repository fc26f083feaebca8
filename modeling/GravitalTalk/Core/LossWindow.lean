import GravitalTalk.Core.Metrics
import GravitalTalk.Lib.Run
import GravitalTalk.Lib.Serial
import Mathlib.Data.Finset.Card

/-!
# What the loss window says

`LossTracker::record` over any sequence numbers. The bitmap is read through the numbers
it stands for: a bit is the mark of a number some way behind the newest one. The window
is right as long as the newest number advances by less than its size.
-/
namespace GravitalTalk.LossTracker

open Serial

variable {t : LossTracker} {q s : UInt32} {calls : List UInt32}

/-- Bit `i` of the bitmap. -/
def isSet (t : LossTracker) (i : ℕ) : Bool := t.bitmap.toNat.testBit i

/-- `record` shifts the bitmap by all its bits, or negates the least difference. -/
def overflows (t : LossTracker) (sequence : UInt32) : Bool :=
  let diff := sequence - t.highSeq
  t.initialised &&
    (decide (0 < diff ∧ diff < 0x80000000 ∧ lossWindowSize ≤ min diff.toNat lossWindowSize) ||
      diff == 0x80000000)

/-- The tracker after these calls. -/
def run (calls : List UInt32) : LossTracker := calls.foldl record new

theorem run_concat (calls : List UInt32) (q : UInt32) :
    run (calls ++ [q]) = (run calls).record q := by
  simp [run]

/-! ## One call -/

theorem record_of_not_initialised (h : t.initialised = false) (q : UInt32) :
    t.record q = { t with highSeq := q, bitmap := 1, totalPackets := 1, initialised := true } := by
  simp [record, h]

/-- The three branches of a call on a tracker with samples. -/
theorem record_cases (h : t.initialised = true) (q : UInt32) :
    (q = t.highSeq ∧ t.record q = { t with totalPackets := t.totalPackets + 1 }) ∨
    (0 < ahead q t.highSeq ∧ ahead q t.highSeq < 2 ^ 31 ∧ t.record q =
      { t with
        bitmap := (t.bitmap <<< UInt64.ofNat (min (ahead q t.highSeq) lossWindowSize)) ||| 1
        highSeq := q
        totalPackets := t.totalPackets + 1 }) ∨
    (2 ^ 31 ≤ ahead q t.highSeq ∧ t.record q =
      { t with
        bitmap := if ahead t.highSeq q < lossWindowSize then
          t.bitmap ||| (1 <<< UInt64.ofNat (ahead t.highSeq q)) else t.bitmap
        reorderCount := t.reorderCount + 1
        totalPackets := t.totalPackets + 1 }) := by
  have hhalf : q - t.highSeq < 0x80000000 ↔ ahead q t.highSeq < 2 ^ 31 := sub_lt_iff _ _ _
  have hzero : q - t.highSeq = 0 ↔ q = t.highSeq := by
    rw [← ahead_eq_zero (a := q), ahead, ← UInt32.toNat_inj (a := q - t.highSeq), UInt32.toNat_zero]
  simp only [record, h, Bool.not_true, Bool.false_eq_true, if_false]
  by_cases heq : q = t.highSeq
  · exact .inl ⟨heq, by rw [if_pos (hzero.mpr heq)]⟩
  rw [if_neg (mt hzero.mp heq)]
  have hpos : 0 < ahead q t.highSeq := Nat.pos_of_ne_zero (mt ahead_eq_zero.mp heq)
  by_cases hlt : ahead q t.highSeq < 2 ^ 31
  · exact .inr (.inl ⟨hpos, hlt, by rw [if_pos (hhalf.mpr hlt)]; rfl⟩)
  · exact .inr (.inr ⟨Nat.not_lt.mp hlt, by rw [if_neg (mt hhalf.mp hlt)]; rfl⟩)

theorem overflows_iff : t.overflows q = true ↔
    t.initialised = true ∧ lossWindowSize ≤ ahead q t.highSeq ∧ ahead q t.highSeq ≤ 2 ^ 31 := by
  have hhalf : q - t.highSeq < 0x80000000 ↔ ahead q t.highSeq < 2 ^ 31 := sub_lt_iff _ _ _
  have hpos : 0 < q - t.highSeq ↔ 0 < ahead q t.highSeq := UInt32.lt_iff_toNat_lt
  have heq : q - t.highSeq = 0x80000000 ↔ ahead q t.highSeq = 2 ^ 31 := by
    rw [ahead, ← UInt32.toNat_inj]
    rfl
  have hdist : (q - t.highSeq).toNat = ahead q t.highSeq := rfl
  simp only [overflows, Bool.and_eq_true, Bool.or_eq_true, decide_eq_true_eq, beq_iff_eq, hhalf,
    hpos, heq, hdist]
  rw [lossWindowSize]
  constructor
  · rintro ⟨hinit, hshift | hleast⟩
    · exact ⟨hinit, by omega⟩
    · exact ⟨hinit, by omega⟩
  · rintro ⟨hinit, hle, hge⟩
    exact ⟨hinit, by omega⟩

/-- The mark of a sequence number in the window. -/
def Marks (t : LossTracker) (s : UInt32) : Prop :=
  ahead t.highSeq s < lossWindowSize ∧ t.isSet (ahead t.highSeq s) = true

theorem testBit_one (i : ℕ) : (1 : UInt64).toNat.testBit i = decide (i = 0) := by
  have hpow := Nat.testBit_two_pow (n := 0) (m := i)
  rw [pow_zero] at hpow
  have hone : (1 : UInt64).toNat = 1 := rfl
  rw [hone, hpow]
  exact decide_eq_decide.mpr eq_comm

theorem testBit_shiftLeft_or_one (b : UInt64) {d i : ℕ} (hd : d < 64) (hi : i < 64) :
    ((b <<< UInt64.ofNat d) ||| 1).toNat.testBit i = (decide (i = 0) || (decide (d ≤ i) &&
      b.toNat.testBit (i - d))) := by
  have hmod : (UInt64.ofNat d).toNat % 64 = d := by
    rw [UInt64.toNat_ofNat_of_lt' (by rw [UInt64.size]; omega), Nat.mod_eq_of_lt hd]
  rw [UInt64.toNat_or, UInt64.toNat_shiftLeft, hmod, Nat.testBit_or, Nat.testBit_mod_two_pow,
    Nat.testBit_shiftLeft, testBit_one, Bool.or_comm]
  simp [hi]

theorem testBit_or_shiftLeft (b : UInt64) {g i : ℕ} (hg : g < 64) (hi : i < 64) :
    (b ||| (1 <<< UInt64.ofNat g)).toNat.testBit i = (b.toNat.testBit i || decide (i = g)) := by
  have hmod : (UInt64.ofNat g).toNat % 64 = g := by
    rw [UInt64.toNat_ofNat_of_lt' (by rw [UInt64.size]; omega), Nat.mod_eq_of_lt hg]
  rw [UInt64.toNat_or, UInt64.toNat_shiftLeft, hmod, Nat.testBit_or, Nat.testBit_mod_two_pow,
    Nat.testBit_shiftLeft, testBit_one]
  simp only [hi, decide_true, Bool.true_and]
  congr 1
  rw [← Bool.decide_and]
  exact decide_eq_decide.mpr (by omega)

theorem record_initialised (t : LossTracker) (q : UInt32) : (t.record q).initialised = true := by
  cases h : t.initialised with
  | false => rw [record_of_not_initialised h]
  | true =>
    rcases record_cases h q with ⟨-, hr⟩ | ⟨-, -, hr⟩ | ⟨-, hr⟩
    · rw [hr, h]
    · rw [hr, h]
    · rw [hr, h]

theorem ahead_eq_zero_iff : ahead q s = 0 ↔ s = q := by
  rw [ahead_eq_zero, eq_comm]

/-- The window moves: the marks age by the distance, and the new number is the newest. -/
theorem marks_advanced (hpos : 0 < ahead q t.highSeq) (hsmall : ahead q t.highSeq < 64)
    (packets : UInt32) :
    Marks { t with
        bitmap := (t.bitmap <<< UInt64.ofNat (ahead q t.highSeq)) ||| 1
        highSeq := q
        totalPackets := packets } s ↔
      (s = q ∨ t.Marks s) ∧ ahead q s < lossWindowSize := by
  have hsize : lossWindowSize = 64 := rfl
  have htrans := ahead_trans q t.highSeq s
  have hlt := ahead_lt t.highSeq s
  simp only [Marks, isSet]
  by_cases hin : ahead q s < lossWindowSize
  · rw [testBit_shiftLeft_or_one _ hsmall (hsize ▸ hin)]
    simp only [hin, true_and, and_true, Bool.or_eq_true, decide_eq_true_eq, Bool.and_eq_true,
      ahead_eq_zero_iff]
    apply or_congr_right
    by_cases hold : ahead q t.highSeq ≤ ahead q s
    · have hage : ahead t.highSeq s = ahead q s - ahead q t.highSeq := by omega
      rw [hage]
      constructor
      · exact fun hbit => ⟨by omega, hbit.2⟩
      · exact fun hbit => ⟨hold, hbit.2⟩
    · exact iff_of_false (fun hbit => hold hbit.1) (fun hbit => by omega)
  · simp only [hin, false_and, and_false]

/-- A number from before the newest one: the window stays. -/
theorem marks_behind (hback : 2 ^ 31 ≤ ahead q t.highSeq) (reorders packets : UInt32) :
    Marks { t with
        bitmap := if ahead t.highSeq q < lossWindowSize then
          t.bitmap ||| (1 <<< UInt64.ofNat (ahead t.highSeq q)) else t.bitmap
        reorderCount := reorders
        totalPackets := packets } s ↔
      (s = q ∨ t.Marks s) ∧ ahead t.highSeq s < lossWindowSize := by
  have hsize : lossWindowSize = 64 := rfl
  have hgap : s = q ↔ ahead t.highSeq s = ahead t.highSeq q := by
    have hplace := ahead_trans t.highSeq q s
    have hmove := ahead_lt q s
    have hself : ahead q s = 0 ↔ s = q := ahead_eq_zero_iff
    have hback' := ahead_swap q t.highSeq (fun he => by
      rw [he, ahead_self] at hback
      omega)
    rw [← hself]
    omega
  simp only [Marks, isSet]
  by_cases hin : ahead t.highSeq s < lossWindowSize
  · simp only [hin, true_and, and_true]
    split_ifs with hplace
    · rw [testBit_or_shiftLeft _ (hsize ▸ hplace) (hsize ▸ hin)]
      simp only [Bool.or_eq_true, decide_eq_true_eq, hgap]
      exact or_comm
    · constructor
      · exact .inr
      · rintro (hsq | hbit)
        · have hsame := hgap.mp hsq
          omega
        · exact hbit
  · simp only [hin, false_and, and_false]

/-- After a call that does not overflow, the marks in the window are those from before and the one
of the call. -/
theorem marks_record (h : t.initialised = true) (hnewest : t.Marks t.highSeq)
    (hno : t.overflows q = false) :
    (t.record q).Marks s ↔
      (s = q ∨ t.Marks s) ∧ ahead (t.record q).highSeq s < lossWindowSize := by
  have hfits : ¬(lossWindowSize ≤ ahead q t.highSeq ∧ ahead q t.highSeq ≤ 2 ^ 31) := fun hbig => by
    rw [overflows_iff.mpr ⟨h, hbig⟩] at hno
    cases hno
  have hsize : lossWindowSize = 64 := rfl
  rcases record_cases h q with ⟨rfl, hr⟩ | ⟨hpos, hhalf, hr⟩ | ⟨hback, hr⟩
  · rw [hr]
    constructor
    · exact fun hm => ⟨.inr hm, hm.1⟩
    · rintro ⟨rfl | hm, -⟩
      · exact hnewest
      · exact hm
  · have hsmall : ahead q t.highSeq < 64 := by omega
    rw [hr, min_eq_left (by omega)]
    exact marks_advanced hpos hsmall _
  · rw [hr]
    exact marks_behind hback _ _

/-! ## Packets -/

/-- A run, with the packets of it. A packet is known by its place in the stream: its sequence
number and the turns of the counter before it. -/
structure Heard where
  tracker : LossTracker
  newest : ℤ
  packets : Finset ℤ

namespace Heard

def start : Heard := ⟨new, 0, ∅⟩

/-- Where a packet is that comes next. -/
def place (h : Heard) (q : UInt32) : ℤ :=
  if !h.tracker.initialised then 0
  else if ahead q h.tracker.highSeq < 2 ^ 31 then h.newest + ahead q h.tracker.highSeq
  else h.newest + ahead q h.tracker.highSeq - 2 ^ 32

def hear (h : Heard) (q : UInt32) : Heard :=
  ⟨h.tracker.record q, max h.newest (h.place q), insert (h.place q) h.packets⟩

end Heard

def heard (calls : List UInt32) : Heard := calls.foldl Heard.hear .start

theorem heard_concat (calls : List UInt32) (q : UInt32) :
    heard (calls ++ [q]) = (heard calls).hear q := by
  simp [heard]

theorem tracker_heard (calls : List UInt32) : (heard calls).tracker = run calls := by
  induction calls using List.reverseRecOn with
  | nil => rfl
  | append_singleton calls q ih => rw [heard_concat, run_concat, Heard.hear, ih]

/-- A number came, and the window has not moved past it since. -/
def Recorded (calls : List UInt32) (s : UInt32) : Prop :=
  ∃ before after, calls = before ++ s :: after ∧
    ∀ mid, mid <+: after → ahead (run (before ++ s :: mid)).highSeq s < lossWindowSize

/-- What `record` is for: nothing overflows, a bit of the bitmap says whether its number was
recorded, and the packets are counted once. -/
structure Exact (calls : List UInt32) : Prop where
  noOverflow : Run.Along record (fun t q => t.overflows q = false) new calls
  bits : ∀ i < lossWindowSize, (run calls).isSet i = true ↔
    Recorded calls ((run calls).highSeq - UInt32.ofNat i)
  total : (run calls).totalPackets.toNat = (heard calls).packets.card

/-- A packet less than a window ahead of the newest one, or less than half a turn behind it, that
did not come before; and the counter has room for it. -/
structure Fits (h : Heard) (q : UInt32) : Prop where
  gap : h.tracker.initialised = true →
    ahead q h.tracker.highSeq < lossWindowSize ∨ 2 ^ 31 < ahead q h.tracker.highSeq
  fresh : h.place q ∉ h.packets
  room : h.packets.card + 1 < 2 ^ 32

theorem recorded_concat : Recorded (calls ++ [q]) s ↔
    (s = q ∨ Recorded calls s) ∧ ahead (run (calls ++ [q])).highSeq s < lossWindowSize := by
  constructor
  · rintro ⟨before, after, hsplit, hin⟩
    have hlast := hin after (List.prefix_refl after)
    rw [← hsplit] at hlast
    refine ⟨?_, hlast⟩
    rcases List.eq_nil_or_concat after with rfl | ⟨after, x, rfl⟩
    · obtain ⟨-, hq⟩ := List.append_inj' hsplit rfl
      exact .inl (by simpa using hq.symm)
    · right
      rw [List.concat_eq_append, ← List.cons_append, ← List.append_assoc] at hsplit
      obtain ⟨hcalls, -⟩ := List.append_inj' hsplit rfl
      refine ⟨before, after, hcalls, fun mid hmid => hin mid ?_⟩
      rw [List.concat_eq_append]
      exact hmid.trans (List.prefix_append after [x])
  · rintro ⟨rfl | ⟨before, after, rfl, hin⟩, hlast⟩
    · refine ⟨calls, [], rfl, fun mid hmid => ?_⟩
      rw [List.prefix_nil.mp hmid]
      exact hlast
    · refine ⟨before, after ++ [q], by simp, fun mid hmid => ?_⟩
      rcases List.prefix_concat_iff.mp hmid with rfl | hmid
      · rw [List.append_assoc] at hlast
        exact hlast
      · exact hin mid hmid

theorem not_recorded_nil (s : UInt32) : ¬Recorded [] s := by
  rintro ⟨before, after, hsplit, -⟩
  simp at hsplit

theorem initialised_run (calls : List UInt32) :
    (run calls).initialised = !calls.isEmpty := by
  rcases List.eq_nil_or_concat calls with rfl | ⟨calls, q, rfl⟩
  · rfl
  · rw [List.concat_eq_append, run_concat, record_initialised]
    simp

/-- Every call counts. -/
theorem totalPackets_concat (calls : List UInt32) (q : UInt32) :
    (run (calls ++ [q])).totalPackets = (run calls).totalPackets + 1 := by
  rw [run_concat]
  cases h : (run calls).initialised with
  | false =>
    rw [initialised_run] at h
    obtain rfl : calls = [] := by simpa using h
    rfl
  | true =>
    rcases record_cases h q with ⟨-, hr⟩ | ⟨-, -, hr⟩ | ⟨-, hr⟩
    · rw [hr]
    · rw [hr]
    · rw [hr]

theorem highSeq_record (h : t.initialised = true) (q : UInt32) :
    (t.record q).highSeq = q ∨ (t.record q).highSeq = t.highSeq := by
  rcases record_cases h q with ⟨-, hr⟩ | ⟨-, -, hr⟩ | ⟨-, hr⟩
  · exact .inr (by rw [hr])
  · exact .inl (by rw [hr])
  · exact .inr (by rw [hr])

theorem marks_first (q s : UInt32) : (new.record q).Marks s ↔ s = q := by
  have hbit (i : ℕ) : (new.record q).isSet i = decide (i = 0) := testBit_one i
  have hhigh : (new.record q).highSeq = q := rfl
  rw [Marks, hbit, hhigh, decide_eq_true_eq, ahead_eq_zero]
  constructor
  · exact fun h => h.2.symm
  · rintro rfl
    exact ⟨by rw [ahead_self]; decide, rfl⟩

/-- As long as nothing overflows, the marks are the numbers recorded. -/
theorem marks_run (hno : Run.Along record (fun t q => t.overflows q = false) new calls)
    (hcalls : calls ≠ []) :
    (run calls).Marks (run calls).highSeq ∧ ∀ s, (run calls).Marks s ↔ Recorded calls s := by
  induction calls using List.reverseRecOn with
  | nil => exact absurd rfl hcalls
  | append_singleton calls q ih =>
    obtain ⟨hbefore, hlast⟩ := Run.along_append.mp hno
    rcases eq_or_ne calls [] with rfl | hne
    · refine ⟨(marks_first q _).mpr rfl, fun s => ?_⟩
      rw [recorded_concat]
      refine (marks_first q s).trans ⟨?_, ?_⟩
      · rintro rfl
        exact ⟨.inl rfl, (ahead_self s).trans_lt (by decide)⟩
      · rintro ⟨hs | hrec, -⟩
        · exact hs
        · exact absurd hrec (not_recorded_nil s)
    · obtain ⟨hnewest, hmarks⟩ := ih hbefore hne
      have hinit : (run calls).initialised = true := by
        rw [initialised_run]
        simpa using hne
      have hstep (s : UInt32) := marks_record (s := s) hinit hnewest hlast.1
      rw [run_concat]
      constructor
      · refine (hstep _).mpr ⟨?_, (ahead_self _).trans_lt (by decide)⟩
        rcases highSeq_record hinit q with hq | hkept
        · exact .inl hq
        · exact .inr (hkept ▸ hnewest)
      · intro s
        rw [hstep s, recorded_concat, hmarks s, run_concat]

theorem ahead_sub_ofNat (high : UInt32) {i : ℕ} (hi : i < lossWindowSize) :
    ahead high (high - UInt32.ofNat i) = i := by
  have hlt : i < 2 ^ 32 := hi.trans (by decide)
  have hhigh := high.toNat_lt
  rw [ahead, UInt32.toNat_sub, UInt32.toNat_sub, UInt32.toNat_ofNat', Nat.mod_eq_of_lt hlt]
  omega

theorem bits_run (hno : Run.Along record (fun t q => t.overflows q = false) new calls) {i : ℕ}
    (hi : i < lossWindowSize) :
    (run calls).isSet i = true ↔ Recorded calls ((run calls).highSeq - UInt32.ofNat i) := by
  rcases eq_or_ne calls [] with rfl | hne
  · refine iff_of_false ?_ (not_recorded_nil _)
    simp [run, new, isSet]
  · rw [← (marks_run hno hne).2, Marks, ahead_sub_ofNat _ hi]
    exact ⟨fun h => ⟨hi, h⟩, fun h => h.2⟩

/-- What `record` is for survives a packet exactly when it fits. -/
theorem exact_concat (h : Exact calls) (q : UInt32) :
    Exact (calls ++ [q]) ↔ Fits (heard calls) q := by
  have hover : (run calls).overflows q = false ↔ ((heard calls).tracker.initialised = true →
      ahead q (heard calls).tracker.highSeq < lossWindowSize ∨
        2 ^ 31 < ahead q (heard calls).tracker.highSeq) := by
    rw [← Bool.not_eq_true, overflows_iff, tracker_heard, not_and, not_and_or, not_le, not_le]
  have hsum : (run (calls ++ [q])).totalPackets.toNat =
      ((heard calls).packets.card + 1) % 2 ^ 32 := by
    rw [totalPackets_concat, UInt32.toNat_add, h.total]
    rfl
  have hroom := (run calls).totalPackets.toNat_lt
  rw [h.total] at hroom
  have hpackets : (heard (calls ++ [q])).packets =
      insert ((heard calls).place q) (heard calls).packets := by
    rw [heard_concat]
    rfl
  constructor
  · intro hexact
    have htotal := hexact.total
    rw [hsum, hpackets] at htotal
    have hfresh : (heard calls).place q ∉ (heard calls).packets := fun hmem => by
      rw [Finset.insert_eq_of_mem hmem] at htotal
      omega
    rw [Finset.card_insert_of_notMem hfresh] at htotal
    refine ⟨hover.mp (Run.along_append.mp hexact.noOverflow).2.1, hfresh, ?_⟩
    omega
  · intro hfits
    have hno : Run.Along record (fun t q => t.overflows q = false) new (calls ++ [q]) :=
      Run.along_append.mpr ⟨h.noOverflow, hover.mpr hfits.gap, trivial⟩
    refine ⟨hno, fun i hi => bits_run hno hi, ?_⟩
    rw [hsum, hpackets, Finset.card_insert_of_notMem hfits.fresh, Nat.mod_eq_of_lt hfits.room]

theorem exact_nil : Exact [] := by
  have hno : Run.Along record (fun t q => t.overflows q = false) new [] := trivial
  exact ⟨hno, fun _ hi => bits_run hno hi, rfl⟩

/-- Over a whole run the window and the count are right exactly when every packet fits. -/
theorem exact_iff (calls : List UInt32) :
    (∀ done, done <+: calls → Exact done) ↔ Run.Along Heard.hear Fits .start calls := by
  induction calls using List.reverseRecOn with
  | nil =>
    refine iff_of_true (fun done hdone => ?_) trivial
    rw [List.prefix_nil.mp hdone]
    exact exact_nil
  | append_singleton calls q ih =>
    rw [Run.along_append, ← ih]
    constructor
    · intro h
      have hcalls : ∀ done, done <+: calls → Exact done := fun done hdone =>
        h done (hdone.trans (List.prefix_append calls [q]))
      have hlast := h (calls ++ [q]) (List.prefix_refl _)
      exact ⟨hcalls, (exact_concat (hcalls calls (List.prefix_refl _)) q).mp hlast, trivial⟩
    · rintro ⟨hcalls, hfits, -⟩ done hdone
      rcases List.prefix_concat_iff.mp hdone with rfl | hdone
      · exact (exact_concat (hcalls calls (List.prefix_refl _)) q).mpr hfits
      · exact hcalls done hdone


/-- A jump of the whole window shifts by all the bits of the word, and in a release build leaves the
old marks in place; the least difference cannot be negated; and a packet that comes twice counts
twice. -/
theorem exact_broken :
    ((run [0, 1]).overflows 65 = true ∧ (run [0, 1, 65]).isSet 1 = true ∧
      (64 : UInt32) ∉ [0, 1, 65]) ∧
    (run [0]).overflows 0x80000000 = true ∧
    ((run [5, 5]).totalPackets = 2 ∧ (heard [5, 5]).packets = {0}) ∧
    ¬(Exact [0, 1, 65] ∨ Exact [0, 0x80000000] ∨ Exact [5, 5]) := by
  have hjump : (run [0, 1]).overflows 65 = true := by decide
  have hleast : (run [0]).overflows 0x80000000 = true := by decide
  have htwice : (run [5, 5]).totalPackets = 2 ∧ (heard [5, 5]).packets = {0} := by decide
  refine ⟨⟨hjump, by decide, by decide⟩, hleast, htwice, ?_⟩
  rintro (hexact | hexact | hexact)
  · have hno := hexact.noOverflow.2.2.1
    exact absurd (hjump.symm.trans hno) (by decide)
  · have hno := hexact.noOverflow.2.1
    exact absurd (hleast.symm.trans hno) (by decide)
  · have htotal := hexact.total
    rw [htwice.1, htwice.2] at htotal
    exact absurd htotal (by decide)

end GravitalTalk.LossTracker
