import GravitalTalk.Transport.Replay

/-!
# The marks of the anti-replay window

Over a run the bitmap holds one bit for each sequence that moved `highest`, as many
steps back as `highest` has gone since, and no other. What the window refuses is
read off that.
-/
namespace GravitalTalk

open Serial

namespace ReplayWindow

@[simp] theorem isMarked_new (age : ℕ) : new.isMarked age = false := by
  simp [isMarked_eq, new]

/-- A window that was never called has no marks. -/
def Fresh (w : ReplayWindow) : Prop := w.initialized = false → ∀ age, w.isMarked age = false

/-- `seq` becomes the new `highest`. -/
def Leads (w : ReplayWindow) (seq : UInt32) : Prop :=
  (w.checkAndMark seq).1 = true ∧ ¬w.Late seq

instance (w : ReplayWindow) (seq : UInt32) : Decidable (w.Leads seq) :=
  inferInstanceAs (Decidable (_ ∧ _))

theorem isMarked_advanced (b : Bitmap) (seq : UInt32) (age : ℕ) :
    (advanced b seq).isMarked age =
      (decide (age = 0) || (⟨seq, true, b⟩ : ReplayWindow).isMarked age) :=
  isMarked_mark _ (by decide) age

/-- What the bitmap shows after a call: the new `highest`, and what it showed before as far
back as the call moved it. -/
theorem isMarked_step {w : ReplayWindow} (hw : w.Fresh) (seq : UInt32) {age : ℕ}
    (hage : age < window) :
    (w.checkAndMark seq).2.isMarked age = true ↔
      w.Leads seq ∧ age = 0 ∨
        w.advance seq ≤ age ∧ w.isMarked (age - w.advance seq) = true := by
  unfold advance Leads
  rcases checkAndMark_cases w seq with ⟨hi, he⟩ | ⟨-, hseq, he⟩ | ⟨-, hlt, hjump, he⟩ |
    ⟨-, hlt, hne, he⟩ | ⟨hlate, -, he⟩ | ⟨hlate, -, he⟩
  · have hlate : ¬w.Late seq := fun h => by simp [h.1] at hi
    have hbits (j : ℕ) : (⟨seq, true, w.bitmap⟩ : ReplayWindow).isMarked j = false := hw hi j
    rw [he]
    dsimp only
    rw [isMarked_advanced, hbits, hw hi]
    simp [hlate]
  · rw [he]
    simp
  · have hlate : ¬w.Late seq := not_late_of_ahead_lt hlt
    have hzero (j : ℕ) : (⟨seq, true, Bitmap.zero⟩ : ReplayWindow).isMarked j = false := by
      simp [isMarked_eq]
    have hpast : ¬ahead seq w.highest ≤ age := by omega
    rw [he]
    change (advanced Bitmap.zero seq).isMarked age = true ↔
      _ ∨ ahead seq w.highest ≤ age ∧ _
    rw [isMarked_advanced, hzero]
    simp [hlate, hpast]
  · have hlate : ¬w.Late seq := not_late_of_ahead_lt (hlt.trans (by decide))
    have hbits (j : ℕ) :
        (⟨seq, true, (w.shiftLeft (ahead seq w.highest)).bitmap⟩ : ReplayWindow).isMarked j =
          (w.shiftLeft (ahead seq w.highest)).isMarked j := rfl
    rw [he]
    change (advanced (w.shiftLeft (ahead seq w.highest)).bitmap seq).isMarked age = true ↔
      _ ∨ ahead seq w.highest ≤ age ∧ w.isMarked (age - ahead seq w.highest) = true
    rw [isMarked_advanced, hbits, isMarked_shiftLeft w _ hage]
    simp [hlate]
  · rw [he]
    simp
  · rw [he]
    simp [hlate]

theorem initialized_step (w : ReplayWindow) (seq : UInt32) :
    (w.checkAndMark seq).2.initialized = true := by
  rcases checkAndMark_cases w seq with ⟨-, he⟩ | ⟨hi, -, he⟩ | ⟨-, -, -, he⟩ | ⟨-, -, -, he⟩ |
    ⟨hlate, -, he⟩ | ⟨hlate, -, he⟩
  · rw [he]
    rfl
  · rw [he, hi]
  · rw [he]
    rfl
  · rw [he]
    rfl
  · rw [he, hlate.1]
  · rw [he, hlate.1]

theorem highest_step (w : ReplayWindow) (seq : UInt32) :
    (w.checkAndMark seq).2.highest = seq ∨
      w.initialized = true ∧ (w.checkAndMark seq).2.highest = w.highest := by
  rcases checkAndMark_cases w seq with ⟨-, he⟩ | ⟨hi, -, he⟩ | ⟨-, -, -, he⟩ | ⟨-, -, -, he⟩ |
    ⟨hlate, -, he⟩ | ⟨hlate, -, he⟩
  · exact .inl (by rw [he]; rfl)
  · exact .inr ⟨hi, by rw [he]⟩
  · exact .inl (by rw [he]; rfl)
  · exact .inl (by rw [he]; rfl)
  · exact .inr ⟨hlate.1, by rw [he]⟩
  · exact .inr ⟨hlate.1, by rw [he]⟩

/-! ## Runs from the last call -/

theorem run_append_singleton (w : ReplayWindow) (calls : List UInt32) (seq : UInt32) :
    w.run (calls ++ [seq]) = ((w.run calls).checkAndMark seq).2 := by
  rw [run, List.foldl_append]
  rfl

theorem forward_append_singleton (w : ReplayWindow) (calls : List UInt32) (seq : UInt32) :
    w.forward (calls ++ [seq]) = w.forward calls + (w.run calls).advance seq := by
  induction calls generalizing w with
  | nil => simp [forward, run]
  | cons next rest ih =>
    rw [List.cons_append, forward, ih, forward, Nat.add_assoc]
    rfl

theorem initialized_run {calls : List UInt32} (h : calls ≠ []) :
    (new.run calls).initialized = true := by
  induction calls using List.reverseRecOn with
  | nil => exact absurd rfl h
  | append_singleton calls seq _ => rw [run_append_singleton, initialized_step]

theorem fresh_run (calls : List UInt32) : (new.run calls).Fresh := by
  intro hi age
  by_cases h : calls = []
  · rw [h]
    exact isMarked_new age
  · rw [initialized_run h] at hi
    cases hi

theorem highest_mem {calls : List UInt32} (h : calls ≠ []) : (new.run calls).highest ∈ calls := by
  induction calls using List.reverseRecOn with
  | nil => exact absurd rfl h
  | append_singleton calls seq ih =>
    rw [run_append_singleton, List.mem_append]
    rcases highest_step (new.run calls) seq with he | ⟨hi, he⟩
    · rw [he]
      exact .inr (List.mem_singleton_self seq)
    · have hne : calls ≠ [] := by
        rintro rfl
        cases hi
      rw [he]
      exact .inl (ih hne)

/-- A call of the run that led, with `highest` gone `age` steps since. -/
def Led (calls : List UInt32) (seq : UInt32) (age : ℕ) : Prop :=
  ∃ before after, calls = before ++ seq :: after ∧ (new.run before).Leads seq ∧
    ((new.run before).checkAndMark seq).2.forward after = age

theorem led_append_singleton (calls : List UInt32) (next seq : UInt32) (age : ℕ) :
    Led (calls ++ [next]) seq age ↔
      seq = next ∧ (new.run calls).Leads next ∧ age = 0 ∨
        (new.run calls).advance next ≤ age ∧
          Led calls seq (age - (new.run calls).advance next) := by
  have hrun (before after : List UInt32) :
      ((new.run before).checkAndMark seq).2.run after = new.run (before ++ seq :: after) := by
    rw [run, run, run, List.foldl_append]
    rfl
  constructor
  · rintro ⟨before, after, hcalls, hleads, hage⟩
    rcases List.eq_nil_or_concat after with rfl | ⟨init, last, rfl⟩
    · obtain ⟨rfl, hlast⟩ := List.append_inj' hcalls rfl
      cases hlast
      exact .inl ⟨rfl, hleads, hage.symm⟩
    · have hsplit : calls ++ [next] = (before ++ seq :: init) ++ [last] := by
        simpa using hcalls
      obtain ⟨rfl, hlast⟩ := List.append_inj' hsplit rfl
      cases hlast
      rw [List.concat_eq_append, forward_append_singleton, hrun] at hage
      exact .inr ⟨by omega, before, init, rfl, hleads, by omega⟩
  · rintro (⟨rfl, hleads, rfl⟩ | ⟨hle, before, after, rfl, hleads, hage⟩)
    · exact ⟨calls, [], rfl, hleads, rfl⟩
    · refine ⟨before, after ++ [next], by simp, hleads, ?_⟩
      rw [forward_append_singleton, hrun, hage]
      omega

/-- A bit of the bitmap is a call that led, as far back as `highest` has gone since. -/
theorem isMarked_run (calls : List UInt32) {age : ℕ} (hage : age < window) :
    (new.run calls).isMarked age = true ↔ ∃ seq, Led calls seq age := by
  induction calls using List.reverseRecOn generalizing age with
  | nil =>
    constructor
    · intro h
      rw [run, List.foldl_nil, isMarked_new] at h
      cases h
    · rintro ⟨seq, before, after, hcalls, -⟩
      simp at hcalls
  | append_singleton calls next ih =>
    rw [run_append_singleton, isMarked_step (fresh_run calls) next hage]
    simp only [led_append_singleton]
    constructor
    · rintro (⟨hleads, rfl⟩ | ⟨hle, hmarked⟩)
      · exact ⟨next, .inl ⟨rfl, hleads, rfl⟩⟩
      · obtain ⟨seq, hled⟩ := (ih (by omega)).mp hmarked
        exact ⟨seq, .inr ⟨hle, hled⟩⟩
    · rintro ⟨seq, ⟨-, hleads, rfl⟩ | ⟨hle, hled⟩⟩
      · exact .inl ⟨hleads, rfl⟩
      · exact .inr ⟨hle, (ih (by omega)).mpr ⟨seq, hled⟩⟩

/-- A call that led is still as far behind `highest` as that has gone since. -/
theorem Led.ahead_eq {calls : List UInt32} {seq : UInt32} {age : ℕ} (h : Led calls seq age)
    (hage : age < window) : ahead (new.run calls).highest seq = age := by
  obtain ⟨before, after, rfl, ⟨hok, hlate⟩, hfwd⟩ := h
  have hturn : window < 2 ^ 32 := by decide
  have hseen := (seen_of_accepted hok hlate).run after (by omega)
  have hrun : ((new.run before).checkAndMark seq).2.run after =
      new.run (before ++ seq :: after) := by
    rw [run, run, run, List.foldl_append]
    rfl
  rw [hrun, Nat.zero_add] at hseen
  rw [hseen.age_eq, hfwd]

/-! ## Completeness -/

theorem accepted_of_ahead {w : ReplayWindow} {seq : UInt32} (hne : seq ≠ w.highest)
    (h : ahead seq w.highest < 2 ^ 31) : (w.checkAndMark seq).1 = true := by
  rcases checkAndMark_cases w seq with ⟨-, he⟩ | ⟨-, hseq, -⟩ | ⟨-, -, -, he⟩ | ⟨-, -, -, he⟩ |
    ⟨hlate, -⟩ | ⟨hlate, -⟩
  · rw [he]
  · exact absurd hseq hne
  · rw [he]
  · rw [he]
  · exact absurd hlate (not_late_of_ahead_lt h)
  · exact absurd hlate (not_late_of_ahead_lt h)

/-- Behind `highest` the bitmap decides. -/
theorem checkAndMark_behind {w : ReplayWindow} {seq : UInt32} (hi : w.initialized = true)
    (hne : seq ≠ w.highest) (h : ahead w.highest seq ≤ 2 ^ 31) :
    (w.checkAndMark seq).1 =
      (decide (ahead w.highest seq < window) && !w.isMarked (ahead w.highest seq)) := by
  have hlate : w.Late seq := ⟨hi, by have := ahead_swap seq w.highest hne; omega⟩
  rcases checkAndMark_cases w seq with ⟨hi', -⟩ | ⟨-, hseq, -⟩ | ⟨-, hlt, -⟩ | ⟨-, hlt, -⟩ |
    ⟨-, hout, he⟩ | ⟨-, hin, he⟩
  · simp [hi] at hi'
  · exact absurd hseq hne
  · exact absurd hlate (not_late_of_ahead_lt hlt)
  · exact absurd hlate (not_late_of_ahead_lt (hlt.trans (by decide)))
  · rw [he]
    simp [Nat.not_lt.mpr hout]
  · rw [he]
    simp [hin]

theorem accepted_of_behind {calls : List UInt32} {seq : UInt32} (hnew : seq ∉ calls)
    (h : ahead (new.run calls).highest seq < window) :
    ((new.run calls).checkAndMark seq).1 = true := by
  have hturn : window < 2 ^ 31 := by decide
  by_cases hcalls : calls = []
  · rw [hcalls]
    rfl
  · have hne : seq ≠ (new.run calls).highest := by
      rintro rfl
      exact hnew (highest_mem hcalls)
    rw [checkAndMark_behind (initialized_run hcalls) hne (by omega), decide_eq_true h,
      Bool.true_and, Bool.not_eq_true', Bool.eq_false_iff]
    intro hmarked
    obtain ⟨s, hled⟩ := (isMarked_run calls h).mp hmarked
    have hsame := hled.ahead_eq h
    -- the marked sequence is as far behind as `seq`, so it is `seq`
    have hs : s = seq := by
      rw [ahead, ahead, UInt32.toNat_inj] at hsame
      exact (UInt32.sub_right_inj _).mp hsame
    obtain ⟨before, after, rfl, -⟩ := hled
    exact hnew (by rw [← hs]; simp)

theorem rejected_of_behind {calls : List UInt32} {seq : UInt32} (hcalls : calls ≠ [])
    (h : window ≤ ahead (new.run calls).highest seq)
    (hhalf : ahead (new.run calls).highest seq ≤ 2 ^ 31) :
    ((new.run calls).checkAndMark seq).1 = false := by
  have hne : seq ≠ (new.run calls).highest := by
    rintro rfl
    rw [ahead_self] at h
    exact absurd h (by decide)
  rw [checkAndMark_behind (initialized_run hcalls) hne hhalf]
  simp [Nat.not_lt.mpr h]

/-- Nothing new is refused inside the window or in front of it, everything behind it is, and the
bitmap holds exactly the sequences that led and are still inside. -/
theorem window_complete (calls : List UInt32) (seq : UInt32) :
    (seq ≠ (new.run calls).highest → ahead seq (new.run calls).highest < 2 ^ 31 →
      ((new.run calls).checkAndMark seq).1 = true) ∧
    (ahead (new.run calls).highest seq < window → seq ∉ calls →
      ((new.run calls).checkAndMark seq).1 = true) ∧
    (calls ≠ [] → window ≤ ahead (new.run calls).highest seq →
      ahead (new.run calls).highest seq ≤ 2 ^ 31 →
      ((new.run calls).checkAndMark seq).1 = false) ∧
    ∀ age < window, (new.run calls).isMarked age = true ↔
      ∃ before s after, calls = before ++ s :: after ∧
        ((new.run before).checkAndMark s).1 = true ∧ ¬(new.run before).Late s ∧
        ((new.run before).checkAndMark s).2.forward after = age := by
  refine ⟨accepted_of_ahead, fun h hnew => accepted_of_behind hnew h, rejected_of_behind, ?_⟩
  intro age hage
  refine (isMarked_run calls hage).trans ?_
  constructor
  · rintro ⟨s, before, after, hcalls, ⟨hok, hlate⟩, hfwd⟩
    exact ⟨before, s, after, hcalls, hok, hlate, hfwd⟩
  · rintro ⟨before, s, after, hcalls, hok, hlate, hfwd⟩
    exact ⟨s, before, after, hcalls, ⟨hok, hlate⟩, hfwd⟩

/-- After `10` and `5000` the sequence `904` is too old, and `905` is not. -/
theorem window_complete_edge :
    ((new.run [10, 5000]).checkAndMark 904).1 = false ∧
      ((new.run [10, 5000]).checkAndMark 905).1 = true :=
  ⟨(window_complete [10, 5000] 904).2.2.1 (by decide) (by decide) (by decide),
    (window_complete [10, 5000] 905).2.1 (by decide) (by decide)⟩

/-! ## Single sequences -/

section LeftBehind

variable {w : ReplayWindow} {seq : UInt32}

/-- The newest sequence is marked. -/
def Anchored (w : ReplayWindow) : Prop := w.initialized = true → w.isMarked 0 = true

theorem anchored_new : new.Anchored := nofun

theorem anchored_advanced (b : Bitmap) (seq : UInt32) : (advanced b seq).Anchored :=
  fun _ => (seen_advanced b seq).marked (by decide)

theorem Anchored.check (h : w.Anchored) (seq : UInt32) : (w.checkAndMark seq).2.Anchored := by
  rcases checkAndMark_cases w seq with ⟨-, he⟩ | ⟨-, -, he⟩ | ⟨-, -, -, he⟩ | ⟨-, -, -, he⟩ |
    ⟨-, -, he⟩ | ⟨-, -, he⟩
  · rw [he]
    exact anchored_advanced _ _
  · rwa [he]
  · rw [he]
    exact anchored_advanced _ _
  · rw [he]
    exact anchored_advanced _ _
  · rwa [he]
  · rwa [he]

/-- The window has gone `age` steps past `seq`, and has its mark unless `late` holds. -/
structure LeftBehind (w : ReplayWindow) (seq : UInt32) (age : ℕ) (late : Prop) : Prop where
  initialized : w.initialized = true
  age_eq : ahead w.highest seq = age
  marked : ¬ late → age < window → w.isMarked age = true

variable {age : ℕ} {late : Prop}

theorem LeftBehind.seen (h : w.LeftBehind seq age late) (hlate : late → window ≤ age) :
    w.Seen seq age := by
  refine ⟨h.initialized, h.age_eq, fun hin => h.marked (fun hl => ?_) hin⟩
  have hout := hlate hl
  omega

/-- Such a sequence ages with the window, like a seen one. -/
theorem LeftBehind.step (h : w.LeftBehind seq age late) (next : UInt32)
    (hage : age + w.advance next < 2 ^ 32) :
    LeftBehind (w.checkAndMark next).2 seq (age + w.advance next) late := by
  by_cases hl : late
  · refine ⟨initialized_step w next, ?_, fun hno => absurd hl hno⟩
    have htrans := ahead_trans (w.checkAndMark next).2.highest w.highest seq
    rw [h.age_eq] at htrans
    unfold advance at hage ⊢
    omega
  · have hseen := (h.seen fun hyes => absurd hyes hl).step next hage
    exact ⟨hseen.initialized, hseen.age_eq, fun _ => hseen.marked⟩

/-- After a call the window has gone past the sequence, and has its mark unless it accepted it
late. -/
theorem Anchored.leftBehind (h : w.Anchored) (seq : UInt32) :
    LeftBehind (w.checkAndMark seq).2 seq (ahead (w.checkAndMark seq).2.highest seq)
      ((w.checkAndMark seq).1 = true ∧ ahead (w.checkAndMark seq).2.highest seq ≠ 0) := by
  refine ⟨initialized_step w seq, rfl, fun hlate hin => ?_⟩
  have hlead (b : Bitmap) : (advanced b seq).isMarked (ahead seq seq) = true := by
    rw [ahead_self]
    exact (seen_advanced b seq).marked (by decide)
  rcases checkAndMark_cases w seq with ⟨-, he⟩ | ⟨hi, hseq, he⟩ | ⟨-, -, -, he⟩ | ⟨-, -, -, he⟩ |
    ⟨hl, hfar, he⟩ | ⟨hl, hnear, he⟩
  · rw [he]
    exact hlead _
  · rw [he, hseq, ahead_self]
    exact h hi
  · rw [he]
    exact hlead _
  · rw [he]
    exact hlead _
  · rw [he] at hin
    dsimp only at hin
    omega
  · rw [he] at hlate ⊢
    dsimp only at hlate ⊢
    cases hmark : w.isMarked (ahead w.highest seq) with
    | true => rfl
    | false =>
      -- accepted without a mark: only the newest sequence is `0` behind, and it is not late
      have hzero : ahead w.highest seq = 0 := by simpa [hmark] using hlate
      have hlt := hl.2
      rw [ahead_eq_zero.mp hzero, ahead_self] at hlt
      omega

end LeftBehind

end ReplayWindow
end GravitalTalk
