import GravitalTalk.Transport.JitterRing

/-!
# Playing out a jitter buffer

The rule of `recv_audio`: pop, and when nothing comes out while later frames
wait, jump to the first of them. The jump loses no frame, so applying the rule
over and over empties the buffer in the order of the sequences. What decreases
is the distance from the cursor to the last frame held, never more than a window.
-/
namespace GravitalTalk
namespace JitterBuffer

open Serial

variable {capacity : ℕ}

/-- One round of the rule of `recv_audio`, with every deadline over. -/
def playOnce (b : JitterBuffer capacity) : Option Frame × JitterBuffer capacity :=
  match b.pop with
  | (some frame, b) => (some frame, b)
  | (none, b) => (none, if b.hasPending then b.skipToAvailable else b)

/-- What `n` rounds deliver. -/
def playOut (b : JitterBuffer capacity) : ℕ → List Frame × JitterBuffer capacity
  | 0 => ([], b)
  | n + 1 =>
    let r := b.playOnce
    let rest := playOut r.2 n
    (r.1.toList ++ rest.1, rest.2)

/-- The frame is in the buffer, not delivered yet. -/
def Keeps (b : JitterBuffer capacity) (f : Frame) : Prop :=
  ∃ i, (b.slot i).occupied = true ∧ (b.slot i).frame = some f

/-! ## The frames of the window -/

/-- A frame that is kept sits in the slot of its sequence, within the window. -/
theorem Ring.keeps {b : JitterBuffer capacity} {frames : List Frame} (h : Ring b frames)
    {f : Frame} (hf : b.Keeps f) : (b.slot (index capacity f.sequence)).occupied = true ∧
      (b.slot (index capacity f.sequence)).frame = some f ∧
      (b.slot (index capacity f.sequence)).sequence = f.sequence ∧
      ahead f.sequence b.nextSeq < capacity := by
  obtain ⟨i, hocc, hframe⟩ := hf
  obtain ⟨g, hg, hseq, hindex, hwindow, -⟩ := h.held i hocc
  rw [hframe] at hg
  cases hg
  subst hindex
  exact ⟨hocc, hframe, hseq, hwindow⟩

theorem Ring.keeps_of_occupied {b : JitterBuffer capacity} {frames : List Frame} (h : Ring b frames)
    {i : ℕ} (hocc : (b.slot i).occupied = true) : ∃ f, (b.slot i).frame = some f ∧ b.Keeps f := by
  obtain ⟨f, hframe, -⟩ := h.held i hocc
  exact ⟨f, hframe, i, hocc, hframe⟩

theorem Ring.keeps_injective {b : JitterBuffer capacity} {frames : List Frame} (h : Ring b frames)
    {f g : Frame} (hf : b.Keeps f) (hg : b.Keeps g) (hseq : f.sequence = g.sequence) : f = g := by
  obtain ⟨-, hframe, -⟩ := h.keeps hf
  obtain ⟨-, hframe', -⟩ := h.keeps hg
  rw [hseq, hframe'] at hframe
  exact (Option.some.inj hframe).symm

theorem hasPending_iff {b : JitterBuffer capacity} :
    b.hasPending = true ↔ ∃ i, (b.slot i).occupied = true := by
  constructor
  · intro h
    rw [hasPending, List.any_eq_true] at h
    obtain ⟨s, hmem, hocc⟩ := h
    obtain ⟨i, hi⟩ := List.mem_iff_getElem?.mp hmem
    refine ⟨i, ?_⟩
    rw [Vector.getElem?_toList] at hi
    rw [slot, hi]
    exact hocc
  · rintro ⟨i, hocc⟩
    by_contra hidle
    rw [Bool.not_eq_true] at hidle
    rw [vacant_of_not_pending hidle i] at hocc
    cases hocc

theorem Ring.hasPending_iff {b : JitterBuffer capacity} {frames : List Frame} (h : Ring b frames) :
    b.hasPending = true ↔ ∃ f, b.Keeps f := by
  rw [JitterBuffer.hasPending_iff]
  constructor
  · rintro ⟨i, hocc⟩
    obtain ⟨f, -, hf⟩ := h.keeps_of_occupied hocc
    exact ⟨f, hf⟩
  · rintro ⟨f, i, hocc, -⟩
    exact ⟨i, hocc⟩

/-- `available` looks for a frame where the invariant puts it. -/
theorem Ring.available_iff_filled {b : JitterBuffer capacity} {frames : List Frame}
    (h : Ring b frames)
    {d : ℕ} (hd : d < 2 ^ 32) :
    b.available d = true ↔ ∃ f, b.Keeps f ∧ ahead f.sequence b.nextSeq = d := by
  have hahead : ahead (b.nextSeq + UInt32.ofNat d) b.nextSeq = d := by
    rw [ahead, add_sub_cancel_left, UInt32.toNat_ofNat', Nat.mod_eq_of_lt hd]
  rw [available, Bool.and_eq_true, beq_iff_eq]
  constructor
  · rintro ⟨hocc, hseq⟩
    obtain ⟨f, hframe, hsame, -⟩ := h.held _ hocc
    refine ⟨f, ⟨_, hocc, hframe⟩, ?_⟩
    rw [← hsame, hseq, hahead]
  · rintro ⟨f, hf, rfl⟩
    have hplace : b.nextSeq + UInt32.ofNat (ahead f.sequence b.nextSeq) = f.sequence := by
      rw [ahead, UInt32.ofNat_toNat, add_sub_cancel]
    obtain ⟨hocc, -, hseq, -⟩ := h.keeps hf
    rw [hplace]
    exact ⟨hocc, hseq⟩

/-! ## Popping -/

/-- What is popped is the frame at the cursor; all other frames stay. -/
theorem Ring.pop_some {b : JitterBuffer capacity} {frames : List Frame} (h : Ring b frames)
    {f : Frame} (hpop : b.pop.1 = some f) :
    b.Keeps f ∧ f.sequence = b.nextSeq ∧ b.pop.2.nextSeq = b.nextSeq + 1 ∧
      ∀ g, b.pop.2.Keeps g ↔ b.Keeps g ∧ g ≠ f := by
  have hcut : b.Keeps f ∧ f.sequence = b.nextSeq ∧
      b.pop.2 = { b.vacate (index capacity b.nextSeq) with nextSeq := b.nextSeq + 1 } := by
    unfold JitterBuffer.pop at hpop ⊢
    simp only at hpop ⊢
    split_ifs at hpop ⊢ with hprimed hslot
    rw [Bool.or_eq_true, bne_iff_ne, not_or, Bool.not_eq_true', Bool.not_eq_false, not_not]
      at hslot
    obtain ⟨g, hframe, hseq, -⟩ := h.held _ hslot.1
    rw [hframe] at hpop
    cases hpop
    exact ⟨⟨_, hslot.1, hframe⟩, hseq.symm.trans hslot.2, rfl⟩
  obtain ⟨hf, hseq, hrest⟩ := hcut
  refine ⟨hf, hseq, by rw [hrest], fun g => ?_⟩
  have hslots (i : ℕ) : b.pop.2.slot i = (b.vacate (index capacity b.nextSeq)).slot i := by
    rw [hrest]
    rfl
  constructor
  · rintro ⟨i, hocc, hframe⟩
    rw [hslots] at hocc hframe
    obtain ⟨hsame, hne⟩ := occupied_vacate hocc
    rw [hsame] at hocc hframe
    refine ⟨⟨i, hocc, hframe⟩, ?_⟩
    rintro rfl
    obtain ⟨g', hframe', -, hindex, -⟩ := h.held i hocc
    rw [hframe] at hframe'
    cases hframe'
    exact hne (hseq ▸ hindex)
  · rintro ⟨hg, hne⟩
    obtain ⟨hocc, hframe, hseq', -⟩ := h.keeps hg
    refine ⟨index capacity g.sequence, ?_⟩
    have hout : index capacity b.nextSeq ≠ index capacity g.sequence := by
      intro heq
      apply hne
      apply h.keeps_injective hg hf
      obtain ⟨-, -, hseqf, -⟩ := h.keeps hf
      rw [hseq, heq] at hseqf
      rw [← hseq', hseqf, hseq]
    rw [hslots, vacate, slot_set, if_neg (fun hc => hout hc.1)]
    exact ⟨hocc, hframe⟩

/-- `pop` waits exactly when no frame at the cursor is kept. -/
theorem Ring.pop_none_iff {b : JitterBuffer capacity} {frames : List Frame} (h : Ring b frames) :
    b.pop.1 = none ↔ ∀ f, b.Keeps f → ahead f.sequence b.nextSeq ≠ 0 := by
  constructor
  · intro hnone f hf hzero
    rw [ahead_eq_zero] at hzero
    obtain ⟨hocc, hframe, hseq, -⟩ := h.keeps hf
    rw [hzero] at hocc hframe hseq
    have hprimed : b.primed = true := by
      by_contra hidle
      rw [h.idle (Bool.not_eq_true _ ▸ hidle)] at hocc
      cases hocc
    simp [JitterBuffer.pop, hprimed, hocc, hseq, hframe] at hnone
  · intro hout
    cases hpop : b.pop.1 with
    | none => rfl
    | some f =>
      obtain ⟨hf, hseq, -⟩ := h.pop_some hpop
      exact absurd (ahead_eq_zero.mpr hseq) (hout f hf)

theorem pop_none {b : JitterBuffer capacity} (hnone : b.pop.1 = none) {frames : List Frame}
    (h : Ring b frames) : b.pop = (none, b) := by
  obtain hwait | ⟨f, -, -, -, hpop, -⟩ := h.pop
  · exact hwait
  · rw [hpop] at hnone
    cases hnone

/-! ## Jumping -/

theorem foldl_vacate_other {seqs : List UInt32} {i : ℕ}
    (hout : ∀ seq ∈ seqs, index capacity seq ≠ i) (b : JitterBuffer capacity) :
    (seqs.foldl (fun b seq => b.vacate (index capacity seq)) b).slot i = b.slot i := by
  induction seqs generalizing b with
  | nil => rfl
  | cons seq seqs ih =>
    rw [List.foldl_cons, ih (fun t ht => hout t (List.mem_cons_of_mem _ ht)), vacate, slot_set,
      if_neg (fun hc => hout seq List.mem_cons_self hc.1)]

/-- Skipping over positions where nothing is kept leaves every occupied slot as it is. -/
theorem Ring.slot_skip {k : ℕ} (hcap : capacity = 2 ^ k) (hk : k < 32) {b : JitterBuffer capacity}
    {frames : List Frame} (h : Ring b frames) {count : ℕ} (hcount : count ≤ capacity)
    (hgap : ∀ f, b.Keeps f → count ≤ ahead f.sequence b.nextSeq) {i : ℕ}
    (hocc : (b.slot i).occupied = true) : (b.skip count).slot i = b.slot i := by
  unfold JitterBuffer.skip
  split_ifs
  · rfl
  · have hlt : capacity < 2 ^ 32 := by
      rw [hcap]
      exact Nat.pow_lt_pow_right (by decide) hk
    apply foldl_vacate_other
    intro seq hmem heq
    obtain ⟨j, hj, rfl⟩ := List.mem_map.mp hmem
    rw [List.mem_range] at hj
    obtain ⟨f, hframe, -, hindex, hwindow, -⟩ := h.held i hocc
    have hahead : ahead (b.nextSeq + UInt32.ofNat j) b.nextSeq = j := by
      rw [ahead, add_sub_cancel_left, UInt32.toNat_ofNat', Nat.mod_eq_of_lt (by omega)]
    have hsame := index_injective hcap hk.le (by omega) hwindow (heq.trans hindex.symm)
    have hfar := hgap f ⟨i, hocc, hframe⟩
    rw [← hsame, hahead] at hfar
    omega

/-- `skip_to_available` with later frames waiting: it stops at the nearest one. -/
theorem Ring.skipToAvailable_spec {b : JitterBuffer capacity} {frames : List Frame}
    (hlt : capacity < 2 ^ 32) (h : Ring b frames) (hnone : b.pop.1 = none)
    (hpending : b.hasPending = true) :
    ∃ f, b.Keeps f ∧ 0 < ahead f.sequence b.nextSeq ∧
      (∀ g, b.Keeps g → ahead f.sequence b.nextSeq ≤ ahead g.sequence b.nextSeq) ∧
      b.skipToAvailable = b.skip (ahead f.sequence b.nextSeq) := by
  have haway := h.pop_none_iff.mp hnone
  obtain ⟨f₀, hf₀⟩ := h.hasPending_iff.mp hpending
  obtain ⟨hocc₀, -, -, hwindow₀⟩ := h.keeps hf₀
  have hprimed : b.primed = true := by
    by_contra hidle
    rw [h.idle (Bool.not_eq_true _ ▸ hidle)] at hocc₀
    cases hocc₀
  have hsearched (g : Frame) (hg : b.Keeps g) :
      ahead g.sequence b.nextSeq ∈ List.range' 1 (capacity - 1) := by
    obtain ⟨-, -, -, hwindow⟩ := h.keeps hg
    have hpos := haway g hg
    rw [List.mem_range'_1]
    omega
  cases hfind : (List.range' 1 (capacity - 1)).find? b.available with
  | none =>
    rw [List.find?_eq_none] at hfind
    exact absurd ((h.available_iff_filled (by omega)).mpr ⟨f₀, hf₀, rfl⟩)
      (hfind _ (hsearched f₀ hf₀))
  | some d =>
    have hmem := List.mem_of_find?_eq_some hfind
    have hd : d < 2 ^ 32 := by
      rw [List.mem_range'_1] at hmem
      omega
    obtain ⟨f, hf, hdist⟩ := (h.available_iff_filled hd).mp (List.find?_some hfind)
    refine ⟨f, hf, Nat.pos_of_ne_zero (haway f hf), fun g hg => ?_, ?_⟩
    · obtain ⟨-, -, -, hwindow⟩ := h.keeps hg
      by_contra hnear
      rw [not_le, hdist] at hnear
      obtain ⟨-, as, bs, hsplit, hbefore⟩ := List.find?_eq_some_iff_append.mp hfind
      have hin : ahead g.sequence b.nextSeq ∈ as := by
        have hsorted : (as ++ d :: bs).Pairwise (· < ·) := hsplit ▸ List.pairwise_lt_range'
        have hg' := hsearched g hg
        rw [hsplit, List.mem_append, List.mem_cons] at hg'
        rcases hg' with hg' | hg' | hg'
        · exact hg'
        · omega
        · have := List.rel_of_pairwise_cons (List.pairwise_append.mp hsorted).2.1 hg'
          omega
      have hfree := hbefore _ hin
      rw [(h.available_iff_filled (by omega)).mpr ⟨g, hg, rfl⟩] at hfree
      cases hfree
    · rw [skipToAvailable, if_neg (by simp [hprimed]), hfind, hdist]

/-- The jump keeps every frame, and the nearest one is what the cursor then waits for. -/
theorem Ring.jump {k : ℕ} (hcap : capacity = 2 ^ k) (hk : k < 32) {b : JitterBuffer capacity}
    {frames : List Frame} (h : Ring b frames) (hnone : b.pop.1 = none)
    (hpending : b.hasPending = true) :
    ∃ f, b.Keeps f ∧ 0 < ahead f.sequence b.nextSeq ∧
      (∀ g, b.Keeps g → ahead f.sequence b.nextSeq ≤ ahead g.sequence b.nextSeq) ∧
      (∀ i, (b.slot i).occupied = true → b.skipToAvailable.slot i = b.slot i) ∧
      (∀ g, b.skipToAvailable.Keeps g ↔ b.Keeps g) ∧
      b.skipToAvailable.nextSeq = b.nextSeq + UInt32.ofNat (ahead f.sequence b.nextSeq) ∧
      Ring b.skipToAvailable frames := by
  have hlt : capacity < 2 ^ 32 := by
    rw [hcap]
    exact Nat.pow_lt_pow_right (by decide) hk
  obtain ⟨f, hf, hpos, hmin, hskip⟩ := h.skipToAvailable_spec hlt hnone hpending
  obtain ⟨hocc, -, -, hwindow⟩ := h.keeps hf
  have hslots (i : ℕ) (hi : (b.slot i).occupied = true) :
      b.skipToAvailable.slot i = b.slot i := by
    rw [hskip]
    exact h.slot_skip hcap hk hwindow.le hmin hi
  have hprimed : b.primed = true := by
    by_contra hidle
    rw [h.idle (Bool.not_eq_true _ ▸ hidle)] at hocc
    cases hocc
  have hback (i : ℕ) (hi : (b.skipToAvailable.slot i).occupied = true) :
      b.skipToAvailable.slot i = b.slot i := by
    rw [hskip, JitterBuffer.skip, if_neg (by simp [hprimed])] at hi ⊢
    exact ((foldl_vacate _ b).2 i hi).1
  refine ⟨f, hf, hpos, hmin, hslots, fun g => ⟨?_, ?_⟩, ?_, ?_⟩
  · rintro ⟨i, hi, hframe⟩
    have hsame := hback i hi
    rw [hsame] at hi hframe
    exact ⟨i, hi, hframe⟩
  · rintro ⟨i, hi, hframe⟩
    exact ⟨i, by rwa [hslots i hi], by rwa [hslots i hi]⟩
  · rw [hskip, JitterBuffer.skip, if_neg (by simp [hprimed])]
  · rw [hskip]
    exact h.skip (by omega)

/-- After the jump the nearest frame comes out. -/
theorem Ring.pop_after_jump {b : JitterBuffer capacity} {frames : List Frame}
    (h : Ring b frames) {f : Frame} (hf : b.Keeps f) (hseq : f.sequence = b.nextSeq) :
    b.pop.1 = some f := by
  cases hpop : b.pop.1 with
  | none => exact absurd (ahead_eq_zero.mpr hseq) (h.pop_none_iff.mp hpop f hf)
  | some g =>
    obtain ⟨hg, hseq', -⟩ := h.pop_some hpop
    rw [h.keeps_injective hg hf (hseq'.trans hseq.symm)]

/-! ## The whole buffer -/

theorem Ring.playOnce {k : ℕ} (hcap : capacity = 2 ^ k) (hk : k < 32) {b : JitterBuffer capacity}
    {frames : List Frame} (h : Ring b frames) : Ring b.playOnce.2 frames := by
  unfold JitterBuffer.playOnce
  split
  · rename_i f b' hpop
    have hring := h.step hcap hk .pop
    simpa only [JitterBuffer.step, perform, hpop, accepts, List.append_nil] using hring
  · rename_i b' hpop
    have hring := h.step hcap hk .pop
    simp only [JitterBuffer.step, perform, hpop, accepts, List.append_nil] at hring
    split_ifs
    · simpa [JitterBuffer.step, perform, accepts] using hring.step hcap hk .skipToAvailable
    · exact hring

theorem Ring.playOut_ring {k : ℕ} (hcap : capacity = 2 ^ k) (hk : k < 32) (n : ℕ)
    {b : JitterBuffer capacity} {frames : List Frame} (h : Ring b frames) :
    Ring (b.playOut n).2 frames := by
  induction n generalizing b with
  | zero => exact h
  | succ n ih => exact ih (h.playOnce hcap hk)

/-- One round: a frame comes out and the others stay, or the cursor moves nearer to all of
them, or nothing is there. -/
theorem Ring.playOnce_cases {k : ℕ} (hcap : capacity = 2 ^ k) (hk : k < 32)
    {b : JitterBuffer capacity} {frames : List Frame} (h : Ring b frames) :
    (∃ f, b.playOnce.1 = some f ∧ b.Keeps f ∧ f.sequence = b.nextSeq ∧
      b.playOnce.2.nextSeq = b.nextSeq + UInt32.ofNat 1 ∧
      ∀ g, b.playOnce.2.Keeps g ↔ b.Keeps g ∧ g ≠ f) ∨
    (b.playOnce.1 = none ∧ ∃ d, 0 < d ∧ b.playOnce.2.nextSeq = b.nextSeq + UInt32.ofNat d ∧
      ∀ g, (b.playOnce.2.Keeps g ↔ b.Keeps g) ∧ (b.Keeps g → d ≤ ahead g.sequence b.nextSeq)) ∨
    (b.playOnce = (none, b) ∧ ∀ g, ¬ b.Keeps g) := by
  cases hpop : b.pop.1 with
  | some f =>
    obtain ⟨hf, hseq, hnext, hrest⟩ := h.pop_some hpop
    have honce : b.playOnce = (some f, b.pop.2) := by
      rw [JitterBuffer.playOnce, ← Prod.mk.eta (p := b.pop), hpop]
    rw [honce]
    exact .inl ⟨f, rfl, hf, hseq, hnext, hrest⟩
  | none =>
    have honce : b.playOnce = (none, if b.hasPending then b.skipToAvailable else b) := by
      rw [JitterBuffer.playOnce, pop_none hpop h]
    rw [honce]
    cases hpending : b.hasPending with
    | true =>
      obtain ⟨f, -, hpos, hmin, -, hkeeps, hnext, -⟩ := h.jump hcap hk hpop hpending
      exact .inr (.inl ⟨rfl, _, hpos, hnext, fun g => ⟨hkeeps g, hmin g⟩⟩)
    | false =>
      refine .inr (.inr ⟨rfl, fun g hg => ?_⟩)
      rw [h.hasPending_iff.mpr ⟨g, hg⟩] at hpending
      cases hpending

/-- As many rounds as the last frame is away deliver everything, in order. The induction is
on the rounds: each one brings the cursor nearer to every frame still kept. -/
theorem Ring.playOut {k : ℕ} (hcap : capacity = 2 ^ k) (hk : k < 32) (n : ℕ)
    {b : JitterBuffer capacity} {frames : List Frame} (h : Ring b frames)
    (hspan : ∀ f, b.Keeps f → ahead f.sequence b.nextSeq < n) :
    (∀ f, f ∈ (b.playOut n).1 ↔ b.Keeps f) ∧
      (b.playOut n).1.Pairwise (fun f g => ahead f.sequence b.nextSeq < ahead g.sequence b.nextSeq) ∧
      ∀ f, ¬ (b.playOut n).2.Keeps f := by
  induction n generalizing b with
  | zero =>
    have hout (f : Frame) : ¬ b.Keeps f := fun hf => absurd (hspan f hf) (Nat.not_lt_zero _)
    simpa [JitterBuffer.playOut] using hout
  | succ n ih =>
    have hring := h.playOnce hcap hk
    obtain ⟨f, hout, hf, hseq, hnext, hrest⟩ | ⟨hout, d, hd, hnext, hrest⟩ | ⟨hout, hnone⟩ :=
      h.playOnce_cases hcap hk
    · -- the frame at the cursor is delivered: distances are counted from one further on
      have hnear (g : Frame) (hg : b.playOnce.2.Keeps g) :
          ahead g.sequence b.nextSeq = ahead g.sequence b.playOnce.2.nextSeq + 1 := by
        obtain ⟨hg, hne⟩ := (hrest g).mp hg
        have hpos : 1 ≤ ahead g.sequence b.nextSeq := by
          rw [Nat.one_le_iff_ne_zero, ne_eq, ahead_eq_zero]
          intro heq
          exact hne (h.keeps_injective hg hf (heq.trans hseq.symm))
        rw [hnext, ahead_add_right hpos]
        omega
      have hspan' (g : Frame) (hg : b.playOnce.2.Keeps g) :
          ahead g.sequence b.playOnce.2.nextSeq < n := by
        have hnow := hspan g ((hrest g).mp hg).1
        have := hnear g hg
        omega
      obtain ⟨hall, hsorted, hempty⟩ := ih hring hspan'
      simp only [JitterBuffer.playOut, hout, Option.toList_some, List.singleton_append]
      refine ⟨fun g => ?_, ?_, hempty⟩
      · rw [List.mem_cons, hall, hrest]
        constructor
        · rintro (rfl | ⟨hg, -⟩)
          · exact hf
          · exact hg
        · intro hg
          exact (em (g = f)).imp_right fun hne => ⟨hg, hne⟩
      · rw [List.pairwise_cons]
        refine ⟨fun g hg => ?_, hsorted.imp_of_mem fun {g g'} hg hg' hlt => ?_⟩
        · rw [hseq, ahead_self, hnear g ((hall g).mp hg)]
          omega
        · rw [hnear g ((hall g).mp hg), hnear g' ((hall g').mp hg')]
          omega
    · -- the cursor jumps by `d`
      have hnear (g : Frame) (hg : b.Keeps g) :
          ahead g.sequence b.nextSeq = ahead g.sequence b.playOnce.2.nextSeq + d := by
        have hle := (hrest g).2 hg
        rw [hnext, ahead_add_right hle]
        omega
      have hspan' (g : Frame) (hg : b.playOnce.2.Keeps g) :
          ahead g.sequence b.playOnce.2.nextSeq < n := by
        have hg' := (hrest g).1.mp hg
        have hnow := hspan g hg'
        have := hnear g hg'
        omega
      obtain ⟨hall, hsorted, hempty⟩ := ih hring hspan'
      simp only [JitterBuffer.playOut, hout, Option.toList_none, List.nil_append]
      refine ⟨fun g => (hall g).trans (hrest g).1, hsorted.imp_of_mem fun {g g'} hg hg' hlt => ?_,
        hempty⟩
      rw [hnear g ((hrest g).1.mp ((hall g).mp hg)), hnear g' ((hrest g').1.mp ((hall g').mp hg'))]
      omega
    · have hspan' (g : Frame) (hg : b.playOnce.2.Keeps g) :
          ahead g.sequence b.playOnce.2.nextSeq < n := by
        rw [hout] at hg
        exact absurd hg (hnone g)
      have hlater := ih hring hspan'
      rw [hout] at hlater
      simpa only [JitterBuffer.playOut, hout, Option.toList_none, List.nil_append] using hlater

/-- A gap costs no frame and no stall: the jump lands on the nearest frame that waits, which
comes out next, and within a window of rounds the buffer is empty, played in order. -/
theorem playout_law {b₀ : JitterBuffer capacity} (hnew : new capacity = some b₀)
    (ops : List Op) :
    let b := ops.foldl step b₀
    (b.hasPending = true → b.pop.1 = none →
      ∃ f, b.Keeps f ∧ b.skipToAvailable.pop.1 = some f ∧
        (∀ g, b.Keeps g → ahead f.sequence b.nextSeq ≤ ahead g.sequence b.nextSeq) ∧
        (∀ i, (b.slot i).occupied = true → b.skipToAvailable.slot i = b.slot i) ∧
        ∀ g, b.skipToAvailable.pop.2.Keeps g ↔ b.Keeps g ∧ g ≠ f) ∧
    (∀ f, f ∈ (b.playOut capacity).1 ↔ b.Keeps f) ∧
    (b.playOut capacity).1.Pairwise
      (fun f g => ahead f.sequence b.nextSeq < ahead g.sequence b.nextSeq) ∧
    (b.playOut capacity).2.hasPending = false := by
  intro b
  obtain ⟨k, hcap, hk, hring⟩ := ring_of_new hnew ops
  refine ⟨fun hpending hnone => ?_, ?_⟩
  · obtain ⟨f, hf, -, hmin, hslots, hkeeps, hnext, hjumped⟩ := hring.jump hcap hk hnone hpending
    have hseq : f.sequence = b.skipToAvailable.nextSeq := by
      rw [hnext, ahead, UInt32.ofNat_toNat, add_sub_cancel]
    have hpop := hjumped.pop_after_jump ((hkeeps f).mpr hf) hseq
    obtain ⟨-, -, -, hrest⟩ := hjumped.pop_some hpop
    exact ⟨f, hf, hpop, hmin, hslots, fun g => (hrest g).trans (and_congr_left' (hkeeps g))⟩
  · have hspan (f : Frame) (hf : b.Keeps f) : ahead f.sequence b.nextSeq < capacity := by
      obtain ⟨-, -, -, hwindow⟩ := hring.keeps hf
      exact hwindow
    obtain ⟨hall, hsorted, hempty⟩ := hring.playOut hcap hk capacity hspan
    refine ⟨hall, hsorted, ?_⟩
    have hleft := hring.playOut_ring hcap hk capacity
    by_contra hpending
    rw [Bool.not_eq_false, hleft.hasPending_iff] at hpending
    obtain ⟨f, hf⟩ := hpending
    exact hempty f hf

/-- A burst is lost and frame 6 arrives: one jump, and it plays. -/
theorem playout_law_burst :
    ∃ f, ((((fresh 16).step (.push ⟨0, 0, []⟩)).step .pop).step (.push ⟨6, 0, []⟩)).Keeps f ∧
      ((((fresh 16).step (.push ⟨0, 0, []⟩)).step .pop).step
        (.push ⟨6, 0, []⟩)).skipToAvailable.pop.1 = some f := by
  obtain ⟨hjump, -⟩ := playout_law (by decide +kernel : new 16 = some (fresh 16))
    [.push ⟨0, 0, []⟩, .pop, .push ⟨6, 0, []⟩]
  obtain ⟨f, hf, hpop, -⟩ := hjump (by decide +kernel) (by decide +kernel)
  exact ⟨f, hf, hpop⟩

end JitterBuffer
end GravitalTalk
