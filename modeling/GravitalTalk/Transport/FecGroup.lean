import GravitalTalk.Transport.Fec

/-!
# One group through the decoder

The frames of an aligned group and its parity, as they arrive. What the decoder
has of the group is followed through every order of arrival: it is the frames
since the last one whose sequence wrapped past zero, because such a frame is
filed under another group. The parity gives the missing frame back when
everything else is there, and it gives it back as long as the longest frame.
-/
namespace GravitalTalk

/-- The parities that come out while a group is pushed from `sequence` on. -/
def FecEncoder.pushGroup {window : ℕ} (e : FecEncoder window) (sequence : UInt32) :
    List Bytes → List FecParity × FecEncoder window
  | [] => ([], e)
  | payload :: group =>
    let r := e.push sequence payload
    let rest := FecEncoder.pushGroup r.2 (sequence + 1) group
    (r.1.toList ++ rest.1, rest.2)

theorem FecEncoder.Holds.pushGroup {window : ℕ} {e : FecEncoder window} {base : UInt32}
    {done : List Bytes} (h : e.Holds base done) {group : List Bytes} (hne : group ≠ [])
    (hlen : done.length + group.length = window) :
    (e.pushGroup (base + UInt32.ofNat done.length) group).1 =
      [⟨base, UInt8.ofNat window, groupParity (done ++ group)⟩] := by
  induction group generalizing e done with
  | nil => exact absurd rfl hne
  | cons payload group ih =>
    simp only [List.length_cons] at hlen
    have hnext : base + UInt32.ofNat done.length + 1 =
        base + UInt32.ofNat (done ++ [payload]).length := by
      rw [List.length_append, List.length_singleton, UInt32.ofNat_add, ← add_assoc]
      rfl
    obtain ⟨hfull, hout, hstart⟩ | ⟨hroom, hout, hmore⟩ := h.push payload rfl
    · have hnil : group = [] := List.eq_nil_of_length_eq_zero (by omega)
      subst hnil
      simp [FecEncoder.pushGroup, hout]
    · have hgroup : group ≠ [] := by
        rintro rfl
        simp at hlen
        omega
      have hrest := ih hmore hgroup (by simp; omega)
      simp only [FecEncoder.pushGroup, hout, Option.toList_none, List.nil_append, hnext, hrest,
        List.append_assoc, List.singleton_append]

/-- A complete group gives one parity, at its end. -/
theorem FecEncoder.pushGroup_eq {window : ℕ} (hw : 0 < window) {e : FecEncoder window}
    (he : e.count = 0) (base : UInt32) {group : List Bytes} (hlen : group.length = window) :
    (e.pushGroup base group).1 = [⟨base, UInt8.ofNat window, groupParity group⟩] := by
  have hstart : e.Holds base [] := ⟨he, by simp, by simp⟩
  have hne : group ≠ [] := by
    rintro rfl
    rw [← hlen] at hw
    exact absurd hw (lt_irrefl 0)
  simpa using hstart.pushGroup hne (by simpa using hlen)

namespace FecDecoder

variable {window : ℕ}

/-- What can arrive of a group: one of its frames, or its parity. -/
inductive Arrival
  | data (offset : ℕ)
  | parity
  deriving DecidableEq, Repr

/-- An arrival of the group `group` that starts at `base`, and what it gives back:
`push_data` only tells whether the frame was filed. -/
def arrive (base : UInt32) (group : List Bytes) (d : FecDecoder window) :
    Arrival → Option (UInt32 × Bytes) × FecDecoder window
  | .data i => (none, (d.pushData (base + UInt32.ofNat i) (group.getD i [])).2)
  | .parity => d.pushParity ⟨base, UInt8.ofNat window, groupParity group⟩

/-- The decoder after some arrivals. -/
def after (base : UInt32) (group : List Bytes) (d : FecDecoder window) (as : List Arrival) :
    FecDecoder window := as.foldl (fun d a => (d.arrive base group a).2) d

/-- Everything that is given back during some arrivals. -/
def givenBack (base : UInt32) (group : List Bytes) (d : FecDecoder window) :
    List Arrival → List (UInt32 × Bytes)
  | [] => []
  | a :: as => (d.arrive base group a).1.toList ++
      givenBack base group (d.arrive base group a).2 as

/-- The sequence of frame `i` is past the wrap of the counter. -/
def Wraps (base : UInt32) (i : ℕ) : Prop := 2 ^ 32 ≤ base.toNat + i

instance (base : UInt32) (i : ℕ) : Decidable (Wraps base i) := Nat.decLe _ _

/-- The offsets the decoder has filed under the group: a frame past the wrap starts another
group and what was there is dropped. -/
def filed (base : UInt32) (js : List ℕ) : Arrival → List ℕ
  | .data i => if Wraps base i then [] else i :: js
  | .parity => js

/-- The decoder, once set to the group, has the frames at `js` and no others. -/
structure Gathered (base : UInt32) (group : List Bytes) (d : FecDecoder window) (js : List ℕ) :
    Prop where
  length : (d.select base).received.length = window
  place : ∀ i < window, (d.select base).received.getD i none =
    if i ∈ js then some (group.getD i []) else none

theorem Apart.gathered {base : UInt32} {d : FecDecoder window} (h : d.Apart base)
    (group : List Bytes) : d.Gathered base group [] := by
  have hnew : (!d.active || d.seqBase != base) = true := by
    rcases h with h | h <;> simp [h]
  constructor
  · simp [select, hnew, startGroup]
  · intro i hi
    simp [select, hnew, startGroup, List.getD_eq_getElem?_getD, hi]

theorem toNat_groupBase (hw : 0 < window) (hw' : window < 256) (seq : UInt32) :
    (groupBase window seq).toNat = seq.toNat - seq.toNat % window := by
  have hwindow : (UInt32.ofNat window).toNat = window := by
    rw [UInt32.toNat_ofNat', Nat.mod_eq_of_lt (by omega)]
  have hlt := seq.toNat_lt
  have hmod := Nat.mod_le seq.toNat window
  rw [groupBase, UInt32.toNat_sub, UInt32.toNat_mod, hwindow]
  omega

/-- A frame of an aligned group is filed under it, unless its sequence wrapped. -/
theorem groupBase_eq_iff {base : UInt32} (hw' : window < 256) (hbase : base.toNat % window = 0)
    {i : ℕ} (hi : i < window) :
    groupBase window (base + UInt32.ofNat i) = base ↔ ¬ Wraps base i := by
  have hw : 0 < window := Nat.zero_lt_of_lt hi
  have hb := base.toNat_lt
  have hseq : (base + UInt32.ofNat i).toNat = (base.toNat + i) % 2 ^ 32 := by
    rw [UInt32.toNat_add, UInt32.toNat_ofNat', Nat.mod_eq_of_lt (by omega : i < 2 ^ 32)]
  rw [← UInt32.toNat_inj, toNat_groupBase hw hw', hseq, Wraps, not_le]
  constructor
  · intro heq
    by_contra hwrap
    have hsmall : (base.toNat + i) % 2 ^ 32 < window := by omega
    rw [Nat.mod_eq_of_lt hsmall] at heq
    omega
  · intro hfits
    have hrest : (base.toNat + i) % window = i := by
      rw [Nat.add_mod, hbase, zero_add, Nat.mod_mod, Nat.mod_eq_of_lt hi]
    rw [Nat.mod_eq_of_lt hfits, hrest]
    omega

theorem select_of_eq {d : FecDecoder window} {base : UInt32} (hactive : d.active = true)
    (hbase : d.seqBase = base) : d.select base = d := by
  simp [select, hactive, hbase]

theorem seqBase_pushData (d : FecDecoder window) (seq : UInt32) (payload : Bytes) :
    (d.pushData seq payload).2.seqBase = groupBase window seq := by
  unfold pushData
  dsimp only
  split_ifs <;> exact seqBase_select d _

/-- One arrival: what is filed under the group afterwards. -/
theorem Gathered.arrive {base : UInt32} (hw' : window < 256) (hbase : base.toNat % window = 0)
    {group : List Bytes} {d : FecDecoder window} {js : List ℕ} (h : d.Gathered base group js)
    {a : Arrival} (ha : ∀ i, a = .data i → i < window) :
    (d.arrive base group a).2.Gathered base group (filed base js a) := by
  cases a with
  | parity =>
    have hself : (d.arrive base group .parity).2.select base = (d.arrive base group .parity).2 :=
      select_of_eq (active_select d base) (seqBase_select d base)
    constructor
    · rw [hself]
      exact h.length
    · rw [hself]
      exact h.place
  | data i =>
    have hi := ha i rfl
    by_cases hwrap : Wraps base i
    · have hother : (d.arrive base group (.data i)).2.Apart base := by
        right
        rw [FecDecoder.arrive, seqBase_pushData]
        exact fun heq => (groupBase_eq_iff hw' hbase hi).mp heq hwrap
      rw [filed, if_pos hwrap]
      exact hother.gathered group
    · have hplace : (d.arrive base group (.data i)).2 =
          { d.select base with
            received := (d.select base).received.set i (some (group.getD i [])) } := by
        have hoffset : (base + UInt32.ofNat i - (d.select base).seqBase).toNat = i := by
          rw [seqBase_select, add_sub_cancel_left, UInt32.toNat_ofNat', Nat.mod_eq_of_lt (by omega)]
        rw [FecDecoder.arrive, pushData, (groupBase_eq_iff hw' hbase hi).mpr hwrap]
        dsimp only
        rw [hoffset, if_pos hi]
      have hself : (d.arrive base group (.data i)).2.select base =
          (d.arrive base group (.data i)).2 := select_of_eq
        (by rw [hplace]; exact active_select d base) (by rw [hplace]; exact seqBase_select d base)
      rw [filed, if_neg hwrap]
      constructor
      · rw [hself, hplace]
        simpa using h.length
      · rw [hself, hplace]
        intro j hj
        have hold := h.place j hj
        rw [List.getD_eq_getElem?_getD] at hold ⊢
        rw [List.getElem?_set]
        by_cases hij : i = j
        · subst hij
          simp [h.length, hi]
        · simpa [hij, Ne.symm hij] using hold

/-- The offsets filed under the group after some arrivals. -/
def filedAfter (base : UInt32) (js : List ℕ) (as : List Arrival) : List ℕ :=
  as.foldl (filed base) js

theorem Gathered.after {base : UInt32} (hw' : window < 256) (hbase : base.toNat % window = 0)
    {group : List Bytes} {as : List Arrival} (has : ∀ i, .data i ∈ as → i < window)
    {d : FecDecoder window} {js : List ℕ} (h : d.Gathered base group js) :
    (d.after base group as).Gathered base group (filedAfter base js as) := by
  induction as generalizing d js with
  | nil => exact h
  | cons a as ih =>
    apply ih
    · exact fun i hi => has i (List.mem_cons_of_mem _ hi)
    · exact h.arrive hw' hbase fun i hi => has i (hi ▸ List.mem_cons_self)

/-- Only frames that arrived and did not wrap are filed. -/
theorem mem_filedAfter {base : UInt32} {as : List Arrival} {js : List ℕ} {i : ℕ}
    (h : i ∈ filedAfter base js as) : i ∈ js ∨ .data i ∈ as ∧ ¬ Wraps base i := by
  induction as generalizing js with
  | nil => exact .inl h
  | cons a as ih =>
    obtain hi | ⟨hi, hwrap⟩ := ih h
    · cases a with
      | parity => exact .inl hi
      | data j =>
        rw [filed] at hi
        split_ifs at hi with hj
        · cases hi
        · obtain rfl | hi := List.mem_cons.mp hi
          · exact .inr ⟨List.mem_cons_self, hj⟩
          · exact .inl hi
    · exact .inr ⟨List.mem_cons_of_mem _ hi, hwrap⟩

/-- With no wrap among them, all the frames that arrived are filed. -/
theorem filedAfter_complete {base : UInt32} {as : List Arrival}
    (hfits : ∀ i, .data i ∈ as → ¬ Wraps base i) {js : List ℕ} {i : ℕ} :
    i ∈ filedAfter base js as ↔ i ∈ js ∨ .data i ∈ as := by
  constructor
  · intro h
    exact (mem_filedAfter h).imp_right And.left
  · induction as generalizing js with
    | nil => simp [filedAfter]
    | cons a as ih =>
      intro h
      apply ih fun j hj => hfits j (List.mem_cons_of_mem _ hj)
      cases a with
      | parity => simpa [filed] using h
      | data j =>
        have hj := hfits j List.mem_cons_self
        rw [filed, if_neg hj, List.mem_cons]
        rw [List.mem_cons, Arrival.data.injEq] at h
        tauto

/-! ## What the parity gives back -/

theorem missing_eq_singleton_iff {received : List (Option Bytes)} {k : ℕ} :
    missing received = [k] ↔ k < received.length ∧ received.getD k none = none ∧
      ∀ i < received.length, i ≠ k → (received.getD i none).isSome := by
  constructor
  · intro h
    obtain ⟨hk, hothers⟩ := missing_eq_singleton h
    have hmem : k ∈ missing received := by simp [h]
    rw [missing, List.mem_filter, Option.isNone_iff_eq_none] at hmem
    exact ⟨hk, hmem.2, hothers⟩
  · rintro ⟨hk, hnone, hothers⟩
    have hfilter : missing received = (List.range received.length).filter (· == k) := by
      apply List.filter_congr
      intro i hi
      rw [List.mem_range] at hi
      by_cases hik : i = k
      · rw [hik, hnone, beq_self_eq_true]
        rfl
      · rw [beq_false_of_ne hik, Option.isNone_eq_false_iff]
        exact hothers i hi hik
    rw [hfilter, List.filter_beq, List.count_eq_one_of_mem List.nodup_range
      (List.mem_range.mpr hk)]
    rfl

/-- What the parity of the group gives back. -/
theorem Gathered.parity {base : UInt32} {group : List Bytes} (hlen : group.length = window)
    {d : FecDecoder window} {js : List ℕ} (h : d.Gathered base group js) {k : ℕ} (hk : k < window)
    (hjs : ∀ i < window, i ∈ js ↔ i ≠ k) : ∃ out, SamePadded out (group.getD k []) ∧
      out.length = (groupParity group).length ∧
      (d.arrive base group .parity).1 = some (base + UInt32.ofNat k, out) := by
  have hmissing : missing (d.select base).received = [k] := by
    rw [missing_eq_singleton_iff, h.length]
    refine ⟨hk, ?_, fun i hi hik => ?_⟩
    · rw [h.place k hk, if_neg (by simpa using (hjs k hk).not)]
    · rw [h.place i hi, if_pos ((hjs i hi).mpr hik)]
      rfl
  have hagrees : (d.select base).Agrees fun i => group.getD i [] := by
    refine ⟨h.length, fun i p hp => ?_⟩
    have hi : i < window := by
      rw [← h.length]
      exact (List.getElem?_eq_some_iff.mp hp).1
    have hplace := h.place i hi
    rw [List.getD_eq_getElem?_getD, hp, Option.getD_some] at hplace
    split_ifs at hplace
    exact Option.some.inj hplace
  have hgroup : (List.range window).map (fun i => group.getD i []) = group := by
    apply List.ext_getElem
    · simp [hlen]
    · intro i hi hi'
      simp [hi']
  have hget : group[k]? = some (group.getD k []) := by
    simp [hlen ▸ hk]
  refine ⟨(group.eraseIdx k).foldl xorInto (groupParity group), recover_groupParity hget,
    length_foldl_xorInto _ _, ?_⟩
  have hpresent := hagrees.present hmissing
  rw [hgroup] at hpresent
  simp only [FecDecoder.arrive, pushParity, tryRecover, hmissing, hpresent, seqBase_select]

/-- With two frames missing, or a frame missing that is not the lost one, nothing comes back. -/
theorem Gathered.parity_none {base : UInt32} {group : List Bytes} {d : FecDecoder window}
    {js : List ℕ} (h : d.Gathered base group js) {i k : ℕ} (hi : i < window) (hk : k < window)
    (hik : i ≠ k) (hi' : i ∉ js) (hk' : k ∉ js) : (d.arrive base group .parity).1 = none := by
  have hmissing (l : ℕ) : missing (d.select base).received ≠ [l] := by
    rw [ne_eq, missing_eq_singleton_iff, h.length]
    rintro ⟨-, -, hothers⟩
    have hsome (j : ℕ) (hj : j < window) (hout : j ∉ js) : j = l := by
      by_contra hjl
      have := hothers j hj hjl
      rw [h.place j hj, if_neg hout] at this
      cases this
    exact hik ((hsome i hi hi').trans (hsome k hk hk').symm)
  simp only [FecDecoder.arrive, pushParity, tryRecover]
  split
  · rename_i hl
    exact absurd hl (hmissing _)
  · rfl

/-- All other frames of the group are there, and none of them wrapped. -/
def Complete (window : ℕ) (base : UInt32) (lost : ℕ) (as : List Arrival) : Prop :=
  ∀ i < window, i ≠ lost → .data i ∈ as ∧ ¬ Wraps base i

/-- The parity after some frames of a group: it gives the lost one back when the others are
complete, and nothing otherwise. -/
theorem parity_after (hw' : window < 256) {base : UInt32} (hbase : base.toNat % window = 0)
    {group : List Bytes} (hlen : group.length = window) {d : FecDecoder window} (hd : d.Apart base)
    {lost : ℕ} (hlost : lost < window) (as : List Arrival)
    (has : ∀ i, .data i ∈ as → i < window ∧ i ≠ lost) :
    (Complete window base lost as → ∃ out, SamePadded out (group.getD lost []) ∧
      out.length = (groupParity group).length ∧
      ((d.after base group as).arrive base group .parity).1 =
        some (base + UInt32.ofNat lost, out)) ∧
    (¬ Complete window base lost as →
      ((d.after base group as).arrive base group .parity).1 = none) := by
  have hgathered := (hd.gathered group).after hw' hbase fun i hi => (has i hi).1
  have hout : lost ∉ filedAfter base [] as := by
    intro hmem
    obtain hmem | ⟨hmem, -⟩ := mem_filedAfter hmem
    · cases hmem
    · exact (has lost hmem).2 rfl
  constructor
  · intro hcomplete
    apply hgathered.parity hlen hlost
    intro i hi
    have hfits : ∀ j, .data j ∈ as → ¬ Wraps base j := fun j hj =>
      (hcomplete j (has j hj).1 (has j hj).2).2
    rw [filedAfter_complete hfits]
    constructor
    · rintro (hmem | hmem)
      · cases hmem
      · exact (has i hmem).2
    · intro hne
      exact .inr (hcomplete i hi hne).1
  · intro hpartial
    unfold Complete at hpartial
    push Not at hpartial
    obtain ⟨i, hi, hne, hmissing⟩ := hpartial
    apply hgathered.parity_none hi hlost hne _ hout
    intro hmem
    obtain hmem | ⟨hmem, hwrap⟩ := mem_filedAfter hmem
    · cases hmem
    · exact hwrap (hmissing hmem)

/-- The frames of a group but one, in order. -/
def others (window lost : ℕ) : List Arrival := ((List.range window).erase lost).map .data

theorem mem_others {lost i : ℕ} : .data i ∈ others window lost ↔ i < window ∧ i ≠ lost := by
  rw [others, List.mem_map]
  constructor
  · rintro ⟨j, hj, heq⟩
    cases heq
    rw [List.nodup_range.mem_erase_iff, List.mem_range] at hj
    exact hj.symm
  · intro hi
    exact ⟨i, by rwa [List.nodup_range.mem_erase_iff, List.mem_range, and_comm], rfl⟩

/-- Recovery is exact only for a frame that is as long as the longest of its group: the parity
does not tell where a shorter one ended. -/
theorem exact_recovery_iff (hw' : window < 256) {e : FecEncoder window} (he : e.count = 0)
    {d : FecDecoder window} {base : UInt32} (hbase : base.toNat % window = 0) (hd : d.Apart base)
    {group : List Bytes} (hlen : group.length = window) {lost : ℕ} (hlost : lost < window) :
    ((e.pushGroup base group).1.map fun parity =>
        ((d.after base group (others window lost)).pushParity parity).1) =
      [some (base + UInt32.ofNat lost, group.getD lost [])] ↔
    (∀ i < window, i ≠ lost → ¬ Wraps base i) ∧
      ∀ payload ∈ group, payload.length ≤ (group.getD lost []).length := by
  have hmem : group.getD lost [] ∈ group := by
    rw [List.getD_eq_getElem?_getD, List.getElem?_eq_getElem (hlen ▸ hlost), Option.getD_some]
    exact List.getElem_mem _
  have hcomplete : Complete window base lost (others window lost) ↔
      ∀ i < window, i ≠ lost → ¬ Wraps base i := by
    constructor
    · intro h i hi hne
      exact (h i hi hne).2
    · intro h i hi hne
      exact ⟨mem_others.mpr ⟨hi, hne⟩, h i hi hne⟩
  obtain ⟨hback, hnothing⟩ := parity_after hw' hbase hlen hd hlost
    (others window lost) fun i hi => mem_others.mp hi
  rw [e.pushGroup_eq (Nat.zero_lt_of_lt hlost) he base hlen, ← hcomplete]
  change [((d.after base group (others window lost)).arrive base group .parity).1] = _ ↔ _
  by_cases hall : Complete window base lost (others window lost)
  · obtain ⟨out, hsame, hlength, hanswer⟩ := hback hall
    rw [hanswer, List.singleton_inj, Option.some_inj, Prod.mk.injEq, eq_self, true_and,
      hsame.eq_iff, hlength, length_groupParity_eq_iff hmem]
    exact (and_iff_right hall).symm
  · rw [hnothing hall]
    simp [hall]

theorem exact_recovery_longest :
    (((FecEncoder.new 2).pushGroup 0 [[1, 2], [3]]).1.map fun parity =>
      (((new 2).after 0 [[1, 2], [3]] (others 2 0)).pushParity parity).1) =
        [some (0 + UInt32.ofNat 0, [1, 2])] :=
  (exact_recovery_iff (by decide) rfl (by decide) (.inl rfl) rfl (by decide)).mpr
    ⟨by decide, by decide⟩

/-- A frame of one byte comes back with two. -/
theorem exact_recovery_padded :
    (((FecEncoder.new 2).pushGroup 0 [[1, 2], [3]]).1.map fun parity =>
      (((new 2).after 0 [[1, 2], [3]] (others 2 1)).pushParity parity).1) ≠
        [some (0 + UInt32.ofNat 1, [3])] := by
  decide

/-! ## Every order of arrival -/

theorem givenBack_append (base : UInt32) (group : List Bytes) (d : FecDecoder window)
    (as bs : List Arrival) : d.givenBack base group (as ++ bs) =
      d.givenBack base group as ++ (d.after base group as).givenBack base group bs := by
  induction as generalizing d with
  | nil => rfl
  | cons a as ih =>
    rw [List.cons_append, givenBack, givenBack, ih, List.append_assoc]
    rfl

/-- Frames alone give nothing back. -/
theorem givenBack_data (base : UInt32) (group : List Bytes) (d : FecDecoder window)
    {as : List Arrival} (has : .parity ∉ as) : d.givenBack base group as = [] := by
  induction as generalizing d with
  | nil => rfl
  | cons a as ih =>
    rw [List.mem_cons, not_or] at has
    cases a with
    | parity => exact absurd rfl has.1
    | data i => exact ih _ has.2

/-- Recovery is tried only when the parity arrives: the missing frame comes out when the
parity is the last to arrive, and in no other order. -/
theorem available_iff (hw' : window < 256) {d : FecDecoder window}
    {base : UInt32} (hbase : base.toNat % window = 0) (hd : d.Apart base) {group : List Bytes}
    (hlen : group.length = window) {lost : ℕ} (hlost : lost < window) {as : List Arrival}
    (has : as.Perm (.parity :: others window lost)) :
    (∃ out, SamePadded out (group.getD lost []) ∧
      (base + UInt32.ofNat lost, out) ∈ d.givenBack base group as) ↔
    as.getLast? = some .parity ∧ ∀ i < window, i ≠ lost → ¬ Wraps base i := by
  obtain ⟨pre, post, rfl⟩ := List.append_of_mem (has.mem_iff.mpr List.mem_cons_self)
  have hdata : (pre ++ post).Perm (others window lost) :=
    (List.perm_middle.symm.trans has).cons_inv
  have hframes (i : ℕ) : .data i ∈ pre ++ post ↔ i < window ∧ i ≠ lost := by
    rw [hdata.mem_iff, mem_others]
  have hparity : .parity ∉ pre ++ post := by
    rw [hdata.mem_iff, others, List.mem_map]
    rintro ⟨i, -, hi⟩
    cases hi
  rw [List.mem_append, not_or] at hparity
  obtain ⟨hback, hnothing⟩ := parity_after hw' hbase hlen hd hlost
    pre fun i hi => (hframes i).mp (List.mem_append_left _ hi)
  have hgiven : d.givenBack base group (pre ++ .parity :: post) =
      ((d.after base group pre).arrive base group .parity).1.toList := by
    rw [givenBack_append, givenBack_data base group d hparity.1, givenBack,
      givenBack_data base group _ hparity.2, List.append_nil, List.nil_append]
  -- the parity is last exactly when every other frame is before it
  have hlast : (pre ++ .parity :: post).getLast? = some .parity ↔ post = [] := by
    constructor
    · intro hlast
      by_contra hne
      obtain ⟨a, ha⟩ := List.getLast?_isSome.mpr hne |> Option.isSome_iff_exists.mp
      rw [List.getLast?_append, List.getLast?_cons, ha] at hlast
      obtain rfl : a = .parity := by simpa using hlast
      exact hparity.2 (List.mem_of_getLast? ha)
    · rintro rfl
      simp
  have hcomplete : Complete window base lost pre ↔
      post = [] ∧ ∀ i < window, i ≠ lost → ¬ Wraps base i := by
    have hnodup : (pre ++ post).Nodup := by
      rw [hdata.nodup_iff]
      exact (List.nodup_range.erase lost).map fun i j hij => Arrival.data.inj hij
    constructor
    · intro hall
      refine ⟨List.eq_nil_iff_forall_not_mem.mpr fun a ha => ?_, fun i hi hne => (hall i hi hne).2⟩
      cases a with
      | parity => exact hparity.2 ha
      | data i =>
        obtain ⟨hi, hne⟩ := (hframes i).mp (List.mem_append_right _ ha)
        exact (List.nodup_append.mp hnodup).2.2 _ (hall i hi hne).1 _ ha rfl
    · rintro ⟨rfl, hfits⟩ i hi hne
      exact ⟨by simpa using (hframes i).mpr ⟨hi, hne⟩, hfits i hi hne⟩
  rw [hgiven, hlast, ← hcomplete]
  by_cases hall : Complete window base lost pre
  · obtain ⟨out, hsame, -, hanswer⟩ := hback hall
    simp only [hanswer, hall, iff_true]
    exact ⟨out, hsame, by simp⟩
  · rw [hnothing hall]
    simp [hall]

theorem available_late :
    ∃ out, SamePadded out (([[1], [2]] : List Bytes).getD 1 []) ∧
      (0 + UInt32.ofNat 1, out) ∈ (new 2).givenBack 0 [[1], [2]] [.data 0, .parity] :=
  (available_iff (d := new 2) (by decide) (by decide) (.inl rfl) rfl (by decide)
    (by decide : [Arrival.data 0, .parity].Perm (.parity :: others 2 1))).mpr ⟨rfl, by decide⟩

/-- The parity overtakes the frame that is not lost: nothing comes back. -/
theorem available_early :
    [Arrival.parity, .data 0].Perm (.parity :: others 2 1) ∧
    ¬ ∃ out, SamePadded out [2] ∧
      (0 + UInt32.ofNat 1, out) ∈ (new 2).givenBack 0 [[1], [2]] [.parity, .data 0] := by
  refine ⟨by decide, ?_⟩
  rintro ⟨out, -, hmem⟩
  have hnone : (new 2).givenBack 0 [[1], [2]] [.parity, .data 0] = [] := by decide
  rw [hnone] at hmem
  cases hmem

end FecDecoder
end GravitalTalk
