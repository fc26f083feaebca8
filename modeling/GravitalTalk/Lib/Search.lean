import Mathlib.Data.List.Infix

/-!
# Searching a text

What stands behind the first place where a pattern occurs, and behind the first
separator behind that place.
-/
namespace GravitalTalk
namespace Search

variable {α : Type*} [DecidableEq α]

/-- What follows the first occurrence of `pattern`. -/
def after (pattern : List α) : List α → Option (List α)
  | [] => if pattern = [] then some [] else none
  | c :: s =>
    if pattern <+: c :: s then some ((c :: s).drop pattern.length) else after pattern s

/-- What follows the first `sep` behind the first occurrence of `pattern`. -/
def behind (pattern : List α) (sep : α) (s : List α) : Option (List α) :=
  (after pattern s).bind (after [sep])

variable {pattern : List α} {sep : α} {s t r : List α}

theorem length_le_of_after (h : after pattern s = some r) : pattern.length ≤ s.length := by
  induction s with
  | nil =>
    rw [after] at h
    split_ifs at h with hempty
    rw [hempty]
  | cons c s ih =>
    rw [after] at h
    split_ifs at h with hhere
    · exact hhere.length_le
    · exact (ih h).trans (Nat.le_succ _)

omit [DecidableEq α] in
/-- A pattern is found at the front of a longer text where it is found in the shorter one, if it
fits there. -/
theorem prefix_append_iff (hfits : pattern.length ≤ s.length) :
    pattern <+: s ++ t ↔ pattern <+: s := by
  constructor
  · exact fun h => List.prefix_of_prefix_length_le h (List.prefix_append s t) hfits
  · exact fun h => h.trans (List.prefix_append s t)

/-- More text at the end does not change where a pattern is found first. -/
theorem after_append (t : List α) (h : after pattern s = some r) :
    after pattern (s ++ t) = some (r ++ t) := by
  induction s with
  | nil =>
    rw [after] at h
    split_ifs at h with hempty
    obtain rfl : [] = r := Option.some.inj h
    subst hempty
    cases t with
    | nil => rfl
    | cons c t => simp [after]
  | cons c s ih =>
    have hfront := prefix_append_iff (t := t) (length_le_of_after h)
    rw [after] at h
    rw [List.cons_append, after, ← List.cons_append]
    split_ifs at h with hhere
    · rw [if_pos (hfront.mpr hhere), ← Option.some.inj h,
        List.drop_append_of_le_length hhere.length_le]
    · rw [if_neg (mt hfront.mp hhere), ih h]

/-- Text in front that does not hold a pattern, and does not end within it, is passed over. -/
theorem after_append_self (hpattern : pattern ≠ []) (hnone : after pattern s = none)
    (hlast : ∀ c ∈ s.getLast?, c ∉ pattern) (t : List α) :
    after pattern (s ++ (pattern ++ t)) = some t := by
  induction s with
  | nil =>
    cases hcons : pattern ++ t with
    | nil => exact absurd (List.append_eq_nil_iff.mp hcons).1 hpattern
    | cons c rest =>
      rw [List.nil_append, after, ← hcons, if_pos (List.prefix_append pattern t),
        List.drop_left]
  | cons c s ih =>
    rw [after] at hnone
    split_ifs at hnone with hhere
    have hlater : ¬ pattern <+: c :: s ++ (pattern ++ t) := by
      intro hfront
      by_cases hfits : pattern.length ≤ (c :: s).length
      · exact hhere ((prefix_append_iff hfits).mp hfront)
      · -- the pattern covers the front, and so holds its last element
        have hcover : c :: s <+: pattern :=
          List.prefix_of_prefix_length_le (List.prefix_append _ _) hfront (by omega)
        exact hlast _ (List.getLast?_eq_getLast_of_ne_nil (List.cons_ne_nil c s))
          (hcover.subset (List.getLast_mem _))
    rw [List.cons_append, after, ← List.cons_append, if_neg hlater]
    apply ih hnone
    intro d hd
    apply hlast
    rw [List.getLast?_cons, hd]
    rfl

theorem after_singleton (hsep : sep ∉ s) (t : List α) : after [sep] (s ++ sep :: t) = some t := by
  have hnone : after [sep] s = none := by
    induction s with
    | nil => simp [after]
    | cons c s ih =>
      rw [List.mem_cons, not_or] at hsep
      simp [after, hsep.1, ih hsep.2]
  apply after_append_self (List.cons_ne_nil sep []) hnone
  intro c hc hmem
  rw [List.mem_singleton.mp hmem] at hc
  exact hsep (List.mem_of_mem_getLast? hc)

theorem not_mem_of_after_singleton (h : after [sep] s = none) : sep ∉ s := by
  induction s with
  | nil => exact List.not_mem_nil
  | cons c s ih =>
    rw [after] at h
    split_ifs at h with hhere
    rw [List.mem_cons, not_or]
    exact ⟨fun heq => hhere (by rw [heq]; simp), ih h⟩

/-- Where the text in front holds no pattern with a separator behind it, the separator behind the
pattern at its end is the one. -/
theorem behind_append_self (hpattern : pattern ≠ []) (hnone : behind pattern sep s = none)
    (hlast : ∀ c ∈ s.getLast?, c ∉ pattern) {gap : List α} (hsep : sep ∉ pattern)
    (hgap : sep ∉ gap) (t : List α) :
    behind pattern sep (s ++ (pattern ++ (gap ++ sep :: t))) = some t := by
  rw [behind] at hnone ⊢
  cases hfound : after pattern s with
  | none =>
    rw [after_append_self hpattern hfound hlast]
    exact after_singleton hgap t
  | some r =>
    -- a mention without a separator: the next one is behind the pattern all the same
    rw [hfound] at hnone
    have hr : sep ∉ r := not_mem_of_after_singleton hnone
    have hclear : sep ∉ r ++ (pattern ++ gap) := by
      simp [hr, hsep, hgap]
    rw [after_append _ hfound]
    have happly := after_singleton hclear t
    rw [List.append_assoc, List.append_assoc] at happly
    exact happly

end Search
end GravitalTalk
