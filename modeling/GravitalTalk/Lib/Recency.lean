import Mathlib.Data.List.Dedup
import Mathlib.Data.Finset.Card
import Mathlib.Tactic

/-!
# Recency

Entries are mentioned one after the other, with repetitions. `dedup` keeps the
last mention of each, so its back holds the entries mentioned most recently. A
bounded queue that takes entries in once, at their first mention, and makes room
at the front holds these only while what leaves was mentioned before what stays.
-/
namespace GravitalTalk
namespace Recency

variable {α : Type*} [DecidableEq α] {m l hs kept : List α} {a b : α} {n : ℕ}

/-- The last mention of `a` comes before the last mention of `b`. -/
def LastBefore (m : List α) (a b : α) : Prop := m.reverse.idxOf b < m.reverse.idxOf a

instance (m : List α) (a b : α) : Decidable (LastBefore m a b) :=
  inferInstanceAs (Decidable (_ < _))

theorem LastBefore.asymm (h : LastBefore m a b) : ¬ LastBefore m b a := not_lt_of_gt h

theorem lastBefore_append_of_mem (ha : a ∉ l) (hb : b ∈ l) : LastBefore (m ++ l) a b := by
  have hfound : l.reverse.idxOf b < l.reverse.length := List.idxOf_lt_length_of_mem (by simpa)
  rw [LastBefore, List.reverse_append, List.idxOf_append_of_mem (by simpa),
    List.idxOf_append_of_notMem (by simpa)]
  omega

theorem lastBefore_append_iff (ha : a ∉ l) (hb : b ∉ l) :
    LastBefore (m ++ l) a b ↔ LastBefore m a b := by
  rw [LastBefore, List.reverse_append, List.idxOf_append_of_notMem (by simpa),
    List.idxOf_append_of_notMem (by simpa), LastBefore]
  omega

theorem lastBefore_cons_iff {x : α} (ha : a ∈ m) (hb : b ∈ m) :
    LastBefore (x :: m) a b ↔ LastBefore m a b := by
  rw [LastBefore, List.reverse_cons, List.idxOf_append_of_mem (by simpa),
    List.idxOf_append_of_mem (by simpa), LastBefore]

/-- `dedup` lists the entries in the order of their last mentions. -/
theorem pairwise_dedup (m : List α) : m.dedup.Pairwise (LastBefore m) := by
  induction m with
  | nil => exact List.Pairwise.nil
  | cons x m ih =>
    have hrest : m.dedup.Pairwise (LastBefore (x :: m)) := by
      refine ih.imp_of_mem ?_
      intro a b ha hb h
      exact (lastBefore_cons_iff (List.mem_dedup.mp ha) (List.mem_dedup.mp hb)).mpr h
    by_cases hx : x ∈ m
    · rw [List.dedup_cons_of_mem hx]
      exact hrest
    · rw [List.dedup_cons_of_notMem hx]
      refine List.pairwise_cons.mpr ⟨?_, hrest⟩
      intro b hb
      exact lastBefore_append_of_mem (m := [x]) hx (List.mem_dedup.mp hb)

/-- The (at most) `n` distinct entries mentioned most recently. -/
def freshest (n : ℕ) (m : List α) : List α := m.dedup.drop (m.dedup.length - n)

theorem nodup_freshest (n : ℕ) (m : List α) : (freshest n m).Nodup :=
  (List.nodup_dedup m).sublist (List.drop_sublist _ _)

theorem length_freshest (n : ℕ) (m : List α) :
    (freshest n m).length = min n m.dedup.length := by
  rw [freshest, List.length_drop]
  omega

theorem mem_of_mem_freshest (h : a ∈ freshest n m) : a ∈ m :=
  List.mem_dedup.mp (List.mem_of_mem_drop h)

theorem lastBefore_of_freshest (ha : a ∈ m) (hstale : a ∉ freshest n m)
    (hb : b ∈ freshest n m) : LastBefore m a b := by
  have hsplit := List.take_append_drop (m.dedup.length - n) m.dedup
  have hpairs := pairwise_dedup m
  rw [← hsplit, List.pairwise_append] at hpairs
  refine hpairs.2.2 a ?_ b hb
  rw [← List.mem_dedup, ← hsplit, List.mem_append] at ha
  exact ha.resolve_right hstale

/-- As many distinct entries as there should be are the freshest ones exactly when nothing
missing was mentioned after one of them. -/
theorem eq_freshest_iff (hnodup : kept.Nodup) (hsub : kept ⊆ m)
    (hlen : kept.length = min n m.dedup.length) :
    (∀ a, a ∈ kept ↔ a ∈ freshest n m) ↔
      ∀ a ∈ m, a ∉ kept → ∀ b ∈ kept, LastBefore m a b := by
  constructor
  · intro h a ha hmissing b hb
    exact lastBefore_of_freshest ha (mt (h a).mpr hmissing) ((h b).mp hb)
  · intro h
    have hcard : kept.toFinset.card = (freshest n m).toFinset.card := by
      rw [List.toFinset_card_of_nodup hnodup,
        List.toFinset_card_of_nodup (nodup_freshest n m), hlen, length_freshest]
    -- An entry kept but stale leaves room for a fresh one, which is then missing.
    have hle : kept.toFinset ⊆ (freshest n m).toFinset := by
      by_contra hno
      obtain ⟨b, hb, hstale⟩ := Finset.not_subset.mp hno
      obtain ⟨a, ha, hmissing⟩ : ∃ a ∈ (freshest n m).toFinset, a ∉ kept.toFinset := by
        refine Finset.not_subset.mp fun hsubset => hno ?_
        exact (Finset.eq_of_subset_of_card_le hsubset hcard.le).symm.subset
      rw [List.mem_toFinset] at hb hstale ha hmissing
      exact (h a (mem_of_mem_freshest ha) hmissing b hb).asymm
        (lastBefore_of_freshest (hsub hb) hstale ha)
    have heq := Finset.eq_of_subset_of_card_le hle hcard.symm.le
    intro a
    rw [← List.mem_toFinset, heq, List.mem_toFinset]

/-! ## A queue by first mention -/

/-- The stored entries followed by the new ones in the order of their first mention. -/
def queue (hs l : List α) : List α := hs ++ (l.filter (· ∉ hs)).eraseDups

theorem queue_eq_foldl (hs l : List α) :
    queue hs l = l.foldl (fun hs a => if a ∈ hs then hs else hs ++ [a]) hs := by
  induction l generalizing hs with
  | nil => simp [queue]
  | cons a l ih =>
    by_cases ha : a ∈ hs
    · rw [List.foldl_cons, if_pos ha, ← ih]
      simp [queue, ha]
    · rw [List.foldl_cons, if_neg ha, ← ih]
      simp only [queue, List.filter_cons, ha, not_false_eq_true, decide_true, if_true,
        List.eraseDups_cons, List.filter_filter, List.append_assoc, List.singleton_append]
      congr 3
      refine List.filter_congr fun b _ => ?_
      simp only [List.mem_append, List.mem_singleton, not_or, Bool.decide_and, decide_not,
        beq_eq_decide]
      exact Bool.and_comm _ _

theorem mem_queue : a ∈ queue hs l ↔ a ∈ hs ∨ a ∈ l := by
  rw [queue, List.mem_append, List.mem_eraseDups, List.mem_filter]
  by_cases ha : a ∈ hs <;> simp [ha]

theorem nodup_queue (h : hs.Nodup) (l : List α) : (queue hs l).Nodup := by
  rw [queue_eq_foldl]
  induction l generalizing hs with
  | nil => exact h
  | cons a l ih =>
    rw [List.foldl_cons]
    split_ifs with ha
    · exact ih h
    · refine ih (List.nodup_append.mpr ⟨h, List.nodup_singleton a, ?_⟩)
      intro x hx y hy hxy
      rw [List.mem_singleton] at hy
      exact ha (by rwa [hxy, hy] at hx)

/-- Make room at the front. -/
def keepLast (n : ℕ) (q : List α) : List α := q.drop (q.length - n)

omit [DecidableEq α] in
theorem length_keepLast (n : ℕ) (q : List α) : (keepLast n q).length = min n q.length := by
  rw [keepLast, List.length_drop]
  omega

/-- What leaves the queue was last mentioned before all that stays. -/
def Orderly (n : ℕ) (m hs l : List α) : Prop :=
  ∀ a ∈ (queue hs l).take ((queue hs l).length - n), ∀ b ∈ keepLast n (queue hs l),
    LastBefore (m ++ l) a b

instance (n : ℕ) (m hs l : List α) : Decidable (Orderly n m hs l) :=
  inferInstanceAs (Decidable (∀ a ∈ _, ∀ b ∈ _, _))

/-- What is neither stored nor mentioned anew is older than the whole queue. -/
theorem lastBefore_queue (hfresh : ∀ a, a ∈ hs ↔ a ∈ freshest n m) (ha : a ∈ m ++ l)
    (hout : a ∉ queue hs l) (hb : b ∈ queue hs l) : LastBefore (m ++ l) a b := by
  rw [mem_queue, not_or] at hout
  have ham : a ∈ m := (List.mem_append.mp ha).resolve_right hout.2
  by_cases hbl : b ∈ l
  · exact lastBefore_append_of_mem hout.2 hbl
  · rw [lastBefore_append_iff hout.2 hbl]
    have hbs : b ∈ hs := (mem_queue.mp hb).resolve_right hbl
    exact lastBefore_of_freshest ham (mt (hfresh a).mpr hout.1) ((hfresh b).mp hbs)

theorem length_queue (hnodup : hs.Nodup) (hfresh : ∀ a, a ∈ hs ↔ a ∈ freshest n m) :
    min n (queue hs l).length = min n (m ++ l).dedup.length := by
  have hhs : hs.length = min n m.dedup.length := by
    rw [← length_freshest]
    exact ((List.perm_ext_iff_of_nodup hnodup (nodup_freshest n m)).mpr hfresh).length_eq
  have hqueue : (queue hs l).length ≤ (m ++ l).dedup.length := by
    refine ((nodup_queue hnodup l).subperm fun a ha => ?_).length_le
    rw [List.mem_dedup, List.mem_append]
    rw [mem_queue] at ha
    exact ha.imp_left fun h => mem_of_mem_freshest ((hfresh a).mp h)
  by_cases hsmall : m.dedup.length ≤ n
  · -- Nothing has been forgotten yet.
    have hall : ∀ a ∈ m, a ∈ hs := by
      intro a ha
      rw [hfresh, freshest, Nat.sub_eq_zero_of_le hsmall, List.drop_zero, List.mem_dedup]
      exact ha
    have hle : (m ++ l).dedup.length ≤ (queue hs l).length := by
      refine ((List.nodup_dedup _).subperm fun a ha => ?_).length_le
      rw [List.mem_dedup, List.mem_append] at ha
      exact mem_queue.mpr (ha.imp_left (hall a))
    omega
  · have hlong : hs.length ≤ (queue hs l).length := by
      rw [queue, List.length_append]
      omega
    omega

/-- From the freshest entries one step of the queue leads to the freshest entries exactly when
it is orderly. -/
theorem keepLast_eq_freshest_iff (hnodup : hs.Nodup)
    (hfresh : ∀ a, a ∈ hs ↔ a ∈ freshest n m) :
    (∀ a, a ∈ keepLast n (queue hs l) ↔ a ∈ freshest n (m ++ l)) ↔ Orderly n m hs l := by
  have hqueue := nodup_queue hnodup l
  have hsplit := List.take_append_drop ((queue hs l).length - n) (queue hs l)
  have hmentioned : ∀ a ∈ queue hs l, a ∈ m ++ l := by
    intro a ha
    rw [List.mem_append]
    exact (mem_queue.mp ha).imp_left fun h => mem_of_mem_freshest ((hfresh a).mp h)
  have hlen : (keepLast n (queue hs l)).length = min n (m ++ l).dedup.length := by
    rw [length_keepLast, length_queue hnodup hfresh]
  have hkept : (keepLast n (queue hs l)).Nodup := hqueue.sublist (List.drop_sublist _ _)
  rw [eq_freshest_iff hkept (fun a ha => hmentioned a (List.mem_of_mem_drop ha)) hlen]
  constructor
  · intro h a ha b hb
    have hgone : a ∉ keepLast n (queue hs l) := by
      rw [← hsplit] at hqueue
      exact List.disjoint_of_nodup_append hqueue ha
    exact h a (hmentioned a (List.mem_of_mem_take ha)) hgone b hb
  · intro h a ha hgone b hb
    by_cases hin : a ∈ queue hs l
    · rw [← hsplit, List.mem_append] at hin
      exact h a (hin.resolve_right hgone) b hb
    · exact lastBefore_queue hfresh ha hin (List.mem_of_mem_drop hb)

end Recency
end GravitalTalk
