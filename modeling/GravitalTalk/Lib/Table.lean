import Mathlib.Data.Finmap
import Mathlib.Tactic

/-!
# Hash tables

A hash table is a finite map: two of them are equal when every lookup is, and
the order in which an iteration meets the entries is not part of the value.
Operations that `Finmap` lacks are added: filtering, rewriting the entries that
are kept, and moving an entry.
-/
namespace GravitalTalk

abbrev Table (κ α : Type*) := Finmap fun _ : κ => α

namespace Table

variable {κ α : Type*}

theorem nodupKeys_filter (p : κ → α → Bool) (m : Table κ α) :
    (m.entries.filter fun e => p e.1 e.2).NodupKeys := by
  rcases m with ⟨⟨l⟩, hl⟩
  exact List.NodupKeys.sublist List.filter_sublist hl

/-- `retain`: keep the entries that pass the test. -/
def retain (p : κ → α → Bool) (m : Table κ α) : Table κ α :=
  ⟨m.entries.filter fun e => p e.1 e.2, nodupKeys_filter p m⟩

/-- What `f` makes of an entry. -/
def reviseEntry (f : κ → α → Option α) (e : Sigma fun _ : κ => α) :
    Option (Sigma fun _ : κ => α) := (f e.1 e.2).map fun v => ⟨e.1, v⟩

theorem keys_filterMap_sublist (f : κ → α → Option α) (l : List (Sigma fun _ : κ => α)) :
    ((l.filterMap (reviseEntry f)).map Sigma.fst).Sublist (l.map Sigma.fst) := by
  induction l with
  | nil => exact List.Sublist.refl _
  | cons e l ih =>
    cases h : f e.1 e.2 with
    | none =>
      simp only [List.filterMap_cons, reviseEntry, h, Option.map_none, List.map_cons]
      exact ih.cons _
    | some v =>
      simp only [List.filterMap_cons, reviseEntry, h, Option.map_some, List.map_cons]
      exact ih.cons_cons _

theorem nodupKeys_revise (f : κ → α → Option α) (m : Table κ α) :
    (m.entries.filterMap (reviseEntry f)).NodupKeys := by
  rcases m with ⟨⟨l⟩, hl⟩
  have hkeys : (l.map Sigma.fst).Nodup := hl
  exact hkeys.sublist (keys_filterMap_sublist f l)

/-- `retain` with a closure that changes what it looks at: an entry becomes what
`f` makes of it, or goes. -/
def revise (f : κ → α → Option α) (m : Table κ α) : Table κ α :=
  ⟨m.entries.filterMap (reviseEntry f), nodupKeys_revise f m⟩

/-- The number of entries. -/
def size (m : Table κ α) : ℕ := m.keys.card

theorem size_le_of_mem {m m' : Table κ α} (h : ∀ a ∈ m', a ∈ m) : size m' ≤ size m := by
  apply Finset.card_le_card
  intro a ha
  exact Finmap.mem_keys.mpr (h a (Finmap.mem_keys.mp ha))

variable [DecidableEq κ]

theorem dlookup_filter (p : κ → α → Bool) {l : List (Sigma fun _ : κ => α)} (hl : l.NodupKeys)
    (a : κ) : (l.filter fun e => p e.1 e.2).dlookup a = (l.dlookup a).filter (p a) := by
  have hnodup : (l.filter fun e => p e.1 e.2).NodupKeys := hl.sublist List.filter_sublist
  apply Option.ext
  intro v
  rw [Option.filter_eq_some_iff, ← Option.mem_def, ← Option.mem_def, List.mem_dlookup_iff hnodup,
    List.mem_dlookup_iff hl, List.mem_filter]

@[simp] theorem lookup_retain (p : κ → α → Bool) (m : Table κ α) (a : κ) :
    (retain p m).lookup a = (m.lookup a).filter (p a) := by
  induction m using Finmap.induction_on with
  | H l =>
    have hnodup : (l.entries.filter fun e => p e.1 e.2).NodupKeys :=
      l.nodupKeys.sublist List.filter_sublist
    let kept : AList fun _ : κ => α := ⟨l.entries.filter fun e => p e.1 e.2, hnodup⟩
    have hretain : retain p l.toFinmap = kept.toFinmap := by
      apply Finmap.ext
      simp [retain, kept, AList.toFinmap]
    rw [hretain, Finmap.lookup_toFinmap, Finmap.lookup_toFinmap]
    exact dlookup_filter p l.nodupKeys a

@[simp] theorem lookup_revise (f : κ → α → Option α) (m : Table κ α) (a : κ) :
    (revise f m).lookup a = (m.lookup a).bind (f a) := by
  apply Option.ext
  intro v
  rw [Finmap.lookup_eq_some_iff, Option.bind_eq_some_iff]
  simp only [revise, reviseEntry, Multiset.mem_filterMap, Option.map_eq_some_iff]
  constructor
  · rintro ⟨⟨b, w⟩, hmem, x, hx, heq⟩
    cases heq
    exact ⟨w, Finmap.lookup_eq_some_iff.mpr hmem, hx⟩
  · rintro ⟨w, hw, hv⟩
    exact ⟨⟨a, w⟩, Finmap.lookup_eq_some_iff.mp hw, v, hv, rfl⟩

theorem mem_of_mem_revise {f : κ → α → Option α} {m : Table κ α} {a : κ} (h : a ∈ revise f m) :
    a ∈ m := by
  rw [← Finmap.lookup_isSome, lookup_revise] at h
  rw [← Finmap.lookup_isSome]
  cases hm : m.lookup a with
  | none => simp [hm] at h
  | some v => rfl

theorem keys_insert (m : Table κ α) (a : κ) (v : α) :
    (m.insert a v).keys = insert a m.keys := by
  ext b
  simp [Finmap.mem_keys]

theorem size_insert_of_mem {m : Table κ α} {a : κ} (h : a ∈ m) (v : α) :
    size (m.insert a v) = size m := by
  rw [size, keys_insert, Finset.insert_eq_of_mem (Finmap.mem_keys.mpr h), size]

theorem size_insert_of_notMem {m : Table κ α} {a : κ} (h : a ∉ m) (v : α) :
    size (m.insert a v) = size m + 1 := by
  rw [size, keys_insert, Finset.card_insert_of_notMem (fun hk => h (Finmap.mem_keys.mp hk)), size]

/-- Move the entry of `old`, if there is one, to `new`. -/
def rename (old new : κ) (m : Table κ α) : Table κ α :=
  match m.lookup old with
  | some v => (m.erase old).insert new v
  | none => m

theorem lookup_rename (old new : κ) (m : Table κ α) (a : κ) :
    (rename old new m).lookup a =
      match m.lookup old with
      | some v => if a = new then some v else if a = old then none else m.lookup a
      | none => m.lookup a := by
  unfold rename
  split
  · split_ifs with hn ho
    · rw [hn, Finmap.lookup_insert]
    · rw [Finmap.lookup_insert_of_ne _ hn, ho, Finmap.lookup_erase]
    · rw [Finmap.lookup_insert_of_ne _ hn, Finmap.lookup_erase_ne ho]
  · rfl

theorem lookup_insert_eq (m : Table κ α) (a b : κ) (v : α) :
    (m.insert a v).lookup b = if b = a then some v else m.lookup b := by
  split_ifs with h
  · rw [h, Finmap.lookup_insert]
  · rw [Finmap.lookup_insert_of_ne _ h]

theorem lookup_erase_eq (m : Table κ α) (a b : κ) :
    (m.erase a).lookup b = if b = a then none else m.lookup b := by
  split_ifs with h
  · rw [h, Finmap.lookup_erase]
  · rw [Finmap.lookup_erase_ne h]

theorem mem_retain {p : κ → Bool} {m : Table κ α} {a : κ} :
    a ∈ retain (fun x _ => p x) m ↔ a ∈ m ∧ p a = true := by
  rw [← Finmap.lookup_isSome, ← Finmap.lookup_isSome, lookup_retain]
  cases m.lookup a <;> simp

theorem mem_rename_of_mem {old new : κ} {m : Table κ α} (h : old ∈ m) {a : κ} :
    a ∈ rename old new m ↔ a = new ∨ a ∈ m ∧ a ≠ old := by
  obtain ⟨v, hv⟩ := Finmap.mem_iff.mp h
  rw [rename, hv, Finmap.mem_insert, Finmap.mem_erase]
  tauto

theorem rename_of_notMem {old new : κ} {m : Table κ α} (h : old ∉ m) : rename old new m = m := by
  rw [rename, Finmap.lookup_eq_none.mpr h]

end Table
end GravitalTalk
