import Mathlib.Data.List.Induction
import Mathlib.Data.Set.Basic
import Mathlib.Logic.Relation
import Mathlib.Tactic.Basic

/-!
# Runs of a step function

A run is a fold of a step function over a list of labels. `Along` says that
every step of a run meets a condition on the state it starts from and on its
label; invariants of whole runs and simulations between two runs follow from
what single steps do.
-/
namespace GravitalTalk
namespace Run

variable {σ τ α : Type*} {step : σ → α → σ} {P Q : σ → α → Prop} {s : σ} {as bs : List α}

/-- Every step of the run from `s` over the list meets `P`. -/
def Along (step : σ → α → σ) (P : σ → α → Prop) : σ → List α → Prop
  | _, [] => True
  | s, a :: as => P s a ∧ Along step P (step s a) as

@[simp] theorem along_nil : Along step P s [] := trivial

@[simp] theorem along_cons {a : α} :
    Along step P s (a :: as) ↔ P s a ∧ Along step P (step s a) as := Iff.rfl

instance decidableAlong [∀ s a, Decidable (P s a)] :
    ∀ (s : σ) (as : List α), Decidable (Along step P s as)
  | _, [] => isTrue trivial
  | s, a :: as =>
    have := decidableAlong (step s a) as
    inferInstanceAs (Decidable (P s a ∧ Along step P (step s a) as))

theorem along_append :
    Along step P s (as ++ bs) ↔ Along step P s as ∧ Along step P (as.foldl step s) bs := by
  induction as generalizing s with
  | nil => simp
  | cons a as ih => simp [ih, and_assoc]

theorem along_and : Along step (fun s a => P s a ∧ Q s a) s as ↔
    Along step P s as ∧ Along step Q s as := by
  induction as generalizing s with
  | nil => simp
  | cons a as ih => simp [ih, and_and_and_comm]

/-- A condition on the labels alone holds along a run when all labels meet it. -/
theorem along_labels {p : α → Prop} : Along step (fun _ a => p a) s as ↔ ∀ a ∈ as, p a := by
  induction as generalizing s with
  | nil => simp
  | cons a as ih => simp [ih]

/-- What every step keeps, every run keeps. -/
theorem Along.invariant {Inv : σ → Prop} (hstep : ∀ s a, Inv s → P s a → Inv (step s a))
    (h : Along step P s as) (hs : Inv s) : Inv (as.foldl step s) := by
  induction as generalizing s with
  | nil => exact hs
  | cons a as ih => exact ih h.2 (hstep s a hs h.1)

/-- A property of single steps holds along a run when an invariant implies it. -/
theorem Along.implies {Inv : σ → Prop} (hstep : ∀ s a, Inv s → P s a → Inv (step s a))
    (hprop : ∀ s a, Inv s → P s a → Q s a) (h : Along step P s as) (hs : Inv s) :
    Along step Q s as := by
  induction as generalizing s with
  | nil => trivial
  | cons a as ih => exact ⟨hprop s a hs h.1, ih h.2 (hstep s a hs h.1)⟩

/-- Where single steps keep `Good` exactly when they meet `Q`, all states of a run are good
exactly when all its steps meet `Q`. -/
theorem good_iff_along {Inv Good : σ → Prop} (hs : Inv s) (hgood : Good s)
    (hstep : ∀ s a, Inv s → Good s → (Good (step s a) ↔ Q s a))
    (hinv : ∀ s a, Inv s → Good s → Q s a → Inv (step s a)) :
    (∀ bs, bs <+: as → Good (bs.foldl step s)) ↔ Along step Q s as := by
  induction as generalizing s with
  | nil =>
    constructor
    · exact fun _ => trivial
    · intro _ bs hbs
      rw [List.prefix_nil.mp hbs]
      exact hgood
  | cons a as ih =>
    constructor
    · intro h
      have hfirst : Q s a := (hstep s a hs hgood).mp (h [a] ⟨as, rfl⟩)
      refine ⟨hfirst, (ih (hinv s a hs hgood hfirst) ((hstep s a hs hgood).mpr hfirst)).mp ?_⟩
      intro bs hbs
      exact h (a :: bs) ((List.prefix_cons_inj a).mpr hbs)
    · rintro ⟨hfirst, hrest⟩ bs hbs
      cases bs with
      | nil => exact hgood
      | cons b bs =>
        obtain ⟨rfl, htail⟩ := List.cons_prefix_cons.mp hbs
        exact (ih (hinv s b hs hgood hfirst) ((hstep s b hs hgood).mpr hfirst)).mpr hrest bs htail

/-- The same without an invariant of its own. -/
theorem stays_iff_along {Good : σ → Prop} (hgood : Good s)
    (hstep : ∀ s a, Good s → (Good (step s a) ↔ Q s a)) :
    (∀ bs, bs <+: as → Good (bs.foldl step s)) ↔ Along step Q s as :=
  good_iff_along hgood hgood (fun s a h _ => hstep s a h)
    (fun s a h _ hq => (hstep s a h).mpr hq)

/-- What is collected along a run was at hand at the start or after one of its steps. -/
theorem mem_of_collected {β : Type*} (had hand : σ → Set β)
    (hstep : ∀ s a, had (step s a) ⊆ had s ∪ hand (step s a)) {b : β}
    (hb : b ∈ had (as.foldl step s)) :
    b ∈ had s ∨ ∃ k ≤ as.length, b ∈ hand ((as.take k).foldl step s) := by
  induction as using List.reverseRecOn with
  | nil => exact .inl hb
  | append_singleton as a ih =>
    rw [List.foldl_append] at hb
    rw [List.length_append]
    rcases hstep _ a hb with hold | hnew
    · rcases ih hold with hstart | ⟨k, hk, hhand⟩
      · exact .inl hstart
      · refine .inr ⟨k, Nat.le_succ_of_le hk, ?_⟩
        rwa [List.take_append_of_le_length hk]
    · refine .inr ⟨as.length + 1, le_rfl, ?_⟩
      rwa [List.take_of_length_le (by simp), List.foldl_append]

/-! ## A run without some of its steps -/

/-- A run and, beside it, the run without the labels that are marked as removed. -/
def beside (step : σ → α → σ) (p : σ × σ) (a : α × Bool) : σ × σ :=
  (step p.1 a.1, if a.2 then p.2 else step p.2 a.1)

theorem foldl_beside (p : σ × σ) (as : List (α × Bool)) :
    as.foldl (beside step) p = ((as.map Prod.fst).foldl step p.1,
      ((as.filter (!·.2)).map Prod.fst).foldl step p.2) := by
  induction as generalizing p with
  | nil => rfl
  | cons a as ih =>
    obtain ⟨a, removed⟩ := a
    cases removed with
    | true => simp [ih, beside]
    | false => simp [ih, beside]

/-- Where a removed label leaves the first state related to the second, and any other one takes
related states to related ones and shows `S`, all that is not removed shows `S`. -/
theorem Along.beside {R : σ → σ → Prop} {M : σ × σ → α × Bool → Prop} {S : σ × σ → α → Prop}
    {p : σ × σ} {as : List (α × Bool)}
    (hremoved : ∀ p a, R p.1 p.2 → M p (a, true) → R (step p.1 a) p.2)
    (hkept : ∀ p a, R p.1 p.2 → M p (a, false) → R (step p.1 a) (step p.2 a) ∧ S p a)
    (h : Along (beside step) M p as) (hp : R p.1 p.2) :
    Along (Run.beside step) (fun p a => a.2 = false → S p a.1) p as := by
  have hstep : ∀ p a, R p.1 p.2 → M p a → R (Run.beside step p a).1 (Run.beside step p a).2 := by
    rintro p ⟨a, removed⟩ hrel hmeets
    cases removed with
    | true => exact hremoved p a hrel hmeets
    | false => exact (hkept p a hrel hmeets).1
  have hshown : ∀ p a, R p.1 p.2 → M p a → a.2 = false → S p a.1 := by
    rintro p ⟨a, removed⟩ hrel hmeets rfl
    exact (hkept p a hrel hmeets).2
  exact h.implies hstep hshown hp

end Run
end GravitalTalk
