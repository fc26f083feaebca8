import Mathlib.Data.List.Induction
import Mathlib.Tactic.Basic

/-!
# Machines that answer

A machine answers every input. Its trace is the list of the inputs, each with
the answer that it got: what its clients can see of a run.
-/
namespace GravitalTalk
namespace Trace

variable {σ κ ν α β : Type*}

/-- The state after the inputs. -/
def after (step : σ → α → β × σ) (s : σ) (as : List α) : σ :=
  as.foldl (fun s a => (step s a).2) s

def trace (step : σ → α → β × σ) : σ → List α → List (α × β)
  | _, [] => []
  | s, a :: as => (a, (step s a).1) :: trace step (step s a).2 as

variable {step : σ → α → β × σ} {s t : σ} {as : List α}

@[simp] theorem after_nil : after step s [] = s := rfl

@[simp] theorem trace_nil : trace step s [] = [] := rfl

theorem after_concat (a : α) : after step s (as ++ [a]) = (step (after step s as) a).2 := by
  simp [after]

theorem trace_concat (a : α) :
    trace step s (as ++ [a]) = trace step s as ++ [(a, (step (after step s as) a).1)] := by
  induction as generalizing s with
  | nil => rfl
  | cons b as ih =>
    change (b, (step s b).1) :: trace step (step s b).2 (as ++ [a]) = _
    rw [ih]
    rfl

/-- What every step keeps, every run keeps. -/
theorem after_invariant (Inv : σ → Prop) (hstep : ∀ s a, Inv s → Inv (step s a).2) (hs : Inv s) :
    Inv (after step s as) := by
  induction as using List.reverseRecOn with
  | nil => exact hs
  | append_singleton as a ih =>
    rw [after_concat]
    exact hstep _ a ih

/-- Two states answer alike for as long as related states give one answer and stay related. -/
theorem trace_eq_of_related {R : σ → σ → Prop} {p : α → Prop}
    (hstep : ∀ s t a, R s t → p a → (step s a).1 = (step t a).1 ∧ R (step s a).2 (step t a).2)
    (has : ∀ a ∈ as, p a) (h : R s t) : trace step s as = trace step t as := by
  induction as generalizing s t with
  | nil => rfl
  | cons a as ih =>
    obtain ⟨hanswer, hrel⟩ := hstep s t a h (has a List.mem_cons_self)
    have htail := ih (fun b hb => has b (List.mem_cons_of_mem a hb)) hrel
    rw [trace, trace, hanswer, htail]

/-! ## What has been opened and not closed -/

/-- Something in the list opens, and nothing behind it closes. -/
def Since (Opens Closes : α → Prop) (as : List α) : Prop :=
  ∃ past a later, as = past ++ a :: later ∧ Opens a ∧ ∀ b ∈ later, ¬ Closes b

theorem not_since_nil {Opens Closes : α → Prop} : ¬ Since Opens Closes [] := by
  rintro ⟨past, a, later, has, -⟩
  exact absurd has.symm (List.append_ne_nil_of_right_ne_nil _ (List.cons_ne_nil _ _))

theorem since_concat {Opens Closes : α → Prop} {a : α} :
    Since Opens Closes (as ++ [a]) ↔ Opens a ∨ Since Opens Closes as ∧ ¬ Closes a := by
  constructor
  · rintro ⟨past, b, later, has, hopens, hlater⟩
    rcases List.eq_nil_or_concat later with rfl | ⟨later, c, rfl⟩
    · obtain ⟨-, hb⟩ := List.append_inj' has rfl
      cases hb
      exact .inl hopens
    · have hsplit : as ++ [a] = (past ++ b :: later) ++ [c] := by simpa using has
      obtain ⟨hinit, hlast⟩ := List.append_inj' hsplit rfl
      cases hlast
      exact .inr ⟨⟨past, b, later, hinit, hopens, fun d hd => hlater d (by simp [hd])⟩,
        hlater a (by simp)⟩
  · rintro (hopens | ⟨⟨past, b, later, rfl, hopens, hlater⟩, hcloses⟩)
    · exact ⟨as, a, [], rfl, hopens, nofun⟩
    · refine ⟨past, b, later ++ [a], by simp, hopens, ?_⟩
      intro c hc
      rcases List.mem_append.mp hc with hc | hc
      · exact hlater c hc
      · rwa [List.mem_singleton.mp hc]

/-- A table whose entries are made by what opens them and last until something closes them
holds what the trace has opened since. -/
theorem lookup_iff_since (view : σ → κ → Option ν) (Opens : κ → ν → α × β → Prop)
    (Closes : κ → α × β → Prop) (hempty : ∀ k, view s k = none)
    (hstep : ∀ s a k v, view (step s a).2 k = some v ↔ Opens k v (a, (step s a).1) ∨
      view s k = some v ∧ ¬ Closes k (a, (step s a).1)) (as : List α) (k : κ) (v : ν) :
    view (after step s as) k = some v ↔ Since (Opens k v) (Closes k) (trace step s as) := by
  induction as using List.reverseRecOn with
  | nil => simp [hempty k, not_since_nil]
  | append_singleton as a ih => rw [after_concat, trace_concat, since_concat, hstep, ih]

end Trace
end GravitalTalk
