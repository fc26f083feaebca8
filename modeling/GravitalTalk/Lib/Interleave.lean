import Mathlib.Data.Fintype.Card
import GravitalTalk.Lib.Run

/-!
# Interleavings

Any number of threads over one shared state. A thread takes one atomic step at a
time, and a schedule says whose step comes next and what it is given: the time, say.
-/
namespace GravitalTalk

/-- The shared state, and where each thread is. -/
structure Threads (ι σ α : Type*) where
  shared : σ
  threads : ι → α

namespace Threads

variable {ι σ α τ : Type*} [DecidableEq ι]

/-- Thread `x.2` takes its next step. -/
def advance (step : τ → α → σ → α × σ) (c : Threads ι σ α) (x : τ × ι) : Threads ι σ α :=
  let r := step x.1 (c.threads x.2) c.shared
  ⟨r.2, Function.update c.threads x.2 r.1⟩

variable {step : τ → α → σ → α × σ} {c : Threads ι σ α} {t : τ} {i j : ι}

@[simp] theorem shared_advance :
    (c.advance step (t, i)).shared = (step t (c.threads i) c.shared).2 := rfl

@[simp] theorem threads_advance_self :
    (c.advance step (t, i)).threads i = (step t (c.threads i) c.shared).1 :=
  Function.update_self _ _ _

theorem threads_advance_of_ne (h : j ≠ i) : (c.advance step (t, i)).threads j = c.threads j :=
  Function.update_of_ne h _ _

/-- A thread that is not where the step led was there before. -/
theorem threads_of_advance {a : α} (hj : (c.advance step (t, i)).threads j = a)
    (ha : a ≠ (step t (c.threads i) c.shared).1) : c.threads j = a := by
  by_cases hji : j = i
  · subst hji
    rw [threads_advance_self] at hj
    exact absurd hj.symm ha
  · rwa [threads_advance_of_ne hji] at hj

/-- A thread that is not where the step began stays. -/
theorem threads_advance_of {a : α} (hj : c.threads j = a) (ha : a ≠ c.threads i) :
    (c.advance step (t, i)).threads j = a := by
  have hji : j ≠ i := by
    rintro rfl
    exact ha hj.symm
  rw [threads_advance_of_ne hji, hj]

/-! ## Counting threads -/

variable [Fintype ι] (p : α → Bool)

/-- How many threads are at a place of this kind. -/
def count (c : Threads ι σ α) : ℕ := (Finset.univ.filter fun i => p (c.threads i)).card

variable {p}

theorem count_advance_of_enters (hbefore : p (c.threads i) = false)
    (hafter : p (step t (c.threads i) c.shared).1 = true) :
    count p (c.advance step (t, i)) = count p c + 1 := by
  have hset : (Finset.univ.filter fun j => p ((c.advance step (t, i)).threads j)) =
      insert i (Finset.univ.filter fun j => p (c.threads j)) := by
    ext j
    by_cases hj : j = i
    · subst hj
      simp [hafter]
    · simp [threads_advance_of_ne hj, hj]
  rw [count, hset, Finset.card_insert_of_notMem (by simp [hbefore]), count]

theorem count_advance_of_same
    (hsame : p (step t (c.threads i) c.shared).1 = p (c.threads i)) :
    count p (c.advance step (t, i)) = count p c := by
  have hset : (Finset.univ.filter fun j => p ((c.advance step (t, i)).threads j)) =
      Finset.univ.filter fun j => p (c.threads j) := by
    ext j
    by_cases hj : j = i
    · subst hj
      simp [hsame]
    · simp [threads_advance_of_ne hj]
  rw [count, hset, count]

/-! ## Steps that are given nothing -/

def turn (step : α → σ → α × σ) (c : Threads ι σ α) (i : ι) : Threads ι σ α :=
  c.advance (fun (_ : Unit) => step) ((), i)

variable {step : α → σ → α × σ}

omit [Fintype ι] in
@[simp] theorem shared_turn : (c.turn step i).shared = (step (c.threads i) c.shared).2 := rfl

theorem count_turn_of_enters (hbefore : p (c.threads i) = false)
    (hafter : p (step (c.threads i) c.shared).1 = true) :
    count p (c.turn step i) = count p c + 1 := count_advance_of_enters hbefore hafter

theorem count_turn_of_same (hsame : p (step (c.threads i) c.shared).1 = p (c.threads i)) :
    count p (c.turn step i) = count p c := count_advance_of_same hsame

end Threads
end GravitalTalk
