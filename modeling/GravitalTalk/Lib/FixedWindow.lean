import Mathlib.Algebra.Order.BigOperators.Group.List
import Mathlib.Tactic

/-!
# Fixed windows

A budget of `limit` calls for each window of time, and no more than one window at a
time: the first call after the end of a window opens the next one. The decisions on
calls in the order of their times fall into windows, and each window accepts its first
`limit` calls.
-/
namespace GravitalTalk.FixedWindow

structure Window where
  started : ℕ
  count : ℕ
  deriving DecidableEq, Repr

/-- A call, and whether it was accepted. -/
abbrev Decision := ℕ × Bool

variable {span limit : ℕ}

/-- The decision on a call, and the window it leaves open. -/
def turn (span limit now : ℕ) : Option Window → Bool × Window
  | none => (true, ⟨now, 1⟩)
  | some w =>
    if span ≤ now - w.started then (true, ⟨now, 1⟩)
    else if w.count < limit then (true, { w with count := w.count + 1 })
    else (false, w)

/-- The decisions on calls at these times. -/
def decisions (span limit : ℕ) : Option Window → List ℕ → List Decision
  | _, [] => []
  | w, t :: times =>
    (t, (turn span limit t w).1) :: decisions span limit (some (turn span limit t w).2) times

/-- A window: it opens with its first call, lasts `span`, and accepts the first `limit` calls. -/
structure IsWindow (span limit start : ℕ) (calls : List Decision) : Prop where
  opens : calls.head?.map Prod.fst = some start
  within : ∀ d ∈ calls, start ≤ d.1 ∧ d.1 < start + span
  accepts : ∀ i d, calls[i]? = some d → (d.2 = true ↔ i < limit)

/-- The decisions fall into windows whose starts are `span` apart. -/
structure Splits (span limit : ℕ) (windows : List (ℕ × List Decision)) (log : List Decision) :
    Prop where
  log_eq : log = (windows.map Prod.snd).flatten
  isWindow : ∀ w ∈ windows, IsWindow span limit w.1 w.2
  apart : windows.Pairwise fun a b => a.1 + span ≤ b.1

/-! ## The windows of a run -/

/-- What is left of an open window, before the windows that follow it. -/
structure Continues (span limit : ℕ) (w : Window) (rest : List Decision)
    (windows : List (ℕ × List Decision)) : Prop where
  within : ∀ d ∈ rest, w.started ≤ d.1 ∧ d.1 < w.started + span
  accepts : ∀ i d, rest[i]? = some d → (d.2 = true ↔ w.count + i < limit)
  isWindow : ∀ x ∈ windows, IsWindow span limit x.1 x.2
  apart : ((w.started, rest) :: windows).Pairwise fun a b => a.1 + span ≤ b.1

/-- A call that opens a window. -/
theorem Continues.opened {t : ℕ} {rest : List Decision} {windows : List (ℕ × List Decision)}
    (hspan : 0 < span) (hlimit : 0 < limit) (h : Continues span limit ⟨t, 1⟩ rest windows) :
    IsWindow span limit t ((t, true) :: rest) := by
  refine ⟨rfl, ?_, ?_⟩
  · intro d hd
    rcases List.mem_cons.mp hd with rfl | hd
    · exact ⟨le_refl t, by omega⟩
    · exact h.within d hd
  · intro i d hd
    cases i with
    | zero =>
      obtain rfl : (t, true) = d := by simpa using hd
      simp [hlimit]
    | succ i =>
      rw [h.accepts i d (by simpa using hd), Nat.add_comm 1 i]

theorem Continues.isWindow_opened {t : ℕ} {rest : List Decision}
    {windows : List (ℕ × List Decision)} (hspan : 0 < span) (hlimit : 0 < limit)
    (h : Continues span limit ⟨t, 1⟩ rest windows) :
    ∀ x ∈ (t, (t, true) :: rest) :: windows, IsWindow span limit x.1 x.2 := by
  intro x hx
  rcases List.mem_cons.mp hx with rfl | hx
  · exact h.opened hspan hlimit
  · exact h.isWindow x hx

/-- One more call of a window that is open. -/
theorem Continues.cons {w : Window} {t : ℕ} {accepted : Bool} {count : ℕ} {rest : List Decision}
    {windows : List (ℕ × List Decision)} (ht : w.started ≤ t) (ht' : t < w.started + span)
    (haccepted : accepted = true ↔ w.count < limit)
    (hcount : ∀ i, count + i < limit ↔ w.count + (i + 1) < limit)
    (h : Continues span limit ⟨w.started, count⟩ rest windows) :
    Continues span limit w ((t, accepted) :: rest) windows := by
  refine ⟨?_, ?_, h.isWindow, ?_⟩
  · intro d hd
    rcases List.mem_cons.mp hd with rfl | hd
    · exact ⟨ht, ht'⟩
    · exact h.within d hd
  · intro i d hd
    cases i with
    | zero =>
      obtain rfl : (t, accepted) = d := by simpa using hd
      simpa using haccepted
    | succ i =>
      rw [h.accepts i d (by simpa using hd)]
      exact hcount i
  · have hapart := h.apart
    rw [List.pairwise_cons] at hapart ⊢
    exact hapart

theorem decisions_some (hspan : 0 < span) (hlimit : 0 < limit) {w : Window} {times : List ℕ}
    (hsorted : (w.started :: times).Pairwise (· ≤ ·)) :
    ∃ rest windows, decisions span limit (some w) times = rest ++ (windows.map Prod.snd).flatten ∧
      Continues span limit w rest windows := by
  induction times generalizing w with
  | nil =>
    exact ⟨[], [], rfl, by simp, by simp, by simp, by simp⟩
  | cons t times ih =>
    obtain ⟨hstart, htimes⟩ := List.pairwise_cons.mp hsorted
    have ht : w.started ≤ t := hstart t (by simp)
    have hrest : (w.started :: times).Pairwise (· ≤ ·) :=
      List.pairwise_cons.mpr ⟨fun x hx => hstart x (by simp [hx]), (List.pairwise_cons.mp htimes).2⟩
    simp only [decisions, turn]
    split_ifs with hnew hleft
    · obtain ⟨rest, windows, hlog, hcont⟩ := ih (w := ⟨t, 1⟩) htimes
      refine ⟨[], (t, (t, true) :: rest) :: windows, by simp [hlog], by simp, by simp,
        hcont.isWindow_opened hspan hlimit, ?_⟩
      obtain ⟨hafter, hapart⟩ := List.pairwise_cons.mp hcont.apart
      refine List.pairwise_cons.mpr ⟨?_, List.pairwise_cons.mpr ⟨hafter, hapart⟩⟩
      intro x hx
      dsimp only at hafter ⊢
      rcases List.mem_cons.mp hx with rfl | hx
      · dsimp only
        omega
      · have := hafter x hx
        omega
    · obtain ⟨rest, windows, hlog, hcont⟩ := ih (w := ⟨w.started, w.count + 1⟩) hrest
      refine ⟨(t, true) :: rest, windows, by rw [hlog, List.cons_append], ?_⟩
      exact hcont.cons ht (by omega) (by simp [hleft]) fun i => by omega
    · obtain ⟨rest, windows, hlog, hcont⟩ := ih hrest
      refine ⟨(t, false) :: rest, windows, by rw [hlog, List.cons_append], ?_⟩
      exact hcont.cons ht (by omega) (by simp [hleft]) fun i => by omega

/-- Whatever the times, the decisions fall into windows. -/
theorem splits_decisions (hspan : 0 < span) (hlimit : 0 < limit) {times : List ℕ}
    (hsorted : times.Pairwise (· ≤ ·)) :
    ∃ windows, Splits span limit windows (decisions span limit none times) := by
  cases times with
  | nil => exact ⟨[], rfl, by simp, by simp⟩
  | cons t times =>
    obtain ⟨rest, windows, hlog, hcont⟩ := decisions_some (w := ⟨t, 1⟩) hspan hlimit hsorted
    refine ⟨(t, (t, true) :: rest) :: windows, ?_, hcont.isWindow_opened hspan hlimit, ?_⟩
    · simp [decisions, turn, hlog]
    · obtain ⟨hafter, hapart⟩ := List.pairwise_cons.mp hcont.apart
      exact List.pairwise_cons.mpr ⟨hafter, hapart⟩

/-! ## Any interval -/

/-- Accepted, in the interval of length `span` that begins at `t`. -/
def isAcceptedIn (span t : ℕ) (d : Decision) : Bool := d.2 && t ≤ d.1 && d.1 ≤ t + span

theorem countP_getElem_le {α : Type*} (p : α → Bool) {l : List α} {n : ℕ}
    (h : ∀ i a, l[i]? = some a → p a = true → i < n) : l.countP p ≤ n := by
  induction l generalizing n with
  | nil => simp
  | cons a l ih =>
    have htail (m : ℕ) (hm : n = m + 1) : l.countP p ≤ m :=
      ih fun i b hb hp => by
        have := h (i + 1) b (by simpa using hb) hp
        omega
    by_cases hp : p a = true
    · have hpos : 0 < n := h 0 a rfl hp
      have := htail (n - 1) (by omega)
      rw [List.countP_cons_of_pos hp]
      omega
    · rw [List.countP_cons_of_neg hp]
      cases n with
      | zero =>
        rw [Nat.le_zero, List.countP_eq_zero]
        intro b hb hpb
        obtain ⟨i, hi⟩ := List.getElem?_of_mem hb
        exact absurd (h (i + 1) b (by simpa using hi) hpb) (by omega)
      | succ m => exact (htail m rfl).trans (by omega)

theorem IsWindow.countP_le {start t : ℕ} {calls : List Decision}
    (h : IsWindow span limit start calls) :
    calls.countP (isAcceptedIn span t) ≤ limit := by
  apply countP_getElem_le
  intro i d hd hin
  simp only [isAcceptedIn, Bool.and_eq_true] at hin
  exact (h.accepts i d hd).mp hin.1.1

/-- A window that the interval does not meet. -/
theorem IsWindow.countP_eq_zero {start t : ℕ} {calls : List Decision}
    (h : IsWindow span limit start calls) (hout : start + span ≤ t ∨ t + span < start) :
    calls.countP (isAcceptedIn span t) = 0 := by
  rw [List.countP_eq_zero]
  intro d hd hin
  obtain ⟨hlo, hhi⟩ := h.within d hd
  simp only [isAcceptedIn, Bool.and_eq_true, decide_eq_true_eq] at hin
  omega

/-- No interval of the length of a window meets more than two of them. -/
theorem Splits.countP_le {windows : List (ℕ × List Decision)} {log : List Decision}
    (h : Splits span limit windows log) (t : ℕ) :
    log.countP (isAcceptedIn span t) ≤ 2 * limit := by
  obtain ⟨rfl, hwindow, hapart⟩ := h
  rw [List.countP_flatten, List.map_map]
  -- Windows that end after the beginning of the interval: only the first one meets it.
  have hlate : ∀ ws : List (ℕ × List Decision), (∀ w ∈ ws, IsWindow span limit w.1 w.2) →
      ws.Pairwise (fun a b => a.1 + span ≤ b.1) → (∀ w ∈ ws, t < w.1) →
      (ws.map (List.countP (isAcceptedIn span t) ∘ Prod.snd)).sum ≤ limit := by
    intro ws hws hpair hafter
    cases ws with
    | nil => simp
    | cons w ws =>
      have hzero : (ws.map (List.countP (isAcceptedIn span t) ∘ Prod.snd)).sum = 0 := by
        apply List.sum_eq_zero
        intro n hn
        obtain ⟨x, hx, rfl⟩ := List.mem_map.mp hn
        have hfar := (List.pairwise_cons.mp hpair).1 x hx
        have hw := hafter w (by simp)
        exact (hws x (by simp [hx])).countP_eq_zero (.inr (by omega))
      rw [List.map_cons, List.sum_cons, hzero]
      exact (hws w (by simp)).countP_le
  induction windows with
  | nil => simp
  | cons w windows ih =>
    obtain ⟨hw, hws⟩ := List.forall_mem_cons.mp hwindow
    obtain ⟨hafter, hpair⟩ := List.pairwise_cons.mp hapart
    rw [List.map_cons, List.sum_cons]
    by_cases hend : w.1 + span ≤ t
    · have hzero := hw.countP_eq_zero (.inl hend)
      rw [Function.comp_apply, hzero, Nat.zero_add]
      exact ih hws hpair
    · have hrest := hlate windows hws hpair fun x hx => by
        have := hafter x hx
        omega
      have hfirst : (List.countP (isAcceptedIn span t) ∘ Prod.snd) w ≤ limit := hw.countP_le
      omega

end GravitalTalk.FixedWindow
