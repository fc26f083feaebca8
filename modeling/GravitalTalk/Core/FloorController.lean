import GravitalTalk.Lib.Run
import Mathlib.Data.UInt

/-!
# The floor controller

`floor.rs` in the core crate: the state machine of push-to-talk as one participant
or the arbiter sees it. The controller keeps who an event was about next to the state.
-/
namespace GravitalTalk

inductive FloorState
  | idle | requested | granted | released
  deriving DecidableEq, Repr

inductive FloorEvent
  | request | grant | deny | release | taken | timeout | reset
  deriving DecidableEq, Repr

/-- The events that are about a participant; the others carry a zero. -/
def FloorEvent.hasSubject : FloorEvent → Bool
  | timeout | reset => false
  | _ => true

structure FloorTransitionError where
  source : FloorState
  event : FloorEvent
  deriving DecidableEq, Repr

structure FloorController where
  state : FloorState
  holderSsrc : UInt32
  maxTransmitMs : UInt64
  deriving DecidableEq, Repr

namespace FloorController

def new (maxTransmitMs : UInt64) : FloorController := ⟨.idle, 0, maxTransmitMs⟩

def holder (c : FloorController) : UInt32 := c.holderSsrc

def isAvailable (c : FloorController) : Bool := c.state == .idle || c.state == .released

def isHolder (ssrc : UInt32) (c : FloorController) : Bool :=
  c.state == .granted && c.holderSsrc == ssrc

/-- An arm of `transition` that accepts the event. -/
def accept (c : FloorController) (next : FloorState) (holderSsrc : UInt32) :
    Except FloorTransitionError FloorState × FloorController :=
  (.ok next, { c with state := next, holderSsrc := holderSsrc })

def transition (event : FloorEvent) (ssrc : UInt32) (c : FloorController) :
    Except FloorTransitionError FloorState × FloorController :=
  match c.state, event with
  | .idle, .request => c.accept .requested ssrc
  -- The one accepted event that leaves the holder as it is.
  | .idle, .reset => c.accept .idle c.holderSsrc
  | .idle, .grant => c.accept .granted ssrc
  | .requested, .grant => c.accept .granted ssrc
  | .requested, .deny => c.accept .idle 0
  | .requested, .taken => c.accept .granted ssrc
  | .requested, .reset | .requested, .timeout => c.accept .idle 0
  | .granted, .release => c.accept .released 0
  | .granted, .timeout => c.accept .released 0
  | .granted, .taken => c.accept .granted ssrc
  | .granted, .reset => c.accept .idle 0
  | .released, .reset | .released, .release => c.accept .idle 0
  | .released, .request => c.accept .requested ssrc
  | .released, .grant => c.accept .granted ssrc
  | source, event => (.error ⟨source, event⟩, c)

/-- A call: an event and the participant it is about. -/
abbrev Call := FloorEvent × UInt32

def step (c : FloorController) (x : Call) : FloorController := (c.transition x.1 x.2).2

def run (c : FloorController) (calls : List Call) : FloorController := calls.foldl step c

/-- An event with a subject names one. -/
def Named (x : Call) : Prop := x.1.hasSubject = true → x.2 ≠ 0

instance (x : Call) : Decidable (Named x) := inferInstanceAs (Decidable (_ → _))

/-- An event that takes the floor from `p`. -/
def EndsTenure (p : UInt32) (x : Call) : Prop :=
  x.1 = .release ∨ x.1 = .taken ∧ x.2 ≠ p ∨ x.1 = .timeout ∨ x.1 = .reset

variable {c : FloorController}

/-! ## One event -/

theorem transition_error {event : FloorEvent} {ssrc : UInt32} {e : FloorTransitionError}
    (h : (c.transition event ssrc).1 = .error e) : (c.transition event ssrc).2 = c := by
  revert h
  cases hstate : c.state <;> cases event <;> simp [transition, hstate, accept]

theorem isHolder_iff {p : UInt32} :
    c.isHolder p = true ↔ c.state = .granted ∧ c.holderSsrc = p := by
  simp [isHolder]

theorem isAvailable_iff : c.isAvailable = true ↔ c.state = .idle ∨ c.state = .released := by
  simp [isAvailable]

/-- A grant, or the word that someone took the floor, puts its subject on it if it is accepted. -/
theorem isHolder_of_ok {event : FloorEvent} {p : UInt32} {next : FloorState}
    (hevent : event = .grant ∨ event = .taken) (h : (c.transition event p).1 = .ok next) :
    (c.transition event p).2.isHolder p = true := by
  revert h
  rcases hevent with rfl | rfl
  · cases hstate : c.state <;> simp [transition, hstate, accept, isHolder]
  · cases hstate : c.state <;> simp [transition, hstate, accept, isHolder]

/-- Who took the floor is told to those that asked for it or saw it granted, not to others. -/
theorem taken_ok_iff (q : UInt32) :
    (∃ next, (c.transition .taken q).1 = .ok next) ↔ c.isAvailable = false := by
  cases hstate : c.state <;> simp [transition, hstate, accept, isAvailable]

/-! ## Runs -/

/-- Somebody is on the floor when it is granted, and nobody when it is available. -/
structure HolderOk (c : FloorController) : Prop where
  granted : c.state = .granted → c.holderSsrc ≠ 0
  available : c.isAvailable = true → c.holderSsrc = 0

theorem holderOk_new (maxTransmitMs : UInt64) : HolderOk (new maxTransmitMs) :=
  ⟨by simp [new], fun _ => rfl⟩

theorem HolderOk.step (h : HolderOk c) {x : Call} (hx : Named x) : HolderOk (c.step x) := by
  obtain ⟨event, ssrc⟩ := x
  obtain ⟨hgranted, havailable⟩ := h
  simp only [isAvailable_iff] at havailable
  constructor
  · revert hgranted hx
    cases hstate : c.state <;> cases event <;>
      simp +contextual [FloorController.step, transition, hstate, accept, Named,
        FloorEvent.hasSubject]
  · revert havailable
    cases hstate : c.state <;> cases event <;>
      simp [FloorController.step, transition, hstate, accept, isAvailable]

theorem HolderOk.run (h : HolderOk c) {calls : List Call} (hcalls : ∀ x ∈ calls, Named x) :
    HolderOk (c.run calls) := by
  induction calls generalizing c with
  | nil => exact h
  | cons x calls ih =>
    obtain ⟨hx, hrest⟩ := List.forall_mem_cons.mp hcalls
    exact ih (h.step hx) hrest

theorem isHolder_step {p : UInt32} (h : c.isHolder p = true) (x : Call) :
    (c.step x).isHolder p = true ∨ EndsTenure p x := by
  obtain ⟨event, ssrc⟩ := x
  obtain ⟨hstate, hholder⟩ := isHolder_iff.mp h
  cases event with
  | taken =>
    rcases eq_or_ne ssrc p with rfl | hne
    · left
      simp [step, transition, hstate, accept, isHolder]
    · exact .inr (.inr (.inl ⟨rfl, hne⟩))
  | release => exact .inr (.inl rfl)
  | timeout => exact .inr (.inr (.inr (.inl rfl)))
  | reset => exact .inr (.inr (.inr (.inr rfl)))
  | request | grant | deny =>
    left
    simp [step, transition, hstate, isHolder, hholder]

theorem isHolder_run {p : UInt32} (h : c.isHolder p = true) (calls : List Call) :
    (c.run calls).isHolder p = true ∨ ∃ early x late, calls = early ++ x :: late ∧
      (c.run early).isHolder p = true ∧ EndsTenure p x := by
  induction calls generalizing c with
  | nil => exact .inl h
  | cons x calls ih =>
    rcases isHolder_step h x with hkept | hends
    · rcases ih hkept with hrun | ⟨early, y, late, hsplit, hheld, hends⟩
      · exact .inl hrun
      · exact .inr ⟨x :: early, y, late, by rw [hsplit, List.cons_append], hheld, hends⟩
    · exact .inr ⟨[], x, calls, rfl, h, hends⟩

/-- After any events the floor is somebody's when it is granted and nobody's when it is
available. Who was put on it stays until a release, another holder, a timeout or a reset; what is
refused changes nothing; and the word that `q` took it is refused only while it is available. -/
theorem tenure (maxTransmitMs : UInt64) (calls : List Call) (hnamed : ∀ x ∈ calls, Named x) :
    let start := new maxTransmitMs
    let c := start.run calls
    ((c.state = .granted → c.holder ≠ 0) ∧ (c.isAvailable = true → c.holder = 0)) ∧
    (∀ before x mid, calls = before ++ x :: mid → x.1 = .grant ∨ x.1 = .taken →
      (∃ next, ((start.run before).transition x.1 x.2).1 = .ok next) →
      let begun := start.run (before ++ [x])
      begun.isHolder x.2 = true ∧
        (c.isHolder x.2 = true ∨ ∃ early y late, mid = early ++ y :: late ∧
          (begun.run early).isHolder x.2 = true ∧ EndsTenure x.2 y)) ∧
    (∀ event ssrc e, (c.transition event ssrc).1 = .error e → (c.transition event ssrc).2 = c) ∧
    ∀ q, if c.isAvailable then ∃ e, (c.transition .taken q).1 = .error e
      else (c.transition .taken q).2.isHolder q = true ∧ (c.transition .taken q).2.holder = q := by
  intro start c
  have hholder : HolderOk c := (holderOk_new maxTransmitMs).run hnamed
  refine ⟨⟨hholder.granted, hholder.available⟩, ?_, ?_, ?_⟩
  · rintro before x mid rfl hevent ⟨next, hok⟩ begun
    have hbegun : begun = ((start.run before).transition x.1 x.2).2 := by
      simp only [begun, run, List.foldl_append, List.foldl_cons, List.foldl_nil, step]
    have hheld : begun.isHolder x.2 = true := by
      rw [hbegun]
      exact isHolder_of_ok hevent hok
    have hrest : c = begun.run mid := by
      simp only [c, begun, run, List.foldl_append, List.foldl_cons, List.foldl_nil]
    rw [hrest]
    exact ⟨hheld, isHolder_run hheld mid⟩
  · intro event ssrc e he
    exact transition_error he
  · intro q
    have htaken := taken_ok_iff (c := c) q
    split_ifs with havailable
    · cases hresult : (c.transition .taken q).1 with
      | error e => exact ⟨e, rfl⟩
      | ok next => simp [htaken.mp ⟨next, hresult⟩] at havailable
    · obtain ⟨next, hok⟩ := htaken.mpr (Bool.eq_false_of_not_eq_true havailable)
      have hheld := isHolder_of_ok (.inr rfl) hok
      exact ⟨hheld, (isHolder_iff.mp hheld).2⟩

/-- Nine takes the floor from seven and lets go of it. -/
theorem tenure_handed_on :
    let start := new 30000
    let calls : List Call := [(.request, 7), (.grant, 7), (.taken, 9), (.release, 9)]
    let c := start.run calls
    (c.isAvailable = true → c.holder = 0) ∧
      (c.isHolder 7 = true ∨ ∃ early y late, [(.taken, 9), (.release, 9)] = early ++ y :: late ∧
        ((start.run [(.request, 7), (.grant, 7)]).run early).isHolder 7 = true ∧
        EndsTenure 7 y) := by
  intro start calls c
  have h := tenure 30000 calls (by decide)
  exact ⟨h.1.2, (h.2.1 [(.request, 7)] (.grant, 7) [(.taken, 9), (.release, 9)] rfl (.inl rfl)
    ⟨.granted, rfl⟩).2⟩

/-- Seven only asked and is already the holder; nine, that is not on the floor, takes it from seven
by releasing it; and who is idle is not told of a holder. -/
theorem tenure_open :
    let asked := (new 30000).run [(.request, 7)]
    let held := (new 30000).run [(.grant, 7)]
    (asked.state ≠ .granted ∧ asked.holder = 7) ∧
      (held.isHolder 7 = true ∧ (held.step (.release, 9)).isHolder 7 = false ∧
        (held.step (.release, 9)).holder = 0) ∧
      ((new 30000).step (.taken, 7)).holder ≠ 7 := by
  decide

end FloorController
end GravitalTalk
