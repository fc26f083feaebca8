import GravitalTalk.Lib.BigEndian
import GravitalTalk.Lib.Interleave

/-!
# Pairing offers

`pairing.rs`: the rotating code of a room, and the offer that checks it. A call of
`verify` reads the number of uses once and, if the code is right, adds one to it
later; any number of calls may be between the two.
-/
namespace GravitalTalk

/-- HMAC-SHA256; `none` is a key that it refuses. -/
abbrev Mac := Bytes → Bytes → Option (Vector UInt8 32)

namespace Totp

def totpStepSecs : UInt64 := 30
def codeDigits : ℕ := 6
def driftSteps : ℤ := 1
def lookbackSteps : ℤ := 4

/-- Four bytes of the digest, from where its last byte says, as a number of `digits` digits. -/
def dynamicTruncate (digest : Bytes) (digits : ℕ) : UInt32 :=
  let offset := (digest.getD (digest.length - 1) 0 &&& 0x0f).toNat
  let binary := (digest.getD offset 0 &&& 0x7f).toUInt32 <<< 24 |||
    (digest.getD (offset + 1) 0).toUInt32 <<< 16 |||
    (digest.getD (offset + 2) 0).toUInt32 <<< 8 |||
    (digest.getD (offset + 3) 0).toUInt32
  binary % UInt32.ofNat (10 ^ digits)

def hotp (mac : Mac) (secret : Bytes) (counter : UInt64) (digits : ℕ) : UInt32 :=
  match mac secret (be64 counter) with
  | none => 0
  | some digest => dynamicTruncate digest.toList digits

def totp (mac : Mac) (secret : Bytes) (nowUnix : UInt64) (digits : ℕ) : UInt32 :=
  hotp mac secret (nowUnix / totpStepSecs) digits

inductive Reject
  | expired (expiredAgoSecs : UInt64)
  | wrongCode
  | exhausted (maxUses : UInt32)
  | staleCode
  deriving DecidableEq, Repr

def saturatingAdd (a b : UInt64) : UInt64 :=
  if a.toNat + b.toNat < 2 ^ 64 then a + b else UInt64.ofNat (2 ^ 64 - 1)

def saturatingSub (a b : UInt64) : UInt64 := if b ≤ a then a - b else 0

end Totp

open Totp

structure PairingOffer where
  secret : Vector UInt8 32
  createdAtUnix : UInt64
  /-- Zero: it does not expire. -/
  ttlSecs : UInt64
  /-- Zero: without limit. -/
  maxUses : UInt32
  uses : UInt32
  deriving DecidableEq, Repr

namespace PairingOffer

def new (secret : Vector UInt8 32) (nowUnix : UInt64) : PairingOffer := ⟨secret, nowUnix, 0, 0, 0⟩
def withTtl (ttlSecs : UInt64) (o : PairingOffer) : PairingOffer := { o with ttlSecs := ttlSecs }
def withMaxUses (maxUses : UInt32) (o : PairingOffer) : PairingOffer :=
  { o with maxUses := maxUses }

def codeAt (mac : Mac) (o : PairingOffer) (nowUnix : UInt64) : UInt32 :=
  totp mac o.secret.toList nowUnix codeDigits

def secsUntilExpiry (nowUnix : UInt64) (o : PairingOffer) : Option UInt64 :=
  if o.ttlSecs = 0 then none
  else some (saturatingSub (saturatingAdd o.createdAtUnix o.ttlSecs) nowUnix)

/-- The integers from `lo` to `hi`. -/
def steps (lo hi : ℤ) : List ℤ := (List.range (hi + 1 - lo).toNat).map fun n => lo + n

/-- The code is that of the step `probe`; there are no steps before the first. -/
def isCodeOf (mac : Mac) (o : PairingOffer) (code : UInt32) (probe : ℤ) : Bool :=
  0 ≤ probe && hotp mac o.secret.toList (UInt64.ofNat probe.toNat) codeDigits == code

/-- The code is right, give or take a step. -/
def isCurrent (mac : Mac) (o : PairingOffer) (code : UInt32) (nowUnix : UInt64) : Bool :=
  let counter : ℤ := (nowUnix / totpStepSecs).toNat
  (steps (-driftSteps) driftSteps).any fun drift => isCodeOf mac o code (counter + drift)

/-- The code was right a little earlier. -/
def isStale (mac : Mac) (o : PairingOffer) (code : UInt32) (nowUnix : UInt64) : Bool :=
  let counter : ℤ := (nowUnix / totpStepSecs).toNat
  (steps (driftSteps + 1) lookbackSteps).any fun back => isCodeOf mac o code (counter - back)

/-- `verify` up to the use it consumes. -/
def check (mac : Mac) (o : PairingOffer) (code : UInt32) (nowUnix : UInt64) : Except Reject Unit :=
  if o.secsUntilExpiry nowUnix = some 0 then
    .error (.expired (saturatingSub nowUnix (saturatingAdd o.createdAtUnix o.ttlSecs)))
  else if 0 < o.maxUses ∧ o.maxUses ≤ o.uses then .error (.exhausted o.maxUses)
  else if o.isCurrent mac code nowUnix then .ok ()
  else if o.isStale mac code nowUnix then .error .staleCode
  else .error .wrongCode

def verify (mac : Mac) (o : PairingOffer) (code : UInt32) (nowUnix : UInt64) :
    Except Reject Unit × PairingOffer :=
  match o.check mac code nowUnix with
  | .error e => (.error e, o)
  | .ok () => (.ok (), { o with uses := o.uses + 1 })

/-! ## Concurrent calls -/

/-- A call of `verify`, and how far it is. -/
inductive Verifying
  | called (code : UInt32) (nowUnix : UInt64)
  /-- The code is right; `fetch_add` comes next. -/
  | consuming
  | returned (result : Except Reject Unit)

namespace Verifying

variable (mac : Mac)

/-- The next atomic step of a call: the load and what follows from it, then the addition. -/
def next : Verifying → PairingOffer → Verifying × PairingOffer
  | called code nowUnix, o =>
    match o.check mac code nowUnix with
    | .error e => (returned (.error e), o)
    | .ok () => (consuming, o)
  | consuming, o => (returned (.ok ()), { o with uses := o.uses + 1 })
  | returned result, o => (returned result, o)

/-- A call that is not interrupted is the call. -/
theorem next_called (code : UInt32) (nowUnix : UInt64) (o : PairingOffer) :
    let first := next mac (called code nowUnix) o
    next mac first.1 first.2 =
      (returned (o.verify mac code nowUnix).1, (o.verify mac code nowUnix).2) := by
  intro first
  unfold first
  cases hcheck : o.check mac code nowUnix with
  | error e => simp only [next, verify, hcheck]
  | ok u => simp only [next, verify, hcheck]

/-- The call came back with success. -/
def isOk : Verifying → Bool
  | returned (.ok ()) => true
  | _ => false

end Verifying

variable {ι : Type*} [DecidableEq ι] [Fintype ι] {mac : Mac}
  {c : Threads ι PairingOffer Verifying}

/-- No more calls came back with success than there are uses, and each of them is counted. -/
structure Counted (c : Threads ι PairingOffer Verifying) : Prop where
  le : Threads.count Verifying.isOk c ≤ c.shared.maxUses.toNat
  uses : c.shared.uses.toNat = Threads.count Verifying.isOk c

/-- An addition finds a use that is left. -/
def HasUse (c : Threads ι PairingOffer Verifying) (i : ι) : Prop :=
  match c.threads i with
  | .consuming => c.shared.uses < c.shared.maxUses
  | _ => True

instance (c : Threads ι PairingOffer Verifying) (i : ι) : Decidable (HasUse c i) := by
  unfold HasUse
  split <;> infer_instance

/-- A step that neither adds a use nor comes back with success. -/
theorem counted_of_same {i : ι}
    (hshared : ((c.threads i).next mac c.shared).2 = c.shared)
    (hok : ((c.threads i).next mac c.shared).1.isOk = (c.threads i).isOk) (hc : Counted c) :
    Counted (c.turn (Verifying.next mac) i) := by
  have hcount := Threads.count_turn_of_same hok
  refine ⟨?_, ?_⟩
  · rw [hcount, Threads.shared_turn, hshared]
    exact hc.le
  · rw [hcount, Threads.shared_turn, hshared]
    exact hc.uses

theorem counted_turn_iff (hc : Counted c) (i : ι) :
    Counted (c.turn (Verifying.next mac) i) ↔ HasUse c i := by
  cases ht : c.threads i with
  | called code nowUnix =>
    refine iff_of_true (counted_of_same ?_ ?_ hc) (by simp [HasUse, ht])
    · rw [ht, Verifying.next]
      split <;> rfl
    · rw [ht, Verifying.next]
      split <;> rfl
  | returned result =>
    refine iff_of_true (counted_of_same ?_ ?_ hc) (by simp [HasUse, ht])
    · rw [ht, Verifying.next]
    · rw [ht, Verifying.next]
  | consuming =>
    have hnext : (c.threads i).next mac c.shared =
        (.returned (.ok ()), { c.shared with uses := c.shared.uses + 1 }) := by
      rw [ht, Verifying.next]
    have hcount : Threads.count Verifying.isOk (c.turn (Verifying.next mac) i) =
        Threads.count Verifying.isOk c + 1 := by
      apply Threads.count_turn_of_enters
      · rw [ht]
        rfl
      · rw [hnext]
        rfl
    have hshared : (c.turn (Verifying.next mac) i).shared =
        { c.shared with uses := c.shared.uses + 1 } := by
      rw [Threads.shared_turn, hnext]
    have huse : HasUse c i ↔ c.shared.uses.toNat < c.shared.maxUses.toNat := by
      rw [HasUse, ht]
      exact UInt32.lt_iff_toNat_lt
    have huses := hc.uses
    have hmax := c.shared.maxUses.toNat_lt
    rw [huse]
    constructor
    · intro h
      have hle := h.le
      rw [hcount, hshared] at hle
      dsimp only at hle
      omega
    · intro hlt
      refine ⟨?_, ?_⟩
      · rw [hcount, hshared]
        dsimp only
        omega
      · rw [hcount, hshared]
        dsimp only
        rw [UInt32.toNat_add, UInt32.toNat_one, Nat.mod_eq_of_lt (by omega), huses]

omit [Fintype ι] in
theorem maxUses_turn (c : Threads ι PairingOffer Verifying) (i : ι) :
    (c.turn (Verifying.next mac) i).shared.maxUses = c.shared.maxUses := by
  rw [Threads.shared_turn]
  cases c.threads i with
  | called code nowUnix =>
    rw [Verifying.next]
    split <;> rfl
  | consuming => rfl
  | returned result => rfl

/-- The limit holds and the uses are the successes in every state of a run, exactly when every
addition of the run finds a use that is left. -/
theorem uses_iff (mac : Mac) (secret : Vector UInt8 32) (createdAtUnix ttlSecs : UInt64)
    (maxUses : UInt32) (calls : ι → UInt32 × UInt64) (schedule : List ι) :
    let offer := ((new secret createdAtUnix).withTtl ttlSecs).withMaxUses maxUses
    let start : Threads ι PairingOffer Verifying :=
      ⟨offer, fun i => .called (calls i).1 (calls i).2⟩
    (∀ done, done <+: schedule →
      let c := done.foldl (Threads.turn (Verifying.next mac)) start
      Threads.count Verifying.isOk c ≤ maxUses.toNat ∧
        c.shared.uses.toNat = Threads.count Verifying.isOk c) ↔
      Run.Along (Threads.turn (Verifying.next mac)) HasUse start schedule := by
  intro offer start
  have hnone : Threads.count Verifying.isOk start = 0 := by
    simp [Threads.count, start, Verifying.isOk]
  let Fixed (c : Threads ι PairingOffer Verifying) : Prop := c.shared.maxUses = maxUses
  let Good (c : Threads ι PairingOffer Verifying) : Prop :=
    Threads.count Verifying.isOk c ≤ maxUses.toNat ∧
      c.shared.uses.toNat = Threads.count Verifying.isOk c
  have hcounted {c : Threads ι PairingOffer Verifying} (hmax : Fixed c) : Counted c ↔ Good c := by
    constructor
    · exact fun h => ⟨hmax ▸ h.le, h.uses⟩
    · exact fun h => ⟨h.1.trans_eq (congrArg UInt32.toNat hmax).symm, h.2⟩
  have hfixed (c : Threads ι PairingOffer Verifying) (i : ι) (hmax : Fixed c) :
      Fixed (c.turn (Verifying.next mac) i) := (maxUses_turn c i).trans hmax
  have hgood : Good start := ⟨hnone.trans_le (Nat.zero_le _), hnone.symm⟩
  have hstep (c : Threads ι PairingOffer Verifying) (i : ι) (hmax : Fixed c) (hc : Good c) :
      Good (c.turn (Verifying.next mac) i) ↔ HasUse c i := by
    rw [← hcounted (hfixed c i hmax)]
    exact counted_turn_iff ((hcounted hmax).mpr hc) i
  exact Run.good_iff_along (show Fixed start from rfl) hgood hstep fun c i hmax _ _ =>
    hfixed c i hmax

/-- Two calls with the right code read that the only use is left, and both take it. -/
theorem uses_race :
    let mac : Mac := fun _ _ => some (Vector.replicate 32 0)
    let offer := ((new (Vector.replicate 32 7) 0).withTtl 0).withMaxUses 1
    let start : Threads (Fin 2) PairingOffer Verifying := ⟨offer, fun _ => .called 0 0⟩
    let c := [0, 1, 0, 1].foldl (Threads.turn (Verifying.next mac)) start
    Threads.count Verifying.isOk c = 2 ∧ c.shared.uses = 2 ∧ c.shared.maxUses = 1 := by
  decide

end PairingOffer
end GravitalTalk
