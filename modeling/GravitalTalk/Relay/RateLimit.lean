import GravitalTalk.Lib.BigEndian
import GravitalTalk.Lib.FixedWindow
import GravitalTalk.Lib.Table

/-!
# The rate limiter of the relay

`rate_limit.rs`: a fixed window for each address, in a table that forgets old windows
when it gets large. Instants are in nanoseconds. A call reads the clock a first time only
when it evicts; the lock is held from the first reading on, so calls come one after another.
-/
namespace GravitalTalk

open FixedWindow

/-- `std::net::IpAddr`. -/
inductive IpAddr
  | v4 (octets : Vector UInt8 4)
  | v6 (octets : Vector UInt8 16)
  deriving DecidableEq, Repr

def evictThreshold : ℕ := 10000
def oneSecond : ℕ := 1000000000
def windowTtl : ℕ := 10 * oneSecond

structure RateLimiter where
  limitPerSec : ℕ
  state : Table IpAddr Window

namespace RateLimiter

def new (limitPerSec : ℕ) : RateLimiter := ⟨limitPerSec, ∅⟩

/-- The table a call finds: without the old windows, if there are too many. -/
def evicted (evictedAt : ℕ) (l : RateLimiter) : Table IpAddr Window :=
  if evictThreshold ≤ Table.size l.state then
    Table.retain (fun _ w => evictedAt - w.started < windowTtl) l.state
  else l.state

def allow (evictedAt now : ℕ) (source : IpAddr) (l : RateLimiter) : Bool × RateLimiter :=
  if l.limitPerSec = 0 then (true, l)
  else
    let map := l.evicted evictedAt
    match map.lookup source with
    | some win =>
      if oneSecond ≤ now - win.started then
        (true, { l with state := map.insert source ⟨now, 1⟩ })
      else if win.count < l.limitPerSec then
        -- Below the limit, so that the sum does not overflow.
        (true, { l with state := map.insert source { win with count := win.count + 1 } })
      else (false, { l with state := map })
    | none => (true, { l with state := map.insert source ⟨now, 1⟩ })

/-- A call, and what the clock showed: when it looked for old windows, and then again. -/
structure Call where
  source : IpAddr
  evictedAt : ℕ
  now : ℕ
  deriving DecidableEq, Repr

/-- The calls with what each was answered. -/
def log : RateLimiter → List Call → List (Call × Bool)
  | _, [] => []
  | l, c :: calls =>
    let d := l.allow c.evictedAt c.now c.source
    (c, d.1) :: log d.2 calls

/-- The clock never goes back. -/
structure Clocked (calls : List Call) : Prop where
  within : ∀ c ∈ calls, c.evictedAt ≤ c.now
  between : calls.Pairwise fun a b => a.now ≤ b.evictedAt

/-- When an address made its calls. -/
def timesOf (ip : IpAddr) (calls : List Call) : List ℕ :=
  (calls.filter fun c => c.source = ip).map Call.now

/-- What an address was answered. -/
def decisionsOf (ip : IpAddr) (log : List (Call × Bool)) : List Decision :=
  (log.filter fun d => d.1.source = ip).map fun d => (d.1.now, d.2)

variable {l : RateLimiter} {ip : IpAddr} {t : ℕ}

/-! ## One call -/

/-- The table holds the window of an address, or it has forgotten one that is over. -/
def Agrees (t : ℕ) (entry w : Option Window) : Prop :=
  entry = w ∨ entry = none ∧ ∃ x, w = some x ∧ windowTtl ≤ t - x.started

theorem Agrees.mono {entry w : Option Window} {t' : ℕ} (h : Agrees t entry w) (ht : t ≤ t') :
    Agrees t' entry w := by
  rcases h with rfl | ⟨hnone, x, hw, hold⟩
  · exact .inl rfl
  · exact .inr ⟨hnone, x, hw, by omega⟩

theorem Agrees.evicted {w : Option Window} (h : Agrees t (l.state.lookup ip) w) :
    Agrees t ((l.evicted t).lookup ip) w := by
  unfold RateLimiter.evicted
  split_ifs
  · rw [Table.lookup_retain]
    rcases h with rfl | ⟨hnone, x, hw, hold⟩
    · cases hentry : l.state.lookup ip with
      | none => exact .inl rfl
      | some x =>
        rw [Option.filter_some]
        split_ifs with hkept
        · exact .inl rfl
        · exact .inr ⟨rfl, x, rfl, by simpa using hkept⟩
    · rw [hnone]
      exact .inr ⟨rfl, x, hw, hold⟩
  · exact h

/-- A window that was forgotten was over. -/
theorem turn_of_agrees (limit : ℕ) {entry w : Option Window} (h : Agrees t entry w) :
    turn oneSecond limit t entry = turn oneSecond limit t w := by
  rcases h with rfl | ⟨rfl, x, rfl, hold⟩
  · rfl
  · have hover : oneSecond ≤ t - x.started := by
      rw [windowTtl, oneSecond] at hold
      rw [oneSecond]
      omega
    rw [turn, turn, if_pos hover]

/-- A call is a turn of the window that the table has for its address. -/
theorem allow_eq (hlimit : 0 < l.limitPerSec) (evictedAt now : ℕ) (ip : IpAddr) :
    let entry := (l.evicted evictedAt).lookup ip
    (l.allow evictedAt now ip).1 = (turn oneSecond l.limitPerSec now entry).1 ∧
      (l.allow evictedAt now ip).2.limitPerSec = l.limitPerSec ∧
      ∀ other, (l.allow evictedAt now ip).2.state.lookup other =
        if other = ip then some (turn oneSecond l.limitPerSec now entry).2
        else (l.evicted evictedAt).lookup other := by
  intro entry
  have hpos : l.limitPerSec ≠ 0 := hlimit.ne'
  cases hentry : (l.evicted evictedAt).lookup ip with
  | none =>
    simp only [allow, entry, hentry, if_neg hpos, turn, Table.lookup_insert_eq, true_and]
    simp
  | some win =>
    simp only [allow, entry, hentry, if_neg hpos, turn]
    split_ifs
    · simp [Table.lookup_insert_eq]
    · simp [Table.lookup_insert_eq]
    · refine ⟨rfl, rfl, fun other => ?_⟩
      split_ifs with hother
      · rw [hother, hentry]
      · rfl

/-! ## Runs -/

/-- An address is answered as if nobody else called and nothing was forgotten. -/
theorem decisionsOf_log (hlimit : 0 < l.limitPerSec) {calls : List Call} (hclock : Clocked calls)
    (hafter : ∀ c ∈ calls, t ≤ c.evictedAt) {w : Option Window}
    (hw : Agrees t (l.state.lookup ip) w) :
    decisionsOf ip (l.log calls) = decisions oneSecond l.limitPerSec w (timesOf ip calls) := by
  induction calls generalizing l t w with
  | nil => rfl
  | cons c calls ih =>
    obtain ⟨hthis, hrest⟩ := List.forall_mem_cons.mp hclock.within
    obtain ⟨hnext, hbetween⟩ := List.pairwise_cons.mp hclock.between
    obtain ⟨hanswer, hsame, hlookup⟩ := allow_eq hlimit c.evictedAt c.now c.source
    have hfound := (hw.mono (hafter c (by simp))).evicted
    have hstep (w' : Option Window)
        (hw' : Agrees c.now ((l.allow c.evictedAt c.now c.source).2.state.lookup ip) w') :
        decisionsOf ip ((l.allow c.evictedAt c.now c.source).2.log calls) =
          decisions oneSecond l.limitPerSec w' (timesOf ip calls) := by
      rw [← hsame]
      exact ih (hsame ▸ hlimit) ⟨hrest, hbetween⟩ hnext hw'
    by_cases hip : c.source = ip
    · subst hip
      have hturn := turn_of_agrees l.limitPerSec (hfound.mono hthis)
      have hw' := hstep (some (turn oneSecond l.limitPerSec c.now w).2) (.inl (by
        rw [hlookup, if_pos rfl, hturn]))
      simp only [log, decisionsOf, timesOf, decide_true, List.filter_cons_of_pos, List.map_cons,
        decisions, hanswer, hturn]
      exact congrArg _ hw'
    · have hw' := hstep w (by
        rw [hlookup, if_neg (Ne.symm hip)]
        exact hfound.mono hthis)
      simp only [log, decisionsOf, timesOf, hip, decide_false, Bool.false_eq_true,
        not_false_eq_true, List.filter_cons_of_neg]
      exact hw'

theorem sorted_timesOf {calls : List Call} (hclock : Clocked calls) (ip : IpAddr) :
    (timesOf ip calls).Pairwise (· ≤ ·) := by
  refine List.pairwise_map.mpr (List.Pairwise.filter _ ?_)
  refine hclock.between.imp_of_mem fun _ hb hle => ?_
  exact hle.trans (hclock.within _ hb)

theorem decisionsOf_new {limit : ℕ} (hlimit : 0 < limit) {calls : List Call}
    (hclock : Clocked calls) (ip : IpAddr) :
    decisionsOf ip ((new limit).log calls) = decisions oneSecond limit none (timesOf ip calls) :=
  decisionsOf_log (t := 0) hlimit hclock (fun _ _ => Nat.zero_le _) (.inl (Finmap.lookup_empty ip))

/-- What an address is answered falls into windows at least a second apart, of which each accepts
its first `limit` calls; so no second has more than twice the limit; and it is the same whoever
else calls. -/
theorem budget (limit : ℕ) (hlimit : 0 < limit) (calls : List Call) (hclock : Clocked calls)
    (ip : IpAddr) :
    let mine := decisionsOf ip ((new limit).log calls)
    (∃ windows, Splits oneSecond limit windows mine) ∧
      (∀ t, mine.countP (isAcceptedIn oneSecond t) ≤ 2 * limit) ∧
      ∀ others : List Call, Clocked others → timesOf ip others = timesOf ip calls →
        decisionsOf ip ((new limit).log others) = mine := by
  intro mine
  have hmine : mine = decisions oneSecond limit none (timesOf ip calls) :=
    decisionsOf_new hlimit hclock ip
  have hspan : 0 < oneSecond := by decide
  obtain ⟨windows, hsplits⟩ := splits_decisions hspan hlimit (sorted_timesOf hclock ip)
  rw [hmine]
  refine ⟨⟨windows, hsplits⟩, hsplits.countP_le, ?_⟩
  intro others hothers htimes
  rw [decisionsOf_new hlimit hothers ip, htimes]

/-- An address calls twice within its window, and another one between the two. -/
theorem budget_shared :
    let a := IpAddr.v4 #v[10, 0, 0, 3]
    let b := IpAddr.v4 #v[10, 0, 0, 4]
    let mine := decisionsOf a ((new 1).log [⟨a, 0, 0⟩, ⟨b, 1, 2⟩, ⟨a, 3, 3⟩])
    (∃ windows, Splits oneSecond 1 windows mine) ∧ mine.countP (isAcceptedIn oneSecond 0) ≤ 2 ∧
      decisionsOf a ((new 1).log [⟨a, 0, 0⟩, ⟨a, 3, 3⟩]) = mine := by
  intro a b mine
  have h := budget 1 (by decide) [⟨a, 0, 0⟩, ⟨b, 1, 2⟩, ⟨a, 3, 3⟩] ⟨by decide, by decide⟩ a
  exact ⟨h.1, h.2.1 0, h.2.2 [⟨a, 0, 0⟩, ⟨a, 3, 3⟩] ⟨by decide, by decide⟩ (by decide)⟩

end RateLimiter
end GravitalTalk
