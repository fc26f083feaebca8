import GravitalTalk.Transport.Pairing

/-!
# What a pairing code is answered

One call of `verify`, by the clock of the verifier and the codes of the time steps around it.
-/
namespace GravitalTalk.PairingOffer

open Totp

variable {mac : Mac} {o : PairingOffer} {code : UInt32} {nowUnix : UInt64}

/-- The code of a time step. -/
def stepCode (mac : Mac) (o : PairingOffer) (c : ℕ) : UInt32 :=
  hotp mac o.secret.toList (UInt64.ofNat c) codeDigits

/-- The time step of the clock. -/
def stepOf (nowUnix : UInt64) : ℕ := nowUnix.toNat / 30

/-- The code of the step of the clock, or of the one before or after it. -/
def IsNear (mac : Mac) (o : PairingOffer) (code : UInt32) (nowUnix : UInt64) : Prop :=
  ∃ c, stepOf nowUnix ≤ c + 1 ∧ c ≤ stepOf nowUnix + 1 ∧ stepCode mac o c = code

/-- The code of a step two to four before that of the clock. -/
def IsRecent (mac : Mac) (o : PairingOffer) (code : UInt32) (nowUnix : UInt64) : Prop :=
  ∃ c, stepOf nowUnix ≤ c + 4 ∧ c + 2 ≤ stepOf nowUnix ∧ stepCode mac o c = code

/-- The last second of the offer, which is no later than the last one of the clock. -/
def deadline (o : PairingOffer) : ℕ := min (o.createdAtUnix.toNat + o.ttlSecs.toNat) (2 ^ 64 - 1)

def IsExpired (o : PairingOffer) (nowUnix : UInt64) : Prop :=
  0 < o.ttlSecs.toNat ∧ o.deadline ≤ nowUnix.toNat

def IsExhausted (o : PairingOffer) : Prop := 0 < o.maxUses ∧ o.maxUses ≤ o.uses

theorem toNat_counter (nowUnix : UInt64) : (nowUnix / totpStepSecs).toNat = stepOf nowUnix :=
  UInt64.toNat_div _ _

theorem toNat_saturatingAdd (a b : UInt64) :
    (saturatingAdd a b).toNat = min (a.toNat + b.toNat) (2 ^ 64 - 1) := by
  have ha := a.toNat_lt
  have hb := b.toNat_lt
  unfold saturatingAdd
  split_ifs with h
  · rw [UInt64.toNat_add]
    omega
  · rw [UInt64.toNat_ofNat_of_lt' (by decide)]
    omega

theorem expired_iff : o.secsUntilExpiry nowUnix = some 0 ↔ IsExpired o nowUnix := by
  unfold secsUntilExpiry IsExpired deadline
  have hzero : o.ttlSecs = 0 ↔ o.ttlSecs.toNat = 0 := UInt64.toNat_inj.symm
  split_ifs with httl
  · have h0 := hzero.mp httl
    simp [h0]
  · have h0 : 0 < o.ttlSecs.toNat := Nat.pos_of_ne_zero (mt hzero.mpr httl)
    rw [Option.some_inj, saturatingSub, ← toNat_saturatingAdd, ← UInt64.le_iff_toNat_le]
    split_ifs with hle
    · rw [← UInt64.toNat_inj, UInt64.toNat_sub_of_le _ _ hle]
      rw [UInt64.le_iff_toNat_le] at hle ⊢
      have hnone : (0 : UInt64).toNat = 0 := rfl
      omega
    · have hlt := UInt64.not_le.mp hle
      exact iff_of_true rfl ⟨h0, UInt64.le_of_lt hlt⟩

theorem isCodeOf_iff {probe : ℤ} :
    o.isCodeOf mac code probe = true ↔ ∃ c : ℕ, (c : ℤ) = probe ∧ stepCode mac o c = code := by
  simp only [isCodeOf, stepCode, Bool.and_eq_true, decide_eq_true_eq, beq_iff_eq]
  constructor
  · rintro ⟨hnonneg, hcode⟩
    exact ⟨probe.toNat, Int.toNat_of_nonneg hnonneg, hcode⟩
  · rintro ⟨c, rfl, hcode⟩
    exact ⟨Int.natCast_nonneg c, by rwa [Int.toNat_natCast]⟩

theorem isCurrent_iff : o.isCurrent mac code nowUnix = true ↔ IsNear mac o code nowUnix := by
  have hsteps : steps (-driftSteps) driftSteps = [-1, 0, 1] := by decide
  simp only [isCurrent, hsteps, List.any_cons, List.any_nil, Bool.or_false, Bool.or_eq_true,
    isCodeOf_iff, toNat_counter]
  constructor
  · rintro (⟨c, hc, hcode⟩ | ⟨c, hc, hcode⟩ | ⟨c, hc, hcode⟩)
    · exact ⟨c, by omega, by omega, hcode⟩
    · exact ⟨c, by omega, by omega, hcode⟩
    · exact ⟨c, by omega, by omega, hcode⟩
  · rintro ⟨c, hlow, hhigh, hcode⟩
    rcases Nat.lt_trichotomy c (stepOf nowUnix) with hlt | heq | hgt
    · exact .inl ⟨c, by omega, hcode⟩
    · exact .inr (.inl ⟨c, by omega, hcode⟩)
    · exact .inr (.inr ⟨c, by omega, hcode⟩)

theorem isStale_iff : o.isStale mac code nowUnix = true ↔ IsRecent mac o code nowUnix := by
  have hsteps : steps (driftSteps + 1) lookbackSteps = [2, 3, 4] := by decide
  simp only [isStale, hsteps, List.any_cons, List.any_nil, Bool.or_false, Bool.or_eq_true,
    isCodeOf_iff, toNat_counter]
  constructor
  · rintro (⟨c, hc, hcode⟩ | ⟨c, hc, hcode⟩ | ⟨c, hc, hcode⟩)
    · exact ⟨c, by omega, by omega, hcode⟩
    · exact ⟨c, by omega, by omega, hcode⟩
    · exact ⟨c, by omega, by omega, hcode⟩
  · rintro ⟨c, hlow, hhigh, hcode⟩
    rcases Nat.lt_trichotomy (c + 3) (stepOf nowUnix) with hlt | heq | hgt
    · exact .inr (.inr ⟨c, by omega, hcode⟩)
    · exact .inr (.inl ⟨c, by omega, hcode⟩)
    · exact .inl ⟨c, by omega, hcode⟩

/-- The five answers, each when none of the ones before it is given. -/
theorem check_cases (mac : Mac) (o : PairingOffer) (code : UInt32) (nowUnix : UInt64) :
    (IsExpired o nowUnix ∧ ∃ ago, o.check mac code nowUnix = .error (.expired ago)) ∨
    (¬IsExpired o nowUnix ∧ IsExhausted o ∧
      o.check mac code nowUnix = .error (.exhausted o.maxUses)) ∨
    (¬IsExpired o nowUnix ∧ ¬IsExhausted o ∧ IsNear mac o code nowUnix ∧
      o.check mac code nowUnix = .ok ()) ∨
    (¬IsExpired o nowUnix ∧ ¬IsExhausted o ∧ ¬IsNear mac o code nowUnix ∧
      IsRecent mac o code nowUnix ∧ o.check mac code nowUnix = .error .staleCode) ∨
    (¬IsExpired o nowUnix ∧ ¬IsExhausted o ∧ ¬IsNear mac o code nowUnix ∧
      ¬IsRecent mac o code nowUnix ∧ o.check mac code nowUnix = .error .wrongCode) := by
  simp only [← expired_iff, IsExhausted, ← isCurrent_iff, ← isStale_iff]
  unfold check
  by_cases hexpired : o.secsUntilExpiry nowUnix = some 0
  · exact .inl ⟨hexpired, _, if_pos hexpired⟩
  rw [if_neg hexpired]
  by_cases hexhausted : 0 < o.maxUses ∧ o.maxUses ≤ o.uses
  · exact .inr (.inl ⟨hexpired, hexhausted, if_pos hexhausted⟩)
  rw [if_neg hexhausted]
  by_cases hnear : o.isCurrent mac code nowUnix = true
  · exact .inr (.inr (.inl ⟨hexpired, hexhausted, hnear, if_pos hnear⟩))
  rw [if_neg hnear]
  by_cases hrecent : o.isStale mac code nowUnix = true
  · exact .inr (.inr (.inr (.inl ⟨hexpired, hexhausted, hnear, hrecent, if_pos hrecent⟩)))
  · exact .inr (.inr (.inr (.inr ⟨hexpired, hexhausted, hnear, hrecent, if_neg hrecent⟩)))

theorem verify_fst : (o.verify mac code nowUnix).1 = o.check mac code nowUnix := by
  unfold verify
  split <;> simp_all

theorem verify_snd : (o.verify mac code nowUnix).2 =
    if (o.verify mac code nowUnix).1 = .ok () then { o with uses := o.uses + 1 } else o := by
  unfold verify
  split <;> simp

theorem add_one_ne (n : UInt32) : n + 1 ≠ n := by
  intro h
  have hnat := congrArg UInt32.toNat h
  have hlt := n.toNat_lt
  rw [UInt32.toNat_add, UInt32.toNat_one] at hnat
  omega

/-- A clock that is no more than a step away shows a code of a step near by. -/
theorem isNear_codeAt {t : UInt64} (hearly : nowUnix.toNat ≤ t.toNat + 30)
    (hlate : t.toNat ≤ nowUnix.toNat + 30) : IsNear mac o (o.codeAt mac t) nowUnix := by
  refine ⟨stepOf t, ?_, ?_, ?_⟩
  · rw [stepOf, stepOf]
    omega
  · rw [stepOf, stepOf]
    omega
  · rw [stepCode, codeAt, totp, ← toNat_counter, UInt64.ofNat_toNat]

/-- When each answer is given. -/
theorem check_iff (mac : Mac) (o : PairingOffer) (code : UInt32) (nowUnix : UInt64) :
    let result := o.check mac code nowUnix
    let valid := ¬IsExpired o nowUnix ∧ ¬IsExhausted o
    ((∃ ago, result = .error (.expired ago)) ↔ IsExpired o nowUnix) ∧
      ((∃ uses, result = .error (.exhausted uses)) ↔ ¬IsExpired o nowUnix ∧ IsExhausted o) ∧
      (result = .ok () ↔ valid ∧ IsNear mac o code nowUnix) ∧
      (result = .error .staleCode ↔
        valid ∧ ¬IsNear mac o code nowUnix ∧ IsRecent mac o code nowUnix) ∧
      (result = .error .wrongCode ↔
        valid ∧ ¬IsNear mac o code nowUnix ∧ ¬IsRecent mac o code nowUnix) := by
  intro result valid
  unfold result valid
  rcases check_cases mac o code nowUnix with ⟨hexpired, ago, hc⟩ | ⟨hexpired, hexhausted, hc⟩ |
    ⟨hexpired, hexhausted, hnear, hc⟩ | ⟨hexpired, hexhausted, hnear, hrecent, hc⟩ |
    ⟨hexpired, hexhausted, hnear, hrecent, hc⟩
  · simp [hc, hexpired]
  · simp [hc, hexpired, hexhausted]
  · simp [hc, hexpired, hexhausted, hnear]
  · simp [hc, hexpired, hexhausted, hnear, hrecent]
  · simp [hc, hexpired, hexhausted, hnear, hrecent]

/-- What `verify` answers, and the use it takes. A code from a clock that is no more than a step
away is neither old nor wrong. -/
theorem verify_outcome (mac : Mac) (o : PairingOffer) (code : UInt32) (nowUnix : UInt64) :
    let result := (o.verify mac code nowUnix).1
    let after := (o.verify mac code nowUnix).2
    let valid := ¬IsExpired o nowUnix ∧ ¬IsExhausted o
    ((∃ ago, result = .error (.expired ago)) ↔ IsExpired o nowUnix) ∧
      ((∃ uses, result = .error (.exhausted uses)) ↔ ¬IsExpired o nowUnix ∧ IsExhausted o) ∧
      (result = .ok () ↔ valid ∧ IsNear mac o code nowUnix) ∧
      (result = .error .staleCode ↔
        valid ∧ ¬IsNear mac o code nowUnix ∧ IsRecent mac o code nowUnix) ∧
      (result = .error .wrongCode ↔
        valid ∧ ¬IsNear mac o code nowUnix ∧ ¬IsRecent mac o code nowUnix) ∧
      (after.uses = o.uses + 1 ↔ result = .ok ()) ∧ (result ≠ .ok () → after = o) ∧
      ∀ t : UInt64, nowUnix.toNat ≤ t.toNat + 30 → t.toNat ≤ nowUnix.toNat + 30 →
        code = o.codeAt mac t → result ≠ .error .staleCode ∧ result ≠ .error .wrongCode := by
  intro result after valid
  have hafter : after = if result = .ok () then { o with uses := o.uses + 1 } else o := verify_snd
  have hresult : result = o.check mac code nowUnix := verify_fst
  obtain ⟨hexpired, hexhausted, hok, hstale, hwrong⟩ := check_iff mac o code nowUnix
  rw [← hresult] at hexpired hexhausted hok hstale hwrong
  refine ⟨hexpired, hexhausted, hok, hstale, hwrong, ?_, ?_, ?_⟩
  · rw [hafter]
    split_ifs with htaken
    · exact iff_of_true rfl htaken
    · exact iff_of_false (add_one_ne o.uses).symm htaken
  · intro hrefused
    rw [hafter, if_neg hrefused]
  · rintro t hearly hlate rfl
    have hnear : IsNear mac o (o.codeAt mac t) nowUnix := isNear_codeAt hearly hlate
    exact ⟨fun h => (hstale.mp h).2.1 hnear, fun h => (hwrong.mp h).2.1 hnear⟩

/-- A clock half a minute late shows a code that is accepted. -/
theorem verify_outcome_late :
    let mac : Mac := fun _ _ => some (Vector.replicate 32 0)
    let offer := new (Vector.replicate 32 7) 0
    (offer.verify mac (offer.codeAt mac 1010) 1040).1 ≠ .error .staleCode := by
  intro mac offer
  obtain ⟨-, -, -, -, -, -, -, hclock⟩ :=
    verify_outcome mac offer (offer.codeAt mac 1010) 1040
  exact (hclock 1010 (by decide) (by decide) rfl).1

/-- At the end of the clock an offer has expired before its time, and an offer without limit that
was used as often as can be counted starts again from zero. -/
theorem verify_capped :
    let mac : Mac := fun _ _ => some (Vector.replicate 32 0)
    let offer := (new (Vector.replicate 32 7) 0xFFFFFFFFFFFFFFF0).withTtl 100
    let worn : PairingOffer := { new (Vector.replicate 32 7) 0 with uses := 0xFFFFFFFF }
    ((offer.verify mac 0 0xFFFFFFFFFFFFFFFF).1 = .error (.expired 0) ∧
        ¬offer.createdAtUnix.toNat + offer.ttlSecs.toNat ≤ (0xFFFFFFFFFFFFFFFF : UInt64).toNat) ∧
      ((worn.verify mac 0 0).1 = .ok () ∧
        (worn.verify mac 0 0).2.uses.toNat ≠ worn.uses.toNat + 1) := by
  decide

end GravitalTalk.PairingOffer
