import GravitalTalk.Core.Crypto
import GravitalTalk.Lib.Layout

/-!
# Knocking at a contact

`knock.rs`: a datagram that says "I want to talk", sealed with a secret the two
devices share. The header names the contact; nonce, ciphertext and tag follow.
An access outside the datagram would panic, and `none` is the panic.
-/
namespace GravitalTalk
namespace Knock

/-- `GTKN`. -/
def magic : Bytes := [0x47, 0x54, 0x4B, 0x4E]
def version : UInt8 := 1
def idSize : ℕ := 8
def headerSize : ℕ := magic.length + 1 + idSize
def nonceSize : ℕ := 12
def overhead : ℕ := headerSize + nonceSize + tagSize
def maxPayload : ℕ := 1200 - overhead

inductive KnockError
  | tooLong | notForUs | forged
  deriving DecidableEq, Repr

variable (C : Crypto)

def derive (secret lbl : Bytes) : Vector UInt8 32 := C.sha256 (lbl ++ secret)

def key (secret : Bytes) : SessionKey :=
  derive C secret (Crypto.label "gravital-talk/knock/key/v1" ++ [0])

def contactId (secret : Bytes) : Vector UInt8 idSize :=
  fixed idSize (derive C secret (Crypto.label "gravital-talk/knock/id/v1" ++ [0])).toList

/-- `slice.split_at`. -/
def splitAt (b : Bytes) (mid : ℕ) : Option (Bytes × Bytes) :=
  if mid ≤ b.length then some (b.take mid, b.drop mid) else none

def addressedTo (datagram : Bytes) : Option (Option (Vector UInt8 idSize)) :=
  if datagram.length < overhead then some none
  else do
    if (← readAt datagram 0 4) ≠ magic then return none
    if (← readByte datagram 4) ≠ version then return none
    let id ← readAt datagram 5 (headerSize - 5)
    return if id.length = idSize then some (fixed idSize id) else none

/-- `seal`; the nonce comes from the operating system. -/
def sealWith (nonce : Vector UInt8 nonceSize) (secret payload : Bytes) :
    Option (Except KnockError Bytes) :=
  if maxPayload < payload.length then some (.error .tooLong)
  else do
    let out := magic ++ [version] ++ (contactId C secret).toList ++ nonce.toList
    let body := out.length
    let out := out ++ payload ++ List.replicate tagSize 0
    let (header, sealed) ← splitAt out body
    let aad ← readAt header 0 headerSize
    match C.encryptInPlace (key C secret) nonce.toList aad (sealed.take payload.length) with
    | .error _ => return .error .tooLong
    | .ok sealed => return .ok (header ++ sealed)

/-- `open`. -/
def openWith (secret datagram : Bytes) : Option (Except KnockError Bytes) := do
  if (← addressedTo datagram) ≠ some (contactId C secret) then return .error .notForUs
  let (header, rest) ← splitAt datagram headerSize
  let (nonce, sealed) ← splitAt rest nonceSize
  if nonce.length ≠ nonceSize then return .error .notForUs
  match C.decryptInPlace (key C secret) nonce header sealed with
  | .error _ => return .error .forged
  | .ok plain => return .ok plain

/-! ## What a datagram says -/

/-- Long enough, and with the magic and the version of this format. -/
def HasHeader (datagram : Bytes) : Prop :=
  overhead ≤ datagram.length ∧ datagram.take 4 = magic ∧ slice datagram 4 1 = [version]

instance (datagram : Bytes) : Decidable (HasHeader datagram) :=
  inferInstanceAs (Decidable (_ ∧ _))

variable {datagram secret payload plain : Bytes}

theorem addressedTo_eq (datagram : Bytes) :
    addressedTo datagram = some (if HasHeader datagram then
      some (fixed idSize (slice datagram 5 idSize)) else none) := by
  unfold addressedTo
  by_cases hshort : datagram.length < overhead
  · have hno : ¬ HasHeader datagram := fun h => by have := h.1; omega
    rw [if_pos hshort, if_neg hno]
  · have hlen : 41 ≤ datagram.length := by
      change ¬ datagram.length < 41 at hshort
      omega
    have hid : (slice datagram 5 (headerSize - 5)).length = idSize :=
      length_slice (by change 5 + 8 ≤ _; omega)
    rw [if_neg hshort, readAt_of_le (by omega), readByte_of_lt (by omega),
      readAt_of_le (by change 5 + 8 ≤ _; omega)]
    simp only [Option.bind_eq_bind, Option.bind_some, hid, if_true]
    have hfront : slice datagram 0 4 = datagram.take 4 := by simp [slice]
    have hbyte : slice datagram 4 1 = [version] ↔ datagram.getD 4 0 = version := by
      rw [slice_one (by omega), List.singleton_inj]
    rw [hfront]
    have hheader : HasHeader datagram ↔
        datagram.take 4 = magic ∧ datagram.getD 4 0 = version := by
      unfold HasHeader
      rw [hbyte]
      exact and_iff_right (by change 41 ≤ _; omega)
    by_cases hmagic : datagram.take 4 = magic
    · by_cases hver : datagram.getD 4 0 = version
      · simp only [hheader, hmagic, hver, ne_eq, not_true_eq_false, if_false, and_self, if_true]
        rfl
      · simp only [hheader, hmagic, hver, ne_eq, not_true_eq_false, not_false_eq_true, if_false,
          and_false, if_true]
        rfl
    · simp only [hheader, hmagic, ne_eq, not_false_eq_true, false_and, if_false, if_true]
      rfl

theorem splitAt_of_le {b : Bytes} {mid : ℕ} (h : mid ≤ b.length) :
    splitAt b mid = some (b.take mid, b.drop mid) :=
  if_pos h

/-- Under the secret a datagram is addressed to, `open` is the cipher. -/
theorem openWith_eq (secret datagram : Bytes) :
    openWith C secret datagram =
      if HasHeader datagram ∧ fixed idSize (slice datagram 5 idSize) = contactId C secret then
        some (match C.decryptInPlace (key C secret) (slice datagram headerSize nonceSize)
            (datagram.take headerSize) (datagram.drop (headerSize + nonceSize)) with
          | .error _ => .error .forged
          | .ok plain => .ok plain)
      else some (.error .notForUs) := by
  unfold openWith
  rw [addressedTo_eq, Option.bind_eq_bind, Option.bind_some]
  by_cases hheader : HasHeader datagram
  · by_cases hid : fixed idSize (slice datagram 5 idSize) = contactId C secret
    · have hlen : 41 ≤ datagram.length := hheader.1
      have hfront : headerSize ≤ datagram.length := by
        change 13 ≤ _
        omega
      have hrest : nonceSize ≤ (datagram.drop headerSize).length := by
        rw [List.length_drop]
        change 12 ≤ datagram.length - 13
        omega
      have hnonce : ((datagram.drop headerSize).take nonceSize).length = nonceSize := by
        rw [List.length_take]
        omega
      simp only [hheader, hid, if_true, ne_eq, not_true_eq_false, if_false, and_self,
        splitAt_of_le hfront, splitAt_of_le hrest, hnonce, List.drop_drop, Option.bind_eq_bind,
        Option.bind_some]
      rw [slice]
      split <;> rfl
    · simp only [hheader, hid, if_true, ne_eq, Option.some.injEq, not_false_eq_true, and_false,
        if_false]
      rfl
  · simp only [hheader, if_false, ne_eq, reduceCtorEq, not_false_eq_true, if_true, false_and]
    rfl

/-- What the cipher authenticates: magic, version and the id of the contact. -/
def header (secret : Bytes) : Bytes := magic ++ [version] ++ (contactId C secret).toList

theorem length_header (secret : Bytes) : (header C secret).length = headerSize := by
  simp only [header, headerSize, List.length_append, List.length_singleton, Vector.length_toList]

/-- A payload that fits is sealed behind its header and nonce. -/
theorem sealWith_eq (nonce : Vector UInt8 nonceSize) (secret : Bytes) {payload : Bytes}
    (h : payload.length ≤ maxPayload) :
    sealWith C nonce secret payload =
      some (match C.encryptInPlace (key C secret) nonce.toList (header C secret) payload with
        | .error _ => .error .tooLong
        | .ok sealed => .ok (header C secret ++ nonce.toList ++ sealed)) := by
  have hsplit : splitAt (header C secret ++ nonce.toList ++ payload ++ List.replicate tagSize 0)
      (header C secret ++ nonce.toList).length =
      some (header C secret ++ nonce.toList, payload ++ List.replicate tagSize 0) := by
    have hle : (header C secret ++ nonce.toList).length ≤
        (header C secret ++ nonce.toList ++ (payload ++ List.replicate tagSize 0)).length := by
      exact (List.prefix_append _ _).length_le
    rw [List.append_assoc _ payload, splitAt_of_le hle, List.take_left' rfl, List.drop_left' rfl]
  have haad : readAt (header C secret ++ nonce.toList) 0 headerSize = some (header C secret) := by
    rw [readAt_of_le (by rw [List.length_append, length_header]; omega), slice, List.drop_zero,
      List.take_left' (length_header C secret)]
  have hplain : (payload ++ List.replicate tagSize (0 : UInt8)).take payload.length = payload :=
    List.take_left' rfl
  unfold sealWith
  rw [if_neg (by omega)]
  change (splitAt (header C secret ++ nonce.toList ++ payload ++ List.replicate tagSize 0)
    (header C secret ++ nonce.toList).length).bind _ = _
  rw [hsplit, Option.bind_some]
  dsimp only
  rw [haad, hplain, Option.bind_eq_bind, Option.bind_some]
  split <;> rfl

/-- A datagram made of a header, a nonce and a sealed body is addressed to its contact, and the
parts are found where `open` looks for them. -/
theorem parts (nonce : Vector UInt8 nonceSize) (secret : Bytes) {sealed : Bytes}
    (h : tagSize ≤ sealed.length) :
    let datagram := header C secret ++ nonce.toList ++ sealed
    HasHeader datagram ∧ fixed idSize (slice datagram 5 idSize) = contactId C secret ∧
      datagram.take headerSize = header C secret ∧
      slice datagram headerSize nonceSize = nonce.toList ∧
      datagram.drop (headerSize + nonceSize) = sealed := by
  have hfront := length_header C secret
  have hnonce : nonce.toList.length = nonceSize := Vector.length_toList
  have hid : (contactId C secret).toList.length = idSize := Vector.length_toList
  have hlen : overhead ≤ (header C secret ++ nonce.toList ++ sealed).length := by
    simp only [List.length_append, hfront, hnonce, overhead]
    omega
  refine ⟨⟨hlen, ?_, ?_⟩, ?_, ?_, ?_, ?_⟩
  · simp [header, magic]
  · simp [header, magic, slice]
  · have hto : slice (header C secret ++ nonce.toList ++ sealed) 5 idSize =
        (contactId C secret).toList := by
      have := slice_middle (magic ++ [version]) (contactId C secret).toList
        (nonce.toList ++ sealed) (by rfl : 5 = _) hid.symm
      simpa [header] using this
    rw [hto]
    simpa using fixed_toList_append (contactId C secret) []
  · rw [List.append_assoc, List.take_left' hfront]
  · rw [List.append_assoc]
    exact slice_middle (header C secret) nonce.toList sealed hfront.symm hnonce.symm
  · rw [List.drop_left' (by rw [List.length_append, hfront, hnonce])]

/-- A payload that fits comes back from the datagram it was sealed in; what opens has this
header, this contact's id and a tag that verifies; and no datagram is read outside its bounds. -/
theorem knock_sealing {C : Crypto} (hC : C.RoundTrip) (hseals : C.Seals) :
    (∀ nonce secret payload, payload.length ≤ maxPayload → ∃ datagram,
      sealWith C nonce secret payload = some (.ok datagram) ∧ datagram.length ≤ 1200 ∧
        addressedTo datagram = some (some (contactId C secret)) ∧
        openWith C secret datagram = some (.ok payload)) ∧
    (∀ secret datagram plain, openWith C secret datagram = some (.ok plain) →
      HasHeader datagram ∧ slice datagram 5 idSize = (contactId C secret).toList ∧
        C.aeadDecrypt (key C secret) (slice datagram headerSize nonceSize)
          (datagram.take headerSize) (datagram.drop (headerSize + nonceSize)) = some plain) ∧
    ∀ secret datagram, addressedTo datagram ≠ none ∧ openWith C secret datagram ≠ none := by
  refine ⟨fun nonce secret payload h => ?_, fun secret datagram plain h => ?_,
    fun secret datagram => ⟨?_, ?_⟩⟩
  · obtain ⟨sealed, hsealed⟩ := hseals (key C secret) nonce.toList (header C secret) payload (by
      change payload.length + 16 ≤ 1176
      change payload.length ≤ 1159 at h
      omega)
    have henc : C.encryptInPlace (key C secret) nonce.toList (header C secret) payload =
        .ok sealed := by
      rw [Crypto.encryptInPlace, hsealed]
    have hlen := hC.length_encryptInPlace henc
    have hfront := length_header C secret
    have hnonce : nonce.toList.length = nonceSize := Vector.length_toList
    have htag : tagSize ≤ sealed.length := by omega
    obtain ⟨hheader, hid, haad, hnonceAt, hbody⟩ := parts C nonce secret htag
    have hopened : openWith C secret (header C secret ++ nonce.toList ++ sealed) =
        some (.ok payload) := by
      rw [openWith_eq, if_pos ⟨hheader, hid⟩, hnonceAt, haad, hbody, hC.decryptInPlace henc]
    refine ⟨header C secret ++ nonce.toList ++ sealed, ?_, ?_, ?_, hopened⟩
    · rw [sealWith_eq C nonce secret h, henc]
    · simp only [List.length_append, hfront, hnonce, hlen]
      change 13 + 12 + (payload.length + 16) ≤ 1200
      change payload.length ≤ 1159 at h
      omega
    · rw [addressedTo_eq, if_pos hheader, hid]
  · rw [openWith_eq] at h
    split_ifs at h with hfor
    · obtain ⟨hheader, hid⟩ := hfor
      have hlen : 41 ≤ datagram.length := hheader.1
      have hto := (fixed_slice_eq (by change 5 + 8 ≤ _; omega)).mp hid
      refine ⟨hheader, hto.symm, ?_⟩
      unfold Crypto.decryptInPlace at h
      split at h
      · cases h
      · rename_i hok
        split_ifs at hok
        split at hok
        · cases hok
          cases h
          assumption
        · cases hok
    · cases h
  · rw [addressedTo_eq]
    exact Option.some_ne_none _
  · rw [openWith_eq]
    split_ifs
    · exact Option.some_ne_none _
    · exact Option.some_ne_none _

theorem knock_sealing_toy :
    ∃ datagram, sealWith Crypto.toy (Vector.replicate 12 7) [1, 2] [3] = some (.ok datagram) ∧
      datagram.length ≤ 1200 ∧
      addressedTo datagram = some (some (contactId Crypto.toy [1, 2])) ∧
      openWith Crypto.toy [1, 2] datagram = some (.ok [3]) :=
  (knock_sealing Crypto.toy_roundTrip Crypto.toy_seals).1 _ _ _ (by decide)

end Knock
end GravitalTalk
