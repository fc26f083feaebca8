import Mathlib.Tactic
import Mathlib.Data.UInt

/-!
# Big-endian numbers in byte strings

`toBe n v` writes the low `n` bytes of `v`, most significant first, and `ofBe`
reads a byte string back. The two are inverse on numbers that fit. Fixed-size
byte arrays are vectors; `fixed` cuts one out of a string.
-/
namespace GravitalTalk

abbrev Bytes := List UInt8

def toBe : ℕ → ℕ → Bytes
  | 0, _ => []
  | n + 1, v => UInt8.ofNat (v / 256 ^ n) :: toBe n v

def ofBe : Bytes → ℕ
  | [] => 0
  | b :: bs => b.toNat * 256 ^ bs.length + ofBe bs

@[simp] theorem length_toBe (n v : ℕ) : (toBe n v).length = n := by
  induction n with
  | zero => rfl
  | succ n ih => simp [toBe, ih]

theorem ofBe_lt (b : Bytes) : ofBe b < 256 ^ b.length := by
  induction b with
  | nil => simp [ofBe]
  | cons x b ih =>
    have hx : x.toNat + 1 ≤ 256 := x.toNat_lt
    have hmul := Nat.mul_le_mul_right (256 ^ b.length) hx
    simp only [ofBe, List.length_cons, pow_succ]
    rw [Nat.add_mul] at hmul
    omega

theorem ofBe_toBe_mod (n v : ℕ) : ofBe (toBe n v) = v % 256 ^ n := by
  induction n with
  | zero => simp [toBe, ofBe, Nat.mod_one]
  | succ n ih =>
    rw [toBe, ofBe, length_toBe, ih, UInt8.toNat_ofNat']
    have hsplit := Nat.mod_mul_right_div_self v (256 ^ n) 256
    have hdiv := Nat.div_add_mod (v % (256 ^ n * 256)) (256 ^ n)
    rw [hsplit, Nat.mod_mod_of_dvd v (Dvd.intro 256 rfl)] at hdiv
    rw [pow_succ 256 n, ← hdiv, Nat.mul_comm]

theorem ofBe_toBe {n v : ℕ} (h : v < 256 ^ n) : ofBe (toBe n v) = v := by
  rw [ofBe_toBe_mod, Nat.mod_eq_of_lt h]

/-- Every byte string is the number it reads as. -/
theorem toBe_ofBe (b : Bytes) : toBe b.length (ofBe b) = b := by
  have hmod (n v m : ℕ) : toBe n (v * 256 ^ n + m) = toBe n m := by
    induction n generalizing v with
    | zero => rfl
    | succ n ih =>
      have hsplit : v * 256 ^ (n + 1) + m = v * 256 * 256 ^ n + m := by ring
      have hbyte : UInt8.ofNat (v * 256 + m / 256 ^ n) = UInt8.ofNat (m / 256 ^ n) := by
        apply UInt8.toNat_inj.mp
        rw [UInt8.toNat_ofNat', UInt8.toNat_ofNat']
        omega
      rw [toBe, hsplit, ih, toBe, Nat.add_comm, Nat.add_mul_div_right _ _ (by positivity),
        Nat.add_comm, hbyte]
  induction b with
  | nil => rfl
  | cons x b ih =>
    have hdiv : (x.toNat * 256 ^ b.length + ofBe b) / 256 ^ b.length = x.toNat := by
      rw [Nat.add_comm, Nat.add_mul_div_right _ _ (by positivity),
        Nat.div_eq_of_lt (ofBe_lt b), Nat.zero_add]
    rw [ofBe, List.length_cons, toBe, hdiv, hmod, ih, UInt8.ofNat_toNat]

/-- `n` bytes of `b` from offset `off` on. -/
def slice (b : Bytes) (off n : ℕ) : Bytes := (b.drop off).take n

theorem slice_middle (a b c : Bytes) {off n : ℕ} (ho : off = a.length) (hn : n = b.length) :
    slice (a ++ (b ++ c)) off n = b := by
  subst ho hn
  simp [slice]

/-- A fixed-size array read from the front of a byte string. -/
def fixed (n : ℕ) (b : Bytes) : Vector UInt8 n := Vector.ofFn fun i : Fin n => b.getD i 0

theorem fixed_toList_append {n : ℕ} (v : Vector UInt8 n) (rest : Bytes) :
    fixed n (v.toList ++ rest) = v := by
  apply Vector.ext
  intro i hi
  rw [fixed, Vector.getElem_ofFn, List.getD_eq_getElem?_getD,
    List.getElem?_append_left (by simpa using hi)]
  simp [hi]

def be16 (x : UInt16) : Bytes := toBe 2 x.toNat
def be32 (x : UInt32) : Bytes := toBe 4 x.toNat
def be64 (x : UInt64) : Bytes := toBe 8 x.toNat

def fromBe16 (b : Bytes) : UInt16 := UInt16.ofNat (ofBe b)
def fromBe32 (b : Bytes) : UInt32 := UInt32.ofNat (ofBe b)
def fromBe64 (b : Bytes) : UInt64 := UInt64.ofNat (ofBe b)

@[simp] theorem length_be16 (x : UInt16) : (be16 x).length = 2 := length_toBe _ _
@[simp] theorem length_be32 (x : UInt32) : (be32 x).length = 4 := length_toBe _ _
@[simp] theorem length_be64 (x : UInt64) : (be64 x).length = 8 := length_toBe _ _

@[simp] theorem fromBe16_be16 (x : UInt16) : fromBe16 (be16 x) = x := by
  rw [fromBe16, be16, ofBe_toBe x.toNat_lt, UInt16.ofNat_toNat]

@[simp] theorem fromBe32_be32 (x : UInt32) : fromBe32 (be32 x) = x := by
  rw [fromBe32, be32, ofBe_toBe x.toNat_lt, UInt32.ofNat_toNat]

@[simp] theorem fromBe64_be64 (x : UInt64) : fromBe64 (be64 x) = x := by
  rw [fromBe64, be64, ofBe_toBe x.toNat_lt, UInt64.ofNat_toNat]

theorem be16_fromBe16 {b : Bytes} (h : b.length = 2) : be16 (fromBe16 b) = b := by
  have hlt : ofBe b < 2 ^ 16 := by simpa [h] using ofBe_lt b
  rw [be16, fromBe16, UInt16.toNat_ofNat', Nat.mod_eq_of_lt hlt, ← h, toBe_ofBe]

theorem be32_fromBe32 {b : Bytes} (h : b.length = 4) : be32 (fromBe32 b) = b := by
  have hlt : ofBe b < 2 ^ 32 := by simpa [h] using ofBe_lt b
  rw [be32, fromBe32, UInt32.toNat_ofNat', Nat.mod_eq_of_lt hlt, ← h, toBe_ofBe]

theorem be64_fromBe64 {b : Bytes} (h : b.length = 8) : be64 (fromBe64 b) = b := by
  have hlt : ofBe b < 2 ^ 64 := by simpa [h] using ofBe_lt b
  rw [be64, fromBe64, UInt64.toNat_ofNat', Nat.mod_eq_of_lt hlt, ← h, toBe_ofBe]

end GravitalTalk
