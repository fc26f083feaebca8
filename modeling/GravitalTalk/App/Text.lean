import Mathlib.Data.List.DropRight
import Mathlib.Data.List.TakeWhile
import Mathlib.Data.Nat.Digits.Defs
import Mathlib.Tactic

/-!
# Text and links of the app

What the app uses of its language: strings, which are lists of UTF-16 code units,
64-bit integers read from and written to text, and the queries of URIs.

The URI parser and the percent encoding of a component are parameters. How a
query is put together from encoded components and taken apart again is not.
-/
namespace GravitalTalk

abbrev Text := List UInt16

/-- A literal; those of the app are ASCII here. -/
def text (s : String) : Text := s.toList.map fun c => UInt16.ofNat c.toNat

/-- White space, as `String.trim` has it. -/
def isSpace (c : UInt16) : Bool :=
  (9 ≤ c && c ≤ 13) || c == 0x20 || c == 0x85 || c == 0xA0 || c == 0x1680 ||
  (0x2000 ≤ c && c ≤ 0x200A) || c == 0x2028 || c == 0x2029 || c == 0x202F || c == 0x205F ||
  c == 0x3000 || c == 0xFEFF

def trim (t : Text) : Text := (t.dropWhile isSpace).rdropWhile isSpace

theorem not_space_of_all {t : Text} (h : t.all (!isSpace ·)) : ∀ c ∈ t, isSpace c = false := by
  simpa using h

theorem trim_eq_self {t : Text} (h : ∀ c ∈ t, isSpace c = false) : trim t = t := by
  have hfront : t.dropWhile isSpace = t := by
    rw [List.dropWhile_eq_self_iff]
    intro hpos
    simp [h _ (List.getElem_mem hpos)]
  rw [trim, hfront, List.rdropWhile_eq_self_iff]
  intro hne
  simp [h _ (List.getLast_mem hne)]

def contains (t part : Text) : Bool := decide (part <:+: t)

def startsWith (t front : Text) : Bool := front.isPrefixOf t

/-! ## Integers -/

/-- The value of a digit of the base (up to sixteen). -/
def digitOf (base : ℕ) (c : UInt16) : Option ℕ :=
  let value := if 48 ≤ c ∧ c ≤ 57 then some (c.toNat - 48)
    else if 65 ≤ c ∧ c ≤ 70 then some (c.toNat - 55)
    else if 97 ≤ c ∧ c ≤ 102 then some (c.toNat - 87)
    else none
  value.filter (· < base)

def parseDigits (base : ℕ) (t : Text) : Option ℕ :=
  if t = [] then none else t.foldlM (fun n c => (digitOf base c).map (n * base + ·)) 0

/-- The sign of a number and what follows it. -/
def splitSign : Text → Bool × Text
  | 45 :: rest => (true, rest)
  | 43 :: rest => (false, rest)
  | t => (false, t)

/-- A value of 64 bits as it is. -/
def fitInt64 (v : ℤ) : Option Int64 :=
  if -2 ^ 63 ≤ v ∧ v < 2 ^ 63 then some (Int64.ofInt v) else none

theorem fitInt64_toInt (n : Int64) : fitInt64 n.toInt = some n := by
  rw [fitInt64, if_pos ⟨n.le_toInt, n.toInt_lt⟩, Int64.ofInt_toInt]

def signed (negative : Bool) (n : ℕ) : ℤ := if negative then -(n : ℤ) else n

def parseUnsigned (negative : Bool) (digits : Text) : Option Int64 :=
  if digits.take 2 = text "0x" ∨ digits.take 2 = text "0X" then
    (parseDigits 16 (digits.drop 2)).bind fun n =>
      if n < 2 ^ 64 then some (Int64.ofInt (signed negative n)) else none
  else (parseDigits 10 digits).bind fun n => fitInt64 (signed negative n)

/-- `int.tryParse`: a decimal number of 64 bits, or a hexadecimal one that wraps. -/
def intTryParse (t : Text) : Option Int64 :=
  let (negative, digits) := splitSign (trim t)
  parseUnsigned negative digits

def decimal (n : ℕ) : Text :=
  if n = 0 then [48] else (Nat.digits 10 n).reverse.map fun d => UInt16.ofNat (48 + d)

/-- `int.toString`. -/
def intText (n : Int64) : Text :=
  if n.toInt < 0 then 45 :: decimal n.toInt.natAbs else decimal n.toInt.natAbs

theorem digitOf_ofNat {d : ℕ} (h : d < 10) : digitOf 10 (UInt16.ofNat (48 + d)) = some d := by
  interval_cases d <;> rfl

theorem mem_decimal {n : ℕ} {c : UInt16} (h : c ∈ decimal n) : 48 ≤ c ∧ c ≤ 57 := by
  unfold decimal at h
  split_ifs at h with hn
  · rw [List.mem_singleton.mp h]
    decide
  · obtain ⟨d, hd, rfl⟩ := List.mem_map.mp h
    have hlt : d < 10 := Nat.digits_lt_base (by norm_num) (List.mem_reverse.mp hd)
    interval_cases d <;> decide

theorem decimal_ne_nil (n : ℕ) : decimal n ≠ [] := by
  unfold decimal
  split_ifs with hn
  · simp
  · simpa [Nat.digits_eq_nil_iff_eq_zero] using hn

theorem foldlM_digits {ds : List ℕ} (h : ∀ d ∈ ds, d < 10) :
    (ds.reverse.map fun d => UInt16.ofNat (48 + d)).foldlM
      (fun n c => (digitOf 10 c).map (n * 10 + ·)) 0 = some (Nat.ofDigits 10 ds) := by
  induction ds with
  | nil => rfl
  | cons d ds ih =>
    rw [List.reverse_cons, List.map_append, List.foldlM_append,
      ih fun e he => h e (List.mem_cons_of_mem d he)]
    simp only [List.map_cons, List.map_nil, List.foldlM_cons, List.foldlM_nil, bind_pure,
      Option.bind_eq_bind, Option.bind_some, digitOf_ofNat (h d List.mem_cons_self),
      Option.map_some, Nat.ofDigits_cons]
    congr 1
    omega

theorem parseDigits_decimal (n : ℕ) : parseDigits 10 (decimal n) = some n := by
  rw [parseDigits, if_neg (decimal_ne_nil n)]
  unfold decimal
  split_ifs with hn
  · rw [hn]
    rfl
  · rw [foldlM_digits fun d hd => Nat.digits_lt_base (by norm_num) hd, Nat.ofDigits_digits]

theorem digit_not_space {c : UInt16} (h : 48 ≤ c ∧ c ≤ 57) : isSpace c = false := by
  obtain ⟨hlow, hhigh⟩ := h
  rw [UInt16.le_iff_toNat_le] at hlow hhigh
  simp only [isSpace, Bool.or_eq_false_iff, Bool.and_eq_false_iff, decide_eq_false_iff_not,
    beq_eq_false_iff_ne, UInt16.le_iff_toNat_le, Ne, ← UInt16.toNat_inj]
  simp only [UInt16.reduceToNat] at *
  omega

theorem splitSign_decimal (n : ℕ) : splitSign (decimal n) = (false, decimal n) := by
  have hall : ∀ c ∈ decimal n, 48 ≤ c ∧ c ≤ 57 := fun c hc => mem_decimal hc
  generalize decimal n = t at hall
  unfold splitSign
  split
  · exact absurd (hall 45 List.mem_cons_self) (by decide)
  · exact absurd (hall 43 List.mem_cons_self) (by decide)
  · rfl

/-- A decimal number is not taken for a hexadecimal one. -/
theorem take_decimal (n : ℕ) :
    ¬ ((decimal n).take 2 = text "0x" ∨ (decimal n).take 2 = text "0X") := by
  rintro (h | h)
  · have hmem : (120 : UInt16) ∈ (decimal n).take 2 := by
      rw [h]
      decide
    exact absurd (mem_decimal (List.mem_of_mem_take hmem)) (by decide)
  · have hmem : (88 : UInt16) ∈ (decimal n).take 2 := by
      rw [h]
      decide
    exact absurd (mem_decimal (List.mem_of_mem_take hmem)) (by decide)

theorem trim_intText (n : Int64) : trim (intText n) = intText n := by
  refine trim_eq_self fun c hc => ?_
  unfold intText at hc
  split_ifs at hc
  · rcases List.mem_cons.mp hc with rfl | hc
    · decide
    · exact digit_not_space (mem_decimal hc)
  · exact digit_not_space (mem_decimal hc)

theorem parseUnsigned_decimal (negative : Bool) (n : ℕ) :
    parseUnsigned negative (decimal n) = fitInt64 (signed negative n) := by
  rw [parseUnsigned, if_neg (take_decimal n), parseDigits_decimal, Option.bind_some]

/-- What is written is read again. -/
theorem intTryParse_intText (n : Int64) : intTryParse (intText n) = some n := by
  rw [intTryParse, trim_intText]
  unfold intText
  split_ifs with hneg
  · have hsigned : signed true n.toInt.natAbs = n.toInt := by
      rw [signed, if_pos rfl]
      omega
    change parseUnsigned true (decimal n.toInt.natAbs) = some n
    rw [parseUnsigned_decimal, hsigned, fitInt64_toInt]
  · have hsigned : signed false n.toInt.natAbs = n.toInt := by
      rw [signed, if_neg Bool.false_ne_true]
      omega
    rw [splitSign_decimal]
    change parseUnsigned false (decimal n.toInt.natAbs) = some n
    rw [parseUnsigned_decimal, hsigned, fitInt64_toInt]

/-! ## Queries -/

structure Uri where
  scheme : Text
  host : Text
  query : Text
  deriving DecidableEq, Repr

/-- What is used of the URI library; decoding throws on some texts. -/
structure UriLibrary where
  tryParse : Text → Option Uri
  encodeQueryComponent : Text → Text
  decodeQueryComponent : Text → Option Text

/-- The entries of a query, or of a map with text keys. -/
abbrev Params := List (Text × Text)

/-- The entry of an optional value. -/
def Params.field (key : Text) (value : Option Text) : Params :=
  (value.map fun v => (key, v)).toList

/-- The value of a key; a later entry replaces an earlier one. -/
def Params.get (params : Params) (key : Text) : Option Text :=
  (params.filter fun p => p.1 = key).getLast?.map Prod.snd

namespace UriLibrary

variable (U : UriLibrary)

/-- One element of `Uri.splitQueryString`. -/
def queryEntry (element : Text) : Option Params :=
  let key := element.takeWhile (· != 61)
  if key = [] then some []
  else do
    let k ← U.decodeQueryComponent key
    if key.length = element.length then return [(k, [])]
    let v ← U.decodeQueryComponent (element.drop (key.length + 1))
    return [(k, v)]

/-- `Uri.splitQueryString`; `none` when a component does not decode. -/
def splitQueryString (query : Text) : Option Params :=
  ((query.splitOn 38).mapM U.queryEntry).map List.flatten

def queryParameters (u : Uri) : Option Params := U.splitQueryString u.query

/-- A key and a value, as the links join them. -/
def encodePair (p : Text × Text) : Text :=
  U.encodeQueryComponent p.1 ++ 61 :: U.encodeQueryComponent p.2

def joinQuery (params : Params) : Text := [38].intercalate (params.map U.encodePair)

/-- The query that the constructor of `Uri` makes, which leaves out the sign before an empty
value. -/
def makeQuery (params : Params) : Text :=
  [38].intercalate (params.map fun p =>
    if p.2 = [] then U.encodeQueryComponent p.1 else U.encodePair p)

end UriLibrary

/-- The text of a URI without a path. -/
def linkText (scheme host query : Text) : Text :=
  scheme ++ text "://" ++ host ++ text "?" ++ query

def pairingScheme : Text := text "gravital-talk"

/-- Encoding and decoding are inverse: of a component, and of a link whose query is joined from
encoded components. Encoded text has no white space and none of the two separators. -/
structure UriLibrary.Inverse (U : UriLibrary) : Prop where
  decode_encode : ∀ t, U.decodeQueryComponent (U.encodeQueryComponent t) = some t
  encode_ne_nil : ∀ t, t ≠ [] → U.encodeQueryComponent t ≠ []
  encode_plain : ∀ t, ∀ c ∈ U.encodeQueryComponent t, isSpace c = false ∧ c ≠ 38 ∧ c ≠ 61
  tryParse_link : ∀ host ∈ [text "pair", text "answer", text "i"], ∀ params : Params,
    params ≠ [] → U.tryParse (linkText pairingScheme host (U.joinQuery params)) =
      some ⟨pairingScheme, host, U.joinQuery params⟩

namespace UriLibrary

variable {U : UriLibrary}

theorem queryEntry_encodePair (hU : U.Inverse) {p : Text × Text} (hkey : p.1 ≠ []) :
    U.queryEntry (U.encodePair p) = some [p] := by
  have hnokey : ∀ c ∈ U.encodeQueryComponent p.1, (c != 61) = true := fun c hc => by
    simpa using (hU.encode_plain _ c hc).2.2
  have htake : (U.encodePair p).takeWhile (· != 61) = U.encodeQueryComponent p.1 := by
    rw [encodePair, List.takeWhile_append_of_pos hnokey]
    simp
  have hlen : (U.encodeQueryComponent p.1).length ≠ (U.encodePair p).length := by
    rw [encodePair, List.length_append, List.length_cons]
    omega
  have hdrop : (U.encodePair p).drop ((U.encodeQueryComponent p.1).length + 1) =
      U.encodeQueryComponent p.2 := by
    rw [encodePair, List.drop_append]
    simp
  unfold queryEntry
  rw [htake, if_neg (hU.encode_ne_nil _ hkey), hU.decode_encode, hdrop, hU.decode_encode]
  change (if _ then _ else _) = _
  rw [if_neg hlen]
  rfl

/-- A query joined from encoded components gives them back. -/
theorem splitQueryString_joinQuery (hU : U.Inverse) {params : Params} (hne : params ≠ [])
    (hkeys : ∀ p ∈ params, p.1 ≠ []) : U.splitQueryString (U.joinQuery params) = some params := by
  have hplain : ∀ l ∈ params.map U.encodePair, (38 : UInt16) ∉ l := by
    intro l hl hmem
    obtain ⟨p, -, rfl⟩ := List.mem_map.mp hl
    rcases List.mem_append.mp hmem with h | h
    · exact (hU.encode_plain _ _ h).2.1 rfl
    · rcases List.mem_cons.mp h with h | h
      · exact absurd h (by decide)
      · exact (hU.encode_plain _ _ h).2.1 rfl
  rw [splitQueryString, joinQuery, List.splitOn_intercalate 38 hplain (by simpa using hne)]
  have hentries : (params.map U.encodePair).mapM U.queryEntry = some (params.map fun p => [p]) := by
    clear hplain hne
    induction params with
    | nil => rfl
    | cons p params ih =>
      rw [List.map_cons, List.mapM_cons, queryEntry_encodePair hU (hkeys p List.mem_cons_self),
        ih fun q hq => hkeys q (List.mem_cons_of_mem p hq)]
      rfl
  rw [hentries, Option.map_some, ← List.flatMap_def, List.flatMap_singleton']

theorem makeQuery_eq {params : Params} (h : ∀ p ∈ params, p.2 ≠ []) :
    U.makeQuery params = U.joinQuery params := by
  rw [makeQuery, joinQuery]
  congr 1
  exact List.map_congr_left fun p hp => if_neg (h p hp)

theorem not_space_encodePair (hU : U.Inverse) (p : Text × Text) :
    ∀ c ∈ U.encodePair p, isSpace c = false := by
  intro c hc
  rcases List.mem_append.mp hc with h | h
  · exact (hU.encode_plain _ c h).1
  · rcases List.mem_cons.mp h with rfl | h
    · rfl
    · exact (hU.encode_plain _ c h).1

theorem not_space_joinQuery (hU : U.Inverse) (params : Params) :
    ∀ c ∈ U.joinQuery params, isSpace c = false := by
  unfold joinQuery
  induction params with
  | nil => simp
  | cons p params ih =>
    cases params with
    | nil => simpa using not_space_encodePair hU p
    | cons q params =>
      intro c hc
      rw [List.map_cons, List.map_cons, List.intercalate_cons_cons] at hc
      rcases List.mem_append.mp hc with h | h
      · rcases List.mem_append.mp h with h | h
        · exact not_space_encodePair hU p c h
        · rw [List.mem_singleton.mp h]
          rfl
      · exact ih c h

/-- The text of a link has no white space to trim. -/
theorem trim_link (hU : U.Inverse) {host : Text}
    (hhost : host ∈ [text "pair", text "answer", text "i"]) (params : Params) :
    trim (linkText pairingScheme host (U.joinQuery params)) =
      linkText pairingScheme host (U.joinQuery params) := by
  have hscheme : ∀ c ∈ pairingScheme, isSpace c = false := not_space_of_all rfl
  have hmark : ∀ c ∈ text "://", isSpace c = false := not_space_of_all rfl
  have hquery : ∀ c ∈ text "?", isSpace c = false := not_space_of_all rfl
  have hhost : ∀ c ∈ host, isSpace c = false := by
    simp only [List.mem_cons, List.not_mem_nil, or_false] at hhost
    obtain rfl | rfl | rfl := hhost <;> exact not_space_of_all rfl
  refine trim_eq_self fun c hc => ?_
  simp only [linkText, List.mem_append] at hc
  rcases hc with (((h | h) | h) | h) | h
  · exact hscheme c h
  · exact hmark c h
  · exact hhost c h
  · exact hquery c h
  · exact not_space_joinQuery hU params c h

end UriLibrary

namespace Params

@[simp] theorem get_nil (key : Text) : Params.get [] key = none := rfl

@[simp] theorem get_append (a b : Params) (key : Text) :
    Params.get (a ++ b) key = (Params.get b key).or (Params.get a key) := by
  rw [get, List.filter_append, List.getLast?_append]
  cases h : (b.filter fun p => p.1 = key).getLast? with
  | none => simp [get, h]
  | some p => simp [get, h]

@[simp] theorem get_field (name key : Text) (value : Option Text) :
    Params.get (field name value) key = if name = key then value else none := by
  cases value with
  | none => simp [field]
  | some v => by_cases h : name = key <;> simp [field, get, h]

/-- No key is empty. -/
def Keyed (params : Params) : Prop := ∀ p ∈ params, p.1 ≠ []

@[simp] theorem keyed_append {a b : Params} : Keyed (a ++ b) ↔ Keyed a ∧ Keyed b :=
  List.forall_mem_append

theorem forall_field {P : Text × Text → Prop} {key : Text} {value : Option Text} :
    (∀ p ∈ field key value, P p) ↔ ∀ v ∈ value, P (key, v) := by
  cases value with
  | none => simp [field]
  | some v => simp [field]

theorem keyed_field {key : Text} (h : key ≠ []) (value : Option Text) :
    Keyed (field key value) :=
  forall_field.mpr fun _ _ => h

end Params
end GravitalTalk
