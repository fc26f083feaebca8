import Mathlib.Algebra.Field.Rat
import Mathlib.Algebra.Order.Ring.Rat
import Mathlib.Data.List.Infix
import Mathlib.Data.List.TakeWhile
import Mathlib.Tactic.Ring

/-!
# JSON texts

The grammar of a JSON text with everything that a reader may skip: white space, the escapes of a
string, the spelling of a number. A string stands for characters through the UTF-16 units that it
spells, a number for a rational.
-/
namespace GravitalTalk
namespace Json

/-! ## White space -/

/-- White space between two tokens. -/
structure Space where
  text : List Char
  isSpace : ∀ c ∈ text, c = ' ' ∨ c = '\t' ∨ c = '\n' ∨ c = '\r'

/-! ## Strings -/

/-- The UTF-16 units of a character. -/
def utf16 (c : Char) : List ℕ :=
  if c.toNat < 0x10000 then [c.toNat]
  else [0xD800 + (c.toNat - 0x10000) / 0x400, 0xDC00 + (c.toNat - 0x10000) % 0x400]

inductive Escape
  | quote | backslash | slash | backspace | formFeed | lineFeed | carriageReturn | tab
  deriving DecidableEq, Repr

namespace Escape

def letter : Escape → Char
  | quote => '"'
  | backslash => '\\'
  | slash => '/'
  | backspace => 'b'
  | formFeed => 'f'
  | lineFeed => 'n'
  | carriageReturn => 'r'
  | tab => 't'

def unit : Escape → ℕ
  | quote => 0x22
  | backslash => 0x5C
  | slash => 0x2F
  | backspace => 0x08
  | formFeed => 0x0C
  | lineFeed => 0x0A
  | carriageReturn => 0x0D
  | tab => 0x09

end Escape

/-- A hexadecimal digit, in capitals or not. -/
structure HexDigit where
  value : Fin 16
  capital : Bool
  deriving DecidableEq, Repr

def HexDigit.char (d : HexDigit) : Char :=
  if d.value.val < 10 then Char.ofNat (48 + d.value)
  else Char.ofNat ((if d.capital then 55 else 87) + d.value)

/-- What a string holds in one place. -/
inductive Item
  | plain (c : Char) (allowed : c ≠ '"' ∧ c ≠ '\\' ∧ 0x20 ≤ c.toNat)
  | escape (e : Escape)
  | code (a b c d : HexDigit)

namespace Item

def text : Item → List Char
  | plain c _ => [c]
  | escape e => ['\\', e.letter]
  | code a b c d => ['\\', 'u', a.char, b.char, c.char, d.char]

def units : Item → List ℕ
  | plain c _ => utf16 c
  | escape e => [e.unit]
  | code a b c d => [4096 * a.value.val + 256 * b.value.val + 16 * c.value.val + d.value.val]

/-- A character that stands for itself. -/
def IsPlain : Item → Prop
  | plain _ _ => True
  | _ => False

end Item

/-- What stands between the quotes of a string. -/
abbrev Literal := List Item

namespace Literal

def body (l : Literal) : List Char := l.flatMap Item.text

def text (l : Literal) : List Char := '"' :: (l.body ++ ['"'])

def Denotes (l : Literal) (t : List Char) : Prop := l.flatMap Item.units = t.flatMap utf16

/-- No escape in it. -/
def Plain (l : Literal) : Prop := ∀ item ∈ l, item.IsPlain

end Literal

/-! ## Numbers -/

/-- Decimal digits, at least one. -/
structure Digits where
  digits : List (Fin 10)
  nonempty : digits ≠ []

namespace Digits

def char (d : Fin 10) : Char := Char.ofNat (48 + d)

def text (ds : Digits) : List Char := ds.digits.map char

def value (ds : Digits) : ℕ := ds.digits.foldl (fun n d => 10 * n + d.val) 0

end Digits

structure Exponent where
  capital : Bool
  sign : Option Bool
  digits : Digits

namespace Exponent

def text (e : Exponent) : List Char :=
  (if e.capital then 'E' else 'e') ::
    ((match e.sign with
      | none => []
      | some minus => [if minus then '-' else '+']) ++ e.digits.text)

def value (e : Exponent) : ℤ := if e.sign = some true then -e.digits.value else e.digits.value

end Exponent

structure Number where
  minus : Bool
  int : Digits
  /-- No zero in front. -/
  canonical : int.digits.head? = some 0 → int.digits = [0]
  frac : Option Digits
  exp : Option Exponent

namespace Number

/-- What follows the integer digits. -/
def tail (n : Number) : List Char :=
  (match n.frac with
    | none => []
    | some ds => '.' :: ds.text) ++
  (match n.exp with
    | none => []
    | some e => e.text)

def text (n : Number) : List Char := (if n.minus then ['-'] else []) ++ (n.int.text ++ n.tail)

def value (n : Number) : ℚ :=
  (if n.minus then -1 else 1) *
    (n.int.value + match n.frac with
      | none => 0
      | some ds => ds.value / 10 ^ ds.digits.length) *
    (10 : ℚ) ^ (match n.exp with
      | none => 0
      | some e => e.value)

end Number

/-! ## Values -/

/-- A member of an object, with the text of its value. -/
structure Member where
  lead : Space
  name : Literal
  gap : Space
  ahead : Space
  value : List Char
  trail : Space

def Member.text (m : Member) : List Char :=
  m.lead.text ++ (m.name.text ++ (m.gap.text ++ ':' :: (m.ahead.text ++ (m.value ++ m.trail.text))))

/-- An element of an array, with the text of its value. -/
structure Element where
  lead : Space
  value : List Char
  trail : Space

def Element.text (e : Element) : List Char := e.lead.text ++ (e.value ++ e.trail.text)

/-- Texts with commas between them, or white space if there are none. -/
def listed (inner : Space) (texts : List (List Char)) : List Char :=
  if texts = [] then inner.text else [','].intercalate texts

/-- The texts of JSON values. -/
inductive IsValue : List Char → Prop
  | null : IsValue ['n', 'u', 'l', 'l']
  | true : IsValue ['t', 'r', 'u', 'e']
  | false : IsValue ['f', 'a', 'l', 's', 'e']
  | number (n : Number) : IsValue n.text
  | string (l : Literal) : IsValue l.text
  | array (inner : Space) (elements : List Element) (h : ∀ e ∈ elements, IsValue e.value) :
      IsValue ('[' :: (listed inner (elements.map Element.text) ++ [']']))
  | object (inner : Space) (members : List Member) (h : ∀ m ∈ members, IsValue m.value) :
      IsValue ('{' :: (listed inner (members.map Member.text) ++ ['}']))

/-- A JSON text that is an object. -/
structure Object where
  lead : Space
  members : List Member
  inner : Space
  trail : Space
  isValue : ∀ m ∈ members, IsValue m.value

def Object.text (o : Object) : List Char :=
  o.lead.text ++ '{' :: (listed o.inner (o.members.map Member.text) ++ '}' :: o.trail.text)

/-- A member called `name`, with the members on both sides of it. -/
structure Object.Entry (o : Object) (name : List Char) where
  before : List Member
  member : Member
  after : List Member
  split : o.members = before ++ member :: after
  named : member.name.Denotes name

namespace Object.Entry

variable {o : Object} {name : List Char} (e : o.Entry name)

/-- The text in front of the name. -/
def ahead : List Char :=
  o.lead.text ++ '{' :: (e.before.flatMap (fun m => m.text ++ [',']) ++ e.member.lead.text)

/-- The text behind the value. -/
def rest : List Char :=
  e.member.trail.text ++ (e.after.flatMap (fun m => ',' :: m.text) ++ '}' :: o.trail.text)

end Object.Entry

/-! ## Around a member -/

theorem intercalate_split (xs : List (List Char)) (y : List Char) (ys : List (List Char)) :
    [','].intercalate (xs ++ y :: ys) =
      xs.flatMap (· ++ [',']) ++ (y ++ ys.flatMap (',' :: ·)) := by
  induction xs with
  | nil =>
    induction ys generalizing y with
    | nil => simp
    | cons z ys ih =>
      rw [List.nil_append, List.intercalate_cons_cons]
      simpa using ih z
  | cons x xs ih =>
    cases xs with
    | nil =>
      rw [List.cons_append, List.nil_append, List.intercalate_cons_cons]
      simpa using ih
    | cons x' xs =>
      rw [List.cons_append, List.cons_append, List.intercalate_cons_cons, ← List.cons_append, ih]
      simp

theorem Object.Entry.text_eq {o : Object} {name : List Char} (e : o.Entry name) :
    o.text = e.ahead ++ (e.member.name.text ++ (e.member.gap.text ++
      ':' :: (e.member.ahead.text ++ (e.member.value ++ e.rest)))) := by
  have hsome : o.members.map Member.text ≠ [] := by
    simp [e.split]
  have hlisted : listed o.inner (o.members.map Member.text) =
      e.before.flatMap (fun m => m.text ++ [',']) ++
        (e.member.text ++ e.after.flatMap (fun m => ',' :: m.text)) := by
    rw [listed, if_neg hsome, e.split, List.map_append, List.map_cons, intercalate_split,
      List.flatMap_map, List.flatMap_map]
  rw [Object.text, hlisted, Object.Entry.ahead, Object.Entry.rest, Member.text]
  simp only [List.append_assoc, List.cons_append]

/-- A name follows white space, the brace or a comma. -/
theorem Object.Entry.getLast_ahead {o : Object} {name : List Char} (e : o.Entry name) :
    ∀ c ∈ e.ahead.getLast?, c ∈ [' ', '\t', '\n', '\r', '{', ','] := by
  intro c hc
  rw [Object.Entry.ahead, ← List.cons_append, ← List.append_assoc, List.getLast?_append] at hc
  cases hspace : e.member.lead.text.getLast? with
  | some d =>
    rw [hspace] at hc
    obtain rfl : d = c := Option.some.inj hc
    have hblank := e.member.lead.isSpace d (List.mem_of_mem_getLast? hspace)
    simp only [List.mem_cons]
    tauto
  | none =>
    rw [hspace, Option.none_or, List.getLast?_append] at hc
    cases hbefore : e.before.getLast? with
    | none =>
      rw [List.getLast?_eq_none_iff.mp hbefore] at hc
      obtain rfl : '{' = c := by simpa using hc
      decide
    | some m =>
      obtain ⟨front, hfront⟩ := List.getLast?_eq_some_iff.mp hbefore
      obtain rfl : ',' = c := by
        simpa [hfront, List.getLast?_cons, List.getLast?_append] using hc
      decide

/-- White space, a comma or the brace follows a value. -/
theorem Object.Entry.head_rest {o : Object} {name : List Char} (e : o.Entry name) :
    ∀ c ∈ e.rest.head?, c ∈ [' ', '\t', '\n', '\r', '}', ','] := by
  intro c hc
  rw [Object.Entry.rest] at hc
  cases hspace : e.member.trail.text with
  | cons d trail =>
    rw [hspace] at hc
    obtain rfl : d = c := Option.some.inj hc
    have hblank := e.member.trail.isSpace d (by rw [hspace]; exact List.mem_cons_self)
    simp only [List.mem_cons]
    tauto
  | nil =>
    rw [hspace, List.nil_append] at hc
    cases hafter : e.after with
    | nil =>
      obtain rfl : '}' = c := by simpa [hafter] using hc
      decide
    | cons m ms =>
      obtain rfl : ',' = c := by simpa [hafter] using hc
      decide

/-! ## What a string stands for -/

theorem eq_quote_of_mem_utf16 {c : Char} (h : 0x22 ∈ utf16 c) : c = '"' := by
  rw [utf16] at h
  split_ifs at h with hlow
  · apply Char.toNat_inj.mp
    simpa using (List.mem_singleton.mp h).symm
  · simp only [List.mem_cons, List.not_mem_nil, or_false] at h
    omega

theorem utf16_ne_nil (c : Char) : utf16 c ≠ [] := by
  unfold utf16
  split_ifs <;> simp

/-- A character is read off the front of its units. -/
theorem utf16_append_inj {c d : Char} {x y : List ℕ} (h : utf16 c ++ x = utf16 d ++ y) :
    c = d ∧ x = y := by
  have hc : c.toNat < 0xD800 ∨ 0xDFFF < c.toNat ∧ c.toNat < 0x110000 := c.valid
  have hd : d.toNat < 0xD800 ∨ 0xDFFF < d.toNat ∧ d.toNat < 0x110000 := d.valid
  rw [← Char.toNat_inj]
  unfold utf16 at h
  split_ifs at h <;> simp only [List.cons_append, List.nil_append, List.cons.injEq] at h
  · exact h
  · omega
  · omega
  · exact ⟨by omega, h.2.2⟩

theorem utf16_injective {s t : List Char} (h : s.flatMap utf16 = t.flatMap utf16) : s = t := by
  induction s generalizing t with
  | nil =>
    cases t with
    | nil => rfl
    | cons d t => exact absurd (List.append_eq_nil_iff.mp h.symm).1 (utf16_ne_nil d)
  | cons c s ih =>
    cases t with
    | nil => exact absurd (List.append_eq_nil_iff.mp h).1 (utf16_ne_nil c)
    | cons d t =>
      rw [List.flatMap_cons, List.flatMap_cons] at h
      obtain ⟨rfl, hrest⟩ := utf16_append_inj h
      rw [ih hrest]

theorem one_le_length_utf16 (c : Char) : 1 ≤ (utf16 c).length := by
  unfold utf16
  split_ifs <;> simp

theorem length_le_length_utf16 (t : List Char) : t.length ≤ (t.flatMap utf16).length := by
  induction t with
  | nil => exact le_refl 0
  | cons c t ih =>
    have hc := one_le_length_utf16 c
    rw [List.flatMap_cons, List.length_append, List.length_cons]
    omega

theorem HexDigit.char_ne_quote (d : HexDigit) : d.char ≠ '"' := by
  obtain ⟨value, capital⟩ := d
  revert value capital
  decide

/-- A quote is spelled by its escape only. -/
theorem Item.quote_mem_text {item : Item} (h : '"' ∈ item.text) : item = .escape .quote := by
  cases item with
  | plain c allowed => exact absurd (List.mem_singleton.mp h).symm allowed.1
  | escape e => cases e <;> first | rfl | simp [Item.text, Escape.letter] at h
  | code a b c d =>
    have ha := a.char_ne_quote.symm
    have hb := b.char_ne_quote.symm
    have hc := c.char_ne_quote.symm
    have hd := d.char_ne_quote.symm
    simp [Item.text, ha, hb, hc, hd] at h

/-- An escape is longer than what it stands for. -/
theorem Item.length_units_le (item : Item) :
    item.units.length ≤ (item.text.flatMap utf16).length ∧
      (¬ item.IsPlain → item.units.length < (item.text.flatMap utf16).length) := by
  cases item with
  | plain c allowed => simp [Item.text, Item.units, Item.IsPlain]
  | escape e =>
    have hlong := length_le_length_utf16 (Item.escape e).text
    have htext : (Item.escape e).text.length = 2 := rfl
    have hunits : (Item.escape e).units.length = 1 := rfl
    omega
  | code a b c d =>
    have hlong := length_le_length_utf16 (Item.code a b c d).text
    have htext : (Item.code a b c d).text.length = 6 := rfl
    have hunits : (Item.code a b c d).units.length = 1 := rfl
    omega

namespace Literal

theorem body_cons (item : Item) (l : Literal) : body (item :: l) = item.text ++ body l :=
  List.flatMap_cons

theorem plain_cons {item : Item} {l : Literal} :
    Plain (item :: l) ↔ item.IsPlain ∧ Plain l := List.forall_mem_cons

theorem length_units_le (l : Literal) :
    (l.flatMap Item.units).length ≤ (l.body.flatMap utf16).length ∧
      (¬ l.Plain → (l.flatMap Item.units).length < (l.body.flatMap utf16).length) := by
  induction l with
  | nil => simp [Plain, body]
  | cons item l ih =>
    obtain ⟨hle, hlt⟩ := item.length_units_le
    obtain ⟨ihle, ihlt⟩ := ih
    rw [List.flatMap_cons, body_cons, List.flatMap_append, List.length_append,
      List.length_append, plain_cons]
    constructor
    · omega
    · intro hescape
      by_cases hitem : item.IsPlain
      · have hrest := ihlt fun h => hescape ⟨hitem, h⟩
        omega
      · have hhere := hlt hitem
        omega

theorem units_of_plain {l : Literal} (h : l.Plain) :
    l.flatMap Item.units = l.body.flatMap utf16 := by
  induction l with
  | nil => rfl
  | cons item l ih =>
    obtain ⟨hitem, hl⟩ := plain_cons.mp h
    rw [List.flatMap_cons, body_cons, List.flatMap_append, ih hl]
    cases item with
    | plain c allowed => simp [Item.units, Item.text]
    | escape e => exact hitem.elim
    | code a b c d => exact hitem.elim

/-- The text between the quotes is the string itself where nothing is escaped, and only there. -/
theorem body_eq_iff {l : Literal} {t : List Char} (h : l.Denotes t) : l.body = t ↔ l.Plain := by
  constructor
  · rintro rfl
    by_contra hescape
    have hlt := (length_units_le l).2 hescape
    rw [h] at hlt
    exact lt_irrefl _ hlt
  · intro hplain
    apply utf16_injective
    rw [← units_of_plain hplain, h]

/-- Characters that need no escape. -/
def ofChars (t : List Char) (allowed : ∀ c ∈ t, c ≠ '"' ∧ c ≠ '\\' ∧ 0x20 ≤ c.toNat) : Literal :=
  t.pmap .plain allowed

theorem denotes_ofChars (t : List Char)
    (allowed : ∀ c ∈ t, c ≠ '"' ∧ c ≠ '\\' ∧ 0x20 ≤ c.toNat) : (ofChars t allowed).Denotes t := by
  induction t with
  | nil => rfl
  | cons c t ih =>
    have hrest := ih fun d hd => allowed d (List.mem_cons_of_mem c hd)
    rw [Denotes, ofChars] at hrest ⊢
    rw [List.pmap_cons, List.flatMap_cons, List.flatMap_cons, hrest, Item.units]

/-- Reading up to the next quote gives the string where nothing is escaped, and only there. -/
theorem takeWhile_body_iff {l : Literal} {t : List Char} (h : l.Denotes t) (rest : List Char) :
    (l.body ++ '"' :: rest).takeWhile (· ≠ '"') = t ↔ l.Plain := by
  by_cases hquote : Item.escape .quote ∈ l
  · -- the reading stops at the escaped quote, and the string holds one
    have hunit : 0x22 ∈ t.flatMap utf16 := by
      rw [← h]
      exact List.mem_flatMap.mpr ⟨_, hquote, List.mem_singleton.mpr rfl⟩
    obtain ⟨c, hc, hmem⟩ := List.mem_flatMap.mp hunit
    rw [eq_quote_of_mem_utf16 hmem] at hc
    apply iff_of_false
    · rintro rfl
      simpa using List.mem_takeWhile_imp hc
    · exact fun hplain => hplain _ hquote
  · have hbody : ∀ c ∈ l.body, decide (c ≠ '"') = true := by
      intro c hc
      obtain ⟨item, hitem, hmem⟩ := List.mem_flatMap.mp hc
      rw [decide_eq_true_iff]
      rintro rfl
      rw [Item.quote_mem_text hmem] at hitem
      exact hquote hitem
    have hread : (l.body ++ '"' :: rest).takeWhile (· ≠ '"') = l.body := by
      rw [List.takeWhile_append_of_pos hbody]
      simp
    rw [hread, body_eq_iff h]

end Literal

/-! ## Digits -/

theorem Digits.isDigit_char (d : Fin 10) : (char d).isDigit = true := by
  revert d
  decide

theorem Digits.toNat_char (d : Fin 10) : (char d).toNat - 48 = d := by
  revert d
  decide

/-- What follows the integer digits is no digit, if what follows the number is none. -/
theorem Number.head_tail (n : Number) {rest : List Char}
    (hrest : ∀ c ∈ rest.head?, c.isDigit = false) :
    ∀ c ∈ (n.tail ++ rest).head?, c.isDigit = false := by
  obtain ⟨minus, int, canonical, frac, exp⟩ := n
  cases frac with
  | some ds => simp [Number.tail]
  | none =>
    cases exp with
    | none => simpa [Number.tail] using hrest
    | some e =>
      obtain ⟨capital, sign, digits⟩ := e
      cases capital <;> simp [Number.tail, Exponent.text]

end Json
end GravitalTalk
