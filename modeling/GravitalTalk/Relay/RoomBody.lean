import GravitalTalk.Lib.Json
import GravitalTalk.Lib.Search
import GravitalTalk.Relay.Router
import Mathlib.Tactic.NormNum

/-!
# The body of a room request

`observability.rs` does not parse the body of `POST /api/rooms`: `extract_session_id` and
`extract_token` search its text.
-/
namespace GravitalTalk

open Search

/-! ## Reading a body -/

namespace Observability

/-- `std::str::from_utf8`. -/
def fromUtf8 (body : Bytes) : Option (List Char) :=
  (String.fromUTF8? ⟨body.toArray⟩).map String.toList

/-- `char::is_whitespace`. -/
def isWhitespace (c : Char) : Bool :=
  let n := c.toNat
  (9 ≤ n && n ≤ 13) || n = 0x20 || n = 0x85 || n = 0xA0 || n = 0x1680 ||
    (0x2000 ≤ n && n ≤ 0x200A) || n = 0x2028 || n = 0x2029 || n = 0x202F || n = 0x205F ||
    n = 0x3000

def trimStart (s : List Char) : List Char := s.dropWhile isWhitespace

def decimal (digits : List Char) : ℕ := digits.foldl (fun n c => 10 * n + (c.toNat - 48)) 0

/-- `str::parse` of digits; a number that does not fit is an error. -/
def parseU32 (digits : List Char) : Option UInt32 :=
  if decimal digits < 2 ^ 32 then some (UInt32.ofNat (decimal digits)) else none

def sessionKey : List Char := ['s', 'e', 's', 's', 'i', 'o', 'n', '_', 'i', 'd']
def tokenKey : List Char := ['"', 't', 'o', 'k', 'e', 'n', '"']

/-- What `extract_session_id` makes of the text behind the colon. -/
def readNumber (s : List Char) : Option UInt32 :=
  let digits := (trimStart s).takeWhile Char.isDigit
  if digits = [] then none else parseU32 digits

/-- What `extract_token` makes of the text behind the colon. -/
def readString (s : List Char) : Option (List Char) :=
  match trimStart s with
  | '"' :: rest => if '"' ∈ rest then some (rest.takeWhile (· ≠ '"')) else none
  | _ => none

def extractSessionId (body : Bytes) : Option UInt32 := do
  let s ← fromUtf8 body
  let rest ← behind sessionKey ':' s
  readNumber rest

def extractToken (body : Bytes) : Option String := do
  let s ← fromUtf8 body
  let rest ← behind tokenKey ':' s
  (readString rest).map String.ofList

structure Response where
  status : ℕ
  body : String
  deriving DecidableEq, Repr

/-- `json_response`. -/
def jsonResponse (status : ℕ) (body : String) : Response :=
  ⟨status, if body.endsWith "\n" then body else body ++ "\n"⟩

/-- `handle_create_room`, with the code that was drawn. -/
def handleCreateRoom (C : Crypto) (body : Bytes) (code : String) (r : Router) :
    Response × Router :=
  match extractSessionId body with
  | none => (jsonResponse 400
      "\x7b\"error\":\"body must be \x7b\\\"session_id\\\":N\x7d with N > 0\"\x7d", r)
  | some sessionId =>
    if sessionId = 0 then
      (jsonResponse 400
        "\x7b\"error\":\"body must be \x7b\\\"session_id\\\":N\x7d with N > 0\"\x7d", r)
    else
      let token := extractToken body
      match r.registerRoom C code sessionId token with
      | (true, r) => (jsonResponse 201
          ("\x7b\"code\":\"" ++ code ++ "\",\"session_id\":" ++ toString sessionId.toNat ++ "\x7d"),
          r)
      | (false, r) => (jsonResponse 409 "\x7b\"error\":\"room code collision, retry\"\x7d", r)

/-! ## What is read -/

/-- Digits that spell `v`, behind white space. -/
def SpellsNumber (v : ℚ) (s : List Char) : Prop :=
  ∃ space digits rest, s = space ++ (digits ++ rest) ∧
    (∀ c ∈ space, isWhitespace c = true) ∧ digits ≠ [] ∧ (∀ c ∈ digits, c.isDigit = true) ∧
    (∀ c ∈ rest.head?, c.isDigit = false) ∧ (decimal digits : ℚ) = v

/-- The string `t` in quotes, behind white space. -/
def SpellsString (t s : List Char) : Prop :=
  ∃ space rest, s = space ++ '"' :: (t ++ '"' :: rest) ∧
    (∀ c ∈ space, isWhitespace c = true) ∧ '"' ∉ t

theorem isWhitespace_of_isDigit {c : Char} (h : c.isDigit = true) : isWhitespace c = false := by
  have hrange : 48 ≤ c.toNat ∧ c.toNat ≤ 57 := by
    simpa [Char.isDigit, Char.le_def, UInt32.le_iff_toNat_le] using h
  simp only [isWhitespace, Bool.or_eq_false_iff, Bool.and_eq_false_iff, decide_eq_false_iff_not]
  omega

theorem trimStart_append {space s : List Char} (hspace : ∀ c ∈ space, isWhitespace c = true)
    (hs : ∀ c ∈ s.head?, isWhitespace c = false) : trimStart (space ++ s) = s := by
  rw [trimStart, List.dropWhile_append_of_pos hspace]
  cases s with
  | nil => rfl
  | cons c s => exact List.dropWhile_cons_of_neg (by simp [hs c rfl])

theorem trimStart_cons {space : List Char} {c : Char}
    (hspace : ∀ c ∈ space, isWhitespace c = true) (hc : isWhitespace c = false) (s : List Char) :
    trimStart (space ++ c :: s) = c :: s := by
  apply trimStart_append hspace
  intro d hd
  obtain rfl : c = d := Option.some.inj hd
  exact hc

theorem takeWhile_append_head {p : Char → Bool} {s rest : List Char} (hs : ∀ c ∈ s, p c = true)
    (hrest : ∀ c ∈ rest.head?, p c = false) : (s ++ rest).takeWhile p = s := by
  rw [List.takeWhile_append_of_pos hs]
  cases rest with
  | nil => simp
  | cons c rest => simp [hrest c rfl]

theorem ne_quote {c : Char} {s : List Char} (hc : c ∈ s) (hs : '"' ∉ s) :
    decide (c ≠ '"') = true := by
  rw [decide_eq_true_iff]
  rintro rfl
  exact hs hc

/-- A text is white space and what is left when that is trimmed. -/
theorem exists_trimStart (s : List Char) :
    ∃ space, s = space ++ trimStart s ∧ ∀ c ∈ space, isWhitespace c = true :=
  ⟨s.takeWhile isWhitespace, (List.takeWhile_append_dropWhile).symm,
    fun _ hc => List.mem_takeWhile_imp hc⟩

theorem parseU32_iff {digits : List Char} {v : ℚ} (hv : v < 2 ^ 32) :
    (∃ id, parseU32 digits = some id ∧ (id.toNat : ℚ) = v) ↔ (decimal digits : ℚ) = v := by
  unfold parseU32
  by_cases hlt : decimal digits < 2 ^ 32
  · have hid : (UInt32.ofNat (decimal digits)).toNat = decimal digits := by
      rw [UInt32.toNat_ofNat', Nat.mod_eq_of_lt hlt]
    rw [if_pos hlt]
    simp [hid]
  · rw [if_neg hlt]
    apply iff_of_false
    · rintro ⟨id, hid, -⟩
      cases hid
    · rintro rfl
      exact hlt (by exact_mod_cast hv)

theorem readNumber_iff {s : List Char} {v : ℚ} (hv : v < 2 ^ 32) :
    (∃ id, readNumber s = some id ∧ (id.toNat : ℚ) = v) ↔ SpellsNumber v s := by
  unfold readNumber
  constructor
  · intro hread
    obtain ⟨space, hs, hspace⟩ := exists_trimStart s
    dsimp only at hread
    split_ifs at hread with hempty
    · obtain ⟨id, hid, -⟩ := hread
      cases hid
    · refine ⟨space, _, (trimStart s).dropWhile Char.isDigit, ?_, hspace, hempty,
        fun c hc => List.mem_takeWhile_imp hc, ?_, (parseU32_iff hv).mp hread⟩
      · rw [List.takeWhile_append_dropWhile]
        exact hs
      · intro c hc
        have hstop := List.head?_dropWhile_not Char.isDigit (trimStart s)
        rw [hc] at hstop
        exact hstop
  · rintro ⟨space, digits, rest, rfl, hspace, hne, hdigits, hrest, hvalue⟩
    have hhead : ∀ c ∈ (digits ++ rest).head?, isWhitespace c = false := by
      intro c hc
      cases digits with
      | nil => exact absurd rfl hne
      | cons d digits =>
        obtain rfl : d = c := Option.some.inj hc
        exact isWhitespace_of_isDigit (hdigits d List.mem_cons_self)
    rw [trimStart_append hspace hhead, takeWhile_append_head hdigits hrest]
    dsimp only
    rw [if_neg hne]
    exact (parseU32_iff hv).mpr hvalue

theorem readString_iff {s t : List Char} : readString s = some t ↔ SpellsString t s := by
  unfold readString
  constructor
  · intro hread
    obtain ⟨space, hs, hspace⟩ := exists_trimStart s
    split at hread
    · rename_i rest htrim
      split_ifs at hread with hquote
      obtain ⟨front, back, hrest, hfront⟩ := List.eq_append_cons_of_mem hquote
      have htake : rest.takeWhile (· ≠ '"') = front := by
        rw [hrest]
        exact takeWhile_append_head (fun c hc => ne_quote hc hfront) (by simp)
      rw [htake] at hread
      obtain rfl : front = t := Option.some.inj hread
      exact ⟨space, back, by rw [← hrest, ← htrim]; exact hs, hspace, hfront⟩
    · cases hread
  · rintro ⟨space, rest, rfl, hspace, hquote⟩
    have htake : (t ++ '"' :: rest).takeWhile (· ≠ '"') = t :=
      takeWhile_append_head (fun c hc => ne_quote hc hquote) (by simp)
    rw [trimStart_cons hspace (by decide)]
    simp only [htake]
    rw [if_pos (by simp)]

theorem isWhitespace_of_space (space : Json.Space) :
    ∀ c ∈ space.text, isWhitespace c = true := by
  intro c hc
  obtain rfl | rfl | rfl | rfl := space.isSpace c hc <;> decide

theorem decimal_text (ds : Json.Digits) : decimal ds.text = ds.value := by
  rw [decimal, Json.Digits.text, List.foldl_map, Json.Digits.value]
  simp only [Json.Digits.toNat_char]

/-- Of a number the integer digits are read, and nothing behind a minus sign. -/
theorem readNumber_number {space : Json.Space} {n : Json.Number} {rest : List Char}
    (hlt : n.value < 2 ^ 32) (hrest : ∀ c ∈ rest.head?, c.isDigit = false) :
    (∃ id, readNumber (space.text ++ (n.text ++ rest)) = some id ∧ (id.toNat : ℚ) = n.value) ↔
      n.minus = false ∧ (n.int.value : ℚ) = n.value := by
  have hspace := isWhitespace_of_space space
  cases hminus : n.minus with
  | true =>
    have htext : n.text ++ rest = '-' :: (n.int.text ++ n.tail ++ rest) := by
      simp [Json.Number.text, hminus]
    have hread : readNumber (space.text ++ (n.text ++ rest)) = none := by
      rw [readNumber, htext, trimStart_cons hspace (by decide)]
      rfl
    simp [hread]
  | false =>
    have htext : n.text ++ rest = n.int.text ++ (n.tail ++ rest) := by
      simp [Json.Number.text, hminus]
    have hdigits : ∀ c ∈ n.int.text, c.isDigit = true := by
      intro c hc
      obtain ⟨d, -, rfl⟩ := List.mem_map.mp hc
      exact Json.Digits.isDigit_char d
    have hne : n.int.text ≠ [] := fun h => n.int.nonempty (List.map_eq_nil_iff.mp h)
    have hhead : ∀ c ∈ (n.int.text ++ (n.tail ++ rest)).head?, isWhitespace c = false := by
      intro c hc
      rw [List.head?_append_of_ne_nil _ hne] at hc
      exact isWhitespace_of_isDigit (hdigits c (List.mem_of_mem_head? hc))
    have hread : readNumber (space.text ++ (n.text ++ rest)) = parseU32 n.int.text := by
      rw [readNumber, htext, trimStart_append hspace hhead,
        takeWhile_append_head hdigits (n.head_tail hrest)]
      exact if_neg hne
    rw [hread, parseU32_iff hlt, decimal_text]
    simp

/-- A string is read as it is where nothing in it is escaped. -/
theorem readString_literal {space : Json.Space} {l : Json.Literal} {t : List Char}
    (h : l.Denotes t) (rest : List Char) :
    readString (space.text ++ (l.text ++ rest)) = some t ↔ l.Plain := by
  have htext : l.text ++ rest = '"' :: (l.body ++ '"' :: rest) := by
    simp [Json.Literal.text]
  have hread : readString (space.text ++ (l.text ++ rest)) =
      some ((l.body ++ '"' :: rest).takeWhile (· ≠ '"')) := by
    rw [htext, readString, trimStart_cons (isWhitespace_of_space space) (by decide)]
    exact if_pos (by simp)
  rw [hread, Option.some.injEq, Json.Literal.takeWhile_body_iff h]

end Observability

/-! ## Room requests -/

open Observability

def sessionName : List Char := ['s', 'e', 's', 's', 'i', 'o', 'n', '_', 'i', 'd']
def tokenName : List Char := ['t', 'o', 'k', 'e', 'n']

/-- The member `token` of an object, if there is one. -/
inductive TokenMember (o : Json.Object)
  | absent (none : ∀ m ∈ o.members, ¬ m.name.Denotes tokenName)
  | present (entry : o.Entry tokenName) (literal : Json.Literal) (token : List Char)
      (value : entry.member.value = literal.text) (denotes : literal.Denotes token)

/-- An object with a number `session_id` and perhaps a string `token`, in any spelling. -/
structure RoomBody where
  object : Json.Object
  session : object.Entry sessionName
  id : Json.Number
  value : session.member.value = id.text
  id_lt : id.value < 2 ^ 32
  token : TokenMember object

namespace RoomBody

def bytes (b : RoomBody) : Bytes := (String.ofList b.object.text).toUTF8.data.toList

/-- `extract_session_id` returns the number. -/
def ReadsSession (b : RoomBody) : Prop :=
  ∃ id, extractSessionId b.bytes = some id ∧ (id.toNat : ℚ) = b.id.value

/-- The string of the member `token`. -/
def tokenString (b : RoomBody) : Option String :=
  match b.token with
  | .absent _ => none
  | .present _ _ token _ _ => some (String.ofList token)

/-- `extract_token` returns the string, or nothing if there is none. -/
def ReadsToken (b : RoomBody) : Prop := extractToken b.bytes = b.tokenString

/-! ## When a body is read right -/

/-- The name is written without escapes, and `key` does not occur before with a colon behind it. -/
def InSight (key before : List Char) (name : Json.Literal) : Prop :=
  name.Plain ∧ behind key ':' before = none

/-- The search meets the member, and the number is written by its integer digits alone; or it
meets another text, and that happens to spell the number. -/
def SessionSafe (b : RoomBody) : Prop :=
  let seen := InSight sessionKey (b.session.ahead ++ ['"']) b.session.member.name
  (seen → b.id.minus = false ∧ (b.id.int.value : ℚ) = b.id.value) ∧
    (¬ seen → ∃ s, behind sessionKey ':' b.object.text = some s ∧ SpellsNumber b.id.value s)

/-- The search meets the member, and nothing in the string is escaped; or it meets another text,
and that happens to spell the string. Without a member it meets no string. -/
def TokenSafe (b : RoomBody) : Prop :=
  match b.token with
  | .absent _ => ∀ s, behind tokenKey ':' b.object.text = some s → ∀ t, ¬ SpellsString t s
  | .present entry literal token _ _ =>
      let seen := InSight tokenKey entry.ahead entry.member.name
      (seen → literal.Plain) ∧
        (¬ seen → ∃ s, behind tokenKey ':' b.object.text = some s ∧ SpellsString token s)

theorem fromUtf8_bytes (b : RoomBody) : fromUtf8 b.bytes = some b.object.text := by
  have hback : String.fromUTF8? (String.ofList b.object.text).toUTF8 =
      some (String.ofList b.object.text) := dif_pos (String.ofList b.object.text).isValidUTF8
  rw [fromUtf8, bytes, Array.toArray_toList]
  change (String.fromUTF8? (String.ofList b.object.text).toUTF8).map String.toList = _
  rw [hback, Option.map_some, String.toList_ofList]

theorem extractSessionId_bytes (b : RoomBody) :
    extractSessionId b.bytes = (behind sessionKey ':' b.object.text).bind readNumber := by
  rw [extractSessionId, fromUtf8_bytes]
  rfl

theorem extractToken_bytes (b : RoomBody) :
    extractToken b.bytes =
      ((behind tokenKey ':' b.object.text).bind readString).map String.ofList := by
  rw [extractToken, fromUtf8_bytes]
  cases hbehind : behind tokenKey ':' b.object.text <;> simp [hbehind]

/-- A name without escapes stands in the text as it is. -/
theorem text_of_plain {name : Json.Literal} {t : List Char} (hplain : name.Plain)
    (hnamed : name.Denotes t) : name.text = '"' :: (t ++ ['"']) := by
  rw [Json.Literal.text, (Json.Literal.body_eq_iff hnamed).mpr hplain]

theorem colon_not_mem_space (space : Json.Space) : ':' ∉ space.text := by
  intro h
  rcases space.isSpace ':' h with h | h | h | h <;> cases h

theorem not_mem_tokenKey :
    ∀ c ∈ [' ', '\t', '\n', '\r', '{', ','], c ∉ tokenKey := by
  simp [tokenKey]

theorem isDigit_between : ∀ c ∈ [' ', '\t', '\n', '\r', '}', ','], c.isDigit = false := by
  simp [Char.isDigit]

/-- The search for `session_id` comes to the value. -/
theorem behind_session (b : RoomBody)
    (h : InSight sessionKey (b.session.ahead ++ ['"']) b.session.member.name) :
    behind sessionKey ':' b.object.text =
      some (b.session.member.ahead.text ++ (b.id.text ++ b.session.rest)) := by
  have htext : b.object.text = (b.session.ahead ++ ['"']) ++ (sessionKey ++
      (('"' :: b.session.member.gap.text) ++
        ':' :: (b.session.member.ahead.text ++ (b.id.text ++ b.session.rest)))) := by
    rw [b.session.text_eq, text_of_plain h.1 b.session.named, b.value]
    simp [sessionKey, sessionName]
  rw [htext]
  apply behind_append_self (by decide) h.2
  · intro c hc
    obtain rfl : '"' = c := by simpa using hc
    decide
  · decide
  · rw [List.mem_cons, not_or]
    exact ⟨by decide, colon_not_mem_space _⟩

/-- The search for `token` comes to the value. -/
theorem behind_token {o : Json.Object} (entry : o.Entry tokenName)
    (h : InSight tokenKey entry.ahead entry.member.name) :
    behind tokenKey ':' o.text =
      some (entry.member.ahead.text ++ (entry.member.value ++ entry.rest)) := by
  have htext : o.text = entry.ahead ++ (tokenKey ++ (entry.member.gap.text ++
      ':' :: (entry.member.ahead.text ++ (entry.member.value ++ entry.rest)))) := by
    rw [entry.text_eq, text_of_plain h.1 entry.named]
    simp [tokenKey, tokenName]
  rw [htext]
  apply behind_append_self (by decide) h.2
  · exact fun c hc => not_mem_tokenKey c (entry.getLast_ahead c hc)
  · decide
  · exact colon_not_mem_space _

theorem readsSession_iff (b : RoomBody) : b.ReadsSession ↔ b.SessionSafe := by
  rw [ReadsSession, SessionSafe, extractSessionId_bytes]
  by_cases hseen : InSight sessionKey (b.session.ahead ++ ['"']) b.session.member.name
  · have hrest : ∀ c ∈ b.session.rest.head?, c.isDigit = false :=
      fun c hc => isDigit_between c (b.session.head_rest c hc)
    rw [b.behind_session hseen, Option.bind_some, readNumber_number b.id_lt hrest]
    simp [hseen]
  · cases hbehind : behind sessionKey ':' b.object.text with
    | none => simp [hseen]
    | some s =>
      rw [Option.bind_some, readNumber_iff b.id_lt]
      simp [hseen]

theorem readsToken_iff (b : RoomBody) : b.ReadsToken ↔ b.TokenSafe := by
  rw [ReadsToken, TokenSafe, tokenString, extractToken_bytes]
  cases b.token with
  | absent none =>
    dsimp only
    rw [Option.map_eq_none_iff, Option.bind_eq_none_iff]
    refine forall₂_congr fun s _ => ?_
    rw [Option.eq_none_iff_forall_not_mem]
    exact forall_congr' fun t => not_congr readString_iff
  | present entry literal token value denotes =>
    have hinj : Function.Injective String.ofList := fun _ _ h => String.ofList_inj.mp h
    dsimp only
    rw [← Option.map_some, (Option.map_injective hinj).eq_iff]
    by_cases hseen : InSight tokenKey entry.ahead entry.member.name
    · rw [behind_token entry hseen, Option.bind_some, value, readString_literal denotes]
      simp [hseen]
    · cases hbehind : behind tokenKey ':' b.object.text with
      | none => simp [hseen]
      | some s =>
        rw [Option.bind_some, readString_iff]
        simp [hseen]

/-- A room is made for the session and the token of a body that is read right. -/
theorem handleCreateRoom_bytes (C : Crypto) (b : RoomBody) (hsession : b.SessionSafe)
    (htoken : b.TokenSafe) (code : String) (r : Router) :
    ∃ id : UInt32, (id.toNat : ℚ) = b.id.value ∧ (handleCreateRoom C b.bytes code r).2 =
      if id = 0 ∨ code ∈ r.rooms then r
      else { r with rooms := r.rooms.insert code (.new C id b.tokenString) } := by
  obtain ⟨id, hread, hvalue⟩ := b.readsSession_iff.mpr hsession
  have hstring : extractToken b.bytes = b.tokenString := b.readsToken_iff.mpr htoken
  refine ⟨id, hvalue, ?_⟩
  rw [handleCreateRoom, hread]
  dsimp only
  by_cases hzero : id = 0
  · rw [if_pos hzero, if_pos (Or.inl hzero)]
  · rw [if_neg hzero, hstring, Router.registerRoom]
    by_cases hcode : code ∈ r.rooms
    · rw [if_pos hcode, if_pos (Or.inr hcode)]
    · rw [if_neg hcode, if_neg (not_or.mpr ⟨hzero, hcode⟩)]

/-- What was sent is what is read where the search meets the members and finds their values
spelled plainly, or where another text that it meets first happens to spell the same. -/
theorem room_body_read_iff (b : RoomBody) :
    b.ReadsSession ∧ b.ReadsToken ↔ b.SessionSafe ∧ b.TokenSafe :=
  and_congr b.readsSession_iff b.readsToken_iff

end RoomBody

/-! ## Two members -/

namespace RoomBody

def noSpace : Json.Space := ⟨[], by simp⟩

def five : Json.Number := ⟨false, ⟨[5], by decide⟩, by decide, none, none⟩

/-- A string that speaks of a session. -/
def quoted : Json.Literal :=
  .ofChars ['s', 'e', 's', 's', 'i', 'o', 'n', '_', 'i', 'd', ':', '7'] (by simp)

def quotedMember : Json.Member :=
  ⟨noSpace, .ofChars tokenName (by simp [tokenName]), noSpace, noSpace, quoted.text, noSpace⟩

def fiveMember : Json.Member :=
  ⟨noSpace, .ofChars sessionName (by simp [sessionName]), noSpace, noSpace, five.text, noSpace⟩

/-- The token comes before `session_id`. -/
def misleading : RoomBody where
  object :=
    { lead := noSpace, members := [quotedMember, fiveMember], inner := noSpace, trail := noSpace
      isValue := by
        intro m hm
        obtain rfl | rfl := List.mem_pair.mp hm
        · exact .string quoted
        · exact .number five }
  session := ⟨[quotedMember], fiveMember, [], rfl, Json.Literal.denotes_ofChars _ _⟩
  id := five
  value := rfl
  id_lt := by
    norm_num [Json.Number.value, Json.Digits.value, five]
  token := .present ⟨[], quotedMember, [fiveMember], rfl, Json.Literal.denotes_ofChars _ _⟩ quoted
    _ rfl (Json.Literal.denotes_ofChars _ _)

/-- The number in the string is read for the session. -/
theorem room_body_misread : ¬ (misleading.ReadsSession ∧ misleading.ReadsToken) := by
  rintro ⟨⟨id, hread, hvalue⟩, -⟩
  have hseven : (behind sessionKey ':' misleading.object.text).bind readNumber = some 7 := by
    decide +kernel
  rw [extractSessionId_bytes, hseven] at hread
  obtain rfl : 7 = id := Option.some.inj hread
  have hid : (7 : UInt32).toNat = 7 := rfl
  norm_num [hid, misleading, five, Json.Number.value, Json.Digits.value] at hvalue

end RoomBody
end GravitalTalk
