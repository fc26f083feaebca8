import GravitalTalk.Relay.RoomBody

/-!
# Room codes

The codes that `rooms.rs` draws, and what the router does with a code that has been
registered.
-/
namespace GravitalTalk

/-! ## Codes -/

namespace Rooms

/-- `str::as_bytes`. -/
def asBytes (s : String) : Bytes := s.toUTF8.data.toList

def letters : Bytes := asBytes "ABCDEFGHJKLMNPRSTUVWXYZ"
def digits : Bytes := asBytes "23456789"

/-- One step of the generator. -/
def advance (rng : UInt64) : UInt64 := rng * 6364136223846793005 + 1442695040888963407

/-- The byte that the generator yields in a state. -/
def drawn (rng : UInt64) : UInt8 := (rng >>> 33).toUInt8

/-- A symbol of the alphabet, after `n` steps of the generator. -/
def symbol (alphabet : Bytes) (seed : UInt64) (n : ℕ) : Char :=
  let value := drawn (advance^[n] seed)
  Char.ofNat (alphabet.getD (value % UInt8.ofNat alphabet.length).toNat 0).toNat

/-- `generate_code`, with the nanoseconds of the clock and the value of `COUNTER`. -/
def generateCode (nanos counter : UInt64) : String :=
  let seed := nanos + counter * 6364136223846793005
  String.ofList [symbol letters seed 1, symbol letters seed 2, symbol letters seed 3,
    symbol letters seed 4, '-', symbol digits seed 5, symbol digits seed 6,
    symbol digits seed 7, symbol digits seed 8]

def isValidCode (code : String) : Bool :=
  let bytes := asBytes code
  if bytes.length ≠ 9 ∨ bytes[4]? ≠ some 0x2D then false
  else (bytes.take 4).all letters.contains && (bytes.drop 5).all digits.contains

theorem ascii_letters : ∀ b ∈ letters,
    String.utf8EncodeChar (Char.ofNat b.toNat) = [b] := by decide +kernel

theorem ascii_digits : ∀ b ∈ digits,
    String.utf8EncodeChar (Char.ofNat b.toNat) = [b] := by decide +kernel

theorem asBytes_ofList (cs : List Char) :
    asBytes (String.ofList cs) = cs.flatMap String.utf8EncodeChar := by
  unfold asBytes
  change (String.ofList cs).toByteArray.data.toList = _
  rw [String.toByteArray_ofList, List.utf8Encode, List.toList_data_toByteArray]

/-- What is drawn is one of the alphabet. -/
theorem exists_symbol (alphabet : Bytes) (hpos : alphabet ≠ []) (hshort : alphabet.length < 256)
    (seed : UInt64) (n : ℕ) : ∃ b ∈ alphabet, symbol alphabet seed n = Char.ofNat b.toNat := by
  have hlen : (UInt8.ofNat alphabet.length).toNat = alphabet.length :=
    UInt8.toNat_ofNat_of_lt' hshort
  have hlt : (drawn (advance^[n] seed) % UInt8.ofNat alphabet.length).toNat < alphabet.length := by
    rw [UInt8.toNat_mod, hlen]
    exact Nat.mod_lt _ (List.length_pos_iff.mpr hpos)
  refine ⟨_, List.getElem_mem hlt, ?_⟩
  rw [symbol, List.getD_eq_getElem?_getD, List.getElem?_eq_getElem hlt]
  rfl

theorem isValidCode_generateCode (nanos counter : UInt64) :
    isValidCode (generateCode nanos counter) = true := by
  have hletter (n : ℕ) := exists_symbol letters (by decide +kernel)
    (by decide +kernel) (nanos + counter * 6364136223846793005) n
  have hdigit (n : ℕ) := exists_symbol digits (by decide +kernel)
    (by decide +kernel) (nanos + counter * 6364136223846793005) n
  obtain ⟨b₁, hb₁, h₁⟩ := hletter 1
  obtain ⟨b₂, hb₂, h₂⟩ := hletter 2
  obtain ⟨b₃, hb₃, h₃⟩ := hletter 3
  obtain ⟨b₄, hb₄, h₄⟩ := hletter 4
  obtain ⟨b₅, hb₅, h₅⟩ := hdigit 5
  obtain ⟨b₆, hb₆, h₆⟩ := hdigit 6
  obtain ⟨b₇, hb₇, h₇⟩ := hdigit 7
  obtain ⟨b₈, hb₈, h₈⟩ := hdigit 8
  have hdash : String.utf8EncodeChar '-' = [0x2D] := by decide
  have hbytes : asBytes (generateCode nanos counter) =
      [b₁, b₂, b₃, b₄, 0x2D, b₅, b₆, b₇, b₈] := by
    rw [generateCode, asBytes_ofList]
    simp only [h₁, h₂, h₃, h₄, h₅, h₆, h₇, h₈, List.flatMap_cons, List.flatMap_nil, hdash,
      ascii_letters _ hb₁, ascii_letters _ hb₂, ascii_letters _ hb₃, ascii_letters _ hb₄,
      ascii_digits _ hb₅, ascii_digits _ hb₆, ascii_digits _ hb₇, ascii_digits _ hb₈]
    rfl
  rw [isValidCode, hbytes]
  simp [*]

end Rooms

/-! ## The rooms of the router -/

namespace Router

def peerCount (sessionId : UInt32) (r : Router) : ℕ :=
  ((r.routes.lookup sessionId).map fun e => e.peers.length).getD 0

def resolveRoom (C : Crypto) (code : String) (token : Option String) (r : Router) :
    Option UInt32 :=
  (r.rooms.lookup code).bind fun entry => match entry.tokenHash with
    | some hash => (token.filter fun t => t ≠ "").bind fun provided =>
      if hashToken C provided = hash then some entry.sessionId else none
    | none => some entry.sessionId

def roomRequiresToken (code : String) (r : Router) : Bool :=
  (r.rooms.lookup code).any fun entry => entry.tokenHash.isSome

def removeRoom (code : String) (r : Router) : Bool × Router :=
  (code ∈ r.rooms, { r with rooms := r.rooms.erase code })

/-- `order` is the order in which the map is gone through. -/
def listRooms (order : List String) (r : Router) : List (String × UInt32 × ℕ) :=
  order.filterMap fun code => (r.rooms.lookup code).map fun entry =>
    (code, entry.sessionId, r.peerCount entry.sessionId)

end Router
end GravitalTalk
