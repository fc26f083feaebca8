import GravitalTalk.Lib.BigEndian
import Mathlib.Data.List.Nodup

/-!
# Socket addresses and the address book

`address_book.rs`: the peers of a session in order of registration, without
repetition and at most `maxPeers` of them. The first one is the principal peer.
-/
namespace GravitalTalk

/-- `std::net::SocketAddr`. -/
inductive SocketAddr
  | v4 (octets : Vector UInt8 4) (port : UInt16)
  | v6 (octets : Vector UInt8 16) (port : UInt16) (flowinfo scopeId : UInt32)
  deriving DecidableEq, Repr

namespace SocketAddr

def port : SocketAddr → UInt16
  | v4 _ p => p
  | v6 _ p _ _ => p

/-- `SocketAddr::new(addr.ip(), port)`. -/
def withPort : SocketAddr → UInt16 → SocketAddr
  | v4 ip _, p => v4 ip p
  | v6 ip _ _ _, p => v6 ip p 0 0

def isUnspecified : SocketAddr → Bool
  | v4 ip _ => ip.toList.all (· == 0)
  | v6 ip _ _ _ => ip.toList.all (· == 0)

/-- `rendezvous::is_local`: private, loopback and link-local ranges. -/
def isLocal : SocketAddr → Bool
  | v4 ip _ =>
    ip[0] == 10 || (ip[0] == 172 && ip[1] &&& 0xF0 == 16) || (ip[0] == 192 && ip[1] == 168) ||
      ip[0] == 127 || (ip[0] == 169 && ip[1] == 254)
  | v6 ip _ _ _ =>
    (ip.toList.take 15).all (· == 0) && ip[15] == 1 || ip[0] &&& 0xFE == 0xFC ||
      (ip[0] == 0xFE && ip[1] &&& 0xC0 == 0x80)

end SocketAddr

def maxPeers : ℕ := 50

@[ext] structure AddressBook where
  peers : List SocketAddr
  nodup : peers.Nodup
  length_le : peers.length ≤ maxPeers

namespace AddressBook

def new : AddressBook := ⟨[], List.nodup_nil, Nat.zero_le _⟩

def contains (b : AddressBook) (a : SocketAddr) : Bool := b.peers.contains a
def len (b : AddressBook) : ℕ := b.peers.length
def primary (b : AddressBook) : Option SocketAddr := b.peers.head?
def all (b : AddressBook) : List SocketAddr := b.peers

/-- Destinations of something that came from `a`. -/
def others (b : AddressBook) (a : SocketAddr) : List SocketAddr := b.peers.filter (· ≠ a)

def insert (b : AddressBook) (a : SocketAddr) : AddressBook :=
  if h : a ∈ b.peers ∨ maxPeers ≤ b.peers.length then b
  else
    { peers := b.peers ++ [a]
      nodup := List.nodup_append.mpr
        ⟨b.nodup, List.nodup_singleton a, fun x hx y hy hxy =>
          h (.inl (List.mem_singleton.mp hy ▸ hxy ▸ hx))⟩
      length_le := by
        rw [List.length_append, List.length_singleton]
        omega }

/-- Keep the peers that pass the test. -/
def retain (b : AddressBook) (p : SocketAddr → Bool) : AddressBook :=
  ⟨b.peers.filter p, b.nodup.filter _, (List.length_filter_le _ _).trans b.length_le⟩

def remove (b : AddressBook) (a : SocketAddr) : AddressBook := b.retain (· ≠ a)

def clear (_ : AddressBook) : AddressBook := new

/-- The list after `replace`: `new` takes the place of `old`, and a previous
occurrence of `new` elsewhere goes away. -/
def replaced (peers : List SocketAddr) (old new : SocketAddr) : List SocketAddr :=
  let i := peers.idxOf old
  let j := peers.idxOf new
  if new ∈ peers ∧ j ≠ i then (peers.eraseIdx j).set (if j < i then i - 1 else i) new
  else peers.set i new

theorem nodup_replaced {peers : List SocketAddr} (h : peers.Nodup) {old : SocketAddr}
    (hold : old ∈ peers) (new : SocketAddr) : (replaced peers old new).Nodup := by
  simp only [replaced, ← List.erase_eq_eraseIdx_of_idxOf rfl]
  split_ifs with hnew
  · exact (h.erase new).set (List.Nodup.not_mem_erase h)
  · exact (h.erase new).set (List.Nodup.not_mem_erase h)
  · by_cases hmem : new ∈ peers
    · have hidx : peers.idxOf new = peers.idxOf old := by tauto
      have : new = old := (List.idxOf_inj hmem).mp hidx
      subst this
      have hi : peers.idxOf new < peers.length := List.idxOf_lt_length_of_mem hmem
      have hself := List.set_getElem_self hi
      rw [List.getElem_idxOf hi] at hself
      rwa [hself]
    · exact h.set hmem

theorem length_replaced_le (peers : List SocketAddr) (old new : SocketAddr) :
    (replaced peers old new).length ≤ peers.length := by
  simp only [replaced, ← List.erase_eq_eraseIdx_of_idxOf rfl]
  split_ifs
  · simpa using List.length_erase_le
  · simpa using List.length_erase_le
  · simp

/-- `replace`: whether `old` was there, and the book afterwards. -/
def replace (b : AddressBook) (old new : SocketAddr) : Option AddressBook :=
  if h : old ∈ b.peers then
    some ⟨replaced b.peers old new, nodup_replaced b.nodup h new,
      (length_replaced_le _ _ _).trans b.length_le⟩
  else none

@[simp] theorem contains_iff (b : AddressBook) (a : SocketAddr) :
    b.contains a = true ↔ a ∈ b.peers := by
  simp [contains]

@[simp] theorem peers_clear (b : AddressBook) : b.clear.peers = [] := rfl

theorem mem_insert {b : AddressBook} {a x : SocketAddr} (h : x ∈ (b.insert a).peers) :
    x = a ∨ x ∈ b.peers := by
  unfold insert at h
  split_ifs at h with hin
  · exact .inr h
  · rcases List.mem_append.mp h with hx | hx
    · exact .inr hx
    · exact .inl (List.mem_singleton.mp hx)

theorem mem_remove {b : AddressBook} {a x : SocketAddr} :
    x ∈ (b.remove a).peers ↔ x ∈ b.peers ∧ x ≠ a := by
  simp [remove, retain]

theorem mem_set_of_nodup {l : List SocketAddr} (h : l.Nodup) {i : ℕ} {old new x : SocketAddr}
    (hi : l[i]? = some old) : x ∈ l.set i new ↔ x = new ∨ x ∈ l ∧ x ≠ old := by
  obtain ⟨hlt, hget⟩ := List.getElem?_eq_some_iff.mp hi
  simp only [List.mem_iff_getElem?, List.getElem?_set]
  constructor
  · rintro ⟨j, hj⟩
    split_ifs at hj with hij
    · exact .inl (Option.some.inj hj).symm
    · refine .inr ⟨⟨j, hj⟩, ?_⟩
      rintro rfl
      obtain ⟨hlt', hget'⟩ := List.getElem?_eq_some_iff.mp hj
      exact hij ((h.getElem_inj_iff).mp (hget.trans hget'.symm))
  · rintro (rfl | ⟨⟨j, hj⟩, hne⟩)
    · exact ⟨i, by simp [hlt]⟩
    · refine ⟨j, ?_⟩
      rw [if_neg, hj]
      rintro rfl
      exact hne (Option.some.inj (hj.symm.trans hi))

/-- In the new book `new` is in the place of `old`. -/
theorem mem_replace {b book : AddressBook} {old new x : SocketAddr}
    (h : b.replace old new = some book) :
    x ∈ book.peers ↔ x = new ∨ x ∈ b.peers ∧ x ≠ old := by
  unfold replace at h
  split_ifs at h with hold
  cases h
  have hi : b.peers[b.peers.idxOf old]? = some old := by
    rw [List.getElem?_eq_getElem (List.idxOf_lt_length_of_mem hold), List.getElem_idxOf]
  simp only [replaced]
  split_ifs with hnew hlt
  · have hplace : (b.peers.eraseIdx (b.peers.idxOf new))[b.peers.idxOf old - 1]? = some old := by
      rw [List.getElem?_eraseIdx, if_neg (by omega), Nat.sub_add_cancel (by omega), hi]
    rw [mem_set_of_nodup (b.nodup.eraseIdx _) hplace, ← List.erase_eq_eraseIdx_of_idxOf rfl,
      b.nodup.mem_erase_iff]
    tauto
  · have hplace : (b.peers.eraseIdx (b.peers.idxOf new))[b.peers.idxOf old]? = some old := by
      rw [List.getElem?_eraseIdx, if_pos (by omega), hi]
    rw [mem_set_of_nodup (b.nodup.eraseIdx _) hplace, ← List.erase_eq_eraseIdx_of_idxOf rfl,
      b.nodup.mem_erase_iff]
    tauto
  · exact mem_set_of_nodup b.nodup hi

theorem replace_eq_none {b : AddressBook} {old new : SocketAddr} :
    b.replace old new = none ↔ old ∉ b.peers := by
  unfold replace
  split_ifs with h <;> simp [h]

end AddressBook
end GravitalTalk
