import GravitalTalk.Transport.AddressBook

/-!
# The order of the address book

The first peer is the arbiter of a room, so the order of the book is part of what it
promises. Every call that changes the book is here, with `touch`, which no session makes.
-/
namespace GravitalTalk.AddressBook

/-- `touch`: a new address goes to the end as long as there is room. -/
def touch (b : AddressBook) (a : SocketAddr) : AddressBook :=
  if h : a ∉ b.peers ∧ b.peers.length < maxPeers then
    { peers := b.peers ++ [a]
      nodup := b.nodup.append (List.nodup_singleton a) (List.disjoint_singleton.mpr h.1)
      length_le := by
        rw [List.length_append, List.length_singleton]
        omega }
  else b

/-- Both cases of `replace` at once: the book loses `new`, and then `new` is in the place of
`old`. -/
theorem replaced_append {before after : List SocketAddr} {old : SocketAddr}
    (h : (before ++ old :: after).Nodup) (new : SocketAddr) :
    replaced (before ++ old :: after) old new = before.erase new ++ new :: after.erase new := by
  obtain ⟨-, hrest, hapart⟩ := List.nodup_append.mp h
  have hold : old ∉ before := fun hm => hapart old hm old (by simp) rfl
  have hafter : old ∉ after := (List.nodup_cons.mp hrest).1
  have hi : (before ++ old :: after).idxOf old = before.length := by
    rw [List.idxOf_append, if_neg hold, List.idxOf_cons_self, Nat.zero_add]
  have hset (l l' : List SocketAddr) : (l ++ old :: l').set l.length new = l ++ new :: l' := by
    simp
  rw [replaced, hi]
  rcases eq_or_ne new old with rfl | hne
  · rw [if_neg (by simp [hi]), hset, List.erase_of_not_mem hold, List.erase_of_not_mem hafter]
  · rw [← List.erase_eq_eraseIdx_of_idxOf rfl, List.idxOf_append]
    by_cases hbefore : new ∈ before
    · -- The previous place of `new` is before that of `old`, which moves up by one.
      have hlt := List.idxOf_lt_length_of_mem hbefore
      have hnot : new ∉ after := fun hm => hapart new hbefore new (by simp [hm]) rfl
      have hlen := List.length_erase_of_mem hbefore
      rw [if_pos hbefore, if_pos ⟨by simp [hbefore], by omega⟩, if_pos hlt,
        List.erase_append_left _ hbefore, ← hlen, hset, List.erase_of_not_mem hnot]
    · rw [if_neg hbefore, List.erase_of_not_mem hbefore, List.erase_append_right _ hbefore,
        List.erase_cons_tail (by simpa using hne.symm)]
      by_cases hin : new ∈ after
      · have hplace : (old :: after).idxOf new = after.idxOf new + 1 :=
          List.idxOf_cons_ne _ hne.symm
        rw [hplace, if_pos ⟨by simp [hin], by omega⟩, if_neg (by omega), hset]
      · rw [if_neg (by simp [hbefore, hne, hin]), hset, List.erase_of_not_mem hin]

/-- A call that changes the book. -/
inductive Op
  | insert (a : SocketAddr)
  | touch (a : SocketAddr)
  | replace (old new : SocketAddr)
  | remove (a : SocketAddr)
  | clear
  deriving DecidableEq, Repr

def step (b : AddressBook) : Op → AddressBook
  | .insert a => b.insert a
  | .touch a => b.touch a
  | .replace old new => (b.replace old new).getD b
  | .remove a => b.remove a
  | .clear => b.clear

theorem touch_eq_insert (b : AddressBook) (a : SocketAddr) : b.touch a = b.insert a := by
  unfold touch insert
  by_cases h : a ∈ b.peers ∨ maxPeers ≤ b.peers.length
  · have hnot : ¬(a ∉ b.peers ∧ b.peers.length < maxPeers) := by
      rintro ⟨hout, hroom⟩
      exact h.elim hout (Nat.not_le.mpr hroom)
    rw [dif_neg hnot, dif_pos h]
  · obtain ⟨hout, hroom⟩ := not_or.mp h
    rw [dif_pos ⟨hout, Nat.not_le.mp hroom⟩, dif_neg h]

theorem peers_insert (b : AddressBook) (a : SocketAddr) :
    (b.insert a).peers =
      if a ∈ b.peers ∨ maxPeers ≤ b.peers.length then b.peers else b.peers ++ [a] := by
  unfold insert
  split_ifs <;> rfl

theorem peers_remove (b : AddressBook) (a : SocketAddr) : (b.remove a).peers = b.peers.erase a := by
  rw [b.nodup.erase_eq_filter, remove, retain]
  refine List.filter_congr fun x _ => ?_
  by_cases h : x = a <;> simp [h]

/-- What is added comes last, and the others stay as they were. -/
theorem insert_order (b : AddressBook) (a : SocketAddr) :
    b.peers <+: (b.insert a).peers ∧ (b.insert a).peers.erase a = b.peers.erase a := by
  rw [peers_insert]
  split_ifs with h
  · exact ⟨List.prefix_refl _, rfl⟩
  · have hout : a ∉ b.peers := fun hin => h (.inl hin)
    refine ⟨List.prefix_append _ _, ?_⟩
    rw [List.erase_append_right _ hout, List.erase_cons_head, List.append_nil,
      List.erase_of_not_mem hout]

/-- After any calls the peers are distinct and not too many. `replace` puts the new address in the
place of the old one and nowhere else; adding and removing an address leaves the order of the
others; and what comes from an address goes to all but it. -/
theorem book_law (ops : List Op) :
    let b := ops.foldl step new
    (b.all.Nodup ∧ b.len ≤ maxPeers) ∧
      (∀ before old after address, b.all = before ++ old :: after →
        (b.replace old address).map all =
          some (before.erase address ++ address :: after.erase address)) ∧
      (∀ old address, old ∉ b.all → b.replace old address = none) ∧
      (∀ a, b.all <+: (b.insert a).all ∧ (b.insert a).all.erase a = b.all.erase a ∧
        b.touch a = b.insert a) ∧
      (∀ a, (b.remove a).all = b.all.erase a) ∧ ∀ a, b.others a = b.all.erase a := by
  intro b
  refine ⟨⟨b.nodup, b.length_le⟩, ?_, ?_, ?_, ?_, ?_⟩
  · intro before old after address hall
    have hpeers : b.peers = before ++ old :: after := hall
    have hold : old ∈ b.peers := by simp [hpeers]
    rw [replace, dif_pos hold, Option.map_some]
    dsimp only [all]
    rw [hpeers, replaced_append (hpeers ▸ b.nodup)]
  · intro old address hout
    exact replace_eq_none.mpr hout
  · intro a
    exact ⟨(insert_order b a).1, (insert_order b a).2, touch_eq_insert b a⟩
  · intro a
    exact peers_remove b a
  · intro a
    exact peers_remove b a

end GravitalTalk.AddressBook
