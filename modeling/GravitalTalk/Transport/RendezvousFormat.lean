import GravitalTalk.Core.WireFormat
import GravitalTalk.Transport.Rendezvous

/-!
# The rendezvous format

What is encoded comes back out of the decoder, and what the decoder accepts starts
with the encoding of what it answers. `decodeChecked` is the decoder with every
index and every slice of the source that may be out of range in its place.
-/
namespace GravitalTalk

/-- An address that the format can carry: a flow label and a scope are not sent. -/
def SocketAddr.IsPlain : SocketAddr → Prop
  | .v4 _ _ => True
  | .v6 _ _ flowinfo scopeId => flowinfo = 0 ∧ scopeId = 0

instance (a : SocketAddr) : Decidable a.IsPlain := by
  cases a <;> unfold SocketAddr.IsPlain <;> infer_instance

namespace Rendezvous

/-- `get(..n)`. -/
def front (n : ℕ) (b : Bytes) : Option Bytes := if n ≤ b.length then some (b.take n) else none

/-- `&b[n..]`; `none` is the access out of range. -/
def after (n : ℕ) (b : Bytes) : Option Bytes := cut b n b.length

theorem front_eq {n : ℕ} {b : Bytes} (h : n ≤ b.length) : front n b = some (b.take n) := if_pos h

theorem after_eq {n : ℕ} {b : Bytes} (h : n ≤ b.length) : after n b = some (b.drop n) := by
  rw [after, cut_eq h le_rfl, slice, List.take_of_length_le (by simp)]

/-! ## The decoder with its accesses -/

/-- The port that ends an address. -/
def takePortChecked (ip : UInt16 → SocketAddr) (tail : Bytes) :
    Option (Option (SocketAddr × Bytes)) :=
  match front 2 tail with
  | none => some none
  | some p => do
    let rest ← after 2 tail
    return some (ip (fromBe16 p), rest)

def takeAddrChecked : Bytes → Option (Option (SocketAddr × Bytes))
  | [] => some none
  | family :: tail =>
    if family = 4 then
      match front 4 tail with
      | none => some none
      | some octets => do takePortChecked (.v4 (fixed 4 octets)) (← after 4 tail)
    else if family = 6 then
      match front 16 tail with
      | none => some none
      | some octets => do
        takePortChecked (fun p => .v6 (fixed 16 octets) p 0 0) (← after 16 tail)
    else some none

def takeAddrsChecked : ℕ → Bytes → Option (Option (List SocketAddr))
  | 0, _ => some (some [])
  | n + 1, rest => do
    match ← takeAddrChecked rest with
    | none => return none
    | some (a, rest) =>
      match ← takeAddrsChecked n rest with
      | none => return none
      | some as => return some (a :: as)

def decodeListChecked (most : ℕ) : Bytes → Option (Option (List SocketAddr))
  | [] => some none
  | count :: rest =>
    if most < count.toNat then some none else takeAddrsChecked count.toNat rest

def nonceOf (body : Bytes) : Option (Vector UInt8 8) := (front 8 body).map (fixed 8)

namespace Message

/-- What `decode` makes of the key, the kind and the body of a datagram. -/
def decodeBody (key : RoomKey) (kind : UInt8) (body : Bytes) : Option (RoomKey × Message) :=
  match kind with
  | 1 => if registerSize ≤ rvHeaderSize + body.length then some (key, register) else none
  | 2 => do
    let (you, rest) ← takeAddr body
    let others ← decodeList maxPeersPerRoom rest
    return (key, peers you others)
  | 3 => (decodeNonce body).map fun nonce => (key, punch nonce)
  | 4 => (decodeNonce body).map fun nonce => (key, punchAck nonce)
  | 5 => (decodeList maxAdvertised body).map fun as => (key, addrs as)
  | _ => none

def decodeBodyChecked (key : RoomKey) (kind : UInt8) (body : Bytes) :
    Option (Option (RoomKey × Message)) :=
  match kind with
  | 1 => some (if registerSize ≤ rvHeaderSize + body.length then some (key, register) else none)
  | 2 => do
    match ← takeAddrChecked body with
    | none => return none
    | some (you, rest) =>
      match ← decodeListChecked maxPeersPerRoom rest with
      | none => return none
      | some others => return some (key, peers you others)
  | 3 => some ((nonceOf body).map fun nonce => (key, punch nonce))
  | 4 => some ((nonceOf body).map fun nonce => (key, punchAck nonce))
  | 5 => do
    match ← decodeListChecked maxAdvertised body with
    | none => return none
    | some as => return some (key, addrs as)
  | _ => some none

def decodeChecked (datagram : Bytes) : Option (Option (RoomKey × Message)) :=
  if datagram.length < rvHeaderSize then some none
  else do
    if (← cut datagram 0 4) ≠ magic then return none
    if (← datagram[4]?) ≠ version then return none
    let key ← cut datagram 6 rvHeaderSize
    let body ← after rvHeaderSize datagram
    let kind ← datagram[5]?
    decodeBodyChecked (fixed 16 key) kind body

end Message

theorem takePortChecked_eq (ip : UInt16 → SocketAddr) (tail : Bytes) :
    takePortChecked ip tail = some (if tail.length < 2 then none
      else some (ip (fromBe16 (tail.take 2)), tail.drop 2)) := by
  unfold takePortChecked
  by_cases h : tail.length < 2
  · rw [if_pos h, front, if_neg (Nat.not_le.mpr h)]
  · rw [if_neg h, front_eq (Nat.not_lt.mp h)]
    simp only [after_eq (Nat.not_lt.mp h), Option.bind_eq_bind, Option.bind_some]
    rfl

theorem fixed_take {n : ℕ} (b : Bytes) : fixed n (b.take n) = fixed n b := by
  apply Vector.ext
  intro i hi
  rw [fixed, fixed, Vector.getElem_ofFn, Vector.getElem_ofFn, List.getD_eq_getElem?_getD,
    List.getElem?_take_of_lt hi, ← List.getD_eq_getElem?_getD]

theorem takeAddrChecked_eq (b : Bytes) : takeAddrChecked b = some (takeAddr b) := by
  have hip (n : ℕ) (ip : Vector UInt8 n → UInt16 → SocketAddr) (tail : Bytes) :
      (match front n tail with
        | none => some none
        | some octets => do takePortChecked (ip (fixed n octets)) (← after n tail)) =
      some (if tail.length < n + 2 then none
        else some (ip (fixed n tail) (fromBe16 (slice tail n 2)), tail.drop (n + 2))) := by
    by_cases h : n ≤ tail.length
    · rw [front_eq h]
      simp only [after_eq h, Option.bind_eq_bind, Option.bind_some, takePortChecked_eq, fixed_take,
        List.length_drop, List.drop_drop]
      by_cases h2 : tail.length < n + 2
      · rw [if_pos h2, if_pos (by omega)]
      · rw [if_neg h2, if_neg (by omega)]
        rfl
    · rw [front, if_neg h, if_pos (by omega)]
  cases b with
  | nil => rfl
  | cons family tail =>
    dsimp only [takeAddrChecked, takeAddr]
    by_cases h4 : family = 4
    · rw [if_pos h4, if_pos h4]
      exact hip 4 .v4 tail
    · rw [if_neg h4, if_neg h4]
      by_cases h6 : family = 6
      · rw [if_pos h6, if_pos h6]
        exact hip 16 (fun ip p => .v6 ip p 0 0) tail
      · rw [if_neg h6, if_neg h6]

theorem takeAddrsChecked_eq (n : ℕ) (b : Bytes) : takeAddrsChecked n b = some (takeAddrs n b) := by
  induction n generalizing b with
  | zero => rfl
  | succ n ih =>
    unfold takeAddrsChecked takeAddrs
    rw [takeAddrChecked_eq]
    simp only [Option.bind_eq_bind, Option.bind_some]
    cases takeAddr b with
    | none => rfl
    | some r =>
      simp only [ih, Option.bind_some]
      cases takeAddrs n r.2 <;> rfl

theorem decodeListChecked_eq (most : ℕ) (b : Bytes) :
    decodeListChecked most b = some (Message.decodeList most b) := by
  cases b with
  | nil => rfl
  | cons count rest =>
    dsimp only [decodeListChecked, Message.decodeList]
    split_ifs
    · rfl
    · exact takeAddrsChecked_eq _ _

theorem nonceOf_eq (b : Bytes) : nonceOf b = Message.decodeNonce b := by
  unfold nonceOf Message.decodeNonce
  by_cases h : 8 ≤ b.length
  · rw [front_eq h, if_neg (Nat.not_lt.mpr h), Option.map_some, fixed_take]
  · rw [front, if_neg h, if_pos (Nat.not_le.mp h)]
    rfl

namespace Message

theorem decodeBodyChecked_eq (key : RoomKey) (kind : UInt8) (body : Bytes) :
    decodeBodyChecked key kind body = some (decodeBody key kind body) := by
  unfold decodeBodyChecked decodeBody
  simp only [takeAddrChecked_eq, decodeListChecked_eq, nonceOf_eq, Option.bind_eq_bind,
    Option.bind_some]
  split
  · rfl
  · cases takeAddr body with
    | none => rfl
    | some r =>
      simp only [Option.bind_some]
      cases decodeList maxPeersPerRoom r.2 <;> rfl
  · rfl
  · rfl
  · cases decodeList maxAdvertised body <;> rfl
  · rfl

theorem decode_eq {datagram : Bytes} (h : rvHeaderSize ≤ datagram.length) :
    decode datagram =
      if datagram.take 4 = magic ∧ datagram.getD 4 0 = version then
        decodeBody (fixed 16 (slice datagram 6 16)) (datagram.getD 5 0)
          (datagram.drop rvHeaderSize)
      else none := by
  have hlen : rvHeaderSize + (datagram.drop rvHeaderSize).length = datagram.length := by
    rw [List.length_drop, Nat.add_sub_cancel' h]
  have hguard : (!isRendezvous datagram || datagram.getD 4 0 != version) = true ↔
      ¬(datagram.take 4 = magic ∧ datagram.getD 4 0 = version) := by
    simp [isRendezvous, h, imp_iff_not_or]
  unfold decode decodeBody
  rw [hlen]
  by_cases hm : datagram.take 4 = magic ∧ datagram.getD 4 0 = version
  · rw [if_pos hm]
    exact if_neg fun hg => hguard.mp hg hm
  · rw [if_neg hm, if_pos (hguard.mpr hm)]

/-- No access of `decode` is out of range. -/
theorem decodeChecked_eq (datagram : Bytes) : decodeChecked datagram = some (decode datagram) := by
  unfold decodeChecked
  by_cases hlen : datagram.length < rvHeaderSize
  · have hrv : isRendezvous datagram = false := by
      simp only [isRendezvous, Nat.not_le.mpr hlen, decide_false, Bool.false_and]
    rw [if_pos hlen, decode, hrv]
    rfl
  · have hsize : rvHeaderSize ≤ datagram.length := Nat.not_lt.mp hlen
    have hget (i : ℕ) (hi : i < rvHeaderSize) : datagram[i]? = some (datagram.getD i 0) :=
      getElem?_eq_getD (by omega)
    have hmagic : slice datagram 0 4 = datagram.take 4 := rfl
    have hkey : slice datagram 6 (rvHeaderSize - 6) = slice datagram 6 16 := rfl
    rw [if_neg hlen, decode_eq hsize, cut_eq (Nat.zero_le _)
      ((by decide : 4 ≤ rvHeaderSize).trans hsize), hget 4 (by decide), hget 5 (by decide),
      cut_eq (by decide : 6 ≤ rvHeaderSize) hsize, after_eq hsize]
    simp only [Option.bind_eq_bind, Option.bind_some, Nat.sub_zero, hmagic, hkey,
      decodeBodyChecked_eq]
    by_cases hm : datagram.take 4 = magic
    · rw [if_neg (not_not.mpr hm)]
      by_cases hv : datagram.getD 4 0 = version
      · rw [if_neg (not_not.mpr hv), if_pos ⟨hm, hv⟩]
      · rw [if_pos hv, if_neg fun h => hv h.2]
        rfl
    · rw [if_pos hm, if_neg fun h => hm h.1]
      rfl

end Message

/-! ## Addresses -/

theorem fixed_toList {n : ℕ} {b : Bytes} (h : n ≤ b.length) : (fixed n b).toList = b.take n := by
  have hlen : (b.take n).length = n := by simp [h]
  have hvec := fixed_toList_append (⟨(b.take n).toArray, by simpa using hlen⟩ : Vector UInt8 n) []
  simp only [Vector.toList_mk, List.append_nil, fixed_take] at hvec
  rw [hvec, Vector.toList_mk]

theorem takeAddr_putAddr {a : SocketAddr} (ha : a.IsPlain) (rest : Bytes) :
    takeAddr (putAddr a ++ rest) = some (a, rest) := by
  cases a with
  | v4 ip p =>
    have htail : (ip.toList ++ be16 p).length = 6 := by simp
    have hport : slice (ip.toList ++ (be16 p ++ rest)) 4 2 = be16 p :=
      slice_middle _ _ _ (by simp) (by simp)
    dsimp only [putAddr, List.cons_append, takeAddr]
    rw [if_pos rfl, if_neg (by simp; omega), List.append_assoc, fixed_toList_append, hport,
      fromBe16_be16, ← List.append_assoc, ← htail, List.drop_left]
  | v6 ip p flowinfo scopeId =>
    have htail : (ip.toList ++ be16 p).length = 18 := by simp
    have hport : slice (ip.toList ++ (be16 p ++ rest)) 16 2 = be16 p :=
      slice_middle _ _ _ (by simp) (by simp)
    obtain ⟨rfl, rfl⟩ := ha
    dsimp only [putAddr, List.cons_append, takeAddr]
    rw [if_neg (by decide), if_pos rfl, if_neg (by simp; omega), List.append_assoc, fixed_toList_append,
      hport, fromBe16_be16, ← List.append_assoc, ← htail, List.drop_left]

/-- What the cursor reads is what the writer writes. -/
theorem of_takeAddr {b rest : Bytes} {a : SocketAddr} (h : takeAddr b = some (a, rest)) :
    a.IsPlain ∧ b = putAddr a ++ rest := by
  have hread {n : ℕ} {tail : Bytes} (hn : ¬tail.length < n + 2) :
      tail = (fixed n tail).toList ++ be16 (fromBe16 (slice tail n 2)) ++ tail.drop (n + 2) := by
    have hslice : (slice tail n 2).length = 2 := by
      rw [slice, List.length_take, List.length_drop]
      omega
    rw [fixed_toList (by omega), be16_fromBe16 hslice, slice, List.append_assoc,
      ← List.drop_drop, List.take_append_drop, List.take_append_drop]
  cases b with
  | nil => cases h
  | cons family tail =>
    dsimp only [takeAddr] at h
    split_ifs at h with h4 hlen h6 hlen
    · cases h
      exact ⟨trivial, by rw [putAddr, List.cons_append, ← hread hlen, h4]⟩
    · cases h
      exact ⟨⟨rfl, rfl⟩, by rw [putAddr, List.cons_append, ← hread hlen, h6]⟩

theorem takeAddrs_flatMap {as : List SocketAddr} (has : ∀ a ∈ as, a.IsPlain) (rest : Bytes) :
    takeAddrs as.length (as.flatMap putAddr ++ rest) = some as := by
  induction as with
  | nil => rfl
  | cons a as ih =>
    obtain ⟨ha, has⟩ := List.forall_mem_cons.mp has
    rw [List.length_cons, takeAddrs, List.flatMap_cons, List.append_assoc, takeAddr_putAddr ha]
    simp only [Option.bind_eq_bind, Option.bind_some, ih has]
    rfl

theorem of_takeAddrs {n : ℕ} {b : Bytes} {as : List SocketAddr} (h : takeAddrs n b = some as) :
    as.length = n ∧ (∀ a ∈ as, a.IsPlain) ∧ as.flatMap putAddr <+: b := by
  induction n generalizing b as with
  | zero =>
    cases h
    exact ⟨rfl, List.forall_mem_nil _, List.nil_prefix⟩
  | succ n ih =>
    simp only [takeAddrs, Option.bind_eq_bind, Option.bind_eq_some_iff] at h
    obtain ⟨⟨a, rest⟩, hfirst, as', hrest, has⟩ := h
    cases has
    obtain ⟨ha, rfl⟩ := of_takeAddr hfirst
    obtain ⟨hlen, hplain, hfront⟩ := ih hrest
    refine ⟨by rw [List.length_cons, hlen], List.forall_mem_cons.mpr ⟨ha, hplain⟩, ?_⟩
    rw [List.flatMap_cons]
    exact (List.prefix_append_right_inj _).mpr hfront

/-! ## Messages -/

namespace Message

/-- What the format can carry: plain addresses, and no more of them than a message holds. -/
def Fits : Message → Prop
  | register | punch _ | punchAck _ => True
  | peers you others =>
    you.IsPlain ∧ others.length ≤ maxPeersPerRoom ∧ ∀ a ∈ others, a.IsPlain
  | addrs as => as.length ≤ maxAdvertised ∧ ∀ a ∈ as, a.IsPlain

instance (msg : Message) : Decidable msg.Fits := by
  cases msg <;> unfold Fits <;> infer_instance

/-- A datagram with this key, kind and body. -/
def frame (key : RoomKey) (kind : UInt8) (body : Bytes) : Bytes :=
  magic ++ [version, kind] ++ key.toList ++ body

theorem encode_eq (key : RoomKey) (msg : Message) :
    encode key msg = frame key msg.kind msg.body := rfl

theorem decode_frame (key : RoomKey) (kind : UInt8) (body : Bytes) :
    decode (frame key kind body) = decodeBody key kind body := by
  have hhead : (magic ++ [version, kind] ++ key.toList).length = rvHeaderSize := by
    simp [magic, rvHeaderSize]
  have hkey : slice (frame key kind body) 6 16 = key.toList := by
    rw [frame, List.append_assoc]
    exact slice_middle _ _ _ rfl (by simp)
  have hbody : (frame key kind body).drop rvHeaderSize = body := by
    rw [frame, ← hhead, List.drop_left]
  have hfixed : fixed 16 key.toList = key := by simpa using fixed_toList_append key []
  have hlen : rvHeaderSize ≤ (frame key kind body).length := by
    rw [frame, List.length_append, hhead]
    exact Nat.le_add_right _ _
  rw [decode_eq hlen, hkey, hbody, hfixed, if_pos ⟨rfl, rfl⟩]
  rfl

/-- What is decoded starts with a head and goes on with the body that was read. -/
theorem of_decode {b : Bytes} {r : RoomKey × Message} (h : decode b = some r) :
    ∃ key kind body, b = frame key kind body ∧ decodeBody key kind body = some r := by
  have hlen : rvHeaderSize ≤ b.length := by
    by_contra hshort
    have hrv : isRendezvous b = false := by
      simp only [isRendezvous, hshort, decide_false, Bool.false_and]
    rw [decode, hrv] at h
    cases h
  rw [decode_eq hlen] at h
  split_ifs at h with hguard
  refine ⟨_, _, _, ?_, h⟩
  have hget (i : ℕ) (hi : i < b.length) : b.getD i 0 = b[i] := by simp [hi]
  have h4 : 4 < b.length := (by decide : 4 < rvHeaderSize).trans_le hlen
  have h5 : 5 < b.length := (by decide : 5 < rvHeaderSize).trans_le hlen
  have hkey : 16 ≤ (b.drop 6).length := by
    rw [List.length_drop]
    exact Nat.le_sub_of_add_le hlen
  have hslice : (fixed 16 (slice b 6 16)).toList = (b.drop 6).take 16 := by
    rw [slice, fixed_take, fixed_toList hkey]
  have hdrop : b.drop 4 = b.getD 4 0 :: b.getD 5 0 :: b.drop 6 := by
    rw [hget 4 h4, hget 5 h5, List.drop_eq_getElem_cons h4, List.drop_eq_getElem_cons h5]
  calc b = b.take 4 ++ b.drop 4 := (List.take_append_drop 4 b).symm
    _ = magic ++ version :: b.getD 5 0 :: b.drop 6 := by rw [hdrop, hguard.1, hguard.2]
    _ = magic ++ version :: b.getD 5 0 :: ((b.drop 6).take 16 ++ (b.drop 6).drop 16) := by
        rw [List.take_append_drop]
    _ = frame (fixed 16 (slice b 6 16)) (b.getD 5 0) (b.drop rvHeaderSize) := by
        rw [frame, hslice, List.drop_drop, List.append_assoc, List.append_assoc]
        rfl

theorem decodeList_counted {as : List SocketAddr} {most : ℕ} (hmost : most < 256)
    (hlen : as.length ≤ most) (has : ∀ a ∈ as, a.IsPlain) :
    decodeList most (UInt8.ofNat as.length :: as.flatMap putAddr) = some as := by
  have hcount : (UInt8.ofNat as.length).toNat = as.length :=
    UInt8.toNat_ofNat_of_lt' (hlen.trans_lt hmost)
  rw [decodeList, hcount, if_neg (Nat.not_lt.mpr hlen)]
  simpa using takeAddrs_flatMap has []

theorem of_decodeList {most : ℕ} {b : Bytes} {as : List SocketAddr}
    (h : decodeList most b = some as) :
    as.length ≤ most ∧ (∀ a ∈ as, a.IsPlain) ∧
      UInt8.ofNat as.length :: as.flatMap putAddr <+: b := by
  cases b with
  | nil => cases h
  | cons count rest =>
    rw [decodeList] at h
    split_ifs at h with hmost
    obtain ⟨hlen, hplain, hfront⟩ := of_takeAddrs h
    refine ⟨hlen ▸ Nat.not_lt.mp hmost, hplain, ?_⟩
    rw [hlen, UInt8.ofNat_toNat]
    exact (List.prefix_cons_inj count).mpr hfront

theorem decodeNonce_toList (nonce : Vector UInt8 8) : decodeNonce nonce.toList = some nonce := by
  rw [decodeNonce, if_neg (by simp)]
  simpa using fixed_toList_append nonce []

theorem of_decodeNonce {b : Bytes} {nonce : Vector UInt8 8} (h : decodeNonce b = some nonce) :
    nonce.toList <+: b := by
  rw [decodeNonce] at h
  split_ifs at h with hlen
  cases h
  rw [fixed_toList (Nat.not_lt.mp hlen)]
  exact List.take_prefix 8 b

theorem decodeBody_body {msg : Message} (hmsg : msg.Fits) (key : RoomKey) :
    decodeBody key msg.kind msg.body = some (key, msg) := by
  cases msg with
  | register => rfl
  | peers you others =>
    obtain ⟨hyou, hlen, hothers⟩ := hmsg
    dsimp only [kind, body, decodeBody]
    rw [List.take_of_length_le hlen, takeAddr_putAddr hyou]
    simp only [Option.bind_eq_bind, Option.bind_some,
      decodeList_counted (by decide : maxPeersPerRoom < 256) hlen hothers]
    rfl
  | punch nonce =>
    dsimp only [kind, body, decodeBody]
    rw [decodeNonce_toList, Option.map_some]
    rfl
  | punchAck nonce =>
    dsimp only [kind, body, decodeBody]
    rw [decodeNonce_toList, Option.map_some]
    rfl
  | addrs as =>
    obtain ⟨hlen, has⟩ := hmsg
    dsimp only [kind, body, decodeBody]
    rw [List.take_of_length_le hlen,
      decodeList_counted (by decide : maxAdvertised < 256) hlen has, Option.map_some]
    rfl

theorem of_decodeBody {key key' : RoomKey} {kind : UInt8} {body : Bytes} {msg : Message}
    (h : decodeBody key kind body = some (key', msg)) :
    key' = key ∧ msg.kind = kind ∧ msg.Fits ∧ (msg ≠ register → msg.body <+: body) := by
  unfold decodeBody at h
  split at h
  · split_ifs at h
    cases h
    exact ⟨rfl, rfl, trivial, fun hne => absurd rfl hne⟩
  · simp only [Option.bind_eq_bind, Option.bind_eq_some_iff] at h
    obtain ⟨⟨you, rest⟩, hyou, others, hothers, hmsg⟩ := h
    cases hmsg
    obtain ⟨hplain, rfl⟩ := of_takeAddr hyou
    obtain ⟨hlen, hall, hfront⟩ := of_decodeList hothers
    refine ⟨rfl, rfl, ⟨hplain, hlen, hall⟩, fun _ => ?_⟩
    dsimp only [Message.body]
    rw [List.take_of_length_le hlen]
    exact (List.prefix_append_right_inj _).mpr hfront
  · obtain ⟨nonce, hnonce, hmsg⟩ := Option.map_eq_some_iff.mp h
    cases hmsg
    exact ⟨rfl, rfl, trivial, fun _ => of_decodeNonce hnonce⟩
  · obtain ⟨nonce, hnonce, hmsg⟩ := Option.map_eq_some_iff.mp h
    cases hmsg
    exact ⟨rfl, rfl, trivial, fun _ => of_decodeNonce hnonce⟩
  · obtain ⟨as, has, hmsg⟩ := Option.map_eq_some_iff.mp h
    cases hmsg
    obtain ⟨hlen, hall, hfront⟩ := of_decodeList has
    refine ⟨rfl, rfl, ⟨hlen, hall⟩, fun _ => ?_⟩
    dsimp only [Message.body]
    rw [List.take_of_length_le hlen]
    exact hfront
  · cases h

theorem decode_encode {msg : Message} (hmsg : msg.Fits) (key : RoomKey) :
    decode (encode key msg) = some (key, msg) := by
  rw [encode_eq, decode_frame, decodeBody_body hmsg]

/-- What is decoded fits the format, and the datagram starts with its encoding. -/
theorem decode_sound {b : Bytes} {key : RoomKey} {msg : Message}
    (h : decode b = some (key, msg)) :
    msg.Fits ∧ (msg ≠ register → encode key msg <+: b) := by
  obtain ⟨key', kind, body, rfl, hbody⟩ := of_decode h
  obtain ⟨rfl, rfl, hfits, hfront⟩ := of_decodeBody hbody
  exact ⟨hfits, fun hne => (List.prefix_append_right_inj _).mpr (hfront hne)⟩

/-- Every message that fits comes back; no datagram makes the decoder read out of range; and
what is read from one is read from its own encoding too, with which the datagram starts. -/
theorem decode_round_trip :
    (∀ key msg, Fits msg → decodeChecked (encode key msg) = some (some (key, msg))) ∧
    (∀ b, decodeChecked b = some (decode b)) ∧
    ∀ b key msg, decodeChecked b = some (some (key, msg)) →
      decodeChecked (encode key msg) = some (some (key, msg)) ∧
      (msg ≠ register → encode key msg <+: b) := by
  refine ⟨fun key msg hmsg => ?_, decodeChecked_eq, fun b key msg h => ?_⟩
  · rw [decodeChecked_eq, decode_encode hmsg]
  · rw [decodeChecked_eq, Option.some_inj] at h
    obtain ⟨hfits, hfront⟩ := decode_sound h
    exact ⟨by rw [decodeChecked_eq, decode_encode hfits], hfront⟩

/-- Two families in one message, and a byte after it. -/
theorem decode_round_trip_mixed :
    let key : RoomKey := Vector.replicate 16 7
    let you := SocketAddr.v6 (Vector.replicate 16 1) 5000 0 0
    let msg := peers you [.v4 #v[10, 0, 0, 1] 40000, you]
    decode (encode key msg) = some (key, msg) ∧ encode key msg <+: encode key msg ++ [0] := by
  intro key you msg
  have hfirst := decode_round_trip.1 key msg (by decide)
  have hread : decodeChecked (encode key msg ++ [0]) = some (some (key, msg)) := by decide
  rw [decode_round_trip.2.1, Option.some_inj] at hfirst
  exact ⟨hfirst, (decode_round_trip.2.2 _ key msg hread).2 (by decide)⟩

end Message
end Rendezvous
end GravitalTalk
