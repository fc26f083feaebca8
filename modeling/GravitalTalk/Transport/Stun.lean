import GravitalTalk.Transport.AddressBook

/-!
# The answer of a STUN server

`parse_binding_response` of `stun.rs`: the address that a Binding Response carries. A
read outside of the buffer is an outcome of its own, so that its absence is a theorem.
-/
namespace GravitalTalk.Stun

def magicCookie : UInt32 := 0x2112A442
def bindingResponse : UInt16 := 0x0101
def attrXorMappedAddress : UInt16 := 0x0020
def attrMappedAddress : UInt16 := 0x0001
def familyIpv4 : UInt8 := 0x01

/-- The panic of a read outside of the buffer. -/
inductive Panic
  | outOfBounds
  deriving DecidableEq, Repr

/-- `buf[off..off + n]`. -/
def readAt (buf : Bytes) (off n : ℕ) : Except Panic Bytes :=
  if off + n ≤ buf.length then .ok (slice buf off n) else .error .outOfBounds

/-- `Ipv4Addr::from` of a number. -/
def ipv4 (addr : UInt32) : Vector UInt8 4 := fixed 4 (be32 addr)

def parseXorMappedAddress (val : Bytes) : Except Panic (Option SocketAddr) :=
  if val.length < 8 then return none
  else do
    let family ← readAt val 1 1
    if family ≠ [familyIpv4] then return none
    let xPort ← readAt val 2 2
    let port := fromBe16 xPort ^^^ (magicCookie >>> 16).toUInt16
    let xAddr ← readAt val 4 4
    let addr := fromBe32 xAddr ^^^ magicCookie
    return some (.v4 (ipv4 addr) port)

def parseMappedAddress (val : Bytes) : Except Panic (Option SocketAddr) :=
  if val.length < 8 then return none
  else do
    let family ← readAt val 1 1
    if family ≠ [familyIpv4] then return none
    let port ← readAt val 2 2
    let ip ← readAt val 4 4
    return some (.v4 (fixed 4 ip) (fromBe16 port))

/-- The loop over the attributes, which end at `stop`. -/
def scan (buf : Bytes) (stop pos : ℕ) (fallback : Option SocketAddr) :
    Except Panic (Option SocketAddr) :=
  if _h : pos + 4 ≤ stop then do
    let attrType ← readAt buf pos 2
    let attrLen ← readAt buf (pos + 2) 2
    let len := (fromBe16 attrLen).toNat
    if stop < pos + 4 + len then return fallback
    else
      let attrVal ← readAt buf (pos + 4) len
      let next := pos + 4 + (len + 3) / 4 * 4
      if fromBe16 attrType = attrXorMappedAddress then
        match ← parseXorMappedAddress attrVal with
        | some addr => return some addr
        | none => scan buf stop next fallback
      else if fromBe16 attrType = attrMappedAddress then
        match ← parseMappedAddress attrVal with
        | some addr => scan buf stop next (some addr)
        | none => scan buf stop next fallback
      else scan buf stop next fallback
  else return fallback
termination_by stop - pos
decreasing_by all_goals omega

def parseBindingResponse (buf : Bytes) (expectedTxId : Vector UInt8 12) :
    Except Panic (Option SocketAddr) :=
  if buf.length < 20 then return none
  else do
    let msgType ← readAt buf 0 2
    if fromBe16 msgType ≠ bindingResponse then return none
    let msgLen ← readAt buf 2 2
    let stop := 20 + (fromBe16 msgLen).toNat
    if buf.length < stop then return none
    let magic ← readAt buf 4 4
    if fromBe32 magic ≠ magicCookie then return none
    let txId ← readAt buf 8 12
    if txId ≠ expectedTxId.toList then return none
    scan buf stop 20 none

/-! ## Attributes -/

structure Attribute where
  type : UInt16
  value : Bytes
  deriving DecidableEq, Repr

/-- The address of a value, behind a reserved byte and the family. -/
def addressOf (decode : Bytes → Bytes → SocketAddr) : Bytes → Option SocketAddr
  | _ :: family :: p0 :: p1 :: a0 :: a1 :: a2 :: a3 :: _ =>
    if family = familyIpv4 then some (decode [p0, p1] [a0, a1, a2, a3]) else none
  | _ => none

/-- An IPv4 XOR-MAPPED-ADDRESS. -/
def Attribute.xorMapped (a : Attribute) : Option SocketAddr :=
  if a.type = attrXorMappedAddress then
    addressOf (fun port ip =>
      .v4 (ipv4 (fromBe32 ip ^^^ magicCookie)) (fromBe16 port ^^^ (magicCookie >>> 16).toUInt16))
    a.value
  else none

/-- An IPv4 MAPPED-ADDRESS. -/
def Attribute.mapped (a : Attribute) : Option SocketAddr :=
  if a.type = attrMappedAddress then
    addressOf (fun port ip => .v4 (fixed 4 ip) (fromBe16 port)) a.value
  else none

variable {buf : Bytes} {off n : ℕ}

theorem readAt_eq (h : off + n ≤ buf.length) : readAt buf off n = .ok (slice buf off n) := if_pos h

theorem addressOf_cases (val : Bytes) :
    val.length < 8 ∧ (∀ decode, addressOf decode val = none) ∨
    ∃ r f p0 p1 a0 a1 a2 a3 rest, val = r :: f :: p0 :: p1 :: a0 :: a1 :: a2 :: a3 :: rest := by
  match val with
  | r :: f :: p0 :: p1 :: a0 :: a1 :: a2 :: a3 :: rest =>
    exact .inr ⟨r, f, p0, p1, a0, a1, a2, a3, rest, rfl⟩
  | [] | [_] | [_, _] | [_, _, _] | [_, _, _, _] | [_, _, _, _, _] | [_, _, _, _, _, _]
  | [_, _, _, _, _, _, _] => exact .inl ⟨by simp, fun _ => rfl⟩

/-- The reads of the two parsers in a value that is long enough. -/
theorem readAt_address (r f p0 p1 a0 a1 a2 a3 : UInt8) (rest : Bytes) :
    let val := r :: f :: p0 :: p1 :: a0 :: a1 :: a2 :: a3 :: rest
    ¬val.length < 8 ∧ readAt val 1 1 = .ok [f] ∧ readAt val 2 2 = .ok [p0, p1] ∧
      readAt val 4 4 = .ok [a0, a1, a2, a3] := by
  simp [readAt, slice]

theorem parseXorMappedAddress_eq (val : Bytes) :
    parseXorMappedAddress val = .ok (Attribute.xorMapped ⟨attrXorMappedAddress, val⟩) := by
  rw [parseXorMappedAddress, Attribute.xorMapped, if_pos rfl]
  rcases addressOf_cases val with ⟨hshort, hnone⟩ | ⟨r, f, p0, p1, a0, a1, a2, a3, rest, rfl⟩
  · rw [if_pos hshort, hnone]
    rfl
  · obtain ⟨hlong, hfamily, hport, hip⟩ := readAt_address r f p0 p1 a0 a1 a2 a3 rest
    rw [if_neg hlong, hfamily, hport, hip, addressOf]
    by_cases hf : f = familyIpv4
    · rw [if_pos hf, hf]
      rfl
    · rw [if_neg hf]
      have hother : [f] ≠ [familyIpv4] := by simpa using hf
      simp only [bind, Except.bind, pure, Except.pure, if_pos hother]

theorem parseMappedAddress_eq (val : Bytes) :
    parseMappedAddress val = .ok (Attribute.mapped ⟨attrMappedAddress, val⟩) := by
  rw [parseMappedAddress, Attribute.mapped, if_pos rfl]
  rcases addressOf_cases val with ⟨hshort, hnone⟩ | ⟨r, f, p0, p1, a0, a1, a2, a3, rest, rfl⟩
  · rw [if_pos hshort, hnone]
    rfl
  · obtain ⟨hlong, hfamily, hport, hip⟩ := readAt_address r f p0 p1 a0 a1 a2 a3 rest
    rw [if_neg hlong, hfamily, hport, hip, addressOf]
    by_cases hf : f = familyIpv4
    · rw [if_pos hf, hf]
      rfl
    · rw [if_neg hf]
      have hother : [f] ≠ [familyIpv4] := by simpa using hf
      simp only [bind, Except.bind, pure, Except.pure, if_pos hother]

/-! ## The loop -/

/-- The length that the header of an attribute gives. -/
def lengthAt (buf : Bytes) (pos : ℕ) : ℕ := (fromBe16 (slice buf (pos + 2) 2)).toNat

def attributeAt (buf : Bytes) (pos : ℕ) : Attribute :=
  ⟨fromBe16 (slice buf pos 2), slice buf (pos + 4) (lengthAt buf pos)⟩

variable {stop pos : ℕ} {fallback : Option SocketAddr}

theorem scan_of_lt (h : stop < pos + 4) : scan buf stop pos fallback = .ok fallback := by
  rw [scan, dif_neg (Nat.not_le.mpr h)]
  rfl

/-- One turn of the loop in the part of the buffer that the message covers. -/
theorem scan_eq (hstop : stop ≤ buf.length) (hpos : pos + 4 ≤ stop) :
    scan buf stop pos fallback =
      if stop < pos + 4 + lengthAt buf pos then .ok fallback
      else match (attributeAt buf pos).xorMapped with
        | some addr => .ok (some addr)
        | none => scan buf stop (pos + 4 + (lengthAt buf pos + 3) / 4 * 4)
            ((attributeAt buf pos).mapped.or fallback) := by
  have htype : readAt buf pos 2 = .ok (slice buf pos 2) := readAt_eq (by omega)
  have hlen : readAt buf (pos + 2) 2 = .ok (slice buf (pos + 2) 2) := readAt_eq (by omega)
  rw [scan, dif_pos hpos, htype, hlen]
  change (if stop < pos + 4 + lengthAt buf pos then _ else _) = _
  by_cases hout : stop < pos + 4 + lengthAt buf pos
  · rw [if_pos hout, if_pos hout]
    rfl
  · have hval : readAt buf (pos + 4) (lengthAt buf pos) = .ok (attributeAt buf pos).value :=
      readAt_eq (by omega)
    rw [if_neg hout, if_neg hout]
    change (readAt buf (pos + 4) (lengthAt buf pos) >>= _) = _
    rw [hval]
    change (if (attributeAt buf pos).type = attrXorMappedAddress then _ else
      if (attributeAt buf pos).type = attrMappedAddress then _ else _) = _
    generalize attributeAt buf pos = a
    obtain ⟨type, value⟩ := a
    by_cases hxor : type = attrXorMappedAddress
    · subst hxor
      have htypes : attrXorMappedAddress ≠ attrMappedAddress := by decide
      have hmapped : Attribute.mapped ⟨attrXorMappedAddress, value⟩ = none := if_neg htypes
      rw [if_pos rfl, parseXorMappedAddress_eq, hmapped, Option.none_or]
      cases Attribute.xorMapped ⟨attrXorMappedAddress, value⟩ with
      | none => rfl
      | some addr => rfl
    · have hnone : Attribute.xorMapped ⟨type, value⟩ = none := if_neg hxor
      rw [if_neg hxor, hnone]
      by_cases hmapped : type = attrMappedAddress
      · subst hmapped
        rw [if_pos rfl, parseMappedAddress_eq]
        cases Attribute.mapped ⟨attrMappedAddress, value⟩ with
        | none => rfl
        | some addr => rfl
      · have hother : Attribute.mapped ⟨type, value⟩ = none := if_neg hmapped
        rw [if_neg hmapped, hother, Option.none_or]
        rfl

/-- Whatever the attributes say of their lengths, no read is outside of the buffer. -/
theorem scan_ok (hstop : stop ≤ buf.length) (pos : ℕ) (fallback : Option SocketAddr) :
    ∃ result, scan buf stop pos fallback = .ok result := by
  induction hleft : stop - pos using Nat.strong_induction_on generalizing pos fallback with
  | h left ih =>
    by_cases hpos : pos + 4 ≤ stop
    · rw [scan_eq hstop hpos]
      split_ifs with hout
      · exact ⟨fallback, rfl⟩
      · cases (attributeAt buf pos).xorMapped with
        | some addr => exact ⟨some addr, rfl⟩
        | none => exact ih _ (by omega) _ _ rfl
    · exact ⟨fallback, scan_of_lt (Nat.not_le.mp hpos)⟩

/-! ## Well-formed responses -/

/-- The header of an attribute. -/
def Attribute.header (a : Attribute) : Bytes :=
  be16 a.type ++ be16 (UInt16.ofNat a.value.length)

/-- The bytes of a list of attributes: each is filled up to a multiple of four bytes, but the last
one may not be. -/
inductive Encodes : List Attribute → Bytes → Prop
  | nil : Encodes [] []
  | last (a : Attribute) : Encodes [a] (a.header ++ a.value)
  | cons (a : Attribute) {attributes : List Attribute} {padding body : Bytes}
      (hpadding : a.value.length + padding.length = (a.value.length + 3) / 4 * 4)
      (hbody : Encodes attributes body) :
      Encodes (a :: attributes) (a.header ++ a.value ++ padding ++ body)

/-- The address that a response is about: the first XOR-MAPPED-ADDRESS, or else the last
MAPPED-ADDRESS. -/
def chosen (attributes : List Attribute) : Option SocketAddr :=
  (attributes.findSome? Attribute.xorMapped).or (attributes.filterMap Attribute.mapped).getLast?

/-- The attribute that the loop reads where its bytes are. -/
theorem attributeAt_eq {a : Attribute} (before after : Bytes) (hlen : a.value.length < 2 ^ 16) :
    let buf := before ++ (a.header ++ a.value ++ after)
    attributeAt buf before.length = a ∧ lengthAt buf before.length = a.value.length := by
  intro buf
  have htype : slice buf before.length 2 = be16 a.type := by
    simp [buf, Attribute.header, slice_middle]
  have hsize : slice buf (before.length + 2) 2 = be16 (UInt16.ofNat a.value.length) := by
    have hsplit : buf = (before ++ be16 a.type) ++ (be16 (UInt16.ofNat a.value.length) ++
        (a.value ++ after)) := by simp [buf, Attribute.header]
    rw [hsplit, slice_middle _ _ _ (by simp) (by simp)]
  have hlength : lengthAt buf before.length = a.value.length := by
    rw [lengthAt, hsize, fromBe16_be16]
    exact UInt16.toNat_ofNat_of_lt' hlen
  refine ⟨?_, hlength⟩
  have hvalue : slice buf (before.length + 4) a.value.length = a.value := by
    have hsplit : buf = (before ++ a.header) ++ (a.value ++ after) := by simp [buf]
    rw [hsplit, slice_middle _ _ _ (by simp [Attribute.header]) rfl]
  rw [attributeAt, htype, hlength, hvalue, fromBe16_be16]

/-- One turn of the loop at an attribute. -/
theorem scan_attribute {a : Attribute} {before after : Bytes} (hlen : a.value.length < 2 ^ 16)
    (hlow : before.length + 4 + a.value.length ≤ stop)
    (hhigh : stop ≤ (before ++ (a.header ++ a.value ++ after)).length) :
    scan (before ++ (a.header ++ a.value ++ after)) stop before.length fallback =
      match a.xorMapped with
      | some addr => .ok (some addr)
      | none => scan (before ++ (a.header ++ a.value ++ after)) stop
          (before.length + 4 + (a.value.length + 3) / 4 * 4) (a.mapped.or fallback) := by
  obtain ⟨hat, hlength⟩ := attributeAt_eq before after hlen
  rw [scan_eq hhigh (by omega), hat, hlength, if_neg (by omega)]

/-- The last address of a list, behind one more attribute. -/
theorem getLast?_mapped_cons (a : Attribute) (attributes : List Attribute)
    (fallback : Option SocketAddr) :
    ((a :: attributes).filterMap Attribute.mapped).getLast?.or fallback =
      (attributes.filterMap Attribute.mapped).getLast?.or (a.mapped.or fallback) := by
  cases ha : a.mapped with
  | none => rw [List.filterMap_cons_none ha, Option.none_or]
  | some addr =>
    rw [List.filterMap_cons_some ha, List.getLast?_cons, Option.some_or, Option.some_or]
    cases (attributes.filterMap Attribute.mapped).getLast? with
    | none => rfl
    | some last => rfl

theorem length_header (a : Attribute) : a.header.length = 4 := by
  simp [Attribute.header]

theorem scan_encodes {attributes : List Attribute} {body : Bytes} (h : Encodes attributes body)
    (hbody : body.length < 2 ^ 16) (before trailing : Bytes) (fallback : Option SocketAddr) :
    scan (before ++ (body ++ trailing)) (before.length + body.length) before.length fallback =
      .ok ((attributes.findSome? Attribute.xorMapped).or
        ((attributes.filterMap Attribute.mapped).getLast?.or fallback)) := by
  induction h generalizing before fallback with
  | nil => exact scan_of_lt (by simp)
  | last a =>
    rw [List.length_append, length_header] at hbody ⊢
    rw [scan_attribute (by omega) (by omega) (by simp [length_header]),
      getLast?_mapped_cons, List.findSome?_cons]
    cases a.xorMapped with
    | some addr => rfl
    | none => exact scan_of_lt (by omega)
  | @cons a attributes padding body hpadding hrest ih =>
    have hsize : (a.header ++ a.value ++ padding ++ body).length =
        4 + (a.value.length + 3) / 4 * 4 + body.length := by
      simp only [List.length_append, length_header]
      omega
    rw [hsize] at hbody ⊢
    have hsplit : before ++ (a.header ++ a.value ++ padding ++ body ++ trailing) =
        before ++ (a.header ++ a.value ++ (padding ++ body ++ trailing)) := by simp
    rw [hsplit, scan_attribute (by omega) (by omega) (by
      simp only [List.length_append, length_header]
      omega), getLast?_mapped_cons, List.findSome?_cons]
    cases a.xorMapped with
    | some addr => rfl
    | none =>
      -- The rest of the body begins where the padding ends.
      have hnext := ih (by omega) (before ++ a.header ++ a.value ++ padding) (a.mapped.or fallback)
      have hpos : (before ++ a.header ++ a.value ++ padding).length =
          before.length + 4 + (a.value.length + 3) / 4 * 4 := by
        simp only [List.length_append, length_header]
        omega
      have hbytes : before ++ a.header ++ a.value ++ padding ++ (body ++ trailing) =
          before ++ (a.header ++ a.value ++ (padding ++ body ++ trailing)) := by simp
      rw [hpos, hbytes] at hnext
      rw [show before.length + (4 + (a.value.length + 3) / 4 * 4 + body.length) =
        before.length + 4 + (a.value.length + 3) / 4 * 4 + body.length by omega]
      exact hnext

/-- The header of a Binding Response with a body of this length. -/
def responseHeader (txId : Vector UInt8 12) (bodyLength : ℕ) : Bytes :=
  be16 bindingResponse ++ be16 (UInt16.ofNat bodyLength) ++ be32 magicCookie ++ txId.toList

theorem length_responseHeader (txId : Vector UInt8 12) (n : ℕ) :
    (responseHeader txId n).length = 20 := by
  simp [responseHeader]

/-- The checks before the loop. -/
theorem parseBindingResponse_eq (txId : Vector UInt8 12) (h : 20 ≤ buf.length) :
    parseBindingResponse buf txId =
      if fromBe16 (slice buf 0 2) ≠ bindingResponse then .ok none
      else if buf.length < 20 + (fromBe16 (slice buf 2 2)).toNat then .ok none
      else if fromBe32 (slice buf 4 4) ≠ magicCookie then .ok none
      else if slice buf 8 12 ≠ txId.toList then .ok none
      else scan buf (20 + (fromBe16 (slice buf 2 2)).toNat) 20 none := by
  have htype : readAt buf 0 2 = .ok (slice buf 0 2) := readAt_eq (by omega)
  have hlen : readAt buf 2 2 = .ok (slice buf 2 2) := readAt_eq (by omega)
  have hmagic : readAt buf 4 4 = .ok (slice buf 4 4) := readAt_eq (by omega)
  have hid : readAt buf 8 12 = .ok (slice buf 8 12) := readAt_eq (by omega)
  rw [parseBindingResponse, if_neg (Nat.not_lt.mpr h), htype, hlen, hmagic, hid]
  simp only [bind, Except.bind, pure, Except.pure]

theorem parseBindingResponse_ok (buf : Bytes) (txId : Vector UInt8 12) :
    ∃ result, parseBindingResponse buf txId = .ok result := by
  by_cases hshort : buf.length < 20
  · exact ⟨none, if_pos hshort⟩
  · rw [parseBindingResponse_eq txId (Nat.not_lt.mp hshort)]
    split_ifs with htype hlen hmagic hid
    · exact ⟨none, rfl⟩
    · exact ⟨none, rfl⟩
    · exact ⟨none, rfl⟩
    · exact ⟨none, rfl⟩
    · exact scan_ok (Nat.not_lt.mp hlen) 20 none

/-- What the checks read in a response. -/
theorem slice_responseHeader (txId : Vector UInt8 12) (n : ℕ) (rest : Bytes) :
    let buf := responseHeader txId n ++ rest
    slice buf 0 2 = be16 bindingResponse ∧ slice buf 2 2 = be16 (UInt16.ofNat n) ∧
      slice buf 4 4 = be32 magicCookie ∧ slice buf 8 12 = txId.toList := by
  have hsplit (a b : Bytes) : slice (a ++ (b ++ (txId.toList ++ rest))) a.length b.length = b :=
    slice_middle a b _ rfl rfl
  refine ⟨?_, ?_, ?_, ?_⟩
  · simp [responseHeader, slice]
  · simp [responseHeader, slice]
  · have h := hsplit (be16 bindingResponse ++ be16 (UInt16.ofNat n)) (be32 magicCookie)
    simpa [responseHeader] using h
  · have h := slice_middle (be16 bindingResponse ++ be16 (UInt16.ofNat n) ++ be32 magicCookie)
      txId.toList rest rfl rfl
    simpa [responseHeader] using h

/-- The parser comes to an end and reads nothing outside of the buffer; and of a response to the
request it answers the address that the response is about. -/
theorem binding_response (txId : Vector UInt8 12) :
    (∀ buf : Bytes, ∃ result, parseBindingResponse buf txId = .ok result) ∧
      ∀ attributes body trailing, Encodes attributes body → body.length < 2 ^ 16 →
        parseBindingResponse (responseHeader txId body.length ++ (body ++ trailing)) txId =
          .ok (chosen attributes) := by
  refine ⟨fun buf => parseBindingResponse_ok buf txId, ?_⟩
  intro attributes body trailing hbody hlen
  have hheader := length_responseHeader txId body.length
  obtain ⟨htype, hsize, hmagic, hid⟩ :=
    slice_responseHeader txId body.length (body ++ trailing)
  have hof : (UInt16.ofNat body.length).toNat = body.length := UInt16.toNat_ofNat_of_lt' hlen
  have hbytes : ¬(responseHeader txId body.length ++ (body ++ trailing)).length <
      20 + body.length := by
    simp only [List.length_append, hheader]
    omega
  rw [parseBindingResponse_eq txId (by simp [hheader]), htype, hsize, hmagic, hid, fromBe16_be16,
    fromBe16_be16, fromBe32_be32, hof, if_neg (not_not.mpr rfl), if_neg hbytes,
    if_neg (not_not.mpr rfl), if_neg (not_not.mpr rfl)]
  have hscan := scan_encodes hbody hlen (responseHeader txId body.length) trailing none
  rw [hheader, Option.or_none] at hscan
  exact hscan

/-- A response with an unknown attribute of one byte, and an address behind its padding. -/
theorem binding_response_padded :
    let txId : Vector UInt8 12 := #v[1, 2, 3, 4, 5, 6, 7, 8, 9, 10, 11, 12]
    let software : Attribute := ⟨0x8022, [65]⟩
    let mapped : Attribute := ⟨attrMappedAddress, [0, 1, 0xD4, 0x31, 203, 0, 113, 45]⟩
    let body := software.header ++ software.value ++ [0, 0, 0] ++ (mapped.header ++ mapped.value)
    parseBindingResponse (responseHeader txId body.length ++ (body ++ [])) txId =
      .ok (some (.v4 #v[203, 0, 113, 45] 54321)) := by
  intro txId software mapped body
  have hbody : Encodes [software, mapped] body := .cons software (by decide) (.last mapped)
  have hlen : body.length < 2 ^ 16 := by decide
  have hchosen : chosen [software, mapped] = some (.v4 #v[203, 0, 113, 45] 54321) := by decide
  rw [← hchosen]
  exact (binding_response txId).2 [software, mapped] body [] hbody hlen

end GravitalTalk.Stun
