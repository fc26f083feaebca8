import GravitalTalk.Core.Header

/-!
# Cryptographic primitives

The ciphers, hashes and Noise itself come from third-party crates, so they are
a parameter `Crypto` of everything above. `crypto.rs` of the core crate and the
key derivations of the transport's `session.rs` are written over it.

What a result relies on is stated as a hypothesis on the parameter:
`Crypto.RoundTrip` is the only law most of them need.
-/
namespace GravitalTalk

def tagSize : ℕ := 16

abbrev SessionKey := Vector UInt8 32

/-- The third-party functions the session calls. -/
structure Crypto where
  /-- ChaCha20-Poly1305: ciphertext followed by the tag. -/
  aeadEncrypt : SessionKey → Bytes → Bytes → Bytes → Option Bytes
  /-- Plaintext of a body that ends in its tag, if the tag verifies. -/
  aeadDecrypt : SessionKey → Bytes → Bytes → Bytes → Option Bytes
  sha256 : Bytes → Vector UInt8 32
  /-- HKDF-SHA256 with an optional salt, expanded to `n` bytes. -/
  hkdf : Option Bytes → Bytes → Bytes → (n : ℕ) → Vector UInt8 n
  x25519Public : Vector UInt8 32 → Vector UInt8 32
  x25519 : Vector UInt8 32 → Vector UInt8 32 → Vector UInt8 32
  /-- A Noise handshake in progress. -/
  Noise : Type
  /-- Built from the pre-shared key, the role and fresh randomness. -/
  noiseNew : Option (Vector UInt8 32) → Bool → Vector UInt8 32 → Option Noise
  noiseWrite : Noise → Bytes → Option (Bytes × Noise)
  noiseRead : Noise → Bytes → Option (Bytes × Noise)
  /-- The handshake hash, once the handshake is finished. -/
  noiseHash : Noise → Option (Vector UInt8 32)

/-- Sequence, session and four zero bytes. -/
def makeNonce (sequence sessionId : UInt32) : Bytes :=
  be32 sequence ++ be32 sessionId ++ [0, 0, 0, 0]

namespace Crypto

variable (C : Crypto)

def encryptInPlace (key : SessionKey) (nonce aad plain : Bytes) : Except Error Bytes :=
  match C.aeadEncrypt key nonce aad plain with
  | some sealed => .ok sealed
  | none => .error .decryptionFailed

def decryptInPlace (key : SessionKey) (nonce aad body : Bytes) : Except Error Bytes :=
  if body.length < tagSize then .error .tooShort
  else match C.aeadDecrypt key nonce aad body with
    | some plain => .ok plain
    | none => .error .decryptionFailed

/-- A sealed body is the plaintext's length plus a tag, and opens to it. -/
structure RoundTrip : Prop where
  length : ∀ {key nonce aad plain sealed}, C.aeadEncrypt key nonce aad plain = some sealed →
    sealed.length = plain.length + tagSize
  decrypt : ∀ {key nonce aad plain sealed}, C.aeadEncrypt key nonce aad plain = some sealed →
    C.aeadDecrypt key nonce aad sealed = some plain

/-- Whatever fits into a packet with its tag can be sealed. -/
def Seals : Prop := ∀ key nonce aad plain, plain.length + tagSize ≤ maxPayloadSize →
  ∃ sealed, C.aeadEncrypt key nonce aad plain = some sealed

variable {C}

theorem RoundTrip.length_encryptInPlace (hC : C.RoundTrip) {key : SessionKey}
    {nonce aad plain body : Bytes} (h : C.encryptInPlace key nonce aad plain = .ok body) :
    body.length = plain.length + tagSize := by
  unfold Crypto.encryptInPlace at h
  split at h
  · rename_i sealed hsealed
    cases h
    exact hC.length hsealed
  · cases h

theorem RoundTrip.decryptInPlace (hC : C.RoundTrip) {key : SessionKey}
    {nonce aad plain sealed : Bytes} (h : C.encryptInPlace key nonce aad plain = .ok sealed) :
    C.decryptInPlace key nonce aad sealed = .ok plain := by
  unfold Crypto.encryptInPlace at h
  split at h
  · rename_i body hbody
    cases h
    have hlen := hC.length hbody
    rw [Crypto.decryptInPlace, if_neg (by omega), hC.decrypt hbody]
  · cases h

variable (C)

/-- Nonces of both sides and the session, hashed into every derived key. -/
def buildTranscript (clientNonce serverNonce : Vector UInt8 32) (sessionId : UInt32) : Bytes :=
  clientNonce.toList ++ serverNonce.toList ++ be32 sessionId

def label (s : String) : Bytes := s.toUTF8.toList

/-- The keys a client encrypts and decrypts with. -/
def deriveSessionKeys (shared : Vector UInt8 32) (transcript : Bytes) : SessionKey × SessionKey :=
  (C.hkdf (some transcript) shared.toList (label "GS-encrypt-v1") 32,
    C.hkdf (some transcript) shared.toList (label "GS-decrypt-v1") 32)

def deriveAuthTag (key : SessionKey) (name : String) (transcript : Bytes) : Vector UInt8 16 :=
  C.hkdf none key.toList (label name ++ transcript) 16

/-! ## A cipher for examples -/

/-- Hides nothing: the tag is the front of the key. -/
def toyTag (key : SessionKey) : Bytes := key.toList.take tagSize

theorem length_toyTag (key : SessionKey) : (toyTag key).length = tagSize := by
  simp [toyTag, tagSize]

/-- A small instance on which examples are computed. A Noise handshake is the
list of the keys and messages that went into it. -/
def toy : Crypto where
  aeadEncrypt key _ _ plain := some (plain ++ toyTag key)
  aeadDecrypt key _ _ body :=
    if body.drop (body.length - tagSize) = toyTag key then
      some (body.take (body.length - tagSize))
    else none
  sha256 b := fixed 32 b
  hkdf salt ikm info n := fixed n (ikm.take 16 ++ info.drop 3 ++ salt.getD [])
  x25519Public secret := secret
  x25519 a b := Vector.zipWith (· + ·) a b
  Noise := Bytes × ℕ
  noiseNew psk _ seed := some ((psk.getD (Vector.replicate 32 0)).toList ++ seed.toList, 0)
  noiseWrite hs payload := some (hs.1.take 32 ++ payload, (hs.1, hs.2 + 1))
  noiseRead hs msg :=
    if msg.take 32 = hs.1.take 32 then some (msg.drop 32, (hs.1, hs.2 + 1)) else none
  noiseHash hs := if hs.2 = 2 then some (fixed 32 hs.1) else none

theorem toy_roundTrip : toy.RoundTrip := by
  constructor
  · intro key nonce aad plain sealed h
    obtain rfl := Option.some.inj h
    simp [toyTag, tagSize]
  · intro key nonce aad plain sealed h
    obtain rfl := Option.some.inj h
    simp [toy, toyTag, tagSize]

theorem toy_seals : toy.Seals := fun _ _ _ _ _ => ⟨_, rfl⟩

end Crypto
end GravitalTalk
