import Mathlib.Data.List.Basic
import Mathlib.Tactic.IntervalCases

/-!
# Signatures and trusted keys

`verifier.cpp`, with the parts of `crypto/primitives.cpp` that it forwards to: hexadecimal text, the
trust store, and the check of a detached signature under the key that a manifest names. The check of an
ed25519 signature itself is libsodium's.
-/

namespace Souxmar.Updater

/-! ## Hexadecimal text -/

/-- A digit or a lowercase letter up to `f`; the code writes 16 for any other character. -/
def hexNibble (c : Char) : Option ℕ :=
  if '0' ≤ c ∧ c ≤ '9' then some (c.toNat - '0'.toNat)
  else if 'a' ≤ c ∧ c ≤ 'f' then some (c.toNat - 'a'.toNat + 10)
  else none

/-- Two characters a byte, the high one first. -/
def hexDecode : List Char → Option (List UInt8)
  | [] => some []
  | [_] => none
  | hi :: lo :: rest => do
    let hi ← hexNibble hi
    let lo ← hexNibble lo
    let out ← hexDecode rest
    return UInt8.ofNat (16 * hi + lo) :: out

/-- `kHex`. -/
def kHexDigits : List Char :=
  ['0', '1', '2', '3', '4', '5', '6', '7', '8', '9', 'a', 'b', 'c', 'd', 'e', 'f']

def hexEncode (bytes : List UInt8) : List Char :=
  bytes.flatMap fun b =>
    [kHexDigits.getD (b.toNat / 16) '0', kHexDigits.getD (b.toNat % 16) '0']

theorem hexNibble_digit {n : ℕ} (hn : n < 16) : hexNibble (kHexDigits.getD n '0') = some n := by
  interval_cases n <;> decide

theorem digit_of_hexNibble {c : Char} {n : ℕ} (h : hexNibble c = some n) :
    n < 16 ∧ kHexDigits.getD n '0' = c := by
  have hof : ∀ {m : ℕ}, c.toNat = m → Char.ofNat m = c := fun hm => hm ▸ Char.ofNat_toNat c
  unfold hexNibble at h
  split_ifs at h with hdigit hletter
  · have hlow : '0'.toNat ≤ c.toNat := hdigit.1
    have hhigh : c.toNat ≤ '9'.toNat := hdigit.2
    simp only [Char.reduceToNat] at hlow hhigh h
    obtain rfl := Option.some.inj h
    obtain ⟨m, hm⟩ : ∃ m, c.toNat = m := ⟨_, rfl⟩
    rw [hm] at hlow hhigh ⊢
    rw [← hof hm]
    interval_cases m <;> decide
  · have hlow : 'a'.toNat ≤ c.toNat := hletter.1
    have hhigh : c.toNat ≤ 'f'.toNat := hletter.2
    simp only [Char.reduceToNat] at hlow hhigh h
    obtain rfl := Option.some.inj h
    obtain ⟨m, hm⟩ : ∃ m, c.toNat = m := ⟨_, rfl⟩
    rw [hm] at hlow hhigh ⊢
    rw [← hof hm]
    interval_cases m <;> decide

theorem hexDecode_hexEncode (bytes : List UInt8) : hexDecode (hexEncode bytes) = some bytes := by
  induction bytes with
  | nil => rfl
  | cons b bytes ih =>
    have hb := b.toNat_lt
    have hsplit : 16 * (b.toNat / 16) + b.toNat % 16 = b.toNat := by omega
    rw [hexEncode, List.flatMap_cons, ← hexEncode, List.cons_append, List.cons_append,
      List.nil_append, hexDecode, hexNibble_digit (by omega), hexNibble_digit (by omega), ih]
    show some (UInt8.ofNat (16 * (b.toNat / 16) + b.toNat % 16) :: bytes) = some (b :: bytes)
    rw [hsplit, UInt8.ofNat_toNat]

/-- A text is decoded only if it is what the bytes are encoded as: there is one spelling. -/
theorem hexDecode_eq_some_iff {text : List Char} {bytes : List UInt8} :
    hexDecode text = some bytes ↔ text = hexEncode bytes := by
  constructor
  · induction text using hexDecode.induct generalizing bytes with
    | case1 =>
      intro h
      obtain rfl := Option.some.inj h
      rfl
    | case2 c => simp [hexDecode]
    | case3 hi lo rest ih =>
      intro h
      simp only [hexDecode, Option.bind_eq_bind, Option.bind_eq_some_iff] at h
      obtain ⟨m, hm, n, hn, out, hout, h⟩ := h
      obtain rfl := Option.some.inj h
      obtain ⟨hmlt, hmdigit⟩ := digit_of_hexNibble hm
      obtain ⟨hnlt, hndigit⟩ := digit_of_hexNibble hn
      have hbyte : (UInt8.ofNat (16 * m + n)).toNat = 16 * m + n := by
        rw [UInt8.toNat_ofNat']
        omega
      rw [hexEncode, List.flatMap_cons, ← hexEncode, ← ih hout, hbyte,
        show (16 * m + n) / 16 = m by omega, show (16 * m + n) % 16 = n by omega, hmdigit, hndigit]
      rfl
  · rintro rfl
    exact hexDecode_hexEncode bytes

/-! ## The trust store -/

def kEd25519PublicKeyBytes : ℕ := 32

def kEd25519SignatureBytes : ℕ := 64

/-- A signer; the two checks of `TrustStore::add` are its fields. -/
structure TrustedKey where
  publicKeyId : String
  publicKey : List UInt8
  named : publicKeyId ≠ ""
  size : publicKey.length = kEd25519PublicKeyBytes

abbrev TrustStore : Type := List TrustedKey

namespace TrustStore

/-- A key that is refused gives none, and the store stays as it is. -/
def add (id : String) (publicKey : List UInt8) (store : TrustStore) : Option TrustStore :=
  if hid : id = "" then none
  else if hsize : publicKey.length = kEd25519PublicKeyBytes then
    some (store ++ [⟨id, publicKey, hid, hsize⟩])
  else none

def addHex (id hexPubkey : String) (store : TrustStore) : Option TrustStore :=
  match hexDecode hexPubkey.toList with
  | none => none
  | some decoded => if decoded.length ≠ kEd25519PublicKeyBytes then none else store.add id decoded

/-- The first key under the id. -/
def find (store : TrustStore) (id : String) : Option TrustedKey :=
  List.find? (fun k => k.publicKeyId = id) store

theorem addHex_eq_some {id hexPubkey : String} {store store' : TrustStore}
    (h : store.addHex id hexPubkey = some store') :
    ∃ key : TrustedKey, store' = store ++ [key] ∧ key.publicKeyId = id ∧
      hexPubkey.toList = hexEncode key.publicKey := by
  unfold addHex at h
  split at h
  · simp at h
  · rename_i decoded hdecoded
    split_ifs at h with hsize
    unfold add at h
    split_ifs at h with hid hlength
    obtain rfl := Option.some.inj h
    exact ⟨_, rfl, rfl, hexDecode_eq_some_iff.mp hdecoded⟩

theorem find_eq_some {store : TrustStore} {id : String} {key : TrustedKey}
    (h : store.find id = some key) : key ∈ store ∧ key.publicKeyId = id :=
  ⟨List.mem_of_find?_eq_some h, by simpa using List.find?_some h⟩

end TrustStore

/-! ## Verification -/

inductive SignatureStatus
  | ok
  | badSignature
  | unknownKeyId
  | malformedSignature
  | malformedPublicKey
  | emptyMessage
  | cryptoLibraryUnavailable
deriving DecidableEq, Repr

/-- What the updater takes from libsodium. -/
structure Sodium where
  /-- `sodium_init` succeeded. -/
  ready : Bool
  /-- `crypto_sign_verify_detached` accepts the signature of a message under a key. -/
  verifyDetached : List UInt8 → List UInt8 → List UInt8 → Bool

/-- `ed25519_verify`, and `verify_detached_ed25519` around it. -/
def verifyDetachedEd25519 (sodium : Sodium) (message signature publicKey : List UInt8) :
    SignatureStatus :=
  if signature.length ≠ kEd25519SignatureBytes then .malformedSignature
  else if publicKey.length ≠ kEd25519PublicKeyBytes then .malformedPublicKey
  else if message.isEmpty then .emptyMessage
  else if !sodium.ready then .cryptoLibraryUnavailable
  else if sodium.verifyDetached signature message publicKey then .ok
  else .badSignature

def verifyManifestSignature (sodium : Sodium) (manifestBytes signatureBytes : List UInt8)
    (keyId : String) (trust : TrustStore) : SignatureStatus :=
  match trust.find keyId with
  | none => .unknownKeyId
  | some key => verifyDetachedEd25519 sodium manifestBytes signatureBytes key.publicKey

/-- The bytes carry a signature under a key. -/
structure Signed (sodium : Sodium) (message signature : List UInt8) (key : TrustedKey) : Prop where
  size : signature.length = kEd25519SignatureBytes
  nonempty : message ≠ []
  ready : sodium.ready = true
  verified : sodium.verifyDetached signature message key.publicKey = true

theorem verifyDetachedEd25519_ok_iff (sodium : Sodium) (message signature : List UInt8)
    (key : TrustedKey) :
    verifyDetachedEd25519 sodium message signature key.publicKey = .ok ↔
      Signed sodium message signature key := by
  unfold verifyDetachedEd25519
  constructor
  · intro h
    split_ifs at h with hsize hkey hmessage hready hverified
    exact ⟨not_not.mp hsize, by simpa using hmessage, by simpa using hready, hverified⟩
  · rintro ⟨hsize, hmessage, hready, hverified⟩
    rw [if_neg (not_not.mpr hsize), if_neg (not_not.mpr key.size), if_neg (by simpa using hmessage),
      if_neg (by simp [hready]), if_pos hverified]

/-- A manifest passes exactly when it is signed under the first key that goes by its key id. -/
theorem verifyManifestSignature_ok_iff (sodium : Sodium) (manifestBytes signatureBytes : List UInt8)
    (keyId : String) (trust : TrustStore) :
    verifyManifestSignature sodium manifestBytes signatureBytes keyId trust = .ok ↔
      ∃ key, trust.find keyId = some key ∧ Signed sodium manifestBytes signatureBytes key := by
  unfold verifyManifestSignature
  cases hfind : trust.find keyId with
  | none => simp
  | some key =>
    dsimp only
    rw [verifyDetachedEd25519_ok_iff]
    constructor
    · exact fun h => ⟨key, rfl, h⟩
    · rintro ⟨key', hkey, h⟩
      obtain rfl := Option.some.inj hkey
      exact h

end Souxmar.Updater
