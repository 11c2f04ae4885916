import Tahini.Core.Types

/-!
# Cryptographic primitives, as the laws the protocol relies on

The repository calls aws-lc-rs for X25519 (`agree_ephemeral`), SSKDF-HMAC-
SHA256 (`sskdf_hmac`), Ed25519 (`Ed25519KeyPair::sign`,
`UnparsedPublicKey::verify`) and AES-256-GCM (`RandomizedNonceKey`). None of
them is repository code, and none is modelled bit for bit: `Crypto` bundles
their functions with exactly the algebraic facts the attestation argument
uses: agreement is symmetric and accepts honest public keys, verification
accepts honest signatures, and opening undoes sealing. Results proved for an
arbitrary `Crypto` hold for every implementation meeting those laws.
Randomness (ephemeral keys, nonces, client ids) enters the operations as
explicit arguments.
-/

namespace Tahini.Core

/-- The primitives, with their laws. -/
structure Crypto where
  /-- X25519 public key of a private scalar (`compute_public_key`). -/
  x25519Public : Bytes → Bytes
  /-- X25519 with a peer share; `none` when aws-lc rejects the share. -/
  agree : Bytes → Bytes → Option Bytes
  /-- SSKDF-HMAC-SHA256 with a 32-zero-byte salt and info `"Sidecar_session"`. -/
  sessionKdf : Bytes → Bytes
  /-- Ed25519 public key of a key pair. -/
  ed25519Public : Bytes → Bytes
  /-- `Ed25519KeyPair::sign`. -/
  sign : Bytes → Bytes → Bytes
  /-- `UnparsedPublicKey::verify` under Ed25519. -/
  verify : Bytes → Bytes → Bytes → Bool
  /-- `seal_in_place_append_tag` under a key and nonce: ciphertext, then tag. -/
  sealInPlaceAppendTag : Bytes → Bytes → Bytes → Bytes
  /-- `open_in_place`. -/
  openInPlace : Bytes → Bytes → Bytes → Option Bytes
  agree_comm : ∀ a b, agree a (x25519Public b) = agree b (x25519Public a)
  agree_public : ∀ a b, (agree a (x25519Public b)).isSome
  verify_sign : ∀ sk m, verify (ed25519Public sk) m (sign sk m) = true
  open_seal : ∀ k n m, openInPlace k n (sealInPlaceAppendTag k n m) = some m
  length_seal : ∀ k n m, (sealInPlaceAppendTag k n m).length = m.length + 16
  length_sessionKdf : ∀ z, (sessionKdf z).length = 32

/-- A degenerate instance, worthless as cryptography: it shows the laws are
consistent, and gives the protocol theorems' hypotheses a concrete case. -/
def Crypto.degenerate : Crypto where
  x25519Public := fun _ => []
  agree := fun _ _ => some []
  sessionKdf := fun _ => List.replicate 32 0
  ed25519Public := fun _ => []
  sign := fun _ _ => []
  verify := fun _ _ s => s.isEmpty
  sealInPlaceAppendTag := fun _ _ m => m ++ List.replicate 16 0
  openInPlace := fun _ _ c => some (c.take (c.length - 16))
  agree_comm := fun _ _ => rfl
  agree_public := fun _ _ => rfl
  verify_sign := fun _ _ => rfl
  open_seal := fun _ _ m => by simp
  length_seal := fun _ _ m => by simp
  length_sessionKdf := fun _ => by simp

/-- `derive_key_from_shares`: agree, then derive; a rejected share panics. -/
def deriveKeyFromShares (C : Crypto) (localSkey remoteShare : Bytes) : Except String Bytes :=
  match C.agree localSkey remoteShare with
  | some z => .ok (C.sessionKdf z)
  | none => .error "Key exchange failed"

theorem deriveKeyFromShares_eq_error {C : Crypto} {a b : Bytes} {msg : String} :
    deriveKeyFromShares C a b = .error msg ↔ C.agree a b = none ∧ msg = "Key exchange failed" := by
  cases h : C.agree a b <;> simp [deriveKeyFromShares, h, eq_comm]

/-- Both ends of an honest exchange derive the same key. -/
theorem deriveKeyFromShares_comm (C : Crypto) (a b : Bytes) :
    deriveKeyFromShares C a (C.x25519Public b) = deriveKeyFromShares C b (C.x25519Public a) := by
  simp [deriveKeyFromShares, C.agree_comm a b]

/-- An honest share is never rejected. -/
theorem deriveKeyFromShares_public (C : Crypto) (a b : Bytes) :
    ∃ k, deriveKeyFromShares C a (C.x25519Public b) = .ok k ∧ k.length = 32 := by
  obtain ⟨z, hz⟩ := Option.isSome_iff_exists.mp (C.agree_public a b)
  exact ⟨_, by simp [deriveKeyFromShares, hz], C.length_sessionKdf z⟩

end Tahini.Core
