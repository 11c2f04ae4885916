import Tahini.Core.Bytes

/-!
# SHA-256 and the two hashing front ends the repository uses

Two crates hash here: `sha2` (the `Digest` trait: `Sha256::new`, `update`,
`finalize`) in the certificate issuer and the sidecar, and `sha256::digest`
(lowercase hex of the digest) in the policy hasher. Both compute FIPS 180-4
SHA-256, which `sha256` implements directly (§5.1.1 padding, §6.2.2
compression with the message schedule kept as a sixteen-word window), so
that concrete digests evaluate by `decide`.

The `Digest` object is modelled by what it has absorbed: `update` appends,
`finalize` hashes everything absorbed. `finalize_updates` is the contract
the chunked read loops of the issuer and the sidecar rely on: feeding a
content in pieces hashes the concatenation.
-/

namespace Tahini.Core

/-! ## FIPS 180-4 SHA-256 -/

/-- The 64 round constants (§4.2.2). -/
def roundK : List UInt32 := [
  0x428a2f98, 0x71374491, 0xb5c0fbcf, 0xe9b5dba5, 0x3956c25b, 0x59f111f1, 0x923f82a4, 0xab1c5ed5,
  0xd807aa98, 0x12835b01, 0x243185be, 0x550c7dc3, 0x72be5d74, 0x80deb1fe, 0x9bdc06a7, 0xc19bf174,
  0xe49b69c1, 0xefbe4786, 0x0fc19dc6, 0x240ca1cc, 0x2de92c6f, 0x4a7484aa, 0x5cb0a9dc, 0x76f988da,
  0x983e5152, 0xa831c66d, 0xb00327c8, 0xbf597fc7, 0xc6e00bf3, 0xd5a79147, 0x06ca6351, 0x14292967,
  0x27b70a85, 0x2e1b2138, 0x4d2c6dfc, 0x53380d13, 0x650a7354, 0x766a0abb, 0x81c2c92e, 0x92722c85,
  0xa2bfe8a1, 0xa81a664b, 0xc24b8b70, 0xc76c51a3, 0xd192e819, 0xd6990624, 0xf40e3585, 0x106aa070,
  0x19a4c116, 0x1e376c08, 0x2748774c, 0x34b0bcb5, 0x391c0cb3, 0x4ed8aa4a, 0x5b9cca4f, 0x682e6ff3,
  0x748f82ee, 0x78a5636f, 0x84c87814, 0x8cc70208, 0x90befffa, 0xa4506ceb, 0xbef9a3f7, 0xc67178f2]

/-- The initial hash value (§5.3.3). -/
def initialHash : List UInt32 :=
  [0x6a09e667, 0xbb67ae85, 0x3c6ef372, 0xa54ff53a, 0x510e527f, 0x9b05688c, 0x1f83d9ab, 0x5be0cd19]

/-- Right rotation of a 32-bit word. -/
def rotr (x n : UInt32) : UInt32 := (x >>> n) ||| (x <<< (32 - n))

/-- Four bytes as one big-endian word. -/
def beWord (a b c d : UInt8) : UInt32 :=
  (a.toUInt32 <<< 24) ||| (b.toUInt32 <<< 16) ||| (c.toUInt32 <<< 8) ||| d.toUInt32

/-- A block as its sixteen big-endian words. -/
def blockWords : Bytes → List UInt32
  | a :: b :: c :: d :: rest => beWord a b c d :: blockWords rest
  | _ => []

/-- The next schedule word `W[t]` from the window `W[t-16] … W[t-1]` (§6.2.2 step 1). -/
def nextWord : List UInt32 → UInt32
  | w16 :: w15 :: _ :: _ :: _ :: _ :: _ :: _ :: _ :: w7 :: _ :: _ :: _ :: _ :: w2 :: _ :: _ =>
    w16 + (rotr w15 7 ^^^ rotr w15 18 ^^^ (w15 >>> 3)) + w7 +
      (rotr w2 17 ^^^ rotr w2 19 ^^^ (w2 >>> 10))
  | _ => 0

/-- The eight working variables `a … h`. -/
structure Working where
  a : UInt32
  b : UInt32
  c : UInt32
  d : UInt32
  e : UInt32
  f : UInt32
  g : UInt32
  h : UInt32

/-- One round with constant `k` and schedule word `w` (§6.2.2 step 3). -/
def shaRound (s : Working) (k w : UInt32) : Working :=
  let t₁ := s.h + (rotr s.e 6 ^^^ rotr s.e 11 ^^^ rotr s.e 25) +
    ((s.e &&& s.f) ^^^ (~~~s.e &&& s.g)) + k + w
  let t₂ := (rotr s.a 2 ^^^ rotr s.a 13 ^^^ rotr s.a 22) +
    ((s.a &&& s.b) ^^^ (s.a &&& s.c) ^^^ (s.b &&& s.c))
  ⟨t₁ + t₂, s.a, s.b, s.c, s.d + t₁, s.e, s.f, s.g⟩

/-- The 64 rounds, sliding the schedule window by one word per round. -/
def shaRounds : List UInt32 → List UInt32 → Working → Working
  | k :: ks, w :: ws, s => shaRounds ks (ws ++ [nextWord (w :: ws)]) (shaRound s k w)
  | _, _, s => s

/-- The compression function: one 64-byte block into the chaining value. -/
def compress (hv : List UInt32) (block : Bytes) : List UInt32 :=
  let s := shaRounds roundK (blockWords block)
    ⟨hv.getD 0 0, hv.getD 1 0, hv.getD 2 0, hv.getD 3 0,
      hv.getD 4 0, hv.getD 5 0, hv.getD 6 0, hv.getD 7 0⟩
  List.zipWith (· + ·) hv [s.a, s.b, s.c, s.d, s.e, s.f, s.g, s.h]

/-- A length in bits as eight big-endian bytes. -/
def beLength (n : Nat) : Bytes := (List.range 8).reverse.map fun i => (n >>> (8 * i)).toUInt8

/-- Padding (§5.1.1): a one bit, zeros, and the 64-bit message length. -/
def shaPad (m : Bytes) : Bytes :=
  m ++ [0x80] ++ List.replicate ((119 - m.length % 64) % 64) 0 ++ beLength (8 * m.length)

/-- The 64-byte blocks of a padded message (`fuel` bounds the count). -/
def shaBlocks : Nat → Bytes → List Bytes
  | 0, _ => []
  | fuel + 1, m => if m.isEmpty then [] else m.take 64 :: shaBlocks fuel (m.drop 64)

/-- A word as four big-endian bytes. -/
def wordBytes (x : UInt32) : Bytes :=
  [(x >>> 24).toUInt8, (x >>> 16).toUInt8, (x >>> 8).toUInt8, x.toUInt8]

/-- SHA-256 of a byte string, as 32 bytes. -/
def sha256 (m : Bytes) : Bytes :=
  let p := shaPad m
  ((shaBlocks p.length p).foldl compress initialHash).flatMap wordBytes

set_option maxRecDepth 20000 in
/-- The FIPS 180-2 test vector for `"abc"`. -/
example : sha256 [0x61, 0x62, 0x63] =
    [0xba, 0x78, 0x16, 0xbf, 0x8f, 0x01, 0xcf, 0xea, 0x41, 0x41, 0x40, 0xde, 0x5d, 0xae, 0x22, 0x23,
     0xb0, 0x03, 0x61, 0xa3, 0x96, 0x17, 0x7a, 0x9c, 0xb4, 0x10, 0xff, 0x61, 0xf2, 0x00, 0x15, 0xad] := by
  decide

theorem length_compress {hv : List UInt32} (h : hv.length = 8) (block : Bytes) :
    (compress hv block).length = 8 := by
  simp [compress, h]

theorem length_foldl_compress (blocks : List Bytes) {hv : List UInt32} (h : hv.length = 8) :
    (blocks.foldl compress hv).length = 8 := by
  induction blocks generalizing hv with
  | nil => exact h
  | cons b bs ih => exact ih (length_compress h b)

/-- A digest is 32 bytes. -/
@[simp] theorem length_sha256 (m : Bytes) : (sha256 m).length = 32 := by
  have h : (List.foldl compress initialHash (shaBlocks (shaPad m).length (shaPad m))).length = 8 :=
    length_foldl_compress _ rfl
  have hw : ∀ ws : List UInt32, (ws.flatMap wordBytes).length = 4 * ws.length := by
    intro ws
    induction ws with
    | nil => rfl
    | cons w ws ih => simp [wordBytes, ih]; omega
  simp only [sha256, hw, h]

/-! ## The two front ends -/

/-- `sha256::digest`: the lowercase hex of the digest. -/
def sha256Digest (m : Bytes) : List Char := hexEncode (sha256 m)

@[simp] theorem length_sha256Digest (m : Bytes) : (sha256Digest m).length = 64 := by
  simp [sha256Digest]

/-- The `sha2` `Digest` object, as the bytes it has absorbed. -/
structure Sha256 where
  absorbed : Bytes

/-- `Sha256::new()`. -/
def Sha256.new : Sha256 := ⟨[]⟩

/-- `hasher.update(data)`. -/
def Sha256.update (s : Sha256) (data : Bytes) : Sha256 := ⟨s.absorbed ++ data⟩

/-- `hasher.finalize()`. -/
def Sha256.finalize (s : Sha256) : Bytes := sha256 s.absorbed

/-- Feeding pieces one `update` at a time hashes their concatenation. -/
theorem Sha256.finalize_updates (s : Sha256) (pieces : List Bytes) :
    (pieces.foldl Sha256.update s).finalize = sha256 (s.absorbed ++ pieces.flatten) := by
  induction pieces generalizing s with
  | nil => simp [Sha256.finalize]
  | cons p ps ih => simp [ih, Sha256.update]

end Tahini.Core
