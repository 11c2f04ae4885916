import Tahini.Core.Sha256
import Tahini.Core.Types

/-!
# Hashing executables: the issuer's and the sidecar's loops

The certificate issuer (`certificate_generation/src/main.rs`,
`hash_binaries`) and the sidecar (`tahini_attest/src/sidecar.rs`,
`hash_bin`) each carry a copy of the same loop: `read` into an 8 KiB buffer
through a `BufReader`, feed `buffer[..bytes_read]` to a `Sha256`, stop at a
read of 0, hex-encode the digest. How many bytes each `read` returns is the
kernel's choice, so it is an input here: the list of `read` results.
(`BufReader::read` with an 8 KiB destination and an empty internal buffer
reads the file directly, so these are the file's own read results.)

`hashLoop` is the loop, once; `hashBinaries` and `hashBin` are the two
functions around it, with their own error paths: the issuer propagates a
failed `open` as `Err`, the sidecar panics with `"Can't find file"`.
`hashLoop_chunks` shows the loop absorbs exactly the content for every
chunking; `hashBinaries_eq_hashBin` concludes that both record the hex
SHA-256 of the content.
-/

namespace Tahini.Issuer

open Tahini.Core

/-- An executable's path; only its file name is read. -/
structure BinPath where
  dir : String
  fileName : String
  deriving DecidableEq, Repr

/-- One `read` call's result: a byte count, or an error. -/
abbrev ReadResult := Except IoError Nat

/-- The read loop both functions share: `read` copies the next `n` bytes to
the front of `buffer`, and `buffer[..n]` goes to the hasher. -/
def hashLoop (buffer : Bytes) (hasher : Sha256) (rem : Bytes) : List ReadResult → Except IoError Sha256
  | [] => .ok hasher
  | .error e :: _ => .error e
  | .ok n :: rs =>
    if n = 0 then .ok hasher
    else
      let buffer := rem.take n ++ buffer.drop n
      hashLoop buffer (hasher.update (buffer.take n)) (rem.drop n) rs

/-- The `read` results a file of content `c` can give: non-empty chunks of at
most 8192 bytes that together are the content, then 0. -/
def Chunking (c : Bytes) (counts : List Nat) : Prop :=
  (∀ n ∈ counts, 0 < n ∧ n ≤ 8192) ∧ counts.sum = c.length

/-- The read results of a chunking. -/
def Chunking.reads (counts : List Nat) : List ReadResult := counts.map .ok ++ [.ok 0]

/-- Whatever the chunking, the loop absorbs exactly the remaining content. -/
theorem hashLoop_chunks (counts : List Nat) :
    ∀ (buffer : Bytes) (hasher : Sha256) (rem : Bytes), Chunking rem counts →
      hashLoop buffer hasher rem (Chunking.reads counts) = .ok (hasher.update rem) := by
  induction counts with
  | nil =>
    intro buffer hasher rem h
    have : rem = [] := List.eq_nil_of_length_eq_zero h.2.symm
    subst this
    simp [Chunking.reads, hashLoop, Sha256.update]
  | cons n ns ih =>
    intro buffer hasher rem ⟨hb, hs⟩
    have hn := hb n (List.mem_cons_self n ns)
    rw [List.sum_cons] at hs
    have hlen : (rem.take n).length = n := by simp; omega
    have hrest : Chunking (rem.drop n) ns :=
      ⟨fun m hm => hb m (List.mem_cons_of_mem n hm), by simp; omega⟩
    simp only [Chunking.reads, List.map_cons, List.cons_append, hashLoop, if_neg (by omega : n ≠ 0)]
    rw [List.take_left' hlen]
    show hashLoop _ _ _ (Chunking.reads ns) = _
    rw [ih _ _ _ hrest]
    simp [Sha256.update, List.take_append_drop]

/-- The hex digest the loop's hasher finalizes to. -/
def binHashOf (hasher : Sha256) : BinHash := ⟨String.mk (hexEncode hasher.finalize)⟩

/-- `hash_binaries`: hash every binary, keyed by its file name. -/
def hashBinaries (files : BinPath → Option Bytes) (reads : BinPath → List ReadResult) :
    List BinPath → Except IoError (String → Option BinHash)
  | [] => .ok fun _ => none
  | binary :: rest =>
    match files binary with
    | none => .error ⟨.notFound, "No such file or directory"⟩
    | some content =>
      match hashLoop (List.replicate 8192 0) Sha256.new content (reads binary) with
      | .error e => .error e
      | .ok hasher =>
        match hashBinaries files reads rest with
        | .error e => .error e
        | .ok map => .ok (Function.update map binary.fileName (some (binHashOf hasher)))

/-- `hash_bin`; the outer `Except` is a panic. -/
def hashBin (files : BinPath → Option Bytes) (reads : BinPath → List ReadResult) (binPath : BinPath) :
    Except String (Except IoError BinHash) :=
  match files binPath with
  | none => .error "Can't find file"
  | some content => .ok ((hashLoop (List.replicate 8192 0) Sha256.new content (reads binPath)).map binHashOf)

/-- Over a valid chunking, the loop from a fresh hasher yields the content's hex digest. -/
theorem hashLoop_binHashOf {c : Bytes} {counts : List Nat} (h : Chunking c counts) :
    (hashLoop (List.replicate 8192 0) Sha256.new c (Chunking.reads counts)).map binHashOf =
      .ok ⟨String.mk (sha256Digest c)⟩ := by
  rw [hashLoop_chunks counts _ _ _ h]
  rfl

/-- When every binary opens and reads as some chunking, `hash_binaries`
succeeds and records each binary's hex digest under its file name. -/
theorem hashBinaries_ok (files : BinPath → Option Bytes) (reads : BinPath → List ReadResult) :
    ∀ binPaths : List BinPath, (binPaths.map (·.fileName)).Nodup →
      (∀ b ∈ binPaths, ∃ c counts, files b = some c ∧ Chunking c counts ∧ reads b = Chunking.reads counts) →
      ∃ m, hashBinaries files reads binPaths = .ok m ∧
        ∀ b ∈ binPaths, ∀ c, files b = some c → m b.fileName = some ⟨String.mk (sha256Digest c)⟩
  | [], _, _ => ⟨_, rfl, fun _ hb => nomatch hb⟩
  | b :: rest, hnames, hall => by
    obtain ⟨c, counts, hc, hch, hr⟩ := hall b (List.mem_cons_self b rest)
    have hnames' := List.nodup_cons.mp hnames
    obtain ⟨m, hm, hlook⟩ := hashBinaries_ok files reads rest hnames'.2
      fun b' hb' => hall b' (List.mem_cons_of_mem b hb')
    refine ⟨Function.update m b.fileName (some (binHashOf (Sha256.new.update c))),
      by simp only [hashBinaries, hc, hr, hashLoop_chunks counts _ _ _ hch, hm], ?_⟩
    intro b' hb' c' hc'
    rcases List.mem_cons.mp hb' with rfl | hb'
    · cases hc.symm.trans hc'
      rw [Function.update_same]
      rfl
    · have hne : b'.fileName ≠ b.fileName := fun he => hnames'.1 (List.mem_map.2 ⟨b', hb', he⟩)
      rw [Function.update_noteq hne]
      exact hlook b' hb' c' hc'

/-- For every content and every way `read` splits it, the issuer's
`hash_binaries` records under the binary's file name exactly what the
sidecar's `hash_bin` returns: the lowercase hex SHA-256 of the content.
The other binaries hashed alongside only need to be readable, with distinct
file names (they come from one directory listing). -/
theorem hashBinaries_eq_hashBin (files : BinPath → Option Bytes)
    (reads reads' : BinPath → List ReadResult) (binPaths : List BinPath)
    (hnames : (binPaths.map (·.fileName)).Nodup)
    (hall : ∀ b ∈ binPaths, ∃ c counts, files b = some c ∧ Chunking c counts ∧ reads b = Chunking.reads counts)
    {p : BinPath} (hp : p ∈ binPaths) {c : Bytes} (hc : files p = some c)
    {counts' : List Nat} (h' : Chunking c counts') (hr' : reads' p = Chunking.reads counts') :
    ∃ m, hashBinaries files reads binPaths = .ok m ∧
      m p.fileName = some ⟨String.mk (sha256Digest c)⟩ ∧
      hashBin files reads' p = .ok (.ok ⟨String.mk (sha256Digest c)⟩) := by
  obtain ⟨m, hm, hlook⟩ := hashBinaries_ok files reads binPaths hnames hall
  exact ⟨m, hm, hlook p hp c hc, by simp only [hashBin, hc, hr', hashLoop_binHashOf h']⟩

/-- One three-byte binary, read in one chunk by the issuer and in two by the sidecar. -/
theorem hashBinaries_eq_hashBin_three_bytes :
    ∃ m, hashBinaries (fun _ => some [1, 2, 3]) (fun _ => Chunking.reads [3]) [⟨"release", "svc_a"⟩] = .ok m ∧
      m "svc_a" = some ⟨String.mk (sha256Digest [1, 2, 3])⟩ ∧
      hashBin (fun _ => some [1, 2, 3]) (fun _ => Chunking.reads [1, 2]) ⟨"release", "svc_a"⟩ =
        .ok (.ok ⟨String.mk (sha256Digest [1, 2, 3])⟩) :=
  hashBinaries_eq_hashBin _ _ _ [⟨"release", "svc_a"⟩] (by decide)
    (fun _ hb => ⟨[1, 2, 3], [3], rfl, ⟨by decide, rfl⟩, by simp at hb; rfl⟩)
    (List.mem_singleton_self _) rfl (show Chunking [1, 2, 3] [1, 2] from ⟨by decide, rfl⟩) rfl

end Tahini.Issuer
