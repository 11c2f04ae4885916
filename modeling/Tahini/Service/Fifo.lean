import Tahini.Service.ClientMap
import Tahini.Core.Crypto

/-!
# The session-key pipe

After an attestation, the sidecar hands the session key to the service over
a FIFO. `FifoWriterHandle::write_session_key` (`tahini_attest/src/sidecar.rs`)
seals the key material under the key-encryption key (KEK) and writes one
line, `nonce_hex,cipher_hex,client_id\n`. In the service, the reader thread of
`client_map_state_constructor` (`hoodini-server/src/lib.rs`) calls
`FifoReadHandle::read_session_key` in a loop and inserts each pair into
`CLIENT_MAP`.

`read_session_key` wraps the pipe in a new `BufReader` on every call and
returns as soon as `read_line` has one line. A `read()` of a pipe returns
what the pipe holds, up to the `BufReader`'s 8 KiB, so it may return the
start of the next line as well. Those bytes sit in the `BufReader`'s buffer
and are dropped with it when `read_session_key` returns.

The model:

* `sessionWrites` lists the six `write` calls of one line; `decodeLine` is
  the parsing `read_session_key` does once it has a line, with every panic
  message it can raise. `decodeLine_sessionLine` is the round trip, and
  `sessionLine_roundTrip` adds the line's shape: 24 and 96 hex digits, the
  client id in decimal, two commas and one final newline; and that an
  enabled handle whose seal and `write` calls succeed writes exactly that
  line.
* `Reader.step` is one `read()` returning a chunk, and everything the thread
  does with it before its next `read()`.
* `Channel` adds the pipe. The sidecar's writes are serialized by the
  `Mutex` that `attest_binary` holds around `write_session_key`, so
  `pending` lists them in lock order; a `read` takes what the pipe holds, up
  to 8192 bytes. Reads and inserts of the one reader thread are modelled as
  one step each: no other thread reads the pipe, and handlers' takes of the
  map are `ClientMap`'s concern.

`Reader.run_lines` shows that the reader inserts every pair, in order, when
each `read()` ends within one line, however the lines are cut.
`readSessionKey_drops_buffered_line` is a schedule of two attestations whose
lines both reach the pipe before the reader's next `read()`. The second pair
is never inserted.

Mirroring notes: the text is modelled as `Char`s (every byte the writer
sends is ASCII, so `read_line`'s UTF-8 check always passes). The pipe never
reports end of file, because the sidecar keeps the write end open. Within
one `write_session_key` the read end neither opens nor closes; between two
`write` calls it can, which `Sidecar.Serve` models.
-/

namespace Tahini.Service

open Tahini.Core

/-! ## The writer end (`tahini_attest/src/sidecar.rs`) -/

/-- A 96-bit AES-GCM nonce, as `seal_in_place_append_tag` draws it. -/
structure AeadNonce where
  bytes : Bytes
  length_bytes : bytes.length = 12

/-- `FifoWriterHandle`: the KEK, and whether `enable_fifo` has set the write end. -/
structure FifoWriterHandle where
  kek : Bytes
  enabled : Bool

/-- `FifoWriterHandle::new(path)`: the handle and the KEK's hex for the
service's command line. `derived` is the SSKDF output of fresh random key
material and salt. -/
def FifoWriterHandle.new (derived : Bytes) : FifoWriterHandle × List Char :=
  (⟨derived, false⟩, hexEncode derived)

/-- `enable_fifo`: the write end is opened and stored. -/
def FifoWriterHandle.enableFifo (h : FifoWriterHandle) : FifoWriterHandle := { h with enabled := true }

/-- The inputs of one `write_session_key` call: the nonce its seal draws, the
key material and the client. -/
structure SessionWrite where
  nonce : AeadNonce
  keyMaterial : Bytes
  clientId : ClientId

/-- The `write` calls of `write!(file, "{},{},{}\n", nonce_hex, cipher_hex,
client_id)` on an unbuffered `File`: one per argument, one per nonempty
literal piece. -/
def sessionWrites (C : Crypto) (kek : Bytes) (w : SessionWrite) : List (List Char) :=
  [hexEncode w.nonce.bytes, [','], hexEncode (C.sealInPlaceAppendTag kek w.nonce.bytes w.keyMaterial),
    [','], decimal w.clientId.id.toNat, ['\n']]

/-- `write_session_key(key_material, client_id)`. The seal comes first:
`sealed` is whether aws-lc's `seal_in_place_append_tag` succeeds, and its
failure is the function's `Err(())`. The handle must hold the write end.
Then `write!` makes the line's `write` calls, which need a read end of the
FIFO open (`readEnd`): without one the first `write(2)` fails with `EPIPE`
(Rust ignores `SIGPIPE`), before a byte is written, and
`.expect("Couldn't write to FIFO")` panics. The outer `Except` is a panic;
`.ok (.ok writes)` lists the `write` calls made. -/
def FifoWriterHandle.writeSessionKey (C : Crypto) (h : FifoWriterHandle) (nonce : AeadNonce)
    (sealed readEnd : Bool) (keyMaterial : Bytes) (clientId : ClientId) :
    Except String (Except Unit (List (List Char))) :=
  if sealed then
    if h.enabled then
      if readEnd then .ok (.ok (sessionWrites C h.kek ⟨nonce, keyMaterial, clientId⟩))
      else .error "Couldn't write to FIFO"
    else .error "FIFO was not enabled yet"
  else .ok (.error ())

/-- The line one call leaves in the pipe. -/
def sessionLine (C : Crypto) (kek : Bytes) (w : SessionWrite) : List Char :=
  (sessionWrites C kek w).flatten

/-! ## The reader end (`hoodini-server/src/lib.rs`) -/

/-- `FifoReadHandle`: the KEK the service received on its command line. -/
structure FifoReadHandle where
  kek : Bytes

/-- `FifoReadHandle::new(fifo_path, hex_kek)`, past opening the pipe. -/
def FifoReadHandle.new (hexKek : List Char) : Except String FifoReadHandle :=
  match hexDecode hexKek with
  | none => .error "Malformed kek received from command line"
  | some kekBytes =>
    if kekBytes.length = 32 then .ok ⟨kekBytes⟩
    else .error "Couldn't generate AES KEK key from material"

/-- `hex::decode_to_slice(s, &mut [0u8; n])`: exactly `n` bytes of hex. -/
def decodeToSlice (n : Nat) (s : List Char) : Option Bytes :=
  match hexDecode s with
  | some bs => if bs.length = n then some bs else none
  | none => none

/-- `str::trim_end_matches("\n")`. -/
def trimEndMatches (s : List Char) : List Char := (s.reverse.dropWhile (· == '\n')).reverse

/-- The sign `from_str_radix` accepts on an unsigned type: a `+` followed by
at least one more character. -/
def stripPlus : List Char → List Char
  | '+' :: d :: ds => d :: ds
  | s => s

/-- `usize::from_str_radix(s, 10)` on a 64-bit target. -/
def fromStrRadix (s : List Char) : Option UInt64 :=
  let digits := stripPlus s
  if digits ≠ [] ∧ digits.all isDigit ∧ digitsValue digits < 2 ^ 64 then
    some (UInt64.ofNat (digitsValue digits))
  else none

/-- The body of `read_session_key` once `read_line` has returned a nonempty
line: split on commas, decode the nonce and the cipher, open the cipher under
the KEK, build the AES-256 key (32 bytes), parse the client id. -/
def FifoReadHandle.decodeLine (C : Crypto) (h : FifoReadHandle) (line : List Char) :
    Except String (ClientId × Bytes) :=
  match line.splitOn ',' with
  | [nonceHex, cipherHex, clientId] =>
    match decodeToSlice 12 nonceHex with
    | none => .error "Malformed nonce"
    | some nonce =>
      match hexDecode cipherHex with
      | none => .error "Cipher hex malformed"
      | some cipher =>
        match C.openInPlace h.kek nonce cipher with
        | none => .error "Couldn't decrypt cipher"
        | some keyMaterial =>
          if keyMaterial.length ≠ 32 then
            .error "Couldn't generate session key from derived key material"
          else match fromStrRadix (trimEndMatches clientId) with
            | none => .error "Client ID malformed"
            | some id => .ok (⟨id⟩, keyMaterial)
  | _ => .error "Line received from FIFO is malformed"

/-- `read_until(b'\n', buf)` over what one `fill_buf` returned: the bytes up
to and including the first newline, and what follows it, if there is one. -/
def readUntil : List Char → List Char × Option (List Char)
  | [] => ([], none)
  | c :: cs =>
    if c = '\n' then (['\n'], some cs)
    else let r := readUntil cs; (c :: r.1, r.2)

/-- The reader thread between two `read()` calls: the partial line `read_line`
has collected, and `CLIENT_MAP`. -/
structure Reader where
  buf : List Char
  ingress : Ingress

/-- One `read()` returning `chunk`, and all the thread does before its next
`read()`. Without a newline, the bytes join the line. With one, the line is
complete: `read_session_key` decodes it and returns, dropping its
`BufReader` and with it whatever `chunk` held past the newline, and the loop
inserts the pair. A malformed line panics the thread. -/
def Reader.step (C : Crypto) (h : FifoReadHandle) (r : Reader) (chunk : List Char) : Reader :=
  match readUntil chunk with
  | (part, none) => { r with buf := r.buf ++ part }
  | (part, some _) =>
    match h.decodeLine C (r.buf ++ part) with
    | .ok (clientId, key) => ⟨[], r.ingress.insert clientId key⟩
    | .error _ => ⟨[], { r.ingress with readerAlive := false }⟩

/-- The reader over a sequence of `read()` results. -/
def Reader.run (C : Crypto) (h : FifoReadHandle) (r : Reader) (chunks : List (List Char)) : Reader :=
  chunks.foldl (Reader.step C h) r

/-- The pipe between the sidecar and one service. -/
structure Channel where
  /-- The sidecar's `write` calls not yet made, in the order they take the lock. -/
  pending : List (List Char)
  /-- Bytes written and not yet read. -/
  pipe : List Char
  reader : Reader

/-- A step of the sidecar or of the reader thread. -/
inductive ChannelEvent where
  | write
  | read

/-- The pipe when the sidecar is about to make `writes`, with nothing read
yet and the service's map empty. -/
def Channel.ofWrites (writes : List (List Char)) : Channel := ⟨writes, [], ⟨[], Ingress.init⟩⟩

/-- One step. A `read()` blocks on an empty pipe and a dead thread reads no
more; otherwise it takes what the pipe holds, up to the 8 KiB buffer. -/
def Channel.step (C : Crypto) (h : FifoReadHandle) (s : Channel) : ChannelEvent → Channel
  | .write =>
    match s.pending with
    | [] => s
    | w :: ws => { s with pending := ws, pipe := s.pipe ++ w }
  | .read =>
    if s.pipe = [] ∨ s.reader.ingress.readerAlive = false then s
    else { s with pipe := s.pipe.drop 8192, reader := s.reader.step C h (s.pipe.take 8192) }

/-- A schedule. -/
def Channel.run (C : Crypto) (h : FifoReadHandle) (s : Channel) (events : List ChannelEvent) : Channel :=
  events.foldl (Channel.step C h) s

/-! ## The line round trip -/

/-- A line is its three fields joined by commas, the last ending in a newline. -/
theorem sessionLine_eq (C : Crypto) (kek : Bytes) (w : SessionWrite) :
    sessionLine C kek w = [','].intercalate [hexEncode w.nonce.bytes,
      hexEncode (C.sealInPlaceAppendTag kek w.nonce.bytes w.keyMaterial),
      decimal w.clientId.id.toNat ++ ['\n']] := by
  simp [sessionLine, sessionWrites, List.intercalate]

/-- A line holds one newline, at its end. -/
theorem sessionLine_newline (C : Crypto) (kek : Bytes) (w : SessionWrite) :
    ∃ body, sessionLine C kek w = body ++ ['\n'] ∧ '\n' ∉ body := by
  refine ⟨hexEncode w.nonce.bytes ++ ',' :: hexEncode (C.sealInPlaceAppendTag kek w.nonce.bytes
    w.keyMaterial) ++ ',' :: decimal w.clientId.id.toNat, by simp [sessionLine, sessionWrites], ?_⟩
  simp [not_mem_hexEncode (show ∀ n, n < 16 → hexChar n ≠ '\n' by decide),
    not_mem_decimal (show isDigit '\n' = false by decide)]

/-- A line has no comma but its two separators. -/
theorem count_comma_sessionLine (C : Crypto) (kek : Bytes) (w : SessionWrite) :
    (sessionLine C kek w).count ',' = 2 := by
  have hcomma : ∀ bs, ',' ∉ hexEncode bs := not_mem_hexEncode (by decide)
  simp [sessionLine, sessionWrites, List.count_eq_zero_of_not_mem (hcomma _),
    List.count_eq_zero_of_not_mem (not_mem_decimal (show isDigit ',' = false by decide))]

theorem decodeToSlice_hexEncode (bs : Bytes) : decodeToSlice bs.length (hexEncode bs) = some bs := by
  simp [decodeToSlice, hexDecode_hexEncode]

theorem trimEndMatches_newline {s : List Char} (hs : s ≠ []) (hnl : '\n' ∉ s) :
    trimEndMatches (s ++ ['\n']) = s := by
  obtain ⟨t, c, rfl⟩ := List.eq_nil_or_concat s |>.resolve_left hs
  have hc : (c == '\n') = false := by simpa using fun h : c = '\n' => hnl (by simp [h])
  simp [trimEndMatches, List.dropWhile, hc]

theorem stripPlus_of_isDigit {c : Char} (hc : isDigit c = true) (cs : List Char) :
    stripPlus (c :: cs) = c :: cs := by
  have : c ≠ '+' := by rintro rfl; exact absurd hc (by decide)
  cases cs <;> simp [stripPlus, this]

/-- The client id `Display` writes parses back. -/
theorem fromStrRadix_decimal (x : UInt64) : fromStrRadix (decimal x.toNat) = some x := by
  obtain ⟨c, cs, he⟩ := List.exists_cons_of_ne_nil (decimal_ne_nil x.toNat)
  have hc : isDigit c = true := isDigit_of_mem_decimal (n := x.toNat) (by simp [he])
  have hx : x.toNat < 2 ^ 64 := x.toNat_lt_size
  simp only [fromStrRadix, he, stripPlus_of_isDigit hc]
  rw [← he, digitsValue_decimal, if_pos ⟨decimal_ne_nil _, List.all_eq_true.mpr
    fun _ h => isDigit_of_mem_decimal h, hx⟩]
  exact congrArg some (UInt64.toNat.inj (UInt64.toNat_ofNat_of_lt hx))

/-- The service decodes the KEK the sidecar put on its command line. -/
theorem FifoReadHandle.new_hexEncode {kek : Bytes} (hk : kek.length = 32) :
    FifoReadHandle.new (FifoWriterHandle.new kek).2 = .ok ⟨kek⟩ := by
  simp [FifoReadHandle.new, FifoWriterHandle.new, hexDecode_hexEncode, hk]

/-- What the sidecar writes, the reader decodes: the client and its key
material (a key of 32 bytes, as `derive_key_from_shares` makes). -/
theorem decodeLine_sessionLine (C : Crypto) (kek : Bytes) (w : SessionWrite)
    (hk : w.keyMaterial.length = 32) :
    FifoReadHandle.decodeLine C ⟨kek⟩ (sessionLine C kek w) = .ok (w.clientId, w.keyMaterial) := by
  have hsplit : (sessionLine C kek w).splitOn ',' = [hexEncode w.nonce.bytes,
      hexEncode (C.sealInPlaceAppendTag kek w.nonce.bytes w.keyMaterial),
      decimal w.clientId.id.toNat ++ ['\n']] := by
    rw [sessionLine_eq]
    refine List.splitOn_intercalate _ _ ?_ (List.cons_ne_nil _ _)
    simp [not_mem_hexEncode (show ∀ n, n < 16 → hexChar n ≠ ',' by decide),
      not_mem_decimal (show isDigit ',' = false by decide)]
  have hnonce := decodeToSlice_hexEncode w.nonce.bytes
  rw [w.nonce.length_bytes] at hnonce
  simp only [FifoReadHandle.decodeLine, hsplit, hnonce, hexDecode_hexEncode, C.open_seal, hk,
    ne_eq, not_true_eq_false, if_false,
    trimEndMatches_newline (decimal_ne_nil _) (not_mem_decimal (show isDigit '\n' = false by decide)),
    fromStrRadix_decimal]

/-- The line's shape and its reading together: a 24-digit nonce, a 96-digit
sealed key (32 bytes and the 16-byte tag), the client id in decimal and a
newline, with no comma but the two separators, and the reader gets the
client and the key back without reaching any of its panics. It is the line
`write_session_key` writes through an enabled handle under that KEK when
the seal and the `write` calls succeed. -/
theorem sessionLine_roundTrip (C : Crypto) (kek : Bytes) (w : SessionWrite)
    (hk : w.keyMaterial.length = 32) :
    ∃ nonceHex cipherHex, sessionLine C kek w =
        nonceHex ++ ',' :: cipherHex ++ ',' :: decimal w.clientId.id.toNat ++ ['\n'] ∧
      nonceHex.length = 24 ∧ cipherHex.length = 96 ∧
      (∀ c ∈ nonceHex ++ cipherHex, ∃ n, n < 16 ∧ c = hexChar n) ∧
      (sessionLine C kek w).count ',' = 2 ∧
      FifoReadHandle.decodeLine C ⟨kek⟩ (sessionLine C kek w) = .ok (w.clientId, w.keyMaterial) ∧
      ∀ h : FifoWriterHandle, h.kek = kek → h.enabled = true → ∃ writes,
        h.writeSessionKey C w.nonce true true w.keyMaterial w.clientId = .ok (.ok writes) ∧
        writes.flatten = sessionLine C kek w := by
  have hline : sessionLine C kek w = hexEncode w.nonce.bytes ++ ',' ::
      hexEncode (C.sealInPlaceAppendTag kek w.nonce.bytes w.keyMaterial) ++ ',' ::
      decimal w.clientId.id.toNat ++ ['\n'] := by
    simp [sessionLine, sessionWrites]
  refine ⟨_, _, hline, by simp [w.nonce.length_bytes], by simp [C.length_seal, hk],
    fun c hc => (List.mem_append.1 hc).elim mem_hexEncode mem_hexEncode, count_comma_sessionLine C kek w,
    decodeLine_sessionLine C kek w hk, ?_⟩
  rintro ⟨kek, en⟩ rfl rfl
  exact ⟨_, rfl, rfl⟩

theorem sessionLine_roundTrip_zeros :
    (List.replicate 32 0).length = 32 ∧
      ∃ nonceHex cipherHex, sessionLine Crypto.degenerate (List.replicate 32 7)
          ⟨⟨List.replicate 12 0, rfl⟩, List.replicate 32 0, ⟨42⟩⟩ =
          nonceHex ++ ',' :: cipherHex ++ ',' :: decimal (42 : UInt64).toNat ++ ['\n'] ∧
        nonceHex.length = 24 ∧ cipherHex.length = 96 ∧
        (∀ c ∈ nonceHex ++ cipherHex, ∃ n, n < 16 ∧ c = hexChar n) ∧
        (sessionLine Crypto.degenerate (List.replicate 32 7)
          ⟨⟨List.replicate 12 0, rfl⟩, List.replicate 32 0, ⟨42⟩⟩).count ',' = 2 ∧
        FifoReadHandle.decodeLine Crypto.degenerate ⟨List.replicate 32 7⟩
          (sessionLine Crypto.degenerate (List.replicate 32 7)
            ⟨⟨List.replicate 12 0, rfl⟩, List.replicate 32 0, ⟨42⟩⟩) =
          .ok (⟨42⟩, List.replicate 32 0) ∧
        ∀ h : FifoWriterHandle, h.kek = List.replicate 32 7 → h.enabled = true → ∃ writes,
          h.writeSessionKey Crypto.degenerate ⟨List.replicate 12 0, rfl⟩ true true (List.replicate 32 0) ⟨42⟩ =
            .ok (.ok writes) ∧
          writes.flatten = sessionLine Crypto.degenerate (List.replicate 32 7)
            ⟨⟨List.replicate 12 0, rfl⟩, List.replicate 32 0, ⟨42⟩⟩ :=
  ⟨rfl, sessionLine_roundTrip Crypto.degenerate _ ⟨⟨List.replicate 12 0, rfl⟩, List.replicate 32 0, ⟨42⟩⟩ rfl⟩

/-- With its nonce and cipher hex of fixed length, a line fits in 143 bytes. -/
theorem length_sessionLine (C : Crypto) (kek : Bytes) (w : SessionWrite)
    (hk : w.keyMaterial.length = 32) : (sessionLine C kek w).length ≤ 143 := by
  have hd : (decimal w.clientId.id.toNat).length ≤ 20 :=
    length_decimal_le 19 (lt_trans w.clientId.id.toNat_lt_size (by decide))
  simp only [sessionLine, sessionWrites, List.flatten, List.length_append, length_hexEncode,
    C.length_seal, hk, w.nonce.length_bytes, List.length_singleton, List.length_nil]
  omega

/-! ## What one `read()` does -/

theorem readUntil_of_not_mem {cs : List Char} (h : '\n' ∉ cs) : readUntil cs = (cs, none) := by
  induction cs with
  | nil => rfl
  | cons c cs ih =>
    have hc : c ≠ '\n' := fun e => h (e ▸ List.mem_cons_self _ _)
    simp [readUntil, hc, ih (fun m => h (List.mem_cons_of_mem _ m))]

theorem readUntil_newline {pre : List Char} (h : '\n' ∉ pre) (rest : List Char) :
    readUntil (pre ++ '\n' :: rest) = (pre ++ ['\n'], some rest) := by
  induction pre with
  | nil => simp [readUntil]
  | cons c cs ih =>
    have hc : c ≠ '\n' := fun e => h (e ▸ List.mem_cons_self _ _)
    simp [readUntil, hc, ih (fun m => h (List.mem_cons_of_mem _ m))]

/-- A chunk without a newline only extends the partial line. -/
theorem Reader.step_partial (C : Crypto) (h : FifoReadHandle) (r : Reader) {chunk : List Char}
    (hc : '\n' ∉ chunk) : r.step C h chunk = { r with buf := r.buf ++ chunk } := by
  simp [Reader.step, readUntil_of_not_mem hc]

/-- A chunk that completes a well-formed line inserts its pair and loses
whatever it held past the newline. -/
theorem Reader.step_line (C : Crypto) (h : FifoReadHandle) (r : Reader) {pre : List Char}
    (hpre : '\n' ∉ pre) (rest : List Char) {clientId : ClientId} {key : Bytes}
    (hd : h.decodeLine C (r.buf ++ pre ++ ['\n']) = .ok (clientId, key)) :
    r.step C h (pre ++ '\n' :: rest) = ⟨[], r.ingress.insert clientId key⟩ := by
  simp only [Reader.step, readUntil_newline hpre, ← List.append_assoc, hd]

theorem Reader.run_cons (C : Crypto) (h : FifoReadHandle) (r : Reader) (c : List Char)
    (cs : List (List Char)) : r.run C h (c :: cs) = (r.step C h c).run C h cs := rfl

theorem Reader.run_append (C : Crypto) (h : FifoReadHandle) (r : Reader) (a b : List (List Char)) :
    r.run C h (a ++ b) = (r.run C h a).run C h b := List.foldl_append _ _ _ _

/-- Delivering a line in pieces does what delivering it at once does: until
the newline arrives, each piece only extends the partial line. -/
theorem Reader.run_pieces (C : Crypto) (h : FifoReadHandle) (pieces : List (List Char)) :
    ∀ (r : Reader) (body : List Char), (∀ p ∈ pieces, p ≠ []) →
      pieces.flatten = body ++ ['\n'] → '\n' ∉ body →
      r.run C h pieces = r.step C h (body ++ ['\n']) := by
  induction pieces with
  | nil => intro r body _ hf; simp at hf
  | cons p ps ih =>
    intro r body hne hf hnl
    rcases List.eq_nil_or_concat ps.flatten with hps | ⟨t, x, ht⟩
    · have : ps = [] := List.flatten_eq_nil_iff.mp hps |> fun h' =>
        List.eq_nil_iff_forall_not_mem.mpr fun q hq => hne q (List.mem_cons_of_mem _ hq) (h' q hq)
      subst this
      simp only [List.flatten_cons, List.flatten_nil, List.append_nil] at hf
      simp [Reader.run, hf]
    · rw [List.concat_eq_append] at ht
      simp only [List.flatten_cons, ht, ← List.append_assoc] at hf
      obtain ⟨hbody, -⟩ := List.append_inj' hf rfl
      have hp : '\n' ∉ p := fun m => hnl (hbody ▸ List.mem_append_left _ m)
      have ht' : '\n' ∉ t := fun m => hnl (hbody ▸ List.mem_append_right _ m)
      have hx : x = '\n' := by simpa using (List.append_inj' hf rfl).2
      subst hx
      rw [Reader.run_cons, Reader.step_partial C h r hp,
        ih _ t (fun q hq => hne q (List.mem_cons_of_mem _ hq)) ht ht']
      subst hbody
      simp only [Reader.step, readUntil_newline ht', readUntil_newline hnl]
      simp only [List.append_assoc]

/-- One line, in whatever pieces it arrives, inserts its pair. -/
theorem Reader.run_sessionLine (C : Crypto) (kek : Bytes) (w : SessionWrite) (hk : w.keyMaterial.length = 32)
    (ps : List (List Char)) (ingress : Ingress) (hps : ps.flatten = sessionLine C kek w)
    (hne : ∀ p ∈ ps, p ≠ []) :
    Reader.run C ⟨kek⟩ ⟨[], ingress⟩ ps = ⟨[], ingress.insert w.clientId w.keyMaterial⟩ := by
  obtain ⟨body, hbody, hnl⟩ := sessionLine_newline C kek w
  rw [Reader.run_pieces C _ ps _ body hne (hps.trans hbody) hnl]
  exact Reader.step_line C _ _ hnl [] (by simpa [← hbody] using decodeLine_sessionLine C kek w hk)

/-- However each line is cut into `read()` results, as long as no `read()`
spans two lines, the reader inserts every pair the sidecar wrote, in the
order it wrote them. -/
theorem Reader.run_lines (C : Crypto) (kek : Bytes) (msgs : List SessionWrite)
    (hk : ∀ w ∈ msgs, w.keyMaterial.length = 32) :
    ∀ (cuts : List (List (List Char))) (ingress : Ingress),
      cuts.map List.flatten = msgs.map (sessionLine C kek) → (∀ ps ∈ cuts, ∀ p ∈ ps, p ≠ []) →
      Reader.run C ⟨kek⟩ ⟨[], ingress⟩ cuts.flatten =
        ⟨[], msgs.foldl (fun i w => i.insert w.clientId w.keyMaterial) ingress⟩ := by
  induction msgs with
  | nil => intro cuts ingress hc _; simp at hc; simp [hc, Reader.run]
  | cons w ws ih =>
    intro cuts ingress hc hne
    obtain ⟨ps, pss, rfl⟩ := List.exists_cons_of_length_eq_add_one
      (by simpa using congrArg List.length hc)
    simp only [List.map_cons, List.cons.injEq] at hc
    rw [List.flatten_cons, Reader.run_append, Reader.run_sessionLine C kek w (hk w (List.mem_cons_self _ _))
      ps ingress hc.1 (hne ps (List.mem_cons_self _ _)), List.foldl_cons]
    exact ih (fun v hv => hk v (List.mem_cons_of_mem _ hv)) pss _ hc.2
      (fun q hq => hne q (List.mem_cons_of_mem _ hq))

/-- A line delivered in two `read()`s. -/
theorem Reader.run_lines_split :
    let w : SessionWrite := ⟨⟨List.replicate 12 0, rfl⟩, List.replicate 32 0, ⟨5⟩⟩
    let line := sessionLine Crypto.degenerate [] w
    Reader.run Crypto.degenerate ⟨[]⟩ ⟨[], Ingress.init⟩ [line.take 10, line.drop 10] =
      ⟨[], [w].foldl (fun i w => i.insert w.clientId w.keyMaterial) Ingress.init⟩ :=
  Reader.run_lines Crypto.degenerate [] [⟨⟨List.replicate 12 0, rfl⟩, List.replicate 32 0, ⟨5⟩⟩]
    (by simp) [[_, _]] Ingress.init (by simp) (by decide)

/-! ## A `read()` that spans two lines -/

theorem Channel.run_cons (C : Crypto) (h : FifoReadHandle) (s : Channel) (e : ChannelEvent)
    (es : List ChannelEvent) : s.run C h (e :: es) = (s.step C h e).run C h es := rfl

theorem Channel.run_append (C : Crypto) (h : FifoReadHandle) (s : Channel) (a b : List ChannelEvent) :
    s.run C h (a ++ b) = (s.run C h a).run C h b := List.foldl_append _ _ _ _

/-- A live reader's `read()` of a nonempty pipe. -/
theorem Channel.step_read (C : Crypto) (h : FifoReadHandle) (s : Channel) (hp : s.pipe ≠ [])
    (ha : s.reader.ingress.readerAlive = true) :
    s.step C h .read = { s with pipe := s.pipe.drop 8192, reader := s.reader.step C h (s.pipe.take 8192) } := by
  simp [Channel.step, hp, ha]

@[simp] theorem length_sessionWrites (C : Crypto) (kek : Bytes) (w : SessionWrite) :
    (sessionWrites C kek w).length = 6 := rfl

/-- The sidecar's writes, made back to back, append their text to the pipe. -/
theorem Channel.run_writes (C : Crypto) (h : FifoReadHandle) (ws : List (List Char)) :
    ∀ s : Channel, s.pending = ws →
      s.run C h (List.replicate ws.length .write) = { s with pending := [], pipe := s.pipe ++ ws.flatten } := by
  induction ws with
  | nil => intro s hs; cases s; cases hs; simp [Channel.run]
  | cons w ws ih =>
    intro s hs
    rw [List.length_cons, List.replicate_succ, Channel.run_cons]
    rw [show s.step C h .write = { s with pending := ws, pipe := s.pipe ++ w } by simp [Channel.step, hs]]
    rw [ih _ rfl]
    simp [List.append_assoc]

/-- Once every write is made and every byte read, nothing changes any more. -/
theorem Channel.run_idle (C : Crypto) (h : FifoReadHandle) (events : List ChannelEvent) :
    ∀ s : Channel, s.pending = [] → s.pipe = [] → s.run C h events = s := by
  induction events with
  | nil => intro s _ _; rfl
  | cons e es ih =>
    intro s hw hp
    have : s.step C h e = s := by cases e <;> simp [Channel.step, hw, hp]
    rw [Channel.run_cons, this, ih s hw hp]

theorem readSessionKey_drops_buffered_line (C : Crypto) (kek : Bytes) (w₁ w₂ : SessionWrite)
    (hk₁ : w₁.keyMaterial.length = 32) (hk₂ : w₂.keyMaterial.length = 32)
    (hid : w₁.clientId ≠ w₂.clientId) :
    let s := (Channel.ofWrites (sessionWrites C kek w₁ ++ sessionWrites C kek w₂)).run C ⟨kek⟩
      (List.replicate 12 .write ++ [.read])
    s.reader.ingress.keys w₁.clientId = some w₁.keyMaterial ∧
      ∀ events, (s.run C ⟨kek⟩ events).reader.ingress.keys w₂.clientId = none := by
  intro s
  obtain ⟨body, hbody, hnl⟩ := sessionLine_newline C kek w₁
  have hlen : (sessionLine C kek w₁ ++ sessionLine C kek w₂).length ≤ 8192 := by
    have := length_sessionLine C kek w₁ hk₁
    have := length_sessionLine C kek w₂ hk₂
    simp only [List.length_append]; omega
  have hw : (Channel.ofWrites (sessionWrites C kek w₁ ++ sessionWrites C kek w₂)).run C ⟨kek⟩
      (List.replicate 12 .write) = ⟨[], sessionLine C kek w₁ ++ sessionLine C kek w₂, ⟨[], Ingress.init⟩⟩ := by
    simpa [Channel.ofWrites, sessionLine] using
      Channel.run_writes C ⟨kek⟩ _ (Channel.ofWrites (sessionWrites C kek w₁ ++ sessionWrites C kek w₂)) rfl
  have hs : s = ⟨[], [], ⟨[], Ingress.init.insert w₁.clientId w₁.keyMaterial⟩⟩ := by
    rw [show s = _ from Channel.run_append _ _ _ _ _, hw, Channel.run_cons,
      Channel.step_read _ _ _ (by simp [hbody]) rfl]
    rw [List.take_of_length_le hlen, List.drop_eq_nil_of_le hlen, hbody, List.append_assoc,
      List.singleton_append, Reader.step_line C _ _ hnl _ (by simpa [← hbody] using decodeLine_sessionLine C kek w₁ hk₁)]
    rfl
  rw [hs]
  refine ⟨by simp [Ingress.insert, Ingress.init], fun events => ?_⟩
  rw [Channel.run_idle C _ events _ rfl rfl]
  simp [Ingress.insert, Ingress.init, Function.update_noteq (Ne.symm hid)]

theorem readSessionKey_drops_buffered_line_ids :
    let w₁ : SessionWrite := ⟨⟨List.replicate 12 0, rfl⟩, List.replicate 32 0, ⟨1⟩⟩
    let w₂ : SessionWrite := ⟨⟨List.replicate 12 0, rfl⟩, List.replicate 32 0, ⟨2⟩⟩
    let s := (Channel.ofWrites (sessionWrites Crypto.degenerate [] w₁ ++ sessionWrites Crypto.degenerate [] w₂)).run
      Crypto.degenerate ⟨[]⟩ (List.replicate 12 .write ++ [.read])
    s.reader.ingress.keys w₁.clientId = some w₁.keyMaterial ∧
      ∀ events, (s.run Crypto.degenerate ⟨[]⟩ events).reader.ingress.keys w₂.clientId = none :=
  readSessionKey_drops_buffered_line Crypto.degenerate [] ⟨⟨List.replicate 12 0, rfl⟩, List.replicate 32 0, ⟨1⟩⟩
    ⟨⟨List.replicate 12 0, rfl⟩, List.replicate 32 0, ⟨2⟩⟩ rfl rfl (by decide)

end Tahini.Service
