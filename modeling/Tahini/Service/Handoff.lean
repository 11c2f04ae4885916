import Tahini.Service.Fifo

/-!
# Handing session keys to the service, across every interleaving

Three parties touch a service's session keys: the sidecar, which writes one
line per attestation into the FIFO (`write_session_key`); the service's
reader thread, which reads the pipe and inserts each decoded pair into
`CLIENT_MAP`; and the service's RPC handlers, which take their entry with
`get_key_for_client`. `Channel.handoffRun` runs the three over any schedule
(`HandoffEvent`). The writes come in lock order, each `read()` takes what the
pipe holds when it runs, and every insert and take holds the map's write lock.

`readSessionKey_drops_buffered_line` shows that the reader can lose a line:
it drops whatever a `read()` returned past a newline. After such a drop, the
reader's next line can begin in the middle of a line the sidecar wrote. A
`write` that finds no read end also leaves a line cut short: the sidecar's
task panics there and the next attestation's line follows the cut one. The
main result here, `handoffRun_keys_written`, shows that this never yields a
wrong key. Over every schedule, every key a handler obtains, and every entry
the map holds, is the key material the sidecar wrote for that very client id.

The proof is an invariant kept by every step (`HandoffInv`). The text the
reader will still see is a tail of the sidecar's stream (`sessionStream`),
made of what each attestation wrote (`Segment`: its whole line, or the
`write` calls before the one that failed). The lemma the invariant rests on
is `decodeLine_of_drop_sessionStream`: wherever in the stream a line starts,
the line either is a whole written line or does not decode. A line that
starts inside a written line's nonce has too short a nonce, one that starts
past its first comma has too few fields (`decodeLine_drop_sessionLine`), and
one that runs from a cut line into the next has too long a nonce or too many
fields (`decodeLine_append_sessionLine`).
-/

namespace Tahini.Service

open Tahini.Core

/-! ## Lines that are not a written line -/

/-- `hex::decode` reads two digits per byte. -/
theorem length_of_hexDecode : ∀ {s : List Char} {bs : Bytes}, hexDecode s = some bs →
    s.length = 2 * bs.length
  | [], _, h => by cases h; rfl
  | [_], _, h => by cases h
  | a :: b :: rest, bs, h => by
    simp only [hexDecode, Option.bind_eq_bind, Option.bind_eq_some, Option.pure_def,
      Option.some.injEq] at h
    obtain ⟨_, -, _, -, tl, htl, rfl⟩ := h
    simp only [List.length_cons, length_of_hexDecode htl]
    omega

theorem length_of_decodeToSlice {n : Nat} {s : List Char} {bs : Bytes}
    (h : decodeToSlice n s = some bs) : s.length = 2 * n := by
  unfold decodeToSlice at h
  split at h
  · rename_i bs' hbs
    split_ifs at h with hl
    rw [length_of_hexDecode hbs, hl]
  · cases h

/-- Splitting on commas gives one field more than there are commas. -/
theorem length_splitOn_comma (l : List Char) : (l.splitOn ',').length = l.count ',' + 1 := by
  induction l with
  | nil => rfl
  | cons c l ih =>
    by_cases hc : c = ','
    · subst hc
      simp only [List.splitOn] at ih ⊢
      simp [ih]
    · simp only [List.splitOn] at ih ⊢
      simp [List.splitOnP_cons, hc, ih, List.count_cons]

/-- A line that decodes has three fields, so exactly two commas, and 24 hex
digits before its first comma. -/
theorem decodeLine_ok_fields {C : Crypto} {h : FifoReadHandle} {line : List Char}
    {p : ClientId × Bytes} (hd : h.decodeLine C line = .ok p) :
    line.count ',' = 2 ∧ ∀ a rest, ',' ∉ a → line = a ++ ',' :: rest → a.length = 24 := by
  unfold FifoReadHandle.decodeLine at hd
  split at hd
  · rename_i nonceHex _ _ hsplit
    have hlen := length_splitOn_comma line
    refine ⟨by rw [hsplit] at hlen; simp at hlen; omega, fun a rest ha hl => ?_⟩
    rw [hl, List.splitOn, List.splitOnP_first (· == ',') a
      (fun x hx he => ha (beq_iff_eq.1 he ▸ hx)) ',' rfl, List.cons.injEq] at hsplit
    rw [hsplit.1]
    split at hd
    · cases hd
    · exact length_of_decodeToSlice ‹_›
  · cases hd

/-- A session line: the nonce's 24 digits, a comma, and the rest. -/
theorem sessionLine_nonce (C : Crypto) (kek : Bytes) (w : SessionWrite) :
    sessionLine C kek w = hexEncode w.nonce.bytes ++ ',' ::
      (hexEncode (C.sealInPlaceAppendTag kek w.nonce.bytes w.keyMaterial) ++ ',' ::
        decimal w.clientId.id.toNat ++ ['\n']) := by
  simp [sessionLine, sessionWrites]

/-- A line the reader starts after the start of a session line does not
decode: inside the nonce its nonce is too short, and past the first comma
it has fewer than three fields. -/
theorem decodeLine_drop_sessionLine (C : Crypto) (kek : Bytes) (w : SessionWrite) (h : FifoReadHandle)
    {n : Nat} (hn : 0 < n) (p : ClientId × Bytes) :
    h.decodeLine C ((sessionLine C kek w).drop n) ≠ .ok p := by
  intro hd
  obtain ⟨hcount, hfirst⟩ := decodeLine_ok_fields hd
  have hN : (hexEncode w.nonce.bytes).length = 24 := by simp [w.nonce.length_bytes]
  have hcomma : ∀ bs, ',' ∉ hexEncode bs := not_mem_hexEncode (by decide)
  have hline := sessionLine_nonce C kek w
  rcases Nat.lt_or_ge n 25 with hlt | hge
  · -- the line starts inside the nonce
    have := hfirst _ _ (fun hm => hcomma _ (List.mem_of_mem_drop hm))
      (by rw [hline, List.drop_append_of_le_length (by omega)])
    rw [List.length_drop, hN] at this
    omega
  · -- the line starts past the first comma, which leaves one comma at most
    obtain ⟨R, hR⟩ : ∃ R, sessionLine C kek w = hexEncode w.nonce.bytes ++ ',' :: R := ⟨_, hline⟩
    have hRc : R.count ',' = 1 := by
      have := count_comma_sessionLine C kek w
      rw [hR, List.count_append, List.count_cons_self, List.count_eq_zero_of_not_mem (hcomma _)] at this
      omega
    have h25 : (sessionLine C kek w).drop 25 = R := by
      rw [hR, List.drop_append_eq_append_drop, List.drop_eq_nil_of_le (by omega), hN]; rfl
    have hle := (List.drop_sublist_drop_left (sessionLine C kek w) hge).count_le ','
    rw [h25, hRc] at hle
    omega

/-- A line the reader completes with a whole session line behind text of its
own does not decode: a comma in that text makes too many fields, and
without one the nonce field is too long. -/
theorem decodeLine_append_sessionLine (C : Crypto) (kek : Bytes) (w : SessionWrite) (h : FifoReadHandle)
    {held : List Char} (hne : held ≠ []) (p : ClientId × Bytes) :
    h.decodeLine C (held ++ sessionLine C kek w) ≠ .ok p := by
  intro hd
  obtain ⟨hcount, hfirst⟩ := decodeLine_ok_fields hd
  by_cases hc : ',' ∈ held
  · rw [List.count_append, count_comma_sessionLine] at hcount
    have := List.count_pos_iff.2 hc
    omega
  · obtain ⟨R, hR⟩ : ∃ R, sessionLine C kek w = hexEncode w.nonce.bytes ++ ',' :: R :=
      ⟨_, sessionLine_nonce C kek w⟩
    have := hfirst (held ++ hexEncode w.nonce.bytes) R
      (by simp [hc, not_mem_hexEncode (show ∀ n, n < 16 → hexChar n ≠ ',' by decide)])
      (by rw [hR, List.append_assoc])
    simp only [List.length_append, length_hexEncode, w.nonce.length_bytes] at this
    exact hne (List.length_eq_zero.1 (by omega))

/-- A line the reader completes at the newline that ends a session line
decodes only if it is the whole line, read from its start with nothing
held. -/
theorem decodeLine_held_drop_sessionLine (C : Crypto) (kek : Bytes) (w : SessionWrite) (h : FifoReadHandle)
    {held : List Char} {n : Nat} (hn : held = [] ∨ n = 0) {p : ClientId × Bytes}
    (hd : h.decodeLine C (held ++ (sessionLine C kek w).drop n) = .ok p) : held = [] ∧ n = 0 := by
  rcases eq_or_ne held [] with rfl | hh
  · exact ⟨rfl, Nat.eq_zero_of_not_pos fun hn0 =>
      decodeLine_drop_sessionLine C kek w h hn0 p (by simpa using hd)⟩
  · obtain rfl := hn.resolve_left hh
    exact absurd (by simpa using hd) (decodeLine_append_sessionLine C kek w h hh p)

/-- The three fields of a written line. -/
theorem splitOn_sessionLine (C : Crypto) (kek : Bytes) (w : SessionWrite) :
    (sessionLine C kek w).splitOn ',' = [hexEncode w.nonce.bytes,
      hexEncode (C.sealInPlaceAppendTag kek w.nonce.bytes w.keyMaterial),
      decimal w.clientId.id.toNat ++ ['\n']] := by
  rw [sessionLine_eq]
  refine List.splitOn_intercalate _ _ ?_ (List.cons_ne_nil _ _)
  simp [not_mem_hexEncode (show ∀ n, n < 16 → hexChar n ≠ ',' by decide),
    not_mem_decimal (show isDigit ',' = false by decide)]

/-- A whole written line decodes to nothing but its own pair (key material
that is not 32 bytes makes the reader panic instead). -/
theorem decodeLine_sessionLine_of_ok {C : Crypto} {kek : Bytes} {w : SessionWrite}
    {p : ClientId × Bytes} (h : FifoReadHandle.decodeLine C ⟨kek⟩ (sessionLine C kek w) = .ok p) :
    p = (w.clientId, w.keyMaterial) := by
  have hnonce := decodeToSlice_hexEncode w.nonce.bytes
  rw [w.nonce.length_bytes] at hnonce
  simp only [FifoReadHandle.decodeLine, splitOn_sessionLine, hnonce, hexDecode_hexEncode, C.open_seal,
    trimEndMatches_newline (decimal_ne_nil _) (not_mem_decimal (show isDigit '\n' = false by decide)),
    fromStrRadix_decimal] at h
  split_ifs at h
  exact (Except.ok.inj h).symm

/-! ## What each attestation wrote -/

/-- What one attestation put on a service's pipe: the first `made` of its
line's `write` calls. That is all six, unless one of them found no read end;
then its task panicked there and the rest of its line never comes. -/
structure Segment where
  write : SessionWrite
  made : Nat

namespace Segment

/-- An attestation whose `write` calls all went through. -/
def ofWrite (w : SessionWrite) : Segment := ⟨w, 6⟩

/-- The `write` calls the attestation made. -/
def writes (C : Crypto) (kek : Bytes) (g : Segment) : List (List Char) :=
  (sessionWrites C kek g.write).take g.made

/-- The text they put on the pipe. -/
def text (C : Crypto) (kek : Bytes) (g : Segment) : List Char := (g.writes C kek).flatten

/-- The attestation wrote its whole line. -/
def Whole (g : Segment) : Prop := 6 ≤ g.made

variable {C : Crypto} {kek : Bytes} {g : Segment}

theorem writes_ofWrite (w : SessionWrite) : (ofWrite w).writes C kek = sessionWrites C kek w :=
  List.take_of_length_le (by simp [ofWrite])

theorem text_of_whole (hg : g.Whole) : g.text C kek = sessionLine C kek g.write := by
  rw [text, writes, List.take_of_length_le (by simpa using hg), sessionLine]

/-- A cut line has no newline: the newline is its last `write` call. -/
theorem newline_not_mem_text (hg : ¬ g.Whole) : '\n' ∉ g.text C kek := by
  intro hm
  obtain ⟨piece, hp, hc⟩ := List.mem_flatten.1 hm
  have hp5 := List.take_subset_take_left _ (show g.made ≤ 5 by unfold Whole at hg; omega) hp
  simp only [sessionWrites, List.take_succ_cons, List.take_zero, List.mem_cons, List.mem_singleton,
    List.not_mem_nil, or_false] at hp5
  rcases hp5 with rfl | rfl | rfl | rfl | rfl
  · exact not_mem_hexEncode (by decide) _ hc
  · simp at hc
  · exact not_mem_hexEncode (by decide) _ hc
  · simp at hc
  · exact not_mem_decimal (show isDigit '\n' = false by decide) hc

end Segment

/-! ## Lines that start anywhere in the stream -/

/-- The text the sidecar writes into one service's pipe, for the
attestations `segs` in the order they take the lock. -/
def sessionStream (C : Crypto) (kek : Bytes) (segs : List Segment) : List Char :=
  (segs.map (Segment.text C kek)).flatten

/-- Where the text of attestation `i` starts in the stream. -/
def lineStart (C : Crypto) (kek : Bytes) (segs : List Segment) (i : Nat) : Nat :=
  (sessionStream C kek (segs.take i)).length

/-- Some attestation of `segs` wrote its whole line, with the key material
`key` for `clientId`. -/
def SessionWritten (segs : List Segment) (clientId : ClientId) (key : Bytes) : Prop :=
  ∃ g ∈ segs, g.Whole ∧ g.write.clientId = clientId ∧ g.write.keyMaterial = key

theorem lineStart_cons_succ (C : Crypto) (kek : Bytes) (g : Segment) (gs : List Segment) (i : Nat) :
    lineStart C kek (g :: gs) (i + 1) = (g.text C kek).length + lineStart C kek gs i := by
  simp [lineStart, sessionStream]

/-- Each attestation's text ends where the next one's starts; a whole line
is not empty. -/
theorem lineStart_succ {C : Crypto} {kek : Bytes} {segs : List Segment} {i : Nat} {g : Segment}
    (h : segs[i]? = some g) :
    lineStart C kek segs (i + 1) = lineStart C kek segs i + (g.text C kek).length ∧
      (g.Whole → lineStart C kek segs i < lineStart C kek segs (i + 1)) := by
  have hs : lineStart C kek segs (i + 1) = lineStart C kek segs i + (g.text C kek).length := by
    simp [lineStart, sessionStream, List.take_succ, h]
  refine ⟨hs, fun hg => ?_⟩
  obtain ⟨body, hbody, -⟩ := sessionLine_newline C kek g.write
  rw [hs, Segment.text_of_whole hg, hbody, List.length_append]
  simp

/-- Two lines that end at their first newline are the same. -/
theorem eq_of_first_newline {a b x y : List Char} (ha : '\n' ∉ a) (hb : '\n' ∉ b)
    (h : a ++ '\n' :: x = b ++ '\n' :: y) : a = b := by
  have := congrArg readUntil h
  rw [readUntil_newline ha, readUntil_newline hb] at this
  simpa using (Prod.mk.inj this).1

/-- Wherever in the sidecar's stream the reader starts a line, behind text
`held` of its own (nothing, or a cut line that it continues at the start of
the next attestation's text), the line it completes decodes only if it is a
whole written line, starting where that line starts, and then to that
line's pair. -/
theorem decodeLine_of_drop_sessionStream_held (C : Crypto) (kek : Bytes) :
    ∀ (segs : List Segment) (n : Nat) {held pre rest : List Char} {p : ClientId × Bytes},
      '\n' ∉ held → (held = [] ∨ n = 0) → '\n' ∉ pre →
      held ++ (sessionStream C kek segs).drop n = pre ++ '\n' :: rest →
      FifoReadHandle.decodeLine C ⟨kek⟩ (pre ++ ['\n']) = .ok p →
      held = [] ∧ ∃ i g, segs[i]? = some g ∧ g.Whole ∧ n = lineStart C kek segs i ∧
        pre ++ ['\n'] = sessionLine C kek g.write ∧ p = (g.write.clientId, g.write.keyMaterial)
  | [], n, held, pre, rest, p, hheld, _, _, hs, _ => by
    simp only [sessionStream, List.map_nil, List.flatten_nil, List.drop_nil, List.append_nil] at hs
    exact absurd (by rw [hs]; simp) hheld
  | g :: gs, n, held, pre, rest, p, hheld, hn, hpre, hs, hd => by
    rw [sessionStream, List.map_cons, List.flatten_cons, List.drop_append_eq_append_drop] at hs
    rcases Nat.lt_or_ge n (g.text C kek).length with hlt | hge
    · rw [Nat.sub_eq_zero_of_le hlt.le, List.drop_zero] at hs
      by_cases hg : g.Whole
      · -- the line ends at the newline that ends `g`'s line
        obtain ⟨body, hbody, hnl⟩ := sessionLine_newline C kek g.write
        rw [Segment.text_of_whole hg] at hs hlt
        have hdrop : (sessionLine C kek g.write).drop n = body.drop n ++ ['\n'] := by
          rw [hbody] at hlt ⊢
          rw [List.drop_append_of_le_length (by simp at hlt; omega)]
        have hb : '\n' ∉ body.drop n := fun h => hnl (List.mem_of_mem_drop h)
        have hpre' : held ++ body.drop n = pre :=
          eq_of_first_newline (by simp [hheld, hb]) hpre (by rw [hdrop] at hs; simpa using hs)
        have hline : pre ++ ['\n'] = held ++ (sessionLine C kek g.write).drop n := by
          rw [hdrop, ← hpre']; simp
        rw [hline] at hd ⊢
        obtain ⟨rfl, rfl⟩ := decodeLine_held_drop_sessionLine C kek g.write _ hn hd
        simp only [List.drop_zero, List.nil_append] at hd
        exact ⟨rfl, 0, g, by simp, hg, rfl, by simp, decodeLine_sessionLine_of_ok hd⟩
      · -- a cut line: the reader carries on into the next text with more held
        have hb : '\n' ∉ (g.text C kek).drop n :=
          fun h => Segment.newline_not_mem_text hg (List.mem_of_mem_drop h)
        obtain ⟨hnil, -⟩ := @decodeLine_of_drop_sessionStream_held C kek gs 0
          (held ++ (g.text C kek).drop n) pre rest p (by simp [hheld, hb]) (.inr rfl) hpre
          (by simpa [sessionStream] using hs) hd
        have := congrArg List.length hnil
        simp only [List.length_append, List.length_drop, List.length_nil] at this
        omega
    · rw [List.drop_eq_nil_of_le hge, List.nil_append] at hs
      obtain ⟨rfl, i, g', hi, hg', hstart, hl, hp⟩ := decodeLine_of_drop_sessionStream_held C kek gs
        (n - (g.text C kek).length) hheld (hn.imp id fun h => by omega) hpre hs hd
      refine ⟨rfl, i + 1, g', by simpa using hi, hg', ?_, hl, hp⟩
      rw [lineStart_cons_succ]
      omega

/-- Wherever in the sidecar's stream the reader starts a line, the line it
completes decodes only if it is a whole written line, starting where that
line starts, and then to that line's pair. -/
theorem decodeLine_of_drop_sessionStream (C : Crypto) (kek : Bytes) (segs : List Segment) (n : Nat)
    {pre rest : List Char} {p : ClientId × Bytes} (hpre : '\n' ∉ pre)
    (hs : (sessionStream C kek segs).drop n = pre ++ '\n' :: rest)
    (hd : FifoReadHandle.decodeLine C ⟨kek⟩ (pre ++ ['\n']) = .ok p) :
    ∃ i g, segs[i]? = some g ∧ g.Whole ∧ n = lineStart C kek segs i ∧
      pre ++ ['\n'] = sessionLine C kek g.write ∧ p = (g.write.clientId, g.write.keyMaterial) :=
  (decodeLine_of_drop_sessionStream_held C kek segs n (List.not_mem_nil _) (.inl rfl) hpre hs hd).2

/-! ## The handoff over any schedule -/

/-- A step of the service side of the handoff: the sidecar or the reader
thread on the pipe, or a handler's `get_key_for_client`. -/
inductive HandoffEvent where
  | pipe (e : ChannelEvent)
  | take (clientId : ClientId)

/-- One step, and the take's outcome if it was a take. A take works on the
map the reader thread fills. -/
def Channel.handoffStep (C : Crypto) (h : FifoReadHandle) (s : Channel) :
    HandoffEvent → Option (ClientId × TakeOutcome) × Channel
  | .pipe e => (none, s.step C h e)
  | .take clientId =>
    let r := s.reader.ingress.getKeyForClient clientId
    (some (clientId, r.1), { s with reader := { s.reader with ingress := r.2 } })

/-- A schedule: the takes' outcomes in order, and the final state. -/
def Channel.handoffRun (C : Crypto) (h : FifoReadHandle) (s : Channel) :
    List HandoffEvent → List (ClientId × TakeOutcome) × Channel
  | [] => ([], s)
  | e :: es =>
    let r := s.handoffStep C h e
    let rest := r.2.handoffRun C h es
    (r.1.toList ++ rest.1, rest.2)

/-- The client ids of the takes that returned a key, in order. -/
def handedOut (outcomes : List (ClientId × TakeOutcome)) : List ClientId :=
  outcomes.filterMap fun o => match o.2 with
    | .ok _ => some o.1
    | .panic _ => none

/-- What holds when the reader has passed the first `n` characters of the
stream: the text it will still see (its partial line, the pipe, the writes
to come) is the rest of the stream, the partial line has no newline, and
every entry of the map is the pair of a whole written line that ends before
`n`. -/
structure HandoffInv (C : Crypto) (kek : Bytes) (segs : List Segment) (n : Nat) (s : Channel) :
    Prop where
  tail : s.reader.buf ++ s.pipe ++ s.pending.flatten = (sessionStream C kek segs).drop n
  buf_newline : '\n' ∉ s.reader.buf
  keys_line : ∀ c key, s.reader.ingress.keys c = some key → ∃ i g, segs[i]? = some g ∧ g.Whole ∧
    g.write.clientId = c ∧ g.write.keyMaterial = key ∧ lineStart C kek segs (i + 1) ≤ n

/-- An insert adds at most its own pair. -/
theorem Ingress.keys_insert {s : Ingress} {clientId c : ClientId} {key k : Bytes}
    (h : (s.insert clientId key).keys c = some k) : s.keys c = some k ∨ (c = clientId ∧ k = key) := by
  have hk : (s.insert clientId key).keys = s.keys ∨
      (s.insert clientId key).keys = Function.update s.keys clientId (some key) := by
    unfold Ingress.insert
    split_ifs <;> simp
  rcases hk with hk | hk <;> rw [hk] at h
  · exact .inl h
  · rw [Function.update_apply] at h
    split_ifs at h with hc
    · exact .inr ⟨hc, (Option.some.inj h).symm⟩
    · exact .inl h

/-- A take only removes: what the map holds after it, it held before. -/
theorem Ingress.keys_getKeyForClient {s : Ingress} {clientId c : ClientId} {k : Bytes}
    (h : (s.getKeyForClient clientId).2.keys c = some k) : s.keys c = some k := by
  unfold Ingress.getKeyForClient at h
  split_ifs at h
  · exact h
  · split at h
    · by_cases hc : c = clientId
      · subst hc; simp at h
      · simpa [Function.update_noteq hc] using h
    · exact h

/-- A take returns a key only if the map held it, and then removes it. -/
theorem Ingress.getKeyForClient_ok {s : Ingress} {clientId : ClientId} {k : Bytes}
    (h : (s.getKeyForClient clientId).1 = .ok k) :
    s.keys clientId = some k ∧ (s.getKeyForClient clientId).2.keys clientId = none := by
  unfold Ingress.getKeyForClient at h ⊢
  split_ifs at h ⊢
  split at h
  · rename_i key hkey
    cases h
    simp [hkey]
  · cases h

/-- The first newline of a text that has one. -/
theorem exists_first_newline : ∀ {cs : List Char}, '\n' ∈ cs →
    ∃ pre rest, '\n' ∉ pre ∧ cs = pre ++ '\n' :: rest
  | c :: cs, h =>
    if hc : c = '\n' then ⟨[], cs, List.not_mem_nil _, by rw [hc]; rfl⟩
    else
      have ⟨pre, rest, hpre, he⟩ := exists_first_newline ((List.mem_cons.1 h).resolve_left (Ne.symm hc))
      ⟨c :: pre, rest, by simp [hpre, Ne.symm hc], by rw [he]; rfl⟩

theorem HandoffInv.init (C : Crypto) (kek : Bytes) (segs : List Segment) :
    HandoffInv C kek segs 0 (Channel.ofWrites (segs.flatMap (Segment.writes C kek))) := by
  refine ⟨?_, List.not_mem_nil _, fun c key h => by simp [Channel.ofWrites, Ingress.init] at h⟩
  simp [Channel.ofWrites, sessionStream, List.flatMap, List.flatten_flatten, Function.comp_def]
  rfl

/-- The stream of attestations whose `write` calls all went through. -/
theorem HandoffInv.init_lines (C : Crypto) (kek : Bytes) (msgs : List SessionWrite) :
    HandoffInv C kek (msgs.map Segment.ofWrite) 0 (Channel.ofWrites (msgs.flatMap (sessionWrites C kek))) := by
  simpa [List.flatMap, Function.comp_def, Segment.writes_ofWrite] using
    HandoffInv.init C kek (msgs.map Segment.ofWrite)

section Steps

variable {C : Crypto} {kek : Bytes} {segs : List Segment} {n : Nat} {s : Channel}

theorem HandoffInv.write (hi : HandoffInv C kek segs n s) :
    HandoffInv C kek segs n (s.step C ⟨kek⟩ .write) := by
  simp only [Channel.step]
  split
  · exact hi
  · rename_i w ws hw
    obtain ⟨hn, hbuf, hkeys⟩ := hi
    exact ⟨by rw [← hn, hw]; simp, hbuf, hkeys⟩

/-- A `read()`: a chunk without a newline joins the partial line; a chunk
with one completes a line, which inserts the pair of the written line that
starts where the reader stood, or kills the reader. What follows the newline
in the chunk is gone, and the reader stands further on. -/
theorem HandoffInv.read (hi : HandoffInv C kek segs n s) :
    ∃ n', n ≤ n' ∧ HandoffInv C kek segs n' (s.step C ⟨kek⟩ .read) ∧
      ∀ c key, (s.step C ⟨kek⟩ .read).reader.ingress.keys c = some key →
        s.reader.ingress.keys c = some key ∨
          ∃ i g, segs[i]? = some g ∧ g.Whole ∧ g.write.clientId = c ∧ n = lineStart C kek segs i := by
  obtain ⟨hn, hbuf, hkeys⟩ := hi
  simp only [Channel.step]
  split_ifs with hidle
  · exact ⟨n, le_rfl, ⟨hn, hbuf, hkeys⟩, fun c key h => .inl h⟩
  rw [← List.take_append_drop 8192 s.pipe] at hn
  set chunk := s.pipe.take 8192
  set more := s.pipe.drop 8192
  by_cases hnl : '\n' ∈ chunk
  · obtain ⟨pre, rest, hpre, hsplit⟩ := exists_first_newline hnl
    have hR : (sessionStream C kek segs).drop n =
        (s.reader.buf ++ pre) ++ '\n' :: (rest ++ more ++ s.pending.flatten) := by
      rw [← hn, hsplit]; simp
    have htail : [] ++ more ++ s.pending.flatten =
        (sessionStream C kek segs).drop (n + (s.reader.buf ++ chunk).length) := by
      rw [← List.drop_drop, ← hn, show s.reader.buf ++ (chunk ++ more) ++ s.pending.flatten =
        (s.reader.buf ++ chunk) ++ (more ++ s.pending.flatten) by simp, List.drop_left]
      rfl
    simp only [Reader.step, hsplit, readUntil_newline hpre]
    split
    · rename_i clientId key hd
      obtain ⟨i, g, hi, hg, hstart, hline, hp⟩ := decodeLine_of_drop_sessionStream C kek segs n
        (by simp [hbuf, hpre]) hR (by rw [← hd]; simp)
      -- the completed line is `g`'s, and the reader now stands past its end
      have hend : lineStart C kek segs (i + 1) ≤ n + (s.reader.buf ++ chunk).length := by
        have hlen := congrArg List.length hline
        simp only [List.length_append, List.length_singleton] at hlen
        rw [(lineStart_succ hi).1, Segment.text_of_whole hg, ← hstart, ← hlen, hsplit]
        simp only [List.length_append, List.length_cons]
        omega
      obtain ⟨rfl, rfl⟩ := Prod.mk.inj hp
      refine ⟨_, by simp, ⟨htail, List.not_mem_nil _, fun c k h => ?_⟩, fun c k h => ?_⟩
      · rcases Ingress.keys_insert h with h | ⟨rfl, rfl⟩
        · obtain ⟨j, g', hj, hg', hc, hk, hle⟩ := hkeys c k h
          exact ⟨j, g', hj, hg', hc, hk, by omega⟩
        · exact ⟨i, g, hi, hg, rfl, rfl, hend⟩
      · rcases Ingress.keys_insert h with h | ⟨rfl, -⟩
        · exact .inl h
        · exact .inr ⟨i, g, hi, hg, rfl, hstart⟩
    · refine ⟨_, by simp, ⟨htail, List.not_mem_nil _, fun c k h => ?_⟩, fun c k h => .inl h⟩
      obtain ⟨j, g', hj, hg', hc, hk, hle⟩ := hkeys c k h
      exact ⟨j, g', hj, hg', hc, hk, by omega⟩
  · simp only [Reader.step, readUntil_of_not_mem hnl]
    exact ⟨n, le_rfl, ⟨by rw [← hn]; simp, by simp [hbuf, hnl], hkeys⟩, fun c key h => .inl h⟩

/-- A step of the sidecar or of the reader thread. -/
theorem HandoffInv.pipe (hi : HandoffInv C kek segs n s) (e : ChannelEvent) :
    ∃ n', n ≤ n' ∧ HandoffInv C kek segs n' (s.step C ⟨kek⟩ e) ∧
      ∀ c key, (s.step C ⟨kek⟩ e).reader.ingress.keys c = some key →
        s.reader.ingress.keys c = some key ∨
          ∃ i g, segs[i]? = some g ∧ g.Whole ∧ g.write.clientId = c ∧ n = lineStart C kek segs i := by
  cases e with
  | write =>
    refine ⟨n, le_rfl, hi.write, fun c key h => .inl ?_⟩
    simp only [Channel.step] at h
    split at h <;> exact h
  | read => exact hi.read

/-- A handler's take. -/
theorem HandoffInv.take (hi : HandoffInv C kek segs n s) (clientId : ClientId) :
    HandoffInv C kek segs n
      { s with reader := { s.reader with ingress := (s.reader.ingress.getKeyForClient clientId).2 } } :=
  ⟨hi.tail, hi.buf_newline, fun c k h => hi.keys_line c k (Ingress.keys_getKeyForClient h)⟩

end Steps

/-! ## What a schedule hands out -/

/-- Over a schedule, from a state with the invariant: every key a take
returns was written for its client, and the map holds only written pairs. -/
theorem HandoffInv.handoffRun {C : Crypto} {kek : Bytes} {segs : List Segment}
    (events : List HandoffEvent) : ∀ (n : Nat) (s : Channel), HandoffInv C kek segs n s →
      (∀ c key, (c, TakeOutcome.ok key) ∈ (s.handoffRun C ⟨kek⟩ events).1 → SessionWritten segs c key) ∧
        ∀ c key, (s.handoffRun C ⟨kek⟩ events).2.reader.ingress.keys c = some key →
          SessionWritten segs c key := by
  induction events with
  | nil =>
    intro n s hi
    refine ⟨fun _ _ h => (nomatch h), fun c key h => ?_⟩
    obtain ⟨i, g, hg, hw, hc, hk, -⟩ := hi.keys_line c key h
    exact ⟨g, List.mem_iff_getElem?.2 ⟨i, hg⟩, hw, hc, hk⟩
  | cons e es ih =>
    intro n s hi
    cases e with
    | pipe e =>
      obtain ⟨n', -, hi', -⟩ := hi.pipe e
      simpa [Channel.handoffRun, Channel.handoffStep] using ih n' _ hi'
    | take clientId =>
      obtain ⟨hrest, hfin⟩ := ih n _ (hi.take clientId)
      refine ⟨fun c key h => ?_, hfin⟩
      simp only [Channel.handoffRun, Channel.handoffStep, Option.toList_some, List.singleton_append,
        List.mem_cons, Prod.mk.injEq] at h
      rcases h with ⟨rfl, hk⟩ | h
      · obtain ⟨i, g, hg, hw, hc, hk, -⟩ := hi.keys_line c key (Ingress.getKeyForClient_ok hk.symm).1
        exact ⟨g, List.mem_iff_getElem?.2 ⟨i, hg⟩, hw, hc, hk⟩
      · exact hrest c key h

/-- Across every interleaving of the sidecar's writes, the reader thread's
`read()`s and the handlers' `get_key_for_client` calls, every key a handler
obtains is the key material the sidecar wrote for that very client id, and
`CLIENT_MAP` never holds any other pair. Lines can be lost, and the reader
can start a line in the middle of a written one, but such a line never
decodes. -/
theorem handoffRun_keys_written (C : Crypto) (kek : Bytes) (msgs : List SessionWrite)
    (events : List HandoffEvent) :
    (∀ c key, (c, TakeOutcome.ok key) ∈
        ((Channel.ofWrites (msgs.flatMap (sessionWrites C kek))).handoffRun C ⟨kek⟩ events).1 →
        ∃ w ∈ msgs, w.clientId = c ∧ w.keyMaterial = key) ∧
      ∀ c key, ((Channel.ofWrites (msgs.flatMap (sessionWrites C kek))).handoffRun C ⟨kek⟩
          events).2.reader.ingress.keys c = some key → ∃ w ∈ msgs, w.clientId = c ∧ w.keyMaterial = key := by
  have hw : ∀ {c key}, SessionWritten (msgs.map Segment.ofWrite) c key →
      ∃ w ∈ msgs, w.clientId = c ∧ w.keyMaterial = key := by
    rintro c key ⟨g, hg, -, rfl, rfl⟩
    obtain ⟨w, hw, rfl⟩ := List.mem_map.1 hg
    exact ⟨w, hw, rfl, rfl⟩
  obtain ⟨h₁, h₂⟩ := HandoffInv.handoffRun events 0 _ (HandoffInv.init_lines C kek msgs)
  exact ⟨fun c key h => hw (h₁ c key h), fun c key h => hw (h₂ c key h)⟩

/-- Distinct client ids name distinct attestations. -/
theorem index_eq_of_clientId {segs : List Segment} (hids : (segs.map (·.write.clientId)).Nodup)
    {i j : Nat} {g g' : Segment} (hi : segs[i]? = some g) (hj : segs[j]? = some g')
    (he : g.write.clientId = g'.write.clientId) : i = j := by
  have hne : ∀ {a b : Nat} {u v : Segment}, a < b → segs[a]? = some u → segs[b]? = some v →
      u.write.clientId ≠ v.write.clientId := by
    intro a b u v hab hu hv huv
    exact List.nodup_iff_getElem?_ne_getElem?.1 hids a b hab
      (by simpa using (List.getElem?_eq_some_iff.1 hv).1)
      (by simp [List.getElem?_map, hu, hv, huv])
  rcases Nat.lt_trichotomy i j with h | h | h
  · exact absurd he (hne h hi hj)
  · exact h
  · exact absurd he.symm (hne h hj hi)

/-- The ids handed out so far: each one's entry is gone, and its whole line
ends before the reader's position `n`. -/
def TakenBefore (C : Crypto) (kek : Bytes) (segs : List Segment) (n : Nat) (s : Channel)
    (taken : List ClientId) : Prop :=
  ∀ c ∈ taken, s.reader.ingress.keys c = none ∧
    ∃ i g, segs[i]? = some g ∧ g.Whole ∧ g.write.clientId = c ∧ lineStart C kek segs (i + 1) ≤ n

theorem handedOut_cons (o : ClientId × TakeOutcome) (os : List (ClientId × TakeOutcome)) :
    handedOut (o :: os) = handedOut [o] ++ handedOut os := by
  obtain ⟨c, _ | _⟩ := o <;> rfl

section Taken
variable {C : Crypto} {kek : Bytes} {segs : List Segment} {n : Nat} {s : Channel}
  {taken : List ClientId}

/-- A pipe event keeps every taken id taken. A new entry would come from a
line that starts where the reader was, and with distinct ids a taken id's
only line ends before that. -/
theorem TakenBefore.pipe (hids : (segs.map (·.write.clientId)).Nodup) (hi : HandoffInv C kek segs n s)
    (ht : TakenBefore C kek segs n s taken) (e : ChannelEvent) :
    ∃ n', HandoffInv C kek segs n' (s.step C ⟨kek⟩ e) ∧
      TakenBefore C kek segs n' (s.step C ⟨kek⟩ e) taken := by
  obtain ⟨n', hle, hi', hnew⟩ := hi.pipe e
  refine ⟨n', hi', fun c hc => ?_⟩
  obtain ⟨hnone, i, g, hg, hw, hcg, hend⟩ := ht c hc
  refine ⟨?_, i, g, hg, hw, hcg, by omega⟩
  rcases hk : (s.step C ⟨kek⟩ e).reader.ingress.keys c with _ | k
  · rfl
  · rcases hnew c k hk with h | ⟨j, g', hg', -, hcg', hstart⟩
    · rw [hnone] at h
      cases h
    · obtain rfl := index_eq_of_clientId hids hg hg' (hcg.trans hcg'.symm)
      have : lineStart C kek segs i < lineStart C kek segs (i + 1) := (lineStart_succ hg).2 hw
      omega

/-- A take keeps the taken ids taken, and one that returns a key adds its
id, which was not taken yet: its entry was still in the map. -/
theorem TakenBefore.take (hi : HandoffInv C kek segs n s) (ht : TakenBefore C kek segs n s taken)
    (hnd : taken.Nodup) (c : ClientId) :
    TakenBefore C kek segs n
        { s with reader := { s.reader with ingress := (s.reader.ingress.getKeyForClient c).2 } }
        (taken ++ handedOut [(c, (s.reader.ingress.getKeyForClient c).1)]) ∧
      (taken ++ handedOut [(c, (s.reader.ingress.getKeyForClient c).1)]).Nodup := by
  have hkeep : ∀ c' ∈ taken, (s.reader.ingress.getKeyForClient c).2.keys c' = none := by
    intro c' hc'
    rcases hk : (s.reader.ingress.getKeyForClient c).2.keys c' with _ | k
    · rfl
    · have := Ingress.keys_getKeyForClient hk
      rw [(ht c' hc').1] at this
      cases this
  cases hr : (s.reader.ingress.getKeyForClient c).1 with
  | ok key =>
    obtain ⟨hkey, hgone⟩ := Ingress.getKeyForClient_ok hr
    have hc : c ∉ taken := fun hc => by rw [(ht c hc).1] at hkey; cases hkey
    obtain ⟨i, g, hg, hw, hcg, -, hend⟩ := hi.keys_line c key hkey
    refine ⟨fun c' hc' => ?_, by simpa [handedOut, List.nodup_append, hnd] using hc⟩
    rcases List.mem_append.1 hc' with hc' | hc'
    · exact ⟨hkeep c' hc', (ht c' hc').2⟩
    · obtain rfl : c' = c := by simpa [handedOut] using hc'
      exact ⟨hgone, i, g, hg, hw, hcg, hend⟩
  | panic msg =>
    simpa [handedOut, hnd] using fun c' hc' => (⟨hkeep c' hc', (ht c' hc').2⟩ :
      _ ∧ ∃ i g, segs[i]? = some g ∧ g.Whole ∧ g.write.clientId = c' ∧ lineStart C kek segs (i + 1) ≤ n)

/-- With distinct client ids, an id once handed out is never handed out
again: its entry could only come back from its own line, which the reader
has passed. -/
theorem HandoffInv.handoffRun_once (hids : (segs.map (·.write.clientId)).Nodup) (events : List HandoffEvent) :
    ∀ (n : Nat) (s : Channel) (taken : List ClientId), HandoffInv C kek segs n s →
      TakenBefore C kek segs n s taken → taken.Nodup →
      (taken ++ handedOut (s.handoffRun C ⟨kek⟩ events).1).Nodup := by
  induction events with
  | nil => intro n s taken _ _ hnd; simpa [Channel.handoffRun, handedOut] using hnd
  | cons e es ih =>
    intro n s taken hi ht hnd
    cases e with
    | pipe e =>
      obtain ⟨n', hi', ht'⟩ := ht.pipe hids hi e
      simpa [Channel.handoffRun, Channel.handoffStep] using ih n' _ taken hi' ht' hnd
    | take c =>
      obtain ⟨ht', hnd'⟩ := ht.take hi hnd c
      simp only [Channel.handoffRun, Channel.handoffStep, Option.toList_some, List.singleton_append]
      rw [handedOut_cons, ← List.append_assoc]
      exact ih n _ _ (hi.take c) ht' hnd'

end Taken

/-- When the attestations' client ids are distinct, no session key is handed
out twice: across every interleaving of writes, reads and takes, the ids of
the takes that return a key are pairwise distinct. -/
theorem handoffRun_hands_out_once (C : Crypto) (kek : Bytes) (msgs : List SessionWrite)
    (hids : (msgs.map (·.clientId)).Nodup) (events : List HandoffEvent) :
    (handedOut ((Channel.ofWrites (msgs.flatMap (sessionWrites C kek))).handoffRun C ⟨kek⟩
      events).1).Nodup := by
  simpa using HandoffInv.handoffRun_once (by rw [List.map_map]; exact hids) events 0 _ []
    (HandoffInv.init_lines C kek msgs) (fun _ h => nomatch h) List.nodup_nil

theorem handoffRun_hands_out_once_two :
    ([(⟨⟨List.replicate 12 0, rfl⟩, List.replicate 32 0, ⟨1⟩⟩ : SessionWrite),
        ⟨⟨List.replicate 12 0, rfl⟩, List.replicate 32 0, ⟨2⟩⟩].map (·.clientId)).Nodup ∧
      (handedOut ((Channel.ofWrites ([(⟨⟨List.replicate 12 0, rfl⟩, List.replicate 32 0, ⟨1⟩⟩ : SessionWrite),
          ⟨⟨List.replicate 12 0, rfl⟩, List.replicate 32 0, ⟨2⟩⟩].flatMap (sessionWrites Crypto.degenerate []))).handoffRun
        Crypto.degenerate ⟨[]⟩ (List.replicate 12 (.pipe .write) ++ [.pipe .read, .take ⟨1⟩, .take ⟨1⟩])).1).Nodup :=
  ⟨by decide, handoffRun_hands_out_once Crypto.degenerate [] _ (by decide) _⟩

end Tahini.Service
