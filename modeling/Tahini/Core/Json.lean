import Tahini.Core.Bytes

/-!
# The JSON text every wire message and file goes through

Certificates on disk, the attestation RPC (tarpc's `Json` format, i.e.
`serde_json::to_vec` / `from_slice`) and the report's signing blob are all
serde_json's compact text. A `Codec α` is one serde encoding of `α`: the
writer, the reader, and the proof `read_write` that reading what was written
returns the value and stops exactly at its end. The law is stated for any
continuation that does not start with a digit (`Delimited`), which is what
lets codecs be chained with `,`, `:`, `]` and `}` between them.

Combinators mirror the serde data model of the repository's types: strings
(`Codec.string`, serde_json's escape table), unsigned integers of any width
(`Codec.unsigned`, decimal without leading zeros, range-checked on read),
sequences (`Codec.list`), named fields (`Codec.field`), field pairs
(`Codec.pair`), objects (`Codec.obj`) and newtypes (`Codec.map`). Each
combinator's round trip is proved once, from its parts' laws.

Readers skip whitespace before every token, as serde_json's
`parse_whitespace` does, so they also read pretty-printed text
(`Codec.read_ws`, and `Codec.pair_read` and `Codec.obj_read` for the
whitespace around separators); `decode` allows whitespace after the value, as
`Deserializer::end` does.

Mirroring notes vs serde_json:
- The reader takes the fields of a struct in declaration order, which is
  the order the writer emits; serde's acceptance of other orders and of
  unknown fields is not modelled, and a key is matched as written, not
  unescaped.
- `\u` escapes naming a UTF-16 surrogate are rejected (serde pairs them);
  the writer never emits one.
-/

namespace Tahini.Core

/-- What may follow a value so that its reader stops at the value's end:
anything that does not begin with a digit. -/
def Delimited (rest : List Char) : Prop := ∀ c ∈ rest.head?, isDigit c = false

theorem delimited_nil : Delimited [] := by simp [Delimited]

theorem delimited_cons {c : Char} (h : isDigit c = false) (rest : List Char) :
    Delimited (c :: rest) := by
  simpa [Delimited] using h

/-! ## Whitespace -/

/-- JSON's insignificant whitespace (RFC 8259 §2). -/
def isWs (c : Char) : Bool := c = ' ' || c = '\n' || c = '\t' || c = '\r'

/-- A run of whitespace. -/
def IsWs (w : List Char) : Prop := ∀ c ∈ w, isWs c = true

instance : DecidablePred IsWs := fun w => inferInstanceAs (Decidable (∀ c ∈ w, isWs c = true))

/-- `parse_whitespace`: drop the whitespace in front. -/
def skipWs : List Char → List Char
  | [] => []
  | c :: cs => if isWs c then skipWs cs else c :: cs

theorem skipWs_append {w : List Char} (hw : IsWs w) (cs : List Char) : skipWs (w ++ cs) = skipWs cs := by
  induction w with
  | nil => rfl
  | cons c w ih =>
    simp only [List.cons_append, skipWs, hw c (List.mem_cons_self c w), if_true]
    exact ih fun d hd => hw d (List.mem_cons_of_mem c hd)

theorem skipWs_cons {c : Char} (hc : isWs c = false) (cs : List Char) : skipWs (c :: cs) = c :: cs := by
  simp [skipWs, hc]

/-- A digit is not whitespace. -/
theorem isWs_of_isDigit {c : Char} (h : isDigit c = true) : isWs c = false := by
  revert h
  cases hw : isWs c
  · exact fun _ => rfl
  · simp only [isWs, Bool.or_eq_true, decide_eq_true_eq] at hw
    rcases hw with ((rfl | rfl) | rfl) | rfl <;> decide

/-- A serde_json encoding of `α`: its writer, its reader, and the round trip. -/
structure Codec (α : Type) where
  write : α → List Char
  read : List Char → Option (α × List Char)
  read_write : ∀ a rest, Delimited rest → read (write a ++ rest) = some (a, rest)
  /-- The reader passes over whitespace in front of the value. -/
  read_ws : ∀ w cs, IsWs w → read (w ++ cs) = read cs
  /-- Every value is written as at least one character, the first neither `]`
  nor whitespace, so an array reader can test for its end first, as
  serde_json does. -/
  starts : ∀ a, ∃ d ds, write a = d :: ds ∧ d ≠ ']' ∧ isWs d = false

/-- Reading a whole document: after the value only whitespace may follow. -/
def Codec.decode {α : Type} (c : Codec α) (cs : List Char) : Option α :=
  match c.read cs with
  | some (a, r) => if skipWs r = [] then some a else none
  | none => none

theorem Codec.decode_write {α : Type} (c : Codec α) (a : α) : c.decode (c.write a) = some a := by
  have h := c.read_write a [] delimited_nil
  rw [List.append_nil] at h
  simp [Codec.decode, h, skipWs]

/-- A value with whitespace in front of it reads as the value. -/
theorem Codec.read_ws_write {α : Type} (c : Codec α) (a : α) {w : List Char} (hw : IsWs w)
    {rest : List Char} (hr : Delimited rest) : c.read (w ++ (c.write a ++ rest)) = some (a, rest) := by
  rw [c.read_ws w _ hw, c.read_write a rest hr]

/-! ## Strings -/

/-- serde_json's escape for one character. -/
def escapeChar (c : Char) : List Char :=
  if c = '"' then ['\\', '"']
  else if c = '\\' then ['\\', '\\']
  else if c = '\n' then ['\\', 'n']
  else if c = '\r' then ['\\', 'r']
  else if c = '\t' then ['\\', 't']
  else if c = '\x08' then ['\\', 'b']
  else if c = '\x0c' then ['\\', 'f']
  else if c.toNat < 0x20 then ['\\', 'u', '0', '0', hexChar (c.toNat / 16), hexChar (c.toNat % 16)]
  else [c]

/-- A string literal as serde_json writes it. -/
def jsonString (s : String) : List Char := '"' :: s.data.flatMap escapeChar ++ ['"']

/-- A string literal starts with its quote, so no whitespace is skipped. -/
theorem skipWs_jsonString (s : String) (rest : List Char) :
    skipWs (jsonString s ++ rest) = jsonString s ++ rest := by
  simp only [jsonString, List.cons_append]
  exact skipWs_cons (by decide) _

/-- The character a one-letter escape stands for. -/
def unescape (e : Char) : Option Char :=
  if e = '"' then some '"'
  else if e = '\\' then some '\\'
  else if e = '/' then some '/'
  else if e = 'b' then some '\x08'
  else if e = 'f' then some '\x0c'
  else if e = 'n' then some '\n'
  else if e = 'r' then some '\r'
  else if e = 't' then some '\t'
  else none

/-- The code unit of a `\u` escape. -/
def hex4 (a b c d : Char) : Option Nat := do
  let a ← hexVal a
  let b ← hexVal b
  let c ← hexVal c
  let d ← hexVal d
  pure (4096 * a + 256 * b + 16 * c + d)

/-- Put a decoded character in front of the rest of the literal. -/
def consChar (c : Char) (r : Option (List Char × List Char)) : Option (List Char × List Char) :=
  r.map fun p => (c :: p.1, p.2)

/-- The body of a string literal up to its closing quote. A raw control
character is an error, as in serde_json. -/
def readStrBody : List Char → Option (List Char × List Char)
  | [] => none
  | c :: rest =>
    if c = '"' then some ([], rest)
    else if c = '\\' then
      match rest with
      | e :: rest' =>
        if e = 'u' then
          match rest' with
          | a :: b :: c' :: d :: rest'' =>
            match hex4 a b c' d with
            | some v => if 0xD800 ≤ v ∧ v ≤ 0xDFFF then none
              else consChar (Char.ofNat v) (readStrBody rest'')
            | none => none
          | _ => none
        else
          match unescape e with
          | some c' => consChar c' (readStrBody rest')
          | none => none
      | [] => none
    else if c.toNat < 0x20 then none
    else consChar c (readStrBody rest)
termination_by structural l => l

theorem readStrBody_quote (rest : List Char) : readStrBody ('"' :: rest) = some ([], rest) := by
  rw [readStrBody.eq_def]; dsimp only; rw [if_pos rfl]

theorem readStrBody_plain {c : Char} (rest : List Char) (h₁ : c ≠ '"') (h₂ : c ≠ '\\')
    (h₃ : ¬ c.toNat < 0x20) : readStrBody (c :: rest) = consChar c (readStrBody rest) := by
  rw [readStrBody.eq_def]; dsimp only; rw [if_neg h₁, if_neg h₂, if_neg h₃]

theorem readStrBody_short {e c : Char} (rest : List Char) (he : e ≠ 'u') (hc : unescape e = some c) :
    readStrBody ('\\' :: e :: rest) = consChar c (readStrBody rest) := by
  rw [readStrBody.eq_def]; dsimp only; rw [if_neg (by decide), if_pos rfl, if_neg he, hc]

theorem readStrBody_unicode {a b c d : Char} {v : Nat} (rest : List Char) (hv : hex4 a b c d = some v)
    (hs : ¬ (0xD800 ≤ v ∧ v ≤ 0xDFFF)) :
    readStrBody ('\\' :: 'u' :: a :: b :: c :: d :: rest) = consChar (Char.ofNat v) (readStrBody rest) := by
  rw [readStrBody.eq_def]; dsimp only
  rw [if_neg (by decide), if_pos rfl, if_pos rfl]; simp only [hv, if_neg hs]

theorem hex4_control {n : Nat} (h : n < 0x20) :
    hex4 '0' '0' (hexChar (n / 16)) (hexChar (n % 16)) = some n := by
  simp only [hex4, hexVal_hexChar _ (show n / 16 < 16 by omega),
    hexVal_hexChar _ (show n % 16 < 16 by omega)]
  simp [hexVal]
  omega

/-- Reading one escaped character back. -/
theorem readStrBody_escapeChar (c : Char) (cs : List Char) :
    readStrBody (escapeChar c ++ cs) = consChar c (readStrBody cs) := by
  by_cases h₁ : c = '"'; · subst c; exact readStrBody_short _ (by decide) rfl
  by_cases h₂ : c = '\\'; · subst c; exact readStrBody_short _ (by decide) rfl
  by_cases h₃ : c = '\n'; · subst c; exact readStrBody_short _ (by decide) rfl
  by_cases h₄ : c = '\r'; · subst c; exact readStrBody_short _ (by decide) rfl
  by_cases h₅ : c = '\t'; · subst c; exact readStrBody_short _ (by decide) rfl
  by_cases h₆ : c = '\x08'; · subst c; exact readStrBody_short _ (by decide) rfl
  by_cases h₇ : c = '\x0c'; · subst c; exact readStrBody_short _ (by decide) rfl
  rw [escapeChar, if_neg h₁, if_neg h₂, if_neg h₃, if_neg h₄, if_neg h₅, if_neg h₆, if_neg h₇]
  by_cases h₈ : c.toNat < 0x20
  · -- a control character without a short escape
    rw [if_pos h₈]
    simp only [List.cons_append, List.nil_append]
    rw [readStrBody_unicode _ (hex4_control h₈) (by omega), Char.ofNat_toNat]
  · -- a character written as itself
    rw [if_neg h₈]
    exact readStrBody_plain _ h₁ h₂ h₈

theorem readStrBody_escape (s : List Char) (rest : List Char) :
    readStrBody (s.flatMap escapeChar ++ '"' :: rest) = some (s, rest) := by
  induction s with
  | nil => exact readStrBody_quote rest
  | cons c s ih => simp [List.append_assoc, readStrBody_escapeChar, ih, consChar]

/-- JSON strings. -/
def Codec.string : Codec String where
  write := jsonString
  read cs :=
    match skipWs cs with
    | '"' :: cs => (readStrBody cs).map fun p => (String.mk p.1, p.2)
    | _ => none
  read_write s rest _ := by
    simp [jsonString, List.append_assoc, skipWs_cons, isWs, readStrBody_escape]
  read_ws w cs hw := by simp only [skipWs_append hw]
  starts s := ⟨'"', _, rfl, by decide, by decide⟩

/-! ## Unsigned integers -/

/-- The longest run of digits at the front, and what follows it. -/
def spanDigits : List Char → List Char × List Char
  | [] => ([], [])
  | c :: cs => if isDigit c then ((spanDigits cs).1.cons c, (spanDigits cs).2) else ([], c :: cs)

theorem spanDigits_append {ds : List Char} (hds : ∀ c ∈ ds, isDigit c = true) {rest : List Char}
    (hr : Delimited rest) : spanDigits (ds ++ rest) = (ds, rest) := by
  induction ds with
  | nil =>
    cases rest with
    | nil => rfl
    | cons c cs =>
      have hc : isDigit c = false := hr c rfl
      simp [spanDigits, hc]
  | cons d ds ih =>
    have hd := hds d (List.mem_cons_self d ds)
    simp [spanDigits, hd, ih fun c hc => hds c (List.mem_cons_of_mem d hc)]

/-- serde_json's reader for an unsigned integer of `w` bits: a run of digits
without a leading zero, whose value fits. -/
def readUnsigned (w : Nat) (cs : List Char) : Option (BitVec w × List Char) :=
  let (ds, rest) := spanDigits cs
  if ds = [] then none
  else if ds.head? = some '0' ∧ 1 < ds.length then none
  else if digitsValue ds < 2 ^ w then some (BitVec.ofNat w (digitsValue ds), rest) else none

theorem decimal_no_leading_zero (n : Nat) :
    ¬ ((decimal n).head? = some '0' ∧ 1 < (decimal n).length) := by
  rintro ⟨h₀, h₁⟩
  rcases Nat.lt_or_ge n 10 with h | h
  · simp [decimal_of_lt_ten h] at h₁
  · obtain ⟨c, cs, he, hc⟩ := decimal_head h
    simp [he] at h₀
    exact hc h₀

/-- A number's text starts with a digit, so no whitespace is skipped. -/
theorem skipWs_decimal (n : Nat) (rest : List Char) : skipWs (decimal n ++ rest) = decimal n ++ rest := by
  obtain ⟨d, ds, he⟩ := List.exists_cons_of_ne_nil (decimal_ne_nil n)
  rw [he, List.cons_append,
    skipWs_cons (isWs_of_isDigit (isDigit_of_mem_decimal (he ▸ List.mem_cons_self d ds)))]

/-- Unsigned integers of `w` bits (`u8`, `usize`, `u128`), written in decimal. -/
def Codec.unsigned (w : Nat) : Codec (BitVec w) where
  write x := decimal x.toNat
  read cs := readUnsigned w (skipWs cs)
  read_write x rest hr := by
    simp only [skipWs_decimal, readUnsigned, spanDigits_append (fun _ => isDigit_of_mem_decimal) hr,
      if_neg (decimal_ne_nil _), if_neg (decimal_no_leading_zero _), digitsValue_decimal,
      if_pos x.isLt, BitVec.ofNat_toNat, BitVec.setWidth_eq]
  read_ws w cs hw := by simp only [skipWs_append hw]
  starts x := by
    obtain ⟨d, ds, he⟩ := List.exists_cons_of_ne_nil (decimal_ne_nil x.toNat)
    have hd : isDigit d = true := isDigit_of_mem_decimal (he ▸ List.mem_cons_self d ds)
    refine ⟨d, ds, he, fun h => absurd (h ▸ hd) (by decide), isWs_of_isDigit hd⟩

/-! ## Sequences -/

/-- The elements of a non-empty array, comma-separated. -/
def writeElems {α : Type} (c : Codec α) : α → List α → List Char
  | a, [] => c.write a
  | a, b :: bs => c.write a ++ ',' :: writeElems c b bs

/-- The elements of a non-empty array and its closing bracket; `fuel` bounds
the number of commas. -/
def readElems {α : Type} (c : Codec α) : Nat → List Char → Option (List α × List Char)
  | 0, _ => none
  | fuel + 1, cs =>
    match c.read cs with
    | some (a, r) =>
      match skipWs r with
      | d :: r =>
        if d = ',' then (readElems c fuel r).map fun p => (a :: p.1, p.2)
        else if d = ']' then some ([a], r)
        else none
      | [] => none
    | none => none

theorem length_writeElems {α : Type} (c : Codec α) (a : α) (as : List α) :
    as.length ≤ (writeElems c a as).length := by
  induction as generalizing a with
  | nil => exact Nat.zero_le _
  | cons b bs ih => simp only [writeElems, List.length_append, List.length_cons]; have := ih b; omega

theorem readElems_writeElems {α : Type} (c : Codec α) (rest : List Char) :
    ∀ (a : α) (as : List α) (fuel : Nat), as.length < fuel →
      readElems c fuel (writeElems c a as ++ ']' :: rest) = some (a :: as, rest) := by
  intro a as
  induction as generalizing a with
  | nil =>
    intro fuel hf
    obtain ⟨fuel, rfl⟩ : ∃ k, fuel = k + 1 := ⟨fuel - 1, by simp at hf; omega⟩
    have h := c.read_write a (']' :: rest) (delimited_cons (by decide) rest)
    simp [readElems, writeElems, h, skipWs_cons, isWs]
  | cons b bs ih =>
    intro fuel hf
    obtain ⟨fuel, rfl⟩ : ∃ k, fuel = k + 1 := ⟨fuel - 1, by simp at hf; omega⟩
    have h := c.read_write a (',' :: (writeElems c b bs ++ ']' :: rest)) (delimited_cons (by decide) _)
    simp only [List.length_cons] at hf
    simp [readElems, writeElems, List.append_assoc, h, skipWs_cons, isWs, ih b fuel (by omega)]

/-- Arrays (`Vec<T>`). -/
def Codec.list {α : Type} (c : Codec α) : Codec (List α) where
  write
    | [] => ['[', ']']
    | a :: as => '[' :: writeElems c a as ++ [']']
  read cs :=
    match skipWs cs with
    | '[' :: cs =>
      if (skipWs cs).head? = some ']' then some ([], (skipWs cs).tail) else readElems c cs.length cs
    | _ => none
  read_write xs rest _ := by
    cases xs with
    | nil => simp [skipWs_cons, isWs]
    | cons a as =>
      obtain ⟨d, ds, he, hd, hw⟩ := c.starts a
      have hws : skipWs (writeElems c a as ++ ']' :: rest) = writeElems c a as ++ ']' :: rest := by
        cases as <;> simp only [writeElems, he, List.cons_append, skipWs_cons hw]
      have hhead : (writeElems c a as ++ ']' :: rest).head? ≠ some ']' := by
        cases as <;> simp [writeElems, he, hd]
      have hlen := length_writeElems c a as
      simp only [List.cons_append, List.nil_append, List.append_assoc, skipWs_cons
        (show isWs '[' = false by decide), hws, if_neg hhead]
      exact readElems_writeElems c rest a as _ (by simp; omega)
  read_ws w cs hw := by simp only [skipWs_append hw]
  starts xs := by cases xs <;> exact ⟨'[', _, rfl, by decide, by decide⟩

/-! ## Newtypes, fields, pairs, objects -/

/-- A type encoded as another one (serde's newtype structs are transparent). -/
def Codec.map {α β : Type} (c : Codec β) (f : α → β) (g : β → α) (hgf : ∀ a, g (f a) = a) :
    Codec α where
  write a := c.write (f a)
  read cs := (c.read cs).map fun p => (g p.1, p.2)
  read_write a rest hr := by simp [c.read_write _ rest hr, hgf]
  read_ws w cs hw := by simp only [c.read_ws w cs hw]
  starts a := c.starts (f a)

/-- `u8`. -/
def Codec.u8 : Codec UInt8 := (Codec.unsigned 8).map UInt8.toBitVec UInt8.mk fun _ => rfl

/-- `usize`, on a 64-bit target. -/
def Codec.usize : Codec UInt64 := (Codec.unsigned 64).map UInt64.toBitVec UInt64.mk fun _ => rfl

/-- Strip a literal prefix. -/
def dropPrefix : List Char → List Char → Option (List Char)
  | [], cs => some cs
  | p :: ps, c :: cs => if p = c then dropPrefix ps cs else none
  | _ :: _, [] => none

@[simp] theorem dropPrefix_append (p rest : List Char) : dropPrefix p (p ++ rest) = some rest := by
  induction p with
  | nil => rfl
  | cons c p ih => simp [dropPrefix, ih]

/-- Expect one separator character. -/
def expectChar (d : Char) : List Char → Option (List Char)
  | c :: cs => if c = d then some cs else none
  | [] => none

@[simp] theorem expectChar_cons (d : Char) (cs : List Char) : expectChar d (d :: cs) = some cs := by
  simp [expectChar]

/-- A struct field: its name as a string, a colon, its value. -/
def Codec.field {α : Type} (key : String) (c : Codec α) : Codec α where
  write a := jsonString key ++ ':' :: c.write a
  read cs := (dropPrefix (jsonString key) (skipWs cs)).bind fun r => (expectChar ':' (skipWs r)).bind c.read
  read_write a rest hr := by
    simp [List.append_assoc, skipWs_jsonString, skipWs_cons, isWs, c.read_write a rest hr]
  read_ws w cs hw := by simp only [skipWs_append hw]
  starts a := ⟨'"', _, rfl, by decide, by decide⟩

/-- A field as `to_writer_pretty` writes it, a space after the colon, with
whitespace in front. -/
theorem Codec.field_read_pretty {α : Type} (key : String) (c : Codec α) (a : α) {w : List Char}
    (hw : IsWs w) {rest : List Char} (hr : Delimited rest) :
    (Codec.field key c).read (w ++ (jsonString key ++ ':' :: ' ' :: (c.write a ++ rest))) =
      some (a, rest) := by
  have hv := c.read_ws_write a (w := [' ']) (by decide) hr
  simp only [List.singleton_append] at hv
  simp [Codec.field, skipWs_append hw, skipWs_jsonString, skipWs_cons, isWs, hv]

/-- Two consecutive fields, comma-separated. -/
def Codec.pair {α β : Type} (c₁ : Codec α) (c₂ : Codec β) : Codec (α × β) where
  write p := c₁.write p.1 ++ ',' :: c₂.write p.2
  read cs := do
    let (a, r) ← c₁.read cs
    let r ← expectChar ',' (skipWs r)
    let (b, r) ← c₂.read r
    pure ((a, b), r)
  read_write p rest hr := by
    have h₁ := c₁.read_write p.1 (',' :: (c₂.write p.2 ++ rest)) (delimited_cons (by decide) _)
    simp [List.append_assoc, h₁, skipWs_cons, isWs, c₂.read_write p.2 rest hr]
  read_ws w cs hw := by simp only [c₁.read_ws w cs hw]
  starts p := by
    obtain ⟨d, ds, he, hd⟩ := c₁.starts p.1
    exact ⟨d, _, by show c₁.write p.1 ++ _ = _; rw [he]; rfl, hd⟩

/-- A pair reads its first component, then whitespace and the comma, then
its second component. -/
theorem Codec.pair_read {α β : Type} (c₁ : Codec α) (c₂ : Codec β) {cs r : List Char} {a : α}
    (h₁ : c₁.read cs = some (a, r)) {w r' : List Char} (hw : IsWs w) (hr : r = w ++ ',' :: r') :
    (c₁.pair c₂).read cs = (c₂.read r').map fun p => ((a, p.1), p.2) := by
  subst hr
  cases h₂ : c₂.read r' <;> simp [Codec.pair, h₁, skipWs_append hw, skipWs_cons, isWs, h₂]

/-- An object: braces around its fields. -/
def Codec.obj {α : Type} (c : Codec α) : Codec α where
  write a := '{' :: c.write a ++ ['}']
  read cs :=
    match skipWs cs with
    | '{' :: cs => do
      let (a, r) ← c.read cs
      let r ← expectChar '}' (skipWs r)
      pure (a, r)
    | _ => none
  read_write a rest hr := by
    have h := c.read_write a ('}' :: rest) (delimited_cons (by decide) _)
    simp [List.append_assoc, h, skipWs_cons, isWs]
  read_ws w cs hw := by simp only [skipWs_append hw]
  starts a := ⟨'{', _, rfl, by decide, by decide⟩

/-- An object read with whitespace before either brace. -/
theorem Codec.obj_read {α : Type} (c : Codec α) {w cs : List Char} (hw : IsWs w) {a : α} {r : List Char}
    (h : c.read cs = some (a, r)) {w' rest : List Char} (hw' : IsWs w') (hr : r = w' ++ '}' :: rest) :
    (Codec.obj c).read (w ++ '{' :: cs) = some (a, rest) := by
  subst hr
  simp [Codec.obj, skipWs_append hw, skipWs_cons, isWs, h, skipWs_append hw']

end Tahini.Core
