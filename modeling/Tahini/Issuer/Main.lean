import Tahini.Issuer.Hashing
import Tahini.Policy.Build
import Tahini.Core.Crypto

/-!
# The certificate issuer's `main` (`certificate_generation/src/main.rs`)

The issuer turns a built project into one signed certificate per service
binary. `main` reads the signing key (`get_signing_key`), lists the
executables of `target/release` (`find_binaries_in_target`), pairs each with
the first line of `policy_hashes/<name>_policy_hashes.json`
(`match_policies_to_bin`), hashes the executables (`hash_binaries`), keeps
the names that have both (`merge_maps`), signs each pair (`gen_certificate`)
and writes `certificates/<name>_certificate.json`, pretty-printed.

The directories enter as `read_dir` lists them (`TargetEntry`,
`PolicyEntry`); their order is the file system's, and nothing below depends
on it. `main` returns what the run does: a panic, an `io::Error`, or the
certificate files it writes, keyed by binary name.

The stage lemmas are one per function: `mem_findBinariesInTarget`,
`matchEntries_eq` (a directory lists a name once, so the scan for a binary's
policy file finds at most one), `foldlM_matchEntries` (the whole of
`match_policies_to_bin`: the first unreadable policy file's error, or each
binary's policy hash), `genCertificate_ok`, `genCertificates_ok` and
`genCertificates_error`, and `main_ok`, which takes a successful run apart
into its stages; by `main_out_certificate`, every file a run writes is a
certificate named after its binary. `decode_writePretty` is what makes the files usable: the
certificate store's JSON reader, which skips whitespace as serde_json does,
reads each pretty-printed certificate back. `main_issues_blank_policy_hash`
shows what a policy file whose first line is blank does: it is not refused,
and the run issues a certificate with an empty policy hash.

Mirroring notes vs the source:
- Errors of `read_dir` and of its entries, and of `File::create` on the
  certificate files, come from the operating system and are not modelled;
  nor are the `to_str().unwrap()` panics on names that are not UTF-8 (names
  are strings here) or the `println!` output.
- `match_policies_to_bin` returns an empty map for a path with no file name;
  every path `read_dir` yields has one, so that branch has no counterpart.
- The certificates are generated over the merged map in its `HashMap` order,
  and the first that panics ends the run. Every panic of `gen_certificate`
  carries the same text, so the model generates them in the order the
  binaries were listed.
- A panic of `Result::expect` also prints the error; the model keeps the
  message.
- A policy file's path is the policy directory's, a `/`, and the file name,
  as `PathBuf::join` writes it for a directory path without a trailing `/`.
-/

namespace Tahini.Issuer

open Tahini.Core Tahini.Policy

/-! ## Listing `target/release` -/

/-- What `fs::metadata` reports that `is_executable` reads. -/
structure Metadata where
  isFile : Bool
  mode : Nat

/-- An entry of `target/release` as `read_dir` lists it, with its metadata
(`none` when `fs::metadata` fails, as it does on a dangling link). -/
structure TargetEntry where
  fileName : String
  metadata : Option Metadata

/-- `is_executable`: a regular file with an execute bit; no metadata is `false`. -/
def isExecutable : Option Metadata → Bool
  | some m => m.isFile && m.mode &&& 0o111 != 0
  | none => false

/-- `find_binaries_in_target`: the executables of `target/release` in listing
order, and none when the directory is missing or not a directory. -/
def findBinariesInTarget (releaseDir : String) : Option (List TargetEntry) → List BinPath
  | none => []
  | some entries => (entries.filter (isExecutable ·.metadata)).map fun e => ⟨releaseDir, e.fileName⟩

theorem mem_findBinariesInTarget {releaseDir : String} {entries : List TargetEntry} {b : BinPath} :
    b ∈ findBinariesInTarget releaseDir (some entries) ↔
      ∃ e ∈ entries, isExecutable e.metadata ∧ b = ⟨releaseDir, e.fileName⟩ := by
  simp only [findBinariesInTarget, List.mem_map, List.mem_filter]
  exact ⟨fun ⟨e, ⟨he, hx⟩, hb⟩ => ⟨e, he, hx, hb.symm⟩, fun ⟨e, he, hx, hb⟩ => ⟨e, ⟨he, hx⟩, hb.symm⟩⟩

/-! ## Matching policy files -/

/-- An entry of `policy_hashes/`: its file name and what reading it gives. -/
structure PolicyEntry where
  fileName : String
  content : Except IoError (List Char)

/-- `retrieve_hash_from_file`: the file's first line. -/
def retrieveHashFromFile (policyFilename : String) (content : Except IoError (List Char)) :
    Except IoError String :=
  match content with
  | .error e => .error e
  | .ok text =>
    match firstLine text with
    | none => .error ⟨.invalidData, "Policy hash for file " ++ policyFilename ++ " was not found"⟩
    | some hashLine => .ok ⟨hashLine⟩

/-- The name `match_policies_to_bin` looks for beside a binary. -/
def assumedPolFilename (binFilename : String) : String := binFilename ++ "_policy_hashes.json"

/-- One binary's pass of `match_policies_to_bin` over the policy directory. -/
def matchEntries (policyDir binFilename : String) (hashes : String → Option PolicyHash) :
    List PolicyEntry → Except IoError (String → Option PolicyHash)
  | [] => .ok hashes
  | e :: es =>
    if e.fileName = assumedPolFilename binFilename then
      match retrieveHashFromFile (policyDir ++ "/" ++ e.fileName) e.content with
      | .error err => .error err
      | .ok h => matchEntries policyDir binFilename (Function.update hashes binFilename (some ⟨h⟩)) es
    else matchEntries policyDir binFilename hashes es

/-- `match_policies_to_bin`: no policy directory gives an empty map. -/
def matchPoliciesToBin (policyDir : String) (entries : Option (List PolicyEntry))
    (targetBinaries : List BinPath) : Except IoError (String → Option PolicyHash) :=
  match entries with
  | none => .ok fun _ => none
  | some es => targetBinaries.foldlM (fun hashes bin => matchEntries policyDir bin.fileName hashes es)
      fun _ => none

/-- What reading a binary's policy file gives, if the directory has one. -/
def policyHashOf (policyDir : String) (es : List PolicyEntry) (binFilename : String) :
    Option (Except IoError String) :=
  (es.find? (·.fileName = assumedPolFilename binFilename)).map fun e =>
    retrieveHashFromFile (policyDir ++ "/" ++ e.fileName) e.content

theorem matchEntries_of_not_mem {policyDir n : String} {es : List PolicyEntry}
    (h : ∀ e ∈ es, e.fileName ≠ assumedPolFilename n) (hashes : String → Option PolicyHash) :
    matchEntries policyDir n hashes es = .ok hashes := by
  induction es with
  | nil => rfl
  | cons e es ih =>
    rw [matchEntries, if_neg (h e (List.mem_cons_self _ _))]
    exact ih fun e' he' => h e' (List.mem_cons_of_mem _ he')

/-- A directory lists each name once, so one binary's pass reads at most one file. -/
theorem matchEntries_eq {policyDir n : String} {es : List PolicyEntry}
    (hnames : (es.map (·.fileName)).Nodup) (hashes : String → Option PolicyHash) :
    matchEntries policyDir n hashes es =
      match policyHashOf policyDir es n with
      | none => .ok hashes
      | some r => r.map fun h => Function.update hashes n (some ⟨h⟩) := by
  induction es generalizing hashes with
  | nil => rfl
  | cons e es ih =>
    simp only [List.map_cons, List.nodup_cons, List.mem_map] at hnames
    by_cases he : e.fileName = assumedPolFilename n
    · have hrest : ∀ e' ∈ es, e'.fileName ≠ assumedPolFilename n :=
        fun e' he' hn => hnames.1 ⟨e', he', hn.trans he.symm⟩
      rw [matchEntries, if_pos he]
      simp only [policyHashOf, List.find?_cons, he, decide_True, Option.map_some']
      cases retrieveHashFromFile (policyDir ++ "/" ++ assumedPolFilename n) e.content with
      | error err => rfl
      | ok h => exact matchEntries_of_not_mem hrest _
    · rw [matchEntries, if_neg he]
      simp only [policyHashOf, List.find?_cons, he, decide_False]
      exact ih hnames.2 hashes

/-- The first binary, in listing order, whose policy file fails to read, with its error. -/
def firstPolicyError (policyDir : String) (es : List PolicyEntry) (bins : List BinPath) :
    Option IoError :=
  bins.findSome? fun b =>
    match policyHashOf policyDir es b.fileName with
    | some (.error e) => some e
    | _ => none

/-- `match_policies_to_bin` from a map `hashes`: the first unreadable policy
file's error, or else each listed binary's policy hash where it has a file. -/
theorem foldlM_matchEntries {policyDir : String} {es : List PolicyEntry}
    (hnames : (es.map (·.fileName)).Nodup) (bins : List BinPath) (hashes : String → Option PolicyHash) :
    bins.foldlM (fun hashes bin => matchEntries policyDir bin.fileName hashes es) hashes =
      match firstPolicyError policyDir es bins with
      | some e => .error e
      | none => .ok fun n => if n ∈ bins.map (·.fileName) then
          match policyHashOf policyDir es n with
          | some (.ok h) => some ⟨h⟩
          | _ => hashes n
        else hashes n := by
  induction bins generalizing hashes with
  | nil => simp only [firstPolicyError, List.findSome?_nil, List.map_nil, List.not_mem_nil, if_false]; rfl
  | cons b bs ih =>
    rw [List.foldlM_cons, matchEntries_eq hnames]
    simp only [firstPolicyError, List.findSome?_cons] at ih ⊢
    rcases hp : policyHashOf policyDir es b.fileName with _ | e | v
    on_goal 2 => rfl
    -- no file, or a readable one: the pass stores at most `b`'s hash
    all_goals
      simp only [bind, Except.bind, Except.map, ih]
      cases List.findSome? _ bs with
      | some e => rfl
      | none =>
        refine congrArg Except.ok (funext fun n => ?_)
        by_cases hn : n = b.fileName
        · subst hn
          simp only [List.mem_map, hp, Function.update_same, ite_self, List.map_cons, List.mem_cons,
            true_or, ↓reduceIte]
        · simp only [List.mem_map, ne_eq, hn, not_false_eq_true, Function.update_noteq,
            List.map_cons, List.mem_cons, false_or]

/-! ## Signing -/

/-- `merge_maps`: the names with both a policy hash and a binary hash. -/
def mergeMaps (policyMap : String → Option PolicyHash) (binaryMap : String → Option BinHash) :
    String → Option (PolicyHash × BinHash) :=
  fun k => (policyMap k).bind fun v1 => (binaryMap k).map fun v2 => (v1, v2)

/-- `get_signing_key`: the key file parsed as a PKCS#8 Ed25519 key pair
(`fromPkcs8`); the error is a panic. -/
def getSigningKey (keyFile : Except IoError Bytes) (fromPkcs8 : Bytes → Option Bytes) :
    Except String Bytes :=
  match keyFile with
  | .error _ => .error "Couldn't read private key certificate file"
  | .ok derBytes =>
    match fromPkcs8 derBytes with
    | none => .error "Couldn't parse certificate file "
    | some kpair => .ok kpair

/-- `gen_certificate`: sign the decoded policy hash followed by the decoded
binary hash. Both decodings panic with the same text; the error is a panic. -/
def genCertificate (C : Crypto) (serviceName : String) (data : PolicyHash × BinHash) (key : Bytes) :
    Except String TahiniCertificate :=
  match hexDecode data.1.hex.data, hexDecode data.2.hex.data with
  | some policyU8, some binaryU8 =>
    .ok ⟨⟨serviceName⟩, data.1, data.2, ⟨⟨hexEncode (C.sign key (policyU8 ++ binaryU8))⟩⟩⟩
  | _, _ => .error "policy hash is not hexadecimal"

/-- The certificates `main` generates: one for each listed name the merged map
has; the first panic ends the run. -/
def genCertificates (C : Crypto) (merged : String → Option (PolicyHash × BinHash)) (skey : Bytes) :
    List String → Except String (String → Option TahiniCertificate)
  | [] => .ok fun _ => none
  | n :: ns =>
    match merged n with
    | none => genCertificates C merged skey ns
    | some data =>
      match genCertificate C n data skey with
      | .error msg => .error msg
      | .ok certificate =>
        (genCertificates C merged skey ns).map (Function.update · n (some certificate))

theorem genCertificates_cons_ok {C : Crypto} {merged : String → Option (PolicyHash × BinHash)}
    {skey : Bytes} {n : String} {data : PolicyHash × BinHash} {c : TahiniCertificate}
    (hm : merged n = some data) (hc : genCertificate C n data skey = .ok c) (ns : List String) :
    genCertificates C merged skey (n :: ns) =
      (genCertificates C merged skey ns).map (Function.update · n (some c)) := by
  simp only [genCertificates, hm, hc]

theorem genCertificate_ok {C : Crypto} {serviceName : String} {data : PolicyHash × BinHash}
    {key : Bytes} {c : TahiniCertificate} :
    genCertificate C serviceName data key = .ok c ↔
      ∃ policyU8 binaryU8, hexDecode data.1.hex.data = some policyU8 ∧
        hexDecode data.2.hex.data = some binaryU8 ∧
        c = ⟨⟨serviceName⟩, data.1, data.2, ⟨⟨hexEncode (C.sign key (policyU8 ++ binaryU8))⟩⟩⟩ := by
  unfold genCertificate
  split
  · rename_i pu bu hp hb
    simp only [eq_comm, Except.ok.injEq, hp, Option.some.injEq, hb, exists_and_left, exists_eq_left']
  · rename_i hne
    simp only [reduceCtorEq, false_iff, not_exists, not_and]
    exact fun pu bu hp hb _ => hne pu bu hp hb

/-- Every panic of `gen_certificate` is a hash that is not hex. -/
theorem genCertificate_error {C : Crypto} {serviceName : String} {data : PolicyHash × BinHash}
    {key : Bytes} {msg : String} (h : genCertificate C serviceName data key = .error msg) :
    msg = "policy hash is not hexadecimal" ∧
      (hexDecode data.1.hex.data = none ∨ hexDecode data.2.hex.data = none) := by
  unfold genCertificate at h
  split at h
  · cases h
  · rename_i hne
    refine ⟨(Except.error.inj h).symm, ?_⟩
    cases hp : hexDecode data.1.hex.data with
    | none => exact .inl rfl
    | some pu =>
      cases hb : hexDecode data.2.hex.data with
      | none => exact .inr rfl
      | some bu => exact (hne pu bu hp hb).elim

/-- When every listed name's certificate signs, `main` has one certificate per
listed name in the merged map, and none for any other name. -/
theorem genCertificates_ok {C : Crypto} {merged : String → Option (PolicyHash × BinHash)}
    {skey : Bytes} {ns : List String} {certs : String → Option TahiniCertificate}
    (h : genCertificates C merged skey ns = .ok certs) (n : String) (c : TahiniCertificate) :
    certs n = some c ↔
      n ∈ ns ∧ ∃ data, merged n = some data ∧ genCertificate C n data skey = .ok c := by
  induction ns generalizing certs with
  | nil => cases h; simp only [List.not_mem_nil, false_and, reduceCtorEq]
  | cons m ms ih =>
    unfold genCertificates at h
    rcases hm : merged m with _ | data
    · rw [hm] at h
      rw [ih h, List.mem_cons, or_and_right, or_iff_right]
      rintro ⟨rfl, _, hd, -⟩
      simp [hm] at hd
    · rw [hm] at h
      dsimp only at h
      rcases hg : genCertificate C m data skey with msg | c'
      · rw [hg] at h; cases h
      · rw [hg] at h
        rcases hr : genCertificates C merged skey ms with msg | rest <;> rw [hr] at h <;> cases h
        by_cases hnm : n = m
        · subst hnm
          simp only [Function.update_same, eq_comm, Option.some.injEq, List.mem_cons, true_or, hm,
            exists_eq_left', hg, Except.ok.injEq, true_and]
        · simp only [ne_eq, hnm, not_false_eq_true, Function.update_noteq, ih hr, Prod.exists,
            List.mem_cons, false_or]

/-- A panic of `main`'s certificate generation is a listed name whose merged
hashes do not decode, and carries the text of `gen_certificate`. -/
theorem genCertificates_error {C : Crypto} {merged : String → Option (PolicyHash × BinHash)}
    {skey : Bytes} {ns : List String} {msg : String}
    (h : genCertificates C merged skey ns = .error msg) :
    msg = "policy hash is not hexadecimal" ∧
      ∃ n ∈ ns, ∃ data, merged n = some data ∧ genCertificate C n data skey = .error msg := by
  induction ns with
  | nil => cases h
  | cons m ms ih =>
    unfold genCertificates at h
    rcases hm : merged m with _ | data
    · rw [hm] at h
      obtain ⟨hmsg, n, hn, rest⟩ := ih h
      exact ⟨hmsg, n, List.mem_cons_of_mem _ hn, rest⟩
    · rw [hm] at h
      dsimp only at h
      rcases hg : genCertificate C m data skey with msg' | c'
      · rw [hg] at h
        cases h
        exact ⟨(genCertificate_error hg).1, m, List.mem_cons_self _ _, data, hm, hg⟩
      · rw [hg] at h
        rcases hr : genCertificates C merged skey ms with msg' | rest <;> rw [hr] at h <;> cases h
        obtain ⟨hmsg, n, hn, rest⟩ := ih hr
        exact ⟨hmsg, n, List.mem_cons_of_mem _ hn, rest⟩

/-! ## `main` -/

/-- `serde_json::to_writer_pretty` of a certificate: a field a line, indented
by two spaces, with no newline after the closing brace. -/
def TahiniCertificate.writePretty (c : TahiniCertificate) : List Char :=
  "\x7b\n  ".data ++ jsonString "service_name" ++ ": ".data ++ jsonString c.serviceName.name ++
  ",\n  ".data ++ jsonString "policy_hash" ++ ": ".data ++ jsonString c.policyHash.hex ++
  ",\n  ".data ++ jsonString "binary_hash" ++ ": ".data ++ jsonString c.binaryHash.hex ++
  ",\n  ".data ++ jsonString "signature" ++ ": ".data ++ jsonString c.signature.hex ++ "\n\x7d".data

/-- What the issuer writes, serde_json reads back (`register_service`'s
`from_reader`): its reader skips the pretty printer's whitespace. -/
theorem decode_writePretty (c : TahiniCertificate) :
    Codec.certificate.decode (TahiniCertificate.writePretty c) = some c := by
  have ht : TahiniCertificate.writePretty c = [] ++ '\x7b' :: (['\n', ' ', ' '] ++
      (jsonString "service_name" ++ ':' :: ' ' :: (Codec.serviceName.write c.serviceName ++ ',' ::
      (['\n', ' ', ' '] ++ (jsonString "policy_hash" ++ ':' :: ' ' :: (Codec.policyHash.write c.policyHash ++
      ',' :: (['\n', ' ', ' '] ++ (jsonString "binary_hash" ++ ':' :: ' ' :: (Codec.binHash.write c.binaryHash ++
      ',' :: (['\n', ' ', ' '] ++ (jsonString "signature" ++ ':' :: ' ' :: (Codec.signature.write c.signature ++
        ['\n', '\x7d'])))))))))))) := by
    simp only [TahiniCertificate.writePretty, List.cons_append, List.singleton_append, List.append_assoc,
      List.nil_append, Codec.serviceName, Codec.map, Codec.string, Codec.policyHash, Codec.binHash,
      Codec.signature]
  have hW : IsWs ['\n', ' ', ' '] := by decide
  have hnil : IsWs [] := by decide
  have hf := fun {α} key (cd : Codec α) a rest => @Codec.field_read_pretty α key cd a _ hW rest
  have hcomma : ∀ r, Delimited (',' :: r) := delimited_cons (by decide)
  -- the fields, read from the last one back
  have h4 := hf "signature" Codec.signature c.signature ['\n', '\x7d'] (delimited_cons (by decide) _)
  have h3 := (Codec.pair_read _ _ (hf "binary_hash" Codec.binHash c.binaryHash _ (hcomma _)) hnil rfl).trans
    (congrArg (Option.map _) h4)
  have h2 := (Codec.pair_read _ _ (hf "policy_hash" Codec.policyHash c.policyHash _ (hcomma _)) hnil rfl).trans
    (congrArg (Option.map _) h3)
  have h1 := (Codec.pair_read _ _ (hf "service_name" Codec.serviceName c.serviceName _ (hcomma _)) hnil
    rfl).trans (congrArg (Option.map _) h2)
  simp only [Codec.certificate, Codec.decode, Codec.map, ht,
    Codec.obj_read _ hnil h1 (show IsWs ['\n'] by decide) rfl]
  rfl

/-- What `main` reads besides the key: the project folder, the listings of
`target/release` and `policy_hashes/`, and each executable's bytes and
`read` results. -/
structure IssuerInput where
  projectFolder : String
  release : Option (List TargetEntry)
  policies : Option (List PolicyEntry)
  files : BinPath → Option Bytes
  reads : BinPath → List ReadResult

/-- `main`: a panic, an `io::Error`, or the text written to each
`certificates/<name>_certificate.json`, keyed by name. -/
def main (C : Crypto) (keyFile : Except IoError Bytes) (fromPkcs8 : Bytes → Option Bytes)
    (inp : IssuerInput) : Except String (Except IoError (String → Option (List Char))) := do
  let skey ← getSigningKey keyFile fromPkcs8
  let binaries := findBinariesInTarget (inp.projectFolder ++ "/target/release") inp.release
  match matchPoliciesToBin (inp.projectFolder ++ "/policy_hashes") inp.policies binaries with
  | .error e => pure (.error e)
  | .ok pols =>
    match hashBinaries inp.files inp.reads binaries with
    | .error e => pure (.error e)
    | .ok binHashes =>
      let certificates ←
        genCertificates C (mergeMaps pols binHashes) skey (binaries.map (·.fileName))
      pure (.ok fun k => (certificates k).map TahiniCertificate.writePretty)

/-- A run that writes its certificates went through every stage without error. -/
theorem main_ok {C : Crypto} {keyFile : Except IoError Bytes} {fromPkcs8 : Bytes → Option Bytes}
    {inp : IssuerInput} {out : String → Option (List Char)}
    (h : main C keyFile fromPkcs8 inp = .ok (.ok out)) :
    let binaries := findBinariesInTarget (inp.projectFolder ++ "/target/release") inp.release
    ∃ skey pols binHashes certs, getSigningKey keyFile fromPkcs8 = .ok skey ∧
      matchPoliciesToBin (inp.projectFolder ++ "/policy_hashes") inp.policies binaries = .ok pols ∧
      hashBinaries inp.files inp.reads binaries = .ok binHashes ∧
      genCertificates C (mergeMaps pols binHashes) skey (binaries.map (·.fileName)) = .ok certs ∧
      out = fun k => (certs k).map TahiniCertificate.writePretty := by
  intro binaries
  unfold main at h
  rcases hk : getSigningKey keyFile fromPkcs8 with msg | skey <;>
    simp only [hk, bind, Except.bind] at h
  · cases h
  rcases hm : matchPoliciesToBin (inp.projectFolder ++ "/policy_hashes") inp.policies binaries
    with e | pols <;> simp only [binaries, hm] at h
  · cases h
  rcases hb : hashBinaries inp.files inp.reads binaries with e | binHashes <;>
    simp only [binaries, hb] at h
  · cases h
  rcases hg : genCertificates C (mergeMaps pols binHashes) skey (binaries.map (·.fileName))
    with msg | certs <;> simp only [binaries, hg, pure, Except.pure] at h
  · cases h
  exact ⟨skey, pols, binHashes, certs, rfl, rfl, rfl, hg, (Except.ok.inj (Except.ok.inj h)).symm⟩

/-- Every file the issuer writes is a certificate named after its binary,
pretty-printed. -/
theorem main_out_certificate {C : Crypto} {keyFile : Except IoError Bytes}
    {fromPkcs8 : Bytes → Option Bytes} {inp : IssuerInput} {out : String → Option (List Char)}
    (h : main C keyFile fromPkcs8 inp = .ok (.ok out)) {k : String} {text : List Char}
    (hk : out k = some text) :
    ∃ c : TahiniCertificate, text = TahiniCertificate.writePretty c ∧ c.serviceName = ⟨k⟩ := by
  obtain ⟨skey, pols, binHashes, certs, -, -, -, hg, rfl⟩ := main_ok h
  obtain ⟨c, hc, rfl⟩ := Option.map_eq_some'.1 hk
  obtain ⟨-, data, -, hgen⟩ := (genCertificates_ok hg k c).1 hc
  obtain ⟨_, _, -, -, rfl⟩ := genCertificate_ok.1 hgen
  exact ⟨_, rfl, rfl⟩

/-- A project with one executable `svc`, three bytes long, whose policy file's
first line is `P`: `main` signs one certificate, for `svc`, over the decoded
`P` and the content's hash. -/
theorem main_single_binary (C : Crypto) {policyText P : List Char} {pu : Bytes}
    (hP : firstLine policyText = some P) (hpu : hexDecode P = some pu) :
    main C (.ok []) some ⟨"proj", some [⟨"svc", some ⟨true, 0o755⟩⟩],
        some [⟨"svc_policy_hashes.json", .ok policyText⟩], fun _ => some [1, 2, 3],
        fun _ => Chunking.reads [3]⟩ =
      .ok (.ok fun k => (Function.update (fun _ => none) "svc" (some ⟨⟨"svc"⟩, ⟨⟨P⟩⟩,
        ⟨String.mk (sha256Digest [1, 2, 3])⟩, ⟨⟨hexEncode (C.sign [] (pu ++ sha256 [1, 2, 3]))⟩⟩⟩) k).map
          TahiniCertificate.writePretty) := by
  have hbins : findBinariesInTarget ("proj" ++ "/target/release") (some [⟨"svc", some ⟨true, 0o755⟩⟩]) =
      [⟨"proj/target/release", "svc"⟩] := rfl
  have hpols : matchPoliciesToBin ("proj" ++ "/policy_hashes")
      (some [⟨"svc_policy_hashes.json", .ok policyText⟩]) [⟨"proj/target/release", "svc"⟩] =
      .ok (Function.update (fun _ => none) "svc" (some ⟨⟨P⟩⟩)) := by
    simp [matchPoliciesToBin, matchEntries, assumedPolFilename, retrieveHashFromFile, hP]
  obtain ⟨m, hm, hlook⟩ := hashBinaries_ok (fun _ => some [1, 2, 3]) (fun _ => Chunking.reads [3])
    [⟨"proj/target/release", "svc"⟩] (by decide) fun _ _ => ⟨_, [3], rfl, ⟨by simp, rfl⟩, rfl⟩
  have hmerged : mergeMaps (Function.update (fun _ => none) "svc" (some ⟨⟨P⟩⟩)) m "svc" =
      some (⟨⟨P⟩⟩, ⟨String.mk (sha256Digest [1, 2, 3])⟩) := by
    simp only [mergeMaps, hlook _ (List.mem_singleton_self _) _ rfl, Function.update_same,
      Option.some_bind, Option.map_some']
  have hcert : genCertificate C "svc" (⟨⟨P⟩⟩, ⟨String.mk (sha256Digest [1, 2, 3])⟩) [] =
      .ok ⟨⟨"svc"⟩, ⟨⟨P⟩⟩, ⟨String.mk (sha256Digest [1, 2, 3])⟩,
        ⟨⟨hexEncode (C.sign [] (pu ++ sha256 [1, 2, 3]))⟩⟩⟩ :=
    genCertificate_ok.2 ⟨pu, _, hpu, hexDecode_hexEncode _, rfl⟩
  simp only [main, hbins, hpols, hm]
  simp only [getSigningKey, bind, Except.bind, List.map_cons, List.map_nil,
    genCertificates_cons_ok hmerged hcert]
  rfl

/-- A policy file whose first line is blank is not refused: its hash is the
empty string, `hex::decode("")` is the empty byte string, and the run issues
a certificate with an empty `policy_hash`, signed over the binary's hash
alone. Here `target/release` holds one executable `svc` and
`policy_hashes/svc_policy_hashes.json` holds a single newline. -/
theorem main_issues_blank_policy_hash (C : Crypto) :
    ∃ (out : String → Option (List Char)) (c : TahiniCertificate),
      main C (.ok []) some ⟨"proj", some [⟨"svc", some ⟨true, 0o755⟩⟩],
        some [⟨"svc_policy_hashes.json", .ok "\n".data⟩], fun _ => some [1, 2, 3],
        fun _ => Chunking.reads [3]⟩ = .ok (.ok out) ∧
      out "svc" = some (TahiniCertificate.writePretty c) ∧ c.serviceName = ⟨"svc"⟩ ∧
      c.policyHash = ⟨""⟩ ∧ c.signature = ⟨⟨hexEncode (C.sign [] (sha256 [1, 2, 3]))⟩⟩ :=
  ⟨_, ⟨⟨"svc"⟩, ⟨""⟩, ⟨String.mk (sha256Digest [1, 2, 3])⟩, ⟨⟨hexEncode (C.sign [] ([] ++ sha256 [1, 2, 3]))⟩⟩⟩,
    @main_single_binary C "\n".data [] [] rfl rfl, rfl, rfl, rfl, by rw [List.nil_append]⟩

end Tahini.Issuer
