import Tahini.Core.Certificate

/-!
# Building the certificate store from a config file

`CertificateLoader::from_config` (`hoodini-core/src/certificate.rs`) reads a
TOML file, lets `toml::from_str` deserialize it into its `Config`, and hands
it to `Config::into_loader`. That loads the certificate issuer's key if the
config names one, registers the `service_mapping` table with
`register_bin_mapping` and each entry of the `certificates` table with
`register_service`. The client's verifier (`Client.Config`) and the sidecar
(`Sidecar.Setup`) build their stores this way.

Parsing and deserializing are the `toml` crate's: the model takes them as a
function `parse` from the file's text to a `Config` or the error's text. A
TOML table is the list of its entries in iteration order (`toml::Table` is a
`BTreeMap`, so that is key order). Every file a loader reads comes from
`Files`.

`registerBinMappings_ok` and `registerServices_ok` show that the two loops
are runs of the store's own operations (`LoaderOp`), so a store a config
builds keeps the store's invariants (`intoLoader_certificatesNamed`).
`intoLoader_panic` lists what can panic: a key file shorter than 32 bytes
(the `len() - 32` of the key slicing) and a `service_mapping` value that is
not a string (`as_str().unwrap()`).

Mirroring note: `read_to_string` fails on a file that is not UTF-8;
`Files.text` folds that into its `io::Error`.
-/

namespace Tahini.Core

/-- `toml::Value`. Floats and datetimes are left out: no config here reads one,
and every value that is not a string is treated alike. -/
inductive TomlValue where
  | string (s : String)
  | integer (n : Int)
  | boolean (b : Bool)
  | array (vs : List TomlValue)
  | table (entries : List (String × TomlValue))

/-- `Value::as_str`. -/
def TomlValue.asStr : TomlValue → Option String
  | .string s => some s
  | _ => none

/-- The files a loader reads: a text file's contents (`read_to_string`,
`serde_json::from_reader`) and a key file's bytes (`read_to_end`), or the
error reading it gave. -/
structure Files where
  text : String → Except IoError (List Char)
  bytes : String → Except IoError Bytes

/-- `Path::join` on Unix: an absolute name replaces the base; otherwise a
`/` goes between them unless the base is empty or already ends in one. -/
def pathJoin (base name : String) : String :=
  if name.data.head? = some '/' then name
  else if base.data.getLast?.all (· == '/') then base ++ name
  else base ++ "/" ++ name

/-- `hoodini-core`'s `KeyConfig`. -/
structure KeyConfig where
  path : String

/-- `hoodini-core`'s `Config`, as `toml::from_str` deserializes it. -/
structure Config where
  certificates : List (String × TomlValue)
  keys : Option KeyConfig
  serviceMapping : List (String × TomlValue)

/-- The `service_mapping` loop: each value must be a string
(`as_str().unwrap()`); the entry maps the value's service to the key's binary. -/
def registerBinMappings (l : CertificateLoader) :
    List (String × TomlValue) → Except String CertificateLoader
  | [] => .ok l
  | (binName, serviceName) :: rest =>
    match serviceName.asStr with
    | none => .error "called `Option::unwrap()` on a `None` value"
    | some s => registerBinMappings (l.registerBinMapping ⟨binName⟩ ⟨s⟩) rest

/-- The `certificates` loop: each value must be the path of a certificate,
which `register_service` loads under the entry's key. -/
def registerServices (fs : Files) (l : CertificateLoader) :
    List (String × TomlValue) → Except AttestErrors CertificateLoader
  | [] => .ok l
  | (serviceName, v) :: rest =>
    match v with
    | .string certifPath =>
      match l.registerService (fs.text certifPath) ⟨serviceName⟩ with
      | .error e => .error e
      | .ok (_, l) => registerServices fs l rest
    | _ => .error (.configError "Certificate path is malformed")

/-- The key step of `into_loader`: load the issuer's key if the config names
one; the outer `Except` is a panic. -/
def Config.keyedLoader (fs : Files) (data : Config) :
    Except String (Except AttestErrors CertificateLoader) :=
  match data.keys with
  | none => .ok (.ok CertificateLoader.new)
  | some keys => (CertificateLoader.new.loadCertificateKey (fs.bytes keys.path)).map (·.map (·.2))

/-- `Config::into_loader`; the outer `Except` is a panic. -/
def Config.intoLoader (fs : Files) (data : Config) :
    Except String (Except AttestErrors CertificateLoader) :=
  match data.keyedLoader fs with
  | .error msg => .error msg
  | .ok (.error e) => .ok (.error e)
  | .ok (.ok loader) =>
    match registerBinMappings loader data.serviceMapping with
    | .error msg => .error msg
    | .ok loader => .ok (registerServices fs loader data.certificates)

/-- `CertificateLoader::from_config`. -/
def CertificateLoader.fromConfig (parse : List Char → Except String Config) (fs : Files)
    (configPath : String) : Except String (Except AttestErrors CertificateLoader) :=
  match fs.text configPath with
  | .error e => .ok (.error (.ioError e))
  | .ok contents =>
    match parse contents with
    | .error msg => .ok (.error (.configError msg))
    | .ok data => data.intoLoader fs

/-! ## The loops are runs of the store's operations -/

theorem registerBinMappings_ok {l l' : CertificateLoader} {kvs : List (String × TomlValue)}
    (h : registerBinMappings l kvs = .ok l') :
    ∃ ops, (∀ op ∈ ops, ∃ bin service, op = LoaderOp.registerBinMapping bin service) ∧
      l' = runOps ops l := by
  induction kvs generalizing l with
  | nil => cases h; exact ⟨[], by simp, rfl⟩
  | cons kv kvs ih =>
    obtain ⟨binName, serviceName⟩ := kv
    unfold registerBinMappings at h
    rcases hs : serviceName.asStr with _ | s <;> rw [hs] at h
    · cases h
    · obtain ⟨ops, hops, rfl⟩ := ih h
      refine ⟨.registerBinMapping ⟨binName⟩ ⟨s⟩ :: ops, ?_, rfl⟩
      rintro op (_ | ⟨_, hop⟩)
      · exact ⟨_, _, rfl⟩
      · exact hops op hop

/-- One entry of the `certificates` loop goes through: its value is a path,
and the store registers the file there under the entry's name. -/
theorem registerServices_cons_ok {fs : Files} {l l' : CertificateLoader} {serviceName : String}
    {v : TomlValue} {kvs : List (String × TomlValue)}
    (h : registerServices fs l ((serviceName, v) :: kvs) = .ok l') :
    ∃ certifPath b l₁, v = .string certifPath ∧
      l.registerService (fs.text certifPath) ⟨serviceName⟩ = .ok (b, l₁) ∧
      registerServices fs l₁ kvs = .ok l' := by
  unfold registerServices at h
  split at h
  · rename_i certifPath
    rcases hr : l.registerService (fs.text certifPath) ⟨serviceName⟩ with e | ⟨b, l₁⟩ <;>
      rw [hr] at h
    · cases h
    · exact ⟨certifPath, b, l₁, rfl, hr, h⟩
  · cases h

theorem registerServices_ok {fs : Files} {l l' : CertificateLoader} {kvs : List (String × TomlValue)}
    (h : registerServices fs l kvs = .ok l') :
    ∃ ops : List LoaderOp, l' = runOps ops l := by
  induction kvs generalizing l with
  | nil => cases h; exact ⟨[], rfl⟩
  | cons kv kvs ih =>
    obtain ⟨serviceName, v⟩ := kv
    obtain ⟨certifPath, b, l₁, -, hr, h⟩ := registerServices_cons_ok h
    obtain ⟨ops, rfl⟩ := ih h
    exact ⟨.registerService (fs.text certifPath) ⟨serviceName⟩ :: ops, by simp [runOps, LoaderOp.run, hr]⟩

theorem registerBinMappings_error {l : CertificateLoader} {kvs : List (String × TomlValue)}
    {msg : String} (h : registerBinMappings l kvs = .error msg) :
    (∃ kv ∈ kvs, kv.2.asStr = none) ∧ msg = "called `Option::unwrap()` on a `None` value" := by
  induction kvs generalizing l with
  | nil => cases h
  | cons kv kvs ih =>
    obtain ⟨binName, serviceName⟩ := kv
    unfold registerBinMappings at h
    rcases hs : serviceName.asStr with _ | s <;> rw [hs] at h
    · cases h
      exact ⟨⟨_, List.mem_cons_self _ _, hs⟩, rfl⟩
    · obtain ⟨⟨kv, hkv, hn⟩, hmsg⟩ := ih h
      exact ⟨⟨kv, List.mem_cons_of_mem _ hkv, hn⟩, hmsg⟩

/-- `load_certificate_key` panics only on a store without a key and a key
file shorter than 32 bytes. -/
theorem loadCertificateKey_panic {l : CertificateLoader} {file : Except IoError Bytes}
    {msg : String} (h : l.loadCertificateKey file = .error msg) :
    l.acceptedKeys = none ∧ ∃ bs, file = .ok bs ∧ bs.length < 32 ∧
      msg = "range start index out of range for slice" := by
  unfold CertificateLoader.loadCertificateKey at h
  split at h
  · cases h
  · rename_i hk
    split at h
    · cases h
    · split at h
      · cases h
        exact ⟨by simpa using hk, _, rfl, ‹_›, rfl⟩
      · cases h

theorem keyedLoader_ok {fs : Files} {data : Config} {l : CertificateLoader}
    (h : data.keyedLoader fs = .ok (.ok l)) : ∃ ops, l = runOps ops CertificateLoader.new := by
  unfold Config.keyedLoader at h
  split at h
  · cases h; exact ⟨[], rfl⟩
  · rename_i keys _
    rcases hk : CertificateLoader.new.loadCertificateKey (fs.bytes keys.path) with msg | (e | ⟨b, l₁⟩) <;>
      rw [hk] at h <;> cases h
    exact ⟨[.loadCertificateKey (fs.bytes keys.path)], by simp [runOps, LoaderOp.run, hk]⟩

theorem keyedLoader_panic {fs : Files} {data : Config} {msg : String}
    (h : data.keyedLoader fs = .error msg) :
    ∃ keys bs, data.keys = some keys ∧ fs.bytes keys.path = .ok bs ∧ bs.length < 32 ∧
      msg = "range start index out of range for slice" := by
  unfold Config.keyedLoader at h
  split at h
  · cases h
  · rename_i keys hkeys
    rcases hk : CertificateLoader.new.loadCertificateKey (fs.bytes keys.path) with msg' | r <;>
      rw [hk] at h <;> cases h
    obtain ⟨-, bs, hbs, hlen, rfl⟩ := loadCertificateKey_panic hk
    exact ⟨keys, bs, hkeys, hbs, hlen, rfl⟩

/-- `into_loader` ran the key step, the `service_mapping` loop and the
`certificates` loop, each without error. -/
theorem intoLoader_ok {fs : Files} {data : Config} {l : CertificateLoader}
    (h : data.intoLoader fs = .ok (.ok l)) :
    ∃ l₀ l₁, data.keyedLoader fs = .ok (.ok l₀) ∧ registerBinMappings l₀ data.serviceMapping = .ok l₁ ∧
      registerServices fs l₁ data.certificates = .ok l := by
  unfold Config.intoLoader at h
  split at h
  · cases h
  · cases h
  · rename_i l₀ hk
    split at h
    · cases h
    · exact ⟨l₀, _, hk, ‹_›, Except.ok.inj h⟩

/-- `from_config` read its file, parsed it, and ran `into_loader`. -/
theorem fromConfig_ok {parse : List Char → Except String Config} {fs : Files} {configPath : String}
    {l : CertificateLoader} (h : CertificateLoader.fromConfig parse fs configPath = .ok (.ok l)) :
    ∃ contents data, fs.text configPath = .ok contents ∧ parse contents = .ok data ∧
      data.intoLoader fs = .ok (.ok l) := by
  unfold CertificateLoader.fromConfig at h
  split at h
  · cases h
  · split at h
    · cases h
    · exact ⟨_, _, ‹_›, ‹_›, h⟩

/-- A store `into_loader` builds is a run of the store's operations from
`new`, so every certificate in it sits under its own name. -/
theorem intoLoader_certificatesNamed {fs : Files} {data : Config} {l : CertificateLoader}
    (h : data.intoLoader fs = .ok (.ok l)) : l.CertificatesNamed := by
  obtain ⟨l₀, l₁, hk, hm, hs⟩ := intoLoader_ok h
  obtain ⟨ops₃, rfl⟩ := registerServices_ok hs
  obtain ⟨ops₁, rfl⟩ := keyedLoader_ok hk
  obtain ⟨ops₂, -, rfl⟩ := registerBinMappings_ok hm
  rw [← runOps_append, ← runOps_append]
  exact runOps_certificatesNamed _ CertificateLoader.new_certificatesNamed

/-- So is a store `from_config` builds. -/
theorem fromConfig_certificatesNamed {parse : List Char → Except String Config} {fs : Files}
    {configPath : String} {l : CertificateLoader}
    (h : CertificateLoader.fromConfig parse fs configPath = .ok (.ok l)) : l.CertificatesNamed := by
  obtain ⟨_, _, -, -, hl⟩ := fromConfig_ok h
  exact intoLoader_certificatesNamed hl

/-! ## What the loops store -/

/-- The `service_mapping` loop does not touch the certificates. -/
theorem registerBinMappings_certificates {l l' : CertificateLoader} {kvs : List (String × TomlValue)}
    (h : registerBinMappings l kvs = .ok l') : l'.certificates = l.certificates := by
  obtain ⟨ops, hops, rfl⟩ := registerBinMappings_ok h
  clear h
  induction ops generalizing l with
  | nil => rfl
  | cons op ops ih =>
    obtain ⟨bin, service, rfl⟩ := hops op (List.mem_cons_self _ _)
    exact ih (fun o ho => hops o (List.mem_cons_of_mem _ ho))

/-- The `certificates` loop leaves a name that no entry has as it was. -/
theorem registerServices_certificates_of_not_mem {fs : Files} {l l' : CertificateLoader}
    {kvs : List (String × TomlValue)} (h : registerServices fs l kvs = .ok l') {k : String}
    (hk : ∀ v, (k, v) ∉ kvs) : l'.certificates ⟨k⟩ = l.certificates ⟨k⟩ := by
  induction kvs generalizing l with
  | nil => cases h; rfl
  | cons kv kvs ih =>
    obtain ⟨k', v⟩ := kv
    obtain ⟨p, b, l₁, -, hr, h⟩ := registerServices_cons_ok h
    obtain ⟨c, -, rfl⟩ := CertificateLoader.registerService_ok hr
    have hne : (⟨k⟩ : ServiceName) ≠ ⟨k'⟩ := fun he => by
      cases he; exact hk _ (List.mem_cons_self _ _)
    rw [ih h fun v' hv' => hk v' (List.mem_cons_of_mem _ hv')]
    exact Function.update_noteq hne _ _

/-- The `certificates` loop stores under a key the certificate its file
decodes to, when all the key's entries name that one file. -/
theorem registerServices_certificates_of_mem {fs : Files} {l l' : CertificateLoader}
    {kvs : List (String × TomlValue)} (h : registerServices fs l kvs = .ok l') {k p : String}
    (hk : (k, .string p) ∈ kvs) (huniq : ∀ v, (k, v) ∈ kvs → v = .string p) :
    ∃ text c, fs.text p = .ok text ∧ Codec.certificate.decode text = some c ∧
      l'.certificates ⟨k⟩ = some c := by
  induction kvs generalizing l with
  | nil => cases hk
  | cons kv kvs ih =>
    obtain ⟨k', v⟩ := kv
    obtain ⟨p', b, l₁, rfl, hr, h⟩ := registerServices_cons_ok h
    by_cases hrest : (k, TomlValue.string p) ∈ kvs
    · exact ih h hrest fun v hv => huniq v (List.mem_cons_of_mem _ hv)
    · -- the head is the key's only entry
      have hhead := (List.mem_cons.1 hk).resolve_right hrest
      simp only [Prod.mk.injEq, TomlValue.string.injEq] at hhead
      obtain ⟨rfl, rfl⟩ := hhead
      rcases hf : fs.text p with e | text <;> rw [hf] at hr
      · cases hr
      · obtain ⟨c, hdec, -, rfl⟩ := CertificateLoader.registerService_ok_file hr
        refine ⟨text, c, rfl, hdec, ?_⟩
        rw [registerServices_certificates_of_not_mem h fun v hv =>
          hrest (huniq v (List.mem_cons_of_mem _ hv) ▸ hv)]
        exact Function.update_same _ _ _

/-! ## When the loops succeed -/

/-- The `service_mapping` loop succeeds when every value is a string. -/
theorem registerBinMappings_of_asStr {kvs : List (String × TomlValue)}
    (h : ∀ kv ∈ kvs, kv.2.asStr ≠ none) (l : CertificateLoader) :
    ∃ l', registerBinMappings l kvs = .ok l' := by
  induction kvs generalizing l with
  | nil => exact ⟨l, rfl⟩
  | cons kv kvs ih =>
    obtain ⟨s, hs⟩ := Option.ne_none_iff_exists'.1 (h kv (List.mem_cons_self _ _))
    obtain ⟨l', hl'⟩ := ih (fun kv' hkv' => h kv' (List.mem_cons_of_mem _ hkv'))
      (l.registerBinMapping ⟨kv.1⟩ ⟨s⟩)
    exact ⟨l', by simp only [registerBinMappings, hs, hl']⟩

/-- The `certificates` loop succeeds when every entry names a file that
decodes to a certificate of the entry's own name. -/
theorem registerServices_of_files {fs : Files} {kvs : List (String × TomlValue)}
    (h : ∀ kv ∈ kvs, ∃ p text c, kv.2 = .string p ∧ fs.text p = .ok text ∧
      Codec.certificate.decode text = some c ∧ c.serviceName = ⟨kv.1⟩) (l : CertificateLoader) :
    ∃ l', registerServices fs l kvs = .ok l' := by
  induction kvs generalizing l with
  | nil => exact ⟨l, rfl⟩
  | cons kv kvs ih =>
    obtain ⟨p, text, c, hv, ht, hd, hn⟩ := h kv (List.mem_cons_self _ _)
    obtain ⟨k, v⟩ := kv
    subst hv
    obtain ⟨l', hl'⟩ := ih (fun kv' hkv' => h kv' (List.mem_cons_of_mem _ hkv'))
      { l with certificates := Function.update l.certificates ⟨k⟩ (some c) }
    exact ⟨l', by simp [registerServices, CertificateLoader.registerService, ht, hd, hn, hl']⟩

/-- `into_loader` panics exactly where a key file shorter than 32 bytes is
sliced, or where a `service_mapping` value is not a string. -/
theorem intoLoader_panic {fs : Files} {data : Config} {msg : String}
    (h : data.intoLoader fs = .error msg) :
    (∃ keys bs, data.keys = some keys ∧ fs.bytes keys.path = .ok bs ∧ bs.length < 32 ∧
      msg = "range start index out of range for slice") ∨
    ((∃ kv ∈ data.serviceMapping, kv.2.asStr = none) ∧
      msg = "called `Option::unwrap()` on a `None` value") := by
  unfold Config.intoLoader at h
  split at h
  · cases h
    exact .inl (keyedLoader_panic ‹_›)
  · cases h
  · split at h
    · cases h
      exact .inr (registerBinMappings_error ‹_›)
    · cases h

end Tahini.Core
