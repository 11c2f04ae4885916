import Tahini.Core.Config
import Tahini.Issuer.Main

/-!
# The deployment configs (`config_parser/src/main.rs`)

`config_parser` turns a project's metadata into the two files the sidecar
reads when it starts. From the metadata's `binaries` and `service_mapping`
tables it writes `./certificate_config.toml`, which names for every binary
the file the issuer wrote its certificate to (`parse_to_cert_conf`), and
`./sidecar_config.toml`, which adds the paths of the certificate config and
of the attestation key (`parse_to_runtime_conf`).

`fromConfig_loads_issued` follows a project through the issuer, this tool
and the certificate store's `from_config`. Suppose every binary in the
metadata got a certificate from the issuer. Then the store built from
`certificate_config.toml` holds, under each binary's name, exactly the
certificate the issuer wrote for it. It is assembled from the issuer's
`main_out_certificate` (every file the issuer writes is a certificate named
after its binary), `mem_parseToCertConf` (which file each entry names),
`main_certificateConfig` (what a run that did not panic wrote), and the
store lemmas of `Core.Config`. The one property of the TOML library it
needs, that its reader reads back the certificate config its writer wrote,
is one of its hypotheses.

Mirroring notes vs the source:
- `toml::from_str`, `toml::to_string_pretty` and `toml::to_string` are
  library code and enter as functions.
- A `toml::Table` is a map sorted by key; here it is a list of entries in
  that order, and `parse_to_cert_conf` keeps the order of `binaries`.
- `PathBuf::to_str().unwrap()` cannot panic, since paths are strings here.
  Failures of `File::create` and of `write`, and the `println!` of the binary
  map, are not modelled; a `write` to a regular file takes the whole buffer.
-/

namespace Tahini.Deploy

open Tahini.Core Tahini.Issuer

/-- `CliArgs`: the four paths of the command line. -/
structure CliArgs where
  metadataPath : String
  certificatePath : String
  keySigningPath : String
  certifConfigPath : String

/-- `MetadataConfig`, as `toml::from_str` deserializes the project metadata. -/
structure MetadataConfig where
  binaries : List (String × TomlValue)
  serviceMapping : List (String × TomlValue)

/-- `CertificateConfig`. -/
structure CertificateConfig where
  certificates : List (String × TomlValue)
  serviceMapping : List (String × TomlValue)

/-- `RuntimeConfig`; `CertifConfForRuntime` and `KeyConf` are their one path each. -/
structure RuntimeConfig where
  binaries : List (String × TomlValue)
  certificatesConfig : String
  signingKey : String
  serviceMapping : List (String × TomlValue)

/-- The file `format!("{}_certificate.json", key)` in a directory, where both
the issuer and `parse_to_cert_conf` put a binary's certificate. -/
def certificateFile (dir key : String) : String := pathJoin dir (key ++ "_certificate.json")

/-- `MetadataConfig::parse_to_cert_conf`: each binary's certificate file, and
the service mapping as it is. -/
def MetadataConfig.parseToCertConf (md : MetadataConfig) (certPath : String) : CertificateConfig :=
  ⟨md.binaries.map fun kv => (kv.1, .string (certificateFile certPath kv.1)), md.serviceMapping⟩

/-- `MetadataConfig::parse_to_runtime_conf`. -/
def MetadataConfig.parseToRuntimeConf (md : MetadataConfig) (args : CliArgs) : RuntimeConfig :=
  ⟨md.binaries, args.certifConfigPath, args.keySigningPath, md.serviceMapping⟩

/-- `main`: the files it writes, each with its text, and the panic that ended
it, if any. `File::create` comes before each serialization, so a failed
serialization leaves its file empty. -/
def main (args : CliArgs) (metadata : Except IoError (List Char))
    (parse : List Char → Except String MetadataConfig)
    (writeCert : CertificateConfig → Except String (List Char))
    (writeRuntime : RuntimeConfig → Except String (List Char)) :
    List (String × List Char) × Option String :=
  match metadata with
  | .error _ => ([], some "Couldn't read metadata file provided")
  | .ok contents =>
    match parse contents with
    | .error _ => ([], some "Toml file malformed")
    | .ok baseConfig =>
      match writeCert (baseConfig.parseToCertConf args.certificatePath) with
      | .error _ => ([("./certificate_config.toml", [])], some "Cert config is malformed TOML")
      | .ok certText =>
        match writeRuntime (baseConfig.parseToRuntimeConf args) with
        | .error _ => ([("./certificate_config.toml", certText), ("./sidecar_config.toml", [])],
            some "Cert config is malformed TOML")
        | .ok runtimeText =>
          ([("./certificate_config.toml", certText), ("./sidecar_config.toml", runtimeText)], none)

/-! ## What the two configs hold -/

/-- The certificate config has an entry for each binary and no other, naming
the binary's certificate file in the certificate directory. -/
theorem mem_parseToCertConf {md : MetadataConfig} {certPath k : String} {v : TomlValue} :
    (k, v) ∈ (md.parseToCertConf certPath).certificates ↔
      (∃ v₀, (k, v₀) ∈ md.binaries) ∧ v = .string (certificateFile certPath k) := by
  simp only [MetadataConfig.parseToCertConf, List.mem_map, Prod.mk.injEq]
  constructor
  · rintro ⟨⟨k', v₀⟩, hmem, rfl, rfl⟩
    exact ⟨⟨v₀, hmem⟩, rfl⟩
  · rintro ⟨⟨v₀, hmem⟩, rfl⟩
    exact ⟨(k, v₀), hmem, rfl, rfl⟩

/-- A run that did not panic read the metadata and wrote the serialized
certificate config to `./certificate_config.toml`. -/
theorem main_certificateConfig {args : CliArgs} {contents : List Char}
    {parse : List Char → Except String MetadataConfig} {md : MetadataConfig}
    {writeCert : CertificateConfig → Except String (List Char)}
    {writeRuntime : RuntimeConfig → Except String (List Char)} (hmd : parse contents = .ok md)
    (hrun : (main args (.ok contents) parse writeCert writeRuntime).2 = none) :
    ∃ certText, writeCert (md.parseToCertConf args.certificatePath) = .ok certText ∧
      ("./certificate_config.toml", certText) ∈ (main args (.ok contents) parse writeCert writeRuntime).1 := by
  simp only [main, hmd] at hrun ⊢
  rcases hc : writeCert (md.parseToCertConf args.certificatePath) with e | certText <;>
    simp only [hc] at hrun ⊢
  · cases hrun
  · rcases hr : writeRuntime (md.parseToRuntimeConf args) with e | runtimeText <;>
      simp [hr] at hrun ⊢

/-! ## From the issuer to the certificate store -/

/-- The store the sidecar builds from the certificate config holds, under
each binary of the metadata, the certificate the issuer wrote for it, and
nothing under any other name. The
hypotheses join the three programs: the issuer's run and `config_parser`'s
run finished, the TOML reader reads back the certificate config its writer
wrote, the
files hold what the two programs wrote (the issuer's under the directory
given as `certificate_dir_path`), the issuer certified every binary of the
metadata, and every `service_mapping` value is a string. -/
theorem fromConfig_loads_issued {C : Crypto} {keyFile : Except IoError Bytes}
    {fromPkcs8 : Bytes → Option Bytes} {inp : IssuerInput} {out : String → Option (List Char)}
    (hissue : Issuer.main C keyFile fromPkcs8 inp = .ok (.ok out))
    {args : CliArgs} {contents : List Char} {parseMd : List Char → Except String MetadataConfig}
    {md : MetadataConfig} {writeCert : CertificateConfig → Except String (List Char)}
    {writeRuntime : RuntimeConfig → Except String (List Char)} (hmd : parseMd contents = .ok md)
    (hrun : (main args (.ok contents) parseMd writeCert writeRuntime).2 = none)
    {parse : List Char → Except String Config}
    (hread : ∀ text, writeCert (md.parseToCertConf args.certificatePath) = .ok text →
      parse text = .ok ⟨(md.parseToCertConf args.certificatePath).certificates, none, md.serviceMapping⟩)
    {fs : Files}
    (hwritten : ∀ path text, (path, text) ∈ (main args (.ok contents) parseMd writeCert writeRuntime).1 →
      fs.text path = .ok text)
    (hcerts : ∀ k text, out k = some text → fs.text (certificateFile args.certificatePath k) = .ok text)
    (hissued : ∀ kv ∈ md.binaries, out kv.1 ≠ none)
    (hmapping : ∀ kv ∈ md.serviceMapping, kv.2.asStr ≠ none) :
    ∃ l, CertificateLoader.fromConfig parse fs "./certificate_config.toml" = .ok (.ok l) ∧
      (∀ kv ∈ md.binaries, ∃ c, out kv.1 = some (TahiniCertificate.writePretty c) ∧
        l.certificates ⟨kv.1⟩ = some c) ∧
      ∀ k, (∀ v, (k, v) ∉ md.binaries) → l.certificates ⟨k⟩ = none := by
  obtain ⟨certText, hwrite, hmem⟩ := main_certificateConfig hmd hrun
  -- each entry of the certificate config names a file holding its binary's certificate
  have hfile : ∀ kv ∈ (md.parseToCertConf args.certificatePath).certificates, ∃ p text c,
      kv.2 = .string p ∧ fs.text p = .ok text ∧ Codec.certificate.decode text = some c ∧
        c.serviceName = ⟨kv.1⟩ := by
    rintro ⟨k, v⟩ hkv
    obtain ⟨⟨v₀, hbin⟩, rfl⟩ := mem_parseToCertConf.1 hkv
    obtain ⟨text, hk⟩ := Option.ne_none_iff_exists'.1 (hissued _ hbin)
    obtain ⟨c, htext, hname⟩ := main_out_certificate hissue hk
    exact ⟨_, _, c, rfl, hcerts k _ hk, htext ▸ decode_writePretty c, hname⟩
  obtain ⟨l₁, hl₁⟩ := registerBinMappings_of_asStr hmapping CertificateLoader.new
  obtain ⟨l, hl⟩ := registerServices_of_files hfile l₁
  refine ⟨l, ?_, fun ⟨k, v₀⟩ hbin => ?_, fun k hk => ?_⟩
  · simp [CertificateLoader.fromConfig, hwritten _ _ hmem, hread _ hwrite, Config.intoLoader,
      Config.keyedLoader, hl₁, hl]
  · obtain ⟨text, hk⟩ := Option.ne_none_iff_exists'.1 (hissued _ hbin)
    obtain ⟨c, htext, -⟩ := main_out_certificate hissue hk
    obtain ⟨text', c', hread', hdec, hc'⟩ := registerServices_certificates_of_mem hl
      (mem_parseToCertConf.2 ⟨⟨v₀, hbin⟩, rfl⟩) fun v hv => (mem_parseToCertConf.1 hv).2
    -- the store read back the issuer's file, which decodes to the issuer's certificate
    have hsame : text' = text := Except.ok.inj (hread'.symm.trans (hcerts k _ hk))
    rw [hsame, htext, decode_writePretty, Option.some.injEq] at hdec
    exact ⟨c, htext ▸ hk, hdec ▸ hc'⟩
  · -- a name that is no binary has no entry, and the mapping loop stores no certificate
    rw [registerServices_certificates_of_not_mem hl fun v hv => hk _ (mem_parseToCertConf.1 hv).1.choose_spec,
      registerBinMappings_certificates hl₁]
    rfl

/-- A project with one binary `svc`, certified by the issuer, deployed with
the certificate directory `proj/certificates`; the TOML library's texts are
left empty. -/
def demoMetadata : MetadataConfig := ⟨[("svc", .table [])], [("svc", .string "svc")]⟩

def demoArgs : CliArgs := ⟨"metadata.toml", "proj/certificates", "key.der", "./certificate_config.toml"⟩

def demoCertificate (C : Crypto) : TahiniCertificate :=
  ⟨⟨"svc"⟩, ⟨⟨"ab".data⟩⟩, ⟨String.mk (sha256Digest [1, 2, 3])⟩,
    ⟨⟨hexEncode (C.sign [] ([0xab] ++ sha256 [1, 2, 3]))⟩⟩⟩

def demoFiles (C : Crypto) : Files :=
  ⟨fun p => if p = "proj/certificates/svc_certificate.json" then
      .ok (TahiniCertificate.writePretty (demoCertificate C)) else .ok [],
    fun _ => .ok []⟩

theorem fromConfig_loads_issued_demo :
    ∃ l, CertificateLoader.fromConfig
        (fun _ => .ok ⟨(demoMetadata.parseToCertConf "proj/certificates").certificates, none,
          demoMetadata.serviceMapping⟩) (demoFiles Crypto.degenerate) "./certificate_config.toml" =
        .ok (.ok l) ∧
      (∀ kv ∈ demoMetadata.binaries, ∃ c,
        (Function.update (fun _ => none) "svc" (some (demoCertificate Crypto.degenerate)) kv.1).map
          TahiniCertificate.writePretty = some (TahiniCertificate.writePretty c) ∧
        l.certificates ⟨kv.1⟩ = some c) ∧
      ∀ k, (∀ v, (k, v) ∉ demoMetadata.binaries) → l.certificates ⟨k⟩ = none :=
  @fromConfig_loads_issued Crypto.degenerate (.ok []) some _ _
    (@main_single_binary Crypto.degenerate "ab\n".data "ab".data [0xab] rfl rfl) demoArgs []
    (fun _ => .ok demoMetadata) demoMetadata (fun _ => .ok []) (fun _ => .ok []) rfl rfl _
    (fun _ _ => rfl) (demoFiles Crypto.degenerate)
    (fun path text h => by
      simp only [main, demoArgs, List.mem_cons, Prod.mk.injEq, List.not_mem_nil, or_false] at h
      rcases h with ⟨rfl, rfl⟩ | ⟨rfl, rfl⟩ <;> rfl)
    (fun k text h => by
      by_cases hk : k = "svc"
      · subst hk
        simp only [Function.update_same, Option.map_some', Option.some.injEq] at h
        subst h
        rfl
      · simp [hk] at h)
    (by simp [demoMetadata])
    (by simp [demoMetadata, TomlValue.asStr])

end Tahini.Deploy
