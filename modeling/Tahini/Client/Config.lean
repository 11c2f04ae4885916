import Tahini.Core.Config
import Tahini.Client.Verify

/-!
# Building the verifier from a config file

`DynamicAttestationVerifier::from_config` (`hoodini-client/src/lib.rs`)
reads a TOML file into the client's own `Config` and hands it to
`Config::into_verifier`. That loads the certificate issuer's key and the
sidecar's attestation key, then registers the `service_mapping` and
`certificates` tables as `into_loader` does (`Core.Config`).

`intoVerifier_ok` says what a verifier built this way holds: a store that is
a run of the store's operations, with the issuer's key, and the last 32
bytes of the attestation key file as the accepted key. `intoVerifier_panic`
lists what can panic: a key file shorter than 32 bytes, and a
`service_mapping` value that is not a string.
`fromConfig_panics_on_short_key_or_mapping` shows that both inputs reach
these panics through `from_config`, in both crates.

Mirroring note: `into_verifier` also records the sidecar's address,
`127.0.0.1` and the config's port; `verify_binary` is modelled with its
connection as an argument, so the address and the `sidecar` section are left
out.
-/

namespace Tahini.Client

open Tahini.Core

/-- `hoodini-client`'s `KeyConfig`: the certificate issuer's key and the
sidecar's attestation key. -/
structure KeyConfig where
  certificateKey : String
  attestationKey : String

/-- `hoodini-client`'s `Config`, as `toml::from_str` deserializes it; its
`sidecar` section is left out. -/
structure Config where
  certificates : List (String × TomlValue)
  keys : KeyConfig
  serviceMapping : List (String × TomlValue)

/-- `Config::into_verifier`; the outer `Except` is a panic. The attestation
key is the last 32 bytes of its file, sliced as the issuer key is. -/
def Config.intoVerifier (fs : Files) (data : Config) :
    Except String (Except AttestErrors DynamicAttestationVerifier) :=
  match CertificateLoader.new.loadCertificateKey (fs.bytes data.keys.certificateKey) with
  | .error msg => .error msg
  | .ok (.error e) => .ok (.error e)
  | .ok (.ok (_, loader)) =>
    match fs.bytes data.keys.attestationKey with
    | .error e => .ok (.error (.ioError e))
    | .ok pkeyBytes =>
      if pkeyBytes.length < 32 then .error "range start index out of range for slice"
      else
        match registerBinMappings loader data.serviceMapping with
        | .error msg => .error msg
        | .ok loader =>
          .ok ((registerServices fs loader data.certificates).map
            fun l => ⟨l, pkeyBytes.drop (pkeyBytes.length - 32)⟩)

/-- `DynamicAttestationVerifier::from_config`. -/
def DynamicAttestationVerifier.fromConfig (parse : List Char → Except String Config) (fs : Files)
    (configPath : String) : Except String (Except AttestErrors DynamicAttestationVerifier) :=
  match fs.text configPath with
  | .error e => .ok (.error (.ioError e))
  | .ok contents =>
    match parse contents with
    | .error msg => .ok (.error (.configError msg))
    | .ok data => data.intoVerifier fs

/-- After a `load_certificate_key` that returns `Ok`, the store has a key. -/
theorem loadCertificateKey_accepts {l l' : CertificateLoader} {file : Except IoError Bytes} {b : Bool}
    (h : l.loadCertificateKey file = .ok (.ok (b, l'))) : l'.acceptedKeys.isSome := by
  unfold CertificateLoader.loadCertificateKey at h
  split at h
  · cases h; assumption
  · split at h
    · cases h
    · split at h
      · cases h
      · cases h; rfl

/-- A verifier `into_verifier` builds holds a store built by the store's own
operations, so every certificate sits under its own name, with the issuer's
key loaded; it accepts the last 32 bytes of the attestation key file. -/
theorem intoVerifier_ok {fs : Files} {data : Config} {v : DynamicAttestationVerifier}
    (h : data.intoVerifier fs = .ok (.ok v)) :
    v.certificateHandler.CertificatesNamed ∧ v.certificateHandler.acceptedKeys.isSome ∧
    ∃ pkeyBytes, fs.bytes data.keys.attestationKey = .ok pkeyBytes ∧ 32 ≤ pkeyBytes.length ∧
      v.allowedKeys = pkeyBytes.drop (pkeyBytes.length - 32) := by
  unfold Config.intoVerifier at h
  split at h
  · cases h
  · cases h
  · rename_i b loader hk
    split at h
    · cases h
    · rename_i pkeyBytes hp
      split at h
      · cases h
      · rename_i hlen
        split at h
        · cases h
        · rename_i loader₂ hm
          rcases hr : registerServices fs loader₂ data.certificates with e | l₃ <;>
            rw [hr] at h <;> cases h
          obtain ⟨ops₂, -, rfl⟩ := registerBinMappings_ok hm
          obtain ⟨ops₃, rfl⟩ := registerServices_ok hr
          have hloader : loader = runOps [.loadCertificateKey (fs.bytes data.keys.certificateKey)]
              CertificateLoader.new := by simp [runOps, LoaderOp.run, hk]
          obtain ⟨pk, hpk⟩ := Option.isSome_iff_exists.1 (loadCertificateKey_accepts hk)
          refine ⟨?_, by simp [runOps_acceptedKeys _ (runOps_acceptedKeys _ hpk)], pkeyBytes, hp,
            by omega, rfl⟩
          rw [hloader, ← runOps_append, ← runOps_append]
          exact runOps_certificatesNamed _ CertificateLoader.new_certificatesNamed

/-- `into_verifier` panics exactly where a key file shorter than 32 bytes is
sliced, or where a `service_mapping` value is not a string. -/
theorem intoVerifier_panic {fs : Files} {data : Config} {msg : String}
    (h : data.intoVerifier fs = .error msg) :
    ((∃ bs, (fs.bytes data.keys.certificateKey = .ok bs ∨ fs.bytes data.keys.attestationKey = .ok bs) ∧
      bs.length < 32) ∧ msg = "range start index out of range for slice") ∨
    ((∃ kv ∈ data.serviceMapping, kv.2.asStr = none) ∧
      msg = "called `Option::unwrap()` on a `None` value") := by
  unfold Config.intoVerifier at h
  split at h
  · rename_i hk
    obtain ⟨-, bs, hbs, hlen, rfl⟩ := loadCertificateKey_panic hk
    cases h
    exact .inl ⟨⟨bs, .inl hbs, hlen⟩, rfl⟩
  · cases h
  · split at h
    · cases h
    · rename_i pkeyBytes hp
      split at h
      · cases h
        exact .inl ⟨⟨pkeyBytes, .inr hp, ‹_›⟩, rfl⟩
      · split at h
        · cases h
          exact .inr (registerBinMappings_error ‹_›)
        · cases h

/-- Both loaders panic on a short key file and on a mapping value that is
not a string, whatever TOML reader reads the config text as the config named
here: `short` gives every key file five bytes, `long` thirty-two. -/
theorem fromConfig_panics_on_short_key_or_mapping (text : List Char)
    (parseCore : List Char → Except String Core.Config) (parseClient : List Char → Except String Config) :
    let short : Files := ⟨fun _ => .ok text, fun _ => .ok [1, 2, 3, 4, 5]⟩
    let long : Files := ⟨fun _ => .ok text, fun _ => .ok (List.replicate 32 0)⟩
    (parseCore text = .ok ⟨[], some ⟨"key.der"⟩, []⟩ →
      CertificateLoader.fromConfig parseCore short "config.toml" =
        .error "range start index out of range for slice") ∧
    (parseCore text = .ok ⟨[], some ⟨"key.der"⟩, [("a", .integer 1)]⟩ →
      CertificateLoader.fromConfig parseCore long "config.toml" =
        .error "called `Option::unwrap()` on a `None` value") ∧
    (parseClient text = .ok ⟨[], ⟨"key.der", "attestation.der"⟩, []⟩ →
      DynamicAttestationVerifier.fromConfig parseClient short "config.toml" =
        .error "range start index out of range for slice") ∧
    (parseClient text = .ok ⟨[], ⟨"key.der", "attestation.der"⟩, [("a", .integer 1)]⟩ →
      DynamicAttestationVerifier.fromConfig parseClient long "config.toml" =
        .error "called `Option::unwrap()` on a `None` value") := by
  refine ⟨fun h => ?_, fun h => ?_, fun h => ?_, fun h => ?_⟩ <;>
    simp only [CertificateLoader.fromConfig, DynamicAttestationVerifier.fromConfig, h] <;> rfl

end Tahini.Client
