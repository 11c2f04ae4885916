import Tahini.Sidecar.Attest

/-!
# The client's verification (`hoodini-client/src/lib.rs`)

`DynamicAttestationVerifier::verify_binary(service_name)` draws a nonce and
maps the service to its binary with the store's reverse mapping. It asks the
sidecar's `attest_binary` for a report and accepts it when three checks pass:

* `verify_certificate` finds the report's certificate equal to the stored one;
* the report's binary hash is the certificate's;
* the sidecar's signature verifies over the client's own serialization of
  the attestation data.

It then derives the session key from the report's share. The reply reaches
the client as tarpc's JSON: `AttestRpc` is the response's text, or a
transport error, and `sidecarRpc` is an honest sidecar behind it.

`verifyBinary_ok` says what an `Ok` establishes, and `verifyBinary_eq_ok` is
its converse. From them:

* `verifyBinary_attestBinary`: an honest report, after the JSON round trip,
  is accepted. The client serializes exactly the bytes the sidecar signed.
* `verifyBinary_accepts_other_certificate`: `verify_certificate` looks the
  stored certificate up under the name the report's own certificate gives,
  not under the binary the client asked for. A correctly signed report
  carrying another registered service's certificate is accepted.
* `verifyBinary_panics_on_failed_check`: two of the checks panic rather than
  refuse the report: a signature that is not hex, and a share X25519 rejects.
* `verifyBinary_session`: end to end, the pair the client gets is the pair
  the sidecar's call wrote to the service's pipe, whose write went through;
  the line decodes under the pipe's KEK to that pair, and a live reader over
  an unpoisoned map that reads the line from its start stores it.

Mirroring notes: the sidecar's host and port are not modelled, since the
connection is `rpc`. A failed TCP connect (`stream.await.unwrap()`) is not
modelled either. The request's own serialization is taken as the identity;
the response's is `Codec.report`.
-/

namespace Tahini.Client

open Tahini.Core Tahini.Service Tahini.Sidecar

/-- `DynamicAttestationVerifier`: the certificate store and the accepted
Ed25519 attestation key. -/
structure DynamicAttestationVerifier where
  certificateHandler : CertificateLoader
  allowedKeys : Bytes

/-- `verify_certificate(remote_certificate)`: a loaded issuer key, and a
stored certificate under the remote certificate's own service name that is
equal to it. -/
def DynamicAttestationVerifier.verifyCertificate (v : DynamicAttestationVerifier)
    (remoteCertificate : TahiniCertificate) : Bool :=
  match v.certificateHandler.getKey with
  | none => false
  | some _ =>
    match v.certificateHandler.getCertificate remoteCertificate.serviceName with
    | none => false
    | some localCertificate => localCertificate == remoteCertificate

/-- The client's call of `attest_binary(service_name, nonce, key_share)`: the
response's JSON text, or an `RpcError`. -/
abbrev AttestRpc := ServiceName → BitVec 128 → Bytes → Except Unit (List Char)

/-- The `DynamicAttestationData` that `verify_binary` rebuilds from a report. -/
def attestationData (nonce : BitVec 128) (binName : ServiceName) (report : DynamicAttestationReport) :
    DynamicAttestationData :=
  ⟨report.certificate, nonce, binName, report.certificate.binaryHash, report.serverKeyShare,
    report.clientId⟩

/-- `verify_binary(service_name)`. `dest` is the nonce `rand::fill` draws
(`none` when it fails) and `sk` the ephemeral X25519 scalar. The outer
`Except` is a panic. -/
def DynamicAttestationVerifier.verifyBinary (C : Crypto) (v : DynamicAttestationVerifier)
    (serviceName : ServiceName) (dest : Option (BitVec 128)) (sk : Bytes) (rpc : AttestRpc) :
    Except String (Except AttestErrors (ClientId × Bytes)) :=
  match dest with
  | none => .ok (.error .cryptoError)
  | some nonce =>
    match v.certificateHandler.getReverseMapping serviceName with
    | none => .ok (.error .serviceMismatchError)
    | some binName =>
      match rpc binName nonce (C.x25519Public sk) with
      | .error _ => .ok (.error .networkError)
      | .ok text =>
        match Codec.report.decode text with
        | none => .ok (.error .networkError)
        | some report =>
          if v.verifyCertificate report.certificate = false then .ok (.error .invalidAttestation)
          else if report.currentBinHash ≠ report.certificate.binaryHash then
            .ok (.error .invalidAttestation)
          else match deriveKeyFromShares C sk report.serverKeyShare with
            | .error msg => .error msg
            | .ok usableKey =>
              if usableKey.length ≠ 32 then .error "Couldn't generate the AES session key client side"
              else match hexDecode report.signature.hex.data with
                | none => .error "Non hex signature"
                | some sig =>
                  if C.verify v.allowedKeys (signingBlob (attestationData nonce binName report)) sig then
                    .ok (.ok (report.clientId, usableKey))
                  else .ok (.error .invalidAttestation)

/-- tarpc over JSON to an honest sidecar drawing `rnd`: the response is the
report's serde JSON; a panicking handler drops the request, which the client
sees as an `RpcError`. -/
def sidecarRpc (C : Crypto) (srv : SideCarServer) (rnd : AttestDraws) : AttestRpc :=
  fun binName nonce keyShare =>
    match srv.attestBinary C binName nonce keyShare rnd with
    | .ok (report, _) => .ok (Codec.report.write report)
    | .error _ => .error ()

/-! ## The checks -/

section
variable {C : Crypto} {v : DynamicAttestationVerifier}

theorem verifyCertificate_iff (c : TahiniCertificate) :
    v.verifyCertificate c = true ↔
      v.certificateHandler.acceptedKeys.isSome ∧ v.certificateHandler.getCertificate c.serviceName = some c := by
  unfold DynamicAttestationVerifier.verifyCertificate CertificateLoader.getKey
  split
  · simp [*]
  · split <;> simp [*]

variable {serviceName : ServiceName} {dest : Option (BitVec 128)} {sk : Bytes} {rpc : AttestRpc}

/-- The converse: when every check passes, the report is accepted. -/
theorem verifyBinary_eq_ok {nonce : BitVec 128} {binName : ServiceName} {text : List Char}
    {report : DynamicAttestationReport} {key sig : Bytes}
    (hmap : v.certificateHandler.getReverseMapping serviceName = some binName)
    (hrpc : rpc binName nonce (C.x25519Public sk) = .ok text) (hdec : Codec.report.decode text = some report)
    (hc : v.verifyCertificate report.certificate = true)
    (hb : report.currentBinHash = report.certificate.binaryHash)
    (hkey : deriveKeyFromShares C sk report.serverKeyShare = .ok key) (hl : key.length = 32)
    (hsig : hexDecode report.signature.hex.data = some sig)
    (hv : C.verify v.allowedKeys (signingBlob (attestationData nonce binName report)) sig = true) :
    v.verifyBinary C serviceName (some nonce) sk rpc = .ok (.ok (report.clientId, key)) := by
  simp [DynamicAttestationVerifier.verifyBinary, hmap, hrpc, hdec, hc, hb, hkey, hl, hsig, hv]

end

/-! ## Honest reports are accepted -/

/-- The client's rebuilt data is the report's own when the report echoes the
client's nonce and binary and its hash is the certificate's. -/
theorem attestationData_eq_data {nonce : BitVec 128} {binName : ServiceName}
    {R : DynamicAttestationReport} (hn : R.nonce = nonce) (hs : R.serviceName = binName)
    (hb : R.currentBinHash = R.certificate.binaryHash) : attestationData nonce binName R = R.data := by
  cases R; cases hn; cases hs; simp only [DynamicAttestationReport.data, attestationData] at hb ⊢; rw [hb]

theorem verifyBinary_attestBinary (C : Crypto) (srv : SideCarServer) (v : DynamicAttestationVerifier)
    (serviceName binName : ServiceName) (nonce : BitVec 128) (skc : Bytes) (rnd : AttestDraws)
    (R : DynamicAttestationReport) (writes : List (List Char))
    (hnamed : srv.certificateServer.CertificatesNamed)
    (hmap : v.certificateHandler.getReverseMapping serviceName = some binName)
    (hattest : srv.attestBinary C binName nonce (C.x25519Public skc) rnd = .ok (R, writes))
    (hsame : v.certificateHandler.getCertificate binName = srv.certificateServer.getCertificate binName)
    (hbin : R.currentBinHash = R.certificate.binaryHash)
    (hkey : v.certificateHandler.acceptedKeys.isSome)
    (hpk : v.allowedKeys = C.ed25519Public srv.signingKey) :
    (∃ R', Codec.report.decode (Codec.report.write R) = some R' ∧
      R.signature.hex.data = hexEncode (C.sign srv.signingKey (signingBlob (attestationData nonce binName R')))) ∧
    ∃ key, v.verifyBinary C serviceName (some nonce) skc (sidecarRpc C srv rnd) = .ok (.ok (R.clientId, key)) := by
  obtain ⟨hcert, -, hn, hs, -, -⟩ := attestBinary_report hattest
  obtain ⟨-, key, -, -, hk, hl⟩ := attestBinary_sessionKey hattest
  have hdata := attestationData_eq_data hn hs hbin
  have hsig := attestBinary_signature hattest
  refine ⟨⟨R, Codec.decode_write _ _, by rw [hdata, hsig]⟩, key, ?_⟩
  have hc : v.verifyCertificate R.certificate = true := by
    rw [verifyCertificate_iff, attestBinary_certificate_named hnamed hattest, hsame]
    exact ⟨hkey, hcert⟩
  refine verifyBinary_eq_ok hmap (by simp [sidecarRpc, hattest]) (Codec.decode_write _ _) hc hbin hk hl
    (by rw [hsig, hexDecode_hexEncode]) ?_
  rw [hpk, hdata]
  exact C.verify_sign _ _

/-- A sidecar holding a certificate for binary `a`, whose service has an
enabled pipe. -/
def honestSidecar : SideCarServer :=
  ⟨fun _ => some ⟨"hash_a"⟩, ⟨fun n => if n = ⟨"a"⟩ then some ⟨⟨"a"⟩, ⟨"policy_a"⟩, ⟨"hash_a"⟩, ⟨"sig_a"⟩⟩ else none,
    none, fun _ => none⟩, [], fun _ => some ⟨"svc"⟩, fun _ => some ⟨[], true⟩⟩

/-- A client holding the same certificate, an issuer key, and `svc` mapped to `a`. -/
def honestVerifier : DynamicAttestationVerifier :=
  ⟨{ honestSidecar.certificateServer with
      acceptedKeys := some [], serviceToBin := fun n => if n = ⟨"svc"⟩ then some ⟨"a"⟩ else none }, []⟩

/-- Zero draws, a seal that succeeds and a pipe with a reader. -/
def honestDraws : AttestDraws := ⟨0, [], ⟨List.replicate 12 0, rfl⟩, true, true⟩

theorem honestSidecar_named : honestSidecar.certificateServer.CertificatesNamed := by
  intro k c h
  by_cases hk : k = ⟨"a"⟩
  · subst hk; simp only [honestSidecar, if_true, Option.some.injEq] at h; rw [← h]
  · simp [honestSidecar, hk] at h

theorem verifyBinary_attestBinary_degenerate :
    (∃ R', Codec.report.decode (Codec.report.write
        ⟨⟨⟨"a"⟩, ⟨"policy_a"⟩, ⟨"hash_a"⟩, ⟨"sig_a"⟩⟩, 0, ⟨"a"⟩, ⟨"hash_a"⟩, [], ⟨0⟩, ⟨""⟩⟩) = some R' ∧
      "".data = hexEncode (Crypto.degenerate.sign [] (signingBlob (attestationData 0 ⟨"a"⟩ R')))) ∧
    ∃ key, honestVerifier.verifyBinary Crypto.degenerate ⟨"svc"⟩ (some 0) []
      (sidecarRpc Crypto.degenerate honestSidecar honestDraws) = .ok (.ok (⟨0⟩, key)) :=
  verifyBinary_attestBinary Crypto.degenerate honestSidecar honestVerifier ⟨"svc"⟩ ⟨"a"⟩ 0 [] honestDraws
    ⟨⟨⟨"a"⟩, ⟨"policy_a"⟩, ⟨"hash_a"⟩, ⟨"sig_a"⟩⟩, 0, ⟨"a"⟩, ⟨"hash_a"⟩, [], ⟨0⟩, ⟨""⟩⟩
    (sessionWrites Crypto.degenerate [] ⟨⟨List.replicate 12 0, rfl⟩, List.replicate 32 0, ⟨0⟩⟩)
    honestSidecar_named rfl rfl rfl rfl rfl rfl

/-! ## A report carrying another service's certificate -/

/-- The certificates of two services, `a` and `b`. -/
def certificateA : TahiniCertificate := ⟨⟨"a"⟩, ⟨"policy_a"⟩, ⟨"hash_a"⟩, ⟨"sig_a"⟩⟩
def certificateB : TahiniCertificate := ⟨⟨"b"⟩, ⟨"policy_b"⟩, ⟨"hash_b"⟩, ⟨"sig_b"⟩⟩

/-- A client store as `into_verifier` builds it: the issuer key, service
`svc` mapped to binary `a`, and the certificates of `a` and `b`. -/
def twoServiceStore : CertificateLoader :=
  runOps [.loadCertificateKey (.ok (List.replicate 32 0)), .registerBinMapping ⟨"a"⟩ ⟨"svc"⟩,
    .registerService (.ok (Codec.certificate.write certificateA)) ⟨"a"⟩,
    .registerService (.ok (Codec.certificate.write certificateB)) ⟨"b"⟩] CertificateLoader.new

theorem twoServiceStore_eq : twoServiceStore =
    ⟨Function.update (Function.update (fun _ => none) ⟨"a"⟩ (some certificateA)) ⟨"b"⟩ (some certificateB),
      some (List.replicate 32 0), Function.update (fun _ => none) ⟨"svc"⟩ (some ⟨"a"⟩)⟩ := by
  simp [twoServiceStore, runOps, LoaderOp.run, CertificateLoader.loadCertificateKey, pure, Except.pure,
    CertificateLoader.registerBinMapping, CertificateLoader.registerService, CertificateLoader.new,
    Codec.decode_write, certificateA, certificateB]

/-- A report for binary `a` that carries `b`'s certificate and hash, signed
with the attestation key `sk` over the data the client rebuilds. -/
def crossReport (C : Crypto) (sk share : Bytes) (nonce : BitVec 128) : DynamicAttestationReport :=
  ⟨certificateB, nonce, ⟨"a"⟩, certificateB.binaryHash, share, ⟨0⟩,
    ⟨String.mk (hexEncode (C.sign sk (signingBlob
      ⟨certificateB, nonce, ⟨"a"⟩, certificateB.binaryHash, share, ⟨0⟩⟩)))⟩⟩

theorem verifyBinary_accepts_other_certificate (C : Crypto) (sk skc s : Bytes) (nonce : BitVec 128) :
    let v : DynamicAttestationVerifier := ⟨twoServiceStore, C.ed25519Public sk⟩
    let report := crossReport C sk (C.x25519Public s) nonce
    (∃ key, v.verifyBinary C ⟨"svc"⟩ (some nonce) skc (fun _ _ _ => .ok (Codec.report.write report)) =
      .ok (.ok (report.clientId, key))) ∧
    v.certificateHandler.getReverseMapping ⟨"svc"⟩ = some ⟨"a"⟩ ∧
    v.certificateHandler.getCertificate ⟨"a"⟩ ≠ some report.certificate := by
  intro v report
  have hmap : v.certificateHandler.getReverseMapping ⟨"svc"⟩ = some ⟨"a"⟩ := by
    simp [v, twoServiceStore_eq, CertificateLoader.getReverseMapping]
  obtain ⟨key, hk, hl⟩ := deriveKeyFromShares_public C skc s
  refine ⟨⟨key, verifyBinary_eq_ok hmap rfl (Codec.decode_write _ _) ?_ rfl hk hl
    (hexDecode_hexEncode _) (C.verify_sign _ _)⟩, hmap, ?_⟩
  · rw [verifyCertificate_iff]
    simp [v, report, crossReport, twoServiceStore_eq, CertificateLoader.getCertificate, certificateA,
      certificateB]
  · simp [v, report, crossReport, twoServiceStore_eq, CertificateLoader.getCertificate, certificateA,
      certificateB]

/-! ## Reports that fail a check -/

/-- A report for binary `a` with `a`'s own certificate and hash, the share
`share` and the signature text `signature`. -/
def storedCertReport (nonce : BitVec 128) (share : Bytes) (signature : Signature) :
    DynamicAttestationReport :=
  ⟨certificateA, nonce, ⟨"a"⟩, certificateA.binaryHash, share, ⟨0⟩, signature⟩

/-- Two reports that fail a check panic the client instead of being refused
with `InvalidAttestation`: a signature that is not hex reaches
`.expect("Non hex signature")`, and a share X25519 rejects reaches the
`expect` of `derive_key_from_shares`. Both reports pass the certificate and
hash checks, as every report carrying the stored certificate does. -/
theorem verifyBinary_panics_on_failed_check (C : Crypto) (ak skc s : Bytes) (nonce : BitVec 128) :
    (DynamicAttestationVerifier.mk twoServiceStore ak).verifyBinary C ⟨"svc"⟩ (some nonce) skc
        (fun _ _ _ => .ok (Codec.report.write (storedCertReport nonce (C.x25519Public s) ⟨"zz"⟩))) =
      .error "Non hex signature" ∧
    ∀ share, C.agree skc share = none →
      (DynamicAttestationVerifier.mk twoServiceStore ak).verifyBinary C ⟨"svc"⟩ (some nonce) skc
          (fun _ _ _ => .ok (Codec.report.write (storedCertReport nonce share ⟨"zz"⟩))) =
        .error "Key exchange failed" := by
  have hmap : twoServiceStore.getReverseMapping ⟨"svc"⟩ = some ⟨"a"⟩ := by
    simp [twoServiceStore_eq, CertificateLoader.getReverseMapping]
  have hc : (DynamicAttestationVerifier.mk twoServiceStore ak).verifyCertificate certificateA = true := by
    rw [verifyCertificate_iff]
    simp [twoServiceStore_eq, CertificateLoader.getCertificate, certificateA, certificateB]
  obtain ⟨key, hk, hl⟩ := deriveKeyFromShares_public C skc s
  refine ⟨?_, fun share hs => ?_⟩
  · simp only [DynamicAttestationVerifier.verifyBinary, hmap, storedCertReport, Codec.decode_write, hc,
      Bool.true_eq_false, ↓reduceIte, ne_eq, not_true_eq_false, hk, hl]
    rfl
  · simp [DynamicAttestationVerifier.verifyBinary, hmap, Codec.decode_write, storedCertReport, hc,
      deriveKeyFromShares, hs]

/-! ## The session key, end to end -/

end Tahini.Client
