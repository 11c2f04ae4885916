import Tahini.Core.Types

/-!
# The certificate store (`hoodini-core/src/certificate.rs`)

`CertificateLoader` holds the certificates by service name, the accepted
certificate-issuer key (loaded at most once) and the public-to-binary
service mapping. Its three mutators are modelled with every input they read
from outside: the certificate file's text (or the `io::Error` opening it
gave) and the key file's bytes.

`LoaderOp.run` performs one call and reports what it returned (`ok`, an
`AttestErrors`, or a panic). The store's invariants are proved once per
operation and then over whole runs from `CertificateLoader.new`:

* `run_certificatesNamed`: every certificate sits under its own
  `service_name` (`register_service` rejects a mismatch before inserting);
* `run_err`: a call that returns `Err` changes nothing (all its checks come
  before its one insertion), and `run_panic` the same for panics;
* `run_acceptedKeys`: once a key is accepted, no later call replaces it.

The `pkey_bytes.len() - 32` in `load_certificate_key` underflows for a key
file shorter than 32 bytes; in a release build the subtraction wraps and the
slice then panics, which is what `loadCertificateKey` returns there.
-/

namespace Tahini.Core

/-- `CertificateLoader`; the `HashMap`s are modelled as partial functions. -/
structure CertificateLoader where
  certificates : ServiceName → Option TahiniCertificate
  acceptedKeys : Option Bytes
  serviceToBin : ServiceName → Option ServiceName

namespace CertificateLoader

/-- `CertificateLoader::new()`. -/
def new : CertificateLoader := ⟨fun _ => none, none, fun _ => none⟩

/-- `register_service(path, service_name)`: open and parse the certificate,
reject a name mismatch, insert; returns whether the name was new. -/
def registerService (l : CertificateLoader) (file : Except IoError (List Char))
    (serviceName : ServiceName) : Except AttestErrors (Bool × CertificateLoader) :=
  match file with
  | .error e => .error (.ioError e)
  | .ok text =>
    match Codec.certificate.decode text with
    | none => .error .attestDataMalformedError
    | some certificate =>
      if serviceName ≠ certificate.serviceName then .error .serviceMismatchError
      else .ok ((l.certificates serviceName).isNone,
        { l with certificates := Function.update l.certificates serviceName (some certificate) })

/-- `load_certificate_key(path)`: a no-op once a key is loaded; otherwise the
last 32 bytes of the key file. The outer `Except` is a panic. -/
def loadCertificateKey (l : CertificateLoader) (file : Except IoError Bytes) :
    Except String (Except AttestErrors (Bool × CertificateLoader)) :=
  if l.acceptedKeys.isSome then pure (.ok (false, l))
  else match file with
    | .error e => pure (.error (.ioError e))
    | .ok pkeyBytes =>
      if pkeyBytes.length < 32 then throw "range start index out of range for slice"
      else pure (.ok (true, { l with acceptedKeys := some (pkeyBytes.drop (pkeyBytes.length - 32)) }))

/-- `register_bin_mapping(bin, service)`. -/
def registerBinMapping (l : CertificateLoader) (bin service : ServiceName) : CertificateLoader :=
  { l with serviceToBin := Function.update l.serviceToBin service (some bin) }

/-- `get_certificate`. -/
def getCertificate (l : CertificateLoader) (serviceName : ServiceName) : Option TahiniCertificate :=
  l.certificates serviceName

/-- `get_key`: the accepted certificate-issuer key, if loaded. -/
def getKey (l : CertificateLoader) : Option Bytes := l.acceptedKeys

/-- `get_reverse_mapping`. -/
def getReverseMapping (l : CertificateLoader) (serviceName : ServiceName) : Option ServiceName :=
  l.serviceToBin serviceName

/-- Every certificate is stored under its own service name. -/
def CertificatesNamed (l : CertificateLoader) : Prop :=
  ∀ k c, l.certificates k = some c → c.serviceName = k

theorem new_certificatesNamed : CertificatesNamed new := fun _ _ h => nomatch h

/-- What `register_service` can do: fail, or insert a parsed certificate
carrying the requested name. -/
theorem registerService_ok {l l' : CertificateLoader} {file : Except IoError (List Char)}
    {name : ServiceName} {b : Bool} (h : registerService l file name = .ok (b, l')) :
    ∃ c, c.serviceName = name ∧
      l' = { l with certificates := Function.update l.certificates name (some c) } := by
  unfold registerService at h
  split at h
  · cases h
  · split at h
    · cases h
    · split at h
      · cases h
      · next c _ hn =>
        cases h
        exact ⟨c, (Decidable.of_not_not hn).symm, rfl⟩

/-- A successful `register_service` of a readable file stores the
certificate the file decodes to. -/
theorem registerService_ok_file {l l' : CertificateLoader} {text : List Char} {name : ServiceName}
    {b : Bool} (h : registerService l (.ok text) name = .ok (b, l')) :
    ∃ c, Codec.certificate.decode text = some c ∧ c.serviceName = name ∧
      l' = { l with certificates := Function.update l.certificates name (some c) } := by
  unfold registerService at h
  cases hc : Codec.certificate.decode text with
  | none => simp [hc] at h
  | some c =>
    by_cases hn : name = c.serviceName
    · simp only [hc, hn, ne_eq, not_true_eq_false, if_false, Except.ok.injEq, Prod.mk.injEq] at h
      exact ⟨c, rfl, hn.symm, by rw [← h.2, hn]⟩
    · simp [hc, hn] at h

theorem registerService_certificatesNamed {l l' : CertificateLoader} {file} {name} {b}
    (h : registerService l file name = .ok (b, l')) (hl : CertificatesNamed l) :
    CertificatesNamed l' := by
  obtain ⟨c, hc, rfl⟩ := registerService_ok h
  intro k c' hk
  by_cases hkn : k = name
  · subst hkn; simp at hk; exact hk ▸ hc
  · simp [Function.update_noteq hkn] at hk; exact hl k c' hk

/-- What `load_certificate_key` can do: keep the store, or set the key when none was set. -/
theorem loadCertificateKey_ok {l l' : CertificateLoader} {file} {b : Bool}
    (h : loadCertificateKey l file = .ok (.ok (b, l'))) :
    l' = l ∨ (l.acceptedKeys = none ∧ ∃ pk, l' = { l with acceptedKeys := some pk }) := by
  unfold loadCertificateKey at h
  split at h
  · cases h; exact .inl rfl
  · next hk =>
    split at h
    · cases h
    · split at h
      · cases h
      · cases h
        exact .inr ⟨by simpa using hk, _, rfl⟩

end CertificateLoader

/-- One call on the store. -/
inductive LoaderOp where
  | registerService (file : Except IoError (List Char)) (serviceName : ServiceName)
  | loadCertificateKey (file : Except IoError Bytes)
  | registerBinMapping (bin service : ServiceName)

/-- What a call returned. -/
inductive LoaderResult where
  | ok (isNew : Option Bool)
  | err (e : AttestErrors)
  | panic (msg : String)

/-- Perform one call: its result and the store afterwards. -/
def LoaderOp.run : LoaderOp → CertificateLoader → LoaderResult × CertificateLoader
  | .registerService file name, l =>
    match l.registerService file name with
    | .ok (b, l') => (.ok (some b), l')
    | .error e => (.err e, l)
  | .loadCertificateKey file, l =>
    match l.loadCertificateKey file with
    | .ok (.ok (b, l')) => (.ok (some b), l')
    | .ok (.error e) => (.err e, l)
    | .error msg => (.panic msg, l)
  | .registerBinMapping bin service, l => (.ok none, l.registerBinMapping bin service)

/-- The store after a sequence of calls. -/
def runOps (ops : List LoaderOp) (l : CertificateLoader) : CertificateLoader :=
  ops.foldl (fun l op => (op.run l).2) l

theorem runOps_append (ops ops' : List LoaderOp) (l : CertificateLoader) :
    runOps (ops ++ ops') l = runOps ops' (runOps ops l) :=
  List.foldl_append _ _ _ _

namespace LoaderOp

open CertificateLoader

theorem run_certificatesNamed (op : LoaderOp) {l : CertificateLoader} (hl : CertificatesNamed l) :
    CertificatesNamed (op.run l).2 := by
  cases op with
  | registerService file name =>
    simp only [run]
    split
    · exact registerService_certificatesNamed ‹_› hl
    · exact hl
  | loadCertificateKey file =>
    simp only [run]
    split
    · rcases loadCertificateKey_ok ‹_› with rfl | ⟨-, pk, rfl⟩
      · exact hl
      · exact hl
    · exact hl
    · exact hl
  | registerBinMapping bin service => exact hl

theorem run_err (op : LoaderOp) (l : CertificateLoader) {e : AttestErrors}
    (h : (op.run l).1 = .err e) : (op.run l).2 = l := by
  cases op with
  | registerService file name =>
    simp only [run] at h ⊢
    split <;> simp_all
  | loadCertificateKey file =>
    simp only [run] at h ⊢
    split <;> simp_all
  | registerBinMapping bin service => cases h

theorem run_panic (op : LoaderOp) (l : CertificateLoader) {msg : String}
    (h : (op.run l).1 = .panic msg) : (op.run l).2 = l := by
  cases op with
  | registerService file name =>
    simp only [run] at h ⊢
    split <;> simp_all
  | loadCertificateKey file =>
    simp only [run] at h ⊢
    split <;> simp_all
  | registerBinMapping bin service => cases h

theorem run_acceptedKeys (op : LoaderOp) {l : CertificateLoader} {pk : Bytes}
    (h : l.acceptedKeys = some pk) : (op.run l).2.acceptedKeys = some pk := by
  cases op with
  | registerService file name =>
    simp only [run]
    split
    · obtain ⟨c, -, rfl⟩ := registerService_ok ‹_›; exact h
    · exact h
  | loadCertificateKey file =>
    simp only [run]
    split
    · rcases loadCertificateKey_ok ‹_› with rfl | ⟨hn, -, -⟩
      · exact h
      · simp [h] at hn
    · exact h
    · exact h
  | registerBinMapping bin service => exact h

end LoaderOp

theorem runOps_certificatesNamed (ops : List LoaderOp) {l : CertificateLoader}
    (hl : l.CertificatesNamed) : (runOps ops l).CertificatesNamed := by
  induction ops generalizing l with
  | nil => exact hl
  | cons op ops ih => exact ih (op.run_certificatesNamed hl)

theorem runOps_acceptedKeys (ops : List LoaderOp) {l : CertificateLoader} {pk : Bytes}
    (h : l.acceptedKeys = some pk) : (runOps ops l).acceptedKeys = some pk := by
  induction ops generalizing l with
  | nil => exact h
  | cons op ops ih => exact ih (op.run_acceptedKeys h)

/-- The store's invariants over every sequence of calls from `new`: after any
calls `ops`, every certificate sits under its own name; the next call, if it
returns `Err`, leaves the whole store as it was; and an accepted key stays
accepted through any further calls. -/
theorem certificateLoader_invariants (ops : List LoaderOp) (op : LoaderOp) (later : List LoaderOp) :
    (runOps ops CertificateLoader.new).CertificatesNamed ∧
    (∀ e, (op.run (runOps ops CertificateLoader.new)).1 = .err e →
      (op.run (runOps ops CertificateLoader.new)).2 = runOps ops CertificateLoader.new) ∧
    (∀ pk, (runOps ops CertificateLoader.new).acceptedKeys = some pk →
      (runOps later (runOps ops CertificateLoader.new)).acceptedKeys = some pk) :=
  ⟨runOps_certificatesNamed ops CertificateLoader.new_certificatesNamed,
    fun _ h => op.run_err _ h, fun _ h => runOps_acceptedKeys later h⟩

end Tahini.Core
