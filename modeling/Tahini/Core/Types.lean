import Tahini.Core.Json

/-!
# The attestation data model (`hoodini-core/src/types.rs`)

Certificates, attestation reports and the signing blob, with the serde
encodings the repository derives for them. Newtypes (`ServiceName`,
`BinHash`, `Signature`, `PolicyHash`, `ClientId`) serialize as their single
field; structs serialize as objects with their fields in declaration order.
`ClientId` wraps a `usize`, modelled on a 64-bit target; `nonce` is a `u128`.

`DynamicAttestationData` borrows the certificate (`cert: &'a
TahiniCertificate`); serde writes the borrowed value, so the model holds it by
value. Every codec here is assembled from `Json`'s combinators, so each comes
with its round trip, `decode_write`, for free.
-/

namespace Tahini.Core

/-- `ServiceName(pub String)`. -/
structure ServiceName where
  name : String
  deriving DecidableEq, Repr

/-- `BinHash(pub String)`: lowercase hex of a binary's SHA-256. -/
structure BinHash where
  hex : String
  deriving DecidableEq, Repr

/-- `Signature(pub String)`: lowercase hex of an Ed25519 signature. -/
structure Signature where
  hex : String
  deriving DecidableEq, Repr

/-- `PolicyHash(String)`: a crate's summary hash. -/
structure PolicyHash where
  hex : String
  deriving DecidableEq, Repr

/-- `ClientId(pub(crate) usize)`. -/
structure ClientId where
  id : UInt64
  deriving DecidableEq, Repr

/-- `TahiniCertificate`. -/
structure TahiniCertificate where
  serviceName : ServiceName
  policyHash : PolicyHash
  binaryHash : BinHash
  signature : Signature
  deriving DecidableEq, Repr

/-- `DynamicAttestationReport`, what `attest_binary` returns. -/
structure DynamicAttestationReport where
  certificate : TahiniCertificate
  nonce : BitVec 128
  serviceName : ServiceName
  currentBinHash : BinHash
  serverKeyShare : Bytes
  clientId : ClientId
  signature : Signature
  deriving DecidableEq, Repr

/-- `DynamicAttestationData`, the report minus its signature: the signed blob. -/
structure DynamicAttestationData where
  cert : TahiniCertificate
  nonce : BitVec 128
  serviceName : ServiceName
  currentBinHash : BinHash
  serverKeyShare : Bytes
  clientId : ClientId
  deriving DecidableEq, Repr

/-- The fields of a report its signature covers. -/
def DynamicAttestationReport.data (r : DynamicAttestationReport) : DynamicAttestationData :=
  ⟨r.certificate, r.nonce, r.serviceName, r.currentBinHash, r.serverKeyShare, r.clientId⟩

/-- The kinds of `std::io::Error` the model distinguishes. -/
inductive IoErrorKind where
  | notFound
  | invalidData
  | other
  deriving DecidableEq, Repr

/-- `std::io::Error`. -/
structure IoError where
  kind : IoErrorKind
  message : String
  deriving DecidableEq, Repr

/-- `AttestErrors`. The payloads of `NetworkError` and
`AttestDataMalformedError` (a tarpc and a serde error) are not modelled. -/
inductive AttestErrors where
  | ioError (e : IoError)
  | serviceMismatchError
  | networkError
  | attestDataMalformedError
  | configError (msg : String)
  | cryptoError
  | invalidAttestation
  deriving DecidableEq, Repr

/-! ## serde encodings -/

/-- `String` newtypes. -/
def Codec.serviceName : Codec ServiceName := Codec.string.map (·.name) ServiceName.mk fun _ => rfl
def Codec.binHash : Codec BinHash := Codec.string.map (·.hex) BinHash.mk fun _ => rfl
def Codec.signature : Codec Signature := Codec.string.map (·.hex) Signature.mk fun _ => rfl
def Codec.policyHash : Codec PolicyHash := Codec.string.map (·.hex) PolicyHash.mk fun _ => rfl
def Codec.clientId : Codec ClientId := Codec.usize.map (·.id) ClientId.mk fun _ => rfl

/-- `#[derive(Serialize, Deserialize)] struct TahiniCertificate`. -/
def Codec.certificate : Codec TahiniCertificate :=
  (Codec.obj <| (Codec.field "service_name" Codec.serviceName).pair <|
    (Codec.field "policy_hash" Codec.policyHash).pair <|
    (Codec.field "binary_hash" Codec.binHash).pair (Codec.field "signature" Codec.signature)).map
    (fun c => (c.serviceName, c.policyHash, c.binaryHash, c.signature))
    (fun p => ⟨p.1, p.2.1, p.2.2.1, p.2.2.2⟩) fun _ => rfl

/-- `#[derive(Serialize)] struct DynamicAttestationData`. -/
def Codec.attestationData : Codec DynamicAttestationData :=
  (Codec.obj <| (Codec.field "cert" Codec.certificate).pair <|
    (Codec.field "nonce" (Codec.unsigned 128)).pair <|
    (Codec.field "service_name" Codec.serviceName).pair <|
    (Codec.field "current_bin_hash" Codec.binHash).pair <|
    (Codec.field "server_key_share" (Codec.list Codec.u8)).pair
      (Codec.field "client_id" Codec.clientId)).map
    (fun d => (d.cert, d.nonce, d.serviceName, d.currentBinHash, d.serverKeyShare, d.clientId))
    (fun p => ⟨p.1, p.2.1, p.2.2.1, p.2.2.2.1, p.2.2.2.2.1, p.2.2.2.2.2⟩) fun _ => rfl

/-- `#[derive(Serialize, Deserialize)] struct DynamicAttestationReport`. -/
def Codec.report : Codec DynamicAttestationReport :=
  (Codec.obj <| (Codec.field "certificate" Codec.certificate).pair <|
    (Codec.field "nonce" (Codec.unsigned 128)).pair <|
    (Codec.field "service_name" Codec.serviceName).pair <|
    (Codec.field "current_bin_hash" Codec.binHash).pair <|
    (Codec.field "server_key_share" (Codec.list Codec.u8)).pair <|
    (Codec.field "client_id" Codec.clientId).pair (Codec.field "signature" Codec.signature)).map
    (fun r => (r.certificate, r.nonce, r.serviceName, r.currentBinHash, r.serverKeyShare,
      r.clientId, r.signature))
    (fun p => ⟨p.1, p.2.1, p.2.2.1, p.2.2.2.1, p.2.2.2.2.1, p.2.2.2.2.2.1, p.2.2.2.2.2.2⟩)
    fun _ => rfl

/-- The UTF-8 bytes of a text (`String::as_bytes`). -/
def utf8 (cs : List Char) : Bytes := cs.flatMap String.utf8EncodeChar

/-- `serde_json::to_vec(&data)`: the bytes the sidecar signs and the client verifies. -/
def signingBlob (d : DynamicAttestationData) : Bytes := utf8 (Codec.attestationData.write d)

end Tahini.Core
