import Tahini.Service.Fifo
import Tahini.Core.Certificate

/-!
# The sidecar's attestation endpoint (`sidecar/src/main.rs`)

`SideCarServer::attest_binary(service_name, nonce, key_share)` serves one
client. It looks up the running binary's hash and the certificate the
sidecar holds for it, and draws a client id and an ephemeral X25519 key. It
derives the session key from the client's share, and signs the attestation
data with the sidecar's Ed25519 key. Holding the FIFO `Mutex`, it hands
`(client_id, session key)` to the service's pipe, then returns the report.
The call's randomness, and whether its seal and its `write` calls succeed,
enter as `AttestDraws`. A panic is the outer `Except`'s error, with its
message.

`attestBinary_ok` states everything a successful call did. The lemmas after
it are what the client's verification relies on:

* `attestBinary_report`: the report carries the store's certificate for the
  requested binary and echoes the nonce and the name.
* `attestBinary_signature`: the signature covers exactly the report's own
  fields.
* `attestBinary_sessionKey`: the key handed to the service is the one the
  client derives from the report's share.

`attestBinary_pipe_writes` is about the pipe. Every failure of a lookup or
of the key agreement panics before `write_session_key`, so nothing is
written. A call that returns a report has written one line, through the
handle of the service its binary maps to. `attestBinary_write` says how a
call that gets as far as the write ends: a failed seal is the `Err(())`
that `.expect("Couldn't write session to service pipe")` turns into a
panic, a pipe with no read end makes `write_session_key` panic, and
otherwise the report returns.

Mirroring notes: `attest_binary` only reads the server's maps, so the model
returns no new server state. Within one call the FIFO's read end neither
opens nor closes, so a `write` with no read end is the line's first and
nothing is written; `Sidecar.Serve` lets the read end go between two
`write` calls.
-/

namespace Tahini.Sidecar

open Tahini.Core Tahini.Service

/-- `SideCarServer`. The `Ed25519KeyPair` is its secret key; each `HashMap`
is a partial function. -/
structure SideCarServer where
  /-- Binary name to the hash of the running binary. -/
  serviceBinMap : ServiceName → Option BinHash
  certificateServer : CertificateLoader
  signingKey : Bytes
  /-- Binary name to the service inside it. -/
  serviceMapping : ServiceName → Option ServiceName
  /-- Service to the write end of its pipe. -/
  serviceKeyPassingSessions : ServiceName → Option FifoWriterHandle

/-- What one `attest_binary` call meets beyond the server's state: the
randomness it draws, and how its pipe write goes. -/
structure AttestDraws where
  /-- The eight bytes `rng.fill` gives, read by `usize::from_be_bytes`. -/
  usizeB : UInt64
  /-- The ephemeral X25519 scalar of `compute_local_share`. -/
  sk : Bytes
  /-- The nonce `seal_in_place_append_tag` draws in `write_session_key`. -/
  aeadNonce : AeadNonce
  /-- Whether that seal succeeds. -/
  sealed : Bool
  /-- Whether a read end of the service's FIFO is open when the call writes. -/
  readEnd : Bool

/-- `attest_binary(service_name, nonce, key_share)`: the report, and the
`write` calls made on the service's pipe. -/
def SideCarServer.attestBinary (C : Crypto) (srv : SideCarServer) (serviceName : ServiceName)
    (nonce : BitVec 128) (keyShare : Bytes) (rnd : AttestDraws) :
    Except String (DynamicAttestationReport × List (List Char)) :=
  match srv.serviceBinMap serviceName with
  | none => .error "Binary doesn't exist in sidecar map"
  | some bin =>
    match srv.certificateServer.getCertificate serviceName with
    | none => .error "called `Option::unwrap()` on a `None` value"
    | some certificate =>
      let clientId : ClientId := ⟨rnd.usizeB⟩
      let pk := C.x25519Public rnd.sk
      match deriveKeyFromShares C rnd.sk keyShare with
      | .error msg => .error msg
      | .ok usableKey =>
        let signingData : DynamicAttestationData := ⟨certificate, nonce, serviceName, bin, pk, clientId⟩
        let sig : Signature := ⟨String.mk (hexEncode (C.sign srv.signingKey (signingBlob signingData)))⟩
        match srv.serviceMapping serviceName with
        | none => .error "Provided binary is not registered"
        | some service =>
          match srv.serviceKeyPassingSessions service with
          | none => .error "Service should have a handler but didn't"
          | some handle =>
            match handle.writeSessionKey C rnd.aeadNonce rnd.sealed rnd.readEnd usableKey clientId with
            | .error msg => .error msg
            | .ok (.error ()) => .error "Couldn't write session to service pipe"
            | .ok (.ok writes) => .ok (⟨certificate, nonce, serviceName, bin, pk, clientId, sig⟩, writes)

section
variable {C : Crypto} {srv : SideCarServer} {serviceName : ServiceName} {nonce : BitVec 128}
  {keyShare : Bytes} {rnd : AttestDraws} {R : DynamicAttestationReport} {writes : List (List Char)}

/-- Everything a successful `attest_binary` did. -/
theorem attestBinary_ok (h : srv.attestBinary C serviceName nonce keyShare rnd = .ok (R, writes)) :
    ∃ certificate bin usableKey service handle,
      srv.certificateServer.getCertificate serviceName = some certificate ∧
      srv.serviceBinMap serviceName = some bin ∧
      deriveKeyFromShares C rnd.sk keyShare = .ok usableKey ∧
      srv.serviceMapping serviceName = some service ∧
      srv.serviceKeyPassingSessions service = some handle ∧ handle.enabled = true ∧
      rnd.sealed = true ∧ rnd.readEnd = true ∧
      R = ⟨certificate, nonce, serviceName, bin, C.x25519Public rnd.sk, ⟨rnd.usizeB⟩,
        ⟨String.mk (hexEncode (C.sign srv.signingKey (signingBlob
          ⟨certificate, nonce, serviceName, bin, C.x25519Public rnd.sk, ⟨rnd.usizeB⟩⟩)))⟩⟩ ∧
      writes = sessionWrites C handle.kek ⟨rnd.aeadNonce, usableKey, ⟨rnd.usizeB⟩⟩ := by
  unfold SideCarServer.attestBinary at h
  split at h; · cases h
  rename_i bin hbin
  split at h; · cases h
  rename_i certificate hcert
  split at h; · cases h
  rename_i usableKey hkey
  split at h; · cases h
  rename_i service hservice
  split at h; · cases h
  rename_i handle hhandle
  unfold FifoWriterHandle.writeSessionKey at h
  split_ifs at h with hs he hr
  cases h
  exact ⟨certificate, bin, usableKey, service, handle, hcert, hbin, hkey, hservice, hhandle, he, hs, hr,
    rfl, rfl⟩

/-- The report carries the store's certificate for the requested binary,
the running binary's hash, and the call's nonce, name and fresh share. -/
theorem attestBinary_report (h : srv.attestBinary C serviceName nonce keyShare rnd = .ok (R, writes)) :
    srv.certificateServer.getCertificate serviceName = some R.certificate ∧
      srv.serviceBinMap serviceName = some R.currentBinHash ∧
      R.nonce = nonce ∧ R.serviceName = serviceName ∧ R.serverKeyShare = C.x25519Public rnd.sk ∧
      R.clientId = ⟨rnd.usizeB⟩ := by
  obtain ⟨_, _, _, _, _, hc, hb, -, -, -, -, -, -, rfl, -⟩ := attestBinary_ok h
  exact ⟨hc, hb, rfl, rfl, rfl, rfl⟩

/-- The signature is the sidecar's, over the serialization of the report's
own fields. -/
theorem attestBinary_signature (h : srv.attestBinary C serviceName nonce keyShare rnd = .ok (R, writes)) :
    R.signature.hex.data = hexEncode (C.sign srv.signingKey (signingBlob R.data)) := by
  obtain ⟨_, _, _, _, _, -, -, -, -, -, -, -, -, rfl, -⟩ := attestBinary_ok h
  rfl

/-- The key handed to the service is the one a client holding the secret of
`keyShare` derives from the report's share, and a 32-byte key. -/
theorem attestBinary_sessionKey {skc : Bytes}
    (h : srv.attestBinary C serviceName nonce (C.x25519Public skc) rnd = .ok (R, writes)) :
    ∃ handle key, srv.serviceMapping serviceName >>= srv.serviceKeyPassingSessions = some handle ∧
      writes = sessionWrites C handle.kek ⟨rnd.aeadNonce, key, R.clientId⟩ ∧
      deriveKeyFromShares C skc R.serverKeyShare = .ok key ∧ key.length = 32 := by
  obtain ⟨_, _, key, service, handle, -, -, hkey, hs, hh, -, -, -, rfl, rfl⟩ := attestBinary_ok h
  obtain ⟨k, hk, hlen⟩ := deriveKeyFromShares_public C rnd.sk skc
  rw [hk] at hkey
  cases hkey
  exact ⟨handle, key, by simp [hs, hh], rfl, by rw [deriveKeyFromShares_comm, hk], hlen⟩

/-- A call that gets past its lookups and the key agreement, to an enabled
handle, ends as its write does: a failed seal panics with
`attest_binary`'s message for the `Err(())`, a pipe with no read end with
`write_session_key`'s, and otherwise the call returns its report with the
line's `write` calls. -/
theorem attestBinary_write {bin : BinHash} {certificate : TahiniCertificate} {usableKey : Bytes}
    {service : ServiceName} {handle : FifoWriterHandle}
    (hbin : srv.serviceBinMap serviceName = some bin)
    (hcert : srv.certificateServer.getCertificate serviceName = some certificate)
    (hkey : deriveKeyFromShares C rnd.sk keyShare = .ok usableKey)
    (hs : srv.serviceMapping serviceName = some service)
    (hh : srv.serviceKeyPassingSessions service = some handle) (he : handle.enabled = true) :
    srv.attestBinary C serviceName nonce keyShare rnd =
      if rnd.sealed then
        if rnd.readEnd then
          .ok (⟨certificate, nonce, serviceName, bin, C.x25519Public rnd.sk, ⟨rnd.usizeB⟩,
            ⟨String.mk (hexEncode (C.sign srv.signingKey (signingBlob
              ⟨certificate, nonce, serviceName, bin, C.x25519Public rnd.sk, ⟨rnd.usizeB⟩⟩)))⟩⟩,
            sessionWrites C handle.kek ⟨rnd.aeadNonce, usableKey, ⟨rnd.usizeB⟩⟩)
        else .error "Couldn't write to FIFO"
      else .error "Couldn't write session to service pipe" := by
  simp only [SideCarServer.attestBinary, hbin, hcert, hkey, hs, hh, FifoWriterHandle.writeSessionKey, he,
    if_true]
  cases rnd.sealed <;> cases rnd.readEnd <;> rfl

/-- In a store every certificate of which sits under its own name (every
store `CertificateLoader`'s operations build, `runOps_certificatesNamed`),
the report's certificate names the requested binary. -/
theorem attestBinary_certificate_named (hs : srv.certificateServer.CertificatesNamed)
    (h : srv.attestBinary C serviceName nonce keyShare rnd = .ok (R, writes)) :
    R.certificate.serviceName = serviceName :=
  hs _ _ (attestBinary_report h).1

end

/-- The pipe sees a line only from a call that returns a report. Each lookup
`attest_binary` makes, and the key agreement, panics at its own `expect`
ahead of `write_session_key`, so a call that fails at one of them ends with
one of those messages and writes nothing. A call that returns a report
wrote one line, through the handle of the service its binary maps to: the
report's client id and the key derived from the call's scalar and the
client's share, sealed under that handle's KEK. -/
theorem attestBinary_pipe_writes (C : Crypto) (srv : SideCarServer) (serviceName : ServiceName)
    (nonce : BitVec 128) (keyShare : Bytes) (rnd : AttestDraws) :
    ((srv.serviceBinMap serviceName = none ∨ srv.certificateServer.getCertificate serviceName = none ∨
        C.agree rnd.sk keyShare = none ∨ srv.serviceMapping serviceName = none ∨
        ∃ service, srv.serviceMapping serviceName = some service ∧
          srv.serviceKeyPassingSessions service = none) →
      ∃ msg, srv.attestBinary C serviceName nonce keyShare rnd = .error msg ∧
        msg ∈ ["Binary doesn't exist in sidecar map", "called `Option::unwrap()` on a `None` value",
          "Key exchange failed", "Provided binary is not registered",
          "Service should have a handler but didn't"]) ∧
    ∀ R writes, srv.attestBinary C serviceName nonce keyShare rnd = .ok (R, writes) →
      ∃ service handle key, srv.serviceMapping serviceName = some service ∧
        srv.serviceKeyPassingSessions service = some handle ∧
        deriveKeyFromShares C rnd.sk keyShare = .ok key ∧ R.serverKeyShare = C.x25519Public rnd.sk ∧
        writes = sessionWrites C handle.kek ⟨rnd.aeadNonce, key, R.clientId⟩ ∧
        ∃ body, writes.flatten = body ++ ['\n'] ∧ '\n' ∉ body := by
  refine ⟨fun hfail => ?_, fun R writes h => ?_⟩
  · unfold SideCarServer.attestBinary
    split; · exact ⟨_, rfl, by simp⟩
    rename_i hb
    split; · exact ⟨_, rfl, by simp⟩
    rename_i hc
    split
    · exact ⟨_, rfl, by simp [(deriveKeyFromShares_eq_error.1 ‹_›).2]⟩
    rename_i hkey
    split; · exact ⟨_, rfl, by simp⟩
    rename_i hm
    split; · exact ⟨_, rfl, by simp⟩
    rename_i hs
    have ha : C.agree rnd.sk keyShare ≠ none := fun h => by simp [deriveKeyFromShares, h] at hkey
    simp [hb, hc, ha, hm, hs] at hfail
  · obtain ⟨_, _, key, service, handle, -, -, hkey, hm, hs, -, -, -, rfl, rfl⟩ := attestBinary_ok h
    exact ⟨service, handle, key, hm, hs, hkey, rfl, rfl, sessionLine_newline C handle.kek _⟩

end Tahini.Sidecar
