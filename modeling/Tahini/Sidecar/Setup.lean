import Tahini.Sidecar.Attest
import Tahini.Core.Config
import Tahini.Issuer.Hashing
import Tahini.Policy.Summary

/-!
# The sidecar's start-up (`sidecar/src/main.rs`, `sidecar/src/config.rs`)

Before it serves a single client, the sidecar's `main` builds the state that
`attest_binary` reads. It parses `sidecar_config.toml` (`SideCarConfig::new`),
builds the server (`SideCarServer::new`: the certificate store from its
config file, the Ed25519 attestation key), and then, for every configured
binary in the order the binaries' map iterates:

1. hashes the executable (`hash_bin`),
2. launches it (`launch_binary`): the FIFO, a fresh key-encryption key, the
   service started with the FIFO's path and the KEK's hex on its command line,
   and the write end opened,
3. gives the binary's service that write end (`setup_service_key_channel`,
   which panics if the service already has one),
4. records the binary's hash (`register_running_service`).

`setupBinary` is one iteration and `setupAll` the loop. `setupBinary_ok`
says what one iteration did; `Ready` is what it establishes for its binary,
`Ready.setupBinary` that a later iteration keeps it (a later iteration cannot
reach the same service: its second pipe panics), and `setupAll_ready` that
after the loop every configured binary is ready. `sidecarSetup_session`
puts this together with `attest_binary` and the service's reader: after a
start-up that did not panic, every configured binary the store has a
certificate for is attested for every honest client share as far as the
pipe write, and the call ends as the write does. When the write goes
through, the line it wrote decodes, under the KEK that was put on that
service's command line, to the client's id and key.

Mirroring notes vs the source:
- The key files and the certificate store's files come from `Files`; a
  failed open and a failed read of the attestation key are one error here,
  which panics with the open's message.
- `launch_binary` returns `Ok` whenever it returns, so its
  `.expect("Couldn't start binary")` never fires. Opening the write end
  blocks until the service opens a read end; the interleavings of the opens,
  the closes and the writes are `Sidecar.Launch`'s subject. Here the open
  completes, and whether a later write finds a read end is part of the
  call's draws (`AttestDraws.readEnd`).
- A path enters `hash_bin` as a `BinPath`, split at its last `/`, and the
  FIFO's path is `Path::join` of the run directory and `sidecar_fifo`.
- `get_binaries` collects the table into a `HashMap`; a TOML table's keys are
  distinct, so the map holds every entry, and the loop takes them in the
  map's iteration order (`HashOrder`).
- The accept loop after the setup is `attest_binary` per request
  (`Sidecar.Attest`).
-/

namespace Tahini.Sidecar

open Tahini.Core Tahini.Service Tahini.Issuer Tahini.Policy

/-! ## The config -/

/-- `BinaryConfig`: the executable and the directory it runs in. -/
structure BinaryConfig where
  binPath : String
  runPath : String

/-- `SideCarConfig`, as `toml::from_str` deserializes `sidecar_config.toml`. -/
structure SideCarConfig where
  binaries : List (String × TomlValue)
  /-- `certificates_config.path`. -/
  certificatesConfig : String
  /-- `signing_key.path`. -/
  signingKey : String
  serviceMapping : ServiceName → Option ServiceName

/-- `SideCarConfig::new`: read the file and deserialize it; the error is a panic. -/
def SideCarConfig.new (contents : Except IoError (List Char))
    (parse : List Char → Except String SideCarConfig) : Except String SideCarConfig :=
  match contents with
  | .error _ => .error "Couldn't find sidecar config file"
  | .ok text =>
    match parse text with
    | .error _ => .error "Couldn't parse it into TOML"
    | .ok data => .ok data

/-- One entry of the `binaries` table, read by `get_binaries`. -/
def getBinaryConfig : TomlValue → Except String BinaryConfig
  | .table map =>
    match map.lookup "bin_path" with
    | none => .error "Couldn't find path to binary file"
    | some binPath =>
      match binPath.asStr with
      | none => .error "called `Option::unwrap()` on a `None` value"
      | some binPath =>
        match map.lookup "run_path" with
        | none => .error "Couldn't find path to runtime directory"
        | some runPath =>
          match runPath.asStr with
          | none => .error "called `Option::unwrap()` on a `None` value"
          | some runPath => .ok ⟨binPath, runPath⟩
  | _ => .error "Binary path is not a string"

/-- `get_binaries`: every entry of the `binaries` table, in table order. -/
def getBinaries : List (String × TomlValue) → Except String (List (ServiceName × BinaryConfig))
  | [] => .ok []
  | (k, v) :: rest =>
    match getBinaryConfig v with
    | .error msg => .error msg
    | .ok conf => (getBinaries rest).map ((⟨k⟩, conf) :: ·)

/-! ## The server and its set-up calls -/

/-- `load_signing_attestation_key`: the key file parsed as a PKCS#8 Ed25519
key pair (`fromPkcs8`); the error is a panic. -/
def loadSigningAttestationKey (keyFile : Except IoError Bytes) (fromPkcs8 : Bytes → Option Bytes) :
    Except String Bytes :=
  match keyFile with
  | .error _ => .error "Couldn't find signing key file"
  | .ok contents =>
    match fromPkcs8 contents with
    | none => .error "Couldn't parse key bytes"
    | some kpair => .ok kpair

/-- `SideCarServer::new`: the certificate store first, then the signing key. -/
def SideCarServer.new (parse : List Char → Except String Config) (fs : Files)
    (fromPkcs8 : Bytes → Option Bytes) (certificateConfigPath keyPath : String)
    (mapping : ServiceName → Option ServiceName) : Except String SideCarServer :=
  match CertificateLoader.fromConfig parse fs certificateConfigPath with
  | .error msg => .error msg
  | .ok (.error _) => .error "Couldn't generate certificate handler for the sidecar"
  | .ok (.ok loader) =>
    match loadSigningAttestationKey (fs.bytes keyPath) fromPkcs8 with
    | .error msg => .error msg
    | .ok signingKey => .ok ⟨fun _ => none, loader, signingKey, mapping, fun _ => none⟩

/-- `register_running_service(service_name, hash)`. -/
def SideCarServer.registerRunningService (srv : SideCarServer) (serviceName : ServiceName)
    (hash : BinHash) : SideCarServer :=
  { srv with serviceBinMap := Function.update srv.serviceBinMap serviceName (some hash) }

/-- `setup_service_key_channel(service_name, handler)`: a service gets one
pipe; a second registration panics. -/
def SideCarServer.setupServiceKeyChannel (srv : SideCarServer) (serviceName : ServiceName)
    (handler : FifoWriterHandle) : Except String SideCarServer :=
  match srv.serviceKeyPassingSessions serviceName with
  | none => .ok { srv with
      serviceKeyPassingSessions := Function.update srv.serviceKeyPassingSessions serviceName
        (some handler) }
  | some _ => .error "Service shouldn't be registered for the sidecar"

/-- A command `launch_binary` starts. -/
structure Command where
  program : String
  currentDir : String
  args : List String

/-- `launch_binary(bin_path, dir_to_run)`. `derived` is the KEK
`FifoWriterHandle::new` derives and `spawned` whether `spawn` succeeds. -/
def launchBinary (binPath dirToRun : String) (derived : Bytes) (spawned : Bool) :
    Except String (FifoWriterHandle × Command) :=
  let fifoPath := pathJoin dirToRun "sidecar_fifo"
  let (fifoHandle, kekHex) := FifoWriterHandle.new derived
  if spawned then
    .ok (fifoHandle.enableFifo, ⟨binPath, dirToRun, ["--fifo_path", fifoPath, "--kek_hex", ⟨kekHex⟩]⟩)
  else .error "Couldn't start process"

/-- A path as `hash_bin` opens it: the directory and the file name. -/
def BinPath.ofPath (path : String) : BinPath :=
  let parts := path.splitOn "/"
  ⟨"/".intercalate parts.dropLast, parts.getLast?.getD ""⟩

/-- The hash `main` records for a binary: `hash_bin`, whose `Err` panics. -/
def hashForSetup (files : BinPath → Option Bytes) (reads : BinPath → List ReadResult)
    (binPath : String) : Except String BinHash :=
  match hashBin files reads (BinPath.ofPath binPath) with
  | .error msg => .error msg
  | .ok (.error _) => .error "Couldn't hash binary"
  | .ok (.ok hash) => .ok hash

/-- One iteration of `main`'s set-up loop. -/
def SideCarServer.setupBinary (srv : SideCarServer) (config : SideCarConfig)
    (files : BinPath → Option Bytes) (reads : BinPath → List ReadResult) (binName : ServiceName)
    (binSetup : BinaryConfig) (derived : Bytes) (spawned : Bool) :
    Except String (SideCarServer × Command) :=
  match hashForSetup files reads binSetup.binPath with
  | .error msg => .error msg
  | .ok hash =>
    match launchBinary binSetup.binPath binSetup.runPath derived spawned with
    | .error msg => .error msg
    | .ok (handler, command) =>
      match config.serviceMapping binName with
      | none => .error "Binary->Service mapping does not exist"
      | some service =>
        match srv.setupServiceKeyChannel service handler with
        | .error msg => .error msg
        | .ok srv => .ok (srv.registerRunningService binName hash, command)

/-- `main`'s set-up loop over the binaries in iteration order; each launch
draws its own KEK. -/
def SideCarServer.setupAll (srv : SideCarServer) (config : SideCarConfig)
    (files : BinPath → Option Bytes) (reads : BinPath → List ReadResult)
    (derived : ServiceName → Bytes) (spawned : ServiceName → Bool) :
    List (ServiceName × BinaryConfig) → Except String (SideCarServer × List Command)
  | [] => .ok (srv, [])
  | (binName, binSetup) :: rest =>
    match srv.setupBinary config files reads binName binSetup (derived binName) (spawned binName) with
    | .error msg => .error msg
    | .ok (srv, command) =>
      (srv.setupAll config files reads derived spawned rest).map fun r => (r.1, command :: r.2)

/-- What a sidecar reads at start-up: its files, the two TOML
deserializations, the key parser, and the binaries' bytes and `read` results. -/
structure SidecarInputs where
  fs : Files
  parseSidecar : List Char → Except String SideCarConfig
  parseCertificates : List Char → Except String Config
  fromPkcs8 : Bytes → Option Bytes
  files : BinPath → Option Bytes
  reads : BinPath → List ReadResult

/-- The set-up half of the sidecar's `main`: the server it then serves from,
and the commands it started. -/
def sidecarSetup (inp : SidecarInputs) (order : HashOrder (ServiceName × BinaryConfig))
    (derived : ServiceName → Bytes) (spawned : ServiceName → Bool) :
    Except String (SideCarServer × List Command) :=
  match SideCarConfig.new (inp.fs.text "./sidecar_config.toml") inp.parseSidecar with
  | .error msg => .error msg
  | .ok config =>
    match SideCarServer.new inp.parseCertificates inp.fs inp.fromPkcs8 config.certificatesConfig
        config.signingKey config.serviceMapping with
    | .error msg => .error msg
    | .ok srv =>
      match getBinaries config.binaries with
      | .error msg => .error msg
      | .ok binaries => srv.setupAll config inp.files inp.reads derived spawned (order.arrange binaries)

/-! ## One iteration -/

/-- The command `launch_binary` starts for a binary whose pipe has KEK `kek`. -/
def BinaryConfig.command (conf : BinaryConfig) (kek : Bytes) : Command :=
  ⟨conf.binPath, conf.runPath, ["--fifo_path", pathJoin conf.runPath "sidecar_fifo", "--kek_hex", ⟨hexEncode kek⟩]⟩

/-- The FIFO sits in the run directory, with one `/` between them, whether
or not the directory's path ends in one; an empty directory leaves the bare
name, relative to the service's working directory. -/
example : (BinaryConfig.command ⟨"svc", "run/"⟩ []).args.take 2 = ["--fifo_path", "run/sidecar_fifo"] ∧
    (BinaryConfig.command ⟨"svc", "run"⟩ []).args.take 2 = ["--fifo_path", "run/sidecar_fifo"] ∧
    (BinaryConfig.command ⟨"svc", ""⟩ []).args.take 2 = ["--fifo_path", "sidecar_fifo"] :=
  ⟨rfl, rfl, rfl⟩

theorem launchBinary_ok {binPath dirToRun : String} {derived : Bytes} {spawned : Bool}
    {handler : FifoWriterHandle} {cmd : Command} :
    launchBinary binPath dirToRun derived spawned = .ok (handler, cmd) ↔
      spawned = true ∧ handler = ⟨derived, true⟩ ∧ cmd = BinaryConfig.command ⟨binPath, dirToRun⟩ derived := by
  cases spawned <;>
    simp [launchBinary, FifoWriterHandle.new, FifoWriterHandle.enableFifo, BinaryConfig.command, eq_comm]

theorem setupServiceKeyChannel_ok {srv srv' : SideCarServer} {service : ServiceName}
    {handler : FifoWriterHandle} :
    srv.setupServiceKeyChannel service handler = .ok srv' ↔
      srv.serviceKeyPassingSessions service = none ∧
      srv' = { srv with
        serviceKeyPassingSessions := Function.update srv.serviceKeyPassingSessions service (some handler) } := by
  cases hs : srv.serviceKeyPassingSessions service <;>
    simp [SideCarServer.setupServiceKeyChannel, hs, eq_comm]

section
variable {srv srv' : SideCarServer} {config : SideCarConfig} {files : BinPath → Option Bytes}
  {reads : BinPath → List ReadResult} {binName : ServiceName} {binSetup : BinaryConfig} {derived : Bytes}
  {spawned : Bool} {cmd : Command}

/-- Everything a successful iteration did: the binary hashed, its service
launched with the KEK's hex on its command line, the service's pipe (it had
none) registered, and the hash recorded under the binary's name. -/
theorem setupBinary_ok
    (h : srv.setupBinary config files reads binName binSetup derived spawned = .ok (srv', cmd)) :
    ∃ hash service, hashForSetup files reads binSetup.binPath = .ok hash ∧ spawned = true ∧
      config.serviceMapping binName = some service ∧ srv.serviceKeyPassingSessions service = none ∧
      srv' = SideCarServer.registerRunningService { srv with
        serviceKeyPassingSessions := Function.update srv.serviceKeyPassingSessions service
          (some ⟨derived, true⟩) } binName hash ∧
      cmd = binSetup.command derived := by
  unfold SideCarServer.setupBinary at h
  split at h; · cases h
  rename_i hash hhash
  split at h; · cases h
  rename_i handler command hlaunch
  obtain ⟨hsp, rfl, rfl⟩ := launchBinary_ok.1 hlaunch
  split at h; · cases h
  rename_i service hservice
  split at h; · cases h
  rename_i srv₁ hsetup
  obtain ⟨hnone, rfl⟩ := setupServiceKeyChannel_ok.1 hsetup
  cases h
  exact ⟨hash, service, hhash, hsp, hservice, hnone, rfl, rfl⟩

/-- The iteration writes only the hash map and the pipes. -/
theorem setupBinary_frame
    (h : srv.setupBinary config files reads binName binSetup derived spawned = .ok (srv', cmd)) :
    srv'.certificateServer = srv.certificateServer ∧ srv'.signingKey = srv.signingKey ∧
      srv'.serviceMapping = srv.serviceMapping := by
  obtain ⟨_, _, -, -, -, -, rfl, -⟩ := setupBinary_ok h
  exact ⟨rfl, rfl, rfl⟩

/-! ## What the loop establishes -/

/-- What the set-up establishes for binary `binName`: its hash is recorded, and
the service it maps to holds an enabled pipe under `kek`. -/
structure Ready (config : SideCarConfig) (srv : SideCarServer) (binName : ServiceName) (hash : BinHash)
    (kek : Bytes) : Prop where
  bin : srv.serviceBinMap binName = some hash
  channel : ∃ service, config.serviceMapping binName = some service ∧
    srv.serviceKeyPassingSessions service = some ⟨kek, true⟩

/-- An iteration makes its binary ready, with the hash of its executable and
the KEK it launched it with. -/
theorem setupBinary_ready
    (h : srv.setupBinary config files reads binName binSetup derived spawned = .ok (srv', cmd)) :
    ∃ hash, hashForSetup files reads binSetup.binPath = .ok hash ∧ Ready config srv' binName hash derived := by
  obtain ⟨hash, service, hhash, -, hservice, -, rfl, -⟩ := setupBinary_ok h
  exact ⟨hash, hhash, by simp [SideCarServer.registerRunningService], service, hservice,
    by simp [SideCarServer.registerRunningService]⟩

/-- A later iteration keeps a binary ready: it cannot reach the same service
again, since that service already holds a pipe and a second registration
panics. -/
theorem Ready.setupBinary {b : ServiceName} {hash : BinHash} {kek : Bytes} (hr : Ready config srv b hash kek)
    (h : srv.setupBinary config files reads binName binSetup derived spawned = .ok (srv', cmd)) :
    Ready config srv' b hash kek := by
  obtain ⟨_, service, -, -, hservice, hnone, rfl, -⟩ := setupBinary_ok h
  obtain ⟨hb, s, hs, hss⟩ := hr
  have hne : s ≠ service := by rintro rfl; simp [hss] at hnone
  have hbne : b ≠ binName := by rintro rfl; exact hne (Option.some.inj (hs.symm.trans hservice))
  exact ⟨by simp [SideCarServer.registerRunningService, Function.update_noteq hbne, hb], s, hs,
    by simp [SideCarServer.registerRunningService, Function.update_noteq hne, hss]⟩

end

section
variable {config : SideCarConfig} {files : BinPath → Option Bytes} {reads : BinPath → List ReadResult}
  {derived : ServiceName → Bytes} {spawned : ServiceName → Bool}

theorem setupAll_cons_ok {srv srv' : SideCarServer} {bc : ServiceName × BinaryConfig}
    {rest : List (ServiceName × BinaryConfig)} {cmds : List Command}
    (h : srv.setupAll config files reads derived spawned (bc :: rest) = .ok (srv', cmds)) :
    ∃ srv₁ cmd cmds', srv.setupBinary config files reads bc.1 bc.2 (derived bc.1) (spawned bc.1) = .ok (srv₁, cmd) ∧
      srv₁.setupAll config files reads derived spawned rest = .ok (srv', cmds') ∧ cmds = cmd :: cmds' := by
  simp only [SideCarServer.setupAll] at h
  split at h; · cases h
  rename_i srv₁ cmd hstep
  rcases hr : srv₁.setupAll config files reads derived spawned rest with _ | ⟨srv₂, cmds'⟩ <;>
    rw [hr] at h <;> cases h
  exact ⟨srv₁, cmd, cmds', hstep, hr, rfl⟩

/-- The loop writes only the hash map and the pipes, and starts one command
per binary, in iteration order, each with its own KEK. -/
theorem setupAll_frame : ∀ (bins : List (ServiceName × BinaryConfig)) {srv srv' : SideCarServer}
    {cmds : List Command}, srv.setupAll config files reads derived spawned bins = .ok (srv', cmds) →
      srv'.certificateServer = srv.certificateServer ∧ srv'.signingKey = srv.signingKey ∧
        srv'.serviceMapping = srv.serviceMapping ∧ cmds = bins.map fun bc => bc.2.command (derived bc.1)
  | [], _, _, _, h => by cases h; exact ⟨rfl, rfl, rfl, rfl⟩
  | bc :: rest, _, _, _, h => by
    obtain ⟨_, cmd, _, hstep, hrest, rfl⟩ := setupAll_cons_ok h
    obtain ⟨h₁, h₂, h₃⟩ := setupBinary_frame hstep
    obtain ⟨h₁', h₂', h₃', rfl⟩ := setupAll_frame rest hrest
    obtain ⟨_, _, -, -, -, -, -, rfl⟩ := setupBinary_ok hstep
    exact ⟨h₁'.trans h₁, h₂'.trans h₂, h₃'.trans h₃, rfl⟩

/-- The loop keeps every binary that was ready before it ready. -/
theorem Ready.setupAll {b : ServiceName} {hash : BinHash} {kek : Bytes} :
    ∀ (bins : List (ServiceName × BinaryConfig)) {srv srv' : SideCarServer} {cmds : List Command},
      Ready config srv b hash kek → srv.setupAll config files reads derived spawned bins = .ok (srv', cmds) →
        Ready config srv' b hash kek
  | [], _, _, _, hr, h => by cases h; exact hr
  | _ :: rest, _, _, _, hr, h => by
    obtain ⟨_, _, _, hstep, hrest, -⟩ := setupAll_cons_ok h
    exact Ready.setupAll rest (hr.setupBinary hstep) hrest

/-- After the loop, every binary it went through is ready, with the hash of
its executable and its own KEK. -/
theorem setupAll_ready : ∀ (bins : List (ServiceName × BinaryConfig)) {srv srv' : SideCarServer}
    {cmds : List Command}, srv.setupAll config files reads derived spawned bins = .ok (srv', cmds) →
      ∀ bc ∈ bins, ∃ hash, hashForSetup files reads bc.2.binPath = .ok hash ∧
        Ready config srv' bc.1 hash (derived bc.1)
  | [], _, _, _, _, _, hbc => nomatch hbc
  | bc :: rest, _, _, _, h, bc', hbc' => by
    obtain ⟨_, _, _, hstep, hrest, -⟩ := setupAll_cons_ok h
    rcases List.mem_cons.1 hbc' with rfl | hmem
    · obtain ⟨hash, hhash, hr⟩ := setupBinary_ready hstep
      exact ⟨hash, hhash, hr.setupAll rest hrest⟩
    · exact setupAll_ready rest hrest bc' hmem

end

/-! ## The whole start-up -/

/-- A server `SideCarServer::new` builds holds a store `from_config` built,
the config's mapping, and no binaries or pipes yet. -/
theorem SideCarServer.new_ok {parse : List Char → Except String Config} {fs : Files}
    {fromPkcs8 : Bytes → Option Bytes} {certificateConfigPath keyPath : String}
    {mapping : ServiceName → Option ServiceName} {srv : SideCarServer}
    (h : SideCarServer.new parse fs fromPkcs8 certificateConfigPath keyPath mapping = .ok srv) :
    srv.certificateServer.CertificatesNamed ∧ srv.serviceMapping = mapping ∧
      srv.serviceBinMap = (fun _ => none) ∧ srv.serviceKeyPassingSessions = (fun _ => none) := by
  unfold SideCarServer.new at h
  split at h
  · cases h
  · cases h
  · rename_i loader hloader
    split at h
    · cases h
    · cases h
      exact ⟨fromConfig_certificatesNamed hloader, rfl, rfl, rfl⟩

/-- Everything a successful start-up did: the config read, the store built
from its own files, one command per binary in iteration order, and every
configured binary ready. -/
theorem sidecarSetup_ok {inp : SidecarInputs} {order : HashOrder (ServiceName × BinaryConfig)}
    {derived : ServiceName → Bytes} {spawned : ServiceName → Bool} {srv : SideCarServer}
    {cmds : List Command} (h : sidecarSetup inp order derived spawned = .ok (srv, cmds)) :
    ∃ config binaries, SideCarConfig.new (inp.fs.text "./sidecar_config.toml") inp.parseSidecar = .ok config ∧
      getBinaries config.binaries = .ok binaries ∧ srv.certificateServer.CertificatesNamed ∧
      srv.serviceMapping = config.serviceMapping ∧
      cmds = (order.arrange binaries).map (fun bc => bc.2.command (derived bc.1)) ∧
      ∀ bc ∈ binaries, ∃ hash, hashForSetup inp.files inp.reads bc.2.binPath = .ok hash ∧
        Ready config srv bc.1 hash (derived bc.1) := by
  unfold sidecarSetup at h
  split at h; · cases h
  rename_i config hconfig
  split at h; · cases h
  rename_i srv₀ hsrv
  split at h; · cases h
  rename_i binaries hbins
  obtain ⟨hnamed, hmap, -, -⟩ := SideCarServer.new_ok hsrv
  obtain ⟨hstore, -, hmap', hcmds⟩ := setupAll_frame _ h
  exact ⟨config, binaries, hconfig, hbins, hstore ▸ hnamed, hmap'.trans hmap, hcmds,
    fun bc hbc => setupAll_ready _ h bc ((order.perm binaries).mem_iff.2 hbc)⟩

/-- A ready binary with a certificate in the store is attested for every
honest share as far as its pipe write, and the call ends as the write does:
a failed seal and a pipe with no read end panic. Otherwise the report
carries the certificate and the recorded hash, and the pipe gets the
client's key sealed under `kek`. -/
theorem Ready.attestBinary (C : Crypto) {config : SideCarConfig} {srv : SideCarServer} {b : ServiceName}
    {hash : BinHash} {kek : Bytes} {cert : TahiniCertificate} (hr : Ready config srv b hash kek)
    (hmap : srv.serviceMapping = config.serviceMapping)
    (hcert : srv.certificateServer.getCertificate b = some cert) (nonce : BitVec 128) (skc : Bytes)
    (rnd : AttestDraws) :
    ∃ R key, R.certificate = cert ∧ R.currentBinHash = hash ∧
      deriveKeyFromShares C skc R.serverKeyShare = .ok key ∧ key.length = 32 ∧
      srv.attestBinary C b nonce (C.x25519Public skc) rnd =
        if rnd.sealed then
          if rnd.readEnd then .ok (R, sessionWrites C kek ⟨rnd.aeadNonce, key, R.clientId⟩)
          else .error "Couldn't write to FIFO"
        else .error "Couldn't write session to service pipe" := by
  obtain ⟨hb, s, hs, hss⟩ := hr
  obtain ⟨key, hk, hl⟩ := deriveKeyFromShares_public C rnd.sk skc
  exact ⟨_, key, rfl, rfl, (deriveKeyFromShares_comm C skc rnd.sk).trans hk, hl,
    attestBinary_write hb hcert hk (hmap ▸ hs) hss rfl⟩

/-- After a successful start-up, every configured binary the store holds a
certificate for is attested for any client with an honest share, as far as
its pipe write, and the call ends as the write does. A failed seal panics
with `attest_binary`'s message, and a pipe with no read end (before the
service's reader thread has opened its end, or after it has exited:
`Sidecar.Launch`) with `write_session_key`'s. Otherwise the report carries
the certificate, which names the binary, and the hash of the executable the
sidecar hashed before launching it. The line the call wrote is for the
service launched for the binary: its command line carries the KEK's hex,
which the service decodes to its reader's KEK, and under that KEK the line
decodes to the report's client id and the key the client derives from the
report. -/
theorem sidecarSetup_session (C : Crypto) {inp : SidecarInputs}
    {order : HashOrder (ServiceName × BinaryConfig)} {derived : ServiceName → Bytes}
    {spawned : ServiceName → Bool} {srv : SideCarServer} {cmds : List Command}
    (h : sidecarSetup inp order derived spawned = .ok (srv, cmds)) (hkek : ∀ b, (derived b).length = 32) :
    ∃ config binaries, SideCarConfig.new (inp.fs.text "./sidecar_config.toml") inp.parseSidecar = .ok config ∧
      getBinaries config.binaries = .ok binaries ∧
      ∀ b conf, (b, conf) ∈ binaries → ∃ hash reader,
        hashForSetup inp.files inp.reads conf.binPath = .ok hash ∧ conf.command (derived b) ∈ cmds ∧
        FifoReadHandle.new (hexEncode (derived b)) = .ok reader ∧
        ∀ cert nonce skc rnd, srv.certificateServer.getCertificate b = some cert →
          ∃ R writes key, srv.attestBinary C b nonce (C.x25519Public skc) rnd =
              (if rnd.sealed then
                if rnd.readEnd then .ok (R, writes) else .error "Couldn't write to FIFO"
              else .error "Couldn't write session to service pipe") ∧
            R.certificate = cert ∧ cert.serviceName = b ∧ R.currentBinHash = hash ∧
            deriveKeyFromShares C skc R.serverKeyShare = .ok key ∧
            reader.decodeLine C writes.flatten = .ok (R.clientId, key) := by
  obtain ⟨config, binaries, hconfig, hbins, hnamed, hmap, rfl, hready⟩ := sidecarSetup_ok h
  refine ⟨config, binaries, hconfig, hbins, fun b conf hbc => ?_⟩
  obtain ⟨hash, hhash, hr⟩ := hready _ hbc
  refine ⟨hash, ⟨derived b⟩, hhash, List.mem_map.2 ⟨_, (order.perm _).mem_iff.2 hbc, rfl⟩,
    FifoReadHandle.new_hexEncode (hkek b), fun cert nonce skc rnd hcert => ?_⟩
  obtain ⟨R, key, hRc, hRh, hkey, hl, hattest⟩ := hr.attestBinary C hmap hcert nonce skc rnd
  exact ⟨R, _, key, hattest, hRc, hnamed _ _ hcert, hRh, hkey, decodeLine_sessionLine C (derived b) _ hl⟩

/-! ## A sidecar with one binary -/

/-- A config with one binary, `svc_bin`, that runs service `svc`. -/
def demoConfig : SideCarConfig :=
  ⟨[("svc_bin", .table [("bin_path", .string "/opt/svc/svc_bin"), ("run_path", .string "/opt/svc")])],
    "certificates.toml", "signing_key.pk8", fun b => if b = ⟨"svc_bin"⟩ then some ⟨"svc"⟩ else none⟩

/-- The certificate the store loads for `svc_bin`. -/
def demoCertificate : TahiniCertificate := ⟨⟨"svc_bin"⟩, ⟨"policy"⟩, ⟨"hash"⟩, ⟨"sig"⟩⟩

/-- The files: the config, the store's config naming one certificate file,
a three-byte executable read in one piece, and a key. -/
def demoInputs : SidecarInputs where
  fs := ⟨fun p => if p = "svc_bin_certificate.json" then .ok (Codec.certificate.write demoCertificate)
    else .ok [], fun _ => .ok (List.replicate 32 0)⟩
  parseSidecar := fun _ => .ok demoConfig
  parseCertificates := fun _ => .ok ⟨[("svc_bin", .string "svc_bin_certificate.json")], none, []⟩
  fromPkcs8 := some
  files := fun _ => some [1, 2, 3]
  reads := fun _ => Chunking.reads [3]

/-- The server the start-up builds from `demoInputs`. -/
def demoServer : SideCarServer where
  serviceBinMap := Function.update (fun _ => none) ⟨"svc_bin"⟩ (some (binHashOf (Sha256.new.update [1, 2, 3])))
  certificateServer := ⟨Function.update (fun _ => none) ⟨"svc_bin"⟩ (some demoCertificate), none, fun _ => none⟩
  signingKey := List.replicate 32 0
  serviceMapping := demoConfig.serviceMapping
  serviceKeyPassingSessions := Function.update (fun _ => none) ⟨"svc"⟩ (some ⟨List.replicate 32 0, true⟩)

theorem demoSetup_eq : sidecarSetup demoInputs .insertion (fun _ => List.replicate 32 0) (fun _ => true) =
    .ok (demoServer, [BinaryConfig.command ⟨"/opt/svc/svc_bin", "/opt/svc"⟩ (List.replicate 32 0)]) := by
  rfl

theorem sidecarSetup_session_demo :
    ∃ config binaries, SideCarConfig.new (demoInputs.fs.text "./sidecar_config.toml")
        demoInputs.parseSidecar = .ok config ∧ getBinaries config.binaries = .ok binaries ∧
      ∀ b conf, (b, conf) ∈ binaries → ∃ hash reader,
        hashForSetup demoInputs.files demoInputs.reads conf.binPath = .ok hash ∧
        conf.command (List.replicate 32 0) ∈
          [BinaryConfig.command ⟨"/opt/svc/svc_bin", "/opt/svc"⟩ (List.replicate 32 0)] ∧
        FifoReadHandle.new (hexEncode (List.replicate 32 0)) = .ok reader ∧
        ∀ cert nonce skc rnd, demoServer.certificateServer.getCertificate b = some cert →
          ∃ R writes key, demoServer.attestBinary Crypto.degenerate b nonce
              (Crypto.degenerate.x25519Public skc) rnd =
              (if rnd.sealed then
                if rnd.readEnd then .ok (R, writes) else .error "Couldn't write to FIFO"
              else .error "Couldn't write session to service pipe") ∧
            R.certificate = cert ∧ cert.serviceName = b ∧ R.currentBinHash = hash ∧
            deriveKeyFromShares Crypto.degenerate skc R.serverKeyShare = .ok key ∧
            reader.decodeLine Crypto.degenerate writes.flatten = .ok (R.clientId, key) :=
  sidecarSetup_session Crypto.degenerate demoSetup_eq fun _ => List.length_replicate 32 0

end Tahini.Sidecar
