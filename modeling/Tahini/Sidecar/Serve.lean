import Mathlib.Data.List.DropRight
import Tahini.Sidecar.Setup
import Tahini.Service.Handoff

/-!
# Concurrent `attest_binary` calls (`sidecar/src/main.rs`)

After its set-up, the sidecar's accept loop spawns a task per connection,
and the tasks serve their requests concurrently. All they share is read
behind `RwLock`s that nobody writes after set-up, except the services' pipe
handles. Those sit behind one `tokio::sync::Mutex`,
`service_key_passing_sessions`. A task takes it, makes the `write` calls of
its line on the pipe of its binary's service (`write_session_key`), and
drops the guard before it returns the report.

`Serve` is the state machine of every interleaving of the tasks' steps. A
task computes its call up to the lock (`call`), takes the lock when it is
free (`lock`), makes one `write` call at a time (`write`), and drops the
guard and returns (`unlock`). A `write` that finds no read end of the pipe
open fails with `EPIPE` and the task panics there (`fail`): before the
service's reader thread has opened its end, or after it has exited
(`Sidecar.Launch`). The panic unwinds the task, tokio drops its guard, and
the part of its line already written stays in the pipe. The lock goes to any
waiting task, so the model also takes orders that tokio's fair queue never
takes.

`serveRun_linearizable` is what the lock is for. At most one task holds it.
Every service's pipe holds, one after another in the order the tasks took
the lock, the lines of the calls that let it go: whole for those that
returned, and up to the failed `write` for those that panicked there; and
then the holder's line so far. That is the pipe of `seqServe`, the server
that makes the same calls one at a time, each with the same `write` calls
failing. The invariant is `ServeInv`, kept by each event (`ServeInv.call`,
`ServeInv.lock`, `ServeInv.write`, `ServeInv.fail`, `ServeInv.unlock`).

`serveRun_handoff_keys` joins this with the service's side
(`Service.Handoff`). Take any interleaving of the sidecar's tasks, and any
interleaving of the pipe's arrivals, the reader thread's reads and the
service's handlers. Then a handler that gets a key for a client id gets the
session key of a call that returned, or is returning, a report with that
id. It is the key the client that sent the call's share derives from that
report. A line cut short by a failed `write` never yields a key.

Mirroring notes: `call` runs all of `attest_binary`'s lookups and the seal
at once. The code looks up the service and its handle, and seals, after
taking the lock, but a call that panics there writes nothing, and tokio
drops its guard as the task unwinds, so the lock is free again as in the
model. Whether a `write` finds a read end is decided at each `write`, so
`call` computes the line as `attest_binary` does with a read end open.
-/

namespace Tahini.Sidecar

open Tahini.Core Tahini.Service

/-! ## The tasks and the lock -/

/-- One client's `attest_binary(service_name, nonce, key_share)`, with the
randomness its task will draw. -/
structure Request where
  serviceName : ServiceName
  nonce : BitVec 128
  keyShare : Bytes
  rnd : AttestDraws

/-- `attest_binary` up to its `write` calls: the report, the service whose
pipe the call writes to, and the `write` calls of its line; or its panic.
Each `write` meets the pipe on its own here (`ServeEvent.write`,
`ServeEvent.fail`), so the line is the one a call with a read end open
computes. -/
def SideCarServer.serveCall (C : Crypto) (srv : SideCarServer) (r : Request) :
    Except String (DynamicAttestationReport × ServiceName × List (List Char)) :=
  match srv.attestBinary C r.serviceName r.nonce r.keyShare { r.rnd with readEnd := true } with
  | .error msg => .error msg
  | .ok (R, writes) =>
    match srv.serviceMapping r.serviceName with
    | some service => .ok (R, service, writes)
    | none => .error "Provided binary is not registered"

/-- The `write` calls each service's pipe received, with `writes` appended
to `service`'s. -/
def appendWrites (pipes : ServiceName → List (List Char)) (service : ServiceName)
    (writes : List (List Char)) : ServiceName → List (List Char) :=
  Function.update pipes service (pipes service ++ writes)

/-- Where the task serving one request is. -/
inductive AttestTask where
  /-- Not served yet. -/
  | idle
  /-- At `service_key_passing_sessions.lock().await`, its report and line
  computed. -/
  | waiting (report : DynamicAttestationReport) (service : ServiceName) (writes : List (List Char))
  /-- Holding the guard; `rest` are the `write` calls of its line still to
  make. -/
  | holding (report : DynamicAttestationReport) (service : ServiceName) (rest : List (List Char))
  /-- Dropped the guard and returned its report. -/
  | returned (report : DynamicAttestationReport)
  /-- Panicked with `"Couldn't write to FIFO"` at a `write` that found no
  read end; tokio dropped its guard. `rest` are the `write` calls of its
  line it did not make, the failed one first. -/
  | writeFailed (rest : List (List Char))
  /-- Panicked before it wrote. -/
  | panicked (msg : String)

/-- The task took the lock and let it go: it returned, or panicked at a
`write`. -/
def AttestTask.released : AttestTask → Bool
  | .returned _ | .writeFailed _ => true
  | _ => false

/-- How many `write` calls of its line the task will never make. -/
def AttestTask.unwritten : AttestTask → Nat
  | .writeFailed rest => rest.length
  | _ => 0

section
variable {R : DynamicAttestationReport} {service : ServiceName} {writes : List (List Char)} {msg : String}

@[simp] theorem AttestTask.released_idle : AttestTask.idle.released = false := rfl
@[simp] theorem AttestTask.released_waiting : (AttestTask.waiting R service writes).released = false := rfl
@[simp] theorem AttestTask.released_holding : (AttestTask.holding R service writes).released = false := rfl
@[simp] theorem AttestTask.released_returned : (AttestTask.returned R).released = true := rfl
@[simp] theorem AttestTask.released_writeFailed : (AttestTask.writeFailed writes).released = true := rfl
@[simp] theorem AttestTask.released_panicked : (AttestTask.panicked msg).released = false := rfl
@[simp] theorem AttestTask.unwritten_idle : AttestTask.idle.unwritten = 0 := rfl
@[simp] theorem AttestTask.unwritten_waiting : (AttestTask.waiting R service writes).unwritten = 0 := rfl
@[simp] theorem AttestTask.unwritten_holding : (AttestTask.holding R service writes).unwritten = 0 := rfl
@[simp] theorem AttestTask.unwritten_returned : (AttestTask.returned R).unwritten = 0 := rfl
@[simp] theorem AttestTask.unwritten_writeFailed : (AttestTask.writeFailed writes).unwritten = writes.length :=
  rfl
@[simp] theorem AttestTask.unwritten_panicked : (AttestTask.panicked msg).unwritten = 0 := rfl

end

/-- The serving sidecar: the task of each accepted request, the task
holding the `Mutex`, and the `write` calls each service's pipe received, in
order. -/
structure Serve where
  tasks : Nat → AttestTask
  holder : Option Nat
  pipes : ServiceName → List (List Char)

/-- No request served yet. -/
def Serve.init : Serve := ⟨fun _ => .idle, none, fun _ => []⟩

/-- One step of one task. -/
inductive ServeEvent where
  | call (i : Nat)
  | lock (i : Nat)
  | write (i : Nat)
  /-- Task `i`'s next `write` finds no read end. -/
  | fail (i : Nat)
  | unlock (i : Nat)

/-- A step of task `i` of the requests `reqs`; a step its task cannot take
changes nothing. -/
def Serve.step (C : Crypto) (srv : SideCarServer) (reqs : Nat → Request) (s : Serve) :
    ServeEvent → Serve
  | .call i =>
    match s.tasks i with
    | .idle =>
      match srv.serveCall C (reqs i) with
      | .error msg => { s with tasks := Function.update s.tasks i (.panicked msg) }
      | .ok (R, service, writes) => { s with tasks := Function.update s.tasks i (.waiting R service writes) }
    | _ => s
  | .lock i =>
    match s.holder, s.tasks i with
    | none, .waiting R service writes =>
      { s with holder := some i, tasks := Function.update s.tasks i (.holding R service writes) }
    | _, _ => s
  | .write i =>
    match s.tasks i with
    | .holding R service (w :: rest) =>
      { s with tasks := Function.update s.tasks i (.holding R service rest),
               pipes := appendWrites s.pipes service [w] }
    | _ => s
  | .fail i =>
    match s.tasks i with
    | .holding _ _ (w :: rest) =>
      { s with holder := none, tasks := Function.update s.tasks i (.writeFailed (w :: rest)) }
    | _ => s
  | .unlock i =>
    match s.tasks i with
    | .holding R _ [] => { s with holder := none, tasks := Function.update s.tasks i (.returned R) }
    | _ => s

/-- The steps in order. -/
def Serve.run (C : Crypto) (srv : SideCarServer) (reqs : Nat → Request) (s : Serve)
    (events : List ServeEvent) : Serve :=
  events.foldl (Serve.step C srv reqs) s

/-- The `write` calls the holder of the lock still owes a service's pipe. -/
def Serve.owed (s : Serve) (service : ServiceName) : List (List Char) :=
  match s.holder with
  | none => []
  | some i =>
    match s.tasks i with
    | .holding _ service' rest => if service = service' then rest else []
    | _ => []

/-- The server that makes the calls one at a time: each call's line goes to
its service's pipe whole, but for its last `unwritten` `write` calls, which
a call whose `write` failed never made. -/
def seqServe (C : Crypto) (srv : SideCarServer) (calls : List (Request × Nat)) :
    ServiceName → List (List Char) :=
  calls.foldl (fun pipes c =>
    match srv.serveCall C c.1 with
    | .ok (_, service, writes) => appendWrites pipes service (writes.rdrop c.2)
    | .error _ => pipes) fun _ => []

@[simp] theorem appendWrites_apply (pipes : ServiceName → List (List Char)) (service : ServiceName)
    (writes : List (List Char)) (svc : ServiceName) :
    appendWrites pipes service writes svc = pipes svc ++ if svc = service then writes else [] := by
  by_cases h : svc = service
  · subst h; simp [appendWrites]
  · simp [appendWrites, Function.update_noteq h, h]

theorem rdrop_append_length {α : Type} (pre rest : List α) : (pre ++ rest).rdrop rest.length = pre := by
  simp [List.rdrop]

section
variable {C : Crypto} {srv : SideCarServer} {reqs : Nat → Request} {s : Serve}

theorem seqServe_append_ok {calls : List (Request × Nat)} {r : Request} {u : Nat}
    {R : DynamicAttestationReport} {service : ServiceName} {writes : List (List Char)}
    (h : srv.serveCall C r = .ok (R, service, writes)) :
    seqServe C srv (calls ++ [(r, u)]) = appendWrites (seqServe C srv calls) service (writes.rdrop u) := by
  simp [seqServe, h]

theorem seqServe_append_error {calls : List (Request × Nat)} {r : Request} {u : Nat} {msg : String}
    (h : srv.serveCall C r = .error msg) : seqServe C srv (calls ++ [(r, u)]) = seqServe C srv calls := by
  simp [seqServe, h]

/-- A call that reaches its `write` calls writes the line of the key derived
from its share, under the KEK of its service's handle. -/
theorem serveCall_ok {r : Request} {R : DynamicAttestationReport} {service : ServiceName}
    {writes : List (List Char)} (h : srv.serveCall C r = .ok (R, service, writes)) :
    ∃ handle key, srv.serviceMapping r.serviceName = some service ∧
      srv.serviceKeyPassingSessions service = some handle ∧
      deriveKeyFromShares C r.rnd.sk r.keyShare = .ok key ∧ R.serverKeyShare = C.x25519Public r.rnd.sk ∧
      writes = sessionWrites C handle.kek ⟨r.rnd.aeadNonce, key, R.clientId⟩ := by
  unfold SideCarServer.serveCall at h
  split at h; · cases h
  rename_i R' writes' ha
  split at h
  · rename_i service' hs
    cases h
    obtain ⟨_, _, key, service'', handle, -, -, hkey, hs', hh, -, -, -, rfl, rfl⟩ := attestBinary_ok ha
    cases hs.symm.trans hs'
    exact ⟨handle, key, hs, hh, hkey, rfl, rfl⟩
  · cases h

/-- What the holder owes depends only on the holder and its task. -/
theorem Serve.owed_congr {s s' : Serve} (hholder : s'.holder = s.holder)
    (htasks : ∀ j, s.holder = some j → s'.tasks j = s.tasks j) : s'.owed = s.owed := by
  funext svc
  unfold Serve.owed
  rw [hholder]
  cases hh : s.holder with
  | none => rfl
  | some j => simp only [htasks j hh]

/-- Changing task `i` in a way that keeps its count, or outside the list,
leaves the calls' counts as they were. -/
theorem map_unwritten_update_of_mem (reqs : Nat → Request) (tasks : Nat → AttestTask) {i : Nat}
    {t : AttestTask} {l : List Nat} (ht : i ∈ l → t.unwritten = (tasks i).unwritten) :
    l.map (fun j => (reqs j, (Function.update tasks i t j).unwritten)) =
      l.map fun j => (reqs j, (tasks j).unwritten) :=
  List.map_congr_left fun j hj => by
    rcases eq_or_ne j i with rfl | hne
    · simp [ht hj]
    · simp [Function.update_noteq hne]

theorem map_unwritten_update (reqs : Nat → Request) (tasks : Nat → AttestTask) {i : Nat}
    {t : AttestTask} (ht : t.unwritten = (tasks i).unwritten) (l : List Nat) :
    l.map (fun j => (reqs j, (Function.update tasks i t j).unwritten)) =
      l.map fun j => (reqs j, (tasks j).unwritten) :=
  map_unwritten_update_of_mem reqs tasks fun _ => ht

/-! ## The invariant -/

/-- A task's state is what its request's call computed. -/
def AttestTask.Agrees (c : Except String (DynamicAttestationReport × ServiceName × List (List Char))) :
    AttestTask → Prop
  | .idle => True
  | .waiting R service writes => c = .ok (R, service, writes)
  | .holding R service rest => ∃ pre, c = .ok (R, service, pre ++ rest)
  | .returned R => ∃ service writes, c = .ok (R, service, writes)
  | .writeFailed rest => ∃ R service pre, c = .ok (R, service, pre ++ rest) ∧ rest ≠ []
  | .panicked msg => c = .error msg

/-- What every reachable state satisfies: each task agrees with its call,
the lock's holder is the one task holding it, and the pipes with the
holder's owed `write` calls are those of the sequential server run on the
calls that let the lock go, in an order, with the `write` calls each made,
and then the holder's. -/
structure ServeInv (C : Crypto) (srv : SideCarServer) (reqs : Nat → Request) (s : Serve) : Prop where
  agrees : ∀ i, (s.tasks i).Agrees (srv.serveCall C (reqs i))
  holder : ∀ i, s.holder = some i ↔ ∃ R service rest, s.tasks i = .holding R service rest
  order : ∃ order : List Nat, order.Nodup ∧ (∀ i, i ∈ order ↔ (s.tasks i).released = true) ∧
    ∀ service, s.pipes service ++ s.owed service =
      seqServe C srv ((order ++ s.holder.toList).map fun i => (reqs i, (s.tasks i).unwritten)) service

theorem ServeInv.init (C : Crypto) (srv : SideCarServer) (reqs : Nat → Request) :
    ServeInv C srv reqs Serve.init :=
  ⟨fun _ => trivial, fun _ => by simp [Serve.init], ⟨[], List.nodup_nil,
    fun _ => by simp [Serve.init], fun _ => rfl⟩⟩

/-- A step of task `i` that leaves the other tasks, and whether each of
them holds the lock, as they were: the invariant then needs checking at `i`
and for the pipes only. -/
theorem ServeInv.of_step_at (hi : ServeInv C srv reqs s) {i : Nat} {s' : Serve}
    (htasks : ∀ j, j ≠ i → s'.tasks j = s.tasks j)
    (hholder : ∀ j, j ≠ i → (s'.holder = some j ↔ s.holder = some j))
    (hag : (s'.tasks i).Agrees (srv.serveCall C (reqs i)))
    (hhold : s'.holder = some i ↔ ∃ R service rest, s'.tasks i = .holding R service rest)
    (horder : ∃ order : List Nat, order.Nodup ∧ (∀ j, j ∈ order ↔ (s'.tasks j).released = true) ∧
      ∀ service, s'.pipes service ++ s'.owed service =
        seqServe C srv ((order ++ s'.holder.toList).map fun j => (reqs j, (s'.tasks j).unwritten)) service) :
    ServeInv C srv reqs s' := by
  refine ⟨fun j => ?_, fun j => ?_, horder⟩ <;> rcases eq_or_ne j i with rfl | hj
  · exact hag
  · rw [htasks j hj]; exact hi.agrees j
  · exact hhold
  · rw [hholder j hj, htasks j hj]; exact hi.holder j

/-- The released tasks stay the same when task `i` neither was nor becomes
one of them. -/
theorem released_iff_of_step_at {s' : Serve} {i : Nat} (htasks : ∀ j, j ≠ i → s'.tasks j = s.tasks j)
    (h' : (s'.tasks i).released = false) (h : (s.tasks i).released = false) (j : Nat) :
    (s'.tasks j).released = true ↔ (s.tasks j).released = true := by
  rcases eq_or_ne j i with rfl | hj
  · simp [h, h']
  · rw [htasks j hj]

/-- Task `i`, holding the lock with `rest` still to write, lets it go and
becomes `t`, which has let it go: `t` joins the serving order. What is left
to check is the pipes: those the sequential server leaves with the call
whole, but for the `write` calls still owed, must be those it leaves with
the call's last `t.unwritten` `write` calls never made. -/
theorem ServeInv.release (hi : ServeInv C srv reqs s) {i : Nat} {R : DynamicAttestationReport}
    {service : ServiceName} {rest : List (List Char)} (ht : s.tasks i = .holding R service rest)
    {t : AttestTask} (hrel : t.released = true) (hag : t.Agrees (srv.serveCall C (reqs i)))
    (hpipes : ∀ calls svc, s.pipes svc ++ (if svc = service then rest else []) =
        seqServe C srv (calls ++ [(reqs i, 0)]) svc →
      s.pipes svc = seqServe C srv (calls ++ [(reqs i, t.unwritten)]) svc) :
    ServeInv C srv reqs { s with holder := none, tasks := Function.update s.tasks i t } := by
  have hh : s.holder = some i := (hi.holder i).2 ⟨_, _, _, ht⟩
  have htasks : ∀ j, j ≠ i → Function.update s.tasks i t j = s.tasks j :=
    fun j hj => Function.update_noteq hj _ _
  obtain ⟨order, hnd, hmem, hp⟩ := hi.order
  have hni : i ∉ order := fun h => by simpa [ht] using (hmem i).1 h
  refine hi.of_step_at htasks (fun j hj => by simp [hh, Ne.symm hj]) (by simpa using hag)
    (iff_of_false (by simp) (by simp only [Function.update_same]; rintro ⟨_, _, _, rfl⟩; simp at hrel))
    ⟨order ++ [i], List.nodup_append.2 ⟨hnd, List.nodup_singleton i, by simpa using hni⟩,
      fun j => ?_, fun svc => ?_⟩
  · rcases eq_or_ne j i with rfl | hj
    · simpa using hrel
    · simpa [htasks j hj, hj] using hmem j
  · have hp := hp svc
    simp only [Serve.owed, hh, ht, Option.toList_some, List.map_append, List.map_singleton,
      AttestTask.unwritten_holding] at hp
    simpa [Serve.owed, map_unwritten_update_of_mem reqs s.tasks (t := t) fun h => absurd h hni] using
      hpipes _ svc hp

theorem ServeInv.call (hi : ServeInv C srv reqs s) (i : Nat) :
    ServeInv C srv reqs (s.step C srv reqs (.call i)) := by
  cases ht : s.tasks i with
  | idle =>
    have hne : s.holder ≠ some i := fun h => by
      obtain ⟨_, _, _, h'⟩ := (hi.holder i).1 h
      rw [ht] at h'
      cases h'
    obtain ⟨order, hnd, hmem, hpipes⟩ := hi.order
    -- the task becomes `waiting` or `panicked`: it neither holds the lock nor has let it go
    have hidle : ∀ t : AttestTask, t.Agrees (srv.serveCall C (reqs i)) →
        (∀ R service rest, t ≠ .holding R service rest) → t.released = false → t.unwritten = 0 →
        ServeInv C srv reqs { s with tasks := Function.update s.tasks i t } := fun t hag hhold hrel hu => by
      have htasks : ∀ j, j ≠ i → Function.update s.tasks i t j = s.tasks j :=
        fun j hj => Function.update_noteq hj _ _
      have howed : ({ s with tasks := Function.update s.tasks i t } : Serve).owed = s.owed :=
        Serve.owed_congr rfl fun j hj => htasks j fun e => hne (e ▸ hj)
      have hcount : t.unwritten = (s.tasks i).unwritten := by rw [hu, ht]; rfl
      exact hi.of_step_at htasks (fun _ _ => Iff.rfl) (by simpa using hag) (by simpa [hne] using hhold)
        ⟨order, hnd, fun j => (hmem j).trans (released_iff_of_step_at htasks (by simpa using hrel)
          (by simp [ht]) j).symm,
          by simpa [howed, map_unwritten_update reqs s.tasks hcount] using hpipes⟩
    simp only [Serve.step, ht]
    split <;> exact hidle _ ‹_› (fun _ _ _ => nofun) rfl rfl
  | _ => simpa [Serve.step, ht] using hi

theorem ServeInv.lock (hi : ServeInv C srv reqs s) (i : Nat) :
    ServeInv C srv reqs (s.step C srv reqs (.lock i)) := by
  cases hh : s.holder with
  | some j => simpa [Serve.step, hh] using hi
  | none =>
    cases ht : s.tasks i with
    | waiting R service writes =>
      simp only [Serve.step, hh, ht]
      have hcall : srv.serveCall C (reqs i) = .ok (R, service, writes) := by
        simpa [ht, AttestTask.Agrees] using hi.agrees i
      have htasks : ∀ j, j ≠ i → Function.update s.tasks i (.holding R service writes) j = s.tasks j :=
        fun j hj => Function.update_noteq hj _ _
      obtain ⟨order, hnd, hmem, hpipes⟩ := hi.order
      refine hi.of_step_at htasks (fun j hj => by simp [hh, Ne.symm hj]) (by simp [AttestTask.Agrees, hcall])
        (by simp) ⟨order, hnd, fun j => (hmem j).trans (released_iff_of_step_at htasks
          (by simp) (by simp [ht]) j).symm, fun svc => ?_⟩
      -- the lock was free, so the pipes were the sequential server's over `order`
      have hp := hpipes svc
      simp only [Serve.owed, hh, List.append_nil, Option.toList_none] at hp
      have hcount : (AttestTask.holding R service writes).unwritten = (s.tasks i).unwritten := by
        simp [ht]
      simp [Serve.owed, map_unwritten_update reqs s.tasks hcount, seqServe_append_ok hcall, hp, ht]
    | _ => simpa [Serve.step, hh, ht] using hi

theorem ServeInv.write (hi : ServeInv C srv reqs s) (i : Nat) :
    ServeInv C srv reqs (s.step C srv reqs (.write i)) := by
  cases ht : s.tasks i with
  | holding R service rest =>
    cases rest with
    | nil => simpa [Serve.step, ht] using hi
    | cons w rest =>
      simp only [Serve.step, ht]
      have hh : s.holder = some i := (hi.holder i).2 ⟨_, _, _, ht⟩
      obtain ⟨pre, hcall⟩ : ∃ pre, srv.serveCall C (reqs i) = .ok (R, service, pre ++ w :: rest) := by
        simpa [ht, AttestTask.Agrees] using hi.agrees i
      have htasks : ∀ j, j ≠ i → Function.update s.tasks i (.holding R service rest) j = s.tasks j :=
        fun j hj => Function.update_noteq hj _ _
      obtain ⟨order, hnd, hmem, hpipes⟩ := hi.order
      refine hi.of_step_at htasks (fun _ _ => Iff.rfl) ?_ (by simpa using hh) ⟨order, hnd,
        fun j => (hmem j).trans (released_iff_of_step_at htasks (by simp)
          (by simp [ht]) j).symm, fun svc => ?_⟩
      · simp only [Function.update_same, AttestTask.Agrees]
        exact ⟨pre ++ [w], by simpa using hcall⟩
      -- the write moves `w` from the owed calls to the pipe
      · have hp := hpipes svc
        simp only [Serve.owed, hh, ht, Option.toList_some] at hp
        have hcount : (AttestTask.holding R service rest).unwritten = (s.tasks i).unwritten := by
          simp [ht]
        simp only [Serve.owed, hh, Function.update_same, appendWrites_apply, Option.toList_some, ← hp,
          map_unwritten_update reqs s.tasks hcount]
        by_cases hs : svc = service <;> simp [hs]
  | _ => simpa [Serve.step, ht] using hi

theorem ServeInv.fail (hi : ServeInv C srv reqs s) (i : Nat) :
    ServeInv C srv reqs (s.step C srv reqs (.fail i)) := by
  cases ht : s.tasks i with
  | holding R service rest =>
    cases rest with
    | nil => simpa [Serve.step, ht] using hi
    | cons w rest =>
      simp only [Serve.step, ht]
      obtain ⟨pre, hcall⟩ : ∃ pre, srv.serveCall C (reqs i) = .ok (R, service, pre ++ w :: rest) := by
        simpa [ht, AttestTask.Agrees] using hi.agrees i
      refine hi.release ht rfl (by simpa [AttestTask.Agrees] using ⟨R, service, pre, hcall⟩)
        fun calls svc hp => ?_
      -- the pipe keeps `pre`, the part of the line written before the failure
      simp only [seqServe_append_ok hcall, appendWrites_apply, List.rdrop_zero] at hp
      rw [seqServe_append_ok hcall, appendWrites_apply, AttestTask.unwritten_writeFailed,
        rdrop_append_length]
      by_cases hs : svc = service
      · simp only [hs, ↓reduceIte, ← List.append_assoc] at hp ⊢
        exact List.append_cancel_right hp
      · simpa [hs] using hp
  | _ => simpa [Serve.step, ht] using hi

theorem ServeInv.unlock (hi : ServeInv C srv reqs s) (i : Nat) :
    ServeInv C srv reqs (s.step C srv reqs (.unlock i)) := by
  cases ht : s.tasks i with
  | holding R service rest =>
    cases rest with
    | cons w rest => simpa [Serve.step, ht] using hi
    | nil =>
      simp only [Serve.step, ht]
      obtain ⟨pre, hcall⟩ : ∃ pre, srv.serveCall C (reqs i) = .ok (R, service, pre) := by
        simpa [ht, AttestTask.Agrees] using hi.agrees i
      -- the holder's line was complete
      exact hi.release ht rfl ⟨service, _, hcall⟩ fun _ _ hp => by simpa using hp
  | _ => simpa [Serve.step, ht] using hi

theorem ServeInv.step (hi : ServeInv C srv reqs s) : ∀ e, ServeInv C srv reqs (s.step C srv reqs e)
  | .call i => hi.call i
  | .lock i => hi.lock i
  | .write i => hi.write i
  | .fail i => hi.fail i
  | .unlock i => hi.unlock i

theorem ServeInv.run (events : List ServeEvent) :
    ∀ s, ServeInv C srv reqs s → ServeInv C srv reqs (s.run C srv reqs events) := by
  induction events with
  | nil => exact fun _ hi => hi
  | cons e es ih => exact fun s hi => ih _ (hi.step e)

/-- A task that let the lock go, or holds it, and left no `write` call of
its call's line unmade, returned or holds the lock, with its call's report:
a task that panicked at a `write` left that one unmade. -/
theorem ServeInv.returned_or_holding (hi : ServeInv C srv reqs s) {i : Nat}
    (hrel : (s.tasks i).released = true ∨ s.holder = some i) {R : DynamicAttestationReport}
    {service : ServiceName} {writes : List (List Char)}
    (hcall : srv.serveCall C (reqs i) = .ok (R, service, writes)) (hu : (s.tasks i).unwritten = 0) :
    s.tasks i = .returned R ∨ ∃ rest, s.tasks i = .holding R service rest := by
  have hag := hi.agrees i
  cases ht : s.tasks i with
  | returned R' =>
    obtain ⟨_, _, hc⟩ : ∃ service writes, srv.serveCall C (reqs i) = .ok (R', service, writes) := by
      simpa [ht, AttestTask.Agrees] using hag
    rw [hcall] at hc
    cases hc
    exact .inl rfl
  | holding R' service' rest =>
    obtain ⟨_, hc⟩ : ∃ pre, srv.serveCall C (reqs i) = .ok (R', service', pre ++ rest) := by
      simpa [ht, AttestTask.Agrees] using hag
    rw [hcall] at hc
    cases hc
    exact .inr ⟨rest, rfl⟩
  | writeFailed rest =>
    obtain ⟨_, _, _, -, hne⟩ : ∃ R service pre, srv.serveCall C (reqs i) = .ok (R, service, pre ++ rest) ∧
        rest ≠ [] := by simpa [ht, AttestTask.Agrees] using hag
    simp only [ht, AttestTask.unwritten_writeFailed, List.length_eq_zero] at hu
    exact absurd hu hne
  | _ =>
    obtain ⟨_, _, _, h⟩ := (hi.holder i).1 (hrel.resolve_left (by simp [ht]))
    simp [ht] at h

end

/-! ## What the lock gives -/

/-- Over every interleaving of the tasks, at most one task holds the lock,
and the services' pipes are those of the sequential server: the lines of
the calls that let the lock go, in the order they took it, each whole but
for the `write` calls it never made, then the holder's line so far (the
holder's owed `write` calls complete it). -/
theorem serveRun_linearizable (C : Crypto) (srv : SideCarServer) (reqs : Nat → Request)
    (events : List ServeEvent) :
    (∀ i j, (∃ R service rest, (Serve.init.run C srv reqs events).tasks i = .holding R service rest) →
      (∃ R service rest, (Serve.init.run C srv reqs events).tasks j = .holding R service rest) → i = j) ∧
    ∃ order : List Nat, order.Nodup ∧
      (∀ i, i ∈ order ↔ ((Serve.init.run C srv reqs events).tasks i).released = true) ∧
      ∀ service, (Serve.init.run C srv reqs events).pipes service ++
          (Serve.init.run C srv reqs events).owed service =
        seqServe C srv ((order ++ (Serve.init.run C srv reqs events).holder.toList).map
          fun i => (reqs i, ((Serve.init.run C srv reqs events).tasks i).unwritten)) service := by
  have hi := ServeInv.run events _ (ServeInv.init C srv reqs)
  exact ⟨fun i j hi' hj' => Option.some_injective _ (((hi.holder i).2 hi').symm.trans ((hi.holder j).2 hj')),
    hi.order⟩

/-! ## The key handoff, end to end -/

section
variable {C : Crypto} {srv : SideCarServer}

/-- The sequential server's pipe for a service holds what each call for
that service wrote: its session line, under the KEK of the service's handle,
but for the `write` calls it never made, with the report's client id and the
key derived from the call's share. A call's line is whole only if it made
every `write` call. -/
theorem seqServe_segments {service : ServiceName} {handle : FifoWriterHandle}
    (hh : srv.serviceKeyPassingSessions service = some handle) (calls : List (Request × Nat)) :
    ∃ segs : List Segment, seqServe C srv calls service = segs.flatMap (Segment.writes C handle.kek) ∧
      ∀ g ∈ segs, ∃ c ∈ calls, ∃ R writes, srv.serveCall C c.1 = .ok (R, service, writes) ∧
        R.clientId = g.write.clientId ∧ deriveKeyFromShares C c.1.rnd.sk c.1.keyShare = .ok g.write.keyMaterial ∧
        (g.Whole → c.2 = 0) := by
  induction calls using List.reverseRecOn with
  | nil => exact ⟨[], rfl, fun _ h => nomatch h⟩
  | append_singleton calls c ih =>
    obtain ⟨segs, hsegs, hfrom⟩ := ih
    have hsub : ∀ g ∈ segs, ∃ c' ∈ calls ++ [c], ∃ R writes, srv.serveCall C c'.1 = .ok (R, service, writes) ∧
        R.clientId = g.write.clientId ∧ deriveKeyFromShares C c'.1.rnd.sk c'.1.keyShare = .ok g.write.keyMaterial ∧
        (g.Whole → c'.2 = 0) :=
      fun g hg => by
        obtain ⟨c', hc', rest⟩ := hfrom g hg
        exact ⟨c', List.mem_append_left _ hc', rest⟩
    obtain ⟨r, u⟩ := c
    cases hc : srv.serveCall C r with
    | error msg => exact ⟨segs, by rw [seqServe_append_error hc, hsegs], hsub⟩
    | ok res =>
      obtain ⟨R, service', writes⟩ := res
      rw [seqServe_append_ok hc, appendWrites_apply, hsegs]
      by_cases hs : service = service'
      · subst hs
        obtain ⟨handle', key, -, hh', hkey, -, rfl⟩ := serveCall_ok hc
        rw [hh] at hh'
        cases hh'
        -- the call made all but its last `u` `write` calls
        refine ⟨segs ++ [⟨⟨r.rnd.aeadNonce, key, R.clientId⟩, 6 - u⟩], by simp [Segment.writes, List.rdrop],
          fun g hg => ?_⟩
        rcases List.mem_append.1 hg with hg | hg
        · exact hsub g hg
        · rw [List.mem_singleton.1 hg]
          exact ⟨(r, u), by simp, R, _, hc, rfl, hkey, fun hw => by simp [Segment.Whole] at hw; omega⟩
      · exact ⟨segs, by simp [hs], hsub⟩

/-- `key` is the session key of a call for `service` that returned, or is
returning, a report for `clientId`. It is the key derived from the call's
share, and the one that the client that sent the share derives from the
report's share. -/
def SessionOf (C : Crypto) (srv : SideCarServer) (reqs : Nat → Request) (s : Serve)
    (service : ServiceName) (clientId : ClientId) (key : Bytes) : Prop :=
  ∃ i R, (s.tasks i = .returned R ∨ ∃ rest, s.tasks i = .holding R service rest) ∧
    R.clientId = clientId ∧ srv.serviceMapping (reqs i).serviceName = some service ∧
    deriveKeyFromShares C (reqs i).rnd.sk (reqs i).keyShare = .ok key ∧
    ∀ skc, (reqs i).keyShare = C.x25519Public skc → deriveKeyFromShares C skc R.serverKeyShare = .ok key

/-- Over every interleaving of the sidecar's tasks, and over every
interleaving of the arrival of their `write` calls on a service's pipe with
the reader thread's reads and the handlers' `get_key_for_client`: a handler
gets a key for a client id, and `CLIENT_MAP` holds one, only if it is the
session key of a call that returned, or is returning, a report with that
id. -/
theorem serveRun_handoff_keys (C : Crypto) (srv : SideCarServer) (reqs : Nat → Request)
    (events : List ServeEvent) {service : ServiceName} {handle : FifoWriterHandle}
    (hh : srv.serviceKeyPassingSessions service = some handle) (handoff : List HandoffEvent) :
    (∀ c key, (c, TakeOutcome.ok key) ∈ ((Channel.ofWrites ((Serve.init.run C srv reqs events).pipes service ++
        (Serve.init.run C srv reqs events).owed service)).handoffRun C ⟨handle.kek⟩ handoff).1 →
      SessionOf C srv reqs (Serve.init.run C srv reqs events) service c key) ∧
    ∀ c key, ((Channel.ofWrites ((Serve.init.run C srv reqs events).pipes service ++
        (Serve.init.run C srv reqs events).owed service)).handoffRun C ⟨handle.kek⟩ handoff).2.reader.ingress.keys c =
          some key →
      SessionOf C srv reqs (Serve.init.run C srv reqs events) service c key := by
  have hi := ServeInv.run events _ (ServeInv.init C srv reqs)
  set s := Serve.init.run C srv reqs events
  obtain ⟨order, -, hmem, hpipes⟩ := hi.order
  obtain ⟨segs, hsegs, hfrom⟩ := seqServe_segments (C := C) hh
    ((order ++ s.holder.toList).map fun i => (reqs i, (s.tasks i).unwritten))
  have hof : ∀ c key, SessionWritten segs c key → SessionOf C srv reqs s service c key := by
    rintro c key ⟨g, hg, hwhole, rfl, rfl⟩
    obtain ⟨cl, hcl, R, writes, hcall, hcid, hkey, hu⟩ := hfrom g hg
    obtain ⟨i, hi', rfl⟩ := List.mem_map.1 hcl
    obtain ⟨-, -, hs, -, -, hshare, -⟩ := serveCall_ok hcall
    -- a whole line comes from a call that made all its `write` calls
    have htask := hi.returned_or_holding
      ((List.mem_append.1 hi').imp (hmem i).1 Option.mem_toList.1) hcall (hu hwhole)
    refine ⟨i, R, htask, hcid, hs, hkey, fun skc hskc => ?_⟩
    rw [hshare, deriveKeyFromShares_comm, ← hskc]
    exact hkey
  have hrun := HandoffInv.handoffRun handoff 0 _ (HandoffInv.init C handle.kek segs)
  rw [← hsegs, ← hpipes service] at hrun
  exact ⟨fun c key h => hof c key (hrun.1 c key h), fun c key h => hof c key (hrun.2 c key h)⟩

end

/-- A request for `svc_bin` of the sidecar `demoServer`, with zero draws. -/
def demoRequest : Request :=
  ⟨⟨"svc_bin"⟩, 0, List.replicate 32 0, ⟨0, List.replicate 32 0, ⟨List.replicate 12 0, rfl⟩, true, true⟩⟩

theorem serveRun_handoff_keys_demo :
    demoServer.serviceKeyPassingSessions ⟨"svc"⟩ = some ⟨List.replicate 32 0, true⟩ ∧
    (∀ c key, (c, TakeOutcome.ok key) ∈ ((Channel.ofWrites
        ((Serve.init.run Crypto.degenerate demoServer (fun _ => demoRequest) [.call 0, .lock 0]).pipes ⟨"svc"⟩ ++
          (Serve.init.run Crypto.degenerate demoServer (fun _ => demoRequest) [.call 0, .lock 0]).owed ⟨"svc"⟩)).handoffRun
        Crypto.degenerate ⟨List.replicate 32 0⟩ [.pipe .write, .pipe .read, .take ⟨0⟩]).1 →
      SessionOf Crypto.degenerate demoServer (fun _ => demoRequest)
        (Serve.init.run Crypto.degenerate demoServer (fun _ => demoRequest) [.call 0, .lock 0]) ⟨"svc"⟩ c key) ∧
    ∀ c key, ((Channel.ofWrites
        ((Serve.init.run Crypto.degenerate demoServer (fun _ => demoRequest) [.call 0, .lock 0]).pipes ⟨"svc"⟩ ++
          (Serve.init.run Crypto.degenerate demoServer (fun _ => demoRequest) [.call 0, .lock 0]).owed ⟨"svc"⟩)).handoffRun
        Crypto.degenerate ⟨List.replicate 32 0⟩ [.pipe .write, .pipe .read, .take ⟨0⟩]).2.reader.ingress.keys c = some key →
      SessionOf Crypto.degenerate demoServer (fun _ => demoRequest)
        (Serve.init.run Crypto.degenerate demoServer (fun _ => demoRequest) [.call 0, .lock 0]) ⟨"svc"⟩ c key :=
  ⟨rfl, @serveRun_handoff_keys Crypto.degenerate demoServer _ _ ⟨"svc"⟩ ⟨List.replicate 32 0, true⟩ rfl _⟩

end Tahini.Sidecar
