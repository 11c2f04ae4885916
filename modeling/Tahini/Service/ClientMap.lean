import Tahini.Core.Types

/-!
# The service's session-key map (`hoodini-server/src/lib.rs`)

Inside each attested service, `CLIENT_MAP` is a `RwLock<HashMap<ClientId,
key>>` shared by the ingress reader thread, which inserts one entry per pipe
line, and the RPC handlers, which take their entry with
`get_key_for_client`. Both sides reach the map through
`CLIENT_MAP.write().expect(..)`, and `get_key_for_client` unwraps the removed
entry with `.expect("Client_id not found in the map")` while it still holds
the write guard. A panic with a guard alive poisons a `std` lock, and every
later `write()` on it returns `Err`, which those same `expect`s turn into
panics. The source records this in its `FIXME`.

The model is the map, the lock's poison flag, and whether the reader thread
is still alive (`Ingress`). `Ingress.step` performs one insert or one take.
`step_take_live` and `step_insert_live` give the unpoisoned behaviour. On a
poisoned lock every take panics, and the reader thread panics at its next
insert and is gone. `getKeyForClient_absent_disables` runs a take of an
unknown id, then an insert and a take of that id, against the same insert
and take on the map the failed call left.
-/

namespace Tahini.Service

open Tahini.Core

/-- The ingress side of one service process. -/
structure Ingress where
  /-- `CLIENT_MAP`'s entries; a key is its 32 bytes of material. -/
  keys : ClientId → Option Bytes
  /-- The `RwLock`'s poison flag. -/
  poisoned : Bool
  /-- Whether the reader thread of `client_map_state_constructor` still runs. -/
  readerAlive : Bool

/-- The state at process start: empty map, healthy lock, reader running. -/
def Ingress.init : Ingress := ⟨fun _ => none, false, true⟩

/-- One access to the map. -/
inductive MapEvent where
  /-- The reader thread inserting a parsed pipe line. -/
  | insert (clientId : ClientId) (key : Bytes)
  /-- A handler calling `get_key_for_client`. -/
  | take (clientId : ClientId)

/-- What a handler's `get_key_for_client` did. -/
inductive TakeOutcome where
  | ok (key : Bytes)
  | panic (msg : String)
  deriving DecidableEq, Repr

/-- `get_key_for_client(client_id)`. -/
def Ingress.getKeyForClient (s : Ingress) (clientId : ClientId) : TakeOutcome × Ingress :=
  if s.poisoned then (.panic "Couldn't get a read lock on the client map", s)
  else match s.keys clientId with
    | some key => (.ok key, { s with keys := Function.update s.keys clientId none })
    | none => (.panic "Client_id not found in the map", { s with poisoned := true })

/-- One iteration of the reader loop's insert. A dead reader inserts nothing. -/
def Ingress.insert (s : Ingress) (clientId : ClientId) (key : Bytes) : Ingress :=
  if ¬ s.readerAlive then s
  else if s.poisoned then { s with readerAlive := false }
  else { s with keys := Function.update s.keys clientId (some key) }

/-- One event: the take's outcome, if it was a take, and the state after. -/
def Ingress.step (s : Ingress) : MapEvent → Option TakeOutcome × Ingress
  | .insert clientId key => (none, s.insert clientId key)
  | .take clientId => let r := s.getKeyForClient clientId; (some r.1, r.2)

/-- A run: the outcomes of the takes, in order, and the final state. -/
def Ingress.run (s : Ingress) : List MapEvent → List TakeOutcome × Ingress
  | [] => ([], s)
  | e :: es =>
    let r := s.step e
    let rest := r.2.run es
    (r.1.toList ++ rest.1, rest.2)

/-- On a healthy lock, a take succeeds exactly on a present id, and removes it;
on an absent id it panics and poisons the lock, leaving the entries as they were. -/
theorem step_take_live (s : Ingress) (h : s.poisoned = false) (clientId : ClientId) :
    (∀ key, s.keys clientId = some key →
      s.getKeyForClient clientId = (.ok key, { s with keys := Function.update s.keys clientId none })) ∧
    (s.keys clientId = none →
      s.getKeyForClient clientId = (.panic "Client_id not found in the map", { s with poisoned := true })) := by
  constructor
  · intro key hk
    simp [Ingress.getKeyForClient, h, hk]
  · intro hk
    simp [Ingress.getKeyForClient, h, hk]

/-- A take of an unknown id (7) disables the map: afterwards the reader's
insert of id 7 and a handler's take of it both panic, whereas on the map the
failed call left (its entries unchanged, here the initial empty map) the same
insert and take return the key. -/
theorem getKeyForClient_absent_disables (key : Bytes) :
    (Ingress.init.run [.take ⟨7⟩, .insert ⟨7⟩ key, .take ⟨7⟩]).1 =
      [.panic "Client_id not found in the map", .panic "Couldn't get a read lock on the client map"] ∧
    (Ingress.init.run [.take ⟨7⟩]).2.keys = Ingress.init.keys ∧
    (Ingress.init.run [.insert ⟨7⟩ key, .take ⟨7⟩]).1 = [.ok key] := by
  refine ⟨?_, rfl, ?_⟩ <;>
    simp [Ingress.run, Ingress.step, Ingress.getKeyForClient, Ingress.insert, Ingress.init]

end Tahini.Service
