import FleetSync.Observed

/-!
# Synchronization status

Where a resource stands between the control plane and its agent: what is asked for, how far it got,
the last version the agent confirmed. `queued`, `confirmed` and `failed` are the only transitions;
a report counts only if it names the stored version, except that a tombstoned resource goes with any
delete confirmation (`deleteConfirmed`).
-/

namespace FleetSync

/-- What an agent is asked to do with a resource. -/
inductive SyncAction where
  | apply
  | delete
deriving DecidableEq, Repr, Inhabited

namespace SyncAction

/-- The name of an action. -/
def name : SyncAction → String
  | apply => "apply"
  | delete => "delete"

/-- The actions by name. -/
def variants : List (String × SyncAction) := [("apply", apply), ("delete", delete)]

/-- Reads an action. -/
def decode : Decoder SyncAction := .choice variants

/-- An action as a value. -/
def encode (a : SyncAction) : Json := .str a.name

end SyncAction

/-- How far an action got. -/
inductive SyncState where
  | inQueue
  | idle
  | updatedAtAgent
  | deletingAtAgent
  | erroredAtAgent
  | receivedUpdateFromAgent
deriving DecidableEq, Repr

namespace SyncState

instance : Inhabited SyncState := ⟨idle⟩

/-- The name of a state. -/
def name : SyncState → String
  | inQueue => "in_queue"
  | idle => "idle"
  | updatedAtAgent => "updated_at_agent"
  | deletingAtAgent => "deleting_at_agent"
  | erroredAtAgent => "errored_at_agent"
  | receivedUpdateFromAgent => "received_update_from_agent"

/-- Every state. -/
def all : List SyncState :=
  [inQueue, idle, updatedAtAgent, deletingAtAgent, erroredAtAgent, receivedUpdateFromAgent]

/-- The states by name. -/
def variants : List (String × SyncState) := all.map fun s => (s.name, s)

/-- Reads a state. -/
def decode : Decoder SyncState := .choice variants

/-- A state as a value. -/
def encode (s : SyncState) : Json := .str s.name

end SyncState

/-- A version of a resource's desired state. -/
abbrev Version := Int

namespace Version

/-- The version of a new resource. -/
def initial : Version := 1

/-- The version after one more change. -/
def next (v : Version) : Version := v + 1

end Version

/-- Where a resource stands. -/
structure SyncStatus where
  action : SyncAction
  state : SyncState
  recordVersion : Version
  syncScheduledAt : Option Instant
  lastSyncedAt : Option Instant
  error : Option String
deriving DecidableEq, Repr

namespace SyncStatus

/-- The status of a resource nothing was ever asked for. -/
def initial : SyncStatus := ⟨.apply, .idle, 0, none, none, none⟩

instance : Inhabited SyncStatus := ⟨initial⟩

/-- Reads a status. -/
def decode : Decoder SyncStatus :=
  .record ["action", "state", "record_version", "sync_scheduled_at", "last_synced_at", "error"]
    fun r => SyncStatus.mk <$> r.required "action" SyncAction.decode
      <*> r.required "state" SyncState.decode <*> r.required "record_version" .int64
      <*> r.nullable "sync_scheduled_at" .instant <*> r.nullable "last_synced_at" .instant
      <*> r.nullable "error" .text

/-- A status as a value. -/
def encode (s : SyncStatus) : Json := .obj [
  ("action", s.action.encode),
  ("state", s.state.encode),
  ("record_version", .ofInt s.recordVersion),
  ("sync_scheduled_at", .ofOption .ofInstant s.syncScheduledAt),
  ("last_synced_at", .ofOption .ofInstant s.lastSyncedAt),
  ("error", .ofOption .str s.error)]

/-- The status once an action is queued. -/
def queued (prev : SyncStatus) (action : SyncAction) (now : Instant) : SyncStatus :=
  { prev with action, state := .inQueue, syncScheduledAt := some now, error := none }

/-- The status once the agent confirmed a version. -/
def confirmed (prev : SyncStatus) (version : Version) (deleting : Bool) (time : Instant) :
    SyncStatus :=
  { prev with
    state := if deleting then .deletingAtAgent else .updatedAtAgent
    recordVersion := version
    lastSyncedAt := some time
    error := none }

/-- The status once the agent reported an error. -/
def failed (prev : SyncStatus) (message : String) (time : Instant) : SyncStatus :=
  { prev with state := .erroredAtAgent, lastSyncedAt := some time, error := some message }

end SyncStatus

/-- What a delete confirmation leads to. -/
inductive DeleteOutcome where
  | remove
  | resync
deriving DecidableEq, Repr

/-- The name of an outcome. -/
def DeleteOutcome.name : DeleteOutcome → String
  | remove => "remove"
  | resync => "resync"

/-- The outcome of a delete confirmation for a version: a tombstoned resource goes in any case. -/
def deleteConfirmed (stored reported : Version) (tombstoned : Bool) : DeleteOutcome :=
  if tombstoned || stored == reported then .remove else .resync

theorem deleteConfirmed_eq_remove {stored reported : Version} {tombstoned : Bool} :
    deleteConfirmed stored reported tombstoned = .remove ↔
      tombstoned = true ∨ stored = reported := by
  rw [deleteConfirmed]
  split
  · rename_i h
    exact ⟨fun _ => by simpa using h, fun _ => rfl⟩
  · rename_i h
    exact ⟨nofun, fun h' => absurd (by simpa using h') h⟩

end FleetSync
