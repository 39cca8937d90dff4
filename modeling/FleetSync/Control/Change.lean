import FleetSync.Control.Dispatch

/-!
# Changing resources

What users do with a single resource. Every operation checks its arguments, asks for permission and
only then looks at the store. Creating files the resource under version 1, updating raises the
version it has found (`ControlPlane.update`) and starts again if another writer was faster, deleting
leaves a tombstone until the agent confirms.
-/

namespace FleetSync

/-- How a deletion went. -/
inductive Deletion where
  | removed
  | pendingConfirmation
deriving DecidableEq, Repr, Inhabited

/-- The name of a way a deletion goes. -/
def Deletion.name : Deletion → String
  | removed => "removed"
  | pendingConfirmation => "pending_confirmation"

namespace ResourceInput

/-- The kind of the resource asked for. -/
def kind (i : ResourceInput) : Kind := i.spec.kind

/-- Checks the names given for a new resource. -/
def checkNames (i : ResourceInput) : Except OpError Unit := do
  Name.check "name" i.name
  Name.check "namespace" i.namespaceName

/-- Checks that a new resource may live in a scope. -/
def checkPlace (i : ResourceInput) (s : Scope) : Except OpError Unit := do
  s.check
  if s.level ≠ i.kind.level then
    .error (.invalid "scope"
      s!"{i.kind.name} resources live in a {i.kind.level.name} scope, got '{s.path}'")
  else if i.kind = .project ∧ s.projectName ≠ i.name then
    .error (.invalid "name" "a project's name must match the project of its scope")
  else return

/-- The resource that is first made of an input. -/
def toResource (i : ResourceInput) (user : User) (s : Scope) (id : String) (time : Instant) :
    Resource where
  id := id
  name := i.name
  namespaceName := i.namespaceName
  accountName := s.accountName
  projectName := s.projectName
  environmentName := s.environmentName?
  clusterName := none
  labels := i.labels
  annotations := i.annotations
  spec := i.spec
  status := none
  generation := 0
  agentCreationTimestamp := none
  recordVersion := .initial
  syncStatus := SyncStatus.initial.queued .apply time
  markedForDeletion := false
  createdBy := user
  lastUpdatedBy := user
  creationTime := time
  updateTime := time

/-- A resource with the desired state of an input, at the next version. -/
def revise (i : ResourceInput) (r : Resource) (user : User) (time : Instant) : Resource :=
  { r with
    labels := i.labels
    annotations := i.annotations
    spec := i.spec
    recordVersion := r.recordVersion.next
    syncStatus := r.syncStatus.queued .apply time
    lastUpdatedBy := user
    updateTime := time }

end ResourceInput

namespace Resource

/-- The resource with a tombstone. -/
def tombstone (r : Resource) (user : User) (time : Instant) : Resource :=
  { r with
    markedForDeletion := true
    syncStatus := r.syncStatus.queued .delete time
    lastUpdatedBy := user
    updateTime := time }

/-- What an update writes. -/
def revision (r : Resource) : Patch := [
  .set ["labels"] (.ofStrings r.labels),
  .set ["annotations"] (.ofStrings r.annotations),
  .set ["spec"] r.spec.encode,
  .set ["record_version"] (.ofInt r.recordVersion),
  .set ["sync_status"] r.syncStatus.encode,
  .set ["cluster_name"] (.ofOption .str r.clusterName),
  .set ["last_updated_by"] r.lastUpdatedBy.encode,
  .set ["update_time"] (.ofInstant r.updateTime)]

/-- What a deletion writes. -/
def burial (r : Resource) : Patch := [
  .set ["marked_for_deletion"] (.bool true),
  .set ["sync_status"] r.syncStatus.encode,
  .set ["last_updated_by"] r.lastUpdatedBy.encode,
  .set ["update_time"] (.ofInstant r.updateTime)]

end Resource

/-- Makes sure that the owner of the scope of a new resource is there and stays. -/
def Scope.requireOwner (s : Scope) (kind : Kind) : Program Unit := do
  if kind = .project then return
  match ← Program.findOne s.ownerKind.collection (.owner s) with
  | none => Program.fail (.notFound s.ownerKind.name s.path)
  | some doc =>
    if doc.field? "marked_for_deletion" = some (.bool true) then
      Program.fail (.markedForDeletion s.ownerKind.name s.ownerName)
    else return

/-- Inserts the document of a new resource. -/
def Resource.insert (r : Resource) : Program Unit := do
  match ← (Program.insert r.document).attempt with
  | .error (.alreadyExists ..) => Program.fail (.alreadyExists r.kind.name r.name)
  | result => Program.ofExcept result

namespace ControlPlane

/-- Creates a resource and sends it. -/
def create (p : ControlPlane) (user : User) (s : Scope) (input : ResourceInput) :
    Program Resource := do
  Program.ofExcept input.checkNames
  Program.ofExcept (input.checkPlace s)
  Program.authorize user.id (.of input.kind s input.name) .create
  s.requireOwner input.kind
  let time ← Program.now
  let id ← Program.freshId
  let draft := input.toResource user s id time
  let r := { draft with clusterName := ← draft.cluster }
  r.insert
  if let some cluster := r.clusterName then Program.upsert (r.mapping cluster)
  Program.emit .added r
  return (← p.dispatch r .apply).2

/-- How many times an update is tried. -/
def updateAttempts : Nat := 5

/-- Brings the mappings in line with the new cluster of a resource; those of a project's members
follow it. -/
def recordMove (r : Resource) : Program Unit := do
  match r.clusterName with
  | some cluster =>
    Program.upsert (r.mapping cluster)
    if r.kind = .project then
      let _ ← Program.reassignScope r.scope cluster
  | none =>
    if r.kind = .project then
      let _ ← Program.removeScope r.scope
    else
      let _ ← Program.removeMapping r.mappingKey

/-- Tries to update a resource; `none` if another writer was faster. -/
def tryUpdate (p : ControlPlane) (user : User) (s : Scope) (input : ResourceInput) :
    Program (Option Resource) := do
  let current ← Resource.get input.kind s input.name
  if current.markedForDeletion then
    Program.fail (.markedForDeletion input.kind.name current.name)
  else if current.namespaceName ≠ input.namespaceName then
    Program.fail (.invalid "namespace" s!"is immutable (currently '{current.namespaceName}')")
  else
    let draft := input.revise current user (← Program.now)
    let updated := { draft with clusterName := ← draft.cluster }
    if ← current.patchAtVersion updated.revision then
      if updated.clusterName ≠ current.clusterName then recordMove updated
      Program.emit .updated updated
      return some (← p.dispatch updated .apply).2
    else return none

/-- Tries so many times to update a resource. -/
def updateWithin (p : ControlPlane) (user : User) (s : Scope) (input : ResourceInput) :
    Nat → Program Resource
  | 0 => Program.fail (.conflict input.kind.name input.name)
  | attempts + 1 => do
    match ← p.tryUpdate user s input with
    | some r => return r
    | none => updateWithin p user s input attempts

/-- Replaces the desired state of a resource and sends it. -/
def update (p : ControlPlane) (user : User) (s : Scope) (input : ResourceInput) :
    Program Resource := do
  Program.ofExcept s.check
  Program.authorize user.id (.of input.kind s input.name) .update
  p.updateWithin user s input updateAttempts

/-- Deletes a resource, or asks its agent to. -/
def delete (p : ControlPlane) (user : User) (kind : Kind) (s : Scope) (name : String) :
    Program Deletion := do
  Program.ofExcept s.check
  Program.authorize user.id (.of kind s name) .delete
  let current ← Resource.get kind s name
  let r := current.tombstone user (← Program.now)
  if ← r.patch r.burial then
    let (outcome, r) ← p.dispatch r .delete
    match outcome with
    | .noCluster =>
      r.remove
      return .removed
    | .dispatched .. =>
      Program.emit .updated r
      return .pendingConfirmation
  else Program.fail (.notFound kind.name name)

/-- Sends a resource once more as it is. -/
def resync (p : ControlPlane) (user : User) (kind : Kind) (s : Scope) (name : String) :
    Program DispatchOutcome := do
  Program.ofExcept s.check
  Program.authorize user.id (.of kind s name) .resync
  p.requeue (← Resource.get kind s name)

end ControlPlane

end FleetSync
