import FleetSync.Access
import FleetSync.Mapping.Basic
import FleetSync.Spec
import FleetSync.Wire.Message

/-!
# Resources

Every kind of resource shares one envelope around its spec: who and where it is, what was last
observed of it, its version and how far the agent is with it, and who changed it when. Its identity
is its name within its scope (`Resource.identityKey`).
-/

namespace FleetSync

/-- What a user gives to create or update a resource. -/
structure ResourceInput where
  name : String
  namespaceName : String
  labels : SortedMap String
  annotations : SortedMap String
  spec : Spec
deriving DecidableEq, Repr, Inhabited

namespace ResourceInput

/-- An input without labels and annotations. -/
def new (name namespaceName : String) (spec : Spec) : ResourceInput :=
  ⟨name, namespaceName, ∅, ∅, spec⟩

/-- The input with one more label. -/
def withLabel (i : ResourceInput) (key value : String) : ResourceInput :=
  { i with labels := i.labels.insert key value }

/-- Reads an input. -/
def decode (kind : Kind) : Decoder ResourceInput :=
  .record ["name", "namespace", "labels", "annotations", "spec"] fun r =>
    ResourceInput.mk <$> r.required "name" .text <*> r.required "namespace" .text
      <*> r.defaulted "labels" ∅ .strings <*> r.defaulted "annotations" ∅ .strings
      <*> r.required "spec" (Spec.decode kind)

/-- An input as a value. -/
def encode (i : ResourceInput) : Json := .obj [
  ("name", .str i.name),
  ("namespace", .str i.namespaceName),
  ("labels", .ofStrings i.labels),
  ("annotations", .ofStrings i.annotations),
  ("spec", i.spec.encode)]

end ResourceInput

/-- The key of a resource's identity within its collection. -/
def identityKey (account project : String) (environment : Option String) (name : String) : String :=
  let place := environment.getD "-"
  s!"{account}/{project}/{place}/{name}"

/-- A resource. -/
structure Resource where
  id : String
  name : String
  namespaceName : String
  accountName : String
  projectName : String
  environmentName : Option String
  clusterName : Option String
  labels : SortedMap String
  annotations : SortedMap String
  spec : Spec
  status : Option Observed
  generation : Int
  agentCreationTimestamp : Option Instant
  recordVersion : Version
  syncStatus : SyncStatus
  markedForDeletion : Bool
  createdBy : User
  lastUpdatedBy : User
  creationTime : Instant
  updateTime : Instant
deriving DecidableEq, Repr, Inhabited

namespace Resource

/-- The kind of a resource. -/
def kind (r : Resource) : Kind := r.spec.kind

/-- The scope a resource lives in. -/
def scope (r : Resource) : Scope := .of r.accountName r.projectName r.environmentName

/-- The key of a resource's identity. -/
def identityKey (r : Resource) : String :=
  FleetSync.identityKey r.accountName r.projectName r.environmentName r.name

/-- The key of a resource's mapping. -/
def mappingKey (r : Resource) : MappingKey :=
  ⟨r.kind, r.name, r.namespaceName, r.accountName, r.projectName, r.environmentName⟩

/-- The mapping of a resource to a cluster. -/
def mapping (r : Resource) (cluster : String) : Mapping :=
  ⟨r.scope.level, r.kind, r.name, r.namespaceName, r.accountName, cluster, r.projectName,
    r.environmentName⟩

/-- Whether the agent confirmed the present version. -/
def isCaughtUp (r : Resource) : Bool := r.syncStatus.recordVersion == r.recordVersion

/-- The resource as sent to an agent. -/
def toWire (r : Resource) : Wire.Object :=
  ⟨r.kind, r.name, r.namespaceName, r.labels, r.annotations, r.spec.encode.canonical⟩

/-- What the agent is to do with the resource. -/
def pendingAction (r : Resource) : SyncAction := if r.markedForDeletion then .delete else .apply

/-- The names of a resource's fields, in order. -/
def fieldNames : List String :=
  ["id", "name", "namespace", "account_name", "project_name", "environment_name", "cluster_name",
    "labels", "annotations", "spec", "status", "generation", "agent_creation_timestamp",
    "record_version", "sync_status", "marked_for_deletion", "created_by", "last_updated_by",
    "creation_time", "update_time"]

/-- Reads a resource. -/
def decode (kind : Kind) : Decoder Resource := .record fieldNames fun r =>
  Resource.mk <$> r.required "id" .text <*> r.required "name" .text
    <*> r.required "namespace" .text <*> r.required "account_name" .text
    <*> r.required "project_name" .text <*> r.nullable "environment_name" .text
    <*> r.nullable "cluster_name" .text <*> r.defaulted "labels" ∅ .strings
    <*> r.defaulted "annotations" ∅ .strings <*> r.required "spec" (Spec.decode kind)
    <*> r.nullable "status" Observed.decode <*> r.defaulted "generation" 0 .int64
    <*> r.nullable "agent_creation_timestamp" .instant <*> r.required "record_version" .int64
    <*> r.defaulted "sync_status" .initial SyncStatus.decode
    <*> r.defaulted "marked_for_deletion" false .bool <*> r.required "created_by" User.decode
    <*> r.required "last_updated_by" User.decode <*> r.required "creation_time" .instant
    <*> r.required "update_time" .instant

/-- A resource as a value. -/
def encode (r : Resource) : Json := .obj [
  ("id", .str r.id),
  ("name", .str r.name),
  ("namespace", .str r.namespaceName),
  ("account_name", .str r.accountName),
  ("project_name", .str r.projectName),
  ("environment_name", .ofOption .str r.environmentName),
  ("cluster_name", .ofOption .str r.clusterName),
  ("labels", .ofStrings r.labels),
  ("annotations", .ofStrings r.annotations),
  ("spec", r.spec.encode),
  ("status", .ofOption Observed.encode r.status),
  ("generation", .ofInt r.generation),
  ("agent_creation_timestamp", .ofOption .ofInstant r.agentCreationTimestamp),
  ("record_version", .ofInt r.recordVersion),
  ("sync_status", r.syncStatus.encode),
  ("marked_for_deletion", .bool r.markedForDeletion),
  ("created_by", r.createdBy.encode),
  ("last_updated_by", r.lastUpdatedBy.encode),
  ("creation_time", .ofInstant r.creationTime),
  ("update_time", .ofInstant r.updateTime)]

end Resource

end FleetSync
