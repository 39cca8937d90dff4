import FleetSync.Kind
import FleetSync.Sync.Status

/-!
# Messages between the control plane and its agents

An `Envelope` carries a resource and what to do with it to an agent; a `Report` carries what became
of it back, with the version it is about.
-/

namespace FleetSync.Wire

/-- A resource as sent to an agent. -/
structure Object where
  kind : Kind
  name : String
  namespaceName : String
  labels : SortedMap String
  annotations : SortedMap String
  spec : Json
deriving DecidableEq, Repr, Inhabited

namespace Object

/-- Reads a resource as sent to an agent. -/
def decode : Decoder Object :=
  .record ["kind", "name", "namespace", "labels", "annotations", "spec"] fun r =>
    Object.mk <$> r.required "kind" Kind.decode <*> r.required "name" .text
      <*> r.required "namespace" .text <*> r.defaulted "labels" ∅ .strings
      <*> r.defaulted "annotations" ∅ .strings <*> r.required "spec" .json

/-- A resource as sent to an agent as a value. -/
def encode (o : Object) : Json := .obj [
  ("kind", o.kind.encode),
  ("name", .str o.name),
  ("namespace", .str o.namespaceName),
  ("labels", .ofStrings o.labels),
  ("annotations", .ofStrings o.annotations),
  ("spec", o.spec)]

end Object

/-- What an agent of a cluster is asked to do. -/
structure Envelope where
  accountName : String
  clusterName : String
  action : SyncAction
  recordVersion : Version
  object : Object
deriving DecidableEq, Repr, Inhabited

namespace Envelope

/-- Reads an envelope. -/
def decode : Decoder Envelope :=
  .record ["account_name", "cluster_name", "action", "record_version", "object"] fun r =>
    Envelope.mk <$> r.required "account_name" .text <*> r.required "cluster_name" .text
      <*> r.required "action" SyncAction.decode <*> r.required "record_version" .int64
      <*> r.required "object" Object.decode

/-- An envelope as a value. -/
def encode (e : Envelope) : Json := .obj [
  ("account_name", .str e.accountName),
  ("cluster_name", .str e.clusterName),
  ("action", e.action.encode),
  ("record_version", .ofInt e.recordVersion),
  ("object", e.object.encode)]

end Envelope

/-- A resource as an agent sees it. -/
structure AgentObject where
  name : String
  namespaceName : String
  labels : SortedMap String
  annotations : SortedMap String
  generation : Int
  creationTimestamp : Option Instant
  deletionTimestamp : Option Instant
  status : Option Json
deriving DecidableEq, Repr, Inhabited

namespace AgentObject

/-- Reads a resource as an agent sees it. -/
def decode : Decoder AgentObject :=
  .record ["name", "namespace", "labels", "annotations", "generation", "creation_timestamp",
      "deletion_timestamp", "status"] fun r =>
    AgentObject.mk <$> r.required "name" .text <*> r.required "namespace" .text
      <*> r.defaulted "labels" ∅ .strings <*> r.defaulted "annotations" ∅ .strings
      <*> r.defaulted "generation" 0 .int64 <*> r.nullable "creation_timestamp" .instant
      <*> r.nullable "deletion_timestamp" .instant <*> r.nullable "status" .json

/-- A resource as an agent sees it as a value. -/
def encode (o : AgentObject) : Json := .obj [
  ("name", .str o.name),
  ("namespace", .str o.namespaceName),
  ("labels", .ofStrings o.labels),
  ("annotations", .ofStrings o.annotations),
  ("generation", .ofInt o.generation),
  ("creation_timestamp", .ofOption .ofInstant o.creationTimestamp),
  ("deletion_timestamp", .ofOption .ofInstant o.deletionTimestamp),
  ("status", .ofOption id o.status)]

end AgentObject

/-- What a report is about. -/
inductive ReportKind where
  | statusUpdate
  | deleteConfirmation
  | applyError (error : String)
deriving DecidableEq, Repr, Inhabited

namespace ReportKind

/-- Reads what a report is about. -/
def decode : Decoder ReportKind := .tagged "type" [
  ("status_update", .unit .statusUpdate),
  ("delete_confirmation", .unit .deleteConfirmation),
  ("apply_error", .record ["error"] fun r => ReportKind.applyError <$> r.required "error" .text)]

/-- What a report is about as a value. -/
def encode : ReportKind → Json
  | .statusUpdate => .obj [("type", .str "status_update")]
  | .deleteConfirmation => .obj [("type", .str "delete_confirmation")]
  | .applyError error => .obj [("type", .str "apply_error"), ("error", .str error)]

end ReportKind

/-- What an agent reports. -/
structure Report where
  accountName : String
  clusterName : String
  resourceKind : Kind
  recordVersion : Version
  timestamp : Instant
  object : AgentObject
  kind : ReportKind
deriving DecidableEq, Repr, Inhabited

namespace Report

/-- Reads a report. -/
def decode : Decoder Report :=
  .record ["account_name", "cluster_name", "resource_type", "record_version", "timestamp", "object",
      "kind"] fun r =>
    Report.mk <$> r.required "account_name" .text <*> r.required "cluster_name" .text
      <*> r.required "resource_type" Kind.decode <*> r.required "record_version" .int64
      <*> r.required "timestamp" .instant <*> r.required "object" AgentObject.decode
      <*> r.required "kind" ReportKind.decode

/-- A report as a value. -/
def encode (r : Report) : Json := .obj [
  ("account_name", .str r.accountName),
  ("cluster_name", .str r.clusterName),
  ("resource_type", r.resourceKind.encode),
  ("record_version", .ofInt r.recordVersion),
  ("timestamp", .ofInstant r.timestamp),
  ("object", r.object.encode),
  ("kind", r.kind.encode)]

end Report

end FleetSync.Wire
