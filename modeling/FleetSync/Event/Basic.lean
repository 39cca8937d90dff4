import FleetSync.Resource

/-!
# Lifecycle events

What subscribers learn of the changes of resources.
-/

namespace FleetSync

/-- What happened to a resource. -/
inductive EventKind where
  | added
  | updated
  | deleted
deriving DecidableEq, Repr, Inhabited

namespace EventKind

/-- The name of a kind of event. -/
def name : EventKind → String
  | added => "added"
  | updated => "updated"
  | deleted => "deleted"

/-- The kinds by name. -/
def variants : List (String × EventKind) :=
  [("added", added), ("updated", updated), ("deleted", deleted)]

end EventKind

/-- A change of a resource. -/
structure Event where
  kind : EventKind
  resourceKind : Kind
  accountName : String
  projectName : String
  environmentName : Option String
  clusterName : Option String
  name : String
  namespaceName : String
deriving DecidableEq, Repr, Inhabited

namespace Event

/-- The event of a change of a resource. -/
def of (kind : EventKind) (r : Resource) : Event :=
  ⟨kind, r.kind, r.accountName, r.projectName, r.environmentName, r.clusterName, r.name,
    r.namespaceName⟩

/-- Reads an event. -/
def decode : Decoder Event :=
  .record ["kind", "resource_type", "account_name", "project_name", "environment_name",
      "cluster_name", "name", "namespace"] fun r =>
    Event.mk <$> r.required "kind" (.choice EventKind.variants)
      <*> r.required "resource_type" Kind.decode <*> r.required "account_name" .text
      <*> r.required "project_name" .text <*> r.optional "environment_name" .text
      <*> r.optional "cluster_name" .text <*> r.required "name" .text
      <*> r.required "namespace" .text

/-- An event as a value. -/
def encode (e : Event) : Json := .obj [
  ("kind", .str e.kind.name),
  ("resource_type", e.resourceKind.encode),
  ("account_name", .str e.accountName),
  ("project_name", .str e.projectName),
  ("environment_name", .ofOption .str e.environmentName),
  ("cluster_name", .ofOption .str e.clusterName),
  ("name", .str e.name),
  ("namespace", .str e.namespaceName)]

end Event

end FleetSync
