import FleetSync.Control.Plane
import FleetSync.Wire.Frame

/-!
# Dispatching

A resource is sent to the agent of its cluster: the one its spec binds it to, or that of the scope
it lives in. Whenever the cluster is another than the one on record, the record follows
(`ControlPlane.dispatch`). A tombstoned resource without a cluster has nobody left to confirm that
it is gone, so it is removed (`ControlPlane.settle`).
-/

namespace FleetSync

/-- What became of a dispatch. -/
inductive DispatchOutcome where
  | dispatched (cluster topic : String) (offset : Nat)
  | noCluster
deriving DecidableEq, Repr, Inhabited

namespace DispatchOutcome

/-- The cluster that was dispatched to. -/
def cluster? : DispatchOutcome → Option String
  | dispatched cluster .. => some cluster
  | noCluster => none

/-- An outcome as a value. -/
def encode : DispatchOutcome → Json
  | dispatched cluster topic offset => .obj [
    ("cluster_name", .str cluster),
    ("topic", .str topic),
    ("offset", .ofInt offset)]
  | noCluster => .str "no_cluster_attached"

end DispatchOutcome

namespace Resource

/-- The cluster a resource belongs to. -/
def cluster (r : Resource) : Program (Option String) :=
  match r.spec.binding with
  | .explicit c => return c.filter (!·.isEmpty)
  | .inherited => Program.resolve r.scope

/-- The resource with an action, addressed to the agent of a cluster. -/
def envelope (r : Resource) (cluster : String) (action : SyncAction) : Wire.Envelope :=
  ⟨r.accountName, cluster, action, r.recordVersion, r.toWire⟩

/-- Deletes a resource and its mapping. -/
def remove (r : Resource) : Program Unit := do
  let _ ← Program.deleteOne r.kind.collection (.byId r.id)
  let _ ← Program.removeMapping r.mappingKey
  Program.emit .deleted r

end Resource

namespace ControlPlane

/-- Sends a resource to the agent of its cluster. -/
def send (p : ControlPlane) (r : Resource) (action : SyncAction) : Program DispatchOutcome := do
  match ← r.cluster with
  | none => return .noCluster
  | some cluster =>
    let frame ← Program.ofExcept
      ((Wire.Frame.ofEnvelope (r.envelope cluster action)).mapError (·.toOpError))
    let topic := p.topicOf cluster
    return .dispatched cluster topic (← Program.publish topic r.namespaceName frame.toBytes)

/-- Sends a resource and records the cluster it is on from now on. -/
def dispatch (p : ControlPlane) (r : Resource) (action : SyncAction) :
    Program (DispatchOutcome × Resource) := do
  let outcome ← p.send r action
  match outcome.cluster?, r.clusterName with
  | some cluster, recorded =>
    if recorded = some cluster then return (outcome, r)
    let _ ← r.patch [.set ["cluster_name"] (.str cluster)]
    Program.upsert (r.mapping cluster)
    return (outcome, { r with clusterName := some cluster })
  | none, some _ =>
    let _ ← r.patch [.set ["cluster_name"] .null]
    let _ ← Program.removeMapping r.mappingKey
    return (outcome, { r with clusterName := none })
  | none, none => return (outcome, r)

/-- Sends a resource as it is; one that is tombstoned and has no cluster is removed. -/
def settle (p : ControlPlane) (r : Resource) : Program (DispatchOutcome × Resource) := do
  let (outcome, r) ← p.dispatch r r.pendingAction
  if outcome = .noCluster ∧ r.markedForDeletion = true then r.remove
  return (outcome, r)

/-- Queues a resource again and sends it. -/
def requeue (p : ControlPlane) (r : Resource) : Program DispatchOutcome := do
  let time ← Program.now
  let r := { r with syncStatus := r.syncStatus.queued r.pendingAction time }
  let _ ← r.patch [.set ["sync_status"] r.syncStatus.encode]
  let (outcome, r) ← p.settle r
  if ¬(outcome = .noCluster ∧ r.markedForDeletion = true) then Program.emit .updated r
  return outcome

end ControlPlane

end FleetSync
