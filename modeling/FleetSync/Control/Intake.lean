import FleetSync.Control.Dispatch

/-!
# Taking reports in

A report is about the document with its account, cluster, namespace and name. It counts only if it
names the stored version; after any other the resource is sent once more as it is. A tombstoned
resource goes with any delete confirmation (`ControlPlane.takeReport`).
-/

namespace FleetSync

/-- What became of a report. -/
inductive Intake where
  | applied
  | errored
  | deleted
  | resynced
  | ignored
deriving DecidableEq, Repr, Inhabited

/-- The name of an outcome. -/
def Intake.name : Intake → String
  | applied => "applied"
  | errored => "errored"
  | deleted => "deleted"
  | resynced => "resynced"
  | ignored => "ignored"

namespace Resource

/-- A resource as the agent saw it. -/
def observe (r : Resource) (report : Wire.Report) (status : Option Observed) : Resource :=
  { r with
    labels := report.object.labels
    annotations := report.object.annotations
    generation := report.object.generation
    agentCreationTimestamp := report.object.creationTimestamp
    status := status
    syncStatus := r.syncStatus.confirmed r.recordVersion
      report.object.deletionTimestamp.isSome report.timestamp }

/-- What a status report writes. -/
def observation (r : Resource) : Patch := [
  .set ["labels"] (.ofStrings r.labels),
  .set ["annotations"] (.ofStrings r.annotations),
  .set ["generation"] (.ofInt r.generation),
  .set ["agent_creation_timestamp"] (.ofOption .ofInstant r.agentCreationTimestamp),
  .set ["status"] (.ofOption Observed.encode r.status),
  .set ["sync_status"] r.syncStatus.encode]

end Resource

/-- The status in a report. -/
def Wire.Report.observed (report : Wire.Report) : Except OpError (Option Observed) :=
  match report.object.status with
  | none => return none
  | some j => return some (← (Observed.decode.ofJson j).mapError .ofDecode)

namespace ControlPlane

/-- Sends a resource once more, whatever the report says. -/
def resend (p : ControlPlane) (r : Resource) : Program Intake := do
  let _ ← p.settle r
  return .resynced

/-- Sends what became of a resource that changed while a report on it was taken in. -/
def resendChanged (p : ControlPlane) (r : Resource) : Program Intake := do
  match ← Resource.findOne r.kind (.byId r.id) with
  | some current => p.resend current
  | none => return .ignored

/-- Takes the state in that the agent observed. -/
def takeStatus (p : ControlPlane) (r : Resource) (report : Wire.Report) : Program Intake := do
  if r.recordVersion ≠ report.recordVersion then p.resend r
  else
    let seen := r.observe report (← Program.ofExcept report.observed)
    if ← r.patchAtVersion seen.observation then
      Program.emit .updated seen
      return .applied
    else p.resendChanged r

/-- Takes in that the agent deleted the resource. -/
def takeDeletion (p : ControlPlane) (r : Resource) (report : Wire.Report) : Program Intake := do
  match deleteConfirmed r.recordVersion report.recordVersion r.markedForDeletion with
  | .remove =>
    r.remove
    return .deleted
  | .resync => p.resend r

/-- Takes in that the agent failed. -/
def takeError (p : ControlPlane) (r : Resource) (report : Wire.Report) (message : String) :
    Program Intake := do
  if r.recordVersion ≠ report.recordVersion then p.resend r
  else
    let failed := { r with syncStatus := r.syncStatus.failed message report.timestamp }
    if ← r.patchAtVersion [.set ["sync_status"] failed.syncStatus.encode] then
      Program.emit .updated failed
      return .errored
    else p.resendChanged r

/-- Takes a report in. -/
def takeReport (p : ControlPlane) (report : Wire.Report) : Program Intake := do
  match ← Resource.findOne report.resourceKind (.reported report) with
  | none => return .ignored
  | some r => match report.kind with
    | .statusUpdate => p.takeStatus r report
    | .deleteConfirmation => p.takeDeletion r report
    | .applyError message => p.takeError r report message

/-- Takes a report in if it is about a kind the control plane is responsible for. -/
def route (p : ControlPlane) (report : Wire.Report) : Program Intake :=
  if p.handles report.resourceKind then p.takeReport report else return .ignored

/-- The report that a message on the bus holds. -/
def readReport (payload : ByteArray) : Except Wire.FrameError Wire.Report := do
  (← Wire.Frame.ofBytes payload).toReport

/-- Takes a message of the bus in. -/
def ingest (p : ControlPlane) (payload : ByteArray) : Program Intake := do
  p.route (← Program.ofExcept ((readReport payload).mapError (·.toOpError)))

end ControlPlane

end FleetSync
