import FleetSync.Config
import FleetSync.Control.Dispatch

/-!
# Sweeps over many resources

What the control plane does with all that belongs to a scope, and with all that waits too long for
its agent. Kinds go in the order they were registered, the resources of a kind in the order they
were inserted.
-/

namespace FleetSync

/-- How many resources were detached, and how many of them deleted. -/
structure DetachCounts where
  detached : Nat
  purged : Nat
deriving DecidableEq, Repr, Inhabited

/-- What became of a detached scope. -/
structure DetachSummary where
  mappingsRemoved : Nat
  counts : DetachCounts
deriving DecidableEq, Repr, Inhabited

/-- What became of a sweep for stale resources. -/
inductive Sweep where
  | swept (dispatched : Nat)
  /-- The cutoff is no time of the calendar. -/
  | outsideCalendar
deriving DecidableEq, Repr, Inhabited

/-- One if something was dispatched. -/
def DispatchOutcome.count (o : DispatchOutcome) : Nat := if o = .noCluster then 0 else 1

namespace Scope

/-- Whether resources of a kind may own a scope. -/
def isOwnedBy (s : Scope) (kind : Kind) : Bool := kind == s.ownerKind

/-- Whether a resource is deleted along with a scope: all are but its owner. -/
def purges (s : Scope) (r : Resource) : Bool := !(s.isOwnedBy r.kind && r.name == s.ownerName)

end Scope

namespace Resource

/-- A resource without its cluster. -/
def detach (r : Resource) (time : Instant) : Resource :=
  { r with spec := r.spec.clearBinding, clusterName := none, updateTime := time }

/-- What detaching writes. -/
def detachment (r : Resource) : Patch := [
  .set ["spec"] r.spec.encode,
  .set ["cluster_name"] .null,
  .set ["update_time"] (.ofInstant r.updateTime)]

/-- Whether a resource has waited since before a cutoff. -/
def isStale (r : Resource) (cutoff : Cutoff) : Bool :=
  r.syncStatus.syncScheduledAt.all cutoff.isAfter

end Resource

namespace ControlPlane

/-! ## Scopes -/

/-- Sends the resources of a kind in a scope once more; counts those dispatched. -/
def resyncMembers (p : ControlPlane) (s : Scope) (kind : Kind) : Program Nat := do
  Program.total (fun r => do return (← p.requeue r).count) (← Resource.members kind s)

/-- Sends every resource of a scope once more; counts those dispatched. -/
def resyncScope (p : ControlPlane) (user : User) (s : Scope) : Program Nat := do
  Program.ofExcept s.check
  Program.authorize user.id (.scopeOwner s) .resync
  Program.total (p.resyncMembers s) p.kinds

/-- Forgets a resource whose document was deleted with others. -/
def forget (r : Resource) : Program Unit := do
  let _ ← Program.removeMapping r.mappingKey
  Program.emit .deleted r

/-- Takes a resource off its cluster. -/
def detachOne (r : Resource) : Program Unit := do
  let r := r.detach (← Program.now)
  let _ ← r.patch r.detachment
  let _ ← Program.removeMapping r.mappingKey
  Program.emit .updated r

/-- Detaches or deletes the resources of a kind in a scope. -/
def detachMembers (s : Scope) (purge : Bool) (kind : Kind) : Program DetachCounts := do
  match Filter.members? s kind with
  | none => return ⟨0, 0⟩
  | some filter =>
    let (purged, kept) := (← Resource.findAll kind filter).partition fun r => purge && s.purges r
    if !purged.isEmpty then
      let filter :=
        if s.isOwnedBy kind then filter ++ [.ne ["name"] (.str s.ownerName)] else filter
      let _ ← Program.deleteMany kind.collection filter
      Program.forEach forget purged
    Program.forEach detachOne kept
    return ⟨kept.length, purged.length⟩

/-- Detaches or deletes the resources of some kinds in a scope. -/
def detachKinds (s : Scope) (purge : Bool) : List Kind → Program DetachCounts
  | [] => return ⟨0, 0⟩
  | kind :: rest => do
    let a ← detachMembers s purge kind
    let b ← detachKinds s purge rest
    return ⟨a.detached + b.detached, a.purged + b.purged⟩

/-- Takes everything in a scope off its cluster, or deletes it. -/
def detachScope (p : ControlPlane) (user : User) (s : Scope) (purge : Bool) :
    Program DetachSummary := do
  Program.ofExcept s.check
  Program.authorize user.id (.scopeOwner s) .detach
  let mappingsRemoved ← Program.removeScope s
  return ⟨mappingsRemoved, ← detachKinds s purge p.kinds⟩

/-! ## Stale resources -/

/-- Counts what a program dispatched, and nothing if it failed. -/
def countOrZero (count : Program Nat) : Program Nat := do
  return (← count.attempt).toOption.getD 0

/-- Sends the stale resources of a kind once more; counts those dispatched. -/
def resyncStaleOf (p : ControlPlane) (cutoff : Cutoff) (kind : Kind) : Program Nat := do
  let waiting ← Resource.findAll kind .waiting
  Program.total (fun r => countOrZero do return (← p.settle r).1.count)
    (waiting.filter (·.isStale cutoff))

/-- The nanoseconds of a millisecond. -/
def nanosPerMilli : Nat := 1000000

/-- The longest age that can be asked for: the milliseconds of a signed 64-bit number. -/
def maxAge : Nat := (Nat.pow 2 63 - 1) * nanosPerMilli

/-- Sends what has waited for longer than an age, in nanoseconds, once more; counts what was
dispatched. What fails is left for the next sweep. -/
def resyncStale (p : ControlPlane) (age : Nat) : Program Sweep := do
  if maxAge < age then
    Program.fail (.invalid "older_than"
      "Source duration value is out of range for the target type")
  else match (← Program.now).back? age with
    | none => return .outsideCalendar
    | some cutoff =>
      let count := fun kind => countOrZero (p.resyncStaleOf cutoff kind)
      return .swept (← Program.total count p.kinds)

/-- A turn of the worker that sweeps. -/
def staleTurn (p : ControlPlane) (w : WorkerConfig) : Program Sweep :=
  p.resyncStale (w.ageSeconds * nanosPerSecond)

end ControlPlane

end FleetSync
