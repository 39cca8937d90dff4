import FleetSync.Json.Decode

/-!
# What an agent observes

The state of a resource on its cluster as the agent reports it; `ready` is an accepted spelling of
`isReady`.
-/

namespace FleetSync

/-- The observed state of a resource. -/
structure Observed where
  isReady : Bool
  message : Option String
  checks : Option Json
  lastReconcileTime : Option Instant
deriving DecidableEq, Repr, Inhabited

/-- An instant as a value. -/
def Json.ofInstant (t : Instant) : Json := .str t.text

/-- The node with the fields of one key given another. -/
def Json.Node.rename (old new : String) : Json.Node → Json.Node
  | .obj fields => .obj (fields.map fun (k, n) => (if k = some old then some new else k, n))
  | n => n

namespace Observed

/-- Reads an observed state. -/
def decode : Decoder Observed := fun levels node =>
  Decoder.record ["isReady", "message", "checks", "lastReconcileTime"] (fun r =>
    Observed.mk <$> r.defaulted "isReady" false .bool <*> r.nullable "message" .text
      <*> r.nullable "checks" .json <*> r.nullable "lastReconcileTime" .instant)
    levels (node.rename "ready" "isReady")

/-- An observed state as a value. -/
def encode (o : Observed) : Json := .obj [
  ("isReady", .bool o.isReady),
  ("message", .ofOption .str o.message),
  ("checks", .ofOption id o.checks),
  ("lastReconcileTime", .ofOption .ofInstant o.lastReconcileTime)]

end Observed

end FleetSync
