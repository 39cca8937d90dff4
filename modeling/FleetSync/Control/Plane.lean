import FleetSync.Control.Lookup

/-!
# The control plane

The kinds it is responsible for, in the order they were registered, and how the topics of its
clusters are named.
-/

namespace FleetSync

/-- A control plane. -/
structure ControlPlane where
  kinds : List Kind
  topicSuffix : String
deriving DecidableEq, Repr, Inhabited

namespace ControlPlane

/-- What the topic of a cluster ends in. -/
def defaultSuffix : String := "-incoming"

/-- A control plane of every kind. -/
def default : ControlPlane := ⟨Kind.all, defaultSuffix⟩

/-- Registers a kind; one that is registered again moves to the end. -/
def register (p : ControlPlane) (k : Kind) : ControlPlane :=
  { p with kinds := p.kinds.filter (· != k) ++ [k] }

/-- A control plane of some kinds. -/
def ofKinds (kinds : List Kind) (topicSuffix : String) : ControlPlane :=
  kinds.foldl register ⟨[], topicSuffix⟩

/-- Whether a control plane is responsible for a kind. -/
def handles (p : ControlPlane) (k : Kind) : Bool := p.kinds.contains k

/-- The topic of a cluster. -/
def topicOf (p : ControlPlane) (cluster : String) : String := cluster ++ p.topicSuffix

end ControlPlane

end FleetSync
