import FleetSync.Json.Decode

/-!
# Kinds of resources

The eight kinds in their registration order (`Kind.all`), the name each has on the wire, the
collection its documents are stored in and the level of the scope it lives in.
-/

namespace FleetSync

/-- The level of a scope. -/
inductive Level where
  | project
  | environment
deriving DecidableEq, Repr, Inhabited

/-- The name of a level. -/
def Level.name : Level → String
  | project => "project"
  | environment => "environment"

/-- The levels by name. -/
def Level.variants : List (String × Level) :=
  [("project", .project), ("environment", .environment)]

/-- A kind of resource. -/
inductive Kind where
  | project
  | environment
  | app
  | config
  | secret
  | router
  | managedResource
  | vpnDevice
deriving DecidableEq, Repr, Inhabited

namespace Kind

/-- Every kind, in the order they are registered and listed in. -/
def all : List Kind :=
  [project, environment, app, config, secret, router, managedResource, vpnDevice]

/-- The name of a kind. -/
def name : Kind → String
  | project => "project"
  | environment => "environment"
  | app => "app"
  | config => "config"
  | secret => "secret"
  | router => "router"
  | managedResource => "managed_resource"
  | vpnDevice => "vpn_device"

/-- The collection that stores a kind's documents. -/
def collection : Kind → String
  | project => "projects"
  | environment => "environments"
  | app => "apps"
  | config => "configs"
  | secret => "secrets"
  | router => "routers"
  | managedResource => "managed_resources"
  | vpnDevice => "vpn_devices"

/-- The level of the scope that resources of a kind live in. -/
def level : Kind → Level
  | project | environment | vpnDevice => .project
  | _ => .environment

/-- The kinds by name. -/
def variants : List (String × Kind) := all.map fun k => (k.name, k)

/-- The kind of a name. -/
def ofName? (s : String) : Option Kind := Fields.get? s variants

/-- What is said of a name that no kind has. -/
def unknownMessage (s : String) : String := "unknown resource type: " ++ s

/-- Reads the name of a kind. -/
def decode : Decoder Kind := .choice variants

/-- The name of a kind as a value. -/
def encode (k : Kind) : Json := .str k.name

theorem mem_all (k : Kind) : k ∈ all := by cases k <;> decide

theorem ofName?_name (k : Kind) : ofName? k.name = some k := by cases k <;> decide

end Kind

end FleetSync
