import FleetSync.Kind
import FleetSync.Json.Printer

/-!
# What a resource asks for

Each kind has a record of its own, and a `Spec` is one of them. Only a project says which cluster it
is bound to (`Spec.binding`); everything else inherits the cluster of the scope it lives in.
-/

namespace FleetSync

/-- What a project asks for. -/
structure ProjectSpec where
  clusterName : Option String
  targetNamespace : Option String
  displayName : Option String
deriving DecidableEq, Repr, Inhabited

/-- What an environment asks for. -/
structure EnvironmentSpec where
  targetNamespace : Option String
  routingMode : Option String
deriving DecidableEq, Repr, Inhabited

/-- A container of an app. -/
structure Container where
  name : String
  image : String
  env : SortedMap String
  ports : List UInt16
deriving DecidableEq, Repr, Inhabited

/-- What an app asks for. -/
structure AppSpec where
  replicas : UInt32
  containers : List Container
deriving DecidableEq, Repr, Inhabited

/-- What a configuration holds. -/
structure ConfigSpec where
  data : SortedMap String
deriving DecidableEq, Repr, Inhabited

/-- What a secret holds. -/
structure SecretSpec where
  stringData : SortedMap String
  secretType : Option String
deriving DecidableEq, Repr, Inhabited

/-- A path that a router leads to an app. -/
structure Route where
  path : String
  appName : String
  port : UInt16
deriving DecidableEq, Repr, Inhabited

/-- What a router asks for. -/
structure RouterSpec where
  domains : List String
  routes : List Route
  https : Bool
deriving DecidableEq, Repr, Inhabited

/-- What a managed resource asks for. -/
structure ManagedResourceSpec where
  managedServiceName : String
  resourceTemplate : Json
deriving DecidableEq, Repr, Inhabited

/-- A port of a VPN device. -/
structure VpnPort where
  port : UInt16
  protocol : String
deriving DecidableEq, Repr, Inhabited

/-- What a VPN device asks for. -/
structure VpnDeviceSpec where
  activeNamespace : Option String
  ports : List VpnPort
deriving DecidableEq, Repr, Inhabited

/-- A number of a machine word as a value. -/
def Json.ofNat (n : Nat) : Json := .ofInt n

namespace ProjectSpec

/-- Reads the spec of a project. -/
def decode : Decoder ProjectSpec :=
  .record ["cluster_name", "target_namespace", "display_name"] fun r =>
    ProjectSpec.mk <$> r.nullable "cluster_name" .text <*> r.nullable "target_namespace" .text
      <*> r.nullable "display_name" .text

/-- The spec of a project as a value. -/
def encode (s : ProjectSpec) : Json := .obj [
  ("cluster_name", .ofOption .str s.clusterName),
  ("target_namespace", .ofOption .str s.targetNamespace),
  ("display_name", .ofOption .str s.displayName)]

end ProjectSpec

namespace EnvironmentSpec

/-- Reads the spec of an environment. -/
def decode : Decoder EnvironmentSpec := .record ["target_namespace", "routing_mode"] fun r =>
  EnvironmentSpec.mk <$> r.nullable "target_namespace" .text <*> r.nullable "routing_mode" .text

/-- The spec of an environment as a value. -/
def encode (s : EnvironmentSpec) : Json := .obj [
  ("target_namespace", .ofOption .str s.targetNamespace),
  ("routing_mode", .ofOption .str s.routingMode)]

end EnvironmentSpec

namespace Container

/-- Reads a container. -/
def decode : Decoder Container := .record ["name", "image", "env", "ports"] fun r =>
  Container.mk <$> r.required "name" .text <*> r.required "image" .text
    <*> r.defaulted "env" ∅ .strings <*> r.defaulted "ports" [] (.list .uint16)

/-- A container as a value. -/
def encode (c : Container) : Json := .obj [
  ("name", .str c.name),
  ("image", .str c.image),
  ("env", .ofStrings c.env),
  ("ports", .arr (c.ports.map fun p => .ofNat p.toNat))]

end Container

namespace AppSpec

/-- How many replicas an app has that does not say. -/
def defaultReplicas : UInt32 := 1

/-- An app that asks for nothing. -/
def empty : AppSpec := ⟨0, []⟩

/-- Reads the spec of an app. -/
def decode : Decoder AppSpec := .record ["replicas", "containers"] fun r =>
  AppSpec.mk <$> r.defaulted "replicas" defaultReplicas .uint32
    <*> r.defaulted "containers" [] (.list Container.decode)

/-- The spec of an app as a value. -/
def encode (s : AppSpec) : Json := .obj [
  ("replicas", .ofNat s.replicas.toNat),
  ("containers", .arr (s.containers.map Container.encode))]

end AppSpec

namespace ConfigSpec

/-- Reads the spec of a configuration. -/
def decode : Decoder ConfigSpec := .record ["data"] fun r =>
  ConfigSpec.mk <$> r.defaulted "data" ∅ .strings

/-- The spec of a configuration as a value. -/
def encode (s : ConfigSpec) : Json := .obj [("data", .ofStrings s.data)]

end ConfigSpec

namespace SecretSpec

/-- Reads the spec of a secret. -/
def decode : Decoder SecretSpec := .record ["string_data", "secret_type"] fun r =>
  SecretSpec.mk <$> r.defaulted "string_data" ∅ .strings <*> r.nullable "secret_type" .text

/-- The spec of a secret as a value. -/
def encode (s : SecretSpec) : Json := .obj [
  ("string_data", .ofStrings s.stringData),
  ("secret_type", .ofOption .str s.secretType)]

end SecretSpec

namespace Route

/-- Reads a route. -/
def decode : Decoder Route := .record ["path", "app_name", "port"] fun r =>
  Route.mk <$> r.required "path" .text <*> r.required "app_name" .text
    <*> r.required "port" .uint16

/-- A route as a value. -/
def encode (x : Route) : Json := .obj [
  ("path", .str x.path),
  ("app_name", .str x.appName),
  ("port", .ofNat x.port.toNat)]

end Route

namespace RouterSpec

/-- Reads the spec of a router. -/
def decode : Decoder RouterSpec := .record ["domains", "routes", "https"] fun r =>
  RouterSpec.mk <$> r.defaulted "domains" [] (.list .text)
    <*> r.defaulted "routes" [] (.list Route.decode) <*> r.defaulted "https" false .bool

/-- The spec of a router as a value. -/
def encode (s : RouterSpec) : Json := .obj [
  ("domains", .arr (s.domains.map .str)),
  ("routes", .arr (s.routes.map Route.encode)),
  ("https", .bool s.https)]

end RouterSpec

namespace ManagedResourceSpec

/-- Reads the spec of a managed resource. -/
def decode : Decoder ManagedResourceSpec :=
  .record ["managed_service_name", "resource_template"] fun r =>
    ManagedResourceSpec.mk <$> r.required "managed_service_name" .text
      <*> r.defaulted "resource_template" .null .json

/-- The spec of a managed resource as a value. -/
def encode (s : ManagedResourceSpec) : Json := .obj [
  ("managed_service_name", .str s.managedServiceName),
  ("resource_template", s.resourceTemplate)]

end ManagedResourceSpec

namespace VpnPort

/-- The protocol of a port that does not say. -/
def defaultProtocol : String := "tcp"

/-- Reads a port. -/
def decode : Decoder VpnPort := .record ["port", "protocol"] fun r =>
  VpnPort.mk <$> r.required "port" .uint16 <*> r.defaulted "protocol" defaultProtocol .text

/-- A port as a value. -/
def encode (p : VpnPort) : Json := .obj [
  ("port", .ofNat p.port.toNat),
  ("protocol", .str p.protocol)]

end VpnPort

namespace VpnDeviceSpec

/-- Reads the spec of a VPN device. -/
def decode : Decoder VpnDeviceSpec := .record ["active_namespace", "ports"] fun r =>
  VpnDeviceSpec.mk <$> r.nullable "active_namespace" .text
    <*> r.defaulted "ports" [] (.list VpnPort.decode)

/-- The spec of a VPN device as a value. -/
def encode (s : VpnDeviceSpec) : Json := .obj [
  ("active_namespace", .ofOption .str s.activeNamespace),
  ("ports", .arr (s.ports.map VpnPort.encode))]

end VpnDeviceSpec

/-- What a resource asks for. -/
inductive Spec where
  | project (s : ProjectSpec)
  | environment (s : EnvironmentSpec)
  | app (s : AppSpec)
  | config (s : ConfigSpec)
  | secret (s : SecretSpec)
  | router (s : RouterSpec)
  | managedResource (s : ManagedResourceSpec)
  | vpnDevice (s : VpnDeviceSpec)
deriving DecidableEq, Repr, Inhabited

/-- How a resource says which cluster it belongs to. -/
inductive Binding where
  | inherited
  | explicit (cluster : Option String)
deriving DecidableEq, Repr, Inhabited

namespace Spec

/-- The kind of resource that asks. -/
def kind : Spec → Kind
  | project _ => .project
  | environment _ => .environment
  | app _ => .app
  | config _ => .config
  | secret _ => .secret
  | router _ => .router
  | managedResource _ => .managedResource
  | vpnDevice _ => .vpnDevice

/-- Maps the result of a decoder. -/
def via {α : Type} (wrap : α → Spec) (d : Decoder α) : Decoder Spec := fun l n => (d l n).map wrap

/-- Reads what a resource of a kind asks for. -/
def decode : Kind → Decoder Spec
  | .project => via .project ProjectSpec.decode
  | .environment => via .environment EnvironmentSpec.decode
  | .app => via .app AppSpec.decode
  | .config => via .config ConfigSpec.decode
  | .secret => via .secret SecretSpec.decode
  | .router => via .router RouterSpec.decode
  | .managedResource => via .managedResource ManagedResourceSpec.decode
  | .vpnDevice => via .vpnDevice VpnDeviceSpec.decode

/-- A spec as a value. -/
def encode : Spec → Json
  | project s => s.encode
  | environment s => s.encode
  | app s => s.encode
  | config s => s.encode
  | secret s => s.encode
  | router s => s.encode
  | managedResource s => s.encode
  | vpnDevice s => s.encode

/-- Which cluster the resource is bound to. -/
def binding : Spec → Binding
  | project s => .explicit s.clusterName
  | _ => .inherited

/-- The spec without its cluster. -/
def clearBinding : Spec → Spec
  | project s => .project { s with clusterName := none }
  | s => s

theorem kind_clearBinding (s : Spec) : s.clearBinding.kind = s.kind := by cases s <;> rfl

theorem kind_of_decode {k : Kind} {l : Nat} {n : Json.Node} {s : Spec}
    (h : decode k l n = .ok s) : s.kind = k := by
  have map_ok : ∀ {α : Type} (wrap : α → Spec) (d : Decoder α) (j : Kind),
      (∀ a, (wrap a).kind = j) → via wrap d l n = .ok s → s.kind = j := by
    intro α wrap d j hw hv
    simp only [via] at hv
    cases hd : d l n with
    | error e => simp [hd, Except.map] at hv
    | ok a =>
      simp only [hd, Except.map, Except.ok.injEq] at hv
      exact hv ▸ hw a
  cases k <;> exact map_ok _ _ _ (fun _ => rfl) h

end Spec

end FleetSync
