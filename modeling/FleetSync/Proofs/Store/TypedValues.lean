import FleetSync.Proofs.Json.Decoding
import FleetSync.Proofs.Store.DesiredState

/-!
# Typed values are taken for themselves

What encodes a user, a status or a spec is taken for it as soon as it does not nest too deep
(`User.takes`, `SyncStatus.takes`, `Spec.takes`). Only a spec with a free-form part has to be free,
with the fields of that part in order (`Spec.IsSorted`).
-/

namespace FleetSync

open Decoder (Takes IsInt64)

variable {l : Nat}

theorem Kind.takes (k : Kind) : Takes decode l k.encode k := .choice k.ofName?_name

theorem User.takes {u : User} (h : u.encode.canonical.nests l = true) :
    Takes decode l u.encode u := by
  refine .record rfl (by decide) h fun r field => ?_
  have id : r.required "user_id" .text = .ok u.id := field _ rfl fun _ => .text _
  have name : r.defaulted "user_name" "" .text = .ok u.name := field _ rfl fun _ => .text _
  have email : r.defaulted "user_email" "" .text = .ok u.email := field _ rfl fun _ => .text _
  simp only [id, name, email, Checked.map_ok, Checked.seq_ok]

theorem SyncAction.takes (a : SyncAction) : Takes decode l a.encode a :=
  .choice (by cases a <;> rfl)

theorem SyncState.takes (s : SyncState) : Takes decode l s.encode s :=
  .choice (by cases s <;> rfl)

theorem SyncStatus.takes {s : SyncStatus} (version : IsInt64 s.recordVersion)
    (h : s.encode.canonical.nests l = true) : Takes decode l s.encode s := by
  refine .record rfl (by decide) h fun r field => ?_
  have action : r.required "action" SyncAction.decode = .ok s.action :=
    field _ rfl fun _ => SyncAction.takes _
  have state : r.required "state" SyncState.decode = .ok s.state :=
    field _ rfl fun _ => SyncState.takes _
  have version : r.required "record_version" .int64 = .ok s.recordVersion :=
    field _ rfl fun _ => .int64 version
  have scheduled : r.nullable "sync_scheduled_at" .instant = .ok s.syncScheduledAt :=
    field _ rfl fun _ => .nullableInstant _
  have synced : r.nullable "last_synced_at" .instant = .ok s.lastSyncedAt :=
    field _ rfl fun _ => .nullableInstant _
  have error : r.nullable "error" .text = .ok s.error := field _ rfl fun _ => .nullableText _
  simp only [action, state, version, scheduled, synced, error, Checked.map_ok, Checked.seq_ok]

/-! ## Specs -/

theorem ProjectSpec.takes {s : ProjectSpec} (h : s.encode.canonical.nests l = true) :
    Takes decode l s.encode s := by
  refine .record rfl (by decide) h fun r field => ?_
  have cluster : r.nullable "cluster_name" .text = .ok s.clusterName :=
    field _ rfl fun _ => .nullableText _
  have target : r.nullable "target_namespace" .text = .ok s.targetNamespace :=
    field _ rfl fun _ => .nullableText _
  have display : r.nullable "display_name" .text = .ok s.displayName :=
    field _ rfl fun _ => .nullableText _
  simp only [cluster, target, display, Checked.map_ok, Checked.seq_ok]

theorem EnvironmentSpec.takes {s : EnvironmentSpec} (h : s.encode.canonical.nests l = true) :
    Takes decode l s.encode s := by
  refine .record rfl (by decide) h fun r field => ?_
  have target : r.nullable "target_namespace" .text = .ok s.targetNamespace :=
    field _ rfl fun _ => .nullableText _
  have routing : r.nullable "routing_mode" .text = .ok s.routingMode :=
    field _ rfl fun _ => .nullableText _
  simp only [target, routing, Checked.map_ok, Checked.seq_ok]

theorem Container.takes {c : Container} (h : c.encode.canonical.nests l = true) :
    Takes decode l c.encode c := by
  refine .record rfl (by decide) h fun r field => ?_
  have name : r.required "name" .text = .ok c.name := field _ rfl fun _ => .text _
  have image : r.required "image" .text = .ok c.image := field _ rfl fun _ => .text _
  have env : r.defaulted "env" ∅ .strings = .ok c.env := field _ rfl .strings
  have ports : r.defaulted "ports" [] (.list .uint16) = .ok c.ports :=
    field _ rfl (.list fun p _ _ _ => .uint16 p)
  simp only [name, image, env, ports, Checked.map_ok, Checked.seq_ok]

theorem AppSpec.takes {s : AppSpec} (h : s.encode.canonical.nests l = true) :
    Takes decode l s.encode s := by
  refine .record rfl (by decide) h fun r field => ?_
  have replicas : r.defaulted "replicas" defaultReplicas .uint32 = .ok s.replicas :=
    field _ rfl fun _ => .uint32 _
  have containers : r.defaulted "containers" [] (.list Container.decode) = .ok s.containers :=
    field _ rfl (.list fun _ _ _ => Container.takes)
  simp only [replicas, containers, Checked.map_ok, Checked.seq_ok]

theorem ConfigSpec.takes {s : ConfigSpec} (h : s.encode.canonical.nests l = true) :
    Takes decode l s.encode s := by
  refine .record rfl (by decide) h fun r field => ?_
  have data : r.defaulted "data" ∅ .strings = .ok s.data := field _ rfl .strings
  simp only [data, Checked.map_ok]

theorem SecretSpec.takes {s : SecretSpec} (h : s.encode.canonical.nests l = true) :
    Takes decode l s.encode s := by
  refine .record rfl (by decide) h fun r field => ?_
  have data : r.defaulted "string_data" ∅ .strings = .ok s.stringData := field _ rfl .strings
  have secretType : r.nullable "secret_type" .text = .ok s.secretType :=
    field _ rfl fun _ => .nullableText _
  simp only [data, secretType, Checked.map_ok, Checked.seq_ok]

theorem Route.takes {x : Route} (h : x.encode.canonical.nests l = true) :
    Takes decode l x.encode x := by
  refine .record rfl (by decide) h fun r field => ?_
  have path : r.required "path" .text = .ok x.path := field _ rfl fun _ => .text _
  have appName : r.required "app_name" .text = .ok x.appName := field _ rfl fun _ => .text _
  have port : r.required "port" .uint16 = .ok x.port := field _ rfl fun _ => .uint16 _
  simp only [path, appName, port, Checked.map_ok, Checked.seq_ok]

theorem RouterSpec.takes {s : RouterSpec} (h : s.encode.canonical.nests l = true) :
    Takes decode l s.encode s := by
  refine .record rfl (by decide) h fun r field => ?_
  have domains : r.defaulted "domains" [] (.list .text) = .ok s.domains :=
    field _ rfl (.list fun d _ _ _ => .text d)
  have routes : r.defaulted "routes" [] (.list Route.decode) = .ok s.routes :=
    field _ rfl (.list fun _ _ _ => Route.takes)
  have https : r.defaulted "https" false .bool = .ok s.https := field _ rfl fun _ => .bool _
  simp only [domains, routes, https, Checked.map_ok, Checked.seq_ok]

theorem ManagedResourceSpec.takes {s : ManagedResourceSpec}
    (sorted : s.resourceTemplate.canonical = s.resourceTemplate)
    (free : s.resourceTemplate.isFree = true) (h : s.encode.canonical.nests l = true) :
    Takes decode l s.encode s := by
  refine .record rfl (by decide) h fun r field => ?_
  have service : r.required "managed_service_name" .text = .ok s.managedServiceName :=
    field _ rfl fun _ => .text _
  have template : r.defaulted "resource_template" .null .json = .ok s.resourceTemplate :=
    field _ rfl (.json sorted free)
  simp only [service, template, Checked.map_ok, Checked.seq_ok]

theorem VpnPort.takes {p : VpnPort} (h : p.encode.canonical.nests l = true) :
    Takes decode l p.encode p := by
  refine .record rfl (by decide) h fun r field => ?_
  have port : r.required "port" .uint16 = .ok p.port := field _ rfl fun _ => .uint16 _
  have protocol : r.defaulted "protocol" defaultProtocol .text = .ok p.protocol :=
    field _ rfl fun _ => .text _
  simp only [port, protocol, Checked.map_ok, Checked.seq_ok]

theorem VpnDeviceSpec.takes {s : VpnDeviceSpec} (h : s.encode.canonical.nests l = true) :
    Takes decode l s.encode s := by
  refine .record rfl (by decide) h fun r field => ?_
  have activeNamespace : r.nullable "active_namespace" .text = .ok s.activeNamespace :=
    field _ rfl fun _ => .nullableText _
  have ports : r.defaulted "ports" [] (.list VpnPort.decode) = .ok s.ports :=
    field _ rfl (.list fun _ _ _ => VpnPort.takes)
  simp only [activeNamespace, ports, Checked.map_ok, Checked.seq_ok]

/-- What is taken for a spec of a kind is taken for a spec. -/
theorem Decoder.Takes.wrapped {α : Type} {wrap : α → Spec} {d : Decoder α} {j : Json} {a : α}
    (h : Takes d l j a) : Takes (Spec.via wrap d) l j (wrap a) := by
  obtain ⟨written, sorted⟩ := h
  exact ⟨by rw [Spec.via, written, Except.map], by rw [Spec.via, sorted, Except.map]⟩

namespace Spec

/-- Whether the fields of the free-form part of a spec are in order. -/
def IsSorted : Spec → Prop
  | managedResource s => s.resourceTemplate.canonical = s.resourceTemplate
  | _ => True

/-- A spec of any kind is taken for itself if the value that it is stored as is free. -/
theorem takes {s : Spec} (sorted : s.IsSorted) (free : s.value.isFree = true)
    (h : s.value.nests l = true) : Takes (decode s.kind) l s.encode s := by
  cases s with
  | project s => exact (ProjectSpec.takes h).wrapped
  | environment s => exact (EnvironmentSpec.takes h).wrapped
  | app s => exact (AppSpec.takes h).wrapped
  | config s => exact (ConfigSpec.takes h).wrapped
  | secret s => exact (SecretSpec.takes h).wrapped
  | router s => exact (RouterSpec.takes h).wrapped
  | managedResource s =>
    have template := Json.isFree_field ["managed_service_name", "resource_template"] rfl
      (by decide) "resource_template" rfl free
    rw [sorted] at template
    exact (ManagedResourceSpec.takes sorted template h).wrapped
  | vpnDevice s => exact (VpnDeviceSpec.takes h).wrapped

end Spec

end FleetSync
