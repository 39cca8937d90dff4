import FleetSync.Bus.Delivery
import FleetSync.Control.Dispatch
import FleetSync.Proofs.Store.StoredResource

/-!
# Cards

A `Card` is what the rest of the system goes by in a stored resource: who it is, where it is filed
in the mapping index, the cluster on record and the one its spec binds it to, its version and its
mark. It can be read off the stored document (`StoredDocument.card`), and what is read back of a
resource has the same card (`Resource.Resembles.card`). It says what is sent to the agent of the
resource (`Wire.Envelope.IsOf`).
-/

namespace FleetSync

/-- What others go by in a stored resource. -/
structure Card where
  id : String
  key : MappingKey
  /-- The cluster on record. -/
  cluster : Option String
  /-- The cluster that the spec names, if it names one. -/
  bound : Option String
  version : Version
  marked : Bool
deriving DecidableEq, Repr, Inhabited

/-- What a resource is told from others of its collection by. -/
structure Identity where
  kind : Kind
  account : String
  project : String
  environment : Option String
  name : String
deriving DecidableEq, Repr, Inhabited

/-- The identity in a key. -/
def MappingKey.identity (k : MappingKey) : Identity :=
  ⟨k.kind, k.account, k.project, k.environment, k.name⟩

/-- What the agent is to do with the resource of a card. -/
def Card.pendingAction (c : Card) : SyncAction := if c.marked then .delete else .apply

/-- The cluster that a spec names: an empty name is none. -/
def Spec.bound (s : Spec) : Option String :=
  match s.binding with
  | .explicit cluster => cluster.filter (!·.isEmpty)
  | .inherited => none

theorem Spec.bound_of_kind_ne {s : Spec} (h : s.kind ≠ .project) : s.bound = none := by
  cases s <;> first | rfl | exact absurd rfl h

/-- The card of a resource. -/
def Resource.card (r : Resource) : Card where
  id := r.id
  key := r.mappingKey
  cluster := r.clusterName
  bound := r.spec.bound
  version := r.recordVersion
  marked := r.markedForDeletion

theorem Resource.Resembles.card {r read : Resource} (h : r.Resembles read) :
    read.card = r.card := by
  have hkey : read.mappingKey = r.mappingKey := by
    simp only [mappingKey, h.kind, h.name, h.namespaceName, h.accountName, h.projectName,
      h.environmentName]
  have hbound : read.spec.bound = r.spec.bound := by
    simp only [Spec.bound, h.binding]
  simp only [Resource.card, hkey, hbound, h.id, h.clusterName, h.recordVersion,
    h.markedForDeletion]

namespace StoredDocument

variable (d : StoredDocument)

/-- The kind of the collection of a document. -/
def kind : Kind := (Kind.all.find? (·.collection == d.collection)).getD .project

/-- An optional text of a stored document. -/
def text? (name : String) : Option String :=
  match d.field name with
  | .place (.str s) => some s
  | _ => none

/-- A text of a stored document. -/
def text (name : String) : String := (d.text? name).getD ""

/-- The cluster that the spec of a stored document names. -/
def specCluster? : Option String :=
  match d.body.at? ["spec", "cluster_name"] with
  | .place (.str s) => if s.isEmpty then none else some s
  | _ => none

/-- The card of a stored document. -/
def card : Card where
  id := d.id
  key := {
    kind := d.kind
    name := d.text "name"
    namespaceName := d.text "namespace"
    account := d.text "account_name"
    project := d.text "project_name"
    environment := d.text? "environment_name" }
  cluster := d.text? "cluster_name"
  bound := if d.kind = .project then d.specCluster? else none
  version := d.version
  marked := d.isMarked

end StoredDocument

namespace Resource

variable (r : Resource)

@[simp] theorem kind_stored : r.stored.kind = r.kind := by
  have h : ∀ k ∈ Kind.all, (Kind.all.find? (·.collection == k.collection)).getD .project = k := by
    decide
  exact h r.kind r.kind.mem_all

/-- A text is stored as it is. -/
theorem text?_stored {n : String} {o : Option String} (hn : n ∈ storedNames)
    (h : r.field n = .ofOption .str o) : r.stored.text? n = o := by
  rw [StoredDocument.text?, field_stored r hn, h, canonical_ofText]
  cases o <;> rfl

theorem specCluster?_stored (h : r.kind = .project) : r.stored.specCluster? = r.spec.bound := by
  obtain ⟨s, hs⟩ : ∃ s, r.spec = .project s := by
    cases hs : r.spec with
    | project s => exact ⟨s, rfl⟩
    | _ => rw [kind, hs] at h; cases h
  have hfield : (r.field "spec").canonical = s.encode.canonical := by
    have hspec : r.field "spec" = r.spec.encode := rfl
    rw [hspec, hs, Spec.encode]
  have hat : r.stored.body.at? ["spec", "cluster_name"] =
      .place (.ofJson (.ofOption .str s.clusterName)) := by
    rw [r.at?_stored (by decide : "spec" ∈ storedNames), hfield, ProjectSpec.canonical_encode,
      ProjectSpec.fieldNames_stored.at?_record (by decide), ProjectSpec.canonical_clusterName]
    rfl
  rw [StoredDocument.specCluster?, hat, Spec.bound, hs]
  cases hc : s.clusterName with
  | none => simp [Spec.binding, hc, Json.ofOption, Body.ofJson]
  | some c =>
    cases he : c.isEmpty <;>
      simp [Spec.binding, hc, he, Json.ofOption, Body.ofJson, Option.filter]

/-- The card of a resource is read off its document. -/
@[simp] theorem card_stored : r.stored.card = r.card := by
  have hname : r.stored.text? "name" = some r.name := r.text?_stored (by decide) rfl
  have hns : r.stored.text? "namespace" = some r.namespaceName := r.text?_stored (by decide) rfl
  have ha : r.stored.text? "account_name" = some r.accountName := r.text?_stored (by decide) rfl
  have hp : r.stored.text? "project_name" = some r.projectName := r.text?_stored (by decide) rfl
  have he : r.stored.text? "environment_name" = r.environmentName :=
    r.text?_stored (by decide) rfl
  have hc : r.stored.text? "cluster_name" = r.clusterName := r.text?_stored (by decide) rfl
  have hbound : (if r.kind = .project then r.stored.specCluster? else none) = r.spec.bound := by
    split
    · rename_i h
      exact r.specCluster?_stored h
    · rename_i h
      exact (Spec.bound_of_kind_ne h).symm
  simp only [StoredDocument.card, StoredDocument.text, hname, hns, ha, hp, he, hc, kind_stored,
    hbound, version_stored, isMarked_stored, stored_id, Option.getD_some]
  rfl

end Resource

/-! ## Addresses -/

/-- What a report says of the resource that it is about, but for its version. -/
structure Wire.Address where
  kind : Kind
  account : String
  cluster : String
  namespaceName : String
  name : String
deriving DecidableEq, Repr, Inhabited

/-- The address in a report. -/
def Wire.Report.address (r : Wire.Report) : Wire.Address :=
  ⟨r.resourceKind, r.accountName, r.clusterName, r.object.namespaceName, r.object.name⟩

/-- The address in an envelope. -/
def Wire.Envelope.address (e : Wire.Envelope) : Wire.Address :=
  ⟨e.object.kind, e.accountName, e.clusterName, e.object.namespaceName, e.object.name⟩

/-- The address of the resource of a card on a cluster. -/
def Card.addressOn (c : Card) (cluster : String) : Wire.Address :=
  ⟨c.key.kind, c.key.account, cluster, c.key.namespaceName, c.key.name⟩

/-- The address of the resource of a card, if it has a cluster. -/
def Card.address? (c : Card) : Option Wire.Address := c.cluster.map c.addressOn

/-! ## Envelopes -/

/-- Whether an envelope is about the resource of a card, at its version, with what is to be done
with it. -/
structure Wire.Envelope.IsOf (e : Wire.Envelope) (c : Card) : Prop where
  account : e.accountName = c.key.account
  kind : e.object.kind = c.key.kind
  namespaceName : e.object.namespaceName = c.key.namespaceName
  name : e.object.name = c.key.name
  version : e.recordVersion = c.version
  action : e.action = c.pendingAction

theorem Resource.envelope_isOf (r : Resource) (cluster : String) :
    (r.envelope cluster r.pendingAction).IsOf r.card := ⟨rfl, rfl, rfl, rfl, rfl, rfl⟩

/-- Whether the payload of a delivery is an envelope. -/
def Delivery.Carries (d : Delivery) (e : Wire.Envelope) : Prop :=
  ∃ frame, Wire.Frame.ofEnvelope e = .ok frame ∧ d.payload = frame.toBytes

end FleetSync
