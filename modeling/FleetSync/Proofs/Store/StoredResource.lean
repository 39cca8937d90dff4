import FleetSync.Control.Lookup
import FleetSync.Proofs.Store.FieldName
import FleetSync.Proofs.Store.Rereading

/-!
# Resources as stored

The document of a resource is a record of its fields (`Resource.stored_body`), so that

* a filter by id and version picks documents of resources with that id and version
  (`Resource.of_matches_byIdAt`);
* a patch of some fields gives the document of the resource with these fields
  (`Resource.patched_eq`);
* what is read back agrees with the resource in all that its writers go by
  (`Resource.resembles_of_read`).
-/

namespace FleetSync

namespace Fields

theorem mem_of_get? {α : Type} {fields : List (String × α)} {k : String} {v : α}
    (h : get? k fields = some v) : (k, v) ∈ fields := by
  induction fields with
  | nil => cases h
  | cons a rest ih =>
    rw [get?] at h
    split at h
    · rename_i hk
      rw [← hk, ← Option.some.inj h]
      exact List.mem_cons_self ..
    · exact List.mem_cons_of_mem _ (ih h)

theorem get?_of_mem {α : Type} {fields : List (String × α)} (h : (fields.map (·.1)).Nodup)
    {p : String × α} (hp : p ∈ fields) : get? p.1 fields = some p.2 := by
  induction fields with
  | nil => cases hp
  | cons q rest ih =>
    rw [List.map_cons, List.nodup_cons] at h
    rcases List.mem_cons.1 hp with rfl | hp
    · rw [get?, if_pos rfl]
    · have hq : q.1 ≠ p.1 := fun e => h.1 (e ▸ List.mem_map_of_mem hp)
      rw [get?, if_neg hq, ih h.2 hp]

end Fields

theorem Json.obj_eq_record {fields : List (String × Json)} (h : (fields.map (·.1)).Nodup) :
    Json.obj fields =
      .record (fields.map (·.1)) fun n => ((Json.obj fields).field? n).getD .null := by
  rw [record, List.map_map]
  refine congrArg Json.obj ?_
  calc fields = fields.map id := (List.map_id fields).symm
    _ = _ := List.map_congr_left fun p hp => by
      rw [Function.comp_apply, Json.field?, Fields.get?_of_mem h hp]
      rfl

namespace SyncStatus

/-- The names of a status's fields, in order. -/
def fieldNames : List String :=
  ["action", "state", "record_version", "sync_scheduled_at", "last_synced_at", "error"]

/-- The names of a status's fields as they are stored. -/
def storedNames : List String :=
  ["action", "error", "last_synced_at", "record_version", "state", "sync_scheduled_at"]

/-- A field of a status as a value. -/
def field (s : SyncStatus) (name : String) : Json := (s.encode.field? name).getD .null

theorem fieldNames_stored : FieldNames storedNames := .of_sorted (by decide) (by decide)

theorem canonical_encode (s : SyncStatus) :
    s.encode.canonical = .record storedNames fun n => (s.field n).canonical := by
  have h : s.encode = .record fieldNames s.field :=
    Json.obj_eq_record (by decide : fieldNames.Nodup)
  have hn : Json.sortNames fieldNames = storedNames := by
    decide +kernel
  rw [h, Json.canonical_record, hn]

end SyncStatus

namespace Resource

/-- The names of a resource's fields as they are stored. -/
def storedNames : List String :=
  ["account_name", "agent_creation_timestamp", "annotations", "cluster_name", "created_by",
    "creation_time", "environment_name", "generation", "id", "labels", "last_updated_by",
    "marked_for_deletion", "name", "namespace", "project_name", "record_version", "spec", "status",
    "sync_status", "update_time"]

/-- A field of a resource as a value. -/
def field (r : Resource) (name : String) : Json := (r.encode.field? name).getD .null

theorem fieldNames_stored : FieldNames storedNames := .of_sorted (by decide) (by decide)

theorem canonical_encode (r : Resource) :
    r.encode.canonical = .record storedNames fun n => (r.field n).canonical := by
  have h : r.encode = .record fieldNames r.field :=
    Json.obj_eq_record (by decide : fieldNames.Nodup)
  have hn : Json.sortNames fieldNames = storedNames := by
    decide +kernel
  rw [h, Json.canonical_record, hn]

/-- The document of a resource as the store keeps it. -/
def stored (r : Resource) : StoredDocument := .of r.document

@[simp] theorem stored_id (r : Resource) : r.stored.id = r.id := rfl

theorem stored_body (r : Resource) :
    r.stored.body = .ofJson (.record storedNames fun n => (r.field n).canonical) := by
  rw [← canonical_encode]
  rfl

theorem at?_stored (r : Resource) {n : String} (hn : n ∈ storedNames) (rest : Path) :
    r.stored.body.at? (.field ⟨n.toList⟩ :: rest) =
      (Body.ofJson (r.field n).canonical).at? rest := by
  rw [stored_body, fieldNames_stored.at?_record hn]

theorem at?_syncStatus (r : Resource) {n : String} (hn : n ∈ SyncStatus.storedNames) :
    r.stored.body.at? ["sync_status", .field ⟨n.toList⟩] =
      .place (.ofJson (r.syncStatus.field n).canonical) := by
  rw [r.at?_stored (by decide : "sync_status" ∈ storedNames)]
  have hs : (r.field "sync_status").canonical = r.syncStatus.encode.canonical := rfl
  rw [hs, SyncStatus.canonical_encode, SyncStatus.fieldNames_stored.at?_record hn, Body.at?]

end Resource

/-! ## What documents show -/

namespace StoredDocument

variable (d : StoredDocument)

/-- A field of a stored document. -/
def field (name : String) : Reached Body := d.body.at? [name]

/-- The version of a stored document. -/
def version : Version :=
  match d.field "record_version" with
  | .place (.num (.int v)) => v
  | _ => 0

/-- Whether a stored document is marked for deletion. -/
def isMarked : Bool :=
  match d.field "marked_for_deletion" with
  | .place (.bool b) => b
  | _ => false

/-- The last version of a stored document that the agent confirmed. -/
def syncVersion : Version :=
  match d.body.at? ["sync_status", "record_version"] with
  | .place (.num (.int v)) => v
  | _ => 0

/-- The name of what is asked of the agent of a stored document. -/
def action : String :=
  match d.body.at? ["sync_status", "action"] with
  | .place (.str s) => s
  | _ => ""

/-- The name of how far a stored document got. -/
def syncState : String :=
  match d.body.at? ["sync_status", "state"] with
  | .place (.str s) => s
  | _ => ""

end StoredDocument

namespace Resource

theorem field_stored (r : Resource) {n : String} (hn : n ∈ storedNames) :
    r.stored.field n = .place (.ofJson (r.field n).canonical) := by
  rw [StoredDocument.field, r.at?_stored hn, Body.at?]

@[simp] theorem version_stored (r : Resource) : r.stored.version = r.recordVersion := by
  rw [StoredDocument.version, r.field_stored (by decide)]
  rfl

@[simp] theorem isMarked_stored (r : Resource) : r.stored.isMarked = r.markedForDeletion := by
  rw [StoredDocument.isMarked, r.field_stored (by decide)]
  rfl

@[simp] theorem syncVersion_stored (r : Resource) :
    r.stored.syncVersion = r.syncStatus.recordVersion := by
  rw [StoredDocument.syncVersion, r.at?_syncStatus (by decide)]
  rfl

@[simp] theorem action_stored (r : Resource) : r.stored.action = r.syncStatus.action.name := by
  rw [StoredDocument.action, r.at?_syncStatus (by decide)]
  rfl

@[simp] theorem syncState_stored (r : Resource) :
    r.stored.syncState = r.syncStatus.state.name := by
  rw [StoredDocument.syncState, r.at?_syncStatus (by decide)]
  rfl

end Resource

/-! ## Filters -/

theorem Kind.collection_inj {k l : Kind} (h : k.collection = l.collection) : k = l := by
  have inj : ∀ k ∈ Kind.all, ∀ l ∈ Kind.all, k.collection = l.collection → k = l := by
    decide
  exact inj k k.mem_all l l.mem_all h

theorem Filter.holds?_cons {c : Condition} {rest : Filter} {b : Body} :
    holds? (c :: rest) b = some true ↔ c.holds? b = some true ∧ holds? rest b = some true := by
  cases h : c.holds? b with
  | none => simp [holds?, h]
  | some held => cases held <;> simp [holds?, h]

theorem Condition.same_of_holds? {path : Path} {v : Json} {b x : Body}
    (h : (eq path v).holds? b = some true) (hx : b.at? path = .place x) :
    (Scalar.ofBody x).same (.ofBody (.ofJson v.canonical)) = true := by
  rw [holds?] at h
  split at h
  · rw [Condition.path, hx] at h
    exact Option.some.inj h
  · cases h

namespace Scalar

theorem text_of_same {s t : String} (h : (text s).same (text t) = true) : s = t :=
  eq_of_beq h

/-- An integer is the one it is compared with, also if it is the first that has too many bits. -/
theorem int_of_same {i k : Int} (h : (ofInt i).same (ofInt k) = true) (hi : 0 ≤ i)
    (hmax : i ≤ Nat.pow 2 63) (hk : -(Nat.pow 2 63 : Int) ≤ k)
    (hk' : k ≤ (Nat.pow 2 63 - 1 : Nat)) : i = k := by
  have hpow : (Nat.pow 2 63 : Int) = 9223372036854775808 := rfl
  have hk : ofInt k = .int k := by
    rw [ofInt, if_pos (by omega)]
  rw [hk] at h
  by_cases hlt : i < Nat.pow 2 63
  · rw [ofInt, if_pos (by omega)] at h
    exact eq_of_beq h
  · obtain rfl : i = 9223372036854775808 := by omega
    have hr : ofInt 9223372036854775808 = .real ⟨false, 4503599627370496, 11⟩ := by
      decide +kernel
    rw [hr] at h
    have he := eq_of_beq (show (_ == _) = true from h)
    simp only [Bool.false_eq_true, if_false] at he
    have hn : ((⟨false, 4503599627370496, 11⟩ : Binary64).num : Int) = 9223372036854775808 := by
      decide +kernel
    have hd : ((⟨false, 4503599627370496, 11⟩ : Binary64).den : Int) = 1 := by
      decide +kernel
    rw [hn, hd] at he
    omega

end Scalar

namespace Resource

variable {r read : Resource} {kind : Kind} {id : String}

theorem of_matches_byId (h : r.stored.matches? kind.collection (.byId id) = true) :
    r.kind = kind ∧ r.id = id := by
  rw [StoredDocument.matches?, Bool.and_eq_true] at h
  obtain ⟨hc, hf⟩ := h
  obtain ⟨hid, -⟩ := Filter.holds?_cons.1 (eq_of_beq hf)
  have hat := r.at?_stored (by decide : "id" ∈ storedNames) []
  exact ⟨Kind.collection_inj (eq_of_beq hc), Scalar.text_of_same (Condition.same_of_holds? hid hat)⟩

theorem of_matches_byIdAt {v : Version}
    (h : r.stored.matches? kind.collection (.byIdAt id v) = true) (h0 : 0 ≤ r.recordVersion)
    (hmax : r.recordVersion ≤ Nat.pow 2 63) (hv : -(Nat.pow 2 63 : Int) ≤ v)
    (hv' : v ≤ (Nat.pow 2 63 - 1 : Nat)) :
    r.kind = kind ∧ r.id = id ∧ r.recordVersion = v := by
  rw [StoredDocument.matches?, Bool.and_eq_true] at h
  obtain ⟨hc, hf⟩ := h
  obtain ⟨hid, hrest⟩ := Filter.holds?_cons.1 (eq_of_beq hf)
  obtain ⟨hver, -⟩ := Filter.holds?_cons.1 hrest
  have hat := r.at?_stored (by decide : "id" ∈ storedNames) []
  have hat' := r.at?_stored (by decide : "record_version" ∈ storedNames) []
  exact ⟨Kind.collection_inj (eq_of_beq hc), Scalar.text_of_same (Condition.same_of_holds? hid hat),
    Scalar.int_of_same (Condition.same_of_holds? hver hat') h0 hmax hv hv'⟩

/-! ## Patches -/

/-- A patch of a stored resource stores the resource whose fields it gives. -/
theorem patched_eq {r' : Resource} {changes : List (String × Json)} {body : Body}
    (hc : ∀ c ∈ changes, c.1 ∈ storedNames)
    (hf : ∀ n ∈ storedNames,
      Patch.setFields (fun n => (r.field n).canonical) changes n = (r'.field n).canonical)
    (hkind : r'.kind = r.kind) (hid : r'.id = r.id) (hkey : r'.identityKey = r.identityKey)
    (h : (Patch.ofFields changes).applyTo? r.stored.body = some body) :
    { r.stored with body } = r'.stored := by
  rw [stored_body] at h
  have hbody : body = r'.stored.body := by
    rw [Patch.applyTo?_record fieldNames_stored hc h, stored_body, Json.record, Json.record]
    exact congrArg _ (congrArg _ (List.map_congr_left fun n hn => by rw [hf n hn]))
  rw [StoredDocument.mk.injEq]
  exact ⟨congrArg Kind.collection hkind.symm, hid.symm, hkey.symm, hbody⟩

/-! ## Reading -/

/-- What a resource that was read has of the one that is stored. -/
structure ReadsAs (r read : Resource) : Prop where
  id : read.id = r.id
  kind : read.kind = r.kind
  recordVersion : read.recordVersion = r.recordVersion
  least : -(Nat.pow 2 63 : Int) ≤ r.recordVersion
  greatest : r.recordVersion ≤ (Nat.pow 2 63 - 1 : Nat)
  markedForDeletion : read.markedForDeletion = r.markedForDeletion
  action : read.syncStatus.action = r.syncStatus.action
  syncVersion : read.syncStatus.recordVersion = r.syncStatus.recordVersion
  scheduled : read.syncStatus.syncScheduledAt.isSome = r.syncStatus.syncScheduledAt.isSome

end Resource

theorem Json.canonical_ofInstant (t : Option Instant) :
    (Json.ofOption .ofInstant t).canonical = .ofOption .ofInstant t := by
  cases t <;> rfl

theorem SyncStatus.of_rereads {s read : SyncStatus} {l : Nat}
    (h : SyncStatus.decode.Rereads (l + 1) s.encode.canonical read) :
    read.action = s.action ∧ read.recordVersion = s.recordVersion ∧
      read.syncScheduledAt.isSome = s.syncScheduledAt.isSome := by
  rw [canonical_encode] at h
  obtain ⟨rec, hmake, hfield⟩ := h.field fieldNames_stored (by decide)
  simp only [Checked.seq_eq_ok, Checked.map_eq_ok] at hmake
  obtain ⟨_, at?, ⟨_, last, ⟨_, sched, ⟨_, v, ⟨_, state, ⟨action, ha, rfl⟩, hst, rfl⟩, hv, rfl⟩,
    hs, rfl⟩, hl, rfl⟩, he, rfl⟩ := hmake
  have hact := (hfield "action" (by decide) ha).choice
  have hver := (hfield "record_version" (by decide) hv).int64
  have hcan : (s.field "sync_scheduled_at").canonical = .ofOption .ofInstant s.syncScheduledAt :=
    Json.canonical_ofInstant s.syncScheduledAt
  have hsch := hfield "sync_scheduled_at" (by decide) hs
  rw [hcan] at hsch
  have hsch := hsch.nullable fun t : Instant => ⟨t.text, rfl⟩
  refine ⟨?_, hver.1, ?_⟩
  · cases hsa : s.action <;> rw [hsa] at hact <;> exact (Option.some.inj hact).symm
  · rcases hsch with ⟨h1, h2⟩ | ⟨b, x, h1, h2, -⟩ <;> simp only [h1, h2, Option.isSome]

namespace ProjectSpec

/-- The names of the fields of a project's spec, in order. -/
def fieldNames : List String := ["cluster_name", "target_namespace", "display_name"]

/-- The names of the fields of a project's spec as they are stored. -/
def storedNames : List String := ["cluster_name", "display_name", "target_namespace"]

/-- A field of a project's spec as a value. -/
def field (s : ProjectSpec) (name : String) : Json := (s.encode.field? name).getD .null

theorem fieldNames_stored : FieldNames storedNames := .of_sorted (by decide) (by decide)

theorem canonical_encode (s : ProjectSpec) :
    s.encode.canonical = .record storedNames fun n => (s.field n).canonical := by
  have h : s.encode = .record fieldNames s.field :=
    Json.obj_eq_record (by decide : fieldNames.Nodup)
  have hn : Json.sortNames fieldNames = storedNames := by
    decide +kernel
  rw [h, Json.canonical_record, hn]

theorem canonical_clusterName (s : ProjectSpec) :
    (s.field "cluster_name").canonical = .ofOption .str s.clusterName := by
  have h : (s.field "cluster_name").canonical = (Json.ofOption .str s.clusterName).canonical := rfl
  rw [h]
  cases s.clusterName <;> rfl

theorem of_rereads {s read : ProjectSpec} {l : Nat}
    (h : ProjectSpec.decode.Rereads (l + 1) s.encode.canonical read) :
    read.clusterName = s.clusterName := by
  rw [canonical_encode] at h
  obtain ⟨rec, hmake, hfield⟩ := h.field fieldNames_stored (by decide)
  simp only [Checked.seq_eq_ok, Checked.map_eq_ok] at hmake
  obtain ⟨_, _, ⟨_, _, ⟨cluster, hcluster, rfl⟩, -, rfl⟩, -, rfl⟩ := hmake
  have hc := hfield "cluster_name" (by decide) hcluster
  rw [canonical_clusterName] at hc
  exact hc.nullableText

end ProjectSpec

/-- What is read of a spec binds it to the same cluster. -/
theorem Spec.binding_of_rereads {s read : Spec} {l : Nat}
    (h : (Spec.decode s.kind).Rereads (l + 1) s.encode.canonical read) :
    read.binding = s.binding := by
  have hkind : read.kind = s.kind := by
    obtain ⟨_, -, hd⟩ := h
    exact kind_of_decode hd
  cases s with
  | project s =>
    obtain ⟨v, hv, hd⟩ := h
    have hd : (ProjectSpec.decode (l + 1) v.toNode).map Spec.project = .ok read := hd
    cases hx : ProjectSpec.decode (l + 1) v.toNode with
    | error e => rw [hx] at hd; cases hd
    | ok x =>
      rw [hx] at hd
      obtain rfl := Except.ok.inj hd
      exact congrArg Binding.explicit (ProjectSpec.of_rereads ⟨v, hv, hx⟩)
  | _ => cases read <;> first | rfl | cases hkind

namespace Resource

/-- What a resource that was read has of the one that is stored, its place and its cluster
included. -/
structure Resembles (r read : Resource) : Prop extends r.ReadsAs read where
  name : read.name = r.name
  namespaceName : read.namespaceName = r.namespaceName
  accountName : read.accountName = r.accountName
  projectName : read.projectName = r.projectName
  environmentName : read.environmentName = r.environmentName
  clusterName : read.clusterName = r.clusterName
  binding : read.spec.binding = r.spec.binding

theorem canonical_ofText (o : Option String) :
    (Json.ofOption .str o).canonical = .ofOption .str o := by
  cases o <;> rfl

/-- What is read of a stored resource is what is read of its fields. -/
theorem rereads_of_read {r read : Resource} {kind : Kind} {j : Json}
    (hj : r.stored.read = .ok j) (hd : ofDocument kind j = .ok read) :
    (Resource.decode kind).Rereads Json.maxNesting
      (.record storedNames fun n => (r.field n).canonical) read := by
  refine ⟨j, ?_, ?_⟩
  · rw [← stored_body]
    rw [StoredDocument.read] at hj
    cases hv : r.stored.body.value? with
    | none => rw [hv] at hj; cases hj
    | some v => rw [hv] at hj; exact hv.trans (congrArg some (Except.ok.inj hj))
  · rw [ofDocument] at hd
    cases hx : (Resource.decode kind).ofJson j with
    | error e => rw [hx] at hd; cases hd
    | ok x => rw [hx] at hd; exact hx.trans (congrArg _ (Except.ok.inj hd))

/-- A resource that was read resembles the one that is stored. -/
theorem resembles_of_read {r read : Resource} {kind : Kind} {j : Json}
    (hkind : r.kind = kind) (hj : r.stored.read = .ok j) (hd : ofDocument kind j = .ok read) :
    r.Resembles read := by
  obtain ⟨rec, hmake, hfield⟩ := (rereads_of_read hj hd).field fieldNames_stored (by decide)
  clear hj hd
  simp only [Checked.seq_eq_ok, Checked.map_eq_ok] at hmake
  -- The fields are taken apart from the last one on, a few at a time.
  obtain ⟨_, _, ⟨_, _, ⟨_, _, ⟨_, _, hmake, -, rfl⟩, -, rfl⟩, -, rfl⟩, -, rfl⟩ := hmake
  obtain ⟨_, _, ⟨_, _, ⟨_, _, ⟨_, _, hmake, -, rfl⟩, hv, rfl⟩, hsync, rfl⟩, hmarked, rfl⟩ := hmake
  obtain ⟨_, _, ⟨_, _, ⟨_, _, ⟨_, _, hmake, -, rfl⟩, hspec, rfl⟩, -, rfl⟩, -, rfl⟩ := hmake
  obtain ⟨_, _, ⟨_, _, ⟨_, _, ⟨_, _, hmake, hp, rfl⟩, he, rfl⟩, hc, rfl⟩, -, rfl⟩ := hmake
  obtain ⟨_, _, ⟨_, _, ⟨_, _, ⟨_, hid, rfl⟩, hn, rfl⟩, hns, rfl⟩, ha, rfl⟩ := hmake
  have hid := (hfield "id" (by decide) hid).text
  have hn := (hfield "name" (by decide) hn).text
  have hns := (hfield "namespace" (by decide) hns).text
  have ha := (hfield "account_name" (by decide) ha).text
  have hp := (hfield "project_name" (by decide) hp).text
  have he := hfield "environment_name" (by decide) he
  have hc := hfield "cluster_name" (by decide) hc
  have henv : (r.field "environment_name").canonical = .ofOption .str r.environmentName :=
    canonical_ofText r.environmentName
  have hcluster : (r.field "cluster_name").canonical = .ofOption .str r.clusterName :=
    canonical_ofText r.clusterName
  rw [henv] at he
  rw [hcluster] at hc
  have hspec := hfield "spec" (by decide) hspec
  have hbinding := Spec.binding_of_rereads (hkind ▸ hspec)
  have hv := (hfield "record_version" (by decide) hv).int64
  have hsync := SyncStatus.of_rereads (hfield "sync_status" (by decide) hsync)
  have hmarked := (hfield "marked_for_deletion" (by decide) hmarked).bool
  obtain ⟨_, -, hspec⟩ := hspec
  refine ⟨⟨hid, (Spec.kind_of_decode hspec).trans hkind.symm, hv.1, hv.2.1, hv.2.2, hmarked,
    hsync.1, hsync.2.1, hsync.2.2⟩, hn, hns, ha, hp, he.nullableText, hc.nullableText, hbinding⟩

theorem readsAs_of_read {r read : Resource} {kind : Kind} {j : Json}
    (hkind : r.kind = kind) (hj : r.stored.read = .ok j) (hd : ofDocument kind j = .ok read) :
    r.ReadsAs read := (resembles_of_read hkind hj hd).toReadsAs

end Resource

end FleetSync
