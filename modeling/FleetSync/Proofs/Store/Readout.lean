import FleetSync.Proofs.Interleaving.Edit
import FleetSync.Proofs.Store.Keeping
import FleetSync.Proofs.Store.TypedValues

/-!
# What is read of a stored resource

A document is read field by field: each field is read as a value, and the resource is made of these
values (`Resource.resource_stored_iff`). If the document has integers alone and does not nest too
deep (`Resource.IsLight`), a field reads as the value that it was written from unless an object in
it starts with the key of those that hold a value as a text (`Resource.value_field_iff`). So a
resource that is new is read as it was stored exactly if its maps and its spec are free
(`Resource.resource_new_iff`), and so is one that was revised, from what was read before
(`Edit.resource_revised_iff`).
-/

namespace FleetSync

open Decoder (Takes IsInt64)

namespace Body

mutual

/-- Whether a body nests no more than so many levels and has no number but integers. -/
def isLight (levels : Nat) : Body → Bool
  | .null | .bool _ | .str _ | .num (.int _) => true
  | .num (.float _) => false
  | .arr items => match levels with
    | 0 => false
    | l + 1 => itemsLight l items
  | .obj fields => match levels with
    | 0 => false
    | l + 1 => fieldsLight l fields

/-- `isLight` on the items of an array. -/
def itemsLight (levels : Nat) : List Body → Bool
  | [] => true
  | b :: rest => b.isLight levels && itemsLight levels rest

/-- `isLight` on the values of an object. -/
def fieldsLight (levels : Nat) : List (Label × Body) → Bool
  | [] => true
  | (_, b) :: rest => b.isLight levels && fieldsLight levels rest

end

mutual

/-- The text of a light value says that value, and it nests no deeper. -/
theorem said_of_isLight : ∀ {j : Json} {l : Nat}, (ofJson j).isLight l = true →
    (ofJson j).toNode = j.toNode ∧ j.nests l = true
  | .null, _, _ | .bool _, _, _ | .str _, _, _ | .num (.int _), _, _ => ⟨rfl, rfl⟩
  | .num (.float _), _, h => nomatch h
  | .arr _, 0, h | .obj _, 0, h => nomatch h
  | .arr items, l + 1, h => by
    obtain ⟨said, nests⟩ := said_of_itemsLight h
    exact ⟨by rw [ofJson, toNode, said, Json.toNode], nests⟩
  | .obj fields, l + 1, h => by
    obtain ⟨said, nests⟩ := said_of_fieldsLight h
    exact ⟨by rw [ofJson, toNode, said, Json.toNode], nests⟩

theorem said_of_itemsLight : ∀ {items : List Json} {l : Nat},
    itemsLight l (ofItems items) = true →
    itemNodes (ofItems items) = Json.itemNodes items ∧ Json.itemsNest l items = true
  | [], _, _ => ⟨rfl, rfl⟩
  | j :: rest, l, h => by
    obtain ⟨hj, hrest⟩ := Bool.and_eq_true_iff.1 h
    obtain ⟨said, nests⟩ := said_of_isLight hj
    obtain ⟨saidRest, nestRest⟩ := said_of_itemsLight hrest
    rw [ofItems, itemNodes, said, saidRest, Json.itemsNest, nests, nestRest]
    exact ⟨rfl, rfl⟩

theorem said_of_fieldsLight : ∀ {fields : List (String × Json)} {l : Nat},
    fieldsLight l (ofFields fields) = true →
    fieldNodes (ofFields fields) = Json.fieldNodes fields ∧ Json.fieldsNest l fields = true
  | [], _, _ => ⟨rfl, rfl⟩
  | (k, j) :: rest, l, h => by
    obtain ⟨hj, hrest⟩ := Bool.and_eq_true_iff.1 h
    obtain ⟨said, nests⟩ := said_of_isLight hj
    obtain ⟨saidRest, nestRest⟩ := said_of_fieldsLight hrest
    rw [ofFields, fieldNodes, Label.name?_ofName, said, saidRest, Json.fieldsNest, nests, nestRest]
    exact ⟨rfl, rfl⟩

end

/-- A record is light if its fields are, one level below. -/
theorem isLight_record (names : List String) (f : String → Json) (l : Nat) :
    (ofJson (.record names f)).isLight (l + 1) = names.all fun n => (ofJson (f n)).isLight l := by
  rw [ofJson_record, isLight]
  induction names with
  | nil => rfl
  | cons n rest ih => rw [List.map_cons, fieldsLight, ih, List.all_cons]

end Body

theorem FieldNames.isFree_record {names : List String} (h : FieldNames names) {f : String → Json}
    (hf : ∀ n ∈ names, (f n).isFree = true) : (Json.record names f).isFree = true := by
  have nodes : Json.fieldNodes (names.map fun n => (n, f n)) =
      names.map fun n => (some n, (f n).toNode) := by
    rw [Json.fieldNodes_eq_map, List.map_map]
    rfl
  rw [Json.record, Json.isFree, nodes, h.embedded?_record fun n => (f n).toNode]
  refine Bool.and_eq_true_iff.2 ⟨rfl, Json.fieldsFree_iff.2 fun p hp => ?_⟩
  obtain ⟨n, hn, rfl⟩ := List.mem_map.1 hp
  exact hf n hn

/-- The resource that a stored document holds. -/
def StoredDocument.resource (d : StoredDocument) (kind : Kind) : Except OpError Resource := do
  Resource.ofDocument kind (← d.read)

namespace Resource

variable {r read : Resource} {kind : Kind} {l : Nat} {g : String → Json} {n : String}

/-- How deep the fields of a document may nest for it to be read. -/
def fieldNesting : Nat := Json.maxNesting - 1

/-- Whether a resource is what decoders make of the values of its fields. -/
structure IsMadeOf (r : Resource) (kind : Kind) (l : Nat) (g : String → Json) : Prop where
  id : Decoder.text l (g "id").toNode = .ok r.id
  name : Decoder.text l (g "name").toNode = .ok r.name
  namespaceName : Decoder.text l (g "namespace").toNode = .ok r.namespaceName
  accountName : Decoder.text l (g "account_name").toNode = .ok r.accountName
  projectName : Decoder.text l (g "project_name").toNode = .ok r.projectName
  environmentName :
    Decoder.nullable .text l (g "environment_name").toNode = .ok r.environmentName
  clusterName : Decoder.nullable .text l (g "cluster_name").toNode = .ok r.clusterName
  labels : Decoder.strings l (g "labels").toNode = .ok r.labels
  annotations : Decoder.strings l (g "annotations").toNode = .ok r.annotations
  spec : Spec.decode kind l (g "spec").toNode = .ok r.spec
  status : Decoder.nullable Observed.decode l (g "status").toNode = .ok r.status
  generation : Decoder.int64 l (g "generation").toNode = .ok r.generation
  agentCreationTimestamp :
    Decoder.nullable .instant l (g "agent_creation_timestamp").toNode = .ok r.agentCreationTimestamp
  recordVersion : Decoder.int64 l (g "record_version").toNode = .ok r.recordVersion
  syncStatus : SyncStatus.decode l (g "sync_status").toNode = .ok r.syncStatus
  markedForDeletion : Decoder.bool l (g "marked_for_deletion").toNode = .ok r.markedForDeletion
  createdBy : User.decode l (g "created_by").toNode = .ok r.createdBy
  lastUpdatedBy : User.decode l (g "last_updated_by").toNode = .ok r.lastUpdatedBy
  creationTime : Decoder.instant l (g "creation_time").toNode = .ok r.creationTime
  updateTime : Decoder.instant l (g "update_time").toNode = .ok r.updateTime

/-- A resource is decoded of a record exactly if it is made of its fields. -/
theorem decode_record_iff : decode kind (l + 1) (Json.record storedNames g).toNode = .ok r ↔
    r.IsMadeOf kind l g := by
  obtain ⟨rec, -, hmake, hfield⟩ := Decoder.exists_of_record fieldNames_stored.nodup
    (by decide : ∀ n ∈ fieldNames, n ∈ storedNames) _ g l
  rw [decode, hmake]
  constructor
  · intro made
    simp only [Checked.seq_eq_ok, Checked.map_eq_ok] at made
    -- The fields are taken apart from the last one on, a few at a time.
    obtain ⟨_, _, ⟨_, _, ⟨_, _, ⟨_, _, made, hby, rfl⟩, hupdater, rfl⟩, hcreated, rfl⟩, hupdated,
      rfl⟩ := made
    obtain ⟨_, _, ⟨_, _, ⟨_, _, ⟨_, _, made, hagent, rfl⟩, hversion, rfl⟩, hsync, rfl⟩, hmarked,
      rfl⟩ := made
    obtain ⟨_, _, ⟨_, _, ⟨_, _, ⟨_, _, made, ha, rfl⟩, hspec, rfl⟩, hstatus, rfl⟩, hgen, rfl⟩ :=
      made
    obtain ⟨_, _, ⟨_, _, ⟨_, _, ⟨_, _, made, hproject, rfl⟩, henv, rfl⟩, hcluster, rfl⟩, hl, rfl⟩ :=
      made
    obtain ⟨_, _, ⟨_, _, ⟨_, _, ⟨_, hid, rfl⟩, hname, rfl⟩, hnamespace, rfl⟩, haccount, rfl⟩ := made
    exact {
      id := (hfield "id" (by decide)).1 hid
      name := (hfield "name" (by decide)).1 hname
      namespaceName := (hfield "namespace" (by decide)).1 hnamespace
      accountName := (hfield "account_name" (by decide)).1 haccount
      projectName := (hfield "project_name" (by decide)).1 hproject
      environmentName := (hfield "environment_name" (by decide)).1 henv
      clusterName := (hfield "cluster_name" (by decide)).1 hcluster
      labels := (hfield "labels" (by decide)).1 hl
      annotations := (hfield "annotations" (by decide)).1 ha
      spec := (hfield "spec" (by decide)).1 hspec
      status := (hfield "status" (by decide)).1 hstatus
      generation := (hfield "generation" (by decide)).1 hgen
      agentCreationTimestamp := (hfield "agent_creation_timestamp" (by decide)).1 hagent
      recordVersion := (hfield "record_version" (by decide)).1 hversion
      syncStatus := (hfield "sync_status" (by decide)).1 hsync
      markedForDeletion := (hfield "marked_for_deletion" (by decide)).1 hmarked
      createdBy := (hfield "created_by" (by decide)).1 hby
      lastUpdatedBy := (hfield "last_updated_by" (by decide)).1 hupdater
      creationTime := (hfield "creation_time" (by decide)).1 hcreated
      updateTime := (hfield "update_time" (by decide)).1 hupdated }
  · intro h
    have field : ∀ (n : String) {β : Type} {d : Decoder β} {absent : Checked β} {b : β},
        d l (g n).toNode = .ok b → n ∈ fieldNames → rec.field n d absent = .ok b :=
      fun n _ _ _ _ hd hn => (hfield n hn).2 hd
    have id : rec.required "id" .text = .ok r.id := field _ h.id (by decide)
    have name : rec.required "name" .text = .ok r.name := field _ h.name (by decide)
    have namespaceName : rec.required "namespace" .text = .ok r.namespaceName :=
      field _ h.namespaceName (by decide)
    have accountName : rec.required "account_name" .text = .ok r.accountName :=
      field _ h.accountName (by decide)
    have projectName : rec.required "project_name" .text = .ok r.projectName :=
      field _ h.projectName (by decide)
    have environmentName : rec.nullable "environment_name" .text = .ok r.environmentName :=
      field _ h.environmentName (by decide)
    have clusterName : rec.nullable "cluster_name" .text = .ok r.clusterName :=
      field _ h.clusterName (by decide)
    have labels : rec.defaulted "labels" ∅ .strings = .ok r.labels := field _ h.labels (by decide)
    have annotations : rec.defaulted "annotations" ∅ .strings = .ok r.annotations :=
      field _ h.annotations (by decide)
    have spec : rec.required "spec" (Spec.decode kind) = .ok r.spec := field _ h.spec (by decide)
    have status : rec.nullable "status" Observed.decode = .ok r.status :=
      field _ h.status (by decide)
    have generation : rec.defaulted "generation" 0 .int64 = .ok r.generation :=
      field _ h.generation (by decide)
    have agent : rec.nullable "agent_creation_timestamp" .instant = .ok r.agentCreationTimestamp :=
      field _ h.agentCreationTimestamp (by decide)
    have recordVersion : rec.required "record_version" .int64 = .ok r.recordVersion :=
      field _ h.recordVersion (by decide)
    have syncStatus : rec.defaulted "sync_status" .initial SyncStatus.decode = .ok r.syncStatus :=
      field _ h.syncStatus (by decide)
    have marked : rec.defaulted "marked_for_deletion" false .bool = .ok r.markedForDeletion :=
      field _ h.markedForDeletion (by decide)
    have createdBy : rec.required "created_by" User.decode = .ok r.createdBy :=
      field _ h.createdBy (by decide)
    have lastUpdatedBy : rec.required "last_updated_by" User.decode = .ok r.lastUpdatedBy :=
      field _ h.lastUpdatedBy (by decide)
    have creationTime : rec.required "creation_time" .instant = .ok r.creationTime :=
      field _ h.creationTime (by decide)
    have updateTime : rec.required "update_time" .instant = .ok r.updateTime :=
      field _ h.updateTime (by decide)
    simp only [id, name, namespaceName, accountName, projectName, environmentName, clusterName,
      labels, annotations, spec, status, generation, agent, recordVersion, syncStatus, marked,
      createdBy, lastUpdatedBy, creationTime, updateTime, Checked.map_ok, Checked.seq_ok]

/-- A stored resource is read field by field, each field as a value. -/
theorem resource_stored_iff : r.stored.resource kind = .ok read ↔
    ∃ g, (∀ n ∈ storedNames,
      (Body.ofJson (r.field n).canonical).toNode.value? fieldNesting = some (g n)) ∧
        read.IsMadeOf kind fieldNesting g := by
  constructor
  · intro h
    rw [StoredDocument.resource] at h
    cases hj : r.stored.read with
    | error e => rw [hj] at h; cases h
    | ok j =>
      rw [hj] at h
      obtain ⟨v, hv, hd⟩ := rereads_of_read hj h
      obtain ⟨g, rfl, hg⟩ := fieldNames_stored.valueWith_record (l := fieldNesting) hv
      exact ⟨g, hg, decode_record_iff.1 hd⟩
  · rintro ⟨g, hg, hmade⟩
    have hvalue : r.stored.body.value? = some (.record storedNames g) := by
      rw [stored_body]
      exact fieldNames_stored.valueWith_record_of hg
    have hdecoded : (decode kind).ofJson (.record storedNames g) = .ok read :=
      decode_record_iff.2 hmade
    rw [StoredDocument.resource, StoredDocument.read, hvalue]
    exact congrArg (·.mapError OpError.ofDecode) hdecoded

/-! ## Fields that are read as they were written -/

/-- Whether the document of a resource has integers alone, and does not nest too deep to be read. -/
def IsLight (r : Resource) : Prop := r.stored.body.isLight Json.maxNesting = true

/-- Whether the maps and the spec of a resource are free, as values. -/
def isFree (r : Resource) : Bool :=
  (Json.ofStrings r.labels).isFree && (Json.ofStrings r.annotations).isFree && r.spec.value.isFree

theorem IsLight.field (h : r.IsLight) (hn : n ∈ storedNames) :
    (Body.ofJson (r.field n).canonical).isLight fieldNesting = true := by
  rw [IsLight, r.stored_body] at h
  exact List.all_eq_true.1 ((Body.isLight_record ..).symm.trans h) n hn

theorem IsLight.nests_field (h : r.IsLight) (hn : n ∈ storedNames) :
    (r.field n).canonical.nests fieldNesting = true := (Body.said_of_isLight (h.field hn)).2

/-- A field reads as the value that it was written from exactly if that is free. -/
theorem value_field_iff (h : r.IsLight) (hn : n ∈ storedNames) :
    (Body.ofJson (r.field n).canonical).toNode.value? fieldNesting = some (r.field n).canonical ↔
      (r.field n).canonical.isFree = true := by
  rw [(Body.said_of_isLight (h.field hn)).1,
    Json.value?_toNode_iff (Json.canonical_canonical _) (h.nests_field hn)]

/-- All fields of a free resource are free, but for what was observed. -/
theorem isFree_field (h : r.isFree = true) (hn : n ∈ storedNames) (unobserved : n ≠ "status") :
    (r.field n).canonical.isFree = true := by
  rw [isFree, Bool.and_eq_true, Bool.and_eq_true] at h
  obtain ⟨⟨labels, annotations⟩, spec⟩ := h
  have texts : ∀ o : Option String, (Json.ofOption .str o).canonical.isFree = true :=
    fun o => by cases o <;> rfl
  have instants : ∀ o : Option Instant, (Json.ofOption .ofInstant o).canonical.isFree = true :=
    fun o => by cases o <;> rfl
  have sync : r.syncStatus.encode.canonical.isFree = true := by
    rw [SyncStatus.canonical_encode]
    refine SyncStatus.fieldNames_stored.isFree_record ?_
    simp only [SyncStatus.storedNames, List.forall_mem_cons]
    exact ⟨rfl, texts _, instants _, rfl, rfl, instants _, nofun⟩
  have user : ∀ u : User, u.encode.canonical.isFree = true := by
    intro u
    have names : [("user_id", Json.str u.id), ("user_name", .str u.name),
        ("user_email", .str u.email)].map (·.1) = ["user_id", "user_name", "user_email"] := rfl
    rw [User.encode, Json.canonical_obj names (by decide)]
    refine FieldNames.isFree_record (.sortNames (by decide)) fun n hn => ?_
    have hn := Json.mem_of_mem_sortNames hn
    simp only [List.mem_cons, List.not_mem_nil, or_false] at hn
    rcases hn with rfl | rfl | rfl <;> rfl
  have strings : ∀ m : SortedMap String, (Json.ofStrings m).isFree = true →
      (Json.ofStrings m).canonical.isFree = true := fun m h => by rwa [Json.canonical_ofStrings]
  revert n
  simp only [storedNames, List.forall_mem_cons]
  exact ⟨fun _ => rfl, fun _ => instants _, fun _ => strings _ annotations, fun _ => texts _,
    fun _ => user _, fun _ => rfl, fun _ => texts _, fun _ => rfl, fun _ => rfl,
    fun _ => strings _ labels, fun _ => user _, fun _ => rfl, fun _ => rfl, fun _ => rfl,
    fun _ => rfl, fun _ => rfl, fun _ => spec, fun h => absurd rfl h, fun _ => sync, fun _ => rfl,
    nofun⟩

/-- What is read of a resource has the maps and the spec that were stored only if they are free. -/
theorem isFree_of_resource (h : r.IsLight) (hkind : r.kind = kind)
    (hr : r.stored.resource kind = .ok read) (labels : read.labels = r.labels)
    (annotations : read.annotations = r.annotations) (spec : read.spec = r.spec) :
    r.isFree = true := by
  obtain ⟨g, hg, hmade⟩ := resource_stored_iff.1 hr
  have hlabels := Decoder.Keeps.strings (s := r.labels) ⟨_, hg "labels" (by decide), hmade.labels⟩
  have hannotations := Decoder.Keeps.strings (s := r.annotations)
    ⟨_, hg "annotations" (by decide), hmade.annotations⟩
  have hspec := Spec.decode_keeps (s := r.spec)
    ⟨_, hg "spec" (by decide), hkind ▸ hmade.spec⟩
  rw [labels] at hlabels
  rw [annotations] at hannotations
  rw [spec] at hspec
  have hlabels := (value_field_iff h (n := "labels") (by decide)).1 hlabels
  have hannotations := (value_field_iff h (n := "annotations") (by decide)).1 hannotations
  have hspec := (value_field_iff h (n := "spec") (by decide)).1 hspec
  rw [isFree, Bool.and_eq_true, Bool.and_eq_true]
  exact ⟨⟨Json.canonical_ofStrings _ ▸ hlabels, Json.canonical_ofStrings _ ▸ hannotations⟩, hspec⟩

/-! ## New resources -/

/-- A resource that nothing was observed of is read as it was stored exactly if it is free. -/
theorem resource_new_iff (h : r.IsLight) (unobserved : r.status = none)
    (version : IsInt64 r.recordVersion) (synced : IsInt64 r.syncStatus.recordVersion)
    (generation : IsInt64 r.generation) (sorted : r.spec.IsSorted) :
    r.stored.resource r.kind = .ok r ↔ r.isFree = true := by
  refine ⟨fun hr => isFree_of_resource h rfl hr rfl rfl rfl, fun free => ?_⟩
  have nothing : r.field "status" = .null := by
    have hfield : r.field "status" = .ofOption Observed.encode r.status := rfl
    rw [hfield, unobserved]
    rfl
  have value : ∀ n ∈ storedNames, (r.field n).canonical.isFree = true := by
    intro n hn
    by_cases hs : n = "status"
    · rw [hs, nothing]
      rfl
    · exact isFree_field free hn hs
  refine resource_stored_iff.2 ⟨_, fun n hn => (value_field_iff h hn).2 (value n hn), ?_⟩
  have nests : ∀ n ∈ storedNames, (r.field n).canonical.nests fieldNesting = true :=
    fun n hn => h.nests_field hn
  exact {
    id := (Takes.text r.id).sorted
    name := (Takes.text r.name).sorted
    namespaceName := (Takes.text r.namespaceName).sorted
    accountName := (Takes.text r.accountName).sorted
    projectName := (Takes.text r.projectName).sorted
    environmentName := (Takes.nullableText r.environmentName).sorted
    clusterName := (Takes.nullableText r.clusterName).sorted
    labels := (Takes.strings (nests "labels" (by decide))).sorted
    annotations := (Takes.strings (nests "annotations" (by decide))).sorted
    spec := (Spec.takes sorted (value "spec" (by decide)) (nests "spec" (by decide))).sorted
    status := by
      rw [nothing, unobserved]
      rfl
    generation := (Takes.int64 generation).sorted
    agentCreationTimestamp := (Takes.nullableInstant r.agentCreationTimestamp).sorted
    recordVersion := (Takes.int64 version).sorted
    syncStatus := (SyncStatus.takes synced (nests "sync_status" (by decide))).sorted
    markedForDeletion := (Takes.bool r.markedForDeletion).sorted
    createdBy := (User.takes (nests "created_by" (by decide))).sorted
    lastUpdatedBy := (User.takes (nests "last_updated_by" (by decide))).sorted
    creationTime := (Takes.instant r.creationTime).sorted
    updateTime := (Takes.instant r.updateTime).sorted }

end Resource

/-! ## Revised resources -/

namespace Edit

/-- The fields that a revision writes. -/
def revisedNames : List String := ["labels", "annotations", "spec", "record_version",
  "sync_status", "cluster_name", "last_updated_by", "update_time"]

variable {e : Edit} {current r : Resource} {input : ResourceInput} {user : User} {time : Instant}
  {cluster : Option String}

/-- A resource that was read is read as it was revised exactly if what was written is free. -/
theorem resource_revised_iff (he : e = ⟨current, .revise input user time cluster⟩)
    (read : r.stored.resource input.kind = .ok current) (h : (e.apply r).IsLight)
    (version : IsInt64 current.recordVersion.next)
    (synced : IsInt64 current.syncStatus.recordVersion) (sorted : input.spec.IsSorted) :
    (e.apply r).stored.resource input.kind = .ok (e.apply current) ↔
      (e.apply r).isFree = true := by
  subst he
  refine ⟨fun hr => Resource.isFree_of_resource h rfl hr rfl rfl rfl, fun free => ?_⟩
  obtain ⟨g, hg, hmade⟩ := Resource.resource_stored_iff.1 read
  let e : Edit := ⟨current, .revise input user time cluster⟩
  -- What was not written still reads as what the resource was read from.
  let g' := fun n => if n ∈ revisedNames then ((e.apply r).field n).canonical else g n
  have written : ∀ n ∈ revisedNames, g' n = ((e.apply r).field n).canonical :=
    fun _ hn => if_pos hn
  have others : ∀ n ∉ revisedNames, g' n = g n := fun _ hn => if_neg hn
  have unobserved : ∀ n ∈ revisedNames, n ≠ "status" := by decide
  refine Resource.resource_stored_iff.2 ⟨g', fun n hn => ?_, ?_⟩
  · by_cases hw : n ∈ revisedNames
    · rw [written n hw]
      exact (Resource.value_field_iff h hn).2 (Resource.isFree_field free hn (unobserved n hw))
    · have hfield : (e.apply r).field n = r.field n := (e.field_apply r n).trans (if_neg hw)
      rw [others n hw, hfield]
      exact hg n hn
  have kept : ∀ (n : String) {β : Type} {d : Decoder β} {b : β},
      d Resource.fieldNesting (g n).toNode = .ok b → n ∉ revisedNames →
        d Resource.fieldNesting (g' n).toNode = .ok b :=
    fun n _ _ _ hd hn => others n hn ▸ hd
  have taken : ∀ (n : String) {β : Type} {d : Decoder β} {b : β},
      n ∈ revisedNames → n ∈ Resource.storedNames →
      (((e.apply r).field n).canonical.nests Resource.fieldNesting = true →
        Takes d Resource.fieldNesting ((e.apply r).field n) b) →
      d Resource.fieldNesting (g' n).toNode = .ok b :=
    fun n _ _ _ hn hstored htakes =>
      written n hn ▸ (htakes (h.nests_field hstored)).sorted
  have spec : ((e.apply r).field "spec").canonical.isFree = true :=
    Resource.isFree_field free (by decide) (by decide)
  exact {
    id := kept _ hmade.id (by decide)
    name := kept _ hmade.name (by decide)
    namespaceName := kept _ hmade.namespaceName (by decide)
    accountName := kept _ hmade.accountName (by decide)
    projectName := kept _ hmade.projectName (by decide)
    environmentName := kept _ hmade.environmentName (by decide)
    clusterName := taken "cluster_name" (by decide) (by decide) fun _ => .nullableText cluster
    labels := taken "labels" (by decide) (by decide) .strings
    annotations := taken "annotations" (by decide) (by decide) .strings
    spec := taken "spec" (by decide) (by decide) (Spec.takes sorted spec)
    status := kept _ hmade.status (by decide)
    generation := kept _ hmade.generation (by decide)
    agentCreationTimestamp := kept _ hmade.agentCreationTimestamp (by decide)
    recordVersion := taken "record_version" (by decide) (by decide) fun _ => .int64 version
    syncStatus := taken "sync_status" (by decide) (by decide) (SyncStatus.takes synced)
    markedForDeletion := kept _ hmade.markedForDeletion (by decide)
    createdBy := kept _ hmade.createdBy (by decide)
    lastUpdatedBy := taken "last_updated_by" (by decide) (by decide) User.takes
    creationTime := kept _ hmade.creationTime (by decide)
    updateTime := taken "update_time" (by decide) (by decide) fun _ => .instant time }

end Edit

end FleetSync
