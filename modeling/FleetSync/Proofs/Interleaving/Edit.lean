import FleetSync.Control.Change
import FleetSync.Control.Intake
import FleetSync.Control.Sweep
import FleetSync.Proofs.Store.StoredResource

/-!
# The edits of stored resources

Whoever changes a stored resource has read it before, and works out from that what some of its
fields become. The rest of the resource stays as it is by then (`Edit.apply`). What an update
writes, and what becomes of a report, is written only if the version is still the one that was read
(`Edit.isGuarded`); all other edits go by the id alone. `Edit.stored_apply` says that the store does
what the edit says, and `Edit.fits_of_matches?` to which resource it does so.
-/

namespace FleetSync

/-- Fields of which some are taken from others with the same names. -/
theorem Fields.get?_zipWith {α : Type} (names : List String) (n : String)
    {p q : List (String × α)} (h : p.map (·.1) = q.map (·.1)) :
    get? n (List.zipWith (fun a b => if a.1 ∈ names then b else a) p q) =
      if n ∈ names then get? n q else get? n p := by
  induction p generalizing q with
  | nil =>
    obtain rfl := List.map_eq_nil_iff.1 h.symm
    rw [List.zipWith_nil_left, ite_self]
  | cons a p ih =>
    obtain _ | ⟨b, q⟩ := q
    · cases h
    obtain ⟨k, v⟩ := a
    obtain ⟨k', w⟩ := b
    obtain ⟨hk, hpq⟩ := List.cons.inj h
    obtain rfl : k = k' := hk
    have hk : (if k ∈ names then (k, w) else (k, v)) = (k, if k ∈ names then w else v) := by
      split <;> rfl
    simp only [List.zipWith_cons_cons, hk, get?, ih hpq]
    by_cases hn : k = n
    · rw [if_pos hn, if_pos hn, if_pos hn, hn, apply_ite some]
    · rw [if_neg hn, if_neg hn, if_neg hn]

/-- What is done to a resource. -/
inductive Change where
  | attach (cluster : Option String)
  | revise (input : ResourceInput) (user : User) (time : Instant) (cluster : Option String)
  | bury (user : User) (time : Instant)
  | requeue (time : Instant)
  | observe (report : Wire.Report) (status : Option Observed)
  | fail (message : String) (time : Instant)
  | detach (time : Instant)

/-- The change of a resource as it was read. -/
structure Edit where
  current : Resource
  change : Change

namespace Edit

/-- A resource after an edit. -/
def apply (e : Edit) (r : Resource) : Resource :=
  match e.change with
  | .attach cluster => { r with clusterName := cluster }
  | .revise input user time cluster =>
    { r with
      labels := input.labels
      annotations := input.annotations
      spec := input.spec
      recordVersion := e.current.recordVersion.next
      syncStatus := e.current.syncStatus.queued .apply time
      clusterName := cluster
      lastUpdatedBy := user
      updateTime := time }
  | .bury user time =>
    { r with
      markedForDeletion := true
      syncStatus := e.current.syncStatus.queued .delete time
      lastUpdatedBy := user
      updateTime := time }
  | .requeue time =>
    { r with syncStatus := e.current.syncStatus.queued e.current.pendingAction time }
  | .observe report status =>
    { r with
      labels := report.object.labels
      annotations := report.object.annotations
      generation := report.object.generation
      agentCreationTimestamp := report.object.creationTimestamp
      status := status
      syncStatus := e.current.syncStatus.confirmed e.current.recordVersion
        report.object.deletionTimestamp.isSome report.timestamp }
  | .fail message time => { r with syncStatus := e.current.syncStatus.failed message time }
  | .detach time =>
    { r with
      spec := e.current.spec.clearBinding
      clusterName := none
      updateTime := time }

/-- The fields that an edit writes. -/
def written (e : Edit) : List String :=
  match e.change with
  | .attach _ => ["cluster_name"]
  | .revise .. => ["labels", "annotations", "spec", "record_version", "sync_status", "cluster_name",
      "last_updated_by", "update_time"]
  | .bury .. => ["marked_for_deletion", "sync_status", "last_updated_by", "update_time"]
  | .requeue _ | .fail .. => ["sync_status"]
  | .observe .. => ["labels", "annotations", "generation", "agent_creation_timestamp", "status",
      "sync_status"]
  | .detach _ => ["spec", "cluster_name", "update_time"]

/-- Whether an edit is made only at the version that was read. -/
def isGuarded (e : Edit) : Bool :=
  match e.change with
  | .revise .. | .observe .. | .fail .. => true
  | .attach _ | .bury .. | .requeue _ | .detach _ => false

/-- The fields that an edit writes, as it works them out. -/
def changes (e : Edit) : List (String × Json) :=
  e.written.map fun n => (n, (e.apply e.current).field n)

/-- The filter for the resource to be edited. -/
def filter (e : Edit) : Filter :=
  if e.isGuarded then .byIdAt e.current.id e.current.recordVersion else .byId e.current.id

/-- The call that makes an edit. -/
def call (e : Edit) : Call :=
  .patchOne e.current.kind.collection e.filter (.ofFields e.changes)

/-- Whether an edit is one of a stored resource. -/
structure Fits (e : Edit) (r : Resource) : Prop where
  kind : r.kind = e.current.kind
  id : r.id = e.current.id
  version : e.isGuarded = true → r.recordVersion = e.current.recordVersion

variable (e : Edit) (r : Resource)

/-- An edit writes what it worked out, and keeps what it does not write. -/
theorem field_apply (n : String) : (e.apply r).field n =
    if n ∈ e.written then (e.apply e.current).field n else r.field n := by
  have zip : ∃ p q, r.encode = .obj p ∧ (e.apply e.current).encode = .obj q ∧
      p.map (·.1) = q.map (·.1) ∧ (e.apply r).encode =
        .obj (List.zipWith (fun a b => if a.1 ∈ e.written then b else a) p q) := by
    refine ⟨_, _, rfl, rfl, rfl, ?_⟩
    rcases e with ⟨current, change⟩
    cases change <;> simp [Resource.encode, apply, written]
  obtain ⟨p, q, hp, hq, hpq, he⟩ := zip
  simp only [Resource.field, hp, hq, he, Json.field?, Fields.get?_zipWith e.written n hpq]
  split <;> rfl

theorem setFields_changes (n : String) :
    Patch.setFields (fun n => (r.field n).canonical) e.changes n =
      ((e.apply r).field n).canonical := by
  have set : ∀ (names : List String) (f g : String → Json),
      Patch.setFields f (names.map fun n => (n, g n)) n =
        if n ∈ names then (g n).canonical else f n := by
    intro names
    induction names with
    | nil => exact fun _ _ => rfl
    | cons m rest ih =>
      intro f g
      rw [Patch.setFields, List.map_cons, List.foldl_cons]
      refine (ih _ g).trans ?_
      by_cases hn : n = m
      · subst hn
        rw [Function.update_self, ite_self, if_pos (List.mem_cons_self ..)]
      · rw [Function.update_of_ne hn]
        simp only [List.mem_cons, hn, false_or]
  rw [changes, set, field_apply e r]
  split <;> rfl

/-- Edits that make the same call write the same. -/
theorem field_of_call_eq {e e' : Edit} (h : e.call = e'.call) {n : String} (hn : n ∈ e.written)
    (r : Resource) : (e'.apply r).field n = (e.apply e.current).field n := by
  rw [call, call, Call.patchOne.injEq] at h
  have hpatch : ∀ {cs cs' : List (String × Json)}, Patch.ofFields cs = Patch.ofFields cs' →
      cs = cs' := by
    refine fun hcs => (List.map_inj_right fun c c' hc => ?_).1 hcs
    simp only [PatchOp.set.injEq, List.cons.injEq, Step.field.injEq, Label.mk.injEq, and_true] at hc
    exact Prod.ext (String.toList_inj.1 hc.1) hc.2
  have hchanges := hpatch h.2.2
  have hwritten : e.written = e'.written := by
    have := congrArg (List.map (·.1)) hchanges
    simpa [changes, Function.comp_def] using this
  rw [field_apply, if_pos (hwritten ▸ hn)]
  rw [changes, changes, ← hwritten] at hchanges
  exact (Prod.mk.inj (List.map_inj_left.1 hchanges n hn)).2.symm

/-- An edit writes fields that are stored. -/
theorem names_stored : ∀ c ∈ e.changes, c.1 ∈ Resource.storedNames := by
  have names : ∀ n ∈ e.written, n ∈ Resource.storedNames := by
    rcases e with ⟨current, change⟩
    cases change <;> simp only [written] <;> decide
  intro c hc
  obtain ⟨n, hn, rfl⟩ := List.mem_map.1 hc
  exact names n hn

theorem changes_ne_nil : e.changes ≠ [] := by
  rcases e with ⟨current, change⟩
  cases change <;> exact nofun

/-- A patched resource is stored as the edited one. -/
theorem stored_apply {r : Resource} (hkind : (e.apply r).kind = r.kind) {body : Body}
    (h : (Patch.ofFields e.changes).applyTo? r.stored.body = some body) :
    { r.stored with body } = (e.apply r).stored := by
  refine r.patched_eq e.names_stored (fun n _ => e.setFields_changes r n) hkind ?_ ?_ h
  · rcases e with ⟨current, change⟩
    cases change <;> rfl
  · rcases e with ⟨current, change⟩
    cases change <;> rfl

theorem fits_of_matches? {r : Resource}
    (h : r.stored.matches? e.current.kind.collection e.filter = true) (h0 : 0 ≤ r.recordVersion)
    (hmax : r.recordVersion ≤ Nat.pow 2 63)
    (hcur : e.isGuarded = true → -(Nat.pow 2 63 : Int) ≤ e.current.recordVersion ∧
      e.current.recordVersion ≤ (Nat.pow 2 63 - 1 : Nat)) : e.Fits r := by
  rw [filter] at h
  split at h
  · rename_i hg
    obtain ⟨hv, hv'⟩ := hcur hg
    obtain ⟨hk, hid, hver⟩ := Resource.of_matches_byIdAt h h0 hmax hv hv'
    exact ⟨hk, hid, fun _ => hver⟩
  · rename_i hg
    obtain ⟨hk, hid⟩ := Resource.of_matches_byId h
    exact ⟨hk, hid, fun hg' => absurd hg' hg⟩

/-- An edit keeps the kind; a revision does if it asks for a resource of that kind. -/
theorem kind_apply {e : Edit} {r : Resource} (fits : e.Fits r)
    (revised : ∀ input user time cluster, e.change = .revise input user time cluster →
      e.current.kind = input.kind) : (e.apply r).kind = r.kind := by
  rcases e with ⟨current, change⟩
  cases change with
  | revise input user time cluster =>
    exact (revised input user time cluster rfl).symm.trans fits.kind.symm
  | detach time => exact (Spec.kind_clearBinding current.spec).trans fits.kind.symm
  | _ => rfl

@[simp] theorem id_apply (e : Edit) (r : Resource) : (e.apply r).id = r.id := by
  rcases e with ⟨current, change⟩
  cases change <;> rfl

/-- Only a revision changes the version, to the next one. -/
theorem version_apply {e : Edit} {r : Resource} (fits : e.Fits r) :
    (e.apply r).recordVersion = r.recordVersion ∨
      (∃ input user time cluster, e.change = .revise input user time cluster) ∧
        (e.apply r).recordVersion = r.recordVersion.next := by
  rcases e with ⟨current, change⟩
  cases change with
  | revise input user time cluster =>
    exact .inr ⟨⟨input, user, time, cluster, rfl⟩, congrArg Version.next (fits.version rfl).symm⟩
  | _ => exact .inl rfl

end Edit

namespace Resource

variable (r : Resource) (time : Instant)

@[simp] theorem kind_detach : (r.detach time).kind = r.kind := Spec.kind_clearBinding r.spec

@[simp] theorem mappingKey_detach : (r.detach time).mappingKey = r.mappingKey := by
  rw [mappingKey, kind_detach]
  rfl

/-- Detaching a resource makes an edit of it. -/
theorem patch_detachment : (r.detach time).patch (r.detach time).detachment =
    Program.patchOne r.kind.collection (.byId r.id)
      (.ofFields (Edit.changes ⟨r, .detach time⟩)) := by
  rw [patch, kind_detach]
  rfl

end Resource

end FleetSync
