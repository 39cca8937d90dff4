import FleetSync.Proofs.Sequence.DetachSummary
import FleetSync.Proofs.Sequence.Replays
import FleetSync.Proofs.Sequence.Sweeping

/-!
# What becomes of orphaned tombstones

When a project was detached no row is filed in its scope, and its document names no cluster. A sweep
files no rows there (`Stores.Attempts.vacant`), so a tombstone of the project finds no cluster when
it is its turn, and is removed (`Stores.Sweeps.removes`). Its turn comes if it is in the queue. So
just those tombstones remain that were not in the queue when the project was detached
(`System.orphans_remain_iff`), such as one that its agent was about to remove
(`System.orphan_remains`).
-/

namespace FleetSync

namespace StoredDocument

/-- Whether a document is the tombstone of a member of a scope. -/
def IsTombstoneOf (d : StoredDocument) (s : Scope) : Prop :=
  d.isMarked = true ∧ s.takes d.card.key = true

instance (d : StoredDocument) (s : Scope) : Decidable (d.IsTombstoneOf s) :=
  inferInstanceAs (Decidable (_ ∧ _))

/-- Whether a document is another one that may have been moved: it has the same id and the same
key, and it waits for its agent as the other one did. -/
structure MovesTo (d d' : StoredDocument) : Prop where
  id : d'.id = d.id
  key : d'.card.key = d.card.key
  marked : d'.isMarked = d.isMarked
  state : d'.syncState = d.syncState

variable {d d' : StoredDocument} {s : Scope}

theorem MovesTo.refl (d : StoredDocument) : d.MovesTo d := ⟨rfl, rfl, rfl, rfl⟩

theorem MovesTo.kind (h : d.MovesTo d') : d'.kind = d.kind := congrArg MappingKey.kind h.key

theorem MovesTo.isTombstoneOf_iff (h : d.MovesTo d') :
    d'.IsTombstoneOf s ↔ d.IsTombstoneOf s := by
  rw [IsTombstoneOf, IsTombstoneOf, h.marked, h.key]

theorem TakenOff.movesTo (h : d.TakenOff d') : d.MovesTo d' := by
  have key := h.key
  obtain ⟨r, spec, time, rfl, -, -, rfl⟩ := h
  refine ⟨rfl, key, ?_, ?_⟩
  · rw [Resource.isMarked_stored, Resource.isMarked_stored]
    rfl
  · rw [Resource.syncState_stored, Resource.syncState_stored]
    rfl

/-- A project that was taken off its cluster names none. -/
theorem TakenOff.specCluster? (h : d.TakenOff d') (hk : d'.kind = .project) :
    d'.specCluster? = none := by
  obtain ⟨r, spec, time, rfl, -, -, rfl⟩ := h
  rw [Resource.kind_stored] at hk
  refine (Resource.specCluster?_stored _ hk).trans ?_
  exact spec.bound_clearBinding

theorem Outlasts.movesTo {docs : List StoredDocument} (h : d.Outlasts docs (some d')) :
    d.MovesTo d' := by
  cases h with
  | @moved r cluster due stored =>
    subst stored
    refine ⟨rfl, ?_, ?_, ?_⟩
    · rw [Resource.card_stored, Resource.card_stored]
      rfl
    · rw [Resource.isMarked_stored, Resource.isMarked_stored]
    · rw [Resource.syncState_stored, Resource.syncState_stored]
  | other => exact .refl d

/-- What is in the queue is due, if it has waited since before the cutoff. -/
theorem isDue_iff (sound : ∃ r : Resource, r.stored = d) (back : d.ReadsBack) {cutoff : Cutoff}
    (stale : ∀ read, d.reading? = some read → read.isStale cutoff = true) :
    d.isDue cutoff = true ↔ d.syncState = SyncState.inQueue.name := by
  obtain ⟨r, rfl⟩ := sound
  have ⟨read, hread⟩ := back.exists_reading?
  have gives := gives_of_reading? back.1 hread
  rw [isDue, hread, Option.any_some, stale read hread, Bool.and_true, decide_eq_true_eq,
    Resource.syncState_stored, ← gives.state]
  exact ⟨fun h => congrArg _ h, SyncState.name_inj⟩

end StoredDocument

variable {p : ControlPlane} {a q : String}

namespace Stores

variable {s s' before after : Stores} {r : Resource} {docs : List StoredDocument}
  {faults : List (Option OpError)} {summary : DetachSummary} {id : String}

/-! ## What a detachment leaves -/

/-- Without a purge all members stay, and what is handled is taken off its cluster. -/
theorem DetachesTo.stays (h : before.DetachesTo p (.project a q) false summary after) :
    ∃ kept : StoredDocument → StoredDocument, after.documents = before.documents.map kept ∧
      ∀ d ∈ before.documents, d.MovesTo (kept d) ∧ (p.handles d.kind = true →
        (Scope.project a q).takes d.card.key = true → d.kind = .project →
          (kept d).specCluster? = none) := by
  obtain ⟨fate, hdocs, fares⟩ := h.documents
  have stays : ∀ d ∈ before.documents, fate d = some ((fate d).getD d) ∧
      d.MovesTo ((fate d).getD d) ∧ (p.handles d.kind = true →
        (Scope.project a q).takes d.card.key = true → d.kind = .project →
          ((fate d).getD d).specCluster? = none) := by
    intro d hd
    have hfate := fares d hd
    generalize fate d = o at hfate
    cases hfate with
    | deleted _ deletes =>
      rw [Scope.deletes, Bool.false_and, Bool.and_false] at deletes
      cases deletes
    | released _ _ off =>
      exact ⟨rfl, off.movesTo, fun _ _ hk => off.specCluster? (off.kind.trans hk)⟩
    | other hout =>
      refine ⟨rfl, .refl d, fun handled ht _ => ?_⟩
      rw [hout (List.contains_iff_mem.1 handled)] at ht
      cases ht
  refine ⟨fun d => (fate d).getD d, ?_, fun d hd => (stays d hd).2⟩
  rw [hdocs, List.filterMap_congr fun d hd => (stays d hd).1]
  exact congrFun List.filterMap_eq_map' _

/-! ## What a sweep does to tombstones -/

/-- A member of a project whose scope has no rows belongs to no cluster, unless it is the project
and names one. -/
theorem Orderly.homeless (ord : s.Orderly)
    (vacant : ∀ row ∈ s.rows, row.inScope (.project a q) = false) {d : StoredDocument}
    (ht : (Scope.project a q).takes d.card.key = true)
    (bare : d.kind = .project → d.specCluster? = none) : s.home? d = none := by
  rw [home?]
  split
  · rename_i hk
    exact bare hk
  · exact Ledger.resolve_of_vacant ord.rows vacant ht

theorem Posts.home {d : StoredDocument} {x : String}
    (h : s.Posts p d faults (.ok (some x)) s') : s.home? d = some x := by
  cases h with
  | sent tells => exact tells.cluster

/-- No rows come to the scope of a project whose members belong to no cluster. -/
theorem Attempts.vacant (h : s.Attempts p r faults s') (ord : s.Orderly)
    (hr : r.stored ∈ s.documents) (vacant : ∀ row ∈ s.rows, row.inScope (.project a q) = false)
    (homeless : (Scope.project a q).takes r.mappingKey = true → s.home? r.stored = none) :
    ∀ row ∈ s'.rows, row.inScope (.project a q) = false := by
  have placed := ord.placed_key hr
  cases h with
  | @moved cluster s₁ posts _ =>
    intro row hrow
    rw [moveTo] at hrow
    split at hrow
    · exact vacant row (posts.same.2.1 ▸ hrow)
    rcases Ledger.mem_fileIn.1 hrow with ⟨hrow, -⟩ | ⟨x, rfl, rfl⟩
    · exact vacant row (posts.same.2.1 ▸ hrow)
    · rw [placed.inScope_row, Bool.eq_false_iff]
      intro ht
      cases posts.home.symm.trans (homeless ht)
  | removed posts =>
    intro row hrow
    exact vacant row (posts.same.2.1 ▸ (List.mem_filter.1 hrow).1)
  | failed posts => exact posts.same.2.1 ▸ vacant

/-- A tombstone that belongs to no cluster is removed when it is its turn. -/
theorem Attempts.removes (h : s.Attempts p r faults s') (homeless : s.home? r.stored = none)
    (marked : r.markedForDeletion = true) : ∀ d ∈ s'.documents, d.id ≠ r.id := by
  cases h with
  | @moved cluster _ posts stays =>
    cases posts with
    | sent tells => cases tells.cluster.symm.trans homeless
    | homeless => exact absurd ⟨rfl, marked⟩ stays
  | @removed _ s₁ _ =>
    intro d hd
    rw [documents_tell, documents_drop] at hd
    exact of_decide_eq_true (List.mem_filter.1 hd).2
  | failed posts =>
    cases posts with
    | unpublished tells => cases tells.cluster.symm.trans homeless
    | tooLarge tells => cases tells.cluster.symm.trans homeless

/-- Documents that are left were there before. -/
theorem Outlasting.origin (h : s.Outlasting docs s') {d' : StoredDocument}
    (hd : d' ∈ s'.documents) : ∃ d ∈ s.documents, d.MovesTo d' := by
  obtain ⟨fate, hdocs, outlasts⟩ := h
  rw [hdocs] at hd
  obtain ⟨d, hd, hfate⟩ := List.mem_filterMap.1 hd
  exact ⟨d, hd, (hfate ▸ outlasts d hd).movesTo⟩

/-- The tombstones of a project whose scope has no rows are removed, if the project names no cluster
when it is swept itself. -/
theorem Sweeps.removes (h : s.Sweeps p docs faults s') (ord : s.Orderly)
    (stored : ∀ d ∈ docs, d ∈ s.documents) (nodup : (docs.map (·.id)).Nodup)
    (vacant : ∀ row ∈ s.rows, row.inScope (.project a q) = false)
    (bare : ∀ d ∈ docs, (Scope.project a q).takes d.card.key = true → d.kind = .project →
      d.specCluster? = none) {d : StoredDocument} (hd : d ∈ docs)
    (tombstone : d.IsTombstoneOf (.project a q)) : ∀ d' ∈ s'.documents, d'.id ≠ d.id := by
  induction h with
  | nil => cases hd
  | @cons s s₁ s₂ r docs _ _ first others ih =>
    obtain ⟨hr, hothers⟩ := List.forall_mem_cons.1 stored
    obtain ⟨hbare, bare⟩ := List.forall_mem_cons.1 bare
    rw [List.map_cons, List.nodup_cons] at nodup
    have homeless : (Scope.project a q).takes r.stored.card.key = true → s.home? r.stored = none :=
      fun ht => ord.homeless vacant ht (hbare ht)
    have outlasting := first.outlasting ord hr
    have ord₁ := first.orderly ord hr
    have keeps : ∀ d ∈ docs, d ∈ s₁.documents := fun d hd =>
      outlasting.mem (hothers d hd) fun h =>
        nodup.1 (congrArg StoredDocument.id (List.mem_singleton.1 h) ▸ List.mem_map_of_mem hd)
    rcases List.mem_cons.1 hd with rfl | hd
    · -- What is removed does not come back with the others.
      intro d' hd' hid
      obtain ⟨d₁, hd₁, moves⟩ := (others.outlasting ord₁ keeps nodup.2).1.origin hd'
      refine first.removes (homeless tombstone.2) ?_ d₁ hd₁ (moves.id.symm.trans hid)
      exact r.isMarked_stored.symm.trans tombstone.1
    · refine ih ord₁ keeps nodup.2 (first.vacant ord hr vacant fun ht => ?_) bare hd
      rw [r.card_stored] at homeless
      exact homeless ht

/-- Of the tombstones of such a project just those remain that were not swept. -/
theorem Sweeps.tombstones_iff (h : s.Sweeps p docs faults s') (ord : s.Orderly)
    (stored : ∀ d ∈ docs, d ∈ s.documents) (nodup : (docs.map (·.id)).Nodup)
    (vacant : ∀ row ∈ s.rows, row.inScope (.project a q) = false)
    (bare : ∀ d ∈ docs, (Scope.project a q).takes d.card.key = true → d.kind = .project →
      d.specCluster? = none) (id : String) :
    (∃ d ∈ s'.documents, d.id = id ∧ d.IsTombstoneOf (.project a q)) ↔
      ∃ d ∈ s.documents, d.id = id ∧ d.IsTombstoneOf (.project a q) ∧ d ∉ docs := by
  have outlasting := (h.outlasting ord stored nodup).1
  constructor
  · rintro ⟨d', hd', rfl, tombstone⟩
    obtain ⟨d, hd, moves⟩ := outlasting.origin hd'
    have tombstone := moves.isTombstoneOf_iff.1 tombstone
    exact ⟨d, hd, moves.id.symm, tombstone, fun swept =>
      h.removes ord stored nodup vacant bare swept tombstone d' hd' moves.id⟩
  · rintro ⟨d, hd, hid, tombstone, stays⟩
    exact ⟨d, outlasting.mem hd stays, hid, tombstone⟩

end Stores

namespace System

variable {ms ms₁ ms₂ : List Move} {user : User} {summary : DetachSummary}

/-- When a project was detached without a purge and all that waits was sent once more, whatever
publications failed, just those of its tombstones remain whose kind is not registered, or which were
not in the queue. -/
theorem orphans_remain_iff {age : Nat} (seq : Sequential p ms₁) (nodup : p.kinds.Nodup)
    (detached : Carried p ms (.detachScope user (.project a q) false) ms₁)
    (ok : (after p ms₁).last? = some (.ok (.detachment summary)))
    (readBack : ∀ d ∈ (after p ms₁).documents, d.ReadsBack)
    (swept : Carried p ms₁ (.resyncStale age) ms₂) (only : OnlyBusFails p ms₁ ms₂)
    (fits : age ≤ ControlPlane.maxAge) :
    ∃ t time, (after p ms₂).tasks = (after p ms₁).tasks ++ [t] ∧
      t.operation = .resyncStale age ∧ t.past.head? = some ⟨.now, time⟩ ∧
      ∀ cutoff, time.back? age = some cutoff →
        (∀ d ∈ (after p ms₁).documents, ∀ r, d.reading? = some r → r.isStale cutoff = true) →
        ∀ id, (∃ d ∈ (after p ms₂).documents, d.id = id ∧ d.IsTombstoneOf (.project a q)) ↔
          ∃ d ∈ (after p ms).documents, d.id = id ∧ d.IsTombstoneOf (.project a q) ∧
            (p.handles d.kind = true → d.syncState ≠ SyncState.inQueue.name) := by
  have detaches := detached.ensures_last
    (ControlPlane.detachment_yields nodup (keyed (seq.of_prefix detached.prefix)) user) ok summary
    rfl
  obtain ⟨kept, hdocs, stays⟩ := detaches.stays
  have ord := orderly seq readBack
  obtain ⟨t, time, htasks, hop, hhead, hswept⟩ := swept.sweeps ord nodup readBack only fits
  refine ⟨t, time, htasks, hop, hhead, fun cutoff hback stale id => ?_⟩
  let due := (after p ms₁).world.stores.due p cutoff
  have stored : ∀ d ∈ due, d ∈ (after p ms₁).world.stores.documents :=
    fun d hd => (Stores.mem_due.1 hd).1
  have vacant : ∀ row ∈ (after p ms₁).world.stores.rows, row.inScope (.project a q) = false := by
    intro row hrow
    rw [detaches.rows, List.mem_filter] at hrow
    simpa using hrow.2
  -- What was kept is due if it was in the queue before.
  have due_iff : ∀ d ∈ (after p ms).documents, kept d ∈ due ↔
      p.handles d.kind = true ∧ d.syncState = SyncState.inQueue.name := by
    intro d hd
    have moves := (stays d hd).1
    have hkept : kept d ∈ (after p ms₁).documents := by
      rw [← stores_documents, hdocs]
      exact List.mem_map_of_mem hd
    obtain ⟨r, -, hr⟩ := (tidy p ms₁).sound _ hkept
    rw [Stores.mem_due, StoredDocument.isDue_iff ⟨r, hr⟩ (readBack _ hkept) (stale _ hkept),
      moves.kind, moves.state]
    exact ⟨fun h => ⟨List.contains_iff_mem.2 h.2.1, h.2.2⟩,
      fun h => ⟨hkept, List.contains_iff_mem.1 h.1, h.2⟩⟩
  have bare : ∀ d ∈ due, (Scope.project a q).takes d.card.key = true → d.kind = .project →
      d.specCluster? = none := by
    intro d hdue ht hk
    obtain ⟨d, hd, rfl⟩ := List.mem_map.1 (hdocs ▸ stored d hdue)
    obtain ⟨moves, bare⟩ := stays d hd
    rw [moves.kind] at hk
    rw [moves.key] at ht
    exact bare ((due_iff d hd).1 hdue).1 ht hk
  have remains := (hswept cutoff hback).2.tombstones_iff ord stored (ord.nodup_due nodup cutoff)
    vacant bare id
  refine remains.trans ⟨?_, ?_⟩
  · rintro ⟨d', hd', rfl, tombstone, hdue⟩
    rw [hdocs] at hd'
    obtain ⟨d, hd, rfl⟩ := List.mem_map.1 hd'
    have moves := (stays d hd).1
    exact ⟨d, hd, moves.id.symm, moves.isTombstoneOf_iff.1 tombstone, fun handled queued =>
      hdue ((due_iff d hd).2 ⟨handled, queued⟩)⟩
  · rintro ⟨d, hd, rfl, tombstone, other⟩
    have moves := (stays d hd).1
    refine ⟨kept d, hdocs ▸ List.mem_map_of_mem hd, moves.id, moves.isTombstoneOf_iff.2 tombstone,
      fun hdue => ?_⟩
    obtain ⟨handled, queued⟩ := (due_iff d hd).1 hdue
    exact other handled queued

/-! ### Runs -/

/-- A report that the project, as it was created, is about to be removed. -/
def deletingReport : Wire.Report :=
  { shopReport 1 .statusUpdate with object.deletionTimestamp := some default }

/-- The project is deleted, and its agent may report that it is about to remove it. -/
def buriedShopRun (reported : Bool) : List Move :=
  if reported then deletedRun ++ carryOut 2 "5e9b4f36" (.route deletingReport) 3 else deletedRun

/-- How many operations that were. -/
def buriedShopTasks (reported : Bool) : Nat := if reported then 3 else 2

/-- Then the project is detached. -/
def orphanedRun (reported : Bool) : List Move :=
  buriedShopRun reported ++
    carryOut (buriedShopTasks reported) "8a410000" (.detachScope .system shopScope false) 14

/-- Then all that waits is sent once more. -/
def sweptOrphanRun (reported : Bool) : List Move :=
  orphanedRun reported ++ .start (.resyncStale 0) ::
    List.replicate 12 (laterTurn (buriedShopTasks reported + 1) none)

theorem orphanRuns_documents : ∀ reported,
    ((after .default createdRun).AtRest ∧ (after .default deletedRun).AtRest ∧
      (after .default (buriedShopRun reported)).AtRest ∧
      (after .default (orphanedRun reported)).AtRest ∧
      (after .default (sweptOrphanRun reported)).AtRest) ∧
    ((after .default (orphanedRun reported)).last? = some (.ok (.detachment ⟨1, ⟨1, 0⟩⟩)) ∧
      (after .default (sweptOrphanRun reported)).last? = some (.ok (.sweep (.swept 0)))) ∧
    (∀ d ∈ (after .default (orphanedRun reported)).documents, d.ReadsBack ∧
      d.reading?.all (·.isStale laterCutoff) = true) ∧
    (OnlyBusFails .default (orphanedRun reported) (sweptOrphanRun reported) ∧
      (after .default (sweptOrphanRun reported)).Served ∧
      ∀ t ∈ (after .default (sweptOrphanRun reported)).tasks, t.faults.all (·.isNone) = true) ∧
    (after .default (sweptOrphanRun reported)).tasks.getLast?.bind timeOf = some laterTime ∧
    (∃ d ∈ (after .default (buriedShopRun reported)).documents, d.IsTombstoneOf shopScope) ∧
    (reported = false → ∀ d ∈ (after .default (buriedShopRun reported)).documents,
      d.syncState = SyncState.inQueue.name) ∧
    (reported = true → ∃ d ∈ (after .default (sweptOrphanRun reported)).documents,
      d.IsTombstoneOf shopScope) := by
  decide +kernel

theorem sequential_orphanedRun (reported : Bool) :
    Sequential .default (orphanedRun reported) := by
  obtain ⟨⟨created, deleted, buried, -⟩, -⟩ := orphanRuns_documents reported
  have seq := sequential_createdRun.carryOut created 1 "5e9b4f36"
    (.delete .system .project shopScope "shop") 6
  have seq : Sequential .default (buriedShopRun reported) := by
    cases reported with
    | false => exact seq
    | true => exact seq.carryOut deleted 2 "5e9b4f36" (.route deletingReport) 3
  exact seq.carryOut buried _ "8a410000" _ 14

theorem carried_orphanedRun (reported : Bool) :
    Carried .default (buriedShopRun reported) (.detachScope .system shopScope false)
      (orphanedRun reported) := by
  obtain ⟨⟨-, -, buried, orphaned, -⟩, -⟩ := orphanRuns_documents reported
  exact carried_carryOut buried _ "8a410000" _ 14 orphaned

theorem carried_sweptOrphanRun (reported : Bool) :
    Carried .default (orphanedRun reported) (.resyncStale 0) (sweptOrphanRun reported) := by
  obtain ⟨⟨-, -, -, orphaned, swept⟩, -⟩ := orphanRuns_documents reported
  exact ⟨orphaned, ⟨_, rfl, noStart_turns _ _ 12⟩, swept⟩

/-- The tombstone of a project that waits for its agent is removed. -/
theorem orphans_remain_iff_queued :
    (∃ d ∈ (after .default (buriedShopRun false)).documents, d.IsTombstoneOf shopScope) ∧
      ∀ d ∈ (after .default (sweptOrphanRun false)).documents, ¬ d.IsTombstoneOf shopScope := by
  obtain ⟨-, ⟨ok, -⟩, readings, ⟨only, -⟩, told, tombstone, queued, -⟩ :=
    orphanRuns_documents false
  obtain ⟨t, time, htasks, -, hhead, remain⟩ := orphans_remain_iff (sequential_orphanedRun false)
    (by decide) (carried_orphanedRun false) ok (fun d hd => (readings d hd).1)
    (carried_sweptOrphanRun false) only (Nat.zero_le _)
  rw [htasks, List.getLast?_concat, Option.bind_some, timeOf_eq hhead] at told
  obtain rfl := Option.some.inj told
  have stale : ∀ d ∈ (after .default (orphanedRun false)).documents, ∀ r, d.reading? = some r →
      r.isStale laterCutoff = true := by
    intro d hd r hr
    have hall := (readings d hd).2
    rwa [hr] at hall
  refine ⟨tombstone, fun d hd hmarked => ?_⟩
  obtain ⟨d₀, hd₀, -, -, other⟩ := (remain laterCutoff back?_laterTime stale d.id).1
    ⟨d, hd, rfl, hmarked⟩
  exact other (List.contains_iff_mem.2 d₀.kind.mem_all) (queued rfl d₀ hd₀)

/-- Not every tombstone of a detached project is removed by a sweep in which nothing fails and for
which everything is stale: that of a project which its agent is about to remove stays. -/
theorem orphan_remains :
    Sequential .default (orphanedRun true) ∧
    Carried .default (buriedShopRun true) (.detachScope .system shopScope false)
      (orphanedRun true) ∧
    (after .default (orphanedRun true)).last? = some (.ok (.detachment ⟨1, ⟨1, 0⟩⟩)) ∧
    Carried .default (orphanedRun true) (.resyncStale 0) (sweptOrphanRun true) ∧
    (after .default (sweptOrphanRun true)).last? = some (.ok (.sweep (.swept 0))) ∧
    ((after .default (sweptOrphanRun true)).Served ∧
      ∀ t ∈ (after .default (sweptOrphanRun true)).tasks, t.faults.all (·.isNone) = true) ∧
    (after .default (sweptOrphanRun true)).tasks.getLast?.bind timeOf = some laterTime ∧
    laterTime.back? 0 = some laterCutoff ∧
    (∀ d ∈ (after .default (orphanedRun true)).documents, d.ReadsBack ∧
      d.reading?.all (·.isStale laterCutoff) = true) ∧
    ∃ d ∈ (after .default (sweptOrphanRun true)).documents, d.IsTombstoneOf shopScope := by
  obtain ⟨-, ⟨detached, swept⟩, readings, ⟨-, served, faultless⟩, told, -, -, remains⟩ :=
    orphanRuns_documents true
  exact ⟨sequential_orphanedRun true, carried_orphanedRun true, detached,
    carried_sweptOrphanRun true, swept, ⟨served, faultless⟩, told, back?_laterTime, readings,
    remains rfl⟩

end System

end FleetSync
