import FleetSync.Proofs.Interleaving.Ownership

/-!
# How confirmations are lost

A status report raises the version that the status names to the one that is stored
(`System.Observes.syncVersion`). Whoever queues a resource again, or writes that it failed, writes
the version that the status named when the resource was read (`Edit.copiesStatus`). A report does
not raise the version of the document, so no guard tells that one was written in the meantime. Then
the confirmation is gone (`System.Forgets`), and confirmations are lost in no other way
(`System.confirmations_kept_iff`).
-/

namespace FleetSync

namespace Edit

/-- Whether an edit writes the version that a status names as it was read. -/
def copiesStatus (e : Edit) : Bool :=
  match e.change with
  | .revise .. | .bury .. | .requeue _ | .fail .. => true
  | .attach _ | .observe .. | .detach _ => false

variable {e : Edit} {r : Resource}

theorem syncVersion_of_copiesStatus (h : e.copiesStatus = true) :
    (e.apply r).syncStatus.recordVersion = e.current.syncStatus.recordVersion := by
  rcases e with ⟨current, change⟩
  cases change <;> first | rfl | cases h

theorem syncVersion_of_observe {report : Wire.Report} {status : Option Observed}
    (h : e.change = .observe report status) :
    (e.apply r).syncStatus.recordVersion = e.current.recordVersion := by
  rw [apply, h]
  rfl

/-- An edit that neither copies a status nor writes a report keeps the version that is named. -/
theorem syncVersion_of_not_copiesStatus (h : e.copiesStatus = false)
    (hne : ∀ report status, e.change ≠ .observe report status) :
    (e.apply r).syncStatus.recordVersion = r.syncStatus.recordVersion := by
  rcases e with ⟨current, change⟩
  cases change with
  | observe report status => exact absurd rfl (hne report status)
  | attach cluster => rfl
  | detach time => rfl
  | _ => cases h

/-- An edit that copies a status goes by what was read. -/
theorem reads_of_copiesStatus {past : List Exchange} (read : e.Read past)
    (h : e.copiesStatus = true) : ∃ kind, Reads past kind e.current := by
  rcases read with ⟨cluster, he⟩ | read
  · rw [copiesStatus, he] at h
    cases h
  · exact read

end Edit

theorem Exchange.not_finds_of_claims {x : Exchange} {id : String} {v : Version}
    (h : x.Claims id v) (collection : String) (j : Json) : ¬ x.Finds collection j := by
  obtain ⟨⟨c, patch, hc⟩, -⟩ := h
  rintro (⟨filter, rfl⟩ | ⟨filter, js, rfl, -⟩) <;> cases hc

namespace System

variable {p : ControlPlane} {ms moves : List Move} {m : Move} {d : StoredDocument} {id : String}

/-- Once a status report is written, the status names the version that is stored. -/
theorem Observes.syncVersion (h : (after p moves).Observes (after p (moves ++ [m])) d)
    (hd : d ∈ (after p moves).documents) :
    ∃ d' ∈ (after p (moves ++ [m])).documents, d'.id = d.id ∧ d'.syncVersion = d.version := by
  obtain ⟨i, operation, past, x, report, makes, hop, hkind, -, claims⟩ := h
  obtain ⟨⟨collection, patch, hc⟩, hw⟩ := claims
  have deed := (sound p moves).deed makes ((advance p moves m).of_makes makes).1
  have unique : ∀ d' ∈ (after p moves).documents, d.id = d'.id → d = d' :=
    fun _ hd' => eq_of_id_eq p moves hd hd'
  revert deed unique
  generalize (after p moves).documents = docs
  generalize (after p (moves ++ [m])).documents = docs'
  rintro (⟨keep, -⟩ | _ | ⟨read, allowed, sound, fits, kind⟩) unique
  · rw [keep] at hw
    cases hw
  · cases hc
  · rename_i e r l l'
    obtain ⟨hg, hid, hv⟩ := Edit.guarded_of_call hc.symm
    have hmem : r.stored ∈ l ++ r.stored :: l' :=
      List.mem_append_right _ (List.mem_cons_self ..)
    obtain rfl := unique _ hmem (hid.symm.trans fits.id.symm)
    refine ⟨_, List.mem_append_right _ (List.mem_cons_self ..), Edit.id_apply .., ?_⟩
    -- Neither an update nor the report of a failure is what takes in a status report.
    obtain ⟨status, he⟩ : ∃ status, e.change = .observe report status := by
      rcases e with ⟨current, change⟩
      cases change with
      | observe report' status =>
        obtain rfl := Option.some.inj (hop.symm.trans allowed.1)
        exact ⟨status, rfl⟩
      | fail message time =>
        obtain ⟨report', hop', hfail, -⟩ := allowed
        obtain rfl := Option.some.inj (hop.symm.trans hop')
        cases hkind.symm.trans hfail
      | revise input user time cluster =>
        obtain ⟨⟨scope, rfl⟩, -⟩ := allowed
        cases hop
      | _ => cases hg
    rw [Resource.syncVersion_stored, Edit.syncVersion_of_observe he, hv]

/-- Whether the version that the status of a document names never goes down in a run. -/
def ConfirmationsKept (p : ControlPlane) (moves : List Move) (id : String) : Prop :=
  ∀ ms ms', ms <+: ms' → ms' <+: moves → ∀ d ∈ (after p ms).documents,
    ∀ d' ∈ (after p ms').documents, d.id = id → d'.id = id → d.syncVersion ≤ d'.syncVersion

/-- Whether from some moment to another a status report was written of a document at a version past
some other. -/
def ObservedSince (p : ControlPlane) (since moves : List Move) (id : String) (v : Version) : Prop :=
  ∃ ms m, since <+: ms ∧ ms ++ [m] <+: moves ∧ ∃ d ∈ (after p ms).documents, d.id = id ∧
    v < d.version ∧ (after p ms).Observes (after p (ms ++ [m])) d

/-- In a move a task writes the version that a status named when the task read the document, and
since then a status report was written of a version past that. -/
inductive Forgets (p : ControlPlane) (ms : List Move) (m : Move) :
    StoredDocument → StoredDocument → Prop
  | intro {i : Nat} {operation : Operation} {past past₀ : List Exchange} {x : Exchange} {e : Edit}
    {r : Resource} {kind : Kind} {ms₀ : List Move} {m₀ : Move}
    (makes : (after p ms).Makes i operation past ⟨e.call, .ok true⟩ (after p (ms ++ [m])))
    (copies : e.copiesStatus = true) (fits : e.Fits r) (before : ms₀ ++ [m₀] <+: ms)
    (asked : (after p ms₀).Makes i operation past₀ x (after p (ms₀ ++ [m₀])))
    (read : Reads [x] kind e.current)
    (overtaken : ObservedSince p (ms₀ ++ [m₀]) ms r.id e.current.syncStatus.recordVersion) :
    Forgets p ms m r.stored (e.apply r).stored

/-- Whether no task forgets a confirmation of a document in a run. -/
def NeverForgotten (p : ControlPlane) (moves : List Move) (id : String) : Prop :=
  ∀ ms m, ms ++ [m] <+: moves → ∀ d ∈ (after p ms).documents,
    ∀ d' ∈ (after p (ms ++ [m])).documents, d.id = id → ¬ Forgets p ms m d d'

/-- What a task has read it read in some move. -/
theorem asked_of_task {i : Nat} {t : Task} {kind : Kind} {r : Resource}
    (ht : (after p moves).tasks[i]? = some t) (read : Reads t.past kind r) :
    ∃ ms m, ms ++ [m] <+: moves ∧ ∃ past₀ y,
      (after p ms).Makes i t.operation past₀ y (after p (ms ++ [m])) ∧ Reads [y] kind r := by
  obtain ⟨y, hy, hfinds⟩ := read
  obtain ⟨past₀, later, hpast⟩ := List.append_of_mem hy
  obtain ⟨ms, m, hp, asked⟩ := System.made p moves ht hpast
  exact ⟨ms, m, hp, past₀, y, asked, y, List.mem_singleton_self y, hfinds⟩

/-- A task that edits by a reading made that reading in a move before. -/
theorem asked_of_reads {i : Nat} {operation : Operation} {past : List Exchange} {x : Exchange}
    {s' : System} {kind : Kind} {r : Resource} (makes : (after p moves).Makes i operation past x s')
    (read : Reads past kind r) : ∃ ms m, ms ++ [m] <+: moves ∧ ∃ past₀ y,
      (after p ms).Makes i operation past₀ y (after p (ms ++ [m])) ∧ Reads [y] kind r := by
  obtain ⟨rest, htask⟩ := makes.before
  exact asked_of_task htask read

/-- What a task reads is what a document that is stored then reads as. -/
theorem read_of_asked {i : Nat} {operation : Operation} {past : List Exchange} {x : Exchange}
    {kind : Kind} {r : Resource}
    (asked : (after p ms).Makes i operation past x (after p (ms ++ [m])))
    (read : Reads [x] kind r) : ∃ d ∈ (after p ms).documents, d.ReadsAs kind r := by
  obtain ⟨y, hy, j, hj, hdec⟩ := read
  obtain rfl := List.mem_singleton.1 hy
  obtain ⟨d, hd, hcol, hread⟩ := ((advance p ms m).of_makes asked).2.1 _ j hj
  exact ⟨d, hd, hcol, j, hread, hdec⟩

/-- What a task reads is stored then. -/
theorem stored_of_asked {i : Nat} {operation : Operation} {past : List Exchange} {x : Exchange}
    {kind : Kind} {r : Resource}
    (asked : (after p ms).Makes i operation past x (after p (ms ++ [m])))
    (read : Reads [x] kind r) : ∃ r₀ : Resource, r₀.stored ∈ (after p ms).documents ∧ r₀.Sound ∧
      r₀.ReadsAs r := by
  obtain ⟨d, hd, hcol, j, hread, hdec⟩ := read_of_asked asked read
  obtain ⟨r₀, hsound, rfl⟩ := sound p ms ms (List.prefix_refl _) d hd
  exact ⟨r₀, hd, hsound, Resource.readsAs_of_read (Kind.collection_inj hcol) hread hdec⟩

/-- A call that reads writes no report. -/
theorem Makes.not_observes {s s' : System} {i : Nat} {operation : Operation} {past : List Exchange}
    {x : Exchange} {kind : Kind} {r : Resource} (asked : s.Makes i operation past x s')
    (read : Reads [x] kind r) : ¬ s.Observes s' d := by
  rintro ⟨j, operation', past', y, report, makes, -, -, -, claims⟩
  obtain ⟨-, -, -, rfl⟩ := asked.unique makes
  obtain ⟨z, hz, j, hj, -⟩ := read
  obtain rfl := List.mem_singleton.1 hz
  exact Exchange.not_finds_of_claims claims _ j hj

/-- A confirmation is lost if a task writes a status by what it read before the report. -/
theorem ConfirmationsKept.never_forgotten (h : ConfirmationsKept p moves id) :
    NeverForgotten p moves id := by
  intro ms m hp d hd d' hd' hid forgets
  cases forgets with
  | @intro _ _ _ _ _ e r _ _ _ _ copies _ _ _ _ overtaken =>
    obtain ⟨ms₁, m₁, -, hle, d₁, hd₁, hid₁, hlt, observes⟩ := overtaken
    obtain ⟨d₂, hd₂, hid₂, hsync⟩ := observes.syncVersion hd₁
    have hmono := h _ _ (hle.trans (List.prefix_append ms [m])) hp d₂ hd₂ _ hd'
      ((hid₂.trans hid₁).trans hid) ((e.id_apply r).trans hid)
    rw [hsync, Resource.syncVersion_stored, Edit.syncVersion_of_copiesStatus copies] at hmono
    exact absurd hlt (Int.not_lt.2 hmono)

/-- A report on a version past the one that was read as confirmed was written after the reading, if
no confirmation was lost. -/
theorem ConfirmationsKept.read_before (h : ConfirmationsKept p moves id) {ms₀ ms₁ : List Move}
    {m₀ m₁ : Move} {i : Nat} {operation : Operation} {past : List Exchange} {x : Exchange}
    {kind : Kind} {r r₀ : Resource} (hp₀ : ms₀ ++ [m₀] <+: moves) (hp₁ : ms₁ ++ [m₁] <+: moves)
    (asked : (after p ms₀).Makes i operation past x (after p (ms₀ ++ [m₀])))
    (read : Reads [x] kind r) (hd₀ : r₀.stored ∈ (after p ms₀).documents) (hreads : r₀.ReadsAs r)
    (hid₀ : r₀.id = id) (hd : d ∈ (after p ms₁).documents) (hid : d.id = id)
    (observes : (after p ms₁).Observes (after p (ms₁ ++ [m₁])) d)
    (hlt : r.syncStatus.recordVersion < d.version) : ms₀ ++ [m₀] <+: ms₁ := by
  rcases List.prefix_or_prefix_of_prefix hp₀ hp₁ with hp | hp <;>
    rcases List.prefix_concat_iff.1 hp with heq | hp
  · obtain ⟨rfl, hm⟩ := List.append_inj' heq rfl
    obtain rfl := List.singleton_inj.1 hm
    exact absurd observes (asked.not_observes read)
  · exact hp
  · obtain ⟨rfl, hm⟩ := List.append_inj' heq rfl
    obtain rfl := List.singleton_inj.1 hm
    exact absurd observes (asked.not_observes read)
  · -- The reading would name the version of the report, or a later one.
    obtain ⟨d', hd', hid', hsync⟩ := observes.syncVersion hd
    have hmono := h _ _ hp ((List.prefix_append ms₀ [m₀]).trans hp₀) d' hd' _ hd₀
      (hid'.trans hid) hid₀
    rw [hsync, Resource.syncVersion_stored, ← hreads.syncVersion] at hmono
    exact absurd hlt (Int.not_lt.2 hmono)

/-- What goes down in a move is what a task forgets, if nothing went down before. -/
theorem ConfirmationsKept.forgets (h : ConfirmationsKept p moves id) {d' : StoredDocument}
    (hd : d ∈ (after p moves).documents) (hd' : d' ∈ (after p (moves ++ [m])).documents)
    (hid : d.id = id) (hid' : d'.id = d.id) (hlt : d'.syncVersion < d.syncVersion) :
    Forgets p moves m d d' := by
  rcases (sound p moves).change m hd hd' hid'.symm with rfl | hedit
  · exact absurd hlt (Int.lt_irrefl _)
  cases hedit with
  | @intro i operation past e r makes read _ hsound fits _ =>
    rw [Resource.syncVersion_stored, Resource.syncVersion_stored] at hlt
    cases copies : e.copiesStatus with
    | false =>
      refine absurd hlt (Int.not_lt.2 ?_)
      by_cases hobserve : ∃ report status, e.change = .observe report status
      · obtain ⟨report, status, he⟩ := hobserve
        have hg : e.isGuarded = true := by rw [Edit.isGuarded, he]
        rw [Edit.syncVersion_of_observe he, ← fits.version hg]
        exact hsound.agrees.le
      · have hne : ∀ report status, e.change ≠ .observe report status :=
          fun report status he => hobserve ⟨report, status, he⟩
        exact Int.le_of_eq (Edit.syncVersion_of_not_copiesStatus copies hne).symm
    | true =>
      rw [Edit.syncVersion_of_copiesStatus copies] at hlt
      obtain ⟨kind, hread⟩ := Edit.reads_of_copiesStatus read copies
      obtain ⟨ms₀, m₀, hp₀, past₀, x, asked, hread₀⟩ := asked_of_reads makes hread
      obtain ⟨r₀, hd₀, hsound₀, hreads⟩ := stored_of_asked asked hread₀
      have hid₀ : r₀.id = id := (hreads.id.symm.trans fits.id.symm).trans hid
      -- What the status names now is above what was read, so it was confirmed.
      have hne : r.stored.syncVersion ≠ 0 := by
        rw [Resource.syncVersion_stored]
        exact Int.ne_of_gt (Int.lt_of_le_of_lt (hreads.syncVersion ▸ hsound₀.agrees.nonneg) hlt)
      obtain ⟨ms₁, m₁, hp₁, d₁, hd₁, hid₁, hv₁, observes⟩ := confirmed p moves _ hd hne
      rw [Resource.syncVersion_stored] at hv₁
      have hlt₁ := hv₁ ▸ hlt
      have hle := h.read_before hp₀ hp₁ asked hread₀ hd₀ hreads hid₀ hd₁ (hid₁.trans hid)
        observes hlt₁
      exact .intro makes copies fits hp₀ asked hread₀ ⟨ms₁, m₁, hle, hp₁, d₁, hd₁, hid₁, hlt₁,
        observes⟩

/-- However operations interleave, the version that the status of a document names never goes down
just if no task writes the status by a reading from before a status report. -/
theorem confirmations_kept_iff (p : ControlPlane) (moves : List Move) (id : String) :
    ConfirmationsKept p moves id ↔ NeverForgotten p moves id := by
  refine ⟨ConfirmationsKept.never_forgotten, fun never => ?_⟩
  induction moves using List.reverseRecOn with
  | nil =>
    intro ms ms' _ hle d hd d' hd'
    obtain rfl := List.prefix_nil.1 hle
    cases hd'
  | append_singleton moves m ih =>
    have kept := ih fun ms m' hp => never ms m' (hp.trans (List.prefix_append moves [m]))
    intro ms ms' hp hle d hd d' hd' hid hid'
    refine descent_of_id p (R := fun d d' => d.syncVersion ≤ d'.syncVersion)
      (fun _ => Int.le_refl _) Int.le_trans hp (fun ms₁ m₁ _ hp₁ d₁ hd₁ d₂ hd₂ hid₁ hid₂ => ?_) hd
      hd' hid hid'
    refine Int.not_lt.1 fun hlt => ?_
    have hp₁ := hp₁.trans hle
    have hle₁ : ms₁ <+: moves := by
      rcases List.prefix_concat_iff.1 hp₁ with heq | hp₁
      · exact (List.append_inj' heq rfl).1 ▸ List.prefix_refl _
      · exact (List.prefix_append ms₁ [m₁]).trans hp₁
    have kept₁ : ConfirmationsKept p ms₁ id := fun ms ms' hp hle => kept ms ms' hp (hle.trans hle₁)
    have forgets := kept₁.forgets hd₁ hd₂ hid₁ (hid₂.trans hid₁.symm) hlt
    exact never ms₁ m₁ hp₁ d₁ hd₁ d₂ hd₂ hid₁ forgets

/-! ### A run -/

/-- The project is created, and an update reads it. -/
def untilReport : List Move :=
  .start (.create .system shopScope shopInput) :: turns 0 7 ++
    .start (.update .system shopScope shopInput) :: turns 1 3

/-- A status report on the version that the update has read is written. -/
def untilConfirmation : List Move :=
  untilReport ++ .start (.route (shopReport 1 .statusUpdate)) :: turns 2 2

/-- After that the update writes what it worked out before. -/
def forgettingRun : List Move := untilConfirmation ++ turns 1 1

theorem forgettingRun_documents :
    (∃ d ∈ (after .default untilConfirmation).documents, d.id = "7d1c52a0" ∧ d.syncVersion = 1) ∧
      ∃ d ∈ (after .default forgettingRun).documents, d.id = "7d1c52a0" ∧ d.version = 2 ∧
        d.syncVersion = 0 := by
  decide +kernel

/-- Not all confirmations are kept: in the run the update forgets that the first version was
confirmed. -/
theorem confirmation_lost : ¬ ConfirmationsKept .default forgettingRun "7d1c52a0" := by
  obtain ⟨⟨d, hd, hid, hv⟩, d', hd', hid', -, hv'⟩ := forgettingRun_documents
  intro kept
  have h := kept _ _ (List.prefix_append _ _) (List.prefix_refl _) d hd d' hd' hid hid'
  rw [hv, hv'] at h
  exact absurd h (by decide)

end System

end FleetSync
