import FleetSync.Proofs.Interleaving.Ownership

/-!
# How final tombstones are

A document that is marked for deletion stays marked. Its version, what is asked of its agent and
its spec as far as updates go stay as well (`System.TombstoneFinal`) so long as no task writes its
status by a reading from before the mark (`System.Overridden`), and not a move longer: nothing
guards against such a write, for a mark does not raise the version. What a status asks for is what
the mark says, both in documents without a mark (`System.live_applies`) and in those with one that
nobody has overridden (`System.Marks.deletes_until`).
-/

namespace FleetSync

namespace Resource

variable {r : Resource}

theorem pendingAction_eq_apply : r.pendingAction = .apply ↔ r.markedForDeletion = false := by
  cases h : r.markedForDeletion <;> simp [pendingAction, h]

theorem pendingAction_eq_delete : r.pendingAction = .delete ↔ r.markedForDeletion = true := by
  cases h : r.markedForDeletion <;> simp [pendingAction, h]

/-- If the status of a resource asks for what its mark says, so does the status that was read. -/
theorem ReadsAs.pending {read : Resource} (h : r.ReadsAs read)
    (hr : r.syncStatus.action = r.pendingAction) : read.syncStatus.action = read.pendingAction := by
  rw [h.action, hr, pendingAction, pendingAction, h.markedForDeletion]

end Resource

theorem SyncAction.name_inj {a b : SyncAction} (h : a.name = b.name) : a = b := by
  cases a <;> cases b <;> first | rfl | exact absurd h (by decide)

namespace Edit

/-- What an edit asks of the agent, if it writes that. -/
def asked (e : Edit) : Option SyncAction :=
  match e.change with
  | .revise .. => some .apply
  | .bury .. => some .delete
  | .requeue _ | .observe .. | .fail .. => some e.current.pendingAction
  | .attach _ | .detach _ => none

/-- Whether an edit asks an agent to apply a resource that was not marked when it was read. -/
def revives (e : Edit) : Bool := !e.current.markedForDeletion && e.asked == some .apply

variable {e : Edit} {r : Resource} {operation : Operation} {past : List Exchange}

theorem reads_of_asked {a : SyncAction} (read : e.Read past) (h : e.asked = some a) :
    ∃ kind, Reads past kind e.current := by
  rcases read with ⟨cluster, he⟩ | read
  · rw [asked, he] at h
    cases h
  · exact read

/-- What an edit asks for is stored, if the status that was read asked for what the mark said. -/
theorem action_apply (h : ∀ a, e.asked = some a →
    e.current.syncStatus.action = e.current.pendingAction) :
    (e.apply r).syncStatus.action = e.asked.getD r.syncStatus.action := by
  rcases e with ⟨current, change⟩
  cases change with
  | observe report status => exact h _ rfl
  | fail message time => exact h _ rfl
  | _ => rfl

theorem revives_of_asked (allowed : e.Allowed operation past) (h : e.asked = some .apply) :
    e.revives = true := by
  have live : e.current.markedForDeletion = false := by
    rcases e with ⟨current, change⟩
    cases change with
    | revise input user time cluster => exact allowed.2.2.1
    | bury user time => cases h
    | attach cluster => cases h
    | detach time => cases h
    | _ => exact Resource.pendingAction_eq_apply.1 (Option.some.inj h)
  rw [revives, live, h]
  rfl

/-- A deletion is asked for by setting the mark, or where it was read. -/
theorem marked_of_asked (h : e.asked = some .delete) :
    e.current.markedForDeletion = true ∨ (e.apply r).markedForDeletion = true := by
  rcases e with ⟨current, change⟩
  cases change with
  | revise input user time cluster => cases h
  | bury user time => exact .inr rfl
  | attach cluster => cases h
  | detach time => cases h
  | _ => exact .inl (Resource.pendingAction_eq_delete.1 (Option.some.inj h))

/-- The mark is set along with the request to delete. -/
theorem deletes_of_marked (hr : r.markedForDeletion = false)
    (h : (e.apply r).markedForDeletion = true) : (e.apply r).syncStatus.action = .delete := by
  rcases e with ⟨current, change⟩
  cases change with
  | bury user time => rfl
  | _ => exact absurd (hr.symm.trans h) Bool.false_ne_true

theorem asked_of_spec_written (h : "spec" ∈ e.written) :
    e.asked = some .apply ∨ ∃ time, e.change = .detach time := by
  rcases e with ⟨current, change⟩
  cases change with
  | revise input user time cluster => exact .inl rfl
  | detach time => exact .inr ⟨time, rfl⟩
  | _ =>
    simp only [written] at h
    exact absurd h (by decide)

end Edit

namespace System

variable {p : ControlPlane} {moves ms : List Move} {m : Move} {d : StoredDocument}

/-- The agent of a document without a mark is asked to apply it. -/
theorem live_applies (p : ControlPlane) (moves : List Move) : ∀ d ∈ (after p moves).documents,
    d.isMarked = false → d.action = SyncAction.apply.name := by
  refine always p (P := fun _ d => d.isMarked = false → d.action = SyncAction.apply.name)
    (fun moves m ih d' hd' hlive => ?_) moves
  rcases (sound p moves).came m hd' with hd' | hnew | ⟨d, hd, hedit⟩
  · exact ih moves (List.prefix_refl _) d' hd' hlive
  · cases hnew with
    | intro _ draft _ => rw [Resource.action_stored, draft]; rfl
  · cases hedit with
    | @intro i operation past e r makes read allowed _ fits hkind =>
      -- It was live before as well, and so it was when it was read.
      have live := (Edit.keeps_apply hkind).live hlive
      have current : ∀ a, e.asked = some a → e.current.markedForDeletion = false ∧
          e.current.syncStatus.action = e.current.pendingAction := by
        intro a ha
        obtain ⟨kind, hread⟩ := Edit.reads_of_asked read ha
        obtain ⟨ms, hms, r₀, hd₀, hid, -, hreads⟩ := (sound p moves).reading makes hread fits
        have live₀ := (kept p hms hd₀ hd hid).live live
        have happly := ih ms hms _ hd₀ live₀
        rw [Resource.isMarked_stored] at live₀
        rw [Resource.action_stored] at happly
        refine ⟨hreads.markedForDeletion.trans live₀, hreads.pending ?_⟩
        rw [SyncAction.name_inj happly, Resource.pendingAction_eq_apply.2 live₀]
      rw [Resource.action_stored, Edit.action_apply fun a ha => (current a ha).2]
      cases hask : e.asked with
      | none =>
        have h := ih moves (List.prefix_refl _) _ hd live
        rwa [Resource.action_stored] at h
      | some a =>
        rw [Resource.isMarked_stored] at hlive
        cases a with
        | apply => rfl
        | delete =>
          rcases Edit.marked_of_asked (r := r) hask with h | h
          · exact absurd ((current _ hask).1.symm.trans h) Bool.false_ne_true
          · exact absurd (hlive.symm.trans h) Bool.false_ne_true

/-! ### Marks -/

/-- In a move a document came to be marked for deletion. -/
structure Marks (p : ControlPlane) (ms : List Move) (m : Move) (d : StoredDocument) : Prop where
  live : ∃ d₀ ∈ (after p ms).documents, d₀.id = d.id ∧ d₀.isMarked = false
  stored : d ∈ (after p (ms ++ [m])).documents
  marked : d.isMarked = true

/-- In a move a task writes the status of a document by a reading in which it was not marked, and so
asks the agent to apply it. -/
inductive Overridden (s s' : System) : StoredDocument → StoredDocument → Prop
  | intro {i : Nat} {operation : Operation} {past : List Exchange} {e : Edit} {r : Resource}
    {kind : Kind} (makes : s.Makes i operation past ⟨e.call, .ok true⟩ s')
    (read : Reads past kind e.current) (revives : e.revives = true) (fits : e.Fits r) :
    Overridden s s' r.stored (e.apply r).stored

/-- Whether a document is never overridden from some moment to another. -/
def NeverOverridden (p : ControlPlane) (since moves : List Move) (id : String) : Prop :=
  ∀ ms m, since <+: ms → ms ++ [m] <+: moves → ∀ d ∈ (after p ms).documents,
    ∀ d' ∈ (after p (ms ++ [m])).documents, d.id = id → d'.id = id →
    ¬ Overridden (after p ms) (after p (ms ++ [m])) d d'

/-- Whether a tombstone is final from some moment to another. -/
structure TombstoneFinal (p : ControlPlane) (since moves : List Move) (d : StoredDocument) :
    Prop where
  /-- The document stays marked and at its version, and its agent is asked to delete it. -/
  kept : ∀ ms, since <+: ms → ms <+: moves → ∀ d' ∈ (after p ms).documents, d'.id = d.id →
    d'.isMarked = true ∧ d'.version = d.version ∧ d'.action = SyncAction.delete.name
  /-- No update changes its spec. -/
  spec : ∀ ms m, since <+: ms → ms ++ [m] <+: moves → ∀ d₁ ∈ (after p ms).documents,
    ∀ d₂ ∈ (after p (ms ++ [m])).documents, d₁.id = d.id → d₂.id = d.id →
    ∀ i operation past x, (after p ms).Makes i operation past x (after p (ms ++ [m])) →
    operation.isUpdate = true → d₂.field "spec" = d₁.field "spec"

/-- The agent of a document is asked to delete it once it is marked. -/
theorem Marks.deletes (h : Marks p ms m d) : d.action = SyncAction.delete.name := by
  obtain ⟨⟨d₀, hd₀, hid, live⟩, hd, marked⟩ := h
  rcases (sound p ms).change m hd₀ hd hid with rfl | hedit
  · exact absurd (live.symm.trans marked) Bool.false_ne_true
  · cases hedit with
    | intro _ _ _ _ _ _ =>
      rw [Resource.isMarked_stored] at live marked
      rw [Resource.action_stored, Edit.deletes_of_marked live marked]

/-- A document that is found marked was found after it came to be marked. -/
theorem Marks.le_of_marked (h : Marks p ms m d) {ms₁ : List Move} {d₁ : StoredDocument}
    (h₁ : ms₁ <+: moves) (hp : ms ++ [m] <+: moves) (hd₁ : d₁ ∈ (after p ms₁).documents)
    (hid : d₁.id = d.id) (marked : d₁.isMarked = true) : ms ++ [m] <+: ms₁ := by
  obtain ⟨⟨d₀, hd₀, hid₀, live⟩, -, -⟩ := h
  rcases List.prefix_or_prefix_of_prefix h₁ hp with hle | hle
  · rcases List.prefix_concat_iff.1 hle with rfl | hle
    · exact List.prefix_refl _
    · have h := (kept p hle hd₁ hd₀ (hid.trans hid₀.symm)).marked marked
      exact absurd (live.symm.trans h) Bool.false_ne_true
  · exact hle

/-- An edit that does not override a document does not ask the agent to apply it. -/
theorem not_asked_of_not_overridden {s s' : System} {i : Nat} {operation : Operation}
    {past : List Exchange} {e : Edit} {r : Resource}
    (h : ¬ Overridden s s' r.stored (e.apply r).stored)
    (makes : s.Makes i operation past ⟨e.call, .ok true⟩ s') (read : e.Read past)
    (allowed : e.Allowed operation past) (fits : e.Fits r) : e.asked ≠ some .apply := by
  intro hask
  obtain ⟨kind, hread⟩ := Edit.reads_of_asked read hask
  exact h (.intro makes hread (Edit.revives_of_asked allowed hask) fits)

/-- The status of a resource without a mark asks for what it should. -/
theorem live_pending {r : Resource} (hd : r.stored ∈ (after p ms).documents)
    (live : r.markedForDeletion = false) : r.syncStatus.action = r.pendingAction := by
  have happly := live_applies p ms _ hd (by rw [Resource.isMarked_stored, live])
  rw [Resource.action_stored] at happly
  rw [SyncAction.name_inj happly, Resource.pendingAction_eq_apply.2 live]

/-- The agent of a marked document is asked to delete it until somebody overrides that. -/
theorem Marks.deletes_until (h : Marks p ms m d)
    (never : NeverOverridden p (ms ++ [m]) moves d.id) (ms' : List Move) :
    ∀ d' ∈ (after p ms').documents, ms ++ [m] <+: ms' → ms' <+: moves → d'.id = d.id →
      d'.action = SyncAction.delete.name := by
  refine always p (P := fun ms' d' => ms ++ [m] <+: ms' → ms' <+: moves → d'.id = d.id →
    d'.action = SyncAction.delete.name) (fun ms' m' ih d' hd' hge hle hid => ?_) ms'
  rcases List.prefix_concat_iff.1 hge with heq | hge
  · exact eq_of_id_eq p _ hd' (heq ▸ h.stored) hid ▸ h.deletes
  have hle' := (List.prefix_append ms' [m']).trans hle
  obtain ⟨d₁, hd₁, hid₁⟩ := stored_before p hge m' h.stored hd' hid.symm
  have hdelete := ih ms' (List.prefix_refl _) d₁ hd₁ hge hle' (hid₁.trans hid)
  have hno := never ms' m' hge hle d₁ hd₁ d' hd' (hid₁.trans hid) hid
  rcases (sound p ms').change m' hd₁ hd' hid₁ with rfl | hedit
  · exact hdelete
  · cases hedit with
    | @intro i operation past e r makes read allowed _ fits _ =>
      have hask := not_asked_of_not_overridden hno makes read allowed fits
      rw [Resource.action_stored] at hdelete ⊢
      rw [Edit.action_apply fun a ha => ?_]
      · cases ha : e.asked with
        | none => exact hdelete
        | some a =>
          cases a with
          | apply => exact absurd ha hask
          | delete => rfl
      · -- A mark was read only since it was set, so nobody had overridden it by then.
        obtain ⟨kind, hread⟩ := Edit.reads_of_asked read ha
        obtain ⟨ms₀, hms, r₀, hd₀, hid₀, -, hreads⟩ := (sound p ms').reading makes hread fits
        have hid₀ : r₀.stored.id = d.id := hid₀.trans (hid₁.trans hid)
        refine hreads.pending ?_
        cases hmarked : r₀.markedForDeletion with
        | false => exact live_pending hd₀ hmarked
        | true =>
          have hge₀ := h.le_of_marked hms hge hd₀ hid₀ (by rw [Resource.isMarked_stored, hmarked])
          have hdelete₀ := ih ms₀ hms _ hd₀ hge₀ (hms.trans hle') hid₀
          rw [Resource.action_stored] at hdelete₀
          rw [SyncAction.name_inj hdelete₀, Resource.pendingAction_eq_delete.2 hmarked]

/-- A marked document stays at its version until somebody overrides it. -/
theorem NeverOverridden.version_eq {since ms : List Move} {id : String}
    (never : NeverOverridden p since moves id) (hge : since <+: ms) (hle : ms <+: moves)
    {d d' : StoredDocument} (hd : d ∈ (after p since).documents)
    (hd' : d' ∈ (after p ms).documents) (hid : d.id = id) (hid' : d'.id = id) :
    d'.version = d.version := by
  refine (descent p (R := fun d d' => d.id = id → d'.id = d.id ∧ d'.version = d.version)
    (fun _ _ => ⟨rfl, rfl⟩) (fun h h' hid => ?_) hge
    (fun ms' m' hge' hle' d₁ hd₁ d₂ hd₂ hid₁ hid => ?_) hd hd' (hid.trans hid'.symm) hid).2
  · obtain ⟨hi, hv⟩ := h hid
    obtain ⟨hi', hv'⟩ := h' (hi.trans hid)
    exact ⟨hi'.trans hi, hv'.trans hv⟩
  · refine ⟨hid₁.symm, ?_⟩
    have hno := never ms' m' hge' (hle'.trans hle) d₁ hd₁ d₂ hd₂ hid (hid₁.symm.trans hid)
    rcases (sound p ms').change m' hd₁ hd₂ hid₁ with rfl | hedit
    · rfl
    · cases hedit with
      | @intro i operation past e r makes read allowed _ fits _ =>
        have hask := not_asked_of_not_overridden hno makes read allowed fits
        rw [Resource.version_stored, Resource.version_stored]
        rcases Edit.version_apply fits with hsame | ⟨⟨input, user, time, cluster, he⟩, -⟩
        · exact hsame
        · exact absurd (by rw [Edit.asked, he]) hask

/-- In a move of an update the spec of a document stays unless it is overridden. -/
theorem spec_eq_of_not_overridden {d₁ d₂ : StoredDocument} (hd₁ : d₁ ∈ (after p ms).documents)
    (hd₂ : d₂ ∈ (after p (ms ++ [m])).documents) (hid : d₁.id = d₂.id)
    (hno : ¬ Overridden (after p ms) (after p (ms ++ [m])) d₁ d₂) {i : Nat} {operation : Operation}
    {past : List Exchange} {x : Exchange}
    (makes : (after p ms).Makes i operation past x (after p (ms ++ [m])))
    (hu : operation.isUpdate = true) : d₂.field "spec" = d₁.field "spec" := by
  rcases (sound p ms).change m hd₁ hd₂ hid with rfl | hedit
  · rfl
  · cases hedit with
    | @intro j operation' past' e r makes' read allowed _ fits _ =>
      have hask := not_asked_of_not_overridden hno makes' read allowed fits
      refine e.field_stored_apply r (by decide) fun hwritten => ?_
      rcases Edit.asked_of_spec_written hwritten with h | ⟨time, he⟩
      · exact hask h
      · obtain ⟨-, rfl, -, -⟩ := makes.unique makes'
        rw [Edit.Allowed, he] at allowed
        obtain ⟨user, scope, purge, rfl⟩ := allowed
        cases hu

/-- A document stays marked. Its tombstone is final just as long as nobody overrides it. -/
theorem tombstone_final (p : ControlPlane) {ms moves : List Move} {m : Move} {d : StoredDocument}
    (h : Marks p ms m d) (hp : ms ++ [m] <+: moves) :
    (∀ d' ∈ (after p moves).documents, d'.id = d.id → d'.isMarked = true) ∧
      (TombstoneFinal p (ms ++ [m]) moves d ↔ NeverOverridden p (ms ++ [m]) moves d.id) := by
  have marked : ∀ ms', ms ++ [m] <+: ms' → ∀ d' ∈ (after p ms').documents, d'.id = d.id →
      d'.isMarked = true := fun ms' hge d' hd' hid =>
    (kept p hge h.stored hd' hid.symm).marked h.marked
  refine ⟨marked moves hp, fun final => ?_, fun never => ⟨?_, ?_⟩⟩
  · intro ms' m' hge hle d₁ hd₁ d₂ hd₂ hid₁ hid₂ hover
    have hdelete := (final.kept _ (hge.trans (List.prefix_append ms' _)) hle d₂ hd₂ hid₂).2.2
    cases hover with
    | @intro i operation past e r kind makes read revives fits =>
      obtain ⟨hlive, hask⟩ : e.current.markedForDeletion = false ∧ e.asked = some .apply := by
        simpa [Edit.revives] using revives
      obtain ⟨ms₀, -, r₀, hd₀, -, -, hreads⟩ := (sound p ms').reading makes read fits
      have hpending := live_pending hd₀ (hreads.markedForDeletion.symm.trans hlive)
      rw [Resource.action_stored, Edit.action_apply fun _ _ => hreads.pending hpending, hask]
        at hdelete
      have hname : SyncAction.apply.name = SyncAction.delete.name := hdelete
      exact absurd hname (by decide)
  · intro ms' hge hle d' hd' hid
    exact ⟨marked ms' hge d' hd' hid, never.version_eq hge hle h.stored hd' rfl hid,
      h.deletes_until never ms' d' hd' hge hle hid⟩
  · intro ms' m' hge hle d₁ hd₁ d₂ hd₂ hid₁ hid₂ i operation past x makes hu
    exact spec_eq_of_not_overridden hd₁ hd₂ (hid₁.trans hid₂.symm)
      (never ms' m' hge hle d₁ hd₁ d₂ hd₂ hid₁ hid₂) makes hu

/-! ### A run -/

/-- The project is created, an update reads it, and so does a delete. -/
def untilBurial : List Move :=
  .start (.create .system shopScope shopInput) :: turns 0 7 ++
    .start (.update .system shopScope shopInput) :: turns 1 3 ++
      .start (.delete .system .project shopScope "shop") :: turns 2 3

/-- The delete marks the project. -/
def burial : Move := .turn 2 ⟨default, "7d1c52a0", .ok true, none⟩

/-- After that the update writes what it worked out before. -/
def overridingRun : List Move := untilBurial ++ [burial] ++ turns 1 1

theorem overridingRun_documents :
    (∃ d ∈ (after .default untilBurial).documents, d.id = "7d1c52a0" ∧ d.isMarked = false) ∧
      (∃ d ∈ (after .default (untilBurial ++ [burial])).documents,
        d.id = "7d1c52a0" ∧ d.isMarked = true ∧ d.version = 1) ∧
      ∃ d ∈ (after .default overridingRun).documents, d.id = "7d1c52a0" ∧ d.version = 2 := by
  decide +kernel

/-- Not all tombstones are final: in the run the version is raised after the mark was set. -/
theorem tombstone_not_final : ∃ d, Marks .default untilBurial burial d ∧
    ¬ TombstoneFinal .default (untilBurial ++ [burial]) overridingRun d := by
  obtain ⟨⟨d₀, hd₀, hid₀, live⟩, ⟨d, hd, hid, marked, hv⟩, d', hd', hid', hv'⟩ :=
    overridingRun_documents
  refine ⟨d, ⟨⟨d₀, hd₀, hid₀.trans hid.symm, live⟩, hd, marked⟩, fun final => ?_⟩
  have h := (final.kept overridingRun (List.prefix_append _ _) (List.prefix_refl _) d' hd'
    (hid'.trans hid.symm)).2.1
  rw [hv, hv'] at h
  exact absurd h (by decide)

/-- In the run the update overrides the tombstone. -/
theorem tombstone_final_overridden : ∃ d, Marks .default untilBurial burial d ∧
    untilBurial ++ [burial] <+: overridingRun ∧
    ¬ NeverOverridden .default (untilBurial ++ [burial]) overridingRun d.id := by
  obtain ⟨⟨d₀, hd₀, hid₀, live⟩, ⟨d, hd, hid, marked, hv⟩, d', hd', hid', hv'⟩ :=
    overridingRun_documents
  have marks : Marks .default untilBurial burial d :=
    ⟨⟨d₀, hd₀, hid₀.trans hid.symm, live⟩, hd, marked⟩
  have hp : untilBurial ++ [burial] <+: overridingRun := List.prefix_append _ _
  refine ⟨d, marks, hp, fun never => ?_⟩
  have final := (tombstone_final .default marks hp).2.2 never
  have h := (final.kept overridingRun hp (List.prefix_refl _) d' hd' (hid'.trans hid.symm)).2.1
  rw [hv, hv'] at h
  exact absurd h (by decide)

end System

end FleetSync
