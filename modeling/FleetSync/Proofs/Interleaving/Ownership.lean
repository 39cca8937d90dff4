import FleetSync.Proofs.Interleaving.Sound

/-!
# Who changes which fields

A document keeps its names, its scope and where it came from for as long as it is stored, and once
marked for deletion it stays so (`StoredDocument.Keeps`): no edit writes the former, and the one
edit that writes the mark sets it. The fields that tell what an agent saw are written only along
with what an agent reports, and only while the document is at the version that the report names
(`System.Observes`). The version that a status names goes from one status to the next by way of
readings, so it was once written in such a move (`System.confirmed`).
-/

namespace FleetSync

namespace Resource

/-- The names of the fields that are never written again. -/
def fixedNames : List String :=
  ["id", "name", "namespace", "account_name", "project_name", "environment_name", "created_by",
    "creation_time"]

/-- The names of the fields that only agents fill. -/
def observedNames : List String := ["status", "generation", "agent_creation_timestamp"]

end Resource

/-- What a document keeps for as long as it is stored. -/
structure StoredDocument.Keeps (d d' : StoredDocument) : Prop where
  collection : d'.collection = d.collection
  fixed : ∀ n ∈ Resource.fixedNames, d'.field n = d.field n
  marked : d.isMarked = true → d'.isMarked = true

namespace StoredDocument.Keeps

theorem refl (d : StoredDocument) : d.Keeps d := ⟨rfl, fun _ _ => rfl, fun h => h⟩

theorem trans {d₁ d₂ d₃ : StoredDocument} (h : d₁.Keeps d₂) (h' : d₂.Keeps d₃) : d₁.Keeps d₃ where
  collection := h'.collection.trans h.collection
  fixed n hn := (h'.fixed n hn).trans (h.fixed n hn)
  marked := h'.marked ∘ h.marked

theorem live {d d' : StoredDocument} (h : d.Keeps d') (hd : d'.isMarked = false) :
    d.isMarked = false := by
  cases hmarked : d.isMarked with
  | false => rfl
  | true => exact absurd (hd.symm.trans (h.marked hmarked)) Bool.false_ne_true

end StoredDocument.Keeps

namespace Edit

variable (e : Edit) (r : Resource)

/-- A field that an edit does not write stays as it is stored. -/
theorem field_stored_apply {n : String} (hn : n ∈ Resource.storedNames) (h : n ∉ e.written) :
    (e.apply r).stored.field n = r.stored.field n := by
  rw [Resource.field_stored _ hn, Resource.field_stored _ hn, e.field_apply, if_neg h]

theorem fixed_not_written {n : String} (hn : n ∈ Resource.fixedNames) : n ∉ e.written := by
  revert n
  rcases e with ⟨current, change⟩
  cases change <;> simp only [written] <;> decide

theorem observe_of_written {n : String} (hn : n ∈ Resource.observedNames) (h : n ∈ e.written) :
    ∃ report status, e.change = .observe report status := by
  rcases e with ⟨current, change⟩
  cases change with
  | observe report status => exact ⟨report, status, rfl⟩
  | _ =>
    refine absurd h ?_
    clear h
    simp only [written]
    revert n
    decide

theorem marked_apply (h : r.markedForDeletion = true) :
    (e.apply r).markedForDeletion = true := by
  rcases e with ⟨current, change⟩
  cases change with
  | bury user time => rfl
  | _ => exact h

theorem keeps_apply {e : Edit} {r : Resource} (hkind : (e.apply r).kind = r.kind) :
    r.stored.Keeps (e.apply r).stored where
  collection := congrArg Kind.collection hkind
  fixed n hn := by
    have stored : ∀ n ∈ Resource.fixedNames, n ∈ Resource.storedNames := by
      decide
    exact e.field_stored_apply r (stored n hn) (e.fixed_not_written hn)
  marked h := by
    rw [Resource.isMarked_stored] at h ⊢
    exact e.marked_apply r h

/-- The version that a status names stays, or is the one that a report names, or is taken from a
reading. -/
theorem syncVersion_apply : (e.apply r).syncStatus.recordVersion = r.syncStatus.recordVersion ∨
    (∃ report status, e.change = .observe report status) ∧
      (e.apply r).syncStatus.recordVersion = e.current.recordVersion ∨
    (∀ cluster, e.change ≠ .attach cluster) ∧
      (e.apply r).syncStatus.recordVersion = e.current.syncStatus.recordVersion := by
  rcases e with ⟨current, change⟩
  cases change with
  | attach cluster => exact .inl rfl
  | detach time => exact .inl rfl
  | observe report status => exact .inr (.inl ⟨⟨report, status, rfl⟩, rfl⟩)
  | _ => exact .inr (.inr ⟨fun _ => Change.noConfusion, rfl⟩)

end Edit

namespace System

variable {p : ControlPlane} {moves : List Move}

/-- In a move a task writes what a status report says of a document, at the version that the report
names and the document has. -/
def Observes (s s' : System) (d : StoredDocument) : Prop :=
  ∃ i operation past x report, s.Makes i operation past x s' ∧ operation.report? = some report ∧
    report.kind = .statusUpdate ∧ report.recordVersion = d.version ∧ x.Claims d.id d.version

theorem Makes.observes {s s' : System} {i : Nat} {operation : Operation} {past : List Exchange}
    {e : Edit} {r : Resource} {report : Wire.Report} {status : Option Observed}
    (makes : s.Makes i operation past ⟨e.call, .ok true⟩ s') (allowed : e.Allowed operation past)
    (fits : e.Fits r) (he : e.change = .observe report status) : s.Observes s' r.stored := by
  have hg : e.isGuarded = true := by rw [Edit.isGuarded, he]
  have hclaims := Edit.claims hg
  rw [← fits.id, ← fits.version hg] at hclaims
  rw [Edit.Allowed, he] at allowed
  obtain ⟨hop, hkind, hv⟩ := allowed
  rw [← fits.version hg] at hv
  refine ⟨i, operation, past, _, report, makes, hop, hkind, ?_, ?_⟩ <;>
    rw [Resource.version_stored]
  · exact hv.symm
  · exact hclaims

/-- What is kept in every move is kept in a run. -/
theorem kept (p : ControlPlane) {ms : List Move} (hp : ms <+: moves) {d d' : StoredDocument}
    (hd : d ∈ (after p ms).documents) (hd' : d' ∈ (after p moves).documents) (hid : d.id = d'.id) :
    d.Keeps d' := by
  refine descent p (R := StoredDocument.Keeps) StoredDocument.Keeps.refl
    StoredDocument.Keeps.trans hp (fun ms m _ _ d hd d' hd' hid => ?_) hd hd' hid
  rcases (sound p ms).change m hd hd' hid with rfl | hedit
  · exact .refl d'
  · cases hedit with
    | intro _ _ _ _ _ kind => exact Edit.keeps_apply kind

/-- Whether a document was observed at a version in a run. -/
def WasObserved (p : ControlPlane) (moves : List Move) (id : String) (v : Version) : Prop :=
  ∃ ms m, ms ++ [m] <+: moves ∧ ∃ d ∈ (after p ms).documents, d.id = id ∧ d.version = v ∧
    (after p ms).Observes (after p (ms ++ [m])) d

theorem WasObserved.mono {id : String} {v : Version} {ms : List Move}
    (h : WasObserved p ms id v) (hp : ms <+: moves) : WasObserved p moves id v := by
  obtain ⟨ms', m, hms, h⟩ := h
  exact ⟨ms', m, hms.trans hp, h⟩

/-- A version that a status names was observed. -/
theorem confirmed (p : ControlPlane) (moves : List Move) : ∀ d ∈ (after p moves).documents,
    d.syncVersion ≠ 0 → WasObserved p moves d.id d.syncVersion := by
  refine always p (P := fun ms d => d.syncVersion ≠ 0 → WasObserved p ms d.id d.syncVersion)
    (fun moves m ih d' hd' hv => ?_) moves
  -- Earlier documents with the id and the version in their status settle all but one case.
  have earlier : ∀ ms, ms <+: moves → ∀ d ∈ (after p ms).documents, d.id = d'.id →
      d.syncVersion = d'.syncVersion → WasObserved p (moves ++ [m]) d'.id d'.syncVersion := by
    intro ms hms d hd hid hsync
    have h := ih ms hms d hd (hsync ▸ hv)
    exact hid ▸ hsync ▸ h.mono (hms.trans (List.prefix_append moves [m]))
  rcases (sound p moves).came m hd' with hd' | hnew | ⟨d, hd, hedit⟩
  · exact earlier moves (List.prefix_refl _) d' hd' rfl rfl
  · cases hnew with
    | intro _ draft _ =>
      rw [Resource.syncVersion_stored, draft] at hv
      exact absurd rfl hv
  · cases hedit with
    | @intro i operation past e r makes read allowed _ fits _ =>
      rcases e.syncVersion_apply r with hsame | ⟨⟨report, status, he⟩, hcur⟩ | ⟨hne, hcur⟩
      · refine earlier moves (List.prefix_refl _) _ hd (e.id_apply r).symm ?_
        rw [Resource.syncVersion_stored, Resource.syncVersion_stored, hsame]
      · refine ⟨moves, m, List.prefix_refl _, _, hd, (e.id_apply r).symm, ?_,
          makes.observes allowed fits he⟩
        have hg : e.isGuarded = true := by rw [Edit.isGuarded, he]
        rw [Resource.version_stored, Resource.syncVersion_stored, hcur, fits.version hg]
      · rcases read with ⟨cluster, he⟩ | ⟨kind, hread⟩
        · exact absurd he (hne cluster)
        obtain ⟨ms, hms, r₀, hd₀, hid, -, hreads⟩ := (sound p moves).reading makes hread fits
        refine earlier ms hms _ hd₀ (hid.trans (e.id_apply r).symm) ?_
        rw [Resource.syncVersion_stored, Resource.syncVersion_stored, hcur, hreads.syncVersion]

/-- Every field of a document changes only by those it belongs to. -/
structure FieldsOwned (p : ControlPlane) (moves : List Move) : Prop where
  /-- What names a document and tells where it came from stays, and a mark for deletion does. -/
  kept : ∀ ms, ms <+: moves → ∀ d ∈ (after p ms).documents, ∀ d' ∈ (after p moves).documents,
    d.id = d'.id → d.Keeps d'
  /-- What an agent fills changes in a move only if a report on the stored version is written. -/
  observed : ∀ m, ∀ d ∈ (after p moves).documents, ∀ d' ∈ (after p (moves ++ [m])).documents,
    d.id = d'.id → ∀ n ∈ Resource.observedNames, d'.field n ≠ d.field n →
    (after p moves).Observes (after p (moves ++ [m])) d
  /-- The version that a status names is none, or it was observed while it was the stored one. -/
  confirmed : ∀ d ∈ (after p moves).documents, d.syncVersion ≠ 0 →
    WasObserved p moves d.id d.syncVersion

/-- However operations interleave, every field of a document changes only by those it belongs to. -/
theorem fields_owned (p : ControlPlane) (moves : List Move) : FieldsOwned p moves where
  kept _ hp _ hd _ hd' hid := kept p hp hd hd' hid
  observed m d hd d' hd' hid n hn hne := by
    rcases (sound p moves).change m hd hd' hid with rfl | hedit
    · exact absurd rfl hne
    · cases hedit with
      | @intro i operation past e r makes _ allowed _ fits _ =>
        have stored : ∀ n ∈ Resource.observedNames, n ∈ Resource.storedNames := by
          decide
        by_cases hw : n ∈ e.written
        · obtain ⟨report, status, he⟩ := e.observe_of_written hn hw
          exact makes.observes allowed fits he
        · exact absurd (e.field_stored_apply r (stored n hn) hw) hne
  confirmed := confirmed p moves

end System

end FleetSync
