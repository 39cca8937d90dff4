import FleetSync.Proofs.Interleaving.Run

/-!
# Stored resources stay in step

A stored resource is `Resource.Sound`: its version is one a new resource may have or an update may
lead to, and its sync status agrees with the version. An edit keeps that even if it was worked out
from a reading that is out of date (`Edit.sound_apply`): versions only grow, so what was confirmed
by the reading is not ahead of the version by now, and what confirms a version is guarded by it.
`System.sound` says so of all documents at every moment. With that it is known of every move what it
does to resources (`SoundUntil.deed`), and to a document of an id (`SoundUntil.change`).
-/

namespace FleetSync

/-- A status that agrees with the version of its resource. -/
structure SyncStatus.Agrees (s : SyncStatus) (v : Version) : Prop where
  nonneg : 0 ≤ s.recordVersion
  le : s.recordVersion ≤ v
  state : s.state = .inQueue ∨ s.state = .updatedAtAgent ∨ s.state = .deletingAtAgent ∨
    s.state = .erroredAtAgent
  confirmed : s.state = .updatedAtAgent ∨ s.state = .deletingAtAgent → s.recordVersion = v
  error : s.error.isSome = true ↔ s.state = .erroredAtAgent
  scheduled : s.syncScheduledAt.isSome = true

namespace SyncStatus

variable {s : SyncStatus} {v : Version}

theorem agrees_queued (h0 : 0 ≤ s.recordVersion) (hv : s.recordVersion ≤ v) (action : SyncAction)
    (time : Instant) : (s.queued action time).Agrees v where
  nonneg := h0
  le := hv
  state := .inl rfl
  confirmed h := by rcases h with h | h <;> cases h
  error := by simp [queued]
  scheduled := rfl

theorem agrees_confirmed (hv : 0 ≤ v) (hs : s.syncScheduledAt.isSome = true) (deleting : Bool)
    (time : Instant) : (s.confirmed v deleting time).Agrees v where
  nonneg := hv
  le := Int.le_refl v
  state := by cases deleting <;> simp [SyncStatus.confirmed]
  confirmed _ := rfl
  error := by cases deleting <;> simp [SyncStatus.confirmed]
  scheduled := hs

theorem agrees_failed (h0 : 0 ≤ s.recordVersion) (hv : s.recordVersion ≤ v)
    (hs : s.syncScheduledAt.isSome = true) (message : String) (time : Instant) :
    (s.failed message time).Agrees v where
  nonneg := h0
  le := hv
  state := .inr (.inr (.inr rfl))
  confirmed h := by rcases h with h | h <;> cases h
  error := by simp [failed]
  scheduled := hs

end SyncStatus

/-- A resource as they are stored. A version that is too large to be read back is never raised. -/
structure Resource.Sound (r : Resource) : Prop where
  version_pos : 1 ≤ r.recordVersion
  version_le : r.recordVersion ≤ Nat.pow 2 63
  agrees : r.syncStatus.Agrees r.recordVersion

theorem ResourceInput.sound_toResource (i : ResourceInput) (user : User) (s : Scope) (id : String)
    (time : Instant) (cluster : Option String) :
    Resource.Sound { i.toResource user s id time with clusterName := cluster } where
  version_pos := Int.le_refl 1
  version_le := (by decide : (1 : Int) ≤ Nat.pow 2 63)
  agrees := SyncStatus.agrees_queued (Int.le_refl 0) (by decide : (0 : Int) ≤ 1) ..

namespace Edit

variable {e : Edit} {r : Resource}

/-- What is known of the resource an edit goes by once the edit is made. -/
structure Known (e : Edit) (r : Resource) : Prop where
  sync_nonneg : 0 ≤ e.current.syncStatus.recordVersion
  sync_le : e.current.syncStatus.recordVersion ≤ e.current.recordVersion
  scheduled : e.current.syncStatus.syncScheduledAt.isSome = true
  version_le : e.current.recordVersion ≤ r.recordVersion
  least : -(Nat.pow 2 63 : Int) ≤ e.current.recordVersion
  greatest : e.current.recordVersion ≤ (Nat.pow 2 63 - 1 : Nat)

theorem known_of_readsAs {r₀ : Resource} (h : r₀.ReadsAs e.current) (h₀ : r₀.Sound)
    (hv : r₀.recordVersion ≤ r.recordVersion) : e.Known r where
  sync_nonneg := h.syncVersion ▸ h₀.agrees.nonneg
  sync_le := by rw [h.syncVersion, h.recordVersion]; exact h₀.agrees.le
  scheduled := h.scheduled ▸ h₀.agrees.scheduled
  version_le := h.recordVersion ▸ hv
  least := h.recordVersion ▸ h.least
  greatest := h.recordVersion ▸ h.greatest

/-- An edit keeps resources sound. -/
theorem sound_apply (hr : r.Sound) (fits : e.Fits r)
    (known : (∃ cluster, e.change = .attach cluster) ∨ e.Known r) : (e.apply r).Sound := by
  rcases e with ⟨current, change⟩
  have hv := fits.version
  obtain ⟨hpos, hle, hagrees⟩ := hr
  cases change with
  | attach cluster => exact ⟨hpos, hle, hagrees⟩
  | detach time => exact ⟨hpos, hle, hagrees⟩
  | revise input user time cluster =>
    obtain ⟨_, h⟩ | ⟨h0, hs, -, -, -, hmax⟩ := known
    · cases h
    have hv : r.recordVersion = current.recordVersion := hv rfl
    exact ⟨Int.le_add_one (hv ▸ hpos), Int.add_le_add_right hmax 1,
      SyncStatus.agrees_queued h0 (Int.le_add_one hs) ..⟩
  | bury user time =>
    obtain ⟨_, h⟩ | ⟨h0, hs, -, hle', -, -⟩ := known
    · cases h
    exact ⟨hpos, hle, SyncStatus.agrees_queued h0 (Int.le_trans hs hle') ..⟩
  | requeue time =>
    obtain ⟨_, h⟩ | ⟨h0, hs, -, hle', -, -⟩ := known
    · cases h
    exact ⟨hpos, hle, SyncStatus.agrees_queued h0 (Int.le_trans hs hle') ..⟩
  | observe report status =>
    obtain ⟨_, h⟩ | ⟨-, -, hsched, -, -, -⟩ := known
    · cases h
    have hv : r.recordVersion = current.recordVersion := hv rfl
    refine ⟨hpos, hle, ?_⟩
    show (current.syncStatus.confirmed current.recordVersion _ _).Agrees r.recordVersion
    rw [hv]
    exact SyncStatus.agrees_confirmed (Int.le_trans (by decide) (hv ▸ hpos)) hsched ..
  | fail message time =>
    obtain ⟨_, h⟩ | ⟨h0, hs, hsched, hle', -, -⟩ := known
    · cases h
    exact ⟨hpos, hle, SyncStatus.agrees_failed h0 (Int.le_trans hs hle') hsched ..⟩

end Edit

/-- What an operation does to stored resources with a call. -/
inductive Deed (operation : Operation) (past : List Exchange) :
    Exchange → List StoredDocument → List StoredDocument → Prop
  | remove {x : Exchange} {docs docs' : List StoredDocument} (keep : x.isWrite = false)
    (less : docs'.Sublist docs) : Deed operation past x docs docs'
  | insert {user : User} {scope : Scope} {input : ResourceInput} {id : String} {time : Instant}
    {cluster : Option String} {r : Resource} {docs : List StoredDocument}
    (create : operation = .create user scope input)
    (draft : r = { input.toResource user scope id time with clusterName := cluster })
    (given : ⟨.freshId, id⟩ ∈ past) (once : Uncommitted past) :
    Deed operation past ⟨.insert r.document, .ok ()⟩ docs (docs ++ [r.stored])
  | edit {e : Edit} {r : Resource} {l l' : List StoredDocument} (read : e.Read past)
    (allowed : e.Allowed operation past) (sound : r.Sound) (fits : e.Fits r)
    (kind : (e.apply r).kind = r.kind) :
    Deed operation past ⟨e.call, .ok true⟩ (l ++ r.stored :: l') (l ++ (e.apply r).stored :: l')

namespace System

variable {p : ControlPlane} {moves : List Move}

/-- Whether all documents are sound resources up to some moment. -/
def SoundUntil (p : ControlPlane) (moves : List Move) : Prop :=
  ∀ ms, ms <+: moves → ∀ d ∈ (after p ms).documents, ∃ r : Resource, r.Sound ∧ r.stored = d

theorem SoundUntil.mono {ms : List Move} (h : SoundUntil p moves) (hp : ms <+: moves) :
    SoundUntil p ms := fun ms' h' => h ms' (h'.trans hp)

theorem SoundUntil.read (h : SoundUntil p moves) {t : Task} (ht : t ∈ (after p moves).tasks)
    {kind : Kind} {r : Resource} (hr : Reads t.past kind r) :
    r.kind = kind ∧ ∃ ms, ms <+: moves ∧ ∃ r₀ : Resource, r₀.stored ∈ (after p ms).documents ∧
      r₀.Sound ∧ r₀.ReadsAs r := by
  obtain ⟨ms, hms, d, hd, hcol, j, hj, hdec⟩ := read_stored p moves ht hr
  obtain ⟨r₀, hsound, rfl⟩ := h ms hms d hd
  have hkind : r₀.kind = kind := Kind.collection_inj hcol
  have hreads := Resource.readsAs_of_read hkind hj hdec
  exact ⟨hreads.kind.trans hkind, ms, hms, r₀, hd, hsound, hreads⟩

/-- What an edit goes by was stored at some moment before, under the id of what it edits. -/
theorem SoundUntil.reading (h : SoundUntil p moves) {i : Nat} {operation : Operation}
    {past : List Exchange} {x : Exchange} {s' : System} {e : Edit} {r : Resource} {kind : Kind}
    (makes : (after p moves).Makes i operation past x s') (read : Reads past kind e.current)
    (fits : e.Fits r) : ∃ ms, ms <+: moves ∧ ∃ r₀ : Resource, r₀.stored ∈ (after p ms).documents ∧
      r₀.id = r.id ∧ r₀.Sound ∧ r₀.ReadsAs e.current := by
  obtain ⟨rest, hs⟩ := makes.before
  obtain ⟨-, ms, hms, r₀, hd₀, hsound, hreads⟩ := h.read (List.mem_of_getElem? hs) read
  exact ⟨ms, hms, r₀, hd₀, hreads.id.symm.trans fits.id.symm, hsound, hreads⟩

/-- A resource that meets the filter of an edit is one to be edited, and keeps its kind. -/
theorem SoundUntil.fits (h : SoundUntil p moves) {t : Task} (ht : t ∈ (after p moves).tasks)
    {operation : Operation} {e : Edit} {r : Resource} (read : e.Read t.past)
    (allowed : e.Allowed operation t.past) (hr : r.Sound)
    (hit : r.stored.matches? e.current.kind.collection e.filter = true) :
    e.Fits r ∧ (e.apply r).kind = r.kind := by
  have fits : e.Fits r := by
    refine e.fits_of_matches? hit (Int.le_trans (by decide) hr.version_pos) hr.version_le ?_
    intro hg
    rcases read with ⟨cluster, he⟩ | ⟨kind, hread⟩
    · rw [Edit.isGuarded, he] at hg
      cases hg
    · obtain ⟨-, -, -, r₀, -, -, hreads⟩ := h.read ht hread
      exact hreads.recordVersion ▸ ⟨hreads.least, hreads.greatest⟩
  refine ⟨fits, Edit.kind_apply fits fun input user time cluster he => ?_⟩
  rw [Edit.Allowed, he] at allowed
  exact (h.read ht allowed.2.1).1

theorem SoundUntil.deed (h : SoundUntil p moves) {s' : System} {i : Nat} {operation : Operation}
    {past : List Exchange} {x : Exchange} (makes : (after p moves).Makes i operation past x s')
    (act : Act operation past x (after p moves).documents s'.documents) :
    Deed operation past x (after p moves).documents s'.documents := by
  obtain ⟨rest, hs⟩ := makes.before
  have ht := List.mem_of_getElem? hs
  have hnow := h moves (List.prefix_refl _)
  revert act hnow
  generalize (after p moves).documents = docs
  generalize s'.documents = docs'
  rintro (⟨keep, less⟩ | ⟨create, draft, given, once⟩ | ⟨read, allowed, hit, done⟩) hnow
  · exact .remove keep less
  · exact .insert create draft given once
  · rename_i e l l' d body
    obtain ⟨r, hr, rfl⟩ := hnow d (List.mem_append_right _ (List.mem_cons_self ..))
    obtain ⟨fits, hkind⟩ := h.fits ht read allowed hr hit
    rw [e.stored_apply hkind done]
    exact .edit read allowed hr fits hkind

/-- In a move a task edits a document. -/
inductive Edited (s s' : System) : StoredDocument → StoredDocument → Prop
  | intro {i : Nat} {operation : Operation} {past : List Exchange} {e : Edit} {r : Resource}
    (makes : s.Makes i operation past ⟨e.call, .ok true⟩ s') (read : e.Read past)
    (allowed : e.Allowed operation past) (sound : r.Sound) (fits : e.Fits r)
    (kind : (e.apply r).kind = r.kind) : Edited s s' r.stored (e.apply r).stored

/-- In a move a task inserts the document of a new resource. -/
inductive Created (s s' : System) : StoredDocument → Prop
  | intro {i : Nat} {past : List Exchange} {user : User} {scope : Scope} {input : ResourceInput}
    {id : String} {time : Instant} {cluster : Option String} {r : Resource}
    (makes : s.Makes i (.create user scope input) past ⟨.insert r.document, .ok ()⟩ s')
    (draft : r = { input.toResource user scope id time with clusterName := cluster })
    (new : ¬ s.Inserted r.id) : Created s s' r.stored

/-- After a move a document is as it was, or it is new, or it was edited. -/
theorem SoundUntil.came (h : SoundUntil p moves) (m : Move) {d' : StoredDocument}
    (hd' : d' ∈ (after p (moves ++ [m])).documents) :
    d' ∈ (after p moves).documents ∨ Created (after p moves) (after p (moves ++ [m])) d' ∨
      ∃ d ∈ (after p moves).documents, Edited (after p moves) (after p (moves ++ [m])) d d' := by
  cases advance p moves m with
  | idle docs _ => exact .inl (docs ▸ hd')
  | call makes act _ _ =>
    have deed := h.deed makes act
    have new := fun id => not_inserted p moves id makes
    revert deed hd'
    clear act
    generalize (after p moves).documents = docs
    generalize (after p (moves ++ [m])).documents = docs'
    rintro hd' (⟨_, less⟩ | ⟨rfl, draft, given, once⟩ | ⟨read, allowed, sound, fits, kind⟩)
    · exact .inl (less.subset hd')
    · rcases List.mem_append.1 hd' with hd' | hd'
      · exact .inl hd'
      · obtain rfl := List.mem_singleton.1 hd'
        exact .inr (.inl (.intro makes draft (draft ▸ new _ given once)))
    · simp only [List.mem_append, List.mem_cons] at hd' ⊢
      rcases hd' with hd' | rfl | hd'
      · exact .inl (.inl hd')
      · exact .inr (.inr ⟨_, .inr (.inl rfl), .intro makes read allowed sound fits kind⟩)
      · exact .inl (.inr (.inr hd'))

/-- A document stays as it is in a move, or it is edited. -/
theorem SoundUntil.change (h : SoundUntil p moves) (m : Move) {d d' : StoredDocument}
    (hd : d ∈ (after p moves).documents) (hd' : d' ∈ (after p (moves ++ [m])).documents)
    (hid : d.id = d'.id) :
    d' = d ∨ Edited (after p moves) (after p (moves ++ [m])) d d' := by
  rcases h.came m hd' with hd' | hnew | ⟨d₀, hd₀, hedit⟩
  · exact .inl (eq_of_id_eq p moves hd hd' hid).symm
  · cases hnew with
    | intro _ _ new =>
      have hins := inserted_of_mem p moves d.id (List.mem_map_of_mem hd)
      rw [hid] at hins
      exact absurd hins new
  · have hid₀ : d₀.id = d'.id := by
      cases hedit
      exact (Edit.id_apply ..).symm
    exact .inr (eq_of_id_eq p moves hd hd₀ (hid.trans hid₀.symm) ▸ hedit)

theorem SoundUntil.version_le (h : SoundUntil p moves) {ms : List Move} (hp : ms <+: moves)
    {d d' : StoredDocument} (hd : d ∈ (after p ms).documents)
    (hd' : d' ∈ (after p moves).documents) (hid : d.id = d'.id) : d.version ≤ d'.version := by
  refine descent p (R := fun d d' => d.version ≤ d'.version) (fun d => Int.le_refl _)
    Int.le_trans hp (fun ms₀ m _ hm d hd d' hd' hid => ?_) hd hd' hid
  rcases (h.mono ((List.prefix_append ms₀ [m]).trans hm)).change m hd hd' hid with rfl | hedit
  · exact Int.le_refl _
  · cases hedit with
    | intro _ _ _ _ fits _ =>
      rw [Resource.version_stored, Resource.version_stored]
      rcases Edit.version_apply fits with hv | ⟨-, hv⟩
      · exact Int.le_of_eq hv.symm
      · rw [hv]
        exact Int.le_add_one (Int.le_refl _)

theorem SoundUntil.next (h : SoundUntil p moves) (m : Move) :
    ∀ d ∈ (after p (moves ++ [m])).documents, ∃ r : Resource, r.Sound ∧ r.stored = d := by
  intro d' hd'
  rcases h.came m hd' with hd' | hnew | ⟨d, hd, hedit⟩
  · exact h moves (List.prefix_refl _) d' hd'
  · cases hnew with
    | intro _ draft _ => exact ⟨_, draft ▸ ResourceInput.sound_toResource .., rfl⟩
  · cases hedit with
    | intro makes read _ sound fits _ =>
      refine ⟨_, Edit.sound_apply sound fits (read.imp_right ?_), rfl⟩
      rintro ⟨kind, hread⟩
      obtain ⟨ms, hms, r₀, hd₀, hid, hsound, hreads⟩ := h.reading makes hread fits
      refine Edit.known_of_readsAs hreads hsound ?_
      have hv := h.version_le hms hd₀ hd hid
      rwa [Resource.version_stored, Resource.version_stored] at hv

/-- At every moment all documents are sound resources. -/
theorem sound (p : ControlPlane) (moves : List Move) : SoundUntil p moves :=
  fun ms _ => always p (fun _ m ih => SoundUntil.next ih m) ms

/-- However operations interleave, the status of every document agrees with its version. -/
theorem status_agrees (p : ControlPlane) (moves : List Move) :
    ∀ d ∈ (after p moves).documents, ∃ r : Resource, d = r.stored ∧ 1 ≤ r.recordVersion ∧
      r.syncStatus.Agrees r.recordVersion := by
  intro d hd
  obtain ⟨r, hr, rfl⟩ := sound p moves moves (List.prefix_refl _) d hd
  exact ⟨r, rfl, hr.version_pos, hr.agrees⟩

/-! ### A run -/

/-- A project on a cluster of its own. -/
def shopInput : ResourceInput := .new "shop" "default" (.project ⟨some "eu-1", none, none⟩)

/-- The scope of the project. -/
def shopScope : Scope := .project "acme" "shop"

/-- A report on the project. -/
def shopReport (v : Version) (kind : Wire.ReportKind) : Wire.Report :=
  ⟨"acme", "eu-1", .project, v, default, ⟨"shop", "default", ∅, ∅, 3, none, none, none⟩, kind⟩

/-- Turns of a task in which nothing fails. -/
def turns (task count : Nat) : List Move :=
  List.replicate count (.turn task ⟨default, "7d1c52a0", .ok true, none⟩)

/-- The project is created, and its agent confirms it. -/
def confirmedRun : List Move :=
  .start (.create .system shopScope shopInput) :: turns 0 7 ++
    .start (.route (shopReport 1 .statusUpdate)) :: turns 1 3

/-- In the run a document was confirmed, and its status agrees with its version. -/
theorem status_agrees_confirmed : ∃ d ∈ (after .default confirmedRun).documents,
    d.version = 1 ∧ ∃ r : Resource, d = r.stored ∧ 1 ≤ r.recordVersion ∧
      r.syncStatus.Agrees r.recordVersion := by
  have stored : ∃ d ∈ (after .default confirmedRun).documents, d.version = 1 := by
    decide +kernel
  obtain ⟨d, hd, hversion⟩ := stored
  exact ⟨d, hd, hversion, status_agrees .default confirmedRun d hd⟩

end System

end FleetSync
