import FleetSync.Proofs.Sequence.Weathering

/-!
# What a sweep does

A sweep takes the documents that are due, kind by kind, and attempts to send each of them once
(`Stores.Attempts`): its envelope is published, or the bus or the size of a frame is in the way, or
there is no cluster for it; then a tombstone is removed. Attempts go on from what those before have
left (`Stores.Sweeps`), but none touches what is due later, so the documents that are due can be
told when the sweep begins. Where only publications fail, each attempt is made
(`ControlPlane.settle_weathers`), then those of a kind (`ControlPlane.sweepEach_weathers`), then all
of them (`ControlPlane.sweepKinds_weathers`). Hence a sweep is exact (`System.sweep_exact`).
-/

namespace FleetSync

namespace StoredDocument

variable (d : StoredDocument)

/-- The resource that a document reads as. -/
def reading? : Option Resource :=
  match d.read with
  | .ok j => (Resource.ofDocument d.kind j).toOption
  | .error _ => none

/-- Whether a document reads back as a resource. -/
def ReadsBack : Prop := d.body.isReadable = true ∧ d.reading?.isSome = true

instance : Decidable d.ReadsBack := inferInstanceAs (Decidable (_ ∧ _))

/-- Whether a document is in the queue, and no agent was asked or that was before a cutoff. -/
def isDue (cutoff : Cutoff) : Bool :=
  d.reading?.any fun r => decide (r.syncStatus.state = .inQueue) && r.isStale cutoff

/-- What becomes of a document when some are swept. -/
inductive Outlasts (docs : List StoredDocument) (d : StoredDocument) : Option StoredDocument → Prop
  /-- Its tombstone is removed. -/
  | removed (due : d ∈ docs) (marked : d.isMarked = true) : Outlasts docs d none
  /-- It is put on a cluster, or on none. -/
  | moved {r : Resource} (cluster : Option String) (due : d ∈ docs) (stored : r.stored = d) :
    Outlasts docs d (some { r with clusterName := cluster }.stored)
  | other (other : d ∉ docs) : Outlasts docs d (some d)

end StoredDocument

namespace Stores

variable (p : ControlPlane)

/-- The documents of a kind that are due, in the order they were inserted. -/
def dueOf (s : Stores) (cutoff : Cutoff) (kind : Kind) : List StoredDocument :=
  s.documents.filter fun d => decide (d.kind = kind) && d.isDue cutoff

/-- The documents that are due, kind by kind. -/
def due (s : Stores) (cutoff : Cutoff) : List StoredDocument := p.kinds.flatMap (s.dueOf cutoff)

/-- What becomes of the stores when a document is sent to the cluster that it belongs to, and of its
publication if it comes to that. -/
inductive Posts (s : Stores) (d : StoredDocument) :
    List (Option OpError) → Except OpError (Option String) → Stores → Prop
  | sent {e : Wire.Envelope} {frame : Wire.Frame} (tells : e.TellsOf s d)
    (fits : Wire.Frame.ofEnvelope e = .ok frame) :
    Posts s d [none] (.ok (some e.clusterName))
      (s.post (p.topicOf e.clusterName) e.object.namespaceName frame.toBytes)
  | unpublished {e : Wire.Envelope} {frame : Wire.Frame} {error : OpError} (tells : e.TellsOf s d)
    (fits : Wire.Frame.ofEnvelope e = .ok frame) : Posts s d [some error] (.error error) s
  /-- The envelope does not fit in a frame. -/
  | tooLarge {e : Wire.Envelope} {error : Wire.FrameError} (tells : e.TellsOf s d)
    (large : Wire.Frame.ofEnvelope e = .error error) : Posts s d [] (.error error.toOpError) s
  | homeless (homeless : s.home? d = none) : Posts s d [] (.ok none) s

/-- What becomes of the stores when it is attempted to send a resource once more. -/
inductive Attempts (s : Stores) (r : Resource) : List (Option OpError) → Stores → Prop
  | moved {faults : List (Option OpError)} {cluster : Option String} {s' : Stores}
    (posts : s.Posts p r.stored faults (.ok cluster) s')
    (stays : ¬ (cluster = none ∧ r.markedForDeletion = true)) :
    Attempts s r faults (s'.moveTo r cluster)
  /-- Its tombstone is removed, as there is no cluster for it. -/
  | removed {faults : List (Option OpError)} {s' : Stores}
    (posts : s.Posts p r.stored faults (.ok none) s') (marked : r.markedForDeletion = true) :
    Attempts s r faults ((s'.drop r).tell .deleted { r with clusterName := none })
  | failed {faults : List (Option OpError)} {e : OpError} {s' : Stores}
    (posts : s.Posts p r.stored faults (.error e) s') : Attempts s r faults s'

/-- What becomes of the stores when it is attempted to send some documents once more, each one when
it is its turn. -/
inductive Sweeps : Stores → List StoredDocument → List (Option OpError) → Stores → Prop
  | nil {s : Stores} : Sweeps s [] [] s
  | cons {s s' s'' : Stores} {r : Resource} {docs : List StoredDocument}
    {faults faults' : List (Option OpError)} (first : s.Attempts p r faults s')
    (others : Sweeps s' docs faults' s'') : Sweeps s (r.stored :: docs) (faults ++ faults') s''

/-- Whether the documents of other stores are those that some sweep of documents has left. -/
def Outlasting (s : Stores) (docs : List StoredDocument) (s' : Stores) : Prop :=
  ∃ fate : StoredDocument → Option StoredDocument,
    s'.documents = s.documents.filterMap fate ∧ ∀ d ∈ s.documents, d.Outlasts docs (fate d)

end Stores

/-- How the publications of a task ended, in faults or without them. -/
def Task.faults (t : Task) : List (Option OpError) := t.past.filterMap Exchange.fault?

theorem Exchange.filterMap_fault?_concat (past : List Exchange) (x : Exchange) :
    (past ++ [x]).filterMap fault? = past.filterMap fault? ++ x.fault?.toList := by
  rw [List.filterMap_append]
  cases hf : x.fault? <;> simp [hf]

variable {p : ControlPlane} {w : World} {r read : Resource}

/-! ## Attempts -/

namespace Stores

variable {s s' s'' : Stores} {faults faults' : List (Option OpError)} {docs : List StoredDocument}

/-- Until a message is published the stores stay as they are. -/
theorem Posts.same {d : StoredDocument} {result : Except OpError (Option String)}
    (h : s.Posts p d faults result s') :
    s'.documents = s.documents ∧ s'.rows = s.rows ∧ s'.events = s.events := by
  cases h <;> exact ⟨rfl, rfl, rfl⟩

theorem Posts.orderly {d : StoredDocument} {result : Except OpError (Option String)}
    (h : s.Posts p d faults result s') (ord : s.Orderly) : s'.Orderly := by
  obtain ⟨hdocs, hrows, -⟩ := h.same
  exact ord.of_sublist (hdocs ▸ List.Sublist.refl _) (hrows ▸ List.Subset.refl _)

/-- As many messages go out as publications do not fail. -/
theorem Posts.count {d : StoredDocument} {result : Except OpError (Option String)}
    (h : s.Posts p d faults result s') : faults.count none = match result with
      | .ok (some _) => 1
      | _ => 0 := by
  cases h <;> rfl

/-- What is neither moved nor removed stays. -/
theorem Outlasting.mem (h : s.Outlasting docs s') {d : StoredDocument} (hd : d ∈ s.documents)
    (other : d ∉ docs) : d ∈ s'.documents := by
  obtain ⟨fate, hdocs, outlasts⟩ := h
  rw [hdocs]
  refine List.mem_filterMap.2 ⟨d, hd, ?_⟩
  have hfate := outlasts d hd
  generalize fate d = o at hfate
  cases hfate with
  | removed due => exact absurd due other
  | moved _ due => exact absurd due other
  | other => rfl

theorem outlasting_nil (s : Stores) : s.Outlasting [] s :=
  ⟨some, List.filterMap_some.symm, fun _ _ => .other List.not_mem_nil⟩

/-- Of other kinds than those of the swept documents nothing changes. -/
theorem Outlasting.filter_documents (h : s.Outlasting docs s') {kind : Kind}
    (other : ∀ d ∈ docs, d.kind ≠ kind) {q : StoredDocument → Bool}
    (hq : ∀ d, q d = true → d.kind = kind) : s'.documents.filter q = s.documents.filter q := by
  obtain ⟨fate, hdocs, outlasts⟩ := h
  rw [hdocs]
  generalize s.documents = all at outlasts
  have skip : ∀ {d : StoredDocument}, d.kind ≠ kind → ¬ q d = true := fun hd h => hd (hq _ h)
  induction all with
  | nil => rfl
  | cons d rest ih =>
    obtain ⟨hd, hrest⟩ := List.forall_mem_cons.1 outlasts
    have ih := ih hrest
    rw [List.filterMap_cons]
    generalize fate d = o at hd
    cases hd with
    | removed due =>
      rw [List.filter_cons_of_neg (skip (other d due))]
      exact ih
    | @moved r cluster due stored =>
      have hkind : { r with clusterName := cluster }.stored.kind = d.kind := by
        rw [← stored, Resource.kind_stored, Resource.kind_stored]
        rfl
      rw [List.filter_cons_of_neg (skip (other d due))]
      exact (List.filter_cons_of_neg (skip (hkind ▸ other d due))).trans ih
    | other =>
      dsimp only
      rw [List.filter_cons, List.filter_cons, ih]

/-- A document that was swept is not touched by a sweep of others. -/
theorem Outlasting.cons {d : StoredDocument} (h : s.Outlasting [d] s')
    (h' : s'.Outlasting docs s'') (new : ∀ d' ∈ docs, d'.id ≠ d.id) :
    s.Outlasting (d :: docs) s'' := by
  obtain ⟨fate, hdocs, outlasts⟩ := h
  obtain ⟨fate', hdocs', outlasts'⟩ := h'
  refine ⟨fun d => (fate d).bind fate', by rw [hdocs', hdocs, List.filterMap_filterMap],
    fun c hc => ?_⟩
  have next : ∀ c', fate c = some c' → c'.Outlasts docs (fate' c') := fun c' h =>
    outlasts' c' (hdocs ▸ List.mem_filterMap.2 ⟨c, hc, h⟩)
  have stays : ∀ c' : StoredDocument, c'.id = d.id → ∀ o, c'.Outlasts docs o → o = some c' := by
    intro c' hid o ho
    cases ho with
    | removed due => exact absurd hid (new c' due)
    | moved _ due => exact absurd hid (new c' due)
    | other => rfl
  have hfate := outlasts c hc
  change StoredDocument.Outlasts (d :: docs) c ((fate c).bind fate')
  generalize fate c = o at hfate next
  cases hfate with
  | removed due marked => exact .removed (List.mem_cons.2 (.inl (List.mem_singleton.1 due))) marked
  | @moved r cluster due stored =>
    obtain rfl := List.mem_singleton.1 due
    rw [Option.bind_some, stays _ (stored ▸ rfl) _ (next _ rfl)]
    exact .moved cluster (List.mem_cons_self ..) stored
  | other other =>
    have hnext := next c rfl
    rw [Option.bind_some]
    generalize fate' c = o at hnext
    cases hnext with
    | removed due marked => exact .removed (List.mem_cons_of_mem _ due) marked
    | moved cluster due stored => exact .moved cluster (List.mem_cons_of_mem _ due) stored
    | other other' =>
      refine .other fun hc => ?_
      rcases List.mem_cons.1 hc with rfl | hc
      · exact other (List.mem_singleton_self _)
      · exact other' hc

/-- An attempt touches no document but the one that is its own. -/
theorem Attempts.outlasting (h : s.Attempts p r faults s') (ord : s.Orderly)
    (hr : r.stored ∈ s.documents) : s.Outlasting [r.stored] s' := by
  have single : ∀ {d : StoredDocument}, d ∈ s.documents → d.id ≠ r.id → d ∉ [r.stored] := by
    intro d _ hid hd
    exact hid (congrArg StoredDocument.id (List.mem_singleton.1 hd))
  -- A document that stays moves to the cluster that it is on.
  have same : s.Outlasting [r.stored] s := by
    refine ⟨some, List.filterMap_some.symm, fun d hd => ?_⟩
    by_cases hid : d.id = r.id
    · obtain rfl := ord.eq_of_id hr hd hid
      exact .moved r.clusterName (List.mem_singleton_self _) rfl
    · exact .other (single hd hid)
  cases h with
  | @moved cluster s₁ posts stays =>
    rw [Outlasting] at same ⊢
    rw [Stores.moveTo]
    split
    · rwa [posts.same.1]
    refine ⟨fun d => some (if d.id = r.id then { r with clusterName := cluster }.stored else d),
      ?_, fun d hd => ?_⟩
    · rw [List.filterMap_eq_map', ← posts.same.1]
      rfl
    · dsimp only
      split
      · rename_i hid
        obtain rfl := ord.eq_of_id hr hd hid
        exact .moved cluster (List.mem_singleton_self _) rfl
      · exact .other (single hd ‹_›)
  | @removed s₁ posts marked =>
    refine ⟨fun d => if d.id ≠ r.id then some d else none, ?_, fun d hd => ?_⟩
    · have hdrop := s₁.documents_drop r
      rw [documents_tell, hdrop, posts.same.1, ← List.filterMap_eq_filter]
      simp [Option.guard]
    · dsimp only
      split
      · exact .other (single hd ‹_›)
      · obtain rfl := ord.eq_of_id hr hd (not_not.1 ‹_›)
        exact .removed (List.mem_singleton_self _) (r.isMarked_stored.trans marked)
  | failed posts =>
    rw [Outlasting] at same ⊢
    rwa [posts.same.1]

theorem Attempts.orderly (h : s.Attempts p r faults s') (ord : s.Orderly)
    (hr : r.stored ∈ s.documents) : s'.Orderly := by
  cases h with
  | moved posts => exact (posts.orderly ord).moveTo (posts.same.1 ▸ hr) _
  | removed posts =>
    have hdrop := (posts.orderly ord).drop r
    exact ⟨hdrop.ids, hdrop.readable, hdrop.placed, hdrop.rows⟩
  | failed posts => exact posts.orderly ord

/-! ## Sweeps -/

theorem Sweeps.append (h : s.Sweeps p docs faults s') {docs' : List StoredDocument}
    (h' : s'.Sweeps p docs' faults' s'') :
    s.Sweeps p (docs ++ docs') (faults ++ faults') s'' := by
  induction h with
  | nil => exact h'
  | cons first _ ih =>
    rw [List.cons_append, List.append_assoc]
    exact .cons first (ih h')

/-- A sweep touches no documents but those that it sweeps. -/
theorem Sweeps.outlasting (h : s.Sweeps p docs faults s') (ord : s.Orderly)
    (stored : ∀ d ∈ docs, d ∈ s.documents) (nodup : (docs.map (·.id)).Nodup) :
    s.Outlasting docs s' ∧ s'.Orderly := by
  induction h with
  | nil => exact ⟨outlasting_nil _, ord⟩
  | @cons s s₁ s₂ r docs _ _ first _ ih =>
    obtain ⟨hr, hothers⟩ := List.forall_mem_cons.1 stored
    rw [List.map_cons, List.nodup_cons] at nodup
    have new : ∀ d ∈ docs, d.id ≠ r.stored.id := fun d hd hid =>
      nodup.1 (hid ▸ List.mem_map_of_mem hd)
    have outlasting := first.outlasting ord hr
    have keeps : ∀ d ∈ docs, d ∈ s₁.documents := fun d hd =>
      outlasting.mem (hothers d hd) fun h => new d hd (congrArg _ (List.mem_singleton.1 h))
    obtain ⟨rest, ord'⟩ := ih (first.orderly ord hr) keeps nodup.2
    exact ⟨outlasting.cons rest new, ord'⟩

end Stores

/-! ## What is due -/

namespace StoredDocument

variable {d : StoredDocument}

theorem exists_of_reading? (h : d.reading? = some read) :
    ∃ j, d.read = .ok j ∧ Resource.ofDocument d.kind j = .ok read := by
  rw [reading?] at h
  split at h
  · rename_i j hj
    refine ⟨j, hj, ?_⟩
    cases hdec : Resource.ofDocument d.kind j with
    | error e => rw [hdec] at h; cases h
    | ok r => rw [hdec] at h; exact congrArg _ (Option.some.inj h)
  · cases h

theorem ReadsBack.exists_reading? (h : d.ReadsBack) : ∃ read, d.reading? = some read :=
  Option.isSome_iff_exists.1 h.2

theorem gives_of_reading? (readable : r.stored.body.isReadable = true)
    (h : r.stored.reading? = some read) : r.stored.Gives read := by
  obtain ⟨j, hj, hread⟩ := exists_of_reading? h
  have hcol : r.stored.collection = r.stored.kind.collection := by
    rw [r.kind_stored]
    rfl
  exact ⟨readable, _, j, hcol, hj, hread⟩

/-- Documents of a kind that read back are read. -/
theorem mapM_reading? {kind : Kind} {docs : List StoredDocument}
    (h : ∀ d ∈ docs, d.kind = kind ∧ d.reading?.isSome = true) :
    ∃ js, docs.mapM (·.read) = .ok js ∧
      js.mapM (Resource.ofDocument kind) = .ok (docs.filterMap (·.reading?)) := by
  induction docs with
  | nil => exact ⟨[], rfl, rfl⟩
  | cons d rest ih =>
    obtain ⟨⟨rfl, hd⟩, hrest⟩ := List.forall_mem_cons.1 h
    obtain ⟨js, hjs, hrs⟩ := ih hrest
    obtain ⟨read, hread⟩ := Option.isSome_iff_exists.1 hd
    obtain ⟨j, hj, hdec⟩ := exists_of_reading? hread
    rw [List.filterMap_cons, hread]
    exact ⟨j :: js, by rw [List.mapM_cons, hj, hjs]; rfl, by rw [List.mapM_cons, hdec, hrs]; rfl⟩

end StoredDocument

namespace ControlPlane

/-- What is found waiting and stale are the documents of a kind that are due, as they read. -/
theorem findWaiting_proceeds (kind : Kind) (cutoff : Cutoff)
    (readBack : ∀ d ∈ w.stores.documents, d.kind = kind → d.ReadsBack) (ord : w.stores.Orderly) :
    (Resource.findAll kind .waiting).Proceeds (fun rs w' => w'.stores = w.stores ∧
      rs.filter (·.isStale cutoff) = (w.stores.dueOf cutoff kind).filterMap (·.reading?)) w := by
  refine Program.Weathers.tidy fun ht => ?_
  let waits : StoredDocument → Bool := fun d =>
    decide (d.kind = kind) && d.reading?.any fun r => decide (r.syncStatus.state = .inQueue)
  have picks : ∀ d ∈ w.documents.documents, d.matches? kind.collection .waiting = waits d := by
    intro d hd
    have readable := ord.readable d hd
    obtain ⟨r, -, rfl⟩ := ht.sound d hd
    have hcol : r.stored.collection = r.kind.collection := rfl
    rw [StoredDocument.matches?, Resource.holds?_waiting readable, hcol]
    by_cases hk : r.kind = kind
    · have hkind : r.stored.kind = kind := r.kind_stored.trans hk
      obtain ⟨read, hread⟩ := (readBack _ hd hkind).exists_reading?
      have gives := StoredDocument.gives_of_reading? readable hread
      simp [waits, hk, hread, gives.state]
    · have hne : ¬ r.kind.collection = kind.collection := fun h => hk (Kind.collection_inj h)
      simp [waits, hk, hne]
  have hselect : w.documents.selectAll kind.collection .waiting =
      .ok (·.matches? kind.collection .waiting) := by
    have askable : Filter.waiting.isAskable = true := rfl
    rw [DocumentStore.selectAll, if_pos askable]
    refine DocumentStore.select_ok ht fun r hr => ?_
    rw [Resource.holds?_waiting (ord.readable _ hr)]
    rfl
  have reading : ∀ d ∈ w.documents.documents.filter waits,
      d.kind = kind ∧ d.reading?.isSome = true := fun d hd => by
    obtain ⟨hd, hwaits⟩ := List.mem_filter.1 hd
    have hkind := of_decide_eq_true (Bool.and_eq_true_iff.1 hwaits).1
    exact ⟨hkind, (readBack d hd hkind).2⟩
  obtain ⟨js, hjs, hrs⟩ := StoredDocument.mapM_reading? reading
  have hfind : w.documents.find kind.collection .waiting = .ok js := by
    rw [DocumentStore.find, hselect]
    change (w.documents.documents.filter (·.matches? kind.collection .waiting)).mapM (·.read) = _
    rw [List.filter_congr picks, hjs]
  have found : (Program.find kind.collection .waiting).Proceeds
      (fun js' w' => js' = js ∧ w'.stores = w.stores) w := by
    refine Program.Proceeds.single rfl fun _ x hx _ => ⟨js, ?_, rfl, ?_⟩
    · rw [World.reply_of_unfailed (c := .find kind.collection .waiting) (by simp) hx]
      exact hfind
    · exact (w.reply_look x (c := .find kind.collection .waiting) rfl).stores
  refine found.bind fun js' w' h => ?_
  obtain ⟨rfl, hw'⟩ := h
  rw [hrs]
  refine Program.Proceeds.done ⟨hw', ?_⟩
  rw [List.filter_filterMap, Stores.dueOf, List.filterMap_filter, List.filterMap_filter]
  refine List.filterMap_congr fun d _ => ?_
  cases hread : d.reading? with
  | none => simp [waits, StoredDocument.isDue, hread]
  | some read =>
    simp only [waits, StoredDocument.isDue, hread, Option.any_some]
    cases decide (d.kind = kind) <;> cases decide (read.syncStatus.state = .inQueue) <;>
      cases hstale : read.isStale cutoff <;> simp [hstale]

end ControlPlane

namespace Stores

variable {s : Stores} {cutoff : Cutoff} {d : StoredDocument}

theorem mem_due : d ∈ s.due p cutoff ↔
    d ∈ s.documents ∧ d.kind ∈ p.kinds ∧ d.isDue cutoff = true := by
  simp only [due, dueOf, List.mem_flatMap, List.mem_filter, Bool.and_eq_true, decide_eq_true_eq]
  constructor
  · rintro ⟨kind, hkind, hd, rfl, hdue⟩
    exact ⟨hd, hkind, hdue⟩
  · rintro ⟨hd, hkind, hdue⟩
    exact ⟨d.kind, hkind, hd, rfl, hdue⟩

/-- No document is due twice. -/
theorem Orderly.nodup_due (h : s.Orderly) (nodup : p.kinds.Nodup) (cutoff : Cutoff) :
    ((s.due p cutoff).map (·.id)).Nodup := by
  have distinct : (s.due p cutoff).Nodup := by
    refine List.nodup_flatMap.2 ⟨fun kind _ => h.ids.of_map.filter _, ?_⟩
    refine nodup.imp fun {k l} hne d hk hl => hne ?_
    obtain ⟨-, hk⟩ := List.mem_filter.1 hk
    obtain ⟨-, hl⟩ := List.mem_filter.1 hl
    rw [Bool.and_eq_true, decide_eq_true_eq] at hk hl
    exact hk.1.symm.trans hl.1
  refine distinct.map_on fun d hd d' hd' hid => ?_
  exact List.inj_on_of_nodup_map h.ids (mem_due.1 hd).1 (mem_due.1 hd').1 hid

end Stores

/-! ## What operations weather -/

namespace ControlPlane

section Settle

variable (ord : w.stores.Orderly) (hr : r.stored ∈ w.stores.documents) (h : r.ReadBack read)

include h

theorem send_weathers : (p.send read read.pendingAction).Weathers (fun faults result w' =>
    w.stores.Posts p r.stored faults (result.map (·.cluster?)) w'.stores) w := by
  refine (Resource.cluster_proceeds h).bind fun o w₁ h₁ => ?_
  obtain ⟨ho, hw₁⟩ := h₁
  cases o with
  | none =>
    refine Program.Weathers.done ?_
    rw [hw₁]
    exact .homeless ho.symm
  | some x =>
    have tells : (read.envelope x read.pendingAction).TellsOf w.stores r.stored :=
      ⟨h.shows.card ▸ read.envelope_isOf x, h.shows.labels, h.shows.annotations, h.shows.spec,
        ho.symm⟩
    dsimp only
    cases hframe : Wire.Frame.ofEnvelope (read.envelope x read.pendingAction) with
    | error e =>
      refine Program.Weathers.fail ?_
      rw [hw₁]
      exact .tooLarge tells hframe
    | ok frame =>
      refine (Program.publish_weathers (p.topicOf x) read.namespaceName frame.toBytes).bind
        (fun faults n w₂ h₂ => ?_) fun faults e w₂ h₂ => ?_
      · refine Program.Weathers.done ?_
        rw [h₂.1, h₂.2, hw₁]
        exact .sent tells hframe
      · rw [h₂.1, h₂.2, hw₁]
        exact .unpublished tells hframe

include ord hr

/-- A dispatch sends a resource and moves it to where it was sent. -/
theorem dispatch_weathers : (p.dispatch read read.pendingAction).Weathers (fun faults result w' =>
    match result with
    | .ok (outcome, moved) => moved = { read with clusterName := outcome.cluster? } ∧
      ∃ s, w.stores.Posts p r.stored faults (.ok outcome.cluster?) s ∧
        w'.stores = s.moveTo r outcome.cluster?
    | .error e => w.stores.Posts p r.stored faults (.error e) w'.stores) w := by
  refine (send_weathers h).bind (fun faults outcome w₁ h₁ => ?_) fun faults e w₁ h₁ => h₁
  have posts : w.stores.Posts p r.stored faults (.ok outcome.cluster?) w₁.stores := h₁
  have ord₁ := posts.orderly ord
  have hr₁ : r.stored ∈ w₁.stores.documents := posts.same.1 ▸ hr
  have placed : read.mappingKey.Placed := h.mappingKey ▸ ord.placed_key hr
  generalize ho : outcome.cluster? = o at posts ⊢
  have ends : ∀ {moved : Resource} {w' : World}, moved = { read with clusterName := o } →
      w'.stores = w₁.stores.moveTo r o →
      (pure (outcome, moved) : Program _).Weathers (fun faults' result w' => match result with
        | .ok (outcome, moved) => moved = { read with clusterName := outcome.cluster? } ∧
          ∃ s, w.stores.Posts p r.stored (faults ++ faults') (.ok outcome.cluster?) s ∧
            w'.stores = s.moveTo r outcome.cluster?
        | .error e => w.stores.Posts p r.stored (faults ++ faults') (.error e) w'.stores) w' := by
    intro moved w' hmoved hw'
    refine Program.Weathers.done ⟨by rw [ho, hmoved], _, ?_, by rw [ho, hw']⟩
    rw [ho, List.append_nil]
    exact posts
  have stays : r.clusterName = o → read = { read with clusterName := o } := by
    intro hsame
    rw [← hsame, ← h.clusterName]
  cases o with
  | some x =>
    dsimp only
    split
    · rename_i hsame
      have hsame := h.clusterName.symm.trans hsame
      exact ends (stays hsame) (w₁.stores.moveTo_self hsame).symm
    · rename_i hne
      refine (Resource.attach_proceeds ord₁ hr₁ h (some x)).bind fun _ w₂ h₂ => ?_
      have ord₂ : w₂.stores.Orderly := h₂ ▸ ord₁.put hr₁ (some x)
      refine (Program.upsert_proceeds ord₂ placed x).bind fun _ w₃ h₃ => ?_
      refine ends rfl ?_
      rw [h₃, h₂, h.mappingKey]
      exact (w₁.stores.moveTo_of_ne fun hsame => hne (h.clusterName.trans hsame)).symm
  | none =>
    cases hrec : read.clusterName with
    | some recorded =>
      refine (Resource.attach_proceeds ord₁ hr₁ h none).bind fun _ w₂ h₂ => ?_
      refine (Program.removeMapping_proceeds read.mappingKey).bind fun _ w₃ h₃ => ?_
      refine ends rfl ?_
      rw [h₃, h₂, h.mappingKey]
      refine (w₁.stores.moveTo_of_ne fun hsame => ?_).symm
      rw [← h.clusterName, hrec] at hsame
      cases hsame
    | none =>
      have hsame := h.clusterName.symm.trans hrec
      exact ends (stays hsame) (w₁.stores.moveTo_self hsame).symm

/-- What is sent once more is attempted, and counts if a message went out. -/
theorem settle_weathers : (p.settle read).Weathers (fun faults result w' =>
    w.stores.Attempts p r faults w'.stores ∧
      ((result.map (·.1.count)).toOption.getD 0) = faults.count none) w := by
  refine (dispatch_weathers ord hr h).bind (fun faults sent w₁ h₁ => ?_) fun faults e w₁ h₁ =>
    ⟨.failed h₁, h₁.count.symm⟩
  obtain ⟨outcome, moved⟩ := sent
  obtain ⟨rfl, s, posts, hw₁⟩ := h₁
  have counts : outcome.count = faults.count none := by
    rw [posts.count]
    cases outcome <;> rfl
  have hmarked : read.markedForDeletion = r.markedForDeletion := h.markedForDeletion
  dsimp only
  split
  · rename_i hgone
    obtain ⟨rfl, marked⟩ := hgone
    rw [hmarked] at marked
    have hr₁ : r.stored ∈ s.documents := posts.same.1 ▸ hr
    have ord₁ : w₁.stores.Orderly := hw₁ ▸ (posts.orderly ord).moveTo hr₁ none
    have mem := h.mem_cards_moveTo hr₁ hw₁
    refine (Resource.remove_proceeds ord₁ mem).bind fun _ w₂ h₂ => Program.Weathers.done ?_
    have hw₂ : w₂.stores = (s.drop r).tell .deleted { r with clusterName := none } := by
      rw [h₂, hw₁]
      exact h.drop_moveTo s
    rw [List.append_nil]
    exact ⟨hw₂ ▸ .removed posts marked, counts⟩
  · rename_i hstays
    refine Program.Weathers.done ?_
    rw [List.append_nil]
    refine ⟨hw₁ ▸ .moved posts fun h => hstays ?_, counts⟩
    exact ⟨DispatchOutcome.cluster?_eq_none.1 h.1, hmarked.trans h.2⟩

end Settle

/-- What counts something, or fails, counts nothing if it failed. -/
theorem countOrZero_weathers {count : Program Nat}
    (post : List (Option OpError) → Nat → World → Prop)
    (h : count.Weathers (fun faults r w' => post faults (r.toOption.getD 0) w') w) :
    (countOrZero count).Weathers (fun faults r w' => ∃ n, r = .ok n ∧ post faults n w') w := by
  have attempted : count.attempt.Weathers (fun faults result w' =>
      ∃ r, result = .ok r ∧ post faults (r.toOption.getD 0) w') w :=
    Program.Weathers.attempt (h.mono fun _ r _ h => ⟨r, rfl, h⟩)
  refine attempted.bind (fun faults r w' h => ?_) fun _ _ _ ⟨_, hr, _⟩ => nomatch hr
  obtain ⟨r', hr, h⟩ := h
  obtain rfl := Except.ok.inj hr
  refine Program.Weathers.done ⟨_, rfl, ?_⟩
  rwa [List.append_nil]

/-- Documents that are there and read back are swept one after the other. -/
theorem sweepEach_weathers {docs : List StoredDocument} (ord : w.stores.Orderly)
    (stored : ∀ d ∈ docs, d ∈ w.stores.documents) (readBack : ∀ d ∈ docs, d.ReadsBack)
    (nodup : (docs.map (·.id)).Nodup) :
    (Program.total (fun r => countOrZero do return (← p.settle r).1.count)
      (docs.filterMap (·.reading?))).Weathers (fun faults result w' =>
        result = .ok (faults.count none) ∧ w.stores.Sweeps p docs faults w'.stores) w := by
  induction docs generalizing w with
  | nil => exact Program.Weathers.done ⟨rfl, .nil⟩
  | cons d rest ih =>
    refine Program.Weathers.tidy fun ht => ?_
    obtain ⟨hd, hrest⟩ := List.forall_mem_cons.1 stored
    obtain ⟨hback, hbacks⟩ := List.forall_mem_cons.1 readBack
    rw [List.map_cons, List.nodup_cons] at nodup
    obtain ⟨r, -, rfl⟩ := ht.sound d hd
    have ⟨read, hread⟩ := hback.exists_reading?
    have h := (StoredDocument.gives_of_reading? hback.1 hread).readBack
    rw [List.filterMap_cons, hread]
    have settled : (p.settle read >>= fun sent => pure sent.1.count).Weathers
        (fun faults result w' => w.stores.Attempts p r faults w'.stores ∧
          result.toOption.getD 0 = faults.count none) w := by
      refine (settle_weathers ord hd h).bind (fun faults sent w₁ h₁ => ?_) fun _ _ _ h => h
      refine Program.Weathers.done ?_
      rwa [List.append_nil]
    refine (countOrZero_weathers (fun faults n w' =>
      w.stores.Attempts p r faults w'.stores ∧ n = faults.count none) settled).bind
        (fun faults n w₁ h₁ => ?_) fun _ _ _ ⟨_, hr, _⟩ => nomatch hr
    obtain ⟨n', hn, attempts, rfl⟩ := h₁
    obtain rfl := Except.ok.inj hn
    have keeps : ∀ d ∈ rest, d ∈ w₁.stores.documents := by
      intro d hd'
      refine (attempts.outlasting ord hd).mem (hrest d hd') fun hmem => ?_
      exact nodup.1 (List.mem_singleton.1 hmem ▸ List.mem_map_of_mem hd')
    refine (ih (attempts.orderly ord hd) keeps hbacks nodup.2).bind
      (fun faults' m w₂ h₂ => ?_) fun _ _ _ h => nomatch h.1
    obtain ⟨hm, sweeps⟩ := h₂
    obtain rfl := Except.ok.inj hm
    refine Program.Weathers.done ⟨?_, ?_⟩
    · rw [List.append_nil, List.count_append]
    · rw [List.append_nil]
      exact .cons attempts sweeps

/-- The kinds are swept one after the other. -/
theorem sweepKinds_weathers {kinds : List Kind} (cutoff : Cutoff) (new : kinds.Nodup)
    (ord : w.stores.Orderly)
    (readBack : ∀ d ∈ w.stores.documents, d.kind ∈ kinds → d.ReadsBack) :
    (Program.total (fun kind => countOrZero (p.resyncStaleOf cutoff kind)) kinds).Weathers
      (fun faults result w' => result = .ok (faults.count none) ∧
        w.stores.Sweeps p (kinds.flatMap (w.stores.dueOf cutoff)) faults w'.stores) w := by
  induction kinds generalizing w with
  | nil => exact Program.Weathers.done ⟨rfl, .nil⟩
  | cons kind rest ih =>
    rw [List.nodup_cons] at new
    have hdue : ∀ d ∈ w.stores.dueOf cutoff kind, d ∈ w.stores.documents ∧ d.kind = kind := by
      intro d hd
      obtain ⟨hmem, hd⟩ := List.mem_filter.1 hd
      exact ⟨hmem, of_decide_eq_true (Bool.and_eq_true_iff.1 hd).1⟩
    have nodup : ((w.stores.dueOf cutoff kind).map (·.id)).Nodup :=
      ord.ids.sublist (List.filter_sublist.map _)
    have first : (p.resyncStaleOf cutoff kind).Weathers (fun faults result w' =>
        w.stores.Sweeps p (w.stores.dueOf cutoff kind) faults w'.stores ∧
          result.toOption.getD 0 = faults.count none) w := by
      have found := findWaiting_proceeds kind cutoff
        (fun d hd hk => readBack d hd (List.mem_cons.2 (.inl hk))) ord
      refine found.bind fun rs w₁ h₁ => ?_
      obtain ⟨hw₁, hrs⟩ := h₁
      rw [hrs]
      rw [← hw₁] at ord hdue nodup readBack ⊢
      refine (sweepEach_weathers ord (fun d hd => (hdue d hd).1)
        (fun d hd => ?_) nodup).mono fun faults result w' h => ⟨h.2, by rw [h.1]; rfl⟩
      exact readBack d (hdue d hd).1 (List.mem_cons.2 (.inl (hdue d hd).2))
    refine (countOrZero_weathers (fun faults n w' =>
      w.stores.Sweeps p (w.stores.dueOf cutoff kind) faults w'.stores ∧ n = faults.count none)
        first).bind (fun faults n w₁ h₁ => ?_) fun _ _ _ ⟨_, hr, _⟩ => nomatch hr
    obtain ⟨n', hn, sweeps, rfl⟩ := h₁
    obtain rfl := Except.ok.inj hn
    obtain ⟨outlasting, ord₁⟩ := sweeps.outlasting ord (fun d hd => (hdue d hd).1) nodup
    -- What is due of the other kinds is still to come.
    have others : ∀ {q : StoredDocument → Bool} {k : Kind}, k ∈ rest →
        (∀ d, q d = true → d.kind = k) →
          w₁.stores.documents.filter q = w.stores.documents.filter q := by
      intro q k hk hq
      refine outlasting.filter_documents (fun d hd hkind => ?_) hq
      exact new.1 ((hdue d hd).2.symm.trans hkind ▸ hk)
    have hsame : rest.flatMap (w₁.stores.dueOf cutoff) = rest.flatMap (w.stores.dueOf cutoff) :=
      List.flatMap_congr fun k hk =>
        others hk fun d hd => of_decide_eq_true (Bool.and_eq_true_iff.1 hd).1
    have readBack₁ : ∀ d ∈ w₁.stores.documents, d.kind ∈ rest → d.ReadsBack := by
      intro d hd hk
      have hmem : d ∈ w₁.stores.documents.filter fun d' => decide (d'.kind = d.kind) :=
        List.mem_filter.2 ⟨hd, decide_eq_true rfl⟩
      rw [others hk fun d' h => of_decide_eq_true h] at hmem
      exact readBack d (List.mem_filter.1 hmem).1 (List.mem_cons_of_mem _ hk)
    refine (ih new.2 ord₁ readBack₁).bind (fun faults' m w₂ h₂ => ?_) fun _ _ _ h => nomatch h.1
    obtain ⟨hm, sweeps'⟩ := h₂
    obtain rfl := Except.ok.inj hm
    refine Program.Weathers.done ⟨?_, ?_⟩
    · rw [List.append_nil, List.count_append]
    · rw [List.append_nil, List.flatMap_cons, ← hsame]
      exact sweeps.append sweeps'

end ControlPlane

namespace System

variable {ms ms' : List Move} {operation : Operation}

/-- What an operation that begins with the time weathers it has at its end where it is carried out
while only publications fail. -/
theorem Carried.weathered (h : Carried p ms operation ms') (only : OnlyBusFails p ms ms')
    {k : Instant → Program Outcome} (asks : operation.program p = .call .now k)
    {post : Instant → List (Option OpError) → Except OpError Outcome → World → Prop}
    (weathers : ∀ time w, w.stores = (after p ms).world.stores →
      (k time).Weathers (post time) w) :
    ∃ t time r, (after p ms').tasks = (after p ms).tasks ++ [t] ∧ t.operation = operation ∧
      t.past.head? = some ⟨.now, time⟩ ∧ t.rest = .done r ∧
      post time t.faults r (after p ms').world := by
  obtain ⟨before, ⟨later, rfl, nostart⟩, rest⟩ := h
  let Q : Task → World → Prop := fun t w =>
    t.past = [] ∧ t.rest = .call .now k ∧ w.stores = (after p ms).world.stores ∨
      ∃ time, t.past.head? = some ⟨.now, time⟩ ∧
        t.rest.Weathers (fun faults => post time (t.faults ++ faults)) w
  have step : ∀ past c next w, w.documents.Tidy → Q ⟨operation, past, .call c next⟩ w →
      ∀ x : Circumstances, x.failure = none ∨ c.isPublish = true →
        Q ⟨operation, past ++ [⟨c, (w.reply x c).1⟩], next (w.reply x c).1⟩ (w.reply x c).2 := by
    intro past c next w htidy hq x hx
    rcases hq with ⟨rfl, hrest, hw⟩ | ⟨time, hhead, hq⟩
    · obtain ⟨rfl, hnext⟩ := Program.call.inj hrest
      obtain rfl := eq_of_heq hnext
      refine .inr ⟨_, rfl, weathers _ _ ?_⟩
      exact (w.reply_look x (c := .now) rfl).stores.trans hw
    · have hhead : past.head? = some ⟨.now, time⟩ := hhead
      refine .inr ⟨time, by rw [List.head?_append, hhead]; rfl, ?_⟩
      refine (hq htidy x hx).mono fun faults r w' h => ?_
      rw [Task.faults, Exchange.filterMap_fault?_concat, List.append_assoc]
      exact h
  obtain ⟨t, htasks, hop, hq⟩ := under_way_amid before nostart
    (fun later' i x hp o past c next hi _ => only.spared hp hi) (.inl ⟨rfl, asks, rfl⟩) step
  have hdone : t.rest.isDone = true := rest t (by rw [htasks]; simp)
  have htidy := tidy p (ms ++ .start operation :: later)
  rcases hq with ⟨-, hrest, -⟩ | ⟨time, hhead, hq⟩
  · rw [hrest] at hdone
    cases hdone
  cases hr : t.rest with
  | call c next => rw [hr] at hdone; cases hdone
  | done r =>
    rw [hr] at hq
    have hpost : post time (t.faults ++ []) r _ := hq htidy
    rw [List.append_nil] at hpost
    exact ⟨t, time, r, htasks, hop, hhead, hr, hpost⟩

/-- When the system is at rest after a sequential run, and all documents read back, the stores are
in order. -/
theorem orderly (seq : Sequential p ms)
    (readBack : ∀ d ∈ (after p ms).documents, d.ReadsBack) : (after p ms).world.stores.Orderly where
  ids := (tidy p ms).ids
  readable d hd := (readBack d hd).1
  placed _ hd := (keyed seq).placed _ (List.mem_map_of_mem hd)
  rows := (keyed seq).rows

/-- What a sweep does at a time. -/
def sweepAt (p : ControlPlane) (age : Nat) (time : Instant) : Program Sweep :=
  match time.back? age with
  | none => pure .outsideCalendar
  | some cutoff => do
    let count := fun kind => ControlPlane.countOrZero (p.resyncStaleOf cutoff kind)
    return .swept (← Program.total count p.kinds)

/-- A sweep attempts the documents that are due, and counts the messages that went out. -/
theorem Carried.sweeps {age : Nat} (ord : (after p ms).world.stores.Orderly) (nodup : p.kinds.Nodup)
    (readBack : ∀ d ∈ (after p ms).documents, d.ReadsBack)
    (carried : Carried p ms (.resyncStale age) ms') (only : OnlyBusFails p ms ms')
    (fits : age ≤ ControlPlane.maxAge) :
    ∃ t time, (after p ms').tasks = (after p ms).tasks ++ [t] ∧
      t.operation = .resyncStale age ∧ t.past.head? = some ⟨.now, time⟩ ∧
      ∀ cutoff, time.back? age = some cutoff →
        t.rest = .done (.ok (.sweep (.swept (t.faults.count none)))) ∧
        (after p ms).world.stores.Sweeps p ((after p ms).world.stores.due p cutoff) t.faults
          (after p ms').world.stores := by
  let due := fun cutoff => (after p ms).world.stores.due p cutoff
  let P : Instant → List (Option OpError) → Except OpError Outcome → World → Prop :=
    fun time faults r w' => ∀ cutoff, time.back? age = some cutoff →
      r = .ok (.sweep (.swept (faults.count none))) ∧
        (after p ms).world.stores.Sweeps p (due cutoff) faults w'.stores
  have asks : (Operation.resyncStale age).program p =
      .call .now fun time => Outcome.sweep <$> sweepAt p age time := by
    rw [Operation.program, ControlPlane.resyncStale, if_neg (Nat.not_lt.2 fits)]
    rfl
  have weathers : ∀ time w, w.stores = (after p ms).world.stores →
      (Outcome.sweep <$> sweepAt p age time).Weathers (P time) w := by
    intro time w hw
    cases hback : time.back? age with
    | none =>
      have hsweep : sweepAt p age time = pure .outsideCalendar := by
        unfold sweepAt
        rw [hback]
      rw [hsweep]
      exact Program.Weathers.done fun cutoff h => absurd (hback.symm.trans h) (by simp)
    | some cutoff =>
      have swept : (sweepAt p age time).Weathers (fun faults r w' =>
          r = .ok (.swept (faults.count none)) ∧
            (after p ms).world.stores.Sweeps p (due cutoff) faults w'.stores) w := by
        unfold sweepAt
        rw [hback]
        have kinds := ControlPlane.sweepKinds_weathers (p := p) cutoff nodup (hw ▸ ord)
          fun d hd _ => readBack d (hw ▸ hd : d ∈ (after p ms).world.stores.documents)
        rw [hw] at kinds
        refine kinds.bind (fun faults n w₁ h₁ => ?_) fun _ _ _ h => absurd h.1 (by simp)
        refine Program.Weathers.done ?_
        rw [List.append_nil, ← Except.ok.inj h₁.1]
        exact ⟨rfl, h₁.2⟩
      refine swept.bind (fun faults o w₁ h₁ => Program.Weathers.done ?_) fun _ _ _ h =>
        absurd h.1 (by simp)
      intro cutoff' hback'
      obtain rfl := Option.some.inj (hback.symm.trans hback')
      rw [List.append_nil]
      exact ⟨congrArg _ (congrArg _ (Except.ok.inj h₁.1)), h₁.2⟩
  obtain ⟨t, time, r, htasks, hop, hhead, hrest, hpost⟩ := carried.weathered only asks weathers
  refine ⟨t, time, htasks, hop, hhead, fun cutoff hback => ?_⟩
  obtain ⟨rfl, sweeps⟩ := hpost cutoff hback
  exact ⟨hrest, sweeps⟩

/-- A sweep is exact, whatever publications fail: if all documents read back, it attempts those that
are due, each one once, in the order in which the kinds were registered and the documents inserted,
and no others; it counts the messages that went out; and of the documents only the clusters change,
but tombstones may be removed. -/
theorem sweep_exact {age : Nat} (seq : Sequential p ms) (nodup : p.kinds.Nodup)
    (readBack : ∀ d ∈ (after p ms).documents, d.ReadsBack)
    (carried : Carried p ms (.resyncStale age) ms') (only : OnlyBusFails p ms ms')
    (fits : age ≤ ControlPlane.maxAge) :
    ∃ t time, (after p ms').tasks = (after p ms).tasks ++ [t] ∧
      t.operation = .resyncStale age ∧ t.past.head? = some ⟨.now, time⟩ ∧
      ∀ cutoff, time.back? age = some cutoff →
        t.rest = .done (.ok (.sweep (.swept (t.faults.count none)))) ∧
        (((after p ms).world.stores.due p cutoff).map (·.id)).Nodup ∧
        (after p ms).world.stores.Sweeps p ((after p ms).world.stores.due p cutoff) t.faults
          (after p ms').world.stores ∧
        (after p ms).world.stores.Outlasting ((after p ms).world.stores.due p cutoff)
          (after p ms').world.stores := by
  have ord := orderly seq readBack
  obtain ⟨t, time, htasks, hop, hhead, hswept⟩ := carried.sweeps ord nodup readBack only fits
  refine ⟨t, time, htasks, hop, hhead, fun cutoff hback => ?_⟩
  obtain ⟨hrest, sweeps⟩ := hswept cutoff hback
  have stored : ∀ d ∈ (after p ms).world.stores.due p cutoff,
      d ∈ (after p ms).world.stores.documents := fun d hd => (Stores.mem_due.1 hd).1
  have distinct : (((after p ms).world.stores.due p cutoff).map (·.id)).Nodup :=
    ord.nodup_due nodup cutoff
  exact ⟨hrest, distinct, sweeps, (sweeps.outlasting ord stored distinct).1⟩

/-! ### A run -/

/-- A later time. -/
def laterTime : Instant := { (default : Instant) with
  date := ⟨2000, 1, 1⟩
  date_valid := by decide }

/-- A turn at that time, whose call may fail. -/
def laterTurn (task : Nat) (failure : Option OpError) : Move :=
  .turn task ⟨laterTime, "8a410000", .ok true, failure⟩

/-- The turns of a sweep: the first message that it publishes does not go out. -/
def sweepTurns : List Move :=
  List.replicate 2 (laterTurn 2 none) ++ laterTurn 2 (some (.bus "publish" "eu-1" "timeout")) ::
    List.replicate 9 (laterTurn 2 none)

/-- After a project and its environment were created, all that waits is sent once more. -/
def sweptRun : List Move := attachedRun ++ .start (.resyncStale 0) :: sweepTurns

theorem noStart_sweepTurns : NoStart sweepTurns := by
  intro o ho
  rcases List.mem_append.1 ho with ho | ho
  · exact noStart_turns _ _ _ o ho
  · rcases List.mem_cons.1 ho with ho | ho
    · cases ho
    · exact noStart_turns _ _ _ o ho

/-- The time that a task was told at first. -/
def timeOf (t : Task) : Option Instant :=
  match t.past with
  | ⟨.now, time⟩ :: _ => some time
  | _ => none

theorem timeOf_eq {t : Task} {time : Instant} (h : t.past.head? = some ⟨.now, time⟩) :
    timeOf t = some time := by
  rw [timeOf]
  cases hpast : t.past with
  | nil => rw [hpast] at h; cases h
  | cons x later =>
    rw [hpast] at h
    obtain rfl := Option.some.inj h
    rfl

/-- What is asked for before the year 2000 is due. -/
def laterCutoff : Cutoff := ⟨946684800, 0⟩

theorem sweptRun_faults : ((after .default createdRun).AtRest ∧
    (after .default attachedRun).AtRest ∧ (after .default sweptRun).AtRest) ∧
    (∀ d ∈ (after .default attachedRun).documents, d.ReadsBack) ∧
    OnlyBusFails .default attachedRun sweptRun ∧
    (after .default attachedRun).tasks.length = 2 ∧
    ((after .default attachedRun).world.stores.due .default laterCutoff).length = 2 ∧
    (after .default sweptRun).tasks[2]?.map (fun t => (timeOf t, t.faults)) =
      some (some laterTime, [some (.bus "publish" "eu-1" "timeout"), none]) := by
  decide +kernel

theorem carried_sweptRun : Carried .default attachedRun (.resyncStale 0) sweptRun := by
  obtain ⟨⟨-, attached, swept⟩, -⟩ := sweptRun_faults
  exact ⟨attached, ⟨sweepTurns, rfl, noStart_sweepTurns⟩, swept⟩

theorem back?_laterTime : laterTime.back? 0 = some laterCutoff := by
  decide +kernel

/-- Of the two messages that a sweep is to send, the first one does not go out, and the second one
does. -/
theorem sweep_exact_bus_failed : ∃ t, (after .default sweptRun).tasks =
    (after .default attachedRun).tasks ++ [t] ∧ t.rest = .done (.ok (.sweep (.swept 1))) ∧
      ∃ docs, docs.length = 2 ∧ (after .default attachedRun).world.stores.Sweeps .default docs
        [some (.bus "publish" "eu-1" "timeout"), none] (after .default sweptRun).world.stores := by
  obtain ⟨⟨created, attached, -⟩, readBack, only, length, due, faults⟩ := sweptRun_faults
  obtain ⟨t, time, htasks, -, hhead, exact⟩ := sweep_exact (sequential_attachedRun created)
    (by decide) readBack carried_sweptRun only (Nat.zero_le _)
  have ht : (after .default sweptRun).tasks[2]? = some t := by
    rw [htasks, ← length, List.getElem?_concat_length]
  rw [ht, Option.map_some, Option.some.injEq, Prod.mk.injEq] at faults
  obtain ⟨told, hfaults⟩ := faults
  rw [timeOf_eq hhead] at told
  obtain rfl := Option.some.inj told
  obtain ⟨hrest, -, sweeps, -⟩ := exact laterCutoff back?_laterTime
  rw [hfaults] at hrest sweeps
  exact ⟨t, htasks, hrest, _, due, sweeps⟩

end System

end FleetSync
