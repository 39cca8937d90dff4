import FleetSync.Proofs.Intake.Faultless

/-!
# Reports that come twice

Where no call is made to fail, a report that is taken in leaves all documents and mappings as they
are, or it becomes part of the document that it is about, or that document goes away from the
address of the report: it is removed, or moved to another cluster (`World.Takes`,
`ControlPlane.route_ends`). If nothing else is at that address, then the report is about nobody any
more; and what it has written once it would write again, since the times in a document read back as
they were. So the same report a second time changes nothing (`System.redelivery_idempotent`).
-/

namespace FleetSync

/-- The world once reports were taken in one after the other, where no call is made to fail. -/
def World.takeIn (p : ControlPlane) (w : World) (reports : List Wire.Report) : World :=
  reports.foldl (fun w report => ((p.route report).run (World.answer .allowAll) w).2) w

/-- Whether a world has one document at an address at most. -/
def World.SoleAt (w : World) (a : Wire.Address) : Prop :=
  ∀ d ∈ w.documents.documents, ∀ d' ∈ w.documents.documents,
    d.card.address? = some a → d'.card.address? = some a → d' = d

theorem World.soleAt_of_length {w : World} {a : Wire.Address}
    (h : (w.documents.documents.filter fun d => decide (d.card.address? = some a)).length ≤ 1) :
    w.SoleAt a := by
  intro d hd d' hd' ha ha'
  let at? : StoredDocument → Bool := fun d => decide (d.card.address? = some a)
  have mem : d ∈ w.documents.documents.filter at? := List.mem_filter.2 ⟨hd, decide_eq_true ha⟩
  have mem' : d' ∈ w.documents.documents.filter at? :=
    List.mem_filter.2 ⟨hd', decide_eq_true ha'⟩
  rw [Ledger.eq_singleton_of_mem h mem] at mem'
  exact List.mem_singleton.1 mem'

/-- Whether a resource has gone away from where it was, or to another cluster. -/
structure Resource.Leaves (r : Resource) (w w' : World) : Prop where
  tidy : w'.documents.Tidy
  left : ∀ d ∈ w'.documents.documents, d ∈ w.documents.documents ∧ d.id ≠ r.id ∨
    d.card.key = r.card.key ∧ d.card.cluster ≠ r.card.cluster

/-- What a report on the stored version is to change, if it is no confirmation. -/
inductive Wire.Report.Asks (report : Wire.Report) : Change → Prop
  | observe {status : Option Observed} (update : report.kind = .statusUpdate)
    (parsed : report.observed = .ok status) : Asks report (.observe report status)
  | fail {message : String} (failure : report.kind = .applyError message) :
    Asks report (.fail message report.timestamp)

/-- What becomes of the documents and mappings of a world when a report is taken in. -/
inductive World.Takes (report : Wire.Report) (w w' : World) : Prop
  | keeps (alike : w.Alike w')
  /-- It is written into the document. -/
  | writes {d : StoredDocument} {e : Edit} (mem : d ∈ w.documents.documents)
    (about : d.card.address? = some report.address) (gives : d.Gives e.current)
    (current : d.card.version = report.recordVersion) (asks : report.Asks e.change)
    (mappings : w'.mappings = w.mappings)
    (written : ∀ r : Resource, r.stored = d → w'.documents.documents =
      w.documents.documents.map fun d => if d.id = r.id then (e.apply r).stored else d)
  /-- The document leaves: it is removed, or it did not belong where it was. -/
  | leaves {r : Resource} (mem : r.stored ∈ w.documents.documents)
    (about : r.card.address? = some report.address) (leaves : r.Leaves w w')
    (cause : report.kind = .deleteConfirmation ∨
      r.card.version ≠ report.recordVersion ∧ w.ledger.target r.card ≠ r.card.cluster)

section Leaves

variable {w w' w'' : World} {r : Resource}

/-- Where a resource has left, it stays away as documents are deleted. -/
theorem Resource.Leaves.of_sublist (h : r.Leaves w w')
    (hs : w''.documents.documents.Sublist w'.documents.documents) : r.Leaves w w'' :=
  ⟨h.tidy.of_sublist hs, fun d hd => h.left d (hs.subset hd)⟩

/-- A resource that is put on another cluster has left. -/
theorem Resource.leaves_of_put {o : Option String} (tidy : w.documents.Tidy) (sound : r.Sound)
    (hr : r.stored ∈ w.documents.documents) (moved : o ≠ r.clusterName)
    (hs : w'.documents.documents = w.documents.documents.map fun d =>
      if d.id = r.id then ({ r with clusterName := o } : Resource).stored else d) :
    r.Leaves w w' := by
  let r' : Resource := { r with clusterName := o }
  have sound' : r'.Sound := ⟨sound.version_pos, sound.version_le, sound.agrees⟩
  refine ⟨tidy.put hr sound' rfl rfl rfl hs, fun d' hd' => ?_⟩
  obtain ⟨d, hd, rfl⟩ := List.mem_map.1 (hs ▸ hd')
  split
  · refine .inr ?_
    rw [Resource.card_stored]
    exact ⟨rfl, moved⟩
  · exact .inl ⟨hd, ‹_›⟩

end Leaves

namespace ControlPlane

variable {p : ControlPlane} {w : World} {r read : Resource} {report : Wire.Report}

/-! ## Sending once more -/

theorem send_ends (read : Resource) (action : SyncAction) :
    (p.send read action).Ends (fun result w' => w.Alike w' ∧
      ∀ outcome, result = .ok outcome → outcome.cluster? = w.ledger.target read.card) w := by
  refine (Resource.cluster_ends read).bind (fun o w₁ h₁ => ?_) fun e w₁ h₁ => nomatch h₁.2
  obtain ⟨rfl, ho⟩ := h₁
  rw [← Except.ok.inj ho]
  cases o with
  | none => exact Program.Ends.done ⟨.refl _, fun _ h => Except.ok.inj h ▸ rfl⟩
  | some x =>
    dsimp only
    cases Wire.Frame.ofEnvelope (read.envelope x action) with
    | error e => exact Program.Ends.known ⟨.refl _, fun _ h => nomatch h⟩
    | ok frame =>
      refine (Program.publish_ends (p.topicOf x) read.namespaceName frame.toBytes).bind
        (fun n w₂ h₂ => ?_) fun e w₂ h₂ => nomatch h₂.1.choose_spec
      exact Program.Ends.done ⟨h₂.2, fun _ h => Except.ok.inj h ▸ rfl⟩

section Settle

variable (tidy : w.documents.Tidy) (sound : r.Sound) (hr : r.stored ∈ w.documents.documents)
  (gives : r.stored.Gives read)

include tidy sound hr gives

/-- What is dispatched stays where it is, or it leaves a cluster that it does not belong to. -/
theorem dispatch_ends (action : SyncAction) : (p.dispatch read action).Ends (fun result w' =>
    w.Alike w' ∧ (∀ sent, result = .ok sent → sent.1.cluster? = r.clusterName) ∨
      w.ledger.target r.card ≠ r.clusterName ∧ r.Leaves w w') w := by
  have h := gives.readBack
  refine (send_ends read action).bind (fun outcome w₁ h₁ => ?_) fun e w₁ h₁ =>
    .inl ⟨h₁.1, fun _ h => nomatch h⟩
  obtain ⟨alike, houtcome⟩ := h₁
  have htarget := houtcome outcome rfl
  rw [h.card] at htarget
  -- The record is written if the cluster is another one, and then it may be that the write fails.
  have moves : ∀ (o : Option String) {next : Bool → Program (DispatchOutcome × Resource)},
      outcome.cluster? = o → o ≠ r.clusterName →
      (∀ hit w₂, r.Leaves w w₂ → (next hit).Ends (fun _ w' => r.Leaves w w') w₂) →
      (read.patch [.set ["cluster_name"] (.ofOption .str o)] >>= next).Ends (fun result w' =>
        w.Alike w' ∧ (∀ sent, result = .ok sent → sent.1.cluster? = r.clusterName) ∨
          w.ledger.target r.card ≠ r.clusterName ∧ r.Leaves w w') w₁ := by
    intro o next ho hne leaves
    have hends := Edit.ends (e := ⟨read, .attach o⟩) (alike.documents ▸ tidy)
      (alike.documents ▸ hr : r.stored ∈ w₁.documents.documents) gives fun _ => rfl
    refine Program.Ends.bind hends (fun hit w₂ h₂ => ?_) fun e w₂ h₂ => ?_
    · obtain ⟨-, documents, rfl, hdocuments⟩ := h₂.resolve_left fun h => nomatch h.1.choose_spec
      replace hdocuments := hdocuments r rfl
      rw [alike.documents] at hdocuments
      have hleaves : r.Leaves w { w₁ with documents } :=
        Resource.leaves_of_put tidy sound hr hne hdocuments
      exact (leaves hit _ hleaves).mono fun _ _ h => .inr ⟨htarget ▸ ho ▸ hne, h⟩
    · obtain ⟨-, rfl⟩ := h₂.resolve_right fun h => nomatch h.1
      exact .inl ⟨alike, fun _ h => nomatch h⟩
  cases ho : outcome.cluster? with
  | some x =>
    dsimp only
    split
    · rename_i hsame
      refine Program.Ends.done (.inl ⟨alike, fun sent hsent => ?_⟩)
      obtain rfl := Except.ok.inj hsent
      exact ho.trans (hsame.symm.trans h.clusterName)
    · rename_i hne
      refine moves (some x) ho (fun hsame => hne (h.clusterName.trans hsame.symm)) fun _ w₂ h₂ => ?_
      exact (Program.upsert_ends (read.mapping x)).bind
        (fun _ w₃ h₃ => Program.Ends.done (h₂.of_sublist (h₃ ▸ List.Sublist.refl _)))
        fun _ w₃ h₃ => h₂.of_sublist (h₃ ▸ List.Sublist.refl _)
  | none =>
    cases hrec : read.clusterName with
    | some recorded =>
      refine moves none ho (fun hsame => ?_) fun _ w₂ h₂ => h₂.of_sublist (List.Sublist.refl _)
      exact nomatch hsame.trans (h.clusterName.symm.trans hrec)
    | none =>
      refine Program.Ends.done (.inl ⟨alike, fun sent hsent => ?_⟩)
      obtain rfl := Except.ok.inj hsent
      exact ho.trans (hrec.symm.trans h.clusterName)

/-- What is sent once more stays where it is, or it leaves a cluster that it does not belong to. -/
theorem settle_ends {x : String} (hx : r.clusterName = some x) : (p.settle read).Ends (fun _ w' =>
    w.Alike w' ∨ w.ledger.target r.card ≠ r.clusterName ∧ r.Leaves w w') w := by
  refine (dispatch_ends tidy sound hr gives read.pendingAction).bind (fun sent w₁ h₁ => ?_)
    fun e w₁ h₁ => h₁.imp_left (·.1)
  obtain ⟨outcome, moved⟩ := sent
  dsimp only
  split
  · rename_i hgone
    rcases h₁ with ⟨-, hsent⟩ | ⟨hne, leaves⟩
    · have hnone := hsent _ rfl
      rw [hgone.1, hx] at hnone
      cases hnone
    · refine (Resource.remove_ends moved).bind (fun _ w₂ h₂ => Program.Ends.done ?_)
        fun _ w₂ h₂ => ?_
      all_goals
        refine .inr ⟨hne, leaves.of_sublist ?_⟩
        rcases h₂ with alike | ⟨_, hs⟩
        · rw [alike.documents]
        · exact DocumentStore.deleteOne_sublist hs
  · exact Program.Ends.done (h₁.imp_left (·.1))

end Settle

/-! ## Reports -/

section Reports

variable (tidy : w.documents.Tidy) (sound : r.Sound) (hr : r.stored ∈ w.documents.documents)
  (about : r.card.address? = some report.address) (gives : r.stored.Gives read)

include tidy sound hr about gives

theorem resend_ends (stale : read.recordVersion ≠ report.recordVersion) :
    (p.resend read).Ends (fun _ => w.Takes report) w := by
  obtain ⟨x, hx, -⟩ := Option.map_eq_some_iff.1 about
  have h := gives.readBack
  refine (settle_ends tidy sound hr gives hx).bind (fun _ w₁ h₁ => Program.Ends.done ?_)
    fun _ w₁ h₁ => ?_
  all_goals
    rcases h₁ with alike | ⟨hne, leaves⟩
    · exact .keeps alike
    · exact .leaves hr about leaves (.inr ⟨fun hv => stale (h.recordVersion.trans hv), hne⟩)

omit sound gives in
/-- What a report asks for is written, unless the store fails. -/
theorem edit_ends {e : Edit} {told : Resource} {outcome : Intake} {otherwise : Program Intake}
    (gives : r.stored.Gives e.current) (current : e.current.recordVersion = report.recordVersion)
    (asks : report.Asks e.change) :
    (Program.patchOne e.current.kind.collection e.filter (.ofFields e.changes) >>= fun hit =>
      if hit = true then Program.emit .updated told >>= fun _ => pure outcome
      else otherwise).Ends (fun _ => w.Takes report) w := by
  have hkind : ∀ r : Resource, (e.apply r).kind = r.kind := by
    intro r
    obtain ⟨current, change⟩ := e
    cases asks <;> rfl
  have hedit := Edit.ends tidy hr gives hkind
  refine Program.Ends.bind hedit (fun hit w₁ h₁ => ?_) fun e w₁ h₁ => ?_
  · obtain ⟨hhit, documents, rfl, written⟩ := h₁.resolve_left fun h => nomatch h.1.choose_spec
    obtain rfl := Except.ok.inj hhit
    rw [← r.card_stored] at about
    have version := gives.readBack.recordVersion.symm.trans current
    exact .writes hr about gives ((congrArg Card.version r.card_stored).trans version) asks rfl
      written
  · obtain ⟨-, rfl⟩ := h₁.resolve_right fun h => nomatch h.1
    exact .keeps (.refl _)

theorem takeStatus_ends (update : report.kind = .statusUpdate) :
    (p.takeStatus read report).Ends (fun _ => w.Takes report) w := by
  unfold takeStatus
  split
  · exact resend_ends tidy sound hr about gives ‹_›
  rename_i current
  rw [not_not] at current
  cases hparsed : report.observed with
  | error e => exact Program.Ends.known (.keeps (.refl _))
  | ok status =>
    exact edit_ends (e := ⟨read, .observe report status⟩) tidy hr about gives current
      (.observe update hparsed)

theorem takeDeletion_ends (confirms : report.kind = .deleteConfirmation) :
    (p.takeDeletion read report).Ends (fun _ => w.Takes report) w := by
  unfold takeDeletion
  cases hdecided :
      deleteConfirmed read.recordVersion report.recordVersion read.markedForDeletion with
  | remove =>
    have hcard : read.card ∈ w.documents.cards := by
      rw [gives.readBack.card, ← r.card_stored]
      exact List.mem_map_of_mem hr
    refine (Resource.remove_ends read).bind (fun _ w₁ h₁ => Program.Ends.done ?_) fun _ w₁ h₁ => ?_
    all_goals
      rcases h₁ with alike | ⟨_, hs⟩
      · exact .keeps alike
      · refine .leaves hr about ⟨tidy.of_sublist (DocumentStore.deleteOne_sublist hs),
          fun d hd => .inl ?_⟩ (.inl confirms)
        rw [tidy.deletesOne hcard hs, gives.readBack.id] at hd
        obtain ⟨hd, hne⟩ := List.mem_filter.1 hd
        exact ⟨hd, of_decide_eq_true hne⟩
  | resync =>
    refine resend_ends tidy sound hr about gives fun hv => ?_
    exact nomatch hdecided.symm.trans (deleteConfirmed_eq_remove.2 (.inr hv))

theorem takeError_ends {message : String} (failure : report.kind = .applyError message) :
    (p.takeError read report message).Ends (fun _ => w.Takes report) w := by
  unfold takeError
  split
  · exact resend_ends tidy sound hr about gives ‹_›
  rename_i current
  rw [not_not] at current
  exact edit_ends (e := ⟨read, .fail message report.timestamp⟩) tidy hr about gives current
    (.fail failure)

end Reports

/-- What becomes of the documents and mappings when a report is taken in. -/
theorem route_ends (tidy : w.documents.Tidy) (report : Wire.Report) :
    (p.route report).Ends (fun _ => w.Takes report) w := by
  unfold route
  split
  · refine (Resource.findReported_ends tidy report).bind (fun found w₁ h₁ => ?_)
      fun e w₁ h₁ => h₁.1 ▸ .keeps (.refl _)
    obtain ⟨rfl, hfound⟩ := h₁
    cases found with
    | none => exact Program.Ends.done (.keeps (.refl _))
    | some read =>
      obtain ⟨d, hd, about, gives⟩ := hfound read rfl
      obtain ⟨r, sound, rfl⟩ := tidy.sound d hd
      rw [r.card_stored] at about
      cases hkind : report.kind with
      | statusUpdate => exact takeStatus_ends tidy sound hd about gives hkind
      | deleteConfirmation => exact takeDeletion_ends tidy sound hd about gives hkind
      | applyError message => exact takeError_ends tidy sound hd about gives hkind
  · exact Program.Ends.done (.keeps (.refl _))

end ControlPlane

/-! ## Once more -/

section Again

variable {w w₁ w₂ : World} {report : Wire.Report} {r : Resource} {e e₁ : Edit}

theorem Card.cluster_of_address? {c : Card} {a : Wire.Address} (h : c.address? = some a) :
    c.cluster = some a.cluster := by
  obtain ⟨x, hx, rfl⟩ := Option.map_eq_some_iff.1 h
  exact hx

/-- What a report asks for leaves the card. -/
theorem Wire.Report.Asks.card_apply (asks : report.Asks e.change) (r : Resource) :
    (e.apply r).card = r.card := by
  obtain ⟨current, change⟩ := e
  cases asks <;> rfl

theorem Wire.Report.Asks.not_confirms {change : Change} (asks : report.Asks change) :
    report.kind ≠ .deleteConfirmation := by
  cases asks with
  | observe update => exact fun h => nomatch update.symm.trans h
  | fail failure => exact fun h => nomatch failure.symm.trans h

/-- What a report has written once, it writes again. -/
theorem Wire.Report.Asks.apply_again (asks : report.Asks e.change) (asks₁ : report.Asks e₁.change)
    (version : e.current.recordVersion = r.recordVersion)
    (gives : (e.apply r).stored.Gives e₁.current) : e₁.apply (e.apply r) = e.apply r := by
  have h := gives.readBack
  have hscheduled := gives.scheduled
  have haction := h.action
  have hversion := h.recordVersion
  have hsync := h.syncVersion
  obtain ⟨current, change⟩ := e
  obtain ⟨current₁, change₁⟩ := e₁
  cases asks with
  | observe update parsed =>
    cases asks₁ with
    | observe _ parsed₁ =>
      obtain rfl := Except.ok.inj (parsed.symm.trans parsed₁)
      simp only [Edit.apply, SyncStatus.confirmed] at hscheduled haction hversion version ⊢
      rw [hscheduled, haction, hversion, ← version]
    | fail failure => cases update.symm.trans failure
  | fail failure =>
    cases asks₁ with
    | observe update => cases update.symm.trans failure
    | fail failure₁ =>
      obtain rfl := Wire.ReportKind.applyError.inj (failure.symm.trans failure₁)
      simp only [Edit.apply, SyncStatus.failed] at hscheduled haction hsync ⊢
      rw [hscheduled, haction, hsync]

/-- Where the only document at an address has left it, nobody is there any more. -/
theorem Resource.Leaves.nobody (h : r.Leaves w w₁) {a : Wire.Address} (sole : w.SoleAt a)
    (hr : r.stored ∈ w.documents.documents) (about : r.card.address? = some a) :
    ∀ d ∈ w₁.documents.documents, d.card.address? ≠ some a := by
  intro d hd address
  rcases h.left d hd with ⟨hd, hne⟩ | ⟨-, hne⟩
  · rw [← r.card_stored] at about
    exact hne (congrArg StoredDocument.id (sole _ hr d hd about address))
  · exact hne ((Card.cluster_of_address? address).trans (Card.cluster_of_address? about).symm)

/-- A report that is about nobody changes nothing. -/
theorem World.Takes.of_nobody (h : w.Takes report w₁)
    (nobody : ∀ d ∈ w.documents.documents, d.card.address? ≠ some report.address) :
    w.Alike w₁ := by
  cases h with
  | keeps alike => exact alike
  | writes mem about => exact absurd about (nobody _ mem)
  | @leaves r mem about =>
    rw [← r.card_stored] at about
    exact absurd about (nobody _ mem)

/-- A store is tidy once a report is written into a document. -/
theorem Wire.Report.Asks.tidy_written (asks : report.Asks e.change) (tidy : w.documents.Tidy)
    (sound : r.Sound) (hr : r.stored ∈ w.documents.documents) (gives : r.stored.Gives e.current)
    (written : w₁.documents.documents = w.documents.documents.map fun d =>
      if d.id = r.id then (e.apply r).stored else d) : w₁.documents.Tidy := by
  have h := gives.readBack
  have fits : e.Fits r := ⟨h.kind.symm, h.id.symm, fun _ => h.recordVersion.symm⟩
  have known := Edit.known_of_readsAs (e := e) (r := r) h.toReadsAs sound (Int.le_refl _)
  have sound' := Edit.sound_apply sound fits (.inr known)
  obtain ⟨current, change⟩ := e
  cases asks <;> exact tidy.put hr sound' rfl rfl rfl written

/-- Where a report is written into the only document at an address, no other one comes there. -/
theorem World.SoleAt.eq_written {a : Wire.Address} (sole : w.SoleAt a)
    (hr : r.stored ∈ w.documents.documents) (about : r.card.address? = some a)
    (written : w₁.documents.documents = w.documents.documents.map fun d =>
      if d.id = r.id then (e.apply r).stored else d)
    {d : StoredDocument} (hd : d ∈ w₁.documents.documents) (address : d.card.address? = some a) :
    d = (e.apply r).stored := by
  rw [written] at hd
  obtain ⟨d₀, hd₀, hif⟩ := List.mem_map.1 hd
  split at hif
  · exact hif.symm
  · rename_i hne
    subst hif
    rw [← r.card_stored] at about
    exact absurd (congrArg StoredDocument.id (sole _ hr d₀ hd₀ about address)) hne

end Again

namespace System

/-- If at most one document is at its address, then a report that is taken in twice in a row leaves
the documents and mappings as it does if it is taken in once, whatever came before, what it is and
how it ends. -/
theorem redelivery_idempotent (p : ControlPlane) (moves : List Move) (report : Wire.Report)
    (sole : (after p moves).world.SoleAt report.address) :
    ((after p moves).world.takeIn p [report]).SameRecords
      ((after p moves).world.takeIn p [report, report]) := by
  have tidy := tidy p moves
  generalize (after p moves).world = w at sole tidy
  let w₁ := w.takeIn p [report]
  let w₂ := w.takeIn p [report, report]
  have first : w.Takes report w₁ := p.route_ends tidy report
  have second : w₁.documents.Tidy → w₁.Takes report w₂ := fun h => p.route_ends h report
  cases first with
  | keeps alike => exact ((p.route_steady report).run .allowAll alike).toSameRecords
  | leaves mem about leaves =>
    exact ((second leaves.tidy).of_nobody (leaves.nobody sole mem about)).toSameRecords
  | @writes d e mem about gives current asks mappings written =>
    obtain ⟨r, sound, rfl⟩ := tidy.sound d mem
    have written := written r rfl
    have tidy₁ := asks.tidy_written tidy sound mem gives written
    rw [r.card_stored] at about current
    have alone : ∀ d ∈ w₁.documents.documents, d.card.address? = some report.address →
        d = (e.apply r).stored := fun d hd => sole.eq_written mem about written hd
    cases second tidy₁ with
    | keeps alike => exact alike.toSameRecords
    | @leaves r₁ mem₁ about₁ _ cause =>
      rw [← r₁.card_stored] at about₁ cause
      rw [alone _ mem₁ about₁, Resource.card_stored, asks.card_apply] at cause
      rcases cause with confirms | ⟨stale, -⟩
      · exact absurd confirms asks.not_confirms
      · exact absurd current stale
    | @writes d₁ e₁ mem₁ about₁ gives₁ _ asks₁ mappings₁ written₁ =>
      obtain rfl := alone d₁ mem₁ about₁
      have hdocs : w₂.documents.documents = w₁.documents.documents := by
        rw [written₁ _ rfl, asks.apply_again asks₁ gives.readBack.recordVersion gives₁]
        calc _ = w₁.documents.documents.map fun d => d := List.map_congr_left fun d hd => by
              split
              · exact (List.inj_on_of_nodup_map tidy₁.ids hd mem₁ ‹_›).symm
              · rfl
          _ = w₁.documents.documents := List.map_id' _
      exact ⟨congrArg DocumentStore.mk hdocs, mappings₁⟩

/-- A confirmation removes the project the first time, and then it is about nobody. -/
theorem redelivery_idempotent_removed :
    (after .default createdRun).world.SoleAt (shopReport 1 .deleteConfirmation).address ∧
    (∃ d ∈ (after .default createdRun).documents,
      d.card.address? = some (shopReport 1 .deleteConfirmation).address) ∧
    ((after .default createdRun).world.takeIn .default
      [shopReport 1 .deleteConfirmation]).documents.documents.length = 0 ∧
    ((after .default createdRun).world.takeIn .default
        [shopReport 1 .deleteConfirmation]).SameRecords
      ((after .default createdRun).world.takeIn .default
        [shopReport 1 .deleteConfirmation, shopReport 1 .deleteConfirmation]) := by
  obtain ⟨single, about, removed⟩ : ((after .default createdRun).world.documents.documents.filter
        fun d => decide (d.card.address? =
          some (shopReport 1 .deleteConfirmation).address)).length ≤ 1 ∧
      (∃ d ∈ (after .default createdRun).documents,
        d.card.address? = some (shopReport 1 .deleteConfirmation).address) ∧
      ((after .default createdRun).world.takeIn .default
        [shopReport 1 .deleteConfirmation]).documents.documents.length = 0 := by
    decide +kernel
  have sole := World.soleAt_of_length single
  exact ⟨sole, about, removed,
    redelivery_idempotent .default createdRun (shopReport 1 .deleteConfirmation) sole⟩

end System

end FleetSync
