import FleetSync.Proofs.Sequence.Operations
import FleetSync.Proofs.Sequence.Stores

/-!
# What becomes of a report

Which document a report is about is told by its address (`Stores.addressee?`). A report on the
stored version is taken in: what the agent observed, or why it failed, becomes part of the document,
or a confirmation removes it. A report on another version is answered by sending the document once
more as it is to the cluster that it belongs to (`Stores.Sends`, `Stores.Resends`). The whole table
is `Stores.TakesIn`, with the outcome of each case and all that it makes of the stores. Taking a
report in leads to one of these cases (`ControlPlane.route_takesIn`), and so does every operation
with a report (`Operation.takesIn`).
-/

namespace FleetSync

/-- The first document that has the address of a report. -/
def Stores.addressee? (s : Stores) (report : Wire.Report) : Option StoredDocument :=
  s.documents.find? fun d => decide (d.card.address? = some report.address)

/-- The cluster that a stored document belongs to: a project says itself which one, and everything
else is where the owner of its scope is mapped to. -/
def Stores.home? (s : Stores) (d : StoredDocument) : Option String :=
  if d.kind = .project then d.specCluster? else (MappingIndex.mk s.rows).resolve d.card.key.scope

/-- Whether an envelope is about a stored document as it is, and is addressed to the cluster that
the document belongs to. -/
structure Wire.Envelope.TellsOf (e : Wire.Envelope) (s : Stores) (d : StoredDocument) : Prop where
  isOf : e.IsOf d.card
  labels : d.Says "labels" (.ofStrings e.object.labels)
  annotations : d.Says "annotations" (.ofStrings e.object.annotations)
  spec : d.Says "spec" e.object.spec
  cluster : s.home? d = some e.clusterName

/-- Whether a resource has become another one by what an agent observed. -/
structure Resource.Observes (r : Resource) (report : Wire.Report) (status : Option Observed)
    (r' : Resource) : Prop where
  fields : r' = { r with
    labels := report.object.labels
    annotations := report.object.annotations
    generation := report.object.generation
    agentCreationTimestamp := report.object.creationTimestamp
    status := status
    syncStatus := r'.syncStatus }
  state : r'.syncStatus.state =
    if report.object.deletionTimestamp.isSome then .deletingAtAgent else .updatedAtAgent
  confirmed : r'.syncStatus.recordVersion = report.recordVersion
  lastSyncedAt : r'.syncStatus.lastSyncedAt = some report.timestamp
  error : r'.syncStatus.error = none
  action : r'.syncStatus.action = r.syncStatus.action
  scheduled : r'.syncStatus.syncScheduledAt.isSome = r.syncStatus.syncScheduledAt.isSome

/-- Whether a resource has become another one by an agent's failure. -/
structure Resource.Fails (r : Resource) (message : String) (time : Instant) (r' : Resource) :
    Prop where
  fields : r' = { r with syncStatus := r'.syncStatus }
  state : r'.syncStatus.state = .erroredAtAgent
  confirmed : r'.syncStatus.recordVersion = r.syncStatus.recordVersion
  lastSyncedAt : r'.syncStatus.lastSyncedAt = some time
  error : r'.syncStatus.error = some message
  action : r'.syncStatus.action = r.syncStatus.action
  scheduled : r'.syncStatus.syncScheduledAt.isSome = r.syncStatus.syncScheduledAt.isSome

/-- Whether a report is on another version of a resource than the stored one. A confirmation that a
resource with a tombstone is gone counts in any case. -/
def Wire.Report.IsStaleFor (report : Wire.Report) (r : Resource) : Prop :=
  r.recordVersion ≠ report.recordVersion ∧
    (report.kind = .deleteConfirmation → r.markedForDeletion = false)

namespace Stores

variable (p : ControlPlane) (report : Wire.Report) (fault : Option OpError) (s : Stores)

/-- What becomes of the stores when a document is sent to the cluster that it belongs to. -/
inductive Sends (d : StoredDocument) : Except OpError (Option String) → Stores → Prop
  | sent {e : Wire.Envelope} {frame : Wire.Frame} (tells : e.TellsOf s d)
    (fits : Wire.Frame.ofEnvelope e = .ok frame) (published : fault = none) :
    Sends d (.ok (some e.clusterName))
      (s.post (p.topicOf e.clusterName) e.object.namespaceName frame.toBytes)
  /-- The envelope does not fit in a frame. -/
  | tooLarge {e : Wire.Envelope} {error : Wire.FrameError} (tells : e.TellsOf s d)
    (large : Wire.Frame.ofEnvelope e = .error error) : Sends d (.error error.toOpError) s
  /-- The bus did not take the envelope. -/
  | unpublished {e : Wire.Envelope} {frame : Wire.Frame} {error : OpError} (tells : e.TellsOf s d)
    (fits : Wire.Frame.ofEnvelope e = .ok frame) (failed : fault = some error) :
    Sends d (.error error) s
  | homeless (homeless : s.home? d = none) : Sends d (.ok none) s

/-- What becomes of the stores when a resource is sent once more. -/
inductive Resends (r : Resource) : Except OpError Intake → Stores → Prop
  | moved {cluster : Option String} {s' : Stores}
    (sends : s.Sends p fault r.stored (.ok cluster) s')
    (stays : ¬ (cluster = none ∧ r.markedForDeletion = true)) :
    Resends r (.ok .resynced) (s'.moveTo r cluster)
  /-- With a tombstone and without a cluster there is nobody left to confirm that it is gone. -/
  | removed {s' : Stores} (sends : s.Sends p fault r.stored (.ok none) s')
    (marked : r.markedForDeletion = true) :
    Resends r (.ok .resynced) ((s'.drop r).tell .deleted { r with clusterName := none })
  | failed {e : OpError} {s' : Stores} (sends : s.Sends p fault r.stored (.error e) s') :
    Resends r (.error e) s'

/-- What becomes of the stores when a report is taken in. -/
inductive TakesIn : Except OpError Intake → Stores → Prop
  | ignored (nobody : s.addressee? report = none) : TakesIn (.ok .ignored) s
  | applied {r r' : Resource} {status : Option Observed}
    (about : s.addressee? report = some r.stored) (update : report.kind = .statusUpdate)
    (current : r.recordVersion = report.recordVersion) (parsed : report.observed = .ok status)
    (observes : r.Observes report status r') :
    TakesIn (.ok .applied) ((s.put r').tell .updated r')
  /-- The status in the report is none of its kind. -/
  | unparsed {r : Resource} {details : String}
    (about : s.addressee? report = some r.stored) (update : report.kind = .statusUpdate)
    (current : r.recordVersion = report.recordVersion)
    (unparsed : report.observed = .error (.serialization details)) :
    TakesIn (.error (.serialization details)) s
  | errored {r r' : Resource} {message : String}
    (about : s.addressee? report = some r.stored) (failure : report.kind = .applyError message)
    (current : r.recordVersion = report.recordVersion)
    (fails : r.Fails message report.timestamp r') :
    TakesIn (.ok .errored) ((s.put r').tell .updated r')
  | deleted {r : Resource}
    (about : s.addressee? report = some r.stored) (confirms : report.kind = .deleteConfirmation)
    (confirmed : r.markedForDeletion = true ∨ r.recordVersion = report.recordVersion) :
    TakesIn (.ok .deleted) ((s.drop r).tell .deleted r)
  | resynced {r : Resource} {result : Except OpError Intake} {s' : Stores}
    (about : s.addressee? report = some r.stored) (stale : report.IsStaleFor r)
    (resends : s.Resends p fault r result s') : TakesIn result s'

end Stores

variable {p : ControlPlane} {fault : Option OpError} {w : World} {report : Wire.Report}
  {r read : Resource}

/-- What an agent observes changes nothing of where a resource is filed and belongs. -/
theorem Resource.Observes.card {r r' : Resource} {status : Option Observed}
    (h : r.Observes report status r') : r'.card = r.card :=
  (congrArg Resource.card h.fields).trans rfl

theorem Stores.Sends.documents {d : StoredDocument} {result : Except OpError (Option String)}
    {s s' : Stores} (h : s.Sends p fault d result s') : s'.documents = s.documents := by
  cases h <;> rfl

/-- A status report on the stored version is applied, if its status is one of its kind. -/
theorem Stores.TakesIn.of_current {s s' : Stores} {result : Except OpError Intake}
    {d : StoredDocument} {status : Option Observed} (h : s.TakesIn p report fault result s')
    (about : s.addressee? report = some d) (update : report.kind = .statusUpdate)
    (current : d.card.version = report.recordVersion) (parsed : report.observed = .ok status) :
    ∃ r r' : Resource, r.stored = d ∧ r.Observes report status r' ∧
      s' = (s.put r').tell .updated r' := by
  cases h with
  | ignored nobody => cases about.symm.trans nobody
  | applied about' _ _ parsed' observes =>
    obtain rfl := Except.ok.inj (parsed.symm.trans parsed')
    exact ⟨_, _, Option.some.inj (about'.symm.trans about), observes, rfl⟩
  | unparsed _ _ _ unparsed => cases parsed.symm.trans unparsed
  | errored _ failure => cases update.symm.trans failure
  | deleted _ confirms => cases update.symm.trans confirms
  | @resynced r _ _ about' stale =>
    obtain rfl := Option.some.inj (about'.symm.trans about)
    rw [r.card_stored] at current
    exact absurd current stale.1

namespace Stores

variable (s : Stores) {r' : Resource}

/-- With a single document, that is the one that a report with its address is about. -/
theorem addressee?_of_single {d : StoredDocument} (single : s.documents = [d])
    (address : d.card.address? = some report.address) : s.addressee? report = some d := by
  rw [addressee?, single]
  exact List.find?_cons_of_pos (decide_eq_true address)

/-- A project belongs to the cluster that its spec names. -/
theorem home?_stored (h : r.kind = .project) : s.home? r.stored = r.spec.bound := by
  rw [home?, r.kind_stored, if_pos h, r.specCluster?_stored h]

/-- A resource that is put before it is dropped is dropped all the same. -/
theorem documents_drop_put (hid : r'.id = r.id) :
    ((s.put r').drop r).documents = (s.drop r).documents := by
  rw [documents_drop, documents_drop, documents_put]
  have hput : r'.stored.id = r.id := hid
  rw [hid]
  induction s.documents with
  | nil => rfl
  | cons d rest ih =>
    rw [List.map_cons]
    by_cases hd : d.id = r.id
    · rw [if_pos hd, List.filter_cons_of_neg (by rw [hput]; simp),
        List.filter_cons_of_neg (by simp [hd]), ih]
    · rw [if_neg hd, List.filter_cons_of_pos (by simp [hd]),
        List.filter_cons_of_pos (by simp [hd]), ih]

theorem drop_moveTo (r : Resource) : (s.moveTo r none).drop r = s.drop r := by
  rw [moveTo]
  split
  · rfl
  · have hid : { r with clusterName := none }.id = r.id := rfl
    have hdocs := s.documents_drop_put hid
    have hrows : Ledger.fileIn (Ledger.fileIn s.rows r.mappingKey none) r.mappingKey none =
        Ledger.fileIn s.rows r.mappingKey none := by
      rw [Ledger.fileIn, Ledger.fileIn, List.filter_filter]
      simp only [Bool.and_self]
    rw [drop, drop, Stores.mk.injEq]
    exact ⟨hdocs, hrows, rfl, rfl⟩

theorem moveTo_self {o : Option String} (h : r.clusterName = o) : s.moveTo r o = s := if_pos h.symm

theorem moveTo_of_ne {o : Option String} (h : r.clusterName ≠ o) : s.moveTo r o =
    { s.put { r with clusterName := o } with rows := Ledger.fileIn s.rows r.mappingKey o } :=
  if_neg (Ne.symm h)

/-- A resource is where it moved to. -/
theorem mem_moveTo (hr : r.stored ∈ s.documents) (o : Option String) :
    { r with clusterName := o }.stored ∈ (s.moveTo r o).documents := by
  rw [moveTo]
  split
  · rename_i h
    rw [h]
    exact hr
  · exact List.mem_map.2 ⟨r.stored, hr, if_pos rfl⟩

end Stores

/-- An event tells where a resource is filed and its cluster. -/
theorem Event.of_congr (kind : EventKind) {r r' : Resource} (hkey : r'.mappingKey = r.mappingKey)
    (hcluster : r'.clusterName = r.clusterName) : Event.of kind r' = Event.of kind r := by
  simp only [Resource.mappingKey, MappingKey.mk.injEq] at hkey
  obtain ⟨hk, hn, hns, ha, hp, he⟩ := hkey
  rw [Event.of, Event.of, hk, hn, hns, ha, hp, he, hcluster]

/-- A status that does not decode is a serialization error. -/
theorem Wire.Report.observed_error (report : Wire.Report) {e : OpError}
    (h : report.observed = .error e) : ∃ details, e = .serialization details := by
  rw [observed] at h
  split at h
  · cases h
  · rename_i j _
    cases hd : Observed.decode.ofJson j with
    | ok o => rw [hd] at h; cases h
    | error failure =>
      rw [hd] at h
      exact ⟨failure.message, (Except.error.inj h).symm⟩

namespace Filter.Picks

/-- The filter of a report picks by the address. -/
theorem reported (report : Wire.Report) : Picks (.reported report) report.resourceKind fun card =>
    some card.key.account == some report.accountName &&
      card.cluster == some report.clusterName &&
      some card.key.namespaceName == some report.object.namespaceName &&
      some card.key.name == some report.object.name := by
  have account : Picks [.eq ["account_name"] (.str report.accountName)] report.resourceKind
      fun card => some card.key.account == some report.accountName :=
    text "account_name" (some report.accountName) (some ·.key.account) (by decide) fun _ => rfl
  have cluster : Picks [.eq ["cluster_name"] (.str report.clusterName)] report.resourceKind
      fun card => card.cluster == some report.clusterName :=
    text "cluster_name" (some report.clusterName) (·.cluster) (by decide) fun _ => rfl
  have namespaceName : Picks [.eq ["namespace"] (.str report.object.namespaceName)]
      report.resourceKind fun card =>
        some card.key.namespaceName == some report.object.namespaceName :=
    text "namespace" (some report.object.namespaceName) (some ·.key.namespaceName) (by decide)
      fun _ => rfl
  have name : Picks [.eq ["name"] (.str report.object.name)] report.resourceKind
      fun card => some card.key.name == some report.object.name :=
    text "name" (some report.object.name) (some ·.key.name) (by decide) fun _ => rfl
  exact ((account.append cluster).append namespaceName).append name

end Filter.Picks

namespace Resource

/-- The event of a resource that was read is that of the stored one. -/
theorem ReadBack.event (h : r.ReadBack read) (kind : EventKind) :
    Event.of kind read = Event.of kind r :=
  Event.of_congr kind (congrArg Card.key h.card) h.clusterName

theorem ReadBack.mappingKey (h : r.ReadBack read) : read.mappingKey = r.mappingKey :=
  congrArg Card.key h.card

/-- What was read of a resource is where it moved to. -/
theorem ReadBack.mem_cards_moveTo (h : r.ReadBack read) {s : Stores} (hr : r.stored ∈ s.documents)
    {o : Option String} (hw : w.stores = s.moveTo r o) :
    ({ read with clusterName := o } : Resource).card ∈ w.documents.cards := by
  have hcard : ({ read with clusterName := o } : Resource).card =
      ({ r with clusterName := o } : Resource).stored.card := by
    rw [Resource.card_stored]
    exact congrArg (Card.on · o) h.card
  have hput := s.mem_moveTo hr o
  rw [hcard]
  exact List.mem_map_of_mem (hw ▸ hput : _ ∈ w.stores.documents)

/-- What was read of a resource that moved to no cluster is removed as the resource. -/
theorem ReadBack.drop_moveTo (h : r.ReadBack read) (s : Stores) :
    ((s.moveTo r none).drop { read with clusterName := none }).tell .deleted
        { read with clusterName := none } =
      (s.drop r).tell .deleted { r with clusterName := none } := by
  let gone : Resource := { read with clusterName := none }
  have hdrop : (s.moveTo r none).drop gone = s.drop r := by
    have hkey : gone.mappingKey = r.mappingKey := h.mappingKey
    have hid : gone.id = r.id := h.id
    rw [← s.drop_moveTo r, Stores.drop, hkey, hid]
    rfl
  have hevent : Event.of .deleted gone = .of .deleted { r with clusterName := none } :=
    Event.of_congr .deleted h.mappingKey rfl
  rw [hdrop, Stores.tell, hevent]
  rfl

/-- What a report is about is found by its address, and it can be read. -/
theorem findReported_does (report : Wire.Report) :
    (findOne report.resourceKind (.reported report)).Does fault (fun o w' =>
      w'.stores = w.stores ∧ match o with
        | none => w.stores.addressee? report = none
        | some read => ∃ r : Resource,
          w.stores.addressee? report = some r.stored ∧ r.ReadBack read) w := by
  refine Program.Upholds.tidy fun ht => ?_
  have addressee : w.stores.addressee? report = w.documents.documents.find? fun d =>
      decide (d.card.key.kind = report.resourceKind) &&
        (some d.card.key.account == some report.accountName &&
          d.card.cluster == some report.clusterName &&
          some d.card.key.namespaceName == some report.object.namespaceName &&
          some d.card.key.name == some report.object.name) := by
    refine List.find?_congr fun d _ => ?_
    rw [Bool.eq_iff_iff]
    cases hc : d.card.cluster <;>
      simp [Card.address?, Card.addressOn, hc, Wire.Report.address, and_assoc]
  refine (Program.findOne_does _ _).bind fun found w₁ h₁ => ?_
  obtain ⟨hw₁, hfound, legible⟩ := h₁
  have hfirst := ht.findOne (.reported report) hfound
  rw [← addressee] at hfirst
  cases ha : w.stores.addressee? report with
  | none =>
    rw [ha] at hfirst
    obtain rfl := hfirst
    exact Program.Does.done ⟨hw₁, rfl⟩
  | some d =>
    rw [ha] at hfirst
    obtain ⟨hm, j, rfl, hj⟩ := hfirst
    obtain ⟨r, -, rfl⟩ := ht.sound d (List.mem_of_find?_eq_some ha)
    obtain ⟨read, hread⟩ := Exchange.isOk_of_isLegible (legible j rfl)
    have hkind : r.kind = report.resourceKind :=
      Kind.collection_inj (DocumentStore.collection_of_matches? hm)
    dsimp only
    rw [hread]
    refine Program.Does.done ⟨hw₁, r, rfl, resembles_of_read hkind hj hread, ?_,
      shows_of_read hkind hj hread⟩
    exact (matches_reported.1 hm).2

/-- A resource knows the cluster that it belongs to, or looks it up. -/
theorem cluster_does (h : r.ReadBack read) : read.cluster.Does fault
    (fun o w' => o = w.stores.home? r.stored ∧ w'.stores = w.stores) w := by
  have hhome : w.stores.home? r.stored = w.ledger.target read.card := by
    rw [h.card, ← r.card_stored, w.target_card]
    rfl
  rw [cluster_eq, hhome, Ledger.target]
  split
  · exact Program.Does.done ⟨rfl, rfl⟩
  · exact Program.resolve_does read.scope

/-- Setting the cluster of a resource puts it there. -/
theorem attach_does (hr : r.stored ∈ w.stores.documents) (h : r.ReadBack read)
    (o : Option String) : (read.patch [.set ["cluster_name"] (.ofOption .str o)]).Does fault
      (fun _ w' => w'.stores = w.stores.put { r with clusterName := o }) w :=
  (Edit.does (e := ⟨read, .attach o⟩) hr h rfl).mono fun _ _ h => h.2

theorem remove_does (hr : r.card ∈ w.documents.cards) : r.remove.Does fault
    (fun _ w' => w'.stores = (w.stores.drop r).tell .deleted r) w := by
  refine (Program.deleteOne_does hr).bind fun _ w₁ h₁ => ?_
  refine (Program.removeMapping_does r.mappingKey).bind fun _ w₂ h₂ => ?_
  refine (Program.emit_does .deleted r).mono fun _ w₃ h₃ => ?_
  rw [h₃, h₂, h₁]
  rfl

end Resource

namespace ControlPlane

theorem send_leads (h : r.ReadBack read) : (p.send read read.pendingAction).Leads fault
    (fun result w' => w.stores.Sends p fault r.stored (result.map (·.cluster?)) w'.stores) w := by
  refine (Resource.cluster_does h).bind fun o w₁ h₁ => ?_
  obtain ⟨ho, hw₁⟩ := h₁
  cases o with
  | none =>
    refine Program.Leads.done ?_
    rw [hw₁]
    exact .homeless ho.symm
  | some x =>
    have tells : (read.envelope x read.pendingAction).TellsOf w.stores r.stored :=
      ⟨h.shows.card ▸ read.envelope_isOf x, h.shows.labels, h.shows.annotations, h.shows.spec,
        ho.symm⟩
    dsimp only
    cases hframe : Wire.Frame.ofEnvelope (read.envelope x read.pendingAction) with
    | error e =>
      refine Program.Leads.fail ?_
      rw [hw₁]
      exact .tooLarge tells hframe
    | ok frame =>
      refine (Program.publish_leads (p.topicOf x) read.namespaceName frame.toBytes).bind
        (fun n w₂ h₂ => ?_) fun e w₂ h₂ => ?_
      · cases fault with
        | none =>
          refine Program.Leads.done ?_
          rw [h₂.2, hw₁]
          exact .sent tells hframe rfl
        | some e => cases h₂.1
      · cases fault with
        | none => cases h₂.1.choose_spec
        | some e' =>
          obtain ⟨he, hw₂⟩ := h₂
          obtain rfl := Except.error.inj he
          rw [hw₂, hw₁]
          exact .unpublished tells hframe rfl

/-- A dispatch sends a resource and moves it to where it was sent. -/
theorem dispatch_leads (hr : r.stored ∈ w.stores.documents) (h : r.ReadBack read) :
    (p.dispatch read read.pendingAction).Leads fault (fun result w' => match result with
      | .ok (outcome, moved) => moved = { read with clusterName := outcome.cluster? } ∧
        ∃ s, w.stores.Sends p fault r.stored (.ok outcome.cluster?) s ∧
          w'.stores = s.moveTo r outcome.cluster?
      | .error e => w.stores.Sends p fault r.stored (.error e) w'.stores) w := by
  refine (send_leads h).bind (fun outcome w₁ h₁ => ?_) fun e w₁ h₁ => h₁
  have hsends : w.stores.Sends p fault r.stored (.ok outcome.cluster?) w₁.stores := h₁
  have hr₁ : r.stored ∈ w₁.stores.documents := hsends.documents ▸ hr
  generalize ho : outcome.cluster? = o at hsends ⊢
  have stays : r.clusterName = o → { read with clusterName := o } = read ∧
      w₁.stores.moveTo r o = w₁.stores := by
    intro hsame
    rw [w₁.stores.moveTo_self hsame, ← hsame, ← h.clusterName]
    exact ⟨rfl, rfl⟩
  have moves : ∀ {w' : World} {s : Stores}, r.clusterName ≠ o →
      s = w₁.stores.put { r with clusterName := o } →
      w'.stores = { s with rows := Ledger.fileIn s.rows read.mappingKey o } →
      w'.stores = w₁.stores.moveTo r o := by
    intro w' s hne hs hw'
    rw [hw', hs, h.mappingKey, w₁.stores.moveTo_of_ne hne]
    rfl
  cases o with
  | some x =>
    dsimp only
    split
    · rename_i hsame
      obtain ⟨hmoved, hstores⟩ := stays (h.clusterName.symm.trans hsame)
      exact Program.Leads.done ⟨by rw [ho, hmoved], _, ho ▸ hsends, by rw [ho, hstores]⟩
    · rename_i hne
      refine (Resource.attach_does hr₁ h (some x)).bind fun _ w₂ h₂ => ?_
      refine (Program.upsert_does read x).bind fun _ w₃ h₃ => ?_
      refine Program.Leads.done ⟨by rw [ho], _, ho ▸ hsends, ?_⟩
      rw [ho]
      exact moves (fun hsame => hne (h.clusterName.trans hsame)) h₂ h₃
  | none =>
    cases hrec : read.clusterName with
    | some recorded =>
      refine (Resource.attach_does hr₁ h none).bind fun _ w₂ h₂ => ?_
      refine (Program.removeMapping_does read.mappingKey).bind fun _ w₃ h₃ => ?_
      refine Program.Leads.done ⟨by rw [ho], _, ho ▸ hsends, ?_⟩
      rw [ho]
      refine moves (fun hsame => ?_) h₂ h₃
      rw [← h.clusterName, hrec] at hsame
      cases hsame
    | none =>
      obtain ⟨hmoved, hstores⟩ := stays (h.clusterName.symm.trans hrec)
      exact Program.Leads.done ⟨by rw [ho, hmoved], _, ho ▸ hsends, by rw [ho, hstores]⟩

/-- What is sent once more moves to where it was sent; with a tombstone and without a cluster it is
removed. -/
theorem settle_leads (hr : r.stored ∈ w.stores.documents) (h : r.ReadBack read) :
    (p.settle read).Leads fault (fun result w' =>
      w.stores.Resends p fault r (result.map fun _ => .resynced) w'.stores) w := by
  refine (dispatch_leads hr h).bind (fun sent w₁ h₁ => ?_) fun e w₁ h₁ => .failed h₁
  obtain ⟨outcome, moved⟩ := sent
  obtain ⟨rfl, s, hsends, hw₁⟩ := h₁
  have hmarked : read.markedForDeletion = r.markedForDeletion := h.markedForDeletion
  dsimp only
  split
  · rename_i hgone
    obtain ⟨rfl, marked⟩ := hgone
    rw [hmarked] at marked
    have mem := h.mem_cards_moveTo (hsends.documents ▸ hr) hw₁
    refine (Resource.remove_does mem).bind fun _ w₂ h₂ => Program.Leads.done ?_
    have hw₂ : w₂.stores = (s.drop r).tell .deleted { r with clusterName := none } := by
      rw [h₂, hw₁]
      exact h.drop_moveTo s
    exact hw₂ ▸ .removed hsends marked
  · rename_i hstays
    refine Program.Leads.done (hw₁ ▸ .moved hsends fun h => hstays ?_)
    exact ⟨DispatchOutcome.cluster?_eq_none.1 h.1, hmarked.trans h.2⟩

theorem resend_leads (hr : r.stored ∈ w.stores.documents) (h : r.ReadBack read) :
    (p.resend read).Leads fault (fun result w' => w.stores.Resends p fault r result w'.stores) w :=
  (settle_leads hr h).bind (fun _ _ h => Program.Leads.done h) fun _ _ h => h

/-! ## Reports -/

/-- What a report changes of a resource is written and told of, since nobody else changes it. -/
theorem edit_leads {e : Edit} {told : Resource} {outcome : Intake} {otherwise : Program Intake}
    (hr : r.stored ∈ w.stores.documents) (h : r.ReadBack e.current)
    (hkind : (e.apply r).kind = r.kind)
    (hevent : Event.of .updated told = .of .updated (e.apply r)) :
    (Program.patchOne e.current.kind.collection e.filter (.ofFields e.changes) >>= fun hit =>
      if hit = true then Program.emit .updated told >>= fun _ => pure outcome
      else otherwise).Leads fault (fun result w' => result = .ok outcome ∧
        w'.stores = (w.stores.put (e.apply r)).tell .updated (e.apply r)) w := by
  refine (Edit.does hr h hkind).bind fun hit w₁ h₁ => ?_
  obtain ⟨rfl, hw₁⟩ := h₁
  refine (Program.emit_does .updated told).bind fun _ w₂ h₂ => Program.Leads.done ⟨rfl, ?_⟩
  rw [h₂, hw₁, Stores.tell, Stores.tell, hevent]

section Reports

variable (about : w.stores.addressee? report = some r.stored) (h : r.ReadBack read)

include about h

theorem resend_takesIn (stale : report.IsStaleFor r) : (p.resend read).Leads fault
    (fun result w' => w.stores.TakesIn p report fault result w'.stores) w :=
  (resend_leads (List.mem_of_find?_eq_some about) h).mono fun _ _ h => .resynced about stale h

theorem takeDeletion_takesIn (confirms : report.kind = .deleteConfirmation) :
    (p.takeDeletion read report).Leads fault
      (fun result w' => w.stores.TakesIn p report fault result w'.stores) w := by
  have hr : r.stored ∈ w.stores.documents := List.mem_of_find?_eq_some about
  unfold takeDeletion
  cases hdecided :
      deleteConfirmed read.recordVersion report.recordVersion read.markedForDeletion with
  | remove =>
    have confirmed := deleteConfirmed_eq_remove.1 hdecided
    rw [h.markedForDeletion, h.recordVersion] at confirmed
    have hmem : read.card ∈ w.documents.cards := by
      rw [h.card, ← r.card_stored]
      exact List.mem_map_of_mem hr
    refine (Resource.remove_does hmem).bind fun _ w₁ h₁ => Program.Leads.done ?_
    have hw₁ : w₁.stores = (w.stores.drop r).tell .deleted r := by
      rw [h₁, Stores.tell, Stores.tell, h.event, Stores.drop, Stores.drop, h.id, h.mappingKey]
    exact hw₁ ▸ .deleted about confirms confirmed
  | resync =>
    have stays : ¬ (r.markedForDeletion = true ∨ r.recordVersion = report.recordVersion) := by
      rw [← h.markedForDeletion, ← h.recordVersion]
      exact fun h => nomatch hdecided.symm.trans (deleteConfirmed_eq_remove.2 h)
    obtain ⟨live, stale⟩ := not_or.1 stays
    exact resend_takesIn about h ⟨stale, fun _ => Bool.eq_false_iff.2 live⟩

theorem takeStatus_takesIn (update : report.kind = .statusUpdate) :
    (p.takeStatus read report).Leads fault
      (fun result w' => w.stores.TakesIn p report fault result w'.stores) w := by
  have hr : r.stored ∈ w.stores.documents := List.mem_of_find?_eq_some about
  unfold takeStatus
  split
  · rename_i stale
    rw [h.recordVersion] at stale
    exact resend_takesIn about h ⟨stale, fun hk => nomatch update.symm.trans hk⟩
  rename_i current
  rw [h.recordVersion, not_not] at current
  cases hparsed : report.observed with
  | error e =>
    obtain ⟨details, rfl⟩ := report.observed_error hparsed
    exact Program.Leads.fail (.unparsed about update current hparsed)
  | ok status =>
    let e : Edit := ⟨read, .observe report status⟩
    have hevent : Event.of .updated (read.observe report status) = .of .updated (e.apply r) :=
      Event.of_congr .updated h.mappingKey h.clusterName
    have confirmed := h.recordVersion.trans current
    refine (edit_leads (e := e) hr h rfl hevent).mono fun result w' h' => ?_
    obtain ⟨rfl, hw'⟩ := h'
    exact hw' ▸ .applied about update current hparsed
      ⟨rfl, rfl, confirmed, rfl, rfl, h.action, h.scheduled⟩

theorem takeError_takesIn {message : String} (failure : report.kind = .applyError message) :
    (p.takeError read report message).Leads fault
      (fun result w' => w.stores.TakesIn p report fault result w'.stores) w := by
  have hr : r.stored ∈ w.stores.documents := List.mem_of_find?_eq_some about
  unfold takeError
  split
  · rename_i stale
    rw [h.recordVersion] at stale
    exact resend_takesIn about h ⟨stale, fun hk => nomatch failure.symm.trans hk⟩
  rename_i current
  rw [h.recordVersion, not_not] at current
  let e : Edit := ⟨read, .fail message report.timestamp⟩
  have hevent : Event.of .updated { read with
      syncStatus := read.syncStatus.failed message report.timestamp } =
      .of .updated (e.apply r) :=
    Event.of_congr .updated h.mappingKey h.clusterName
  refine (edit_leads (e := e) hr h rfl hevent).mono fun result w' h' => ?_
  obtain ⟨rfl, hw'⟩ := h'
  exact hw' ▸ .errored about failure current
    ⟨rfl, rfl, h.syncVersion, rfl, rfl, h.action, h.scheduled⟩

end Reports

/-- A report on a registered kind is taken in. -/
theorem route_takesIn (handled : p.handles report.resourceKind = true) :
    (p.route report).Leads fault
      (fun result w' => w.stores.TakesIn p report fault result w'.stores) w := by
  unfold route
  rw [if_pos handled]
  refine (Resource.findReported_does report).bind fun found w₁ h₁ => ?_
  obtain ⟨hw₁, hfound⟩ := h₁
  cases found with
  | none =>
    refine Program.Leads.done ?_
    rw [hw₁]
    exact .ignored hfound
  | some read =>
    obtain ⟨r, about, h⟩ := hfound
    rw [← hw₁] at about ⊢
    cases hkind : report.kind with
    | statusUpdate => exact takeStatus_takesIn about h hkind
    | deleteConfirmation => exact takeDeletion_takesIn about h hkind
    | applyError message => exact takeError_takesIn about h hkind

end ControlPlane

/-- An operation with a report on a registered kind takes it in. -/
theorem Operation.takesIn (fault : Option OpError) {operation : Operation}
    (reports : operation.report? = some report) (handled : p.handles report.resourceKind = true) :
    (operation.program p).Leads fault (fun result w' => ∃ r, result = r.map .intake ∧
      w.stores.TakesIn p report fault r w'.stores) w := by
  have routed : (Outcome.intake <$> p.route report).Leads fault (fun result w' =>
      ∃ r, result = r.map .intake ∧ w.stores.TakesIn p report fault r w'.stores) w :=
    (ControlPlane.route_takesIn handled).bind (fun a _ h => Program.Leads.done ⟨.ok a, rfl, h⟩)
      fun e _ h => ⟨.error e, rfl, h⟩
  cases operation with
  | ingest payload =>
    cases hread : ControlPlane.readReport payload with
    | error e => rw [report?, hread] at reports; cases reports
    | ok report' =>
      rw [report?, hread] at reports
      obtain rfl := Option.some.inj reports
      rw [program, ControlPlane.ingest, hread]
      exact routed
  | route report' =>
    obtain rfl := Option.some.inj reports
    exact routed
  | _ => cases reports

end FleetSync
