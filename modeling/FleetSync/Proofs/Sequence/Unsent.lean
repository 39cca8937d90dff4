import FleetSync.Proofs.Interleaving.Ownership
import FleetSync.Proofs.Sequence.Run

/-!
# Resources that were not sent

A resource whose agent was not sent what is to be done with it waits in the queue, where a sweep for
stale resources finds it. Whatever changes what is to be done queues the resource
(`Edit.state_apply`), and only a report takes it out of the queue. A report is about what was found
when its operation started (`System.reported_of_makes`), and it counts at the stored version only.
That version was sent before the agent could report on it, and so was what is to be done, unless the
resource was marked for deletion since: a mark does not raise the version. So a resource that was
not sent is in the queue just if no such report overtook its deletion
(`System.unsent_queued_iff`).
-/

namespace FleetSync

open Program (Follows)

theorem SyncState.name_inj {a b : SyncState} (h : a.name = b.name) : a = b := by
  cases a <;> cases b <;> first | rfl | exact absurd h (by decide)

/-! ## Reports -/

/-- What is written at a version, if a report is taken in: the first thing that was found is what
the report is about, and that is written. -/
def Reporting (report : Wire.Report) (past : List Exchange) (c : Call) : Prop :=
  ∀ collection id v patch, c = .patchOne collection (.byIdAt id v) patch → ∃ j r,
    past = [⟨.findOne report.resourceKind.collection (.reported report), .ok (some j)⟩] ∧
      Resource.ofDocument report.resourceKind j = .ok r ∧ r.id = id

theorem Minor.reporting {past : List Exchange} {c : Call} (h : Minor past c)
    (report : Wire.Report) : Reporting report past c :=
  fun collection id v patch hc => absurd (.inr ⟨collection, id, v, patch, hc⟩) h.not_commits

/-- What any operation may do, each may do that takes a report in. -/
theorem Program.Follows.reporting {α : Type} {past : List Exchange} {p : Program α}
    {post : List Exchange → Except OpError α → Prop} (h : Follows Minor post past p)
    (report : Wire.Report) : Follows (Reporting report) (fun _ _ => True) past p :=
  (h.weaken (Q := fun _ => True) (fun _ _ hc => hc.reporting report) fun _ _ _ => trivial).mono
    fun _ _ _ _ => trivial

namespace ControlPlane

variable (p : ControlPlane) {past : List Exchange} {report : Wire.Report} {r : Resource} {j : Json}

/-- A resource that was found is written, or it is sent again. -/
theorem patchAtVersion_reporting (patch : Patch) (seen : Resource) (intake : Intake)
    (hr : Resource.ofDocument report.resourceKind j = .ok r)
    (hpast :
      past = [⟨.findOne report.resourceKind.collection (.reported report), .ok (some j)⟩]) :
    Follows (Reporting report) (fun _ _ => True) past (do
      if ← r.patchAtVersion patch then
        Program.emit .updated seen
        return intake
      else p.resendChanged r) := by
  have write : Follows (Reporting report) (fun _ _ => True) past (r.patchAtVersion patch) := by
    refine Follows.free fun collection id v patch' hc => ⟨j, r, hpast, hr, ?_⟩
    simp only [Call.patchOne.injEq, Filter.byIdAt, Filter.byId, List.cons_append, List.nil_append,
      List.cons.injEq, Condition.eq.injEq, Json.str.injEq] at hc
    exact hc.2.1.1.2
  refine write.andThen fun past' hit _ _ => ?_
  cases hit with
  | false => exact (p.resendChanged_follows r).reporting report
  | true =>
    have emit : Follows Minor (fun _ _ => True) past' (Program.emit .updated seen) :=
      Follows.free trivial
    exact (emit.reporting report).andThen fun _ _ _ _ => trivial

theorem route_reporting (report : Wire.Report) :
    Follows (Reporting report) (fun _ _ => True) [] (p.route report) := by
  unfold route
  split
  · have call : Minor [] (.findOne report.resourceKind.collection (.reported report)) := trivial
    refine (Resource.findOne_answers _ _ (call.reporting report)).andThen fun past o _ h => ?_
    cases o with
    | none => trivial
    | some r =>
      obtain ⟨j, hpast, hr⟩ := h r rfl
      cases report.kind with
      | statusUpdate =>
        show Follows _ _ _ (p.takeStatus r report)
        unfold takeStatus
        split
        · exact (p.resend_follows r).reporting report
        · refine Follows.andThen
            (show Follows _ (fun past' _ => past' = past) past (Program.ofExcept report.observed)
              from rfl) fun _ status _ h => ?_
          exact p.patchAtVersion_reporting _ _ _ hr (h.trans hpast)
      | deleteConfirmation => exact (p.takeDeletion_follows r report).reporting report
      | applyError message =>
        show Follows _ _ _ (p.takeError r report message)
        unfold takeError
        split
        · exact (p.resend_follows r).reporting report
        · exact p.patchAtVersion_reporting _ _ _ hr hpast
  · trivial

end ControlPlane

/-- Whoever takes a report in writes what it found as what the report is about. -/
theorem Operation.reporting (p : ControlPlane) {operation : Operation} {report : Wire.Report}
    (h : operation.report? = some report) :
    Follows (Reporting report) (fun _ _ => True) [] (operation.program p) :=
  operation.follows_of_route p h (p.route_reporting report)

/-- An edit queues a resource, or what is to be done with it stays. Then its state stays as well,
unless a report on its version is written. -/
theorem Edit.state_apply {e : Edit} {operation : Operation} {past : List Exchange}
    (allowed : e.Allowed operation past) (r : Resource) :
    (e.apply r).syncStatus.state = .inQueue ∨
      ((e.apply r).recordVersion = r.recordVersion ∧
        (e.apply r).markedForDeletion = r.markedForDeletion) ∧
      ((e.apply r).syncStatus.state = r.syncStatus.state ∨
        (e.apply r).syncStatus.state ≠ .inQueue ∧ e.isGuarded = true ∧
          ∃ report, operation.report? = some report ∧
            e.current.recordVersion = report.recordVersion) := by
  rcases e with ⟨current, change⟩
  cases change with
  | attach cluster => exact .inr ⟨⟨rfl, rfl⟩, .inl rfl⟩
  | revise input user time cluster => exact .inl rfl
  | bury user time => exact .inl rfl
  | requeue time => exact .inl rfl
  | detach time => exact .inr ⟨⟨rfl, rfl⟩, .inl rfl⟩
  | observe report status =>
    obtain ⟨hreport, -, hv⟩ := allowed
    refine .inr ⟨⟨rfl, rfl⟩, .inr ⟨?_, rfl, report, hreport, hv⟩⟩
    cases hd : report.object.deletionTimestamp.isSome <;>
      simp [Edit.apply, SyncStatus.confirmed, hd]
  | fail message time =>
    obtain ⟨report, hreport, -, -, hv⟩ := allowed
    have left : SyncState.erroredAtAgent ≠ .inQueue := by decide
    exact .inr ⟨⟨rfl, rfl⟩, .inr ⟨left, rfl, report, hreport, hv⟩⟩

namespace System

variable {p : ControlPlane} {ms moves : List Move} {m : Move} {i : Nat} {operation : Operation}
  {past : List Exchange} {x : Exchange} {report : Wire.Report} {id : String} {v : Version}
  {action : SyncAction}

/-- The document that a report is taken to be about. -/
def reported? (s : System) (report : Wire.Report) : Option StoredDocument :=
  s.documents.find? (·.matches? report.resourceKind.collection (.reported report))

/-- In a sequential run a report is written on the document that it was about when the operation
started. -/
theorem reported_of_makes (seq : Sequential p moves)
    (makes : (after p moves).Makes i operation past x (after p (moves ++ [m])))
    (hreport : operation.report? = some report) (claims : x.Claims id v) :
    ∃ ms, ms ++ [.start operation] <+: moves ∧
      ∃ d, (after p ms).reported? report = some d ∧ d.id = id := by
  obtain ⟨ms, hp, alone⟩ := seq.by_itself makes
  let Q : Task → World → Prop := fun t w =>
    t.rest.Follows (Reporting report) (fun _ _ => True) t.past ∧
      (t.past = [] → w.documents = (after p ms).world.documents) ∧
      ∀ j, t.past =
          [⟨.findOne report.resourceKind.collection (.reported report), .ok (some j)⟩] →
        ∃ d, (after p ms).reported? report = some d ∧ d.read = .ok j
  have step : ∀ past c next w, Q ⟨operation, past, .call c next⟩ w → ∀ x : Circumstances,
      Q ⟨operation, past ++ [⟨c, (w.reply x c).1⟩], next (w.reply x c).1⟩ (w.reply x c).2 := by
    rintro past c next w ⟨law, same, -⟩ x
    refine ⟨law.2 _, fun h => absurd h (List.concat_ne_nil _ _), fun j h => ?_⟩
    have h : past ++ [⟨c, (w.reply x c).1⟩] = [] ++
        [⟨.findOne report.resourceKind.collection (.reported report), .ok (some j)⟩] := h
    obtain ⟨hpast, hx⟩ := List.append_inj' h rfl
    obtain ⟨rfl, ha⟩ := (Exchange.mk.injEq ..).mp (List.singleton_inj.1 hx)
    have hfound := w.reply_findOne x (eq_of_heq ha)
    rw [same hpast] at hfound
    exact DocumentStore.find?_of_findOne hfound
  obtain ⟨next, ⟨law, -⟩, -, found⟩ :=
    alone Q ⟨operation.reporting p hreport, fun _ => rfl, fun j h => nomatch h⟩ step
  obtain ⟨⟨collection, patch, hc⟩, -⟩ := claims
  obtain ⟨j, r, hpast, hr, rfl⟩ := law collection id v patch hc
  obtain ⟨d, hd, hj⟩ := found j hpast
  refine ⟨ms, hp, d, hd, ?_⟩
  obtain ⟨r₀, -, rfl⟩ := sound p ms ms (List.prefix_refl _) d (List.mem_of_find?_eq_some hd)
  have hmatch := List.find?_some hd
  have hkind : r₀.kind = report.resourceKind :=
    Kind.collection_inj (DocumentStore.collection_of_matches? hmatch)
  exact (Resource.readsAs_of_read hkind hj hr).id.symm

/-! ## What was sent -/

/-- Whether what is to be done with a document was sent while it was at a version. An envelope names
no id, so it is one for the document if it says what is stored of it. -/
def Dispatched (p : ControlPlane) (moves : List Move) (id : String) (v : Version)
    (action : SyncAction) : Prop :=
  ∃ ms m, ms ++ [m] <+: moves ∧ ∃ d ∈ (after p ms).documents, d.id = id ∧ d.version = v ∧
    d.card.pendingAction = action ∧
      ∃ topic e, (after p ms).Posted (after p (ms ++ [m])) topic e ∧ e.IsOf d.card

/-- Whether each report that is taken in names a version that was sent before of the document it is
about. -/
def ReportsDispatched (p : ControlPlane) (moves : List Move) : Prop :=
  EachStart (fun ms operation => ∀ report d, operation.report? = some report →
    (after p ms).reported? report = some d →
      ∃ action, Dispatched p ms d.id report.recordVersion action) moves

/-- Whether a report is written on a document that is marked for deletion, when that was not yet
sent at its version. -/
def Overtakes (p : ControlPlane) (ms : List Move) (m : Move) (id : String) : Prop :=
  ∃ d ∈ (after p ms).documents, d.id = id ∧ d.isMarked = true ∧
    ¬ Dispatched p ms id d.version .delete ∧
      ∃ i operation past x report, (after p ms).Makes i operation past x (after p (ms ++ [m])) ∧
        operation.report? = some report ∧ x.Claims id d.version

/-- Whether a report overtook the deletion of a document, which was never in the queue since. -/
def Overtaken (p : ControlPlane) (moves : List Move) (id : String) : Prop :=
  ∃ ms m, ms ++ [m] <+: moves ∧ Overtakes p ms m id ∧
    ∀ ms', ms ++ [m] <+: ms' → ms' <+: moves → ∀ d ∈ (after p ms').documents, d.id = id →
      d.syncState ≠ SyncState.inQueue.name

theorem Dispatched.mono (h : Dispatched p ms id v action) (hp : ms <+: moves) :
    Dispatched p moves id v action := by
  obtain ⟨ms', m, hms', hd⟩ := h
  exact ⟨ms', m, hms'.trans hp, hd⟩

/-- What was sent of a document that is not marked was sent to be applied. -/
theorem Dispatched.applied (h : Dispatched p ms id v action) (hp : ms <+: moves)
    {d : StoredDocument} (hd : d ∈ (after p moves).documents) (hid : d.id = id)
    (live : d.isMarked = false) : action = .apply := by
  obtain ⟨ms', m, hms', d₀, hd₀, hid₀, -, rfl, -⟩ := h
  have hle : ms' <+: moves := ((List.prefix_append ms' [m]).trans hms').trans hp
  have live₀ : d₀.isMarked = false := (kept p hle hd₀ hd (hid₀.trans hid.symm)).live live
  exact if_neg (by rw [StoredDocument.card, live₀]; exact Bool.false_ne_true)

/-- A deletion that was overtaken stays so until the document is in the queue. -/
theorem Overtaken.next (h : Overtaken p moves id) {d : StoredDocument}
    (hd : d ∈ (after p (moves ++ [m])).documents) (hid : d.id = id)
    (hstate : d.syncState ≠ SyncState.inQueue.name) : Overtaken p (moves ++ [m]) id := by
  obtain ⟨ms, m', hp, overtakes, since⟩ := h
  refine ⟨ms, m', hp.trans (List.prefix_append _ _), overtakes, fun ms' hge hle d' hd' hid' => ?_⟩
  rcases List.prefix_concat_iff.1 hle with rfl | hle
  · rwa [eq_of_id_eq p _ hd' hd (hid'.trans hid.symm)]
  · exact since ms' hge hle d' hd' hid'

/-- Whether what is to be done with a document was sent, or it is in the queue, or its deletion was
overtaken. -/
def Accounted (p : ControlPlane) (moves : List Move) (d : StoredDocument) : Prop :=
  Dispatched p moves d.id d.version d.card.pendingAction ∨
    d.syncState = SyncState.inQueue.name ∨ Overtaken p moves d.id

/-- A document stays accounted for while its version, its mark and its state stay. -/
theorem Accounted.next {d d' : StoredDocument} (h : Accounted p moves d)
    (hd : d ∈ (after p moves).documents) (hd' : d' ∈ (after p (moves ++ [m])).documents)
    (hid : d'.id = d.id) (hversion : d'.version = d.version) (hmarked : d'.isMarked = d.isMarked)
    (hstate : d'.syncState = d.syncState) : Accounted p (moves ++ [m]) d' := by
  have hcard : d'.card.marked = d.card.marked := hmarked
  have haction : d'.card.pendingAction = d.card.pendingAction := by
    rw [Card.pendingAction, hcard, Card.pendingAction]
  rcases h with sent | queued | overtaken
  · refine .inl ?_
    rw [hid, hversion, haction]
    exact sent.mono (List.prefix_append _ _)
  · exact .inr (.inl (hstate.trans queued))
  · refine .inr (.inr (hid ▸ overtaken.next hd' hid ?_))
    obtain ⟨ms, m', hp, -, since⟩ := overtaken
    rw [hstate]
    exact since moves hp (List.prefix_refl _) d hd rfl

/-- A report that takes a document out of the queue is on what was sent, or it overtakes its
deletion. -/
theorem accounted_of_report (seq : Sequential p (moves ++ [m]))
    (reports : ReportsDispatched p (moves ++ [m])) {e : Edit} {r : Resource}
    (makes : (after p moves).Makes i operation past ⟨e.call, .ok true⟩ (after p (moves ++ [m])))
    (hd : r.stored ∈ (after p moves).documents)
    (hd' : (e.apply r).stored ∈ (after p (moves ++ [m])).documents) (fits : e.Fits r)
    (same : (e.apply r).recordVersion = r.recordVersion ∧
      (e.apply r).markedForDeletion = r.markedForDeletion)
    (left : (e.apply r).syncStatus.state ≠ .inQueue) (guarded : e.isGuarded = true)
    (hreport : operation.report? = some report)
    (hversion : e.current.recordVersion = report.recordVersion) :
    Accounted p (moves ++ [m]) (e.apply r).stored := by
  obtain ⟨hv, hm⟩ := same
  have claims : Exchange.Claims ⟨e.call, .ok true⟩ r.id r.recordVersion := by
    rw [fits.id, fits.version guarded]
    exact Edit.claims guarded
  have seq' : Sequential p moves := seq.of_prefix (List.prefix_append _ _)
  obtain ⟨ms, hms, d₁, hd₁, hid₁⟩ := reported_of_makes seq' makes hreport claims
  obtain ⟨action, sent⟩ :=
    reports ms operation (hms.trans (List.prefix_append _ _)) report d₁ hreport hd₁
  have hle : ms <+: moves := (List.prefix_append ms _).trans hms
  have sent : Dispatched p moves r.id r.recordVersion action := by
    rw [fits.version guarded, hversion, ← hid₁]
    exact sent.mono hle
  have hstate : (e.apply r).stored.syncState ≠ SyncState.inQueue.name := by
    rw [Resource.syncState_stored]
    exact fun h => left (SyncState.name_inj h)
  have hid : (e.apply r).stored.id = r.id := Edit.id_apply e r
  rw [Accounted, hid, Resource.version_stored, Resource.card_stored, hv]
  cases hmark : r.markedForDeletion with
  | false =>
    -- It was never marked, so it was sent to be applied.
    have live : r.stored.isMarked = false := (Resource.isMarked_stored r).trans hmark
    obtain rfl := sent.applied (List.prefix_refl _) hd rfl live
    have haction : (e.apply r).card.pendingAction = .apply := if_neg (by
      show ¬ (e.apply r).markedForDeletion = true
      rw [hm, hmark]
      exact Bool.false_ne_true)
    rw [haction]
    exact .inl (sent.mono (List.prefix_append _ _))
  | true =>
    have haction : (e.apply r).card.pendingAction = .delete := if_pos (hm.trans hmark)
    rw [haction]
    by_cases hdelete : Dispatched p moves r.id r.recordVersion .delete
    · exact .inl (hdelete.mono (List.prefix_append _ _))
    · refine .inr (.inr ⟨moves, m, List.prefix_refl _, ⟨r.stored, hd, rfl, ?_, ?_, ?_⟩,
        fun ms' hge hle d' hdd' hid' => ?_⟩)
      · rw [Resource.isMarked_stored, hmark]
      · rwa [Resource.version_stored]
      · rw [Resource.version_stored]
        exact ⟨i, operation, past, _, report, makes, hreport, claims⟩
      · obtain rfl := hle.eq_of_length (Nat.le_antisymm hle.length_le hge.length_le)
        rwa [eq_of_id_eq p _ hdd' hd' (hid'.trans hid.symm)]

/-- In a sequential run in which reports name what was sent, every document is accounted for. -/
theorem accounted (seq : Sequential p moves) (reports : ReportsDispatched p moves) :
    ∀ d ∈ (after p moves).documents, Accounted p moves d := by
  induction moves using List.reverseRecOn with
  | nil => exact fun d hd => nomatch hd
  | append_singleton moves m ih =>
    have hle : moves <+: moves ++ [m] := List.prefix_append _ _
    have ih := ih (seq.of_prefix hle) (reports.of_prefix hle)
    intro d' hd'
    rcases (sound p moves).came m hd' with hd | hnew | ⟨d, hd, hedit⟩
    · exact (ih d' hd).next hd hd' rfl rfl rfl rfl
    · cases hnew with
      | intro _ draft _ => exact .inr (.inl (by rw [Resource.syncState_stored, draft]; rfl))
    · cases hedit with
      | @intro i operation past e r makes read allowed _ fits _ =>
        rcases e.state_apply allowed r with queued | ⟨same, hstate | ⟨left, guarded, report, h, hv⟩⟩
        · exact .inr (.inl (by rw [Resource.syncState_stored, queued]))
        · refine (ih r.stored hd).next hd hd' (Edit.id_apply e r) ?_ ?_ ?_
          · simp [same.1]
          · simp [same.2]
          · simp [hstate]
        · exact accounted_of_report seq reports makes hd hd' fits same left guarded h hv

/-- While operations run one after the other, whatever fails, and reports name what was sent, a
document whose agent was not sent what is to be done with it is in the queue, unless a report
overtook its deletion. -/
theorem unsent_queued_iff (seq : Sequential p moves) (reports : ReportsDispatched p moves)
    {d : StoredDocument} (hd : d ∈ (after p moves).documents)
    (unsent : ¬ Dispatched p moves d.id d.version d.card.pendingAction) :
    d.syncState = SyncState.inQueue.name ↔ ¬ Overtaken p moves d.id := by
  constructor
  · rintro queued ⟨ms, m, hp, -, since⟩
    exact since moves hp (List.prefix_refl _) d hd rfl queued
  · intro never
    rcases accounted seq reports d hd with sent | queued | overtaken
    · exact absurd sent unsent
    · exact queued
    · exact absurd overtaken never

/-! ### A run -/

/-- After the project was created it is deleted, but the bus does not take the message to its
agent. -/
def buriedRun : List Move :=
  createdRun ++ breakOff 1 "5e9b4f36" (.delete .system .project shopScope "shop") 4
    (.bus "publish" "eu-1-incoming" "down")

/-- Then a late report on the project is taken in. -/
def overtakenRun : List Move :=
  buriedRun ++ carryOut 2 "8a410000" (.route (shopReport 1 .statusUpdate)) 3

/-- The project as it was created. -/
def shopResource : Resource :=
  { shopInput.toResource .system shopScope "7d1c52a0" default with clusterName := some "eu-1" }

theorem overtakenRun_documents : ((after .default createdRun).AtRest ∧
    (after .default buriedRun).AtRest) ∧
    ((∃ d ∈ (after .default (createdRun.take 7)).documents, d.card = shopResource.card) ∧
      ∃ m ∈ ((after .default createdRun).world.bus.log "eu-1-incoming").drop
          ((after .default (createdRun.take 7)).world.bus.log "eu-1-incoming").length,
        (Wire.Frame.ofEnvelope (shopResource.envelope "eu-1" .apply)).toOption.map
          (·.toBytes.data.toList) = some m.payload.data.toList) ∧
    ((after .default buriedRun).reported? (shopReport 1 .statusUpdate)).map (·.id) =
      some "7d1c52a0" ∧
    (∃ d ∈ (after .default overtakenRun).documents,
      d.isMarked = true ∧ d.syncState ≠ SyncState.inQueue.name) ∧
    ∀ k < overtakenRun.length,
      (∀ d ∈ (after .default (overtakenRun.take k)).documents, d.isMarked = false) ∨
        ∀ t ∈ (after .default (overtakenRun.take (k + 1))).world.bus.topics,
          t.2.length ≤ ((after .default (overtakenRun.take k)).world.bus.log t.1).length := by
  decide +kernel

/-- The project was sent when it was created. -/
theorem dispatched_createdRun : Dispatched .default createdRun "7d1c52a0" 1 .apply := by
  obtain ⟨-, ⟨⟨d, hd, hcard⟩, m, hm, hpayload⟩, -⟩ := overtakenRun_documents
  have last : createdRun.take 7 ++ [.turn 0 ⟨default, "7d1c52a0", .ok true, none⟩] = createdRun :=
    rfl
  refine ⟨createdRun.take 7, _, last ▸ List.prefix_refl _, d, hd, congrArg Card.id hcard,
    congrArg Card.version hcard, congrArg Card.pendingAction hcard, "eu-1-incoming",
    shopResource.envelope "eu-1" .apply, ⟨m, last ▸ hm, ?_⟩, ?_⟩
  · cases hframe : Wire.Frame.ofEnvelope (shopResource.envelope "eu-1" .apply) with
    | error e => rw [hframe] at hpayload; cases hpayload
    | ok frame =>
      rw [hframe] at hpayload
      have hbytes : frame.toBytes.data.toList = m.payload.data.toList := Option.some.inj hpayload
      exact ⟨frame, hframe, (ByteArray.ext (Array.toList_inj.1 hbytes)).symm⟩
  · have hof := shopResource.envelope_isOf "eu-1"
    have haction : shopResource.pendingAction = .apply := rfl
    rwa [haction, ← hcard] at hof

theorem overtakenRun_sequential : Sequential .default overtakenRun ∧
    ReportsDispatched .default overtakenRun := by
  obtain ⟨⟨created, buried⟩, -, reported, -⟩ := overtakenRun_documents
  have seq : Sequential .default buriedRun :=
    EachStart.breakOff sequential_createdRun created 1 "5e9b4f36" 4 _
  refine ⟨seq.carryOut buried 2 "8a410000" (.route (shopReport 1 .statusUpdate)) 3, ?_⟩
  have none : ReportsDispatched .default createdRun :=
    (eachStart_nil _).carryOut (fun _ _ h => by cases h) 0 "7d1c52a0" 7
  have none : ReportsDispatched .default buriedRun :=
    EachStart.breakOff none (fun _ _ h => by cases h) 1 "5e9b4f36" 4 _
  refine EachStart.carryOut none (fun report d h hd => ⟨.apply, ?_⟩) 2 "8a410000" 3
  obtain rfl := Option.some.inj h
  rw [hd] at reported
  have hid : d.id = "7d1c52a0" := Option.some.inj reported
  rw [hid]
  exact dispatched_createdRun.mono (List.prefix_append _ _)

/-- That it is to be deleted was never sent. -/
theorem not_dispatched_overtakenRun (id : String) (v : Version) :
    ¬ Dispatched .default overtakenRun id v .delete := by
  rintro ⟨ms, m, hp, d, hd, -, -, haction, topic, e, posted, -⟩
  have hms := List.prefix_iff_eq_take.1 ((List.prefix_append ms [m]).trans hp)
  have hms' := List.prefix_iff_eq_take.1 hp
  have hlt := hp.length_le
  rw [List.length_append, List.length_singleton] at hms' hlt
  rcases overtakenRun_documents.2.2.2.2 ms.length hlt with live | quiet
  · rw [← hms] at live
    have hcard : d.card.marked = false := live d hd
    rw [Card.pendingAction, hcard] at haction
    cases haction
  · rw [← hms, ← hms'] at quiet
    exact not_posted quiet posted

/-- Not every document that was not sent is in the queue: a report on the project as it was created
is taken for one on its deletion. -/
theorem unsent_not_queued : Sequential .default overtakenRun ∧
    ReportsDispatched .default overtakenRun ∧ ∃ d ∈ (after .default overtakenRun).documents,
      ¬ Dispatched .default overtakenRun d.id d.version d.card.pendingAction ∧
        d.syncState ≠ SyncState.inQueue.name := by
  obtain ⟨-, -, -, ⟨d, hd, marked, hstate⟩, -⟩ := overtakenRun_documents
  have haction : d.card.pendingAction = .delete := if_pos marked
  refine ⟨overtakenRun_sequential.1, overtakenRun_sequential.2, d, hd, ?_, hstate⟩
  rw [haction]
  exact not_dispatched_overtakenRun d.id d.version

/-- In the run a report overtook the deletion of the project. -/
theorem unsent_queued_iff_overtaken : ∃ d ∈ (after .default overtakenRun).documents,
    ¬ Dispatched .default overtakenRun d.id d.version d.card.pendingAction ∧
      Overtaken .default overtakenRun d.id := by
  obtain ⟨-, -, -, ⟨d, hd, marked, hstate⟩, -⟩ := overtakenRun_documents
  have haction : d.card.pendingAction = .delete := if_pos marked
  have unsent : ¬ Dispatched .default overtakenRun d.id d.version d.card.pendingAction := by
    rw [haction]
    exact not_dispatched_overtakenRun d.id d.version
  obtain ⟨seq, reports⟩ := overtakenRun_sequential
  have iff := unsent_queued_iff seq reports hd unsent
  exact ⟨d, hd, unsent, not_not.1 fun never => hstate (iff.2 never)⟩

end System

end FleetSync
