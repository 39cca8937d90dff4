import FleetSync.Proofs.Sequence.Decisions
import FleetSync.Proofs.Wire.Size

/-!
# Taking one report in

Between two moments at rest a report leads to one of the cases of `Stores.TakesIn`
(`System.report_decided`). Only what the operation with the report met with itself counts for that
(`System.LastMeets`). A document that does not fit in a frame is not sent once more
(`ControlPlane.resend_of_large`). An agent may bring that about, since the labels of a report that
is applied go into the document (`System.heavyRun_stored`), and from then on reports on other
versions end with an error (`System.report_refused`).
-/

namespace FleetSync

namespace System

variable {p : ControlPlane} {fault : Option OpError} {report : Wire.Report} {ms ms' : List Move}
  {operation : Operation}

/-- Whether something holds of every call so far of the operation that started last. -/
def LastMeets (S : Exchange → Prop) (s : System) : Prop :=
  ∀ t ∈ s.tasks.getLast?, ∀ x ∈ t.past, S x

instance (S : Exchange → Prop) [DecidablePred S] (s : System) : Decidable (s.LastMeets S) :=
  inferInstanceAs (Decidable (∀ t ∈ s.tasks.getLast?, ∀ x ∈ t.past, S x))

/-- What an operation upholds by itself it has at its end, whatever others met with before. -/
theorem Carried.upheld_last {S : Exchange → Prop} {law : World → Call → Prop}
    {post : Except OpError Outcome → World → Prop} (h : Carried p ms operation ms')
    (met : (after p ms').LastMeets S)
    (upholds : (operation.program p).Upholds S law post (after p ms).world) :
    ∃ t r, (after p ms').tasks = (after p ms).tasks ++ [t] ∧ t.rest = .done r ∧
      post r (after p ms').world := by
  obtain ⟨before, ⟨later, rfl, nostart⟩, rest⟩ := h
  obtain ⟨t, htasks, -, hends⟩ := under_way (S := fun _ => True)
    (Q := fun t w => (∀ x ∈ t.past, S x) → t.rest.Upholds S law post w) before nostart
    (fun _ _ _ _ => trivial) (fun _ => upholds) fun past c next w htidy hq x _ hpast =>
      (hq (fun y hy => hpast y (List.mem_append_left _ hy)) htidy).2 x
        (hpast _ List.mem_concat_self)
  have hlast : t ∈ (after p (ms ++ .start operation :: later)).tasks.getLast? := by
    rw [htasks, List.getLast?_concat]
    rfl
  have hdone : t.rest.isDone = true := rest t (by rw [htasks]; simp)
  cases hr : t.rest with
  | call c next => rw [hr] at hdone; cases hdone
  | done r =>
    have hend := hends (met t hlast)
    rw [hr] at hend
    exact ⟨t, r, htasks, hr, hend (tidy p _)⟩

/-- Between two moments at rest a report on a registered kind is taken in as the table says, with
the outcome and the effect of one of its cases, whether or not the bus took what was published. -/
theorem report_decided (h : Carried p ms operation ms') (reports : operation.report? = some report)
    (handled : p.handles report.resourceKind = true)
    (met : (after p ms').LastMeets (·.MeetsWith fault)) :
    ∃ t r, (after p ms').tasks = (after p ms).tasks ++ [t] ∧ t.rest = .done (r.map .intake) ∧
      (after p ms).world.stores.TakesIn p report fault r (after p ms').world.stores := by
  obtain ⟨t, _, htasks, hrest, r, rfl, takesIn⟩ :=
    h.upheld_last met (operation.takesIn fault reports handled)
  exact ⟨t, r, htasks, hrest, takesIn⟩

/-- The agent reports on a version of the project that is not the stored one. -/
def staleRun : List Move :=
  createdRun ++ carryOut 1 "5e9b4f36" (.route (shopReport 2 .statusUpdate)) 2

theorem staleRun_met : (after .default createdRun).AtRest ∧ (after .default staleRun).AtRest ∧
    (after .default staleRun).LastMeets (·.MeetsWith none) := by
  decide +kernel

/-- In the run a report is taken in, and the bus takes what is published. -/
theorem report_decided_stale :
    Carried .default createdRun (.route (shopReport 2 .statusUpdate)) staleRun ∧
      (after .default staleRun).LastMeets (·.MeetsWith none) ∧
      ∃ t r, (after .default staleRun).tasks = (after .default createdRun).tasks ++ [t] ∧
        t.rest = .done (r.map .intake) ∧
        (after .default createdRun).world.stores.TakesIn .default (shopReport 2 .statusUpdate) none
          r (after .default staleRun).world.stores := by
  obtain ⟨created, stale, met⟩ := staleRun_met
  have carried : Carried .default createdRun (.route (shopReport 2 .statusUpdate)) staleRun :=
    carried_carryOut created 1 "5e9b4f36" _ 2 stale
  exact ⟨carried, met, report_decided carried rfl rfl met⟩

/-- An operation that ends with its first call is carried out in a single turn. -/
theorem tasks_carryOut_one {c : Call} {next : c.Answer → Program Outcome}
    {r : Except OpError Outcome} {id : String} {task : Nat}
    (program : operation.program p = .call c next) (named : c ≠ .freshId)
    (last : (after p ms).tasks.length = task)
    (ends : next ((after p ms).world.reply ⟨default, id, .ok true, none⟩ c).1 = .done r) :
    ∃ past, (after p (ms ++ carryOut task id operation 1)).tasks =
      (after p ms).tasks ++ [⟨operation, past, .done r⟩] := by
  have hmoves : ms ++ carryOut task id operation 1 =
      ms ++ [.start operation] ++ [.turn task ⟨default, id, .ok true, none⟩] := by
    rw [List.append_assoc]
    rfl
  rw [hmoves, after_concat, after_concat]
  generalize after p ms = s at last ends
  have htask : (s.tasks ++ [⟨operation, [], operation.program p⟩])[task]? =
      some ⟨operation, [], .call c next⟩ := by
    rw [← program, ← last]
    exact List.getElem?_concat_length
  refine ⟨[⟨c, (s.world.reply ⟨default, id, .ok true, none⟩ c).1⟩], ?_⟩
  rw [move, move, turn]
  dsimp only
  rw [htask]
  dsimp only
  rw [if_neg fun h => named h.1, List.nil_append, ends, ← last,
    List.set_append_right _ _ (Nat.le_refl _), Nat.sub_self]
  rfl

end System

/-! ## What does not fit in a frame -/

namespace Resource

variable {r read : Resource}

/-- What is read of a stored resource has its labels. -/
theorem ofStrings_labels (h : r.stored.Shows read)
    (plain : (Body.ofJson (.ofStrings r.labels)).isPlain = true) :
    Json.ofStrings read.labels = .ofStrings r.labels := by
  obtain ⟨b, hb, hsays⟩ := h.labels
  have hself := r.field_stored (n := "labels") (by decide)
  rw [show (r.field "labels").canonical = .ofStrings r.labels from Json.canonical_ofStrings _]
    at hself
  obtain rfl := Reached.place.inj (hb.symm.trans hself)
  exact (Body.ofJson_inj ((Body.says_iff_of_isPlain plain).1 hsays)).symm

/-- Only the spec of a project names a cluster. -/
theorem kind_of_bound {x : String} (bound : r.spec.bound = some x) : r.kind = .project := by
  by_contra hne
  cases bound.symm.trans (Spec.bound_of_kind_ne hne)

theorem cluster_of_bound {x : String} (bound : r.spec.bound = some x) :
    r.cluster = .done (.ok (some x)) := by
  have hkind : r.card.key.kind = .project := kind_of_bound bound
  rw [cluster_eq, if_pos hkind]
  exact congrArg (fun o => Program.done (.ok o)) bound

end Resource

namespace ControlPlane

variable {p : ControlPlane} {report : Wire.Report} {r : Resource}

/-- A resource that does not fit in a frame is not sent. -/
theorem dispatch_of_large {action : SyncAction} {x : String} {e : Wire.FrameError}
    (bound : r.spec.bound = some x)
    (large : Wire.Frame.ofEnvelope (r.envelope x action) = .error e) :
    p.dispatch r action = .done (.error e.toOpError) := by
  rw [dispatch, send, Resource.cluster_of_bound bound]
  simp only [Program.done_ok_bind, large, Program.ofExcept]
  rfl

/-- Nor is it sent once more. -/
theorem resend_of_large {x : String} {e : Wire.FrameError} (bound : r.spec.bound = some x)
    (large : Wire.Frame.ofEnvelope (r.envelope x r.pendingAction) = .error e) :
    p.resend r = .done (.error e.toOpError) := by
  rw [resend, settle, dispatch_of_large bound large]
  rfl

/-- A status report on another version ends with the error of sending the resource once more. -/
theorem route_of_stale {j : Json} {e : OpError} (handled : p.handles report.resourceKind = true)
    (update : report.kind = .statusUpdate)
    (hread : Resource.ofDocument report.resourceKind j = .ok r)
    (stale : r.recordVersion ≠ report.recordVersion)
    (resent : p.resend r = .done (.error e)) :
    ∃ next, (Operation.route report).program p =
        .call (.findOne report.resourceKind.collection (.reported report)) next ∧
      next (.ok (some j)) = .done (.error e) := by
  rw [Operation.program, route, if_pos handled]
  refine ⟨_, rfl, ?_⟩
  simp only [hread, Program.bind, Program.ofExcept, Program.done_ok_bind, Program.pure_eq, update,
    takeStatus, if_pos stale, resent]

end ControlPlane

namespace System

/-- A text that is longer than the payload of a frame. -/
def longText : String := .ofList (.replicate (Wire.maxPayload + 1) 'x')

/-- A report with a label that does not fit in a frame. -/
def heavyReport : Wire.Report :=
  { shopReport 1 .statusUpdate with object.labels := .ofList [("notes", longText)] }

/-- The agent reports the project with a label that does not fit in a frame. -/
def heavyRun : List Move := createdRun ++ carryOut 1 "5e9b4f36" (.route heavyReport) 3

/-- After that it reports on a version that is not the stored one. -/
def refusedRun : List Move :=
  heavyRun ++ carryOut 2 "5e9b4f36" (.route (shopReport 2 .statusUpdate)) 1

theorem eq_ok_of_toOption {ε α : Type} {x : Except ε α} {a : α} (h : x.toOption = some a) :
    x = .ok a := by
  cases x with
  | ok b => exact congrArg Except.ok (Option.some.inj h)
  | error e => cases h

/-- How the first call for the last report of the run is answered. -/
def lastAnswer : Except OpError (Option Json) :=
  ((after .default heavyRun).world.reply ⟨default, "5e9b4f36", .ok true, none⟩
    (.findOne Kind.project.collection (.reported (shopReport 2 .statusUpdate)))).1

theorem refusedRun_met : ((after .default createdRun).AtRest ∧ (after .default heavyRun).AtRest ∧
      (after .default heavyRun).LastMeets (·.MeetsWith none) ∧
      (after .default refusedRun).LastMeets (·.MeetsWith none)) ∧
    (after .default heavyRun).tasks.length = 2 ∧
    (lastAnswer.toOption.join.bind fun j => (Resource.ofDocument .project j).toOption).isSome ∧
    (after .default createdRun).documents.length = 1 ∧
    ∀ d ∈ (after .default createdRun).documents, d.card.version = 1 ∧
      d.card.address? = some (shopReport 1 .statusUpdate).address ∧
      d.card.bound = some "eu-1" := by
  decide +kernel

/-- The one document of the run has the label, and is where it was. -/
theorem heavyRun_stored : ∃ r : Resource, (after .default heavyRun).documents = [r.stored] ∧
    r.labels = heavyReport.object.labels ∧ r.card.version = 1 ∧
      r.card.address? = some (shopReport 1 .statusUpdate).address ∧
      r.card.bound = some "eu-1" := by
  obtain ⟨⟨created, heavy, met, -⟩, -, -, one, hcreated⟩ := refusedRun_met
  obtain ⟨d, hd⟩ := List.length_eq_one_iff.1 one
  obtain ⟨version, address, bound⟩ := hcreated d (hd ▸ List.mem_singleton_self d)
  have carried : Carried .default createdRun (.route heavyReport) heavyRun :=
    carried_carryOut created 1 "5e9b4f36" (.route heavyReport) 3 heavy
  obtain ⟨-, -, -, -, result, -, takesIn⟩ := carried.upheld_last met
    ((Operation.route heavyReport).takesIn none rfl rfl)
  have about : (after .default createdRun).world.stores.addressee? heavyReport = some d :=
    Stores.addressee?_of_single _ ((stores_documents _).trans hd) address
  obtain ⟨r, r', rfl, observes, hstores⟩ := takesIn.of_current about rfl version rfl
  rw [r.card_stored, ← observes.card] at version address bound
  refine ⟨r', ?_, congrArg Resource.labels observes.fields, version, address, bound⟩
  have hid : r.stored.id = r'.id := (congrArg Card.id observes.card).symm
  rw [← stores_documents, hstores, Stores.documents_tell, Stores.documents_put, stores_documents,
    hd, List.map_singleton, if_pos hid]

/-- The document of the run is read, and does not fit in a frame. -/
theorem heavyRun_read {r : Resource} (stored : (after .default heavyRun).documents = [r.stored])
    (labels : r.labels = heavyReport.object.labels) (hkind : r.kind = .project) :
    ∃ j read, lastAnswer = .ok (some j) ∧ Resource.ofDocument .project j = .ok read ∧
      read.card = r.card ∧ Wire.maxPayload < (Json.ofStrings read.labels).textLength := by
  obtain ⟨-, -, answered, -⟩ := refusedRun_met
  obtain ⟨read, hread⟩ := Option.isSome_iff_exists.1 answered
  obtain ⟨j, hj, hread⟩ := Option.bind_eq_some_iff.1 hread
  have hj := eq_ok_of_toOption (Option.join_eq_some_iff.1 hj)
  obtain ⟨d, hd, hdj⟩ := DocumentStore.find?_of_findOne (World.reply_findOne _ _ hj)
  have hmem : d ∈ (after .default heavyRun).documents := List.mem_of_find?_eq_some hd
  rw [stored] at hmem
  obtain rfl := List.mem_singleton.1 hmem
  have shows := Resource.shows_of_read hkind hdj (eq_ok_of_toOption hread)
  refine ⟨j, read, hj, eq_ok_of_toOption hread, shows.card.symm.trans r.card_stored, ?_⟩
  rw [Resource.ofStrings_labels shows (labels ▸ rfl), labels]
  refine Nat.lt_of_lt_of_le ?_ (Json.length_le_ofStrings (List.mem_singleton_self _))
  rw [longText, String.length_ofList, List.length_replicate]
  exact Nat.lt_succ_self _

/-- A report on another version does not always send the document once more: in the run it is about
a project that is bound to a cluster, and ends with the error that the envelope does not fit in a
frame. -/
theorem report_refused : Sequential .default refusedRun ∧
    Carried .default heavyRun (.route (shopReport 2 .statusUpdate)) refusedRun ∧
    (after .default refusedRun).LastMeets (·.MeetsWith none) ∧
    (∃ r : Resource, (after .default heavyRun).world.stores.addressee?
        (shopReport 2 .statusUpdate) = some r.stored ∧
      (shopReport 2 .statusUpdate).IsStaleFor r ∧
      (after .default heavyRun).world.stores.home? r.stored = some "eu-1") ∧
    ∃ t size, (after .default refusedRun).tasks = (after .default heavyRun).tasks ++ [t] ∧
      t.rest = .done (.error (Wire.FrameError.tooLarge size).toOpError) := by
  obtain ⟨⟨created, heavy, -, met⟩, last, -⟩ := refusedRun_met
  obtain ⟨r, hdocs, hlabels, version, address, bound⟩ := heavyRun_stored
  have hkind : r.kind = .project := Resource.kind_of_bound bound
  obtain ⟨j, read, hj, hread, hcard, long⟩ := heavyRun_read hdocs hlabels hkind
  have handled : ControlPlane.default.handles (shopReport 2 .statusUpdate).resourceKind = true :=
    rfl
  -- The run is not evaluated to its end, since the whole envelope would be written out for that.
  have resent := ControlPlane.resend_of_large (p := .default)
    ((congrArg Card.bound hcard).trans bound) (Wire.Frame.ofEnvelope_of_lt long)
  have stale : ∀ r' : Resource, r'.card.version = 1 →
      r'.recordVersion ≠ (shopReport 2 .statusUpdate).recordVersion :=
    fun r' h heq => absurd (heq.symm.trans h) (by decide)
  obtain ⟨next, program, ends⟩ :=
    ControlPlane.route_of_stale handled rfl hread (stale read (hcard ▸ version)) resent
  obtain ⟨past, refused⟩ := tasks_carryOut_one program nofun last (hj ▸ ends)
  have rest : (after .default refusedRun).AtRest := by
    rw [AtRest, refusedRun, refused]
    exact List.forall_mem_append.2 ⟨heavy, List.forall_mem_singleton.2 rfl⟩
  have seq := sequential_createdRun.carryOut created 1 "5e9b4f36" (.route heavyReport) 3
  have seq := Sequential.carryOut seq heavy 2 "5e9b4f36" (.route (shopReport 2 .statusUpdate)) 1
  refine ⟨seq, carried_carryOut heavy 2 _ _ 1 rest, met, ⟨r, ?_, ⟨stale r version, nofun⟩, ?_⟩,
    _, _, refused, rfl⟩
  · exact (after .default heavyRun).world.stores.addressee?_of_single
      ((stores_documents _).trans hdocs) (r.card_stored ▸ address)
  · exact ((after .default heavyRun).world.stores.home?_stored hkind).trans bound

end System

end FleetSync
