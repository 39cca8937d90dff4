import FleetSync.Proofs.Sequence.Operations
import FleetSync.Proofs.Sequence.Run

/-!
# Confirmations that are delivered once more

What a delete confirmation takes away is the document that it is taken to be about, if that is
marked for deletion or at the version of the report (`World.Condemns`); all others stay
(`System.Carried.confirms`). A report names no id, and a resource that is created under the name of
one that is gone starts with the first version again. So a confirmation that is delivered once more
takes nothing away that was created since, just if it does not condemn that
(`System.replay_spares_iff`).
-/

namespace FleetSync

open Program (Ensures)

/-- Whether a delete confirmation takes a document away: it is the one that the report is taken to
be about, and it is marked for deletion or at the version of the report. -/
structure World.Condemns (p : ControlPlane) (w : World) (report : Wire.Report)
    (d : StoredDocument) : Prop where
  handled : p.handles report.resourceKind = true
  found : w.documents.documents.find?
    (·.matches? report.resourceKind.collection (.reported report)) = some d
  confirmed : d.isMarked = true ∨ d.version = report.recordVersion

/-- What a delete confirmation makes of a world: the document that it condemns goes with its row, or
there is none and all documents stay. -/
def World.Confirms (p : ControlPlane) (w : World) (report : Wire.Report) (w' : World) : Prop :=
  (∃ d, w.Condemns p report d ∧ w'.ledger = w.ledger.strike d.card) ∨
    (∀ d, ¬ w.Condemns p report d) ∧
      w'.ledger.cards.map (·.id) = w.ledger.cards.map (·.id)

theorem World.Condemns.mem {p : ControlPlane} {w : World} {report : Wire.Report}
    {d : StoredDocument} (h : w.Condemns p report d) : d.card ∈ w.ledger.cards :=
  List.mem_map_of_mem (List.mem_of_find?_eq_some h.found)

/-- A report condemns one document at most. -/
theorem World.Condemns.unique {p : ControlPlane} {w : World} {report : Wire.Report}
    {d d' : StoredDocument} (h : w.Condemns p report d) (h' : w.Condemns p report d') : d = d' :=
  Option.some.inj (h.found.symm.trans h'.found)

namespace Ledger

variable {l : Ledger} {c : Card} {id : String}

theorem mem_ids_strike :
    id ∈ (l.strike c).cards.map (·.id) ↔ id ∈ l.cards.map (·.id) ∧ id ≠ c.id := by
  simp only [List.mem_map]
  constructor
  · rintro ⟨d, hd, rfl⟩
    obtain ⟨hd, hne⟩ := mem_strike.1 hd
    exact ⟨⟨d, hd, rfl⟩, hne⟩
  · rintro ⟨⟨d, hd, rfl⟩, hne⟩
    exact ⟨d, mem_strike.2 ⟨hd, hne⟩, rfl⟩

theorem ids_settle_of_live {o : Option String} (live : c.marked = false) :
    (l.settle c o).cards.map (·.id) = l.cards.map (·.id) := by
  rw [settle, if_neg fun h => Bool.false_ne_true (live.symm.trans h.2)]
  exact Card.map_id_replaceIn l.cards (c.on o)

end Ledger

namespace ControlPlane

variable (p : ControlPlane) {w w₁ : World} {report : Wire.Report}

theorem takeDeletion_confirms {r : Resource} {d : StoredDocument}
    (handled : p.handles report.resourceKind = true)
    (found : w.documents.documents.find?
      (·.matches? report.resourceKind.collection (.reported report)) = some d)
    (hcard : d.card = r.card) (hw₁ : w₁.ledger = w.ledger) :
    Ensures False (fun _ w' => w.Confirms p report w') (fun _ w' => w.Confirms p report w')
      (p.takeDeletion r report) w₁ := by
  have hr : r.card ∈ w₁.ledger.cards := by
    rw [hw₁, ← hcard]
    exact List.mem_map_of_mem (List.mem_of_find?_eq_some found)
  have hmarked : d.isMarked = r.markedForDeletion := congrArg Card.marked hcard
  have hversion : d.version = r.recordVersion := congrArg Card.version hcard
  unfold takeDeletion
  cases hdecided : deleteConfirmed r.recordVersion report.recordVersion r.markedForDeletion with
  | remove =>
    have confirmed := deleteConfirmed_eq_remove.1 hdecided
    rw [← hmarked, ← hversion] at confirmed
    refine (Resource.remove_ensures hr).bind fun _ w₂ h₂ => Ensures.done (.inl ?_)
    exact ⟨d, ⟨handled, found, confirmed⟩, by rw [h₂, hw₁, hcard]⟩
  | resync =>
    have stays : ¬ (d.isMarked = true ∨ d.version = report.recordVersion) := by
      rw [hmarked, hversion]
      exact fun h => nomatch hdecided.symm.trans (deleteConfirmed_eq_remove.2 h)
    have spared : ∀ d', ¬ w.Condemns p report d' := by
      intro d' hd'
      obtain rfl := Option.some.inj (found.symm.trans hd'.found)
      exact stays hd'.confirmed
    have live : r.card.marked = false :=
      Bool.eq_false_iff.2 fun h => stays (.inl (hmarked.trans h))
    refine (p.settle_ensures hr fun e w' hw' => .inr ⟨spared, by rw [hw', hw₁]⟩).bind
      fun o w₂ h₂ => Ensures.done (.inr ⟨spared, ?_⟩)
    obtain ⟨-, -, l, hsends, hw₂⟩ := h₂
    rw [hw₂, Ledger.ids_settle_of_live live, hsends.cards, hw₁]

/-- Taking a delete confirmation in takes away what it condemns and nothing else. -/
theorem route_confirms (hkind : report.kind = .deleteConfirmation) :
    Ensures False (fun _ w' => w.Confirms p report w') (fun _ w' => w.Confirms p report w')
      (p.route report) w := by
  unfold route
  split
  · rename_i handled
    refine (Resource.findOne_finds report.resourceKind (.reported report)).bind fun o w₁ h₁ => ?_
    obtain ⟨hw₁, -, hcard⟩ := h₁
    cases o with
    | none =>
      refine Ensures.done (.inr ⟨fun d hd => ?_, by rw [hw₁]⟩)
      rw [hd.found] at hcard
      cases hcard
    | some r =>
      obtain ⟨d, found, hcard⟩ := Option.map_eq_some_iff.1 hcard.symm
      rw [hkind]
      exact p.takeDeletion_confirms handled found hcard hw₁
  · rename_i unhandled
    exact Ensures.done (.inr ⟨fun d hd => unhandled hd.handled, rfl⟩)

end ControlPlane

namespace System

variable {p : ControlPlane} {ms ms' moves moves' : List Move} {operation : Operation}
  {report : Wire.Report}

theorem ids_ledger (s : System) : s.world.ledger.cards.map (·.id) = s.documentIds :=
  List.map_map

/-- A delete confirmation that is taken in takes away what it condemns and nothing else. -/
theorem Carried.confirms (h : Carried p ms operation ms') (served : (after p ms').Served)
    (hreport : operation.report? = some report) (hkind : report.kind = .deleteConfirmation) :
    (after p ms).world.Confirms p report (after p ms').world := by
  obtain ⟨t, r, -, -, -, hends⟩ := h.ensures (.inr served)
    (operation.ensures_of_route p hreport (p.route_confirms hkind))
  cases r with
  | ok a => exact hends
  | error e => exact hends.resolve_left not_false

/-- The documents that stay are those that a delete confirmation does not condemn. -/
theorem Carried.mem_documentIds (h : Carried p ms operation ms') (served : (after p ms').Served)
    (hreport : operation.report? = some report) (hkind : report.kind = .deleteConfirmation)
    (id : String) : id ∈ (after p ms').documentIds ↔
      id ∈ (after p ms).documentIds ∧ ∀ d, (after p ms).world.Condemns p report d → d.id ≠ id := by
  rw [← ids_ledger, ← ids_ledger]
  rcases h.confirms served hreport hkind with ⟨d, condemned, hledger⟩ | ⟨spared, hids⟩
  · rw [hledger, Ledger.mem_ids_strike]
    refine and_congr_right fun _ => ⟨fun hne d' condemned' hid => ?_, fun h hid => ?_⟩
    · exact hne (hid.symm.trans (congrArg StoredDocument.id (condemned'.unique condemned)))
    · exact h d condemned hid.symm
  · rw [hids]
    exact ⟨fun h => ⟨h, fun d hd => absurd hd (spared d)⟩, And.left⟩

/-- A delete confirmation that was taken in before, between two moments, is taken in once more. -/
structure Replay (p : ControlPlane) (report : Wire.Report) (ms ms' moves moves' : List Move) :
    Prop where
  confirms : report.kind = .deleteConfirmation
  first : ∃ operation, operation.report? = some report ∧ Carried p ms operation ms'
  since : ms' <+: moves
  again : ∃ operation, operation.report? = some report ∧ Carried p moves operation moves'

/-- Whether every document that was not yet created at some moment, and is stored at a later one, is
still stored at a third one. -/
def SparesSince (p : ControlPlane) (since moves moves' : List Move) : Prop :=
  ∀ d ∈ (after p moves).documents, ¬ (after p since).Inserted d.id →
    ∃ d' ∈ (after p moves').documents, d'.id = d.id

/-- A delete confirmation that is taken in once more spares what was created since the first time,
just if it condemns no such document. -/
theorem replay_spares_iff (h : Replay p report ms ms' moves moves')
    (served : (after p moves').Served) : SparesSince p ms' moves moves' ↔
      ∀ d, (after p moves).world.Condemns p report d → (after p ms').Inserted d.id := by
  obtain ⟨operation, hreport, carried⟩ := h.again
  have stays := carried.mem_documentIds served hreport h.confirms
  constructor
  · intro spares d hd
    by_contra hnew
    obtain ⟨d', hd', hid⟩ := spares d (List.mem_of_find?_eq_some hd.found) hnew
    have hmem : d.id ∈ (after p moves').documentIds := hid ▸ List.mem_map_of_mem hd'
    exact ((stays d.id).1 hmem).2 d hd rfl
  · intro old d hd hnew
    have hmem : d.id ∈ (after p moves').documentIds := by
      refine (stays d.id).2 ⟨List.mem_map_of_mem hd, fun d' hd' hid => ?_⟩
      exact hnew (hid ▸ old d' hd')
    exact List.mem_map.1 hmem

/-! ### A run -/

/-- The project is deleted. -/
def deletedRun : List Move :=
  createdRun ++ carryOut 1 "5e9b4f36" (.delete .system .project shopScope "shop") 6

/-- Its agent confirms that. -/
def goneRun : List Move :=
  deletedRun ++ carryOut 2 "5e9b4f36" (.route (shopReport 1 .deleteConfirmation)) 4

/-- The project is created again. -/
def recreatedRun : List Move :=
  goneRun ++ carryOut 3 "5e9b4f36" (.create .system shopScope shopInput) 7

/-- The confirmation is delivered once more. -/
def replayedRun : List Move :=
  recreatedRun ++ carryOut 4 "8a410000" (.route (shopReport 1 .deleteConfirmation)) 4

theorem replayedRun_documents :
    ((after .default createdRun).AtRest ∧ (after .default deletedRun).AtRest ∧
      (after .default goneRun).AtRest ∧ (after .default recreatedRun).AtRest ∧
      (after .default replayedRun).AtRest ∧ (after .default replayedRun).Served) ∧
    "5e9b4f36" ∉ (after .default goneRun).ids ∧
    (∃ d ∈ (after .default recreatedRun).documents, d.id = "5e9b4f36") ∧
    ∀ d ∈ (after .default replayedRun).documents, d.id ≠ "5e9b4f36" := by
  decide +kernel

theorem sequential_replayedRun : Sequential .default replayedRun := by
  obtain ⟨⟨created, deleted, gone, recreated, -, -⟩, -⟩ := replayedRun_documents
  have seq := sequential_createdRun.carryOut created 1 "5e9b4f36"
    (.delete .system .project shopScope "shop") 6
  have seq := seq.carryOut deleted 2 "5e9b4f36" (.route (shopReport 1 .deleteConfirmation)) 4
  have seq := seq.carryOut gone 3 "5e9b4f36" (.create .system shopScope shopInput) 7
  exact seq.carryOut recreated 4 "8a410000" (.route (shopReport 1 .deleteConfirmation)) 4

theorem replay_replayedRun : Replay .default (shopReport 1 .deleteConfirmation) deletedRun goneRun
    recreatedRun replayedRun := by
  obtain ⟨⟨-, deleted, gone, recreated, replayed, -⟩, -⟩ := replayedRun_documents
  refine ⟨rfl, ⟨.route _, rfl, ?_⟩, List.prefix_append _ _, ⟨.route _, rfl, ?_⟩⟩
  · exact carried_carryOut deleted 2 "5e9b4f36" _ 4 gone
  · exact carried_carryOut recreated 4 "8a410000" _ 4 replayed

/-- A confirmation that is delivered once more may take away what was created since: in the run the
new project goes. -/
theorem replay_not_spares : Sequential .default replayedRun ∧ (after .default replayedRun).Served ∧
    Replay .default (shopReport 1 .deleteConfirmation) deletedRun goneRun recreatedRun
      replayedRun ∧
    ¬ SparesSince .default goneRun recreatedRun replayedRun := by
  obtain ⟨⟨-, -, -, -, -, served⟩, new, ⟨d, hd, hid⟩, gone⟩ := replayedRun_documents
  refine ⟨sequential_replayedRun, served, replay_replayedRun, fun spares => ?_⟩
  obtain ⟨d', hd', hid'⟩ := spares d hd fun inserted =>
    new (hid ▸ mem_ids_of_inserted .default goneRun inserted)
  exact gone d' hd' (hid'.trans hid)

/-- In the run the confirmation condemns the new project. -/
theorem replay_spares_iff_recreated : (after .default replayedRun).Served ∧
    Replay .default (shopReport 1 .deleteConfirmation) deletedRun goneRun recreatedRun
      replayedRun ∧
    ∃ d, (after .default recreatedRun).world.Condemns .default
      (shopReport 1 .deleteConfirmation) d ∧ ¬ (after .default goneRun).Inserted d.id := by
  obtain ⟨⟨-, -, -, -, -, served⟩, new, ⟨d, hd, hid⟩, gone⟩ := replayedRun_documents
  refine ⟨served, replay_replayedRun, by_contra fun none => ?_⟩
  have spares := (replay_spares_iff replay_replayedRun served).2 fun d hd =>
    by_contra fun hnew => none ⟨d, hd, hnew⟩
  obtain ⟨d', hd', hid'⟩ := spares d hd fun inserted =>
    new (hid ▸ mem_ids_of_inserted .default goneRun inserted)
  exact gone d' hd' (hid'.trans hid)

end System

end FleetSync
