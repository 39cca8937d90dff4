import FleetSync.Proofs.Intake.Redelivery
import FleetSync.Proofs.Mapping.Silence

/-!
# Reports in any mixture

A document that is on the cluster that it belongs to is at home (`World.AtHome`). While it is, a
report on another version changes nothing of the documents and mappings, and one on the stored
version leaves it at home at that version (`World.AtHome.step`). So of any list of status reports
and failures only those on the stored version matter, and what is told apart from them by its
version may come in any order and any number of times (`System.current_reports_decide`). That a
project which is on a cluster belongs there is so in every sequential run
(`System.project_at_home`).
-/

namespace FleetSync

/-! ## Projects -/

namespace System

variable {p : ControlPlane} {moves : List Move}

/-- A project is on no cluster, or on the one that its spec names. -/
theorem project_at_home (seq : Sequential p moves) :
    ∀ c ∈ (after p moves).world.ledger.cards, c.key.kind = .project →
      c.cluster = none ∨ c.cluster = c.bound := by
  refine seq.honest_since (I := fun w => ∀ c ∈ w.ledger.cards, c.key.kind = .project →
    c.cluster = none ∨ c.cluster = c.bound) List.nil_prefix (atRest_nil p)
    (fun _ h => nomatch h) fun _ operation _ _ w c x tidy home honest d hd hk => ?_
  rcases honest.card_cases tidy hd with hd | ⟨e, honest, rfl⟩ | ⟨r, rfl, -, attached, -⟩
  · exact home d hd hk
  · have hcurrent := home _ honest.shown.card_mem
    rcases e with ⟨current, change⟩
    cases change with
    | attach cluster =>
      have htarget : w.ledger.target current.card = current.card.bound := if_pos hk
      exact .inr ((honest.attached cluster rfl).trans htarget)
    | revise input user time cluster =>
      let e : Edit := ⟨current, .revise input user time cluster⟩
      obtain ⟨hkind, hcluster, -⟩ := honest.revised input user time cluster rfl
      have hcard : (e.apply current).card = e.cardOf current.card := Edit.card_apply hkind.symm
      have htarget : w.ledger.target (e.cardOf current.card) = (e.cardOf current.card).bound :=
        if_pos hk
      rw [hcard, htarget] at hcluster
      exact .inr hcluster
    | detach time => exact .inl rfl
    | _ => exact hcurrent hk
  · have htarget : w.ledger.target r.card = r.card.bound := if_pos hk
    exact .inr (attached.trans htarget)

end System

/-! ## At home -/

/-- The reports on a version. -/
def Wire.Report.onVersion (v : Version) (reports : List Wire.Report) : List Wire.Report :=
  reports.filter fun report => decide (report.recordVersion = v)

/-- Whether what is at an address belongs there, and is at a version. -/
structure World.AtHome (w : World) (a : Wire.Address) (v : Version) : Prop where
  tidy : w.documents.Tidy
  version : ∀ d ∈ w.documents.documents, d.card.address? = some a → d.card.version = v
  home : ∀ d ∈ w.documents.documents, d.card.address? = some a →
    w.ledger.target d.card = d.card.cluster

namespace World.AtHome

variable {w w₁ : World} {report : Wire.Report} {v : Version}

theorem of_alike {a : Wire.Address} (h : w.AtHome a v) (alike : w.Alike w₁) : w₁.AtHome a v where
  tidy := alike.documents ▸ h.tidy
  version := alike.documents ▸ h.version
  home d hd ha := (alike.target d.card).trans (h.home d (alike.documents ▸ hd) ha)

/-- What is at home stays there and at its version, and if the report is on another one then nothing
changes. -/
theorem step (h : w.AtHome report.address v) (unconfirmed : report.kind ≠ .deleteConfirmation)
    (takes : w.Takes report w₁) :
    w₁.AtHome report.address v ∧ (report.recordVersion ≠ v → w.Alike w₁) := by
  cases takes with
  | keeps alike => exact ⟨h.of_alike alike, fun _ => alike⟩
  | @leaves r mem about _ cause =>
    rw [← r.card_stored] at about cause
    exact absurd (h.home _ mem about) (cause.resolve_left unconfirmed).2
  | @writes d e mem about gives current asks mappings written =>
    refine ⟨?_, fun stale => absurd (current.symm.trans (h.version d mem about)) stale⟩
    obtain ⟨r, sound, rfl⟩ := h.tidy.sound d mem
    have written := written r rfl
    -- What is written has the card that it had before.
    have before : ∀ d₁ ∈ w₁.documents.documents, ∃ d ∈ w.documents.documents, d.card = d₁.card := by
      intro d₁ hd₁
      rw [written] at hd₁
      obtain ⟨d, hd, hif⟩ := List.mem_map.1 hd₁
      split at hif
      · refine ⟨r.stored, mem, ?_⟩
        rw [← hif, Resource.card_stored, Resource.card_stored, asks.card_apply]
      · exact ⟨d, hd, congrArg StoredDocument.card hif⟩
    refine ⟨asks.tidy_written h.tidy sound mem gives written, fun d₁ hd₁ ha => ?_,
      fun d₁ hd₁ ha => ?_⟩
    · obtain ⟨d, hd, hcard⟩ := before d₁ hd₁
      rw [← hcard] at ha ⊢
      exact h.version d hd ha
    · obtain ⟨d, hd, hcard⟩ := before d₁ hd₁
      rw [← hcard] at ha ⊢
      exact (target_congr mappings d.card).trans (h.home d hd ha)

/-- Of reports on what is at home only those on its version matter. -/
theorem takeIn_onVersion {p : ControlPlane} {a : Wire.Address} {reports : List Wire.Report}
    (about : ∀ report ∈ reports, report.address = a ∧ report.kind ≠ .deleteConfirmation)
    (h : w.AtHome a v) (alike : w.Alike w₁) :
    (w.takeIn p reports).Alike (w₁.takeIn p (Wire.Report.onVersion v reports)) := by
  induction reports generalizing w w₁ with
  | nil => exact alike
  | cons report rest ih =>
    obtain ⟨rfl, unconfirmed⟩ := about report (List.mem_cons_self ..)
    obtain ⟨stays, unchanged⟩ := h.step unconfirmed (p.route_ends h.tidy report)
    have hrest := fun r hr => about r (List.mem_cons_of_mem report hr)
    by_cases current : report.recordVersion = v
    · rw [Wire.Report.onVersion, List.filter_cons_of_pos (by simp [current])]
      exact ih hrest stays ((p.route_steady report).run .allowAll alike)
    · rw [Wire.Report.onVersion, List.filter_cons_of_neg (by simp [current])]
      exact ih hrest stays ((unchanged current).symm.trans alike)

end World.AtHome

namespace System

variable {p : ControlPlane} {moves : List Move}

/-- For a document that is on the cluster its scope resolves to, and the only one at its address,
only the status reports and failures on its version matter: any list of them, whatever their
versions are, leaves the documents and mappings as those on its version alone do, in their order.
So two lists with the same reports on its version lead to the same. -/
theorem current_reports_decide (seq : Sequential p moves) {d : StoredDocument}
    (hd : d ∈ (after p moves).documents) {a : Wire.Address} (address : d.card.address? = some a)
    (home : d.kind ≠ .project →
      (after p moves).world.mappings.resolve d.card.key.scope = d.card.cluster)
    (sole : (after p moves).world.SoleAt a) {reports : List Wire.Report}
    (about : ∀ report ∈ reports, report.address = a ∧ report.kind ≠ .deleteConfirmation) :
    ((after p moves).world.takeIn p (Wire.Report.onVersion d.card.version reports)).SameRecords
        ((after p moves).world.takeIn p reports) ∧
      ∀ reports' : List Wire.Report,
        (∀ report ∈ reports', report.address = a ∧ report.kind ≠ .deleteConfirmation) →
        Wire.Report.onVersion d.card.version reports' =
          Wire.Report.onVersion d.card.version reports →
        ((after p moves).world.takeIn p reports').SameRecords
          ((after p moves).world.takeIn p reports) := by
  have there : ∀ d' ∈ (after p moves).world.documents.documents, d'.card.address? = some a →
      d' = d := fun d' hd' => sole d hd d' hd' address
  have target : (after p moves).world.ledger.target d.card = d.card.cluster := by
    rw [Ledger.target]
    split
    · rename_i hk
      rcases project_at_home seq d.card (List.mem_map_of_mem hd) hk with hnone | hbound
      · cases hnone.symm.trans (Card.cluster_of_address? address)
      · exact hbound.symm
    · exact home ‹_›
  have athome : (after p moves).world.AtHome a d.card.version := by
    refine ⟨tidy p moves, fun d' hd' ha => ?_, fun d' hd' ha => ?_⟩ <;> rw [there d' hd' ha]
    exact target
  have filtered : ∀ reports : List Wire.Report,
      (∀ report ∈ reports, report.address = a ∧ report.kind ≠ .deleteConfirmation) →
      ((after p moves).world.takeIn p (Wire.Report.onVersion d.card.version reports)).Alike
        ((after p moves).world.takeIn p reports) :=
    fun reports about => (athome.takeIn_onVersion about (.refl _)).symm
  refine ⟨(filtered reports about).toSameRecords, fun reports' about' same => ?_⟩
  have filtered' := filtered reports' about'
  rw [same] at filtered'
  exact (filtered'.symm.trans (filtered reports about)).toSameRecords

/-! ### A run -/

/-- A status report on the environment. -/
def devStatus (v : Version) : Wire.Report :=
  { devReport with recordVersion := v, kind := .statusUpdate }

/-- The environment is on the cluster of the project, and of three reports on it the one on its
version decides. -/
theorem current_reports_decide_environment : ∃ d ∈ (after .default attachedRun).documents,
    (d.card.address? = some devReport.address ∧ d.card.version = 1 ∧
      (after .default attachedRun).world.mappings.resolve d.card.key.scope = d.card.cluster) ∧
    (after .default attachedRun).world.SoleAt devReport.address ∧
    ((after .default attachedRun).world.takeIn .default [devStatus 1]).SameRecords
      ((after .default attachedRun).world.takeIn .default
        [devStatus 2, devStatus 1, devStatus 0]) := by
  obtain ⟨created, single, d, hd, address, version, home⟩ : (after .default createdRun).AtRest ∧
      ((after .default attachedRun).world.documents.documents.filter fun d =>
        decide (d.card.address? = some devReport.address)).length ≤ 1 ∧
      ∃ d ∈ (after .default attachedRun).documents, d.card.address? = some devReport.address ∧
        d.card.version = 1 ∧ (after .default attachedRun).world.mappings.resolve d.card.key.scope =
          d.card.cluster := by
    decide +kernel
  have sole := World.soleAt_of_length single
  have about : ∀ report ∈ [devStatus 2, devStatus 1, devStatus 0],
      report.address = devReport.address ∧ report.kind ≠ .deleteConfirmation := by
    decide
  have decided := (current_reports_decide (sequential_attachedRun created) hd address
    (fun _ => home) sole about).1
  rw [version] at decided
  exact ⟨d, hd, ⟨address, version, home⟩, sole, decided⟩

end System

end FleetSync
