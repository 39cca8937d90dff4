import FleetSync.Proofs.Sequence.Changes
import FleetSync.Proofs.Sequence.Detachment

/-!
# What operations ensure

Sweeps send one resource after the other, and those to come stay as they were read
(`ControlPlane.total_works`). Taking a report in keeps the card of the resource or sends it once
more, unless a delete confirmation removes it (`Ledger.Takes`, `ControlPlane.route_takes`). So to a
ledger whose rows are in order every operation does nothing but deeds, or it is an update that moves
a project, or it takes in a delete confirmation that removes a card (`Operation.ensures`).
-/

namespace FleetSync

/-- Whether a ledger comes from another by deeds that keep all cards but that of a resource. -/
def Ledger.Spares (r : Resource) (l l' : Ledger) : Prop :=
  l.Evolves l' ∧ ∀ d ∈ l.cards, d.id ≠ r.id → d ∈ l'.cards

/-- What becomes of a ledger when a report is taken in: there are deeds, or it is a delete
confirmation and removes a card. -/
def Ledger.Takes (report : Wire.Report) (l l' : Ledger) : Prop :=
  l.Evolves l' ∨ report.kind = .deleteConfirmation ∧ ∃ c ∈ l.cards, l' = l.strike c

open Program (Ensures)
open ControlPlane (detachScope_ensures)

variable {w : World}

namespace ControlPlane

variable (p : ControlPlane)

/-! ## Sweeps -/

/-- What works for every item in turn works for all. -/
theorem sweep_works {β : Type} {count : β → Program Nat} (hl : w.ledger.Mapped)
    (turn : ∀ b w, w.ledger.Mapped → (count b).Works w) (items : List β) :
    (Program.total count items).Works w := by
  refine Program.Works.tidy fun tidy => ?_
  refine Ensures.total (fun _ w' => w.ledger.Evolves w'.ledger)
    (fun b rest w' h => ?_) .refl
  exact (turn b w' (hl.evolves tidy h).1).after h

/-- What works for a resource and spares all others works for one after the other. -/
theorem total_works {count : Resource → Program Nat} (hl : w.ledger.Mapped)
    (turn : ∀ r w, w.ledger.Mapped → r.card ∈ w.ledger.cards →
      Ensures False (fun _ w' => Ledger.Spares r w.ledger w'.ledger)
        (fun _ w' => w.ledger.Evolves w'.ledger) (count r) w)
    {rs : List Resource} (stored : ∀ r ∈ rs, r.card ∈ w.ledger.cards)
    (ids : (rs.map (·.id)).Nodup) : (Program.total count rs).Works w := by
  refine Program.Works.tidy fun tidy => ?_
  let inv : List Resource → World → Prop := fun rest w' => w.ledger.Evolves w'.ledger ∧
    (∀ r ∈ rest, r.card ∈ w'.ledger.cards) ∧ (rest.map (·.id)).Nodup
  refine (Ensures.total inv (fun r rest w' hinv => ?_) ⟨.refl, stored, ids⟩).mono
    (fun _ _ h => h.1) fun _ _ h => h
  obtain ⟨evolves, stored, ids⟩ := hinv
  obtain ⟨hnew, ids⟩ := List.nodup_cons.1 ids
  refine (turn r w' (hl.evolves tidy evolves).1 (stored r (List.mem_cons_self ..))).mono
    (fun _ w'' h => ⟨evolves.trans h.1, fun r' hr' => ?_, ids⟩) fun _ _ h => evolves.trans h
  refine h.2 _ (stored r' (List.mem_cons_of_mem _ hr')) fun hid => hnew ?_
  exact List.mem_map.2 ⟨r', hr', hid⟩

theorem requeue_spares (hl : w.ledger.Mapped) {r : Resource} (hr : r.card ∈ w.ledger.cards) :
    Ensures False (fun _ w' => Ledger.Spares r w.ledger w'.ledger)
      (fun _ w' => w.ledger.Evolves w'.ledger) (p.requeue r) w := by
  refine Ensures.tidy fun ht => ?_
  have tidy := Ledger.tidy_of_documents ht
  refine (p.requeue_ensures hr fun _ _ h => h ▸ .refl).mono ?_ fun _ _ h => h
  rintro o w' ⟨-, l, hsends, hw'⟩
  rw [hw']
  refine ⟨hl.evolves_settle tidy hr hsends, fun d hd hid => ?_⟩
  exact Ledger.mem_settle (hsends.cards ▸ hr) (hsends.cards ▸ hd) hid

theorem settle_spares (hl : w.ledger.Mapped) {r : Resource} (hr : r.card ∈ w.ledger.cards) :
    Ensures False (fun _ w' => Ledger.Spares r w.ledger w'.ledger)
      (fun _ w' => Ledger.Spares r w.ledger w'.ledger) (p.settle r) w := by
  refine Ensures.tidy fun ht => ?_
  have tidy := Ledger.tidy_of_documents ht
  refine (p.settle_ensures hr fun _ _ h => h ▸ ⟨.refl, fun _ hd _ => hd⟩).mono ?_ fun _ _ h => h
  rintro o w' ⟨-, -, l, hsends, hw'⟩
  rw [hw']
  refine ⟨hl.evolves_settle tidy hr hsends, fun d hd hid => ?_⟩
  exact Ledger.mem_settle (hsends.cards ▸ hr) (hsends.cards ▸ hd) hid

theorem resyncMembers_works (hl : w.ledger.Mapped) (s : Scope) (kind : Kind) :
    (p.resyncMembers s kind).Works w := by
  refine Program.Works.tidy fun tidy => ?_
  refine (Resource.members_ensures kind s).look fun rs w₁ h₁ => ⟨h₁.1, ?_⟩
  obtain ⟨hw₁, hcards⟩ := h₁
  have hsub : (rs.map (·.card)).Sublist w.ledger.cards := hcards ▸ List.filter_sublist
  rw [← hw₁] at hl tidy hsub
  refine total_works hl (fun r w hl hr => ?_)
    (fun r hr => hsub.subset (List.mem_map_of_mem hr)) (Resource.nodup_ids tidy hsub)
  exact (p.requeue_spares hl hr).bind fun _ _ h => Ensures.done h

theorem resyncScope_works (hl : w.ledger.Mapped) (user : User) (s : Scope) :
    (p.resyncScope user s).Works w := by
  refine (Program.ofExcept_ensures s.check fun _ _ h => h).look fun _ w₁ h₁ => ⟨h₁.1, ?_⟩
  rw [← h₁.1] at hl
  refine (Program.authorize_ensures user.id _ .resync fun _ _ h => h).look fun _ w₂ h₂ => ⟨h₂, ?_⟩
  rw [← h₂] at hl
  exact sweep_works hl (fun kind _ hl => p.resyncMembers_works hl s kind) p.kinds

/-- What is counted works if it works up to where it may fail. -/
theorem countOrZero_ensures {count : Program Nat} {good : World → Prop}
    {bad : OpError → World → Prop}
    (h : Ensures False (fun _ => good) (fun _ => good) count w) :
    Ensures False (fun _ => good) bad (countOrZero count) w := by
  have attempted : Ensures False (fun _ => good) bad count.attempt w :=
    Ensures.attempt not_false h
  exact attempted.bind fun _ _ h => Ensures.done h

theorem resyncStaleOf_works (hl : w.ledger.Mapped) (cutoff : Cutoff) (kind : Kind) :
    (p.resyncStaleOf cutoff kind).Works w := by
  refine Program.Works.tidy fun tidy => ?_
  refine (Resource.findAll_ensures kind .waiting).look fun rs w₁ h₁ => ⟨h₁.1, ?_⟩
  obtain ⟨hw₁, hsub, -, -⟩ := h₁
  have hsub : ((rs.filter (·.isStale cutoff)).map (·.card)).Sublist w.ledger.cards :=
    (List.filter_sublist.map _).trans hsub
  rw [← hw₁] at hl tidy hsub
  refine total_works hl (fun r w hl hr => ?_)
    (fun r hr => hsub.subset (List.mem_map_of_mem hr)) (Resource.nodup_ids tidy hsub)
  exact countOrZero_ensures ((p.settle_spares hl hr).bind fun _ _ h => Ensures.done h)

theorem resyncStale_works (hl : w.ledger.Mapped) (age : Nat) : (p.resyncStale age).Works w := by
  unfold resyncStale
  split
  · exact .fail
  refine Program.now_ensures.look fun time w₁ h₁ => ⟨h₁, ?_⟩
  rw [← h₁] at hl
  split
  · exact .done
  · rename_i cutoff _
    refine Ensures.works (sweep_works hl (fun kind w hl => ?_) p.kinds) fun _ _ h => ⟨h, .done⟩
    exact countOrZero_ensures (p.resyncStaleOf_works hl cutoff kind)

/-! ## Reports -/

theorem resend_works (hl : w.ledger.Mapped) {r : Resource} (hr : r.card ∈ w.ledger.cards) :
    (p.resend r).Works w :=
  (p.settle_works hl hr).works fun _ _ h => ⟨h, .done⟩

theorem resendChanged_works (hl : w.ledger.Mapped) (r : Resource) :
    (p.resendChanged r).Works w := by
  refine (Resource.findOne_ensures r.kind (.byId r.id)).look fun o w₁ h₁ => ⟨h₁.1, ?_⟩
  cases o with
  | none => exact .done
  | some current =>
    obtain ⟨hw₁, hfound⟩ := h₁
    rw [← hw₁] at hl hfound
    exact p.resend_works hl (hfound current rfl).1

theorem takeStatus_works (hl : w.ledger.Mapped) {r : Resource} (hr : r.card ∈ w.ledger.cards)
    (report : Wire.Report) : (p.takeStatus r report).Works w := by
  unfold takeStatus
  split
  · exact p.resend_works hl hr
  refine (Program.ofExcept_ensures report.observed fun _ _ h => h).look
    fun status w₁ h₁ => ⟨h₁.1, ?_⟩
  rw [← h₁.1] at hl hr
  have observed : Ensures False (fun _ w' => w'.ledger = w₁.ledger)
      (fun _ w' => w'.ledger = w₁.ledger)
      (r.patchAtVersion (r.observe report status).observation) w₁ :=
    Edit.ensures_same (e := ⟨r, .observe report status⟩) hr (fun _ _ _ _ h => nomatch h) rfl
  refine observed.look fun hit w₂ h₂ => ⟨h₂, ?_⟩
  rw [← h₂] at hl hr
  split
  · exact (Program.emit_ensures .updated _).look fun _ _ h => ⟨h, .done⟩
  · exact p.resendChanged_works hl r

theorem takeError_works (hl : w.ledger.Mapped) {r : Resource} (hr : r.card ∈ w.ledger.cards)
    (report : Wire.Report) (message : String) : (p.takeError r report message).Works w := by
  unfold takeError
  split
  · exact p.resend_works hl hr
  have failed : Ensures False (fun _ w' => w'.ledger = w.ledger) (fun _ w' => w'.ledger = w.ledger)
      (r.patchAtVersion [.set ["sync_status"]
        (r.syncStatus.failed message report.timestamp).encode]) w :=
    Edit.ensures_same (e := ⟨r, .fail message report.timestamp⟩) hr (fun _ _ _ _ h => nomatch h) rfl
  refine failed.look fun hit w₁ h₁ => ⟨h₁, ?_⟩
  rw [← h₁] at hl hr
  split
  · exact (Program.emit_ensures .updated _).look fun _ _ h => ⟨h, .done⟩
  · exact p.resendChanged_works hl r

theorem takeDeletion_takes (hl : w.ledger.Mapped) {r : Resource} (hr : r.card ∈ w.ledger.cards)
    {report : Wire.Report} (confirms : report.kind = .deleteConfirmation) :
    Ensures False (fun _ w' => w.ledger.Takes report w'.ledger)
      (fun _ w' => w.ledger.Takes report w'.ledger) (p.takeDeletion r report) w := by
  unfold takeDeletion
  split
  · exact (Resource.remove_ensures hr).bind fun _ w₁ h₁ =>
      Ensures.done (.inr ⟨confirms, r.card, hr, h₁⟩)
  · exact (p.resend_works hl hr).mono (fun _ _ h => .inl h) fun _ _ h => .inl h

theorem route_takes (hl : w.ledger.Mapped) (report : Wire.Report) :
    Ensures False (fun _ w' => w.ledger.Takes report w'.ledger)
      (fun _ w' => w.ledger.Takes report w'.ledger) (p.route report) w := by
  unfold route
  split
  · refine (Resource.findOne_ensures report.resourceKind (.reported report)).bind fun o w₁ h₁ => ?_
    obtain ⟨hw₁, hfound⟩ := h₁
    rw [← hw₁] at hl hfound ⊢
    cases o with
    | none => exact Ensures.done (.inl .refl)
    | some r =>
      have hr := (hfound r rfl).1
      cases hkind : report.kind with
      | statusUpdate =>
        exact (p.takeStatus_works hl hr report).mono (fun _ _ h => .inl h) fun _ _ h => .inl h
      | deleteConfirmation => exact p.takeDeletion_takes hl hr hkind
      | applyError message =>
        exact (p.takeError_works hl hr report message).mono (fun _ _ h => .inl h)
          fun _ _ h => .inl h
  · exact Ensures.done (.inl .refl)

end ControlPlane

/-! ## Operations -/

/-- An operation that takes a report in ensures what taking it in ensures. -/
theorem Operation.ensures_of_route (p : ControlPlane) {operation : Operation}
    {report : Wire.Report} {faults : Prop} {good : World → Prop} {bad : OpError → World → Prop}
    (h : operation.report? = some report)
    (route : Ensures faults (fun _ => good) bad (p.route report) w) :
    Ensures faults (fun _ => good) bad (operation.program p) w := by
  cases operation with
  | ingest payload =>
    have ingest : Ensures faults (fun _ => good) bad (p.ingest payload) w := by
      unfold ControlPlane.ingest
      cases hread : ControlPlane.readReport payload with
      | error e => rw [report?, hread] at h; cases h
      | ok report' =>
        rw [report?, hread] at h
        obtain rfl := Option.some.inj h
        exact route
    exact ingest.map fun _ _ h => h
  | route report' =>
    obtain rfl := Option.some.inj h
    exact route.map fun _ _ h => h
  | _ => cases h

/-- What an operation makes of a ledger: an update may move a project, and a delete confirmation may
remove a card. -/
def Operation.Yields (operation : Operation) (l l' : Ledger) : Prop :=
  l.Evolves l' ∨ operation.isUpdate = true ∧ l.Relocates l' ∨
    ∃ report, operation.report? = some report ∧ report.kind = .deleteConfirmation ∧
      ∃ c ∈ l.cards, l' = l.strike c

/-- An operation does nothing but deeds, or it is an update that moves a project, or it takes in a
delete confirmation that removes a card. -/
theorem Operation.ensures {p : ControlPlane} (operation : Operation)
    (hp : ∀ c ∈ w.ledger.cards, p.handles c.key.kind = true) (hl : w.ledger.Mapped) :
    (operation.program p).Ensures False (fun _ w' => operation.Yields w.ledger w'.ledger)
      (fun _ w' => operation.Yields w.ledger w'.ledger) w := by
  have made : ∀ {α : Type} {f : α → Outcome} {q : Program α}, q.Works w →
      (f <$> q).Ensures False (fun _ w' => operation.Yields w.ledger w'.ledger)
        (fun _ w' => operation.Yields w.ledger w'.ledger) w := fun h =>
    (h.mono (fun _ _ h => .inl h) fun _ _ h => .inl h).map fun _ _ h => h
  have taken : ∀ {report : Wire.Report}, operation.report? = some report →
      (operation.program p).Ensures False (fun _ w' => operation.Yields w.ledger w'.ledger)
        (fun _ w' => operation.Yields w.ledger w'.ledger) w := fun {report} h =>
    operation.ensures_of_route p h ((p.route_takes hl report).mono
      (fun _ _ ht => ht.imp_right fun ht => .inr ⟨report, h, ht⟩)
      fun _ _ ht => ht.imp_right fun ht => .inr ⟨report, h, ht⟩)
  cases operation with
  | create user s input => exact made (p.create_works hl user s input)
  | update user s input =>
    exact ((p.update_ensures hl user s input).mono
      (fun _ _ h => h.imp_right fun h => .inl ⟨rfl, h⟩)
      fun _ _ h => h.imp_right fun h => .inl ⟨rfl, h⟩).map fun _ _ h => h
  | delete user kind s name => exact made (p.delete_works hl user kind s name)
  | resync user kind s name => exact made (p.resync_works hl user kind s name)
  | resyncScope user s => exact made (p.resyncScope_works hl user s)
  | detachScope user s purge =>
    refine Ensures.bind (detachScope_ensures hp hl user s purge fun _ _ h => .inl (h ▸ .refl))
      fun _ w' h => Ensures.tidy fun ht => Ensures.done (.inl ?_)
    exact .deed (.detach h) (Ledger.tidy_of_documents ht)
  | resyncStale age => exact made (p.resyncStale_works hl age)
  | ingest payload =>
    cases hread : ControlPlane.readReport payload with
    | ok report => exact @taken report (by rw [report?, hread]; rfl)
    | error e =>
      have unread : (p.ingest payload).Works w := by
        unfold ControlPlane.ingest
        rw [hread]
        exact .fail
      exact made unread
  | route report => exact taken rfl

end FleetSync
