import FleetSync.Control.Intake
import FleetSync.Control.Sweep
import FleetSync.Proofs.Sequence.Honesty

/-!
# Honest sweeps and reports

A sweep reads resources together and works on one after the other; those to come stay as they were
read (`World.Lists`), so each is worked on honestly (`Program.Honest.total`). What is purged along
with a scope is deleted at once and told one by one, and in between the events lag behind the store
by those to come (`ControlPlane.forgetEach_honest`). With what becomes of a report this makes every
operation honest (`Operation.honest`).
-/

namespace FleetSync

open Program (Honest)
open Program.Upholds (done fail known)

variable {faults : Prop} {p : ControlPlane} {o : Operation} {w : World} {r : Resource}

namespace Program.Honest

/-- What tends the first of the resources that are listed leaves the others listed. -/
theorem leaves {α : Type} {q : Program α} {rest : List Resource}
    (h : w.InStep faults ∧ w.Lists (r :: rest))
    (hq : Honest faults p o (fun _ w' => w.Tends faults r.id w') q w) :
    Honest faults p o (fun result w' =>
      if result.isOk then w'.InStep faults ∧ w'.Lists rest else w'.InStep faults) q w := by
  refine hq.mono fun result w' h' => ?_
  split
  · exact ⟨h'.inStep, h.2.rest h'⟩
  · exact h'.inStep

/-- What tends each resource in turn can be done for all that are listed. -/
theorem total {count : Resource → Program Nat} {rs : List Resource} (hi : w.InStep faults)
    (listed : w.Lists rs)
    (turn : ∀ r w, w.Shows r → w.InStep faults →
      Honest faults p o (fun _ w' => w.Tends faults r.id w') (count r) w) :
    Honest faults p o (fun _ w' => w'.InStep faults) (Program.total count rs) w := by
  let inv : List Resource → World → Prop := fun rest w' => w'.InStep faults ∧ w'.Lists rest
  refine (Upholds.total (·.InStep faults) inv (fun r rest w' h => ?_) ⟨hi, listed⟩).mono
    fun result w' h => ?_
  · exact leaves h (turn r w' (h.2.shown r (List.mem_cons_self ..)) h.1)
  · split at h
    · exact h.1
    · exact h

theorem forEach {act : Resource → Program Unit} {rs : List Resource} (hi : w.InStep faults)
    (listed : w.Lists rs)
    (turn : ∀ r w, w.Shows r → w.InStep faults →
      Honest faults p o (fun _ w' => w.Tends faults r.id w') (act r) w) :
    Honest faults p o (fun _ w' => w'.InStep faults) (Program.forEach act rs) w := by
  let inv : List Resource → World → Prop := fun rest w' => w'.InStep faults ∧ w'.Lists rest
  refine (Upholds.forEach (·.InStep faults) inv (fun r rest w' h => ?_) ⟨hi, listed⟩).mono
    fun result w' h => ?_
  · exact leaves h (turn r w' (h.2.shown r (List.mem_cons_self ..)) h.1)
  · split at h
    · exact h.1
    · exact h

/-- What keeps the events in step for each item can be done for all. -/
theorem sweep {β : Type} {count : β → Program Nat} {items : List β} (hi : w.InStep faults)
    (turn : ∀ b w, w.InStep faults →
      Honest faults p o (fun _ w' => w'.InStep faults) (count b) w) :
    Honest faults p o (fun _ w' => w'.InStep faults) (Program.total count items) w := by
  refine (Upholds.total (·.InStep faults) (fun _ w' => w'.InStep faults)
    (fun b rest w' h => ?_) hi).mono fun result w' h => ?_
  · exact (turn b w' h).mono fun _ _ h => by rwa [ite_self]
  · rwa [ite_self] at h

end Program.Honest

namespace World

/-- Whether an identity is stored, or its deletion is still to be told for one of some resources. -/
def Owes (w : World) (rs : List Resource) (i : Identity) : Prop :=
  w.Holds i ∨ ∃ r ∈ rs, r.card.key.identity = i

/-- Whether the events lag behind the store by the deletion of some resources. -/
structure Lags (faults : Prop) (w : World) (rs : List Resource) : Prop where
  announces : faults ∨ w.Announces (w.Owes rs)
  gone : ∀ r ∈ rs, ¬ w.Holds r.card.key.identity
  identities : (rs.map (·.card.key.identity)).Nodup

theorem Lags.inStep (h : w.Lags faults []) : w.InStep faults :=
  h.announces.imp_right fun h => h.congr rfl fun i => by simp [Owes]

end World

namespace ControlPlane

/-! ## Scopes -/

theorem resyncMembers_honest (hi : w.InStep faults) (s : Scope) (kind : Kind) :
    Honest faults p o (fun _ w' => w'.InStep faults) (p.resyncMembers s kind) w := by
  refine (Resource.members_honest kind s).bind (fun rs w₁ h₁ => ?_) fun _ _ h => h.1.keeps.inStep hi
  refine Honest.total (h₁.1.keeps.inStep hi) (h₁.1.keeps.lists (h₁.2 rs rfl)) fun r w hr hi => ?_
  exact (requeue_honest hr hi).bind (fun _ _ h => done h) fun _ _ h => h

theorem resyncScope_honest (hi : w.InStep faults) (user : User) (s : Scope) :
    Honest faults p o (fun _ w' => w'.InStep faults) (p.resyncScope user s) w := by
  refine (Program.ofExcept_honest s.check).bind (fun _ w₁ h₁ => ?_) fun _ _ h => h.1 ▸ hi
  obtain ⟨rfl, -⟩ := h₁
  refine (Program.authorize_honest _ _ _).bind (fun _ w₁ h₁ => ?_) fun _ _ h => h.keeps.inStep hi
  exact Honest.sweep (h₁.keeps.inStep hi) fun kind _ hi => resyncMembers_honest hi s kind

/-- Taking a resource off its cluster is told as an update. -/
theorem detachOne_honest (hr : w.Shows r) (hi : w.InStep faults) :
    Honest faults p o (fun _ w' => w.Tends faults r.id w') (detachOne r) w := by
  refine Honest.now hi fun time w₁ same => ?_
  let e : Edit := ⟨r, .detach time⟩
  have honest : e.Honest o w₁ :=
    ⟨same.keeps.shows hr, fun _ hc => (nomatch hc), fun _ _ _ _ hc => nomatch hc⟩
  dsimp only
  rw [r.patch_detachment time]
  refine (e.honest honest (same.keeps.inStep hi)).tends fun hit w₂ hi₂ h₂ => ?_
  have hr₂ := (h₂.2 hit rfl).resolve_right fun hg => nomatch hg.2
  refine (Program.removeMapping_honest _).bind (fun _ w₃ h₃ => ?_) fun _ _ h => h.1.tended hi₂
  exact (Program.emit_updated (h₃.1.shows hr₂) (h₃.1.inStep hi₂)).mono
    fun _ _ h => h₃.1.tends (h.2 r.id)

/-- A resource is forgotten when its deletion is told. -/
theorem forget_honest {rest : List Resource} (h : w.Lags faults (r :: rest)) :
    Honest faults p o (fun result w' => if result.isOk
      then w'.documents = w.documents ∧ w'.Lags faults rest else faults) (forget r) w := by
  refine (Program.removeMapping_honest r.mappingKey).bind (fun _ w₁ h₁ => ?_) fun e _ h => h.2 e rfl
  obtain ⟨hr, hrest⟩ := List.nodup_cons.1 h.identities
  have gone : ∀ r' ∈ r :: rest, ¬ w₁.Holds r'.card.key.identity :=
    fun r' hr' hh => h.gone r' hr' ((h₁.1.holds _).1 hh)
  have announces : faults ∨ w₁.Announces (w₁.Owes (r :: rest)) :=
    h.announces.imp_right fun h => h.congr h₁.1.events fun i => or_congr_left (h₁.1.holds i)
  refine (Program.emit_honest .deleted (w₁.Owes rest) announces
    ⟨.inr ⟨r, List.mem_cons_self .., rfl⟩, ?_⟩ fun i hne => or_congr_right ?_).mono
      fun result w₂ h₂ => ?_
  · rintro (hh | ⟨r', hr', hident⟩)
    · exact gone r (List.mem_cons_self ..) hh
    · exact hr (List.mem_map.2 ⟨r', hr', hident⟩)
  · simp only [List.mem_cons, exists_eq_or_imp, or_iff_right (Ne.symm hne)]
  · obtain ⟨hok, hdocuments, hannounces⟩ := h₂
    rw [if_pos hok]
    have holds : ∀ i, w₂.Holds i ↔ w₁.Holds i :=
      fun i => by rw [World.Holds, World.Holds, hdocuments]
    refine ⟨hdocuments.trans h₁.1.documents, ?_, fun r' hr' hh => ?_, hrest⟩
    · exact hannounces.imp_right fun h => h.congr rfl fun i => or_congr_left (holds i)
    · exact gone r' (List.mem_cons_of_mem _ hr') ((holds _).1 hh)

theorem forgetEach_honest {rs : List Resource} (h : w.Lags faults rs) :
    Honest faults p o (fun result w' => if result.isOk
      then w'.documents = w.documents ∧ w'.Lags faults [] else faults)
      (Program.forEach forget rs) w := by
  refine Program.Upholds.forEach (fun _ => faults)
    (fun rest w' => w'.documents = w.documents ∧ w'.Lags faults rest)
    (fun r rest w' h' => ?_) ⟨rfl, h⟩
  refine (forget_honest h'.2).mono fun result w'' h'' => ?_
  split
  · rename_i hok
    rw [if_pos hok] at h''
    exact ⟨h''.1.trans h'.1, h''.2⟩
  · rename_i hok
    rwa [if_neg hok] at h''

/-- What is purged of a kind in a scope is deleted, and the others of the kind stay listed. -/
theorem lags_of_purged {w' : World} {s : Scope} {kind : Kind} {rs : List Resource}
    (ht : w.documents.Tidy) (hi : w.InStep faults) (listed : w.Lists rs)
    (found : rs.map (·.card) =
      w.documents.cards.filter fun c => decide (c.key.kind = kind) && s.takes c.key)
    (hevents : w'.events = w.events)
    (hdocs : w'.documents.documents = w.documents.documents.filter fun d =>
      !(decide (d.card.key.kind = kind) && (s.takes d.card.key && !s.isOwner d.card.key))) :
    w'.Lags faults (rs.filter s.purges) ∧ w'.Lists (rs.filter (!s.purges ·)) := by
  have tidy := Ledger.tidy_of_documents ht
  have kept : ∀ d, d ∈ w'.documents.documents ↔ d ∈ w.documents.documents ∧
      (d.card.key.kind = kind → s.takes d.card.key = true → s.isOwner d.card.key = true) := by
    intro d
    rw [hdocs, List.mem_filter]
    simp only [Bool.not_eq_true', Bool.and_eq_false_imp, decide_eq_true_eq, Bool.not_eq_false']
  have mem : ∀ c, c ∈ rs.map (·.card) ↔
      c ∈ w.documents.cards ∧ c.key.kind = kind ∧ s.takes c.key = true := by
    intro c
    rw [found, List.mem_filter]
    simp
  have gone : ∀ r ∈ rs.filter s.purges, ¬ w'.Holds r.card.key.identity := by
    rintro r hr ⟨d, hd, hident⟩
    obtain ⟨hr, hpurges⟩ := List.mem_filter.1 hr
    obtain ⟨hd, howner⟩ := (kept d).1 hd
    obtain ⟨hmem, hk, htakes⟩ := (mem r.card).1 (List.mem_map_of_mem hr)
    have hcard : d.card = r.card := tidy.eq_of_identity (List.mem_map_of_mem hd) hmem hident
    rw [hcard] at howner
    rw [Scope.purges_eq, howner hk htakes] at hpurges
    cases hpurges
  have owes : ∀ i, w'.Owes (rs.filter s.purges) i ↔ w.Holds i := by
    intro i
    constructor
    · rintro (⟨d, hd, rfl⟩ | ⟨r, hr, rfl⟩)
      · exact ⟨d, ((kept d).1 hd).1, rfl⟩
      · exact (listed.shown r (List.mem_filter.1 hr).1).holds
    · rintro ⟨d, hd, rfl⟩
      by_cases hpicked : d.card.key.kind = kind → s.takes d.card.key = true →
          s.isOwner d.card.key = true
      · exact .inl ⟨d, (kept d).2 ⟨hd, hpicked⟩, rfl⟩
      · simp only [Classical.not_imp, Bool.not_eq_true] at hpicked
        obtain ⟨hk, htakes, howner⟩ := hpicked
        obtain ⟨r, hr, hcard⟩ :=
          List.mem_map.1 ((mem d.card).2 ⟨List.mem_map_of_mem hd, hk, htakes⟩)
        refine .inr ⟨r, List.mem_filter.2 ⟨hr, ?_⟩, congrArg (·.key.identity) hcard⟩
        rw [Scope.purges_eq, hcard, howner]
        rfl
  have identities : (rs.map (·.card.key.identity)).Nodup := by
    have hsub : (rs.map (·.card)).Sublist w.ledger.cards := found ▸ List.filter_sublist
    have hnodup := tidy.identities.sublist (hsub.map (·.key.identity))
    rwa [List.map_map] at hnodup
  have shown : ∀ r ∈ rs.filter (!s.purges ·), w'.Shows r := by
    intro r hr
    obtain ⟨hr, hpurges⟩ := List.mem_filter.1 hr
    obtain ⟨d, hd, hshows⟩ := listed.shown r hr
    refine ⟨d, (kept d).2 ⟨hd, fun _ _ => ?_⟩, hshows⟩
    rw [Scope.purges_eq] at hpurges
    rw [hshows.card]
    simpa using hpurges
  exact ⟨⟨hi.imp_right fun h => h.congr hevents owes, gone,
    identities.sublist (List.filter_sublist.map _)⟩,
    ⟨shown, listed.ids.sublist (List.filter_sublist.map _)⟩⟩

theorem detachEach_honest {rs : List Resource} (hi : w.InStep faults) (listed : w.Lists rs) :
    Honest faults p o (fun _ w' => w'.InStep faults) (Program.forEach detachOne rs) w :=
  Honest.forEach hi listed fun _ _ hr hi => detachOne_honest hr hi

theorem detachMembers_honest (hi : w.InStep faults) (s : Scope) (purge : Bool) (kind : Kind) :
    Honest faults p o (fun _ w' => w'.InStep faults) (detachMembers s purge kind) w := by
  unfold detachMembers
  split
  · exact done hi
  rename_i filter hfilter
  refine (Resource.findAll_honest kind filter).bind (fun rs w₁ h₁ => ?_)
    fun _ _ h => h.1.keeps.inStep hi
  obtain ⟨same, hfound⟩ := h₁
  obtain ⟨listed, hpicked⟩ := hfound rs rfl
  have found := hpicked _ (Filter.Picks.members hfilter)
  replace hi := same.keeps.inStep hi
  replace listed := same.keeps.lists listed
  rw [← same.documents] at found
  split
  rename_i purged kept hpart
  rw [List.partition_eq_filter_filter, Prod.mk.injEq] at hpart
  obtain ⟨hpurged, hkept⟩ := hpart
  dsimp only
  split
  · rename_i hsome
    obtain rfl := Scope.purge_of_purged hpurged hsome
    refine Program.Upholds.tidy fun ht => ?_
    refine (Program.deleteMany_honest (Filter.Picks.purged hfilter)).bind (fun _ w₂ h₂ => ?_)
      fun _ _ h => .inl h.1
    obtain ⟨lags, hlists⟩ := lags_of_purged ht hi listed found h₂.1 h₂.2
    simp only [Bool.true_and] at hpurged hkept
    rw [hpurged] at lags
    have hlists : w₂.Lists kept := hkept ▸ hlists
    refine (forgetEach_honest lags).bind (fun _ w₃ h₃ => ?_) fun _ _ h => .inl h
    have hlists₃ : w₃.Lists kept :=
      ⟨fun r hr => by rw [World.Shows, h₃.1]; exact hlists.shown r hr, hlists.ids⟩
    exact (detachEach_honest h₃.2.inStep hlists₃).bind (fun _ _ h => done h) fun _ _ h => h
  · have hlists : w₁.Lists kept := listed.of_sublist (hkept ▸ List.filter_sublist)
    exact (detachEach_honest hi hlists).bind (fun _ _ h => done h) fun _ _ h => h

theorem detachKinds_honest (hi : w.InStep faults) (s : Scope) (purge : Bool) (kinds : List Kind) :
    Honest faults p o (fun _ w' => w'.InStep faults) (detachKinds s purge kinds) w := by
  induction kinds generalizing w with
  | nil => exact done hi
  | cons kind rest ih =>
    refine (detachMembers_honest hi s purge kind).bind (fun _ w₁ h₁ => ?_) fun _ _ h => h
    exact (ih h₁).bind (fun _ _ h => done h) fun _ _ h => h

theorem detachScope_honest (hi : w.InStep faults) (user : User) (s : Scope) (purge : Bool) :
    Honest faults p o (fun _ w' => w'.InStep faults) (p.detachScope user s purge) w := by
  refine (Program.ofExcept_honest s.check).bind (fun _ w₁ h₁ => ?_) fun _ _ h => h.1 ▸ hi
  obtain ⟨rfl, -⟩ := h₁
  refine (Program.authorize_honest _ _ _).bind (fun _ w₁ h₁ => ?_) fun _ _ h => h.keeps.inStep hi
  replace hi := h₁.keeps.inStep hi
  refine (Program.removeScope_honest s).bind (fun _ w₂ h₂ => ?_) fun _ _ h => h.1.inStep hi
  exact (detachKinds_honest (h₂.1.inStep hi) s purge p.kinds).bind (fun _ _ h => done h)
    fun _ _ h => h

/-! ## Stale resources -/

theorem countOrZero_honest {count : Program Nat} {post : World → Prop}
    (h : Honest faults p o (fun _ => post) count w) :
    Honest faults p o (fun _ => post) (countOrZero count) w :=
  have attempted : Honest faults p o (fun _ => post) count.attempt w := .attempt h
  attempted.bind (fun _ _ h => done h) fun _ _ h => h

theorem resyncStaleOf_honest (hi : w.InStep faults) (cutoff : Cutoff) (kind : Kind) :
    Honest faults p o (fun _ w' => w'.InStep faults) (p.resyncStaleOf cutoff kind) w := by
  refine (Resource.findAll_honest kind .waiting).bind (fun rs w₁ h₁ => ?_)
    fun _ _ h => h.1.keeps.inStep hi
  have listed : w₁.Lists (rs.filter (·.isStale cutoff)) :=
    h₁.1.keeps.lists ((h₁.2 rs rfl).1.of_sublist List.filter_sublist)
  refine Honest.total (h₁.1.keeps.inStep hi) listed fun r w hr hi => ?_
  refine countOrZero_honest ((settle_honest hr hi).bind (fun _ _ h => done h.1) fun _ _ h => h.1)

theorem resyncStale_honest (hi : w.InStep faults) (age : Nat) :
    Honest faults p o (fun _ w' => w'.InStep faults) (p.resyncStale age) w := by
  unfold resyncStale
  split
  · exact fail hi
  refine Program.now_honest.bind (fun time w₁ h₁ => ?_) fun _ _ h => h.keeps.inStep hi
  replace hi := h₁.keeps.inStep hi
  split
  · exact done hi
  · rename_i cutoff _
    refine (Honest.sweep hi fun kind w hi => ?_).bind (fun _ _ h => done h) fun _ _ h => h
    exact countOrZero_honest (resyncStaleOf_honest hi cutoff kind)

/-! ## Reports -/

theorem resend_honest (hr : w.Shows r) (hi : w.InStep faults) :
    Honest faults p o (fun _ w' => w'.InStep faults) (p.resend r) w :=
  (settle_honest hr hi).bind (fun _ _ h => done h.1.inStep) fun _ _ h => h.1.inStep

theorem resendChanged_honest (hi : w.InStep faults) :
    Honest faults p o (fun _ w' => w'.InStep faults) (p.resendChanged r) w := by
  refine (Resource.findOne_honest r.kind (.byId r.id)).bind (fun found w₁ h₁ => ?_)
    fun _ _ h => h.1.keeps.inStep hi
  replace hi := h₁.1.keeps.inStep hi
  cases found with
  | none => exact done hi
  | some current => exact resend_honest (h₁.1.keeps.shows (h₁.2 current rfl).1) hi

theorem takeStatus_honest (hr : w.Shows r) (hi : w.InStep faults) (report : Wire.Report) :
    Honest faults p o (fun _ w' => w'.InStep faults) (p.takeStatus r report) w := by
  unfold takeStatus
  split
  · exact resend_honest hr hi
  refine (Program.ofExcept_honest report.observed).bind (fun status w₁ h₁ => ?_)
    fun _ _ h => h.1 ▸ hi
  obtain ⟨rfl, -⟩ := h₁
  let e : Edit := ⟨r, .observe report status⟩
  have honest : e.Honest o w := ⟨hr, fun _ hc => (nomatch hc), fun _ _ _ _ hc => nomatch hc⟩
  refine (e.honest honest hi).bind (fun hit w₂ h₂ => ?_) fun _ _ h => h.1.inStep
  obtain ⟨tends, -, hedited⟩ := h₂
  split
  · rename_i hhit
    have hr₂ := (hedited hit rfl).resolve_right fun h => Bool.false_ne_true (h.1.symm.trans hhit)
    exact (Program.emit_updated hr₂ tends.inStep).bind (fun _ _ h => done (h.2 r.id).inStep)
      fun _ _ h => (h.2 r.id).inStep
  · exact resendChanged_honest tends.inStep

theorem takeDeletion_honest (hr : w.Shows r) (hi : w.InStep faults) (report : Wire.Report) :
    Honest faults p o (fun _ w' => w'.InStep faults) (p.takeDeletion r report) w := by
  unfold takeDeletion
  split
  · exact (Resource.remove_honest hr hi).bind (fun _ _ h => done h.inStep) fun _ _ h => h.inStep
  · exact resend_honest hr hi

theorem takeError_honest (hr : w.Shows r) (hi : w.InStep faults) (report : Wire.Report)
    (message : String) :
    Honest faults p o (fun _ w' => w'.InStep faults) (p.takeError r report message) w := by
  unfold takeError
  split
  · exact resend_honest hr hi
  let e : Edit := ⟨r, .fail message report.timestamp⟩
  have honest : e.Honest o w := ⟨hr, fun _ hc => (nomatch hc), fun _ _ _ _ hc => nomatch hc⟩
  refine (e.honest honest hi).bind (fun hit w₂ h₂ => ?_) fun _ _ h => h.1.inStep
  obtain ⟨tends, -, hedited⟩ := h₂
  split
  · rename_i hhit
    have hr₂ := (hedited hit rfl).resolve_right fun h => Bool.false_ne_true (h.1.symm.trans hhit)
    exact (Program.emit_updated hr₂ tends.inStep).bind (fun _ _ h => done (h.2 r.id).inStep)
      fun _ _ h => (h.2 r.id).inStep
  · exact resendChanged_honest tends.inStep

theorem route_honest (hi : w.InStep faults) (report : Wire.Report) :
    Honest faults p o (fun _ w' => w'.InStep faults) (p.route report) w := by
  unfold route
  split
  · refine (Resource.findOne_honest report.resourceKind (.reported report)).bind
      (fun found w₁ h₁ => ?_) fun _ _ h => h.1.keeps.inStep hi
    replace hi := h₁.1.keeps.inStep hi
    cases found with
    | none => exact done hi
    | some r =>
      have hr := h₁.1.keeps.shows (h₁.2 r rfl).1
      cases hkind : report.kind with
      | statusUpdate => exact takeStatus_honest hr hi report
      | deleteConfirmation => exact takeDeletion_honest hr hi report
      | applyError message => exact takeError_honest hr hi report message
  · exact done hi

theorem ingest_honest (hi : w.InStep faults) (payload : ByteArray) :
    Honest faults p o (fun _ w' => w'.InStep faults) (p.ingest payload) w := by
  refine (Program.ofExcept_honest _).bind (fun report w₁ h₁ => ?_) fun _ _ h => h.1 ▸ hi
  obtain ⟨rfl, -⟩ := h₁
  exact route_honest hi report

end ControlPlane

/-- Every operation makes honest calls, and at its end the events are in step with the store. -/
theorem Operation.honest (operation : Operation) (hi : w.InStep faults) :
    Program.Honest faults p operation (fun _ w' => w'.InStep faults) (operation.program p) w := by
  cases operation with
  | create user s input => exact (ControlPlane.create_honest hi user s input rfl).map
  | update user s input => exact (ControlPlane.update_honest hi user s input rfl).map
  | delete user kind s name => exact (ControlPlane.delete_honest hi user kind s name).map
  | resync user kind s name => exact (ControlPlane.resync_honest hi user kind s name).map
  | resyncScope user s => exact (ControlPlane.resyncScope_honest hi user s).map
  | detachScope user s purge => exact (ControlPlane.detachScope_honest hi user s purge).map
  | resyncStale age => exact (ControlPlane.resyncStale_honest hi age).map
  | ingest payload => exact (ControlPlane.ingest_honest hi payload).map
  | route report => exact (ControlPlane.route_honest hi report).map

end FleetSync
