import FleetSync.Proofs.Interleaving.Ownership
import FleetSync.Proofs.Interleaving.Versions

/-!
# Deletions that agents confirm

Whoever takes in that a resource was deleted finds the resource first and decides by that reading: a
resource that is marked for deletion goes, and so does one at the version of the report
(`Confirming`). The deletion that follows names the id and nothing else. A mark stays, but an update
that got in between has raised the version, and the newer version goes all the same. So what is
removed is marked or at the version that was confirmed just if it is marked or no update got in
between (`System.confirmed_removal_iff`).
-/

namespace FleetSync

open Program (Follows)

/-- A call that leaves every document stored. -/
def Retains (_ : List Exchange) (c : Call) : Prop := c.isDeletion = false

/-- Ends in a result with a property, or in an error. -/
def Returns {α : Type} (P : α → Prop) (_ : List Exchange) : Except OpError α → Prop
  | .ok a => P a
  | .error _ => True

theorem Program.Follows.thenReturns {α β : Type} {law : List Exchange → Call → Prop}
    {past : List Exchange} {post : List Exchange → Except OpError α → Prop} {q : Program α}
    {f : α → Program β} {P : β → Prop} (h : Follows law post past q)
    (ok : ∀ past' a, Follows law (Returns P) past' (f a)) :
    Follows law (Returns P) past (q >>= f) :=
  h.bind (fun past' a _ _ => ok past' a) fun _ _ _ _ => trivial

/-- What is deleted if a delete confirmation is taken in: the first thing that was found, if it was
marked for deletion or at the version of the report. -/
def Confirming (report : Wire.Report) (past : List Exchange) (c : Call) : Prop :=
  c.isDeletion = true → ∃ j r,
    past = [⟨.findOne report.resourceKind.collection (.reported report), .ok (some j)⟩] ∧
      Resource.ofDocument report.resourceKind j = .ok r ∧
      c = .deleteOne r.kind.collection (.byId r.id) ∧
      (r.markedForDeletion = true ∨ r.recordVersion = report.recordVersion)

section

variable {past : List Exchange} {report : Wire.Report}

theorem Retains.confirming {c : Call} (h : Retains past c) : Confirming report past c :=
  fun hc => absurd (h.symm.trans hc) Bool.false_ne_true

/-- What deletes nothing may be done by whoever takes a delete confirmation in. -/
theorem Program.Follows.confirming {α : Type} {q : Program α}
    {post : List Exchange → Except OpError α → Prop} (h : Follows Retains post past q) :
    Follows (Confirming report) (fun _ _ => True) past q :=
  (h.weaken (Q := fun _ => True) (fun _ _ hc => hc.confirming) fun _ _ _ => trivial).mono
    fun _ _ _ _ => trivial

theorem Resource.cluster_retains (r : Resource) :
    Follows Retains (fun _ _ => True) past r.cluster := by
  unfold cluster
  split
  · trivial
  · exact Follows.free rfl

namespace ControlPlane

variable (p : ControlPlane)

theorem send_retains (r : Resource) (action : SyncAction) :
    Follows Retains (fun _ _ => True) past (p.send r action) := by
  refine r.cluster_retains.andThen fun past' cluster _ _ => ?_
  cases cluster with
  | none => trivial
  | some cluster =>
    refine Follows.andThen (Follows.known _) fun _ _ _ _ => ?_
    exact Follows.andThen (Follows.free rfl) fun _ _ _ _ => trivial

/-- Sending deletes nothing, and a resource that is not marked stays so. -/
theorem dispatch_retains (r : Resource) (action : SyncAction) :
    Follows Retains (Returns fun out => out.2.markedForDeletion = r.markedForDeletion) past
      (p.dispatch r action) := by
  refine (p.send_retains r action).thenReturns fun past' outcome => ?_
  split
  · split
    · exact rfl
    · refine Follows.thenReturns (Follows.free rfl) fun _ _ => ?_
      exact Follows.thenReturns (Follows.free rfl) fun _ _ => rfl
  · refine Follows.thenReturns (Follows.free rfl) fun _ _ => ?_
    exact Follows.thenReturns (Follows.free rfl) fun _ _ => rfl
  · exact rfl

theorem settle_retains {r : Resource} (live : r.markedForDeletion = false) :
    Follows Retains (fun _ _ => True) past (p.settle r) := by
  refine (p.dispatch_retains r r.pendingAction).andThen fun past' out _ h => ?_
  obtain ⟨outcome, r'⟩ := out
  have live' : r'.markedForDeletion = false := Eq.trans h live
  dsimp only
  rw [if_neg fun hr => Bool.false_ne_true (live'.symm.trans hr.2)]
  trivial

theorem takeDeletion_confirming {r : Resource} {j : Json}
    (hr : Resource.ofDocument report.resourceKind j = .ok r)
    (hpast :
      past = [⟨.findOne report.resourceKind.collection (.reported report), .ok (some j)⟩]) :
    Follows (Confirming report) (fun _ _ => True) past (p.takeDeletion r report) := by
  unfold takeDeletion
  cases hdecided : deleteConfirmed r.recordVersion report.recordVersion r.markedForDeletion with
  | remove =>
    have confirmed := deleteConfirmed_eq_remove.1 hdecided
    have delete : Confirming report past (.deleteOne r.kind.collection (.byId r.id)) :=
      fun _ => ⟨j, r, hpast, hr, rfl, confirmed⟩
    have clear : ∀ past, Follows Retains (fun _ _ => True) past (do
        let _ ← Program.removeMapping r.mappingKey
        Program.emit .deleted r) := fun _ =>
      Follows.andThen (Follows.free rfl) fun _ _ _ _ => Follows.free rfl
    have remove : Follows (Confirming report) (fun _ _ => True) past r.remove :=
      Follows.andThen (Follows.free delete) fun past' _ _ _ => (clear past').confirming
    exact remove.andThen fun _ _ _ _ => trivial
  | resync =>
    have live : r.markedForDeletion = false := by
      cases hmarked : r.markedForDeletion with
      | false => rfl
      | true => exact nomatch hdecided.symm.trans (deleteConfirmed_eq_remove.2 (.inl hmarked))
    exact (p.settle_retains live).confirming.andThen fun _ _ _ _ => trivial

theorem route_confirming (hkind : report.kind = .deleteConfirmation) :
    Follows (Confirming report) (fun _ _ => True) [] (p.route report) := by
  unfold route
  split
  · have call : Confirming report []
        (.findOne report.resourceKind.collection (.reported report)) := fun h => nomatch h
    refine (Resource.findOne_answers _ _ call).andThen fun past o _ h => ?_
    cases o with
    | none => trivial
    | some r =>
      obtain ⟨j, hpast, hr⟩ := h r rfl
      rw [hkind]
      exact p.takeDeletion_confirming hr hpast
  · trivial

end ControlPlane

end

namespace System

variable {p : ControlPlane} {ms moves : List Move} {m : Move} {i : Nat} {report : Wire.Report}
  {d : StoredDocument}

/-- In a move a task that takes a delete confirmation in removes a document. -/
structure ConfirmedRemoval (p : ControlPlane) (ms : List Move) (m : Move) (i : Nat)
    (report : Wire.Report) (d : StoredDocument) : Prop where
  confirms : report.kind = .deleteConfirmation
  made : ∃ operation past x, (after p ms).Makes i operation past x (after p (ms ++ [m])) ∧
    operation.report? = some report
  stored : d ∈ (after p ms).documents
  gone : ∀ d' ∈ (after p (ms ++ [m])).documents, d'.id ≠ d.id

/-- Whether an update raised the version of a document from some moment to another. -/
def UpdatedSince (p : ControlPlane) (since moves : List Move) (id : String) : Prop :=
  ∃ ms m, since <+: ms ∧ ms ++ [m] <+: moves ∧ ∃ i operation past x v,
    (after p ms).Makes i operation past x (after p (ms ++ [m])) ∧ operation.isUpdate = true ∧
      x.Claims id v

/-- A document stays at its version just as long as no update raises it. -/
theorem version_eq_iff_not_updated (hp : ms <+: moves) {d₀ : StoredDocument}
    (hd₀ : d₀ ∈ (after p ms).documents) (hd : d ∈ (after p moves).documents) (hid : d₀.id = d.id) :
    d.version = d₀.version ↔ ¬ UpdatedSince p ms moves d.id := by
  constructor
  · rintro hv ⟨ms', m', hge, hle, i, operation, past, x, v, makes, hu, claims⟩
    obtain ⟨-, ⟨d₁, hd₁, hid₁, hnext⟩, d₂, hd₂, hid₂, hv₂⟩ := raises_of_makes makes hu claims
    have h₀₁ := (sound p ms').version_le hge hd₀ hd₁ (hid.trans hid₁.symm)
    have h₂ := (sound p moves).version_le hle hd₂ hd hid₂
    rw [hv₂, hnext] at h₂
    exact absurd (Int.le_trans h₂ (hv ▸ h₀₁)) (Int.not_le.2 (Int.lt_succ d₁.version))
  · intro hno
    refine descent p (R := fun d₁ d₂ => d₁.id = d.id → d₂.id = d₁.id ∧ d₂.version = d₁.version)
      (fun _ _ => ⟨rfl, rfl⟩) (fun h h' hid => ?_) hp
      (fun ms' m' hge hle d₁ hd₁ d₂ hd₂ hid₁₂ hid₁ => ?_) hd₀ hd hid hid |>.2
    · obtain ⟨hi, hv⟩ := h hid
      obtain ⟨hi', hv'⟩ := h' (hi.trans hid)
      exact ⟨hi'.trans hi, hv'.trans hv⟩
    · refine ⟨hid₁₂.symm, ?_⟩
      rcases version_step m' hd₁ hd₂ hid₁₂ with
        hv | ⟨-, i, operation, past, x, makes, hu, claims, -⟩
      · exact hv
      · exact absurd ⟨ms', m', hge, hle, i, operation, past, x, _, makes, hu, hid₁ ▸ claims⟩ hno

/-- What a delete confirmation removes was found marked for deletion or at the version of the
report when the task that takes it in began. -/
theorem ConfirmedRemoval.found (h : ConfirmedRemoval p moves m i report d) :
    ∃ ms m', ms ++ [m'] <+: moves ∧
      (∃ operation x, (after p ms).Makes i operation [] x (after p (ms ++ [m']))) ∧
      ∃ d₀ ∈ (after p ms).documents, d₀.id = d.id ∧
        (d₀.isMarked = true ∨ d₀.version = report.recordVersion) := by
  obtain ⟨confirms, ⟨operation, past, x, makes, hreport⟩, hd, gone⟩ := h
  obtain ⟨next, y, htask, -, hworld⟩ := reply_of_makes makes
  have law := (operation.follows_of_route p hreport (p.route_confirming confirms))
  have call := (follows_after p law moves _ (List.mem_of_getElem? htask) rfl).1
  obtain ⟨deletes, hits⟩ := (after p moves).world.reply_gone y hd fun d' hd' =>
    gone d' (by rw [documents, hworld]; exact hd')
  obtain ⟨j, r, hpast, hr, hc, confirmed⟩ := call deletes
  obtain ⟨ms, m', hp, first⟩ := System.made p moves htask (show _ = [] ++ _ :: [] from hpast)
  obtain ⟨d₀, hd₀, hcol, hread⟩ := ((advance p ms m').of_makes first).2.1 _ j (.inl ⟨_, rfl⟩)
  obtain ⟨r₀, -, rfl⟩ := sound p ms ms (List.prefix_refl _) d₀ hd₀
  have hreads := Resource.readsAs_of_read (Kind.collection_inj hcol) hread hr
  have hid : d.id = r.id := by
    obtain ⟨r₁, -, rfl⟩ := sound p moves moves (List.prefix_refl _) d hd
    exact (Resource.of_matches_byId (hits _ _ hc)).2
  refine ⟨ms, m', hp, ⟨operation, _, first⟩, _, hd₀, hreads.id.symm.trans hid.symm, ?_⟩
  rw [Resource.isMarked_stored, Resource.version_stored, ← hreads.markedForDeletion,
    ← hreads.recordVersion]
  exact confirmed

/-- However operations interleave, a delete confirmation removes what is marked for deletion or at
the version of the report, just if what it removes is marked or no update got in since it was
found. -/
theorem confirmed_removal_iff (p : ControlPlane) {moves : List Move} {m : Move} {i : Nat}
    {report : Wire.Report} {d : StoredDocument} (h : ConfirmedRemoval p moves m i report d) :
    ∃ ms m', ms ++ [m'] <+: moves ∧
      (∃ operation x, (after p ms).Makes i operation [] x (after p (ms ++ [m']))) ∧
      ((d.isMarked = true ∨ d.version = report.recordVersion) ↔
        (d.isMarked = true ∨ ¬ UpdatedSince p ms moves d.id)) := by
  obtain ⟨ms, m', hp, first, d₀, hd₀, hid, confirmed⟩ := h.found
  refine ⟨ms, m', hp, first, ?_⟩
  have hle : ms <+: moves := (List.prefix_append ms [m']).trans hp
  have same := version_eq_iff_not_updated hle hd₀ h.stored hid
  rcases confirmed with marked | hv
  · have marked : d.isMarked = true := (kept p hle hd₀ h.stored hid).marked marked
    exact ⟨fun _ => .inl marked, fun _ => .inl marked⟩
  · rw [hv] at same
    exact or_congr_right same

/-! ### A run -/

theorem ConfirmedRemoval.of_turn {x : Circumstances} {operation : Operation}
    (hop : (after p ms).tasks[i]?.map Task.operation = some operation)
    (hreport : operation.report? = some report) (confirms : report.kind = .deleteConfirmation)
    (hd : d ∈ (after p ms).documents)
    (gone : ∀ d' ∈ (after p (ms ++ [.turn i x])).documents, d'.id ≠ d.id) :
    ConfirmedRemoval p ms (.turn i x) i report d := by
  refine ⟨confirms, ?_, hd, gone⟩
  rw [after_concat] at gone ⊢
  rcases (after p ms).turn_cases i x with hturn | ⟨operation', past, c, next, htask, hturn⟩
  · exact absurd rfl (gone d (by rw [move, hturn]; exact hd))
  · rw [htask] at hop
    obtain rfl := Option.some.inj hop
    exact ⟨_, past, _, ⟨_, _, htask, congrArg System.tasks hturn⟩, hreport⟩

/-- The project is created. A delete confirmation of its first version finds it, and then an update
raises its version. -/
def untilRemoval : List Move :=
  .start (.create .system shopScope shopInput) :: turns 0 7 ++
    .start (.route (shopReport 1 .deleteConfirmation)) :: turns 1 1 ++
      .start (.update .system shopScope shopInput) :: turns 2 6

/-- The confirmation removes the project. -/
def removal : Move := .turn 1 ⟨default, "7d1c52a0", .ok true, none⟩

theorem untilRemoval_documents :
    (after .default untilRemoval).tasks[1]?.map Task.operation =
        some (.route (shopReport 1 .deleteConfirmation)) ∧
      (∃ d ∈ (after .default untilRemoval).documents,
        d.id = "7d1c52a0" ∧ d.isMarked = false ∧ d.version = 2) ∧
      (∀ d ∈ (after .default (untilRemoval ++ [removal])).documents, d.id ≠ "7d1c52a0") := by
  decide +kernel

/-- Not everything that a delete confirmation removes is marked or at the version of the report: in
the run the version that the update has written is lost. -/
theorem confirmed_removal_newer : ∃ d,
    ConfirmedRemoval .default untilRemoval removal 1 (shopReport 1 .deleteConfirmation) d ∧
      ¬ (d.isMarked = true ∨ d.version = 1) ∧ d.version = 2 := by
  obtain ⟨hop, ⟨d, hd, hid, live, hv⟩, gone⟩ := untilRemoval_documents
  refine ⟨d, .of_turn hop rfl rfl hd fun d' hd' => hid ▸ gone d' hd', ?_, hv⟩
  rw [live, hv]
  decide

/-- In the run an update got in after the confirmation had found the project. -/
theorem confirmed_removal_iff_overtaken : ∃ d ms m, ms ++ [m] <+: untilRemoval ∧
    ConfirmedRemoval .default untilRemoval removal 1 (shopReport 1 .deleteConfirmation) d ∧
      (∃ operation x, (after .default ms).Makes 1 operation [] x (after .default (ms ++ [m]))) ∧
      UpdatedSince .default ms untilRemoval d.id := by
  obtain ⟨hop, ⟨d, hd, hid, live, hv⟩, gone⟩ := untilRemoval_documents
  have removed : ConfirmedRemoval .default untilRemoval removal 1
      (shopReport 1 .deleteConfirmation) d :=
    .of_turn hop rfl rfl hd fun d' hd' => hid ▸ gone d' hd'
  obtain ⟨ms, m, hp, first, hiff⟩ := confirmed_removal_iff .default removed
  refine ⟨d, ms, m, hp, removed, first, by_contra fun hno => ?_⟩
  have h := hiff.2 (.inr hno)
  rw [live, hv] at h
  exact absurd h (by decide)

end System

end FleetSync
