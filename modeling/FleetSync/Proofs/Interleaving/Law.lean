import FleetSync.Proofs.Interleaving.Edit
import FleetSync.Proofs.Interleaving.Effect
import FleetSync.Proofs.Interleaving.Follows

/-!
# The law of the control plane

What an operation may do to documents, by the calls it made before (`Operation.Permits`). Only a
create inserts, once, a resource under the id it was given. Everything else that is written is an
edit of a resource the operation has read, or sets its cluster. An update edits what it asks for if
the resource was live when it was read, and never again after it had its way; a report edits only
what it names the version of; only the detachment of a scope clears the cluster of a spec. Calls of
other kinds are free, and so are the remaining edits, none of which has a guard: they are `Minor`.
-/

namespace FleetSync

/-- Whether a resource of a kind was read. -/
def Reads (past : List Exchange) (kind : Kind) (r : Resource) : Prop :=
  ∃ x ∈ past, ∃ j, x.Finds kind.collection j ∧ Resource.ofDocument kind j = .ok r

theorem Reads.mono {past past' : List Exchange} {kind : Kind} {r : Resource}
    (h : Reads past kind r) (hp : past <+: past') : Reads past' kind r := by
  obtain ⟨x, hx, hj⟩ := h
  exact ⟨x, hp.subset hx, hj⟩

/-- A call that inserts a document or is made only at a version. -/
def Call.Commits (c : Call) : Prop :=
  (∃ d, c = .insert d) ∨ ∃ collection id v patch, c = .patchOne collection (.byIdAt id v) patch

namespace Exchange

/-- Whether an operation committed itself: it inserted a document, or changed one at a version. -/
def Commits (x : Exchange) : Prop := x.call.Commits ∧ x.isWrite = true

/-- Whether the document of an id was changed at a version. -/
def Claims (x : Exchange) (id : String) (v : Version) : Prop :=
  (∃ collection patch, x.call = .patchOne collection (.byIdAt id v) patch) ∧ x.isWrite = true

theorem Claims.commits {x : Exchange} {id : String} {v : Version} (h : x.Claims id v) :
    x.Commits := by
  obtain ⟨⟨collection, patch, h⟩, hw⟩ := h
  exact ⟨.inr ⟨collection, id, v, patch, h⟩, hw⟩

end Exchange

/-- Whether an operation has not committed itself yet. -/
def Uncommitted (past : List Exchange) : Prop := ∀ x ∈ past, ¬ x.Commits

theorem Uncommitted.concat {past : List Exchange} {x : Exchange} (h : Uncommitted past)
    (hx : ¬ x.Commits) : Uncommitted (past ++ [x]) := by
  intro y hy
  rcases List.mem_append.1 hy with hy | hy
  · exact h y hy
  · exact List.mem_singleton.1 hy ▸ hx

namespace Edit

/-- Whether what is edited was read, unless only its cluster is set. -/
def Read (e : Edit) (past : List Exchange) : Prop :=
  (∃ cluster, e.change = .attach cluster) ∨ ∃ kind, Reads past kind e.current

/-- Whether an operation may make an edit as far as its guard goes. -/
def Allowed (e : Edit) (operation : Operation) (past : List Exchange) : Prop :=
  match e.change with
  | .revise input user _ _ => (∃ scope, operation = .update user scope input) ∧
    Reads past input.kind e.current ∧ e.current.markedForDeletion = false ∧ Uncommitted past
  | .observe report _ => operation.report? = some report ∧ report.kind = .statusUpdate ∧
    e.current.recordVersion = report.recordVersion
  | .fail message time => ∃ report, operation.report? = some report ∧
    report.kind = .applyError message ∧ report.timestamp = time ∧
    e.current.recordVersion = report.recordVersion
  | .detach _ => ∃ user scope purge, operation = .detachScope user scope purge
  | .attach _ | .bury .. | .requeue _ => True

/-- Whether any operation may make an edit. -/
def isMinor (e : Edit) : Bool :=
  match e.change with
  | .attach _ | .bury .. | .requeue _ => true
  | .revise .. | .observe .. | .fail .. | .detach _ => false

theorem allowed_of_minor {e : Edit} (h : e.isMinor = true) (operation : Operation)
    (past : List Exchange) : e.Allowed operation past := by
  rcases e with ⟨current, change⟩
  cases change <;> trivial

theorem not_guarded_of_minor {e : Edit} (h : e.isMinor = true) : e.isGuarded = false := by
  rcases e with ⟨current, change⟩
  cases change <;> first | rfl | cases h

/-- What is written at a version is an edit of what was read at that version. -/
theorem guarded_of_call {e : Edit} {collection id : String} {v : Version} {patch : Patch}
    (h : .patchOne collection (.byIdAt id v) patch = e.call) :
    e.isGuarded = true ∧ e.current.id = id ∧ e.current.recordVersion = v := by
  rw [call, filter, Call.patchOne.injEq] at h
  obtain ⟨-, h, -⟩ := h
  split at h
  · rename_i hg
    simp only [Filter.byIdAt, Filter.byId, List.cons_append, List.nil_append, List.cons.injEq,
      Condition.eq.injEq, Json.str.injEq, Json.ofInt, Json.num.injEq, Number.int.injEq] at h
    exact ⟨hg, h.1.2.symm, h.2.1.2.symm⟩
  · cases h

theorem claims {e : Edit} (hg : e.isGuarded = true) :
    Exchange.Claims ⟨e.call, .ok true⟩ e.current.id e.current.recordVersion := by
  rcases e with ⟨current, change⟩
  cases change <;> first | exact ⟨⟨_, _, rfl⟩, rfl⟩ | cases hg

/-- An update is bound to a version only by its revision. -/
theorem Allowed.of_update {e : Edit} {operation : Operation} {past : List Exchange}
    (h : e.Allowed operation past) (hu : operation.isUpdate = true) (hg : e.isGuarded = true) :
    (∃ input user time cluster, e.change = .revise input user time cluster) ∧
      Uncommitted past := by
  have hreport : operation.report? = none := by
    cases operation with
    | update => rfl
    | _ => cases hu
  rcases e with ⟨current, change⟩
  cases change with
  | revise input user time cluster => exact ⟨⟨input, user, time, cluster, rfl⟩, h.2.2.2⟩
  | observe report status =>
    obtain ⟨h, -⟩ := h
    rw [hreport] at h
    cases h
  | fail message time =>
    obtain ⟨report, h, -⟩ := h
    rw [hreport] at h
    cases h
  | _ => cases hg

end Edit

/-- The calls that any operation may make at any time. -/
def Minor (past : List Exchange) : Call → Prop
  | .insert _ => False
  | .patchOne collection filter patch =>
    ∃ e : Edit, .patchOne collection filter patch = e.call ∧ e.isMinor = true ∧ e.Read past
  | _ => True

/-- The calls that an operation may make. -/
def Operation.Permits (operation : Operation) (past : List Exchange) : Call → Prop
  | .insert d => ∃ user scope input id time cluster, operation = .create user scope input ∧
    d = Resource.document { input.toResource user scope id time with clusterName := cluster } ∧
    ⟨.freshId, id⟩ ∈ past ∧ Uncommitted past
  | .patchOne collection filter patch =>
    ∃ e : Edit, .patchOne collection filter patch = e.call ∧ e.Read past ∧ e.Allowed operation past
  | _ => True

theorem Minor.permits {past : List Exchange} {c : Call} (h : Minor past c)
    (operation : Operation) : operation.Permits past c := by
  cases c with
  | insert d => exact h.elim
  | patchOne collection filter patch =>
    obtain ⟨e, he, hm, hr⟩ := h
    exact ⟨e, he, hr, e.allowed_of_minor hm operation past⟩
  | _ => trivial

theorem Minor.not_commits {past : List Exchange} {c : Call} (h : Minor past c) : ¬ c.Commits := by
  rintro (⟨d, rfl⟩ | ⟨collection, id, v, patch, rfl⟩)
  · exact h
  · obtain ⟨e, he, hm, -⟩ := h
    rw [Edit.call, Edit.filter, e.not_guarded_of_minor hm, if_neg Bool.false_ne_true] at he
    cases he

/-- What any operation may do, each may do, and it does not commit itself with that. -/
theorem Program.Follows.permitted {α : Type} {past : List Exchange} {p : Program α}
    {post : List Exchange → Except OpError α → Prop} (h : Follows Minor post past p)
    (operation : Operation) :
    Follows operation.Permits
      (fun past' r => (Uncommitted past → Uncommitted past') ∧ post past' r) past p := by
  refine (h.weaken (fun _ _ hc => hc.permits operation) fun _ _ hc => hc.not_commits).mono
    fun past' r _ hr => ⟨fun hu x hx => ?_, hr.2⟩
  exact (hr.1 x hx).elim (hu x) fun hc hx => hc hx.1

end FleetSync
