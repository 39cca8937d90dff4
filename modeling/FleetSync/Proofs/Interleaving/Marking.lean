import FleetSync.Proofs.Interleaving.Ownership

/-!
# Who marks for deletion

Every operation but a delete leaves the mark of a document alone, whatever its calls are answered
(`Operation.keepsMarks`), so a live document that gets marked in a move is marked by a delete
(`System.marked_by_delete`).
-/

namespace FleetSync

open Program (Follows)

/-- Whether a change sets the mark for deletion. -/
def PatchOp.isMarking : PatchOp → Bool
  | .set path _ => decide (path = ["marked_for_deletion"])
  | .unset _ => false

/-- Whether a call sets the mark of a document for deletion. -/
def Call.isMarking : Call → Bool
  | .patchOne _ _ patch => patch.any (·.isMarking)
  | _ => false

/-- Whether an operation is a delete. -/
def Operation.isDelete : Operation → Bool
  | .delete .. => true
  | _ => false

/-- The law of operations that leave marks alone. -/
def KeepsMarks (_ : List Exchange) (c : Call) : Prop := c.isMarking = false

theorem PatchOp.isMarking_field (n : String) (v : Json) :
    (PatchOp.set [.field ⟨n.toList⟩] v).isMarking = decide (n = "marked_for_deletion") := by
  rw [isMarking, decide_eq_decide]
  refine ⟨fun h => ?_, fun h => h ▸ rfl⟩
  have hname : n.toList = "marked_for_deletion".toList := by
    injection h with h
    injection h with h
    injection h
  exact String.toList_inj.1 hname

/-- An edit sets the mark if it writes it. -/
theorem Edit.isMarking_call (e : Edit) :
    e.call.isMarking = decide ("marked_for_deletion" ∈ e.written) := by
  rw [call, Call.isMarking, Patch.ofFields, changes, List.map_map, List.any_map,
    Bool.eq_iff_iff, List.any_eq_true]
  simp [PatchOp.isMarking_field]

variable {past : List Exchange}

namespace Resource

theorem findOne_keepsMarks (kind : Kind) (filter : Filter) :
    Follows KeepsMarks (fun _ _ => True) past (findOne kind filter) :=
  (findOne_reads kind filter rfl).mono fun _ _ _ _ => trivial

theorem findAll_keepsMarks (kind : Kind) (filter : Filter) :
    Follows KeepsMarks (fun _ _ => True) past (findAll kind filter) :=
  (findAll_reads kind filter rfl).mono fun _ _ _ _ => trivial

theorem get_keepsMarks (kind : Kind) (s : Scope) (name : String) :
    Follows KeepsMarks (fun _ _ => True) past (get kind s name) :=
  (get_reads kind s name rfl).mono fun _ _ _ _ => trivial

theorem members_keepsMarks (kind : Kind) (s : Scope) :
    Follows KeepsMarks (fun _ _ => True) past (members kind s) :=
  (members_reads kind s fun _ _ => rfl).mono fun _ _ _ _ => trivial

theorem cluster_keepsMarks (r : Resource) :
    Follows KeepsMarks (fun _ _ => True) past r.cluster := by
  unfold cluster
  split
  · trivial
  · exact Follows.free rfl

theorem remove_keepsMarks (r : Resource) : Follows KeepsMarks (fun _ _ => True) past r.remove :=
  Follows.andThen (Follows.free rfl) fun _ _ _ _ =>
    Follows.andThen (Follows.free rfl) fun _ _ _ _ => Follows.free rfl

end Resource

namespace ControlPlane

variable (p : ControlPlane)

theorem send_keepsMarks (r : Resource) (action : SyncAction) :
    Follows KeepsMarks (fun _ _ => True) past (p.send r action) := by
  refine r.cluster_keepsMarks.andThen fun _ cluster _ _ => ?_
  cases cluster with
  | none => trivial
  | some cluster =>
    refine Follows.andThen (Follows.known _) fun _ _ _ _ => ?_
    exact Follows.andThen (Follows.free rfl) fun _ _ _ _ => trivial

theorem dispatch_keepsMarks (r : Resource) (action : SyncAction) :
    Follows KeepsMarks (fun _ _ => True) past (p.dispatch r action) := by
  refine (p.send_keepsMarks r action).andThen fun _ outcome _ _ => ?_
  split
  · split
    · trivial
    · refine Follows.andThen (Follows.free rfl) fun _ _ _ _ => ?_
      exact Follows.andThen (Follows.free rfl) fun _ _ _ _ => trivial
  · refine Follows.andThen (Follows.free rfl) fun _ _ _ _ => ?_
    exact Follows.andThen (Follows.free rfl) fun _ _ _ _ => trivial
  · trivial

theorem settle_keepsMarks (r : Resource) :
    Follows KeepsMarks (fun _ _ => True) past (p.settle r) := by
  refine (p.dispatch_keepsMarks r r.pendingAction).andThen fun _ o _ _ => ?_
  obtain ⟨outcome, r'⟩ := o
  dsimp only
  split
  · exact r'.remove_keepsMarks.andThen fun _ _ _ _ => trivial
  · trivial

theorem requeue_keepsMarks (r : Resource) :
    Follows KeepsMarks (fun _ _ => True) past (p.requeue r) := by
  refine Follows.andThen (Follows.free rfl) fun _ time _ _ => ?_
  refine Follows.andThen (Follows.free rfl) fun _ _ _ _ => ?_
  refine (p.settle_keepsMarks _).andThen fun _ o _ _ => ?_
  obtain ⟨outcome, r'⟩ := o
  dsimp only
  split
  · exact Follows.andThen (Follows.free rfl) fun _ _ _ _ => trivial
  · trivial

/-! ### Resyncs and sweeps -/

theorem resync_keepsMarks (user : User) (kind : Kind) (s : Scope) (name : String) :
    Follows KeepsMarks (fun _ _ => True) past (p.resync user kind s name) := by
  refine Follows.andThen (Follows.known _) fun _ _ _ _ => ?_
  refine Follows.andThen (Follows.free rfl) fun _ _ _ _ => ?_
  exact (Resource.get_keepsMarks kind s name).andThen fun _ cur _ _ => p.requeue_keepsMarks cur

theorem resyncScope_keepsMarks (user : User) (s : Scope) :
    Follows KeepsMarks (fun _ _ => True) past (p.resyncScope user s) := by
  refine Follows.andThen (Follows.known _) fun _ _ _ _ => ?_
  refine Follows.andThen (Follows.free rfl) fun _ _ _ _ => ?_
  refine Follows.total (fun _ => True) (fun kind _ _ _ => ?_) trivial
  refine (Resource.members_keepsMarks kind s).andThen fun _ rs _ _ => ?_
  refine Follows.total (fun _ => True) (fun r _ _ _ => ?_) trivial
  exact (p.requeue_keepsMarks r).andThen fun _ _ _ _ => trivial

theorem countOrZero_keepsMarks {count : Program Nat}
    (h : Follows KeepsMarks (fun _ _ => True) past count) :
    Follows KeepsMarks (fun _ _ => True) past (countOrZero count) :=
  h.attempt.andThen fun _ _ _ _ => trivial

theorem resyncStale_keepsMarks (age : Nat) :
    Follows KeepsMarks (fun _ _ => True) past (p.resyncStale age) := by
  unfold resyncStale
  split
  · trivial
  refine Follows.andThen (Follows.free rfl) fun _ time _ _ => ?_
  split
  · trivial
  refine Follows.andThen (Follows.total (fun _ => True) (fun kind _ _ _ => ?_) trivial)
    fun _ _ _ _ => trivial
  refine countOrZero_keepsMarks ?_
  refine (Resource.findAll_keepsMarks kind .waiting).andThen fun _ rs _ _ => ?_
  refine Follows.total (fun _ => True) (fun r _ _ _ => ?_) trivial
  exact countOrZero_keepsMarks ((p.settle_keepsMarks r).andThen fun _ _ _ _ => trivial)

/-! ### Detachments -/

theorem detachOne_keepsMarks (r : Resource) :
    Follows KeepsMarks (fun _ _ => True) past (detachOne r) := by
  refine Follows.andThen (Follows.free rfl) fun _ time _ _ => ?_
  refine Follows.andThen (Follows.free rfl) fun _ _ _ _ => ?_
  exact Follows.andThen (Follows.free rfl) fun _ _ _ _ => Follows.free rfl

theorem detachMembers_keepsMarks (s : Scope) (purge : Bool) (kind : Kind) :
    Follows KeepsMarks (fun _ _ => True) past (detachMembers s purge kind) := by
  have detach : ∀ past (kept : List Resource) (n : Nat),
      Follows KeepsMarks (fun _ _ => True) past (do
        Program.forEach detachOne kept
        return (⟨kept.length, n⟩ : DetachCounts)) := fun past kept n =>
    (Follows.forEach (fun _ => True) (fun r _ _ _ => detachOne_keepsMarks r) trivial).andThen
      fun _ _ _ _ => trivial
  unfold detachMembers
  split
  · trivial
  refine (Resource.findAll_keepsMarks kind _).andThen fun _ rs _ _ => ?_
  dsimp only
  split
  · refine Follows.andThen (Follows.free rfl) fun _ _ _ _ => ?_
    refine (Follows.forEach (fun _ => True) (fun r _ _ _ => ?_) trivial).andThen
      fun _ _ _ _ => detach _ _ _
    exact Follows.andThen (Follows.free rfl) fun _ _ _ _ => Follows.free rfl
  · exact detach _ _ _

theorem detachScope_keepsMarks (user : User) (s : Scope) (purge : Bool) :
    Follows KeepsMarks (fun _ _ => True) past (p.detachScope user s purge) := by
  have detach : ∀ (kinds : List Kind) past,
      Follows KeepsMarks (fun _ _ => True) past (detachKinds s purge kinds) := by
    intro kinds
    induction kinds with
    | nil => exact fun _ => trivial
    | cons kind rest ih =>
      intro past
      refine (detachMembers_keepsMarks s purge kind).andThen fun past' _ _ _ => ?_
      exact (ih past').andThen fun _ _ _ _ => trivial
  refine Follows.andThen (Follows.known _) fun _ _ _ _ => ?_
  refine Follows.andThen (Follows.free rfl) fun _ _ _ _ => ?_
  refine Follows.andThen (Follows.free rfl) fun _ _ _ _ => ?_
  exact (detach p.kinds _).andThen fun _ _ _ _ => trivial

/-! ### Creates and updates -/

theorem create_keepsMarks (user : User) (s : Scope) (input : ResourceInput) :
    Follows KeepsMarks (fun _ _ => True) past (p.create user s input) := by
  have owner : ∀ past, Follows KeepsMarks (fun _ _ => True) past (s.requireOwner input.kind) := by
    intro past
    unfold Scope.requireOwner
    split
    · trivial
    · refine Follows.andThen (Follows.free rfl) fun _ doc _ _ => ?_
      cases doc with
      | none => trivial
      | some doc =>
        dsimp only
        split <;> trivial
  have insert : ∀ past (r : Resource), Follows KeepsMarks (fun _ _ => True) past r.insert := by
    intro past r
    have call : Follows KeepsMarks (fun _ _ => True) past (Program.insert r.document) :=
      Follows.free rfl
    refine call.attempt.andThen fun _ r _ _ => ?_
    split <;> trivial
  have rest : ∀ past (r : Resource), Follows KeepsMarks (fun _ _ => True) past (do
      Program.emit .added r
      return (← p.dispatch r .apply).2) :=
    fun past r => Follows.andThen (Follows.free rfl) fun _ _ _ _ =>
      (p.dispatch_keepsMarks r .apply).andThen fun _ _ _ _ => trivial
  refine Follows.andThen (Follows.known _) fun _ _ _ _ => ?_
  refine Follows.andThen (Follows.known _) fun _ _ _ _ => ?_
  refine Follows.andThen (Follows.free rfl) fun _ _ _ _ => ?_
  refine (owner _).andThen fun _ _ _ _ => ?_
  refine Follows.andThen (Follows.free rfl) fun _ time _ _ => ?_
  refine Follows.andThen (Follows.free rfl) fun _ id _ _ => ?_
  refine (Resource.cluster_keepsMarks _).andThen fun _ cluster _ _ => ?_
  refine (insert _ _).andThen fun _ _ _ _ => ?_
  cases cluster with
  | none => exact rest _ _
  | some cluster => exact Follows.andThen (Follows.free rfl) fun _ _ _ _ => rest _ _

theorem recordMove_keepsMarks (r : Resource) :
    Follows KeepsMarks (fun _ _ => True) past (recordMove r) := by
  unfold recordMove
  split
  · refine Follows.andThen (Follows.free rfl) fun _ _ _ _ => ?_
    split
    · exact Follows.andThen (Follows.free rfl) fun _ _ _ _ => trivial
    · trivial
  · split
    · exact Follows.andThen (Follows.free rfl) fun _ _ _ _ => trivial
    · exact Follows.andThen (Follows.free rfl) fun _ _ _ _ => trivial

theorem tryUpdate_keepsMarks (user : User) (s : Scope) (input : ResourceInput) :
    Follows KeepsMarks (fun _ _ => True) past (p.tryUpdate user s input) := by
  have sent : ∀ past (r : Resource), Follows KeepsMarks (fun _ _ => True) past (do
      Program.emit .updated r
      return some (← p.dispatch r .apply).2) :=
    fun past r => Follows.andThen (Follows.free rfl) fun _ _ _ _ =>
      (p.dispatch_keepsMarks r .apply).andThen fun _ _ _ _ => trivial
  refine (Resource.get_keepsMarks ..).andThen fun _ current _ _ => ?_
  split
  · trivial
  split
  · trivial
  refine Follows.andThen (Follows.free rfl) fun _ time _ _ => ?_
  refine (Resource.cluster_keepsMarks _).andThen fun _ cluster _ _ => ?_
  refine Follows.andThen (Follows.free rfl) fun _ hit _ _ => ?_
  cases hit with
  | false => trivial
  | true =>
    simp only [if_true]
    split
    · exact (recordMove_keepsMarks _).andThen fun _ _ _ _ => sent _ _
    · exact sent _ _

theorem update_keepsMarks (user : User) (s : Scope) (input : ResourceInput) :
    Follows KeepsMarks (fun _ _ => True) past (p.update user s input) := by
  have within : ∀ attempts past,
      Follows KeepsMarks (fun _ _ => True) past (p.updateWithin user s input attempts) := by
    intro attempts
    induction attempts with
    | zero => exact fun _ => trivial
    | succ attempts ih =>
      intro past
      refine (p.tryUpdate_keepsMarks user s input).andThen fun past' o _ _ => ?_
      cases o with
      | none => exact ih past'
      | some r => trivial
  refine Follows.andThen (Follows.known _) fun _ _ _ _ => ?_
  exact Follows.andThen (Follows.free rfl) fun _ _ _ _ => within updateAttempts _

/-! ### Reports -/

theorem resend_keepsMarks (r : Resource) : Follows KeepsMarks (fun _ _ => True) past (p.resend r) :=
  (p.settle_keepsMarks r).andThen fun _ _ _ _ => trivial

theorem resendChanged_keepsMarks (r : Resource) :
    Follows KeepsMarks (fun _ _ => True) past (p.resendChanged r) := by
  refine (Resource.findOne_keepsMarks ..).andThen fun _ o _ _ => ?_
  cases o with
  | none => trivial
  | some current => exact p.resend_keepsMarks current

theorem takeStatus_keepsMarks (r : Resource) (report : Wire.Report) :
    Follows KeepsMarks (fun _ _ => True) past (p.takeStatus r report) := by
  unfold takeStatus
  split
  · exact p.resend_keepsMarks r
  refine Follows.andThen (Follows.known _) fun _ status _ _ => ?_
  refine Follows.andThen (Follows.free rfl) fun _ hit _ _ => ?_
  split
  · exact Follows.andThen (Follows.free rfl) fun _ _ _ _ => trivial
  · exact p.resendChanged_keepsMarks r

theorem takeError_keepsMarks (r : Resource) (report : Wire.Report) (message : String) :
    Follows KeepsMarks (fun _ _ => True) past (p.takeError r report message) := by
  unfold takeError
  split
  · exact p.resend_keepsMarks r
  refine Follows.andThen (Follows.free rfl) fun _ hit _ _ => ?_
  split
  · exact Follows.andThen (Follows.free rfl) fun _ _ _ _ => trivial
  · exact p.resendChanged_keepsMarks r

theorem takeDeletion_keepsMarks (r : Resource) (report : Wire.Report) :
    Follows KeepsMarks (fun _ _ => True) past (p.takeDeletion r report) := by
  unfold takeDeletion
  split
  · exact r.remove_keepsMarks.andThen fun _ _ _ _ => trivial
  · exact p.resend_keepsMarks r

theorem route_keepsMarks (report : Wire.Report) :
    Follows KeepsMarks (fun _ _ => True) past (p.route report) := by
  unfold route
  split
  · refine (Resource.findOne_keepsMarks ..).andThen fun _ o _ _ => ?_
    cases o with
    | none => trivial
    | some r =>
      cases hkind : report.kind with
      | statusUpdate => simpa only [hkind] using p.takeStatus_keepsMarks r report
      | deleteConfirmation => simpa only [hkind] using p.takeDeletion_keepsMarks r report
      | applyError message => simpa only [hkind] using p.takeError_keepsMarks r report message
  · trivial

end ControlPlane

namespace Operation

/-- Every operation but a delete leaves the marks of documents alone. -/
theorem keepsMarks (p : ControlPlane) {operation : Operation} (h : operation.isDelete = false) :
    Follows KeepsMarks (fun _ _ => True) [] (operation.program p) := by
  have outcome : ∀ {α : Type} {q : Program α} {f : α → Outcome},
      Follows KeepsMarks (fun _ _ => True) [] q →
        Follows KeepsMarks (fun _ _ => True) [] (f <$> q) :=
    fun h => h.map (fun _ _ _ _ => trivial) fun _ _ _ _ => trivial
  cases operation with
  | create user scope input => exact outcome (p.create_keepsMarks user scope input)
  | update user scope input => exact outcome (p.update_keepsMarks user scope input)
  | delete user kind scope name => cases h
  | resync user kind scope name => exact outcome (p.resync_keepsMarks user kind scope name)
  | resyncScope user scope => exact outcome (p.resyncScope_keepsMarks user scope)
  | detachScope user scope purge => exact outcome (p.detachScope_keepsMarks user scope purge)
  | resyncStale age => exact outcome (p.resyncStale_keepsMarks age)
  | ingest payload =>
    exact outcome (Follows.andThen (Follows.known _) fun _ report _ _ => p.route_keepsMarks report)
  | route report => exact outcome (p.route_keepsMarks report)

end Operation

namespace System

variable {p : ControlPlane} {ms : List Move} {m : Move} {d d' : StoredDocument}

/-- A live document that gets marked in a move is marked by a call of a delete. -/
theorem marked_by_delete (hd : d ∈ (after p ms).documents)
    (hd' : d' ∈ (after p (ms ++ [m])).documents) (hid : d.id = d'.id) (live : d.isMarked = false)
    (marked : d'.isMarked = true) : ∃ i operation past x,
      (after p ms).Makes i operation past x (after p (ms ++ [m])) ∧ operation.isDelete = true := by
  rcases (sound p ms).change m hd hd' hid with rfl | hedit
  · exact absurd (live.symm.trans marked) Bool.false_ne_true
  cases hedit with
  | @intro i operation past e r makes _ _ _ _ _ =>
    refine ⟨i, operation, past, _, makes, ?_⟩
    by_contra hne
    have law := follows_of_makes makes (Operation.keepsMarks p (Bool.not_eq_true _ ▸ hne))
    rw [Resource.isMarked_stored] at live marked
    refine Bool.false_ne_true (law.symm.trans ((e.isMarking_call).trans (decide_eq_true ?_)))
    rcases e with ⟨current, change⟩
    cases change with
    | bury user time => exact List.mem_cons_self ..
    | _ => exact absurd (live.symm.trans marked) Bool.false_ne_true

end System

end FleetSync
