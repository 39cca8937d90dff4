import FleetSync.Proofs.Interleaving.Law

/-!
# The operations keep to the law

Whatever any operation is answered, every call it makes is one it may make then
(`Operation.follows`). Reading leaves what was read for later (`Resource.findOne_follows`), sending
and requeuing take only minor steps (`ControlPlane.settle_follows`), and an update that comes to an
end did raise the version it returns (`ControlPlane.update_follows`).
-/

namespace FleetSync

variable {past : List Exchange} {α β : Type}

namespace Program.Follows

variable {law : List Exchange → Call → Prop} {post : List Exchange → Except OpError α → Prop}

theorem single {c : Call} {k : c.Answer → Except OpError α} (h : law past c)
    (hk : ∀ a, post (past ++ [⟨c, a⟩]) (k a)) :
    Follows law post past (call c fun a => done (k a)) := ⟨h, hk⟩

/-- A call whose answer does not matter. -/
theorem free {c : Call} {k : c.Answer → Except OpError α} (h : law past c) :
    Follows law (fun _ _ => True) past (call c fun a => done (k a)) := single h fun _ => trivial

end Program.Follows

/-- Whether a call failed, or a frame could not be made. -/
def Excused (past : List Exchange) (e : OpError) : Prop :=
  (∃ x ∈ past, x.Failed) ∨ ∃ details, e = .frame details

/-- Ends in a result with a property, or in an excused error. -/
def Ends (P : α → Prop) (past : List Exchange) : Except OpError α → Prop
  | .ok a => P a
  | .error e => Excused past e

namespace Program.Follows

variable {law : List Exchange → Call → Prop} {post : List Exchange → Except OpError α → Prop}
  {P : α → Prop} {Q : β → Prop}

theorem ask {c : Call} {k : c.Answer → Except OpError α} (h : law past c)
    (hk : ∀ a e, k a = .error e → c.failure? e = some a) :
    Follows law (Ends fun _ => True) past (call c fun a => done (k a)) := by
  refine single h fun a => ?_
  cases ha : k a with
  | ok b => trivial
  | error e => exact .inl ⟨_, List.mem_concat_self, e, hk a e ha⟩

theorem thenEnds {p : Program α} {f : α → Program β} (h : Follows law (Ends P) past p)
    (ok : ∀ past' a, past <+: past' → P a → Follows law (Ends Q) past' (f a)) :
    Follows law (Ends Q) past (p >>= f) :=
  h.bind ok fun _ _ _ he => he

/-- An operation that has not committed itself may do what any may, and go on. -/
theorem before {operation : Operation} {q : Program β} {f : β → Program α}
    {mid : List Exchange → Except OpError β → Prop}
    (hu : Uncommitted past) (h : Follows Minor mid past q)
    (ok : ∀ past' b, past <+: past' → Uncommitted past' → mid past' (.ok b) →
      Follows operation.Permits post past' (f b))
    (error : ∀ past' e, Uncommitted past' → post past' (.error e)) :
    Follows operation.Permits post past (q >>= f) :=
  (h.permitted operation).bind (fun past' b hp hr => ok past' b hp (hr.1 hu) hr.2)
    fun past' e _ hr => error past' e (hr.1 hu)

theorem known (r : Except OpError α) :
    Follows law (fun _ _ => True) past (Program.ofExcept r) := trivial

theorem minor {p : Program α} {operation : Operation}
    (h : Follows Minor (fun _ _ => True) past p) :
    Follows operation.Permits (fun _ _ => True) past p :=
  (h.permitted operation).mono fun _ _ _ _ => trivial

/-- In a sequence whose end does not matter each part follows the law. -/
theorem andThen {p : Program α} {f : α → Program β} (h : Follows law post past p)
    (ok : ∀ past' a, past <+: past' → post past' (.ok a) →
      Follows law (fun _ _ => True) past' (f a)) :
    Follows law (fun _ _ => True) past (p >>= f) :=
  h.bind ok fun _ _ _ _ => trivial

end Program.Follows

open Program (Follows)

namespace Program

theorem upsert_follows (m : Mapping) : Follows Minor (Ends fun _ => True) past (upsert m) :=
  Follows.ask trivial fun _ _ h => congrArg some h.symm

theorem removeMapping_follows (k : MappingKey) :
    Follows Minor (Ends fun _ => True) past (removeMapping k) :=
  Follows.ask trivial fun _ _ h => congrArg some h.symm

theorem removeScope_follows (s : Scope) :
    Follows Minor (Ends fun _ => True) past (removeScope s) :=
  Follows.ask trivial fun _ _ h => congrArg some h.symm

theorem reassignScope_follows (s : Scope) (cluster : String) :
    Follows Minor (Ends fun _ => True) past (reassignScope s cluster) :=
  Follows.ask trivial fun _ _ h => congrArg some h.symm

theorem publish_follows (topic key : String) (payload : ByteArray) :
    Follows Minor (Ends fun _ => True) past (publish topic key payload) :=
  Follows.ask trivial fun _ _ h => congrArg some h.symm

end Program

section

variable {law : List Exchange → Call → Prop} {kind : Kind} {rs : List Resource}

/-- A loop over what was read. -/
theorem Program.Follows.total_read {count : Resource → Program Nat}
    (h : ∀ r ∈ rs, Reads past kind r) (turn : ∀ past r, Reads past kind r →
      Follows law (fun _ _ => True) past (count r)) :
    Follows law (fun _ _ => True) past (Program.total count rs) := by
  refine (Follows.total (past <+: ·) (fun r hr past' hp => ?_) (List.prefix_refl past)).mono
    fun _ _ _ _ => trivial
  exact (turn past' r ((h r hr).mono hp)).grows.mono fun _ _ _ hq => hp.trans hq.1

theorem Program.Follows.forEach_read {act : Resource → Program Unit}
    (h : ∀ r ∈ rs, Reads past kind r)
    (turn : ∀ past r, Reads past kind r → Follows law (fun _ _ => True) past (act r)) :
    Follows law (fun _ _ => True) past (Program.forEach act rs) := by
  refine (Follows.forEach (past <+: ·) (fun r hr past' hp => ?_) (List.prefix_refl past)).mono
    fun _ _ _ _ => trivial
  exact (turn past' r ((h r hr).mono hp)).grows.mono fun _ _ _ hq => hp.trans hq.1

end

namespace Resource

/-- What is found is the answer to a single call. -/
theorem findOne_answers {law : List Exchange → Call → Prop} (kind : Kind) (filter : Filter)
    (h : law past (.findOne kind.collection filter)) :
    Follows law (fun past' r => ∀ cur, r = .ok (some cur) → ∃ j,
      past' = past ++ [⟨.findOne kind.collection filter, .ok (some j)⟩] ∧
        ofDocument kind j = .ok cur) past (findOne kind filter) := by
  have found : Follows law (fun past' r => ∀ j, r = .ok (some j) →
      past' = past ++ [⟨.findOne kind.collection filter, .ok (some j)⟩]) past
      (Program.findOne kind.collection filter) :=
    Follows.single h fun a j hj => by rw [hj]
  refine found.bind (fun past' o _ h => ?_) fun past' e _ _ cur hc => by cases hc
  cases o with
  | none =>
    intro cur hc
    cases hc
  | some j =>
    have hpast := h j rfl
    have decoded : Follows law (fun past'' r => ∀ cur, r = .ok cur → past'' = past' ∧
        ofDocument kind j = .ok cur) past' (Program.ofExcept (ofDocument kind j)) :=
      fun cur hc => ⟨rfl, hc⟩
    refine decoded.bind (fun _ cur _ h cur' hc => ?_) fun _ _ _ _ cur hc => by cases hc
    cases hc
    obtain ⟨rfl, hd⟩ := h cur rfl
    exact ⟨j, hpast, hd⟩

/-- What is found was read. -/
theorem findOne_reads {law : List Exchange → Call → Prop} (kind : Kind) (filter : Filter)
    (h : law past (.findOne kind.collection filter)) :
    Follows law (fun past' r => ∀ cur, r = .ok (some cur) → Reads past' kind cur) past
      (findOne kind filter) := by
  refine (findOne_answers kind filter h).mono fun past' r _ h cur hc => ?_
  obtain ⟨j, rfl, hd⟩ := h cur hc
  exact ⟨_, List.mem_concat_self, j, .inl ⟨filter, rfl⟩, hd⟩

theorem findOne_follows (kind : Kind) (filter : Filter) :
    Follows Minor (fun past' r => ∀ cur, r = .ok (some cur) → Reads past' kind cur) past
      (findOne kind filter) := findOne_reads kind filter trivial

theorem findAll_reads {law : List Exchange → Call → Prop} (kind : Kind) (filter : Filter)
    (h : law past (.find kind.collection filter)) :
    Follows law (fun past' r => ∀ rs, r = .ok rs → ∀ cur ∈ rs, Reads past' kind cur) past
      (findAll kind filter) := by
  have found : Follows law (fun past' r => ∀ js, r = .ok js → ∀ j ∈ js,
      ∃ x ∈ past', x.Finds kind.collection j) past (Program.find kind.collection filter) := by
    refine Follows.single h fun a js hjs j hj =>
      ⟨_, List.mem_concat_self, .inr ⟨filter, js, ?_, hj⟩⟩
    rw [hjs]
  refine found.bind (fun past' js _ h rs hrs cur hc => ?_) fun _ _ _ _ rs hc => by cases hc
  obtain ⟨j, hj, hd⟩ := mem_of_mapM_eq_ok hrs hc
  obtain ⟨x, hx, hf⟩ := h js rfl j hj
  exact ⟨x, hx, j, hf, hd⟩

theorem findAll_follows (kind : Kind) (filter : Filter) :
    Follows Minor (fun past' r => ∀ rs, r = .ok rs → ∀ cur ∈ rs, Reads past' kind cur) past
      (findAll kind filter) := findAll_reads kind filter trivial

theorem get_reads {law : List Exchange → Call → Prop} (kind : Kind) (s : Scope) (name : String)
    (h : law past (.findOne kind.collection (.named s name))) :
    Follows law (fun past' r => ∀ cur, r = .ok cur → Reads past' kind cur) past
      (get kind s name) := by
  refine (findOne_reads kind (.named s name) h).bind (fun past' o _ h => ?_)
    fun _ _ _ _ cur hc => by cases hc
  cases o with
  | none =>
    intro cur hc
    cases hc
  | some r =>
    intro cur hc
    cases hc
    exact h r rfl

theorem get_follows (kind : Kind) (s : Scope) (name : String) :
    Follows Minor (fun past' r => ∀ cur, r = .ok cur → Reads past' kind cur) past
      (get kind s name) := get_reads kind s name trivial

theorem members_reads {law : List Exchange → Call → Prop} (kind : Kind) (s : Scope)
    (h : ∀ filter, Filter.members? s kind = some filter →
      law past (.find kind.collection filter)) :
    Follows law (fun past' r => ∀ rs, r = .ok rs → ∀ cur ∈ rs, Reads past' kind cur) past
      (members kind s) := by
  unfold members
  split
  · rename_i filter hfilter
    exact findAll_reads kind filter (h filter hfilter)
  · intro rs hrs cur hc
    cases hrs
    cases hc

theorem members_follows (kind : Kind) (s : Scope) :
    Follows Minor (fun past' r => ∀ rs, r = .ok rs → ∀ cur ∈ rs, Reads past' kind cur) past
      (members kind s) := members_reads kind s fun _ _ => trivial

theorem cluster_follows (r : Resource) :
    Follows Minor (Ends fun _ => True) past r.cluster := by
  unfold cluster
  split
  · trivial
  · exact Follows.ask trivial fun _ _ h => congrArg some h.symm

theorem attach_follows (r : Resource) (cluster : Option String) :
    Follows Minor (Ends fun _ => True) past
      (r.patch [.set ["cluster_name"] (.ofOption .str cluster)]) :=
  Follows.ask ⟨⟨r, .attach cluster⟩, rfl, rfl, .inl ⟨cluster, rfl⟩⟩
    fun _ _ h => congrArg some h.symm

theorem remove_follows (r : Resource) : Follows Minor (fun _ _ => True) past r.remove :=
  Follows.andThen (Follows.free trivial) fun _ _ _ _ =>
    Follows.andThen (Follows.free trivial) fun _ _ _ _ => Follows.free trivial

end Resource

namespace ControlPlane

variable (p : ControlPlane)

theorem send_follows (r : Resource) (action : SyncAction) :
    Follows Minor (Ends fun _ => True) past (p.send r action) := by
  refine r.cluster_follows.thenEnds fun past' cluster _ _ => ?_
  cases cluster with
  | none => trivial
  | some cluster =>
    have frame : Follows Minor (Ends fun _ => True) past' (Program.ofExcept
        ((Wire.Frame.ofEnvelope (r.envelope cluster action)).mapError (·.toOpError))) := by
      cases h : Wire.Frame.ofEnvelope (r.envelope cluster action) with
      | ok f => trivial
      | error e => exact .inr ⟨e.message, rfl⟩
    refine frame.thenEnds fun past'' f _ _ => ?_
    exact (Program.publish_follows ..).thenEnds fun _ _ _ _ => trivial

/-- Sending keeps the id and the version. -/
theorem dispatch_follows (r : Resource) (action : SyncAction) :
    Follows Minor (Ends fun o => o.2.id = r.id ∧ o.2.recordVersion = r.recordVersion) past
      (p.dispatch r action) := by
  refine (p.send_follows r action).thenEnds fun past' outcome _ _ => ?_
  split
  · split
    · exact ⟨rfl, rfl⟩
    · refine (r.attach_follows (some _)).thenEnds fun _ _ _ _ => ?_
      refine (Program.upsert_follows _).thenEnds fun _ _ _ _ => ?_
      exact ⟨rfl, rfl⟩
  · refine (r.attach_follows none).thenEnds fun _ _ _ _ => ?_
    refine (Program.removeMapping_follows _).thenEnds fun _ _ _ _ => ?_
    exact ⟨rfl, rfl⟩
  · exact ⟨rfl, rfl⟩

theorem settle_follows (r : Resource) : Follows Minor (fun _ _ => True) past (p.settle r) := by
  refine (p.dispatch_follows r r.pendingAction).andThen fun past' o _ _ => ?_
  obtain ⟨outcome, r'⟩ := o
  dsimp only
  split
  · exact r'.remove_follows.andThen fun _ _ _ _ => trivial
  · trivial

theorem requeue_follows {kind : Kind} {r : Resource} (h : Reads past kind r) :
    Follows Minor (fun _ _ => True) past (p.requeue r) := by
  refine Follows.andThen (Follows.free trivial) fun past' time hp _ => ?_
  have patch : Follows Minor (fun _ _ => True) past'
      (Program.patchOne r.kind.collection (.byId r.id) [.set ["sync_status"]
        (r.syncStatus.queued r.pendingAction time).encode]) :=
    Follows.free ⟨⟨r, .requeue time⟩, rfl, rfl, .inr ⟨kind, h.mono hp⟩⟩
  refine patch.andThen fun past'' hit _ _ => ?_
  refine (p.settle_follows _).andThen fun _ o _ _ => ?_
  obtain ⟨outcome, r'⟩ := o
  dsimp only
  split
  · exact Follows.andThen (Follows.free trivial) fun _ _ _ _ => trivial
  · trivial

/-! ### Deletes, resyncs and sweeps -/

theorem delete_follows (user : User) (kind : Kind) (s : Scope) (name : String) :
    Follows Minor (fun _ _ => True) past (p.delete user kind s name) := by
  refine Follows.andThen (Follows.known _) fun _ _ _ _ => ?_
  refine Follows.andThen (Follows.free trivial) fun _ _ _ _ => ?_
  refine (Resource.get_follows kind s name).andThen fun past' cur _ h => ?_
  refine Follows.andThen (Follows.free trivial) fun past'' time hp _ => ?_
  have patch : Follows Minor (fun _ _ => True) past'' ((cur.tombstone user time).patch
      (cur.tombstone user time).burial) :=
    Follows.free ⟨⟨cur, .bury user time⟩, rfl, rfl, .inr ⟨kind, (h cur rfl).mono hp⟩⟩
  refine patch.andThen fun _ hit _ _ => ?_
  split
  · refine (p.dispatch_follows _ .delete).andThen fun _ o _ _ => ?_
    obtain ⟨outcome, r'⟩ := o
    cases outcome with
    | noCluster => exact r'.remove_follows.andThen fun _ _ _ _ => trivial
    | dispatched cluster topic offset =>
      exact Follows.andThen (Follows.free trivial) fun _ _ _ _ => trivial
  · trivial

theorem resync_follows (user : User) (kind : Kind) (s : Scope) (name : String) :
    Follows Minor (fun _ _ => True) past (p.resync user kind s name) := by
  refine Follows.andThen (Follows.known _) fun _ _ _ _ => ?_
  refine Follows.andThen (Follows.free trivial) fun _ _ _ _ => ?_
  exact (Resource.get_follows kind s name).andThen fun _ cur _ h => p.requeue_follows (h cur rfl)

theorem resyncScope_follows (user : User) (s : Scope) :
    Follows Minor (fun _ _ => True) past (p.resyncScope user s) := by
  refine Follows.andThen (Follows.known _) fun _ _ _ _ => ?_
  refine Follows.andThen (Follows.free trivial) fun _ _ _ _ => ?_
  refine Follows.total (fun _ => True) (fun kind _ past _ => ?_) trivial
  refine (Resource.members_follows kind s).andThen fun past rs _ h => ?_
  exact Follows.total_read (h rs rfl) fun past r hr =>
    (p.requeue_follows hr).andThen fun _ _ _ _ => trivial

theorem countOrZero_follows {count : Program Nat} {post : List Exchange → Except OpError Nat → Prop}
    (h : Follows Minor post past count) :
    Follows Minor (fun _ _ => True) past (countOrZero count) :=
  h.attempt.andThen fun _ _ _ _ => trivial

theorem resyncStaleOf_follows (cutoff : Cutoff) (kind : Kind) :
    Follows Minor (fun _ _ => True) past (p.resyncStaleOf cutoff kind) := by
  refine (Resource.findAll_follows kind .waiting).andThen fun past' rs _ h => ?_
  refine Follows.total_read (fun r hr => h rs rfl r (List.mem_filter.1 hr).1) fun _ r _ => ?_
  exact countOrZero_follows ((p.settle_follows r).andThen fun _ _ _ _ => trivial)

theorem resyncStale_follows (age : Nat) :
    Follows Minor (fun _ _ => True) past (p.resyncStale age) := by
  unfold resyncStale
  split
  · trivial
  · refine Follows.andThen (Follows.free trivial) fun _ time _ _ => ?_
    split
    · trivial
    · refine Follows.andThen (Follows.total (fun _ => True) (fun kind _ _ _ => ?_) trivial)
        fun _ _ _ _ => trivial
      exact countOrZero_follows (p.resyncStaleOf_follows _ kind)

/-! ### Detachments -/

section

variable (user : User) (s : Scope) (purge : Bool)

theorem detachOne_follows {kind : Kind} {r : Resource} (h : Reads past kind r) :
    Follows (Operation.detachScope user s purge).Permits (fun _ _ => True) past (detachOne r) := by
  refine Follows.andThen (Follows.free trivial) fun past' time hp _ => ?_
  have patch : Follows (Operation.detachScope user s purge).Permits (fun _ _ => True) past'
      ((r.detach time).patch (r.detach time).detachment) := by
    rw [r.patch_detachment time]
    exact Follows.free ⟨⟨r, .detach time⟩, rfl, .inr ⟨kind, h.mono hp⟩, user, s, purge, rfl⟩
  refine patch.andThen fun _ _ _ _ => Follows.minor ?_
  exact Follows.andThen (Follows.free trivial) fun _ _ _ _ => Follows.free trivial

theorem detachMembers_follows (kind : Kind) :
    Follows (Operation.detachScope user s purge).Permits (fun _ _ => True) past
      (detachMembers s purge kind) := by
  unfold detachMembers
  split
  · trivial
  · refine ((Resource.findAll_follows kind _).permitted _).andThen fun past' rs _ h => ?_
    split
    rename_i purged kept hpart
    have hkept : ∀ r ∈ kept, Reads past' kind r := by
      intro r hr
      rw [List.partition_eq_filter_filter] at hpart
      cases hpart
      exact h.2 rs rfl r (List.mem_filter.1 hr).1
    have detach : ∀ {past''}, past' <+: past'' →
        Follows (Operation.detachScope user s purge).Permits (fun _ _ => True) past'' (do
          Program.forEach detachOne kept
          return (⟨kept.length, purged.length⟩ : DetachCounts)) := fun hp =>
      (Follows.forEach_read (fun r hr => (hkept r hr).mono hp) fun _ _ hr =>
        detachOne_follows user s purge hr).andThen fun _ _ _ _ => trivial
    dsimp only
    split
    · refine Follows.andThen (Follows.free trivial).grows fun _ _ _ hp => ?_
      refine (Follows.forEach (past' <+: ·) (fun r _ past hp => ?_) hp.1).andThen
        fun _ _ _ hp => detach hp
      refine (Follows.andThen (Follows.free trivial) fun _ _ _ _ =>
        Follows.free trivial).grows.mono fun _ _ _ hq => hp.trans hq.1
    · exact detach (List.prefix_refl past')

theorem detachKinds_follows (kinds : List Kind) :
    Follows (Operation.detachScope user s purge).Permits (fun _ _ => True) past
      (detachKinds s purge kinds) := by
  induction kinds generalizing past with
  | nil => trivial
  | cons kind rest ih =>
    refine (detachMembers_follows user s purge kind).andThen fun _ _ _ _ => ?_
    exact ih.andThen fun _ _ _ _ => trivial

theorem detachScope_follows :
    Follows (Operation.detachScope user s purge).Permits (fun _ _ => True) past
      (p.detachScope user s purge) := by
  refine Follows.andThen (Follows.known _) fun _ _ _ _ => ?_
  refine Follows.andThen (Follows.free trivial) fun _ _ _ _ => ?_
  refine Follows.andThen (Follows.free trivial) fun _ _ _ _ => ?_
  exact (detachKinds_follows user s purge p.kinds).andThen fun _ _ _ _ => trivial

end

/-! ### Creates and updates -/

theorem create_follows (user : User) (s : Scope) (input : ResourceInput)
    (hu : Uncommitted past) :
    Follows (Operation.create user s input).Permits (fun _ _ => True) past
      (p.create user s input) := by
  have owner : ∀ past, Follows Minor (fun _ _ => True) past (s.requireOwner input.kind) := by
    intro past
    unfold Scope.requireOwner
    split
    · trivial
    · refine Follows.andThen (Follows.free trivial) fun _ doc _ _ => ?_
      cases doc with
      | none => trivial
      | some doc =>
        dsimp only
        split <;> trivial
  have failed : ∀ past' (e : OpError), Uncommitted past' → True := fun _ _ _ => trivial
  refine Follows.before hu (Follows.known _) (fun _ _ _ hu _ => ?_) failed
  refine Follows.before hu (Follows.known _) (fun _ _ _ hu _ => ?_) failed
  refine Follows.before hu (Follows.free trivial) (fun _ _ _ hu _ => ?_) failed
  refine Follows.before hu (owner _) (fun _ _ _ hu _ => ?_) failed
  refine Follows.before hu (Follows.free trivial) (fun _ time _ hu _ => ?_) failed
  have given : ∀ past, Follows Minor (fun past' r => ∀ id, r = .ok id → ⟨.freshId, id⟩ ∈ past') past
      Program.freshId := by
    intro past
    refine Follows.single trivial fun a id h => ?_
    cases h
    exact List.mem_concat_self
  refine Follows.before hu (given _) (fun _ id _ hu hid => ?_) failed
  refine Follows.before hu (Resource.cluster_follows _) (fun _ cluster hp hu _ => ?_) failed
  dsimp only
  have insert : ∀ past (r : Resource), Operation.Permits (.create user s input) past
      (.insert r.document) →
      Follows (Operation.create user s input).Permits (fun _ _ => True) past r.insert := by
    intro past r h
    have call : Follows (Operation.create user s input).Permits (fun _ _ => True) past
        (Program.insert r.document) := Follows.free h
    refine call.attempt.andThen fun _ r _ _ => ?_
    split <;> trivial
  have permit := hp.subset (hid id rfl)
  refine (insert _ _ ⟨user, s, input, id, time, cluster, rfl, rfl, permit, hu⟩).andThen
    fun past' _ _ _ => ?_
  refine Follows.minor ?_
  have rest : ∀ past (r : Resource), Follows Minor (fun _ _ => True) past (do
      Program.emit .added r
      return (← p.dispatch r .apply).2) :=
    fun past r => Follows.andThen (Follows.free trivial) fun _ _ _ _ =>
      (p.dispatch_follows r .apply).andThen fun _ _ _ _ => trivial
  cases cluster with
  | none => exact rest _ _
  | some cluster => exact (Program.upsert_follows _).andThen fun _ _ _ _ => rest _ _

/-- How an update ends: with the version it raised the document to, or before it raised it, or
excused. -/
def Updated (past : List Exchange) : Except OpError Resource → Prop
  | .ok r => ∃ x ∈ past, ∃ v, x.Claims r.id v ∧ r.recordVersion = v.next
  | .error e => Uncommitted past ∨ Excused past e

theorem recordMove_follows (r : Resource) :
    Follows Minor (Ends fun _ => True) past (recordMove r) := by
  unfold recordMove
  split
  · refine (Program.upsert_follows _).thenEnds fun _ _ _ _ => ?_
    split
    · exact (Program.reassignScope_follows ..).thenEnds fun _ _ _ _ => trivial
    · trivial
  · split
    · exact (Program.removeScope_follows _).thenEnds fun _ _ _ _ => trivial
    · exact (Program.removeMapping_follows _).thenEnds fun _ _ _ _ => trivial

/-- What an update does once it raised the version. -/
theorem sendUpdated_follows (current updated : Resource) :
    Follows Minor (Ends fun o => ∃ r, o = some r ∧ r.id = updated.id ∧
      r.recordVersion = updated.recordVersion) past (do
        if updated.clusterName ≠ current.clusterName then recordMove updated
        Program.emit .updated updated
        return some (← p.dispatch updated .apply).2) := by
  have sent : ∀ past, Follows Minor (Ends fun o => ∃ r, o = some r ∧ r.id = updated.id ∧
      r.recordVersion = updated.recordVersion) past (do
        Program.emit .updated updated
        return some (← p.dispatch updated .apply).2) := by
    intro past
    have emitted : Follows Minor (Ends fun _ => True) past (Program.emit .updated updated) :=
      Follows.single trivial fun _ => trivial
    refine emitted.thenEnds fun _ _ _ _ => (p.dispatch_follows updated .apply).thenEnds ?_
    exact fun _ o _ ho => ⟨o.2, rfl, ho⟩
  split
  · exact (recordMove_follows updated).thenEnds fun _ _ _ _ => sent _
  · exact sent _

theorem tryUpdate_follows (user : User) (s : Scope) (input : ResourceInput)
    (hu : Uncommitted past) :
    Follows (Operation.update user s input).Permits (fun past' r => match r with
      | .ok none => Uncommitted past'
      | .ok (some r) => Updated past' (.ok r)
      | .error e => Updated past' (.error e)) past (p.tryUpdate user s input) := by
  refine Follows.before hu (Resource.get_follows ..) (fun _ current _ hu hread => ?_)
    fun _ _ hu => .inl hu
  split
  · exact .inl hu
  rename_i hlive
  split
  · exact .inl hu
  refine Follows.before hu (Follows.free trivial) (fun _ time hp hu _ => ?_) fun _ _ hu => .inl hu
  have hread := (hread current rfl).mono hp
  refine Follows.before hu (Resource.cluster_follows _) (fun past' cluster hp hu _ => ?_)
    fun _ _ hu => .inl hu
  have hread := hread.mono hp
  have permit : (Operation.update user s input).Permits past'
      (Edit.call ⟨current, .revise input user time cluster⟩) :=
    ⟨_, rfl, .inr ⟨_, hread⟩, ⟨s, rfl⟩, hread, Bool.not_eq_true _ ▸ hlive, hu⟩
  have patched : Follows (Operation.update user s input).Permits (fun past'' r => match r with
      | .ok true => ∃ x ∈ past'', x.Claims current.id current.recordVersion
      | .ok false => Uncommitted past''
      | .error _ => Uncommitted past'') past'
      (current.patchAtVersion
        ({ input.revise current user time with clusterName := cluster } : Resource).revision) := by
    refine Follows.single permit fun a => ?_
    cases a with
    | error e => exact hu.concat fun h => by cases h.2
    | ok hit =>
      cases hit with
      | false => exact hu.concat fun h => by cases h.2
      | true => exact ⟨_, List.mem_concat_self, ⟨_, _, rfl⟩, rfl⟩
  refine patched.bind (fun past'' hit _ hhit => ?_) fun _ _ _ hu => .inl hu
  cases hit with
  | false => exact hhit
  | true =>
    refine ((p.sendUpdated_follows current _).permitted _).grows.mono fun past₃ r _ hr => ?_
    cases r with
    | error e => exact .inr hr.2.2
    | ok o =>
      obtain ⟨r, rfl, hid, hv⟩ := hr.2.2
      obtain ⟨x, hx, hclaim⟩ := hhit
      exact ⟨x, hr.1.subset hx, current.recordVersion, hid ▸ hclaim, hv⟩

theorem updateWithin_follows (user : User) (s : Scope) (input : ResourceInput) (attempts : Nat)
    (hu : Uncommitted past) :
    Follows (Operation.update user s input).Permits Updated past
      (p.updateWithin user s input attempts) := by
  induction attempts generalizing past with
  | zero => exact .inl hu
  | succ attempts ih =>
    refine (p.tryUpdate_follows user s input hu).bind (fun past' o _ ho => ?_) fun _ _ _ he => he
    cases o with
    | none => exact ih ho
    | some r => exact ho

theorem update_follows (user : User) (s : Scope) (input : ResourceInput) (hu : Uncommitted past) :
    Follows (Operation.update user s input).Permits Updated past (p.update user s input) := by
  refine Follows.before hu (Follows.known _) (fun _ _ _ hu _ => ?_) fun _ _ hu => .inl hu
  refine Follows.before hu (Follows.free trivial) (fun _ _ _ hu _ => ?_) fun _ _ hu => .inl hu
  exact p.updateWithin_follows user s input updateAttempts hu

/-! ### Reports -/

theorem resend_follows (r : Resource) : Follows Minor (fun _ _ => True) past (p.resend r) :=
  (p.settle_follows r).andThen fun _ _ _ _ => trivial

theorem resendChanged_follows (r : Resource) :
    Follows Minor (fun _ _ => True) past (p.resendChanged r) := by
  refine (Resource.findOne_follows ..).andThen fun _ o _ _ => ?_
  cases o with
  | none => trivial
  | some current => exact p.resend_follows current

variable {operation : Operation} {report : Wire.Report}

theorem takeStatus_follows {kind : Kind} {r : Resource} (hread : Reads past kind r)
    (hop : operation.report? = some report) (hkind : report.kind = .statusUpdate) :
    Follows operation.Permits (fun _ _ => True) past (p.takeStatus r report) := by
  unfold takeStatus
  split
  · exact (p.resend_follows r).minor
  rename_i hver
  refine Follows.andThen (Follows.known _) fun past' status hp _ => ?_
  have patch : Follows operation.Permits (fun _ _ => True) past'
      (r.patchAtVersion (r.observe report status).observation) :=
    Follows.free ⟨⟨r, .observe report status⟩, rfl, .inr ⟨kind, hread.mono hp⟩, hop, hkind,
      not_not.1 hver⟩
  refine patch.andThen fun _ hit _ _ => ?_
  split
  · exact Follows.minor (Follows.andThen (Follows.free trivial) fun _ _ _ _ => trivial)
  · exact (p.resendChanged_follows r).minor

theorem takeError_follows {kind : Kind} {r : Resource} {message : String}
    (hread : Reads past kind r) (hop : operation.report? = some report)
    (hkind : report.kind = .applyError message) :
    Follows operation.Permits (fun _ _ => True) past (p.takeError r report message) := by
  unfold takeError
  split
  · exact (p.resend_follows r).minor
  rename_i hver
  have patch : Follows operation.Permits (fun _ _ => True) past
      (r.patchAtVersion [.set ["sync_status"]
        (r.syncStatus.failed message report.timestamp).encode]) :=
    Follows.free ⟨⟨r, .fail message report.timestamp⟩, rfl, .inr ⟨kind, hread⟩, report, hop, hkind,
      rfl, not_not.1 hver⟩
  refine patch.andThen fun _ hit _ _ => ?_
  split
  · exact Follows.minor (Follows.andThen (Follows.free trivial) fun _ _ _ _ => trivial)
  · exact (p.resendChanged_follows r).minor

theorem takeDeletion_follows (r : Resource) (report : Wire.Report) :
    Follows Minor (fun _ _ => True) past (p.takeDeletion r report) := by
  unfold takeDeletion
  split
  · exact r.remove_follows.andThen fun _ _ _ _ => trivial
  · exact p.resend_follows r

theorem route_follows (hop : operation.report? = some report) :
    Follows operation.Permits (fun _ _ => True) past (p.route report) := by
  unfold route
  split
  · refine ((Resource.findOne_follows ..).permitted _).andThen fun past' o _ ho => ?_
    cases o with
    | none => trivial
    | some r =>
      have hread := ho.2 r rfl
      cases hkind : report.kind with
      | statusUpdate => exact p.takeStatus_follows hread hop hkind
      | deleteConfirmation => exact (p.takeDeletion_follows r report).minor
      | applyError message => exact p.takeError_follows hread hop hkind
  · trivial

theorem ingest_follows (payload : ByteArray) :
    Follows (Operation.ingest payload).Permits (fun _ _ => True) past (p.ingest payload) := by
  unfold ingest
  cases h : readReport payload with
  | error e => trivial
  | ok report =>
    have hop : (Operation.ingest payload).report? = some report := by
      rw [Operation.report?, h]
      rfl
    exact p.route_follows hop

end ControlPlane

namespace Operation

/-- How an operation ends: that matters only for updates. -/
def Concludes (operation : Operation) (past : List Exchange) (r : Except OpError Outcome) : Prop :=
  operation.isUpdate = true → ∃ r', r = Outcome.resource <$> r' ∧ ControlPlane.Updated past r'

/-- Every operation keeps to the law. -/
theorem follows (p : ControlPlane) (operation : Operation) :
    Follows operation.Permits operation.Concludes [] (operation.program p) := by
  have none : Uncommitted [] := fun _ hx => nomatch hx
  have minor : ∀ {α : Type} {q : Program α} {f : α → Outcome}, operation.isUpdate = false →
      Follows operation.Permits (fun _ _ => True) [] q →
      Follows operation.Permits operation.Concludes [] (f <$> q) := by
    intro α q f hop h
    have ends : ∀ past r, operation.Concludes past r := fun _ _ hu => by rw [hop] at hu; cases hu
    exact h.map (fun _ _ _ _ => ends _ _) fun _ _ _ _ => ends _ _
  cases operation with
  | create user scope input => exact minor rfl (p.create_follows user scope input none)
  | update user scope input =>
    refine (p.update_follows user scope input none).map (fun _ r _ hr _ => ?_) fun _ e _ he _ => ?_
    · exact ⟨.ok r, rfl, hr⟩
    · exact ⟨.error e, rfl, he⟩
  | delete user kind scope name => exact minor rfl (p.delete_follows user kind scope name).minor
  | resync user kind scope name => exact minor rfl (p.resync_follows user kind scope name).minor
  | resyncScope user scope => exact minor rfl (p.resyncScope_follows user scope).minor
  | detachScope user scope purge => exact minor rfl (p.detachScope_follows user scope purge)
  | resyncStale age => exact minor rfl (p.resyncStale_follows age).minor
  | ingest payload => exact minor rfl (p.ingest_follows payload)
  | route report => exact minor rfl (p.route_follows rfl)

/-- An operation that takes a report in follows what taking it in follows. -/
theorem follows_of_route (p : ControlPlane) {law : List Exchange → Call → Prop}
    {operation : Operation} {report : Wire.Report} (h : operation.report? = some report)
    (route : Follows law (fun _ _ => True) [] (p.route report)) :
    Follows law (fun _ _ => True) [] (operation.program p) := by
  cases operation with
  | ingest payload =>
    have ingest : Follows law (fun _ _ => True) [] (p.ingest payload) := by
      unfold ControlPlane.ingest
      cases hread : ControlPlane.readReport payload with
      | error e => trivial
      | ok report' =>
        rw [report?, hread] at h
        obtain rfl := Option.some.inj h
        exact route
    exact ingest.map (fun _ _ _ _ => trivial) fun _ _ _ _ => trivial
  | route report' =>
    obtain rfl := Option.some.inj h
    exact route.map (fun _ _ _ _ => trivial) fun _ _ _ _ => trivial
  | _ => cases h

end Operation

end FleetSync
