import FleetSync.Proofs.Interleaving.Conduct

/-!
# What operations handle

An operation goes on with resources that it inserted, read or revised, and with what it makes of
them for itself (`Handled`). Whatever it changes, deletes, files or sends belongs to one of these,
and where it looks for others it asks for those of the account that it is addressed to
(`Operation.account?`). `Operation.targets` says so of every call, whatever the answers are.
-/

namespace FleetSync

open Program (Follows)

/-- Whether a resource is another one but for what is known of its progress and its cluster. -/
structure Resource.Keeps (r r' : Resource) : Prop where
  id : r'.id = r.id
  key : r'.mappingKey = r.mappingKey
  version : r'.recordVersion = r.recordVersion
  spec : r'.spec = r.spec

theorem Resource.Keeps.refl (r : Resource) : r.Keeps r := ⟨rfl, rfl, rfl, rfl⟩

theorem Resource.Keeps.trans {r r' r'' : Resource} (h : r.Keeps r') (h' : r'.Keeps r'') :
    r.Keeps r'' :=
  ⟨h'.id.trans h.id, h'.key.trans h.key, h'.version.trans h.version, h'.spec.trans h.spec⟩

/-- Whether a resource was inserted, read or revised. -/
inductive Obtained (past : List Exchange) : Resource → Prop
  | inserted {r : Resource} (done : ⟨.insert r.document, .ok ()⟩ ∈ past) : Obtained past r
  | read {kind : Kind} {r : Resource} (read : Reads past kind r) : Obtained past r
  | revised {e : Edit} {input : ResourceInput} {user : User} {time : Instant}
    {cluster : Option String} (change : e.change = .revise input user time cluster)
    (read : Reads past input.kind e.current) (done : ⟨e.call, .ok true⟩ ∈ past) :
    Obtained past (e.apply e.current)

/-- Whether a resource is one that was obtained, as an operation goes on with it. -/
def Handled (past : List Exchange) (r : Resource) : Prop := ∃ r₀, Obtained past r₀ ∧ r₀.Keeps r

section

variable {past past' : List Exchange} {r r' : Resource}

theorem Obtained.mono (h : Obtained past r) (hp : past <+: past') : Obtained past' r := by
  cases h with
  | inserted done => exact .inserted (hp.subset done)
  | read read => exact .read (read.mono hp)
  | revised change read done => exact .revised change (read.mono hp) (hp.subset done)

theorem Obtained.handled (h : Obtained past r) : Handled past r := ⟨r, h, .refl r⟩

theorem Reads.handled {kind : Kind} (h : Reads past kind r) : Handled past r :=
  (Obtained.read h).handled

theorem Handled.mono (h : Handled past r) (hp : past <+: past') : Handled past' r :=
  h.imp fun _ h => ⟨h.1.mono hp, h.2⟩

theorem Handled.keeps (h : Handled past r) (hk : r.Keeps r') : Handled past r' :=
  h.imp fun _ h => ⟨h.1, h.2.trans hk⟩

end

/-- The account that an operation is addressed to. -/
def Operation.account? : Operation → Option String
  | create _ s _ | update _ s _ | delete _ _ s _ | resync _ _ s _ | resyncScope _ s
  | detachScope _ s _ => some s.accountName
  | resyncStale _ => none
  | ingest payload => (ingest payload).report?.map (·.accountName)
  | route report => some report.accountName

/-- Whether a filter asks for the documents of an account, if there is one to ask for. -/
def AsksFor (account? : Option String) (filter : Filter) : Prop :=
  ∀ a, account? = some a → ∃ rest, filter = .eq ["account_name"] (.str a) :: rest

/-- Whether a scope is one of an account, if there is one. -/
def Owns (account? : Option String) (s : Scope) : Prop := ∀ a, account? = some a → s.accountName = a

/-- What the calls of an operation that is addressed to an account may be about. -/
def Targets (p : ControlPlane) (account? : Option String) (past : List Exchange) : Call → Prop
  | .now | .freshId | .authorize .. | .insert _ | .emit _ => True
  | .find _ filter | .deleteMany _ filter => AsksFor account? filter
  | .findOne collection filter => AsksFor account? filter ∨
    ∃ r, Handled past r ∧ collection = r.kind.collection ∧ filter = .byId r.id
  | .patchOne collection filter _ => ∃ r, Handled past r ∧ collection = r.kind.collection ∧
    (filter = .byId r.id ∨ ∃ v, filter = .byIdAt r.id v)
  | .deleteOne collection filter =>
    ∃ r, Handled past r ∧ collection = r.kind.collection ∧ filter = .byId r.id
  | .upsert m => ∃ r cluster, Handled past r ∧ m = r.mapping cluster
  | .removeMapping k => ∃ r, Handled past r ∧ k = r.mappingKey
  | .resolve s | .removeScope s | .reassignScope s _ =>
    Owns account? s ∨ ∃ r, Handled past r ∧ s = r.scope
  | .publish topic key payload => ∃ r cluster action frame, Handled past r ∧
    topic = p.topicOf cluster ∧ key = r.namespaceName ∧
    Wire.Frame.ofEnvelope (r.envelope cluster action) = .ok frame ∧ payload = frame.toBytes

variable {p : ControlPlane} {account? : Option String} {past : List Exchange} {r : Resource}
  {kind : Kind} {s : Scope}

theorem Owns.asks_inProject (h : Owns account? s) (rest : Filter) :
    AsksFor account? (.inProject s.accountName s.projectName ++ rest) :=
  fun a ha => ⟨_, by rw [h a ha]; rfl⟩

theorem Owns.asks_members {filter : Filter} (h : Owns account? s)
    (hf : Filter.members? s kind = some filter) : AsksFor account? filter := by
  unfold Filter.members? at hf
  simp only at hf
  split at hf
  · rw [← Option.some.inj hf, ← List.append_nil (Filter.inProject ..)]
    exact h.asks_inProject []
  split at hf
  · rw [← Option.some.inj hf]
    exact h.asks_inProject _
  split at hf
  · cases hf
  · rw [← Option.some.inj hf]
    exact h.asks_inProject _

theorem Owns.asks_named (h : Owns account? s) (name : String) :
    AsksFor account? (.named s name) := h.asks_inProject _

namespace Resource

theorem get_targets (h : Owns account? s) (kind : Kind) (name : String) :
    Follows (Targets p account?) (fun past' o => ∀ cur, o = .ok cur → Reads past' kind cur) past
      (get kind s name) := get_reads kind s name (.inl (h.asks_named name))

theorem members_targets (h : Owns account? s) (kind : Kind) :
    Follows (Targets p account?) (fun past' o => ∀ rs, o = .ok rs → ∀ cur ∈ rs,
      Reads past' kind cur) past (members kind s) :=
  members_reads kind s fun _ hf => h.asks_members hf

theorem cluster_targets (h : Targets p account? past (.resolve r.scope)) :
    Follows (Targets p account?) (fun _ _ => True) past r.cluster := by
  unfold cluster
  split
  · trivial
  · exact Follows.free h

theorem remove_targets (h : Handled past r) :
    Follows (Targets p account?) (fun _ _ => True) past r.remove := by
  refine Follows.andThen (Follows.free ⟨r, h, rfl, rfl⟩) fun _ _ hp _ => ?_
  exact Follows.andThen (Follows.free ⟨r, h.mono hp, rfl⟩) fun _ _ _ _ => Follows.free trivial

end Resource

namespace ControlPlane

theorem send_targets (h : Handled past r) (action : SyncAction) :
    Follows (Targets p account?) (fun _ _ => True) past (p.send r action) := by
  refine (Resource.cluster_targets (.inr ⟨r, h, rfl⟩)).andThen fun past' cluster hp _ => ?_
  cases cluster with
  | none => trivial
  | some cluster =>
    have frame : Follows (Targets p account?) (fun _ o => ∀ f, o = .ok f →
        Wire.Frame.ofEnvelope (r.envelope cluster action) = .ok f) past' (Program.ofExcept
          ((Wire.Frame.ofEnvelope (r.envelope cluster action)).mapError (·.toOpError))) := by
      intro f hf
      cases he : Wire.Frame.ofEnvelope (r.envelope cluster action) with
      | error e => rw [he] at hf; cases hf
      | ok f' => rw [he] at hf; cases hf; rfl
    refine frame.andThen fun past'' f hp' hf => ?_
    have law : Targets p account? past'' (.publish (p.topicOf cluster) r.namespaceName f.toBytes) :=
      ⟨r, cluster, action, f, h.mono (hp.trans hp'), rfl, rfl, hf f rfl, rfl⟩
    exact Follows.andThen (Follows.free law) fun _ _ _ _ => trivial

/-- Sending makes no other resource of one. -/
theorem dispatch_targets (h : Handled past r) (action : SyncAction) :
    Follows (Targets p account?) (fun _ o => ∀ x, o = .ok x → r.Keeps x.2) past
      (p.dispatch r action) := by
  have failed : ∀ e x, (.error e : Except OpError (DispatchOutcome × Resource)) = .ok x →
      r.Keeps x.2 := fun _ _ hx => nomatch hx
  refine (send_targets h action).bind (fun past' outcome hp _ => ?_) fun _ e _ _ => failed e
  have h := h.mono hp
  split
  · split
    · rintro _ ⟨⟩
      exact .refl r
    · refine Follows.bind (Follows.free ⟨r, h, rfl, .inl rfl⟩) (fun _ _ hp _ => ?_)
        fun _ e _ _ => failed e
      refine Follows.bind (Follows.free ⟨r, _, h.mono hp, rfl⟩) (fun _ _ _ _ => ?_)
        fun _ e _ _ => failed e
      rintro _ ⟨⟩
      exact ⟨rfl, rfl, rfl, rfl⟩
  · refine Follows.bind (Follows.free ⟨r, h, rfl, .inl rfl⟩) (fun _ _ hp _ => ?_)
      fun _ e _ _ => failed e
    refine Follows.bind (Follows.free ⟨r, h.mono hp, rfl⟩) (fun _ _ _ _ => ?_)
      fun _ e _ _ => failed e
    rintro _ ⟨⟩
    exact ⟨rfl, rfl, rfl, rfl⟩
  · rintro _ ⟨⟩
    exact .refl r

theorem settle_targets (h : Handled past r) :
    Follows (Targets p account?) (fun _ o => ∀ x, o = .ok x → r.Keeps x.2) past (p.settle r) := by
  refine (dispatch_targets h r.pendingAction).bind (fun past' o hp ho => ?_)
    fun _ _ _ _ _ hx => nomatch hx
  obtain ⟨outcome, r'⟩ := o
  have hr' := ho _ rfl
  dsimp only
  split
  · refine (Resource.remove_targets ((h.mono hp).keeps hr')).bind (fun _ _ _ _ => ?_)
      fun _ _ _ _ _ hx => nomatch hx
    rintro _ ⟨⟩
    exact hr'
  · rintro _ ⟨⟩
    exact hr'

theorem requeue_targets (h : Handled past r) :
    Follows (Targets p account?) (fun _ _ => True) past (p.requeue r) := by
  refine Follows.andThen (Follows.free trivial) fun _ time hp _ => ?_
  have h : Handled _ { r with syncStatus := r.syncStatus.queued r.pendingAction time } :=
    (h.mono hp).keeps ⟨rfl, rfl, rfl, rfl⟩
  refine Follows.andThen (Follows.free ⟨_, h, rfl, .inl rfl⟩) fun _ _ hp _ => ?_
  refine (settle_targets (h.mono hp)).andThen fun _ o _ _ => ?_
  obtain ⟨outcome, r'⟩ := o
  dsimp only
  split
  · exact Follows.andThen (Follows.free trivial) fun _ _ _ _ => trivial
  · trivial

/-! ### Deletes, resyncs and sweeps -/

theorem delete_targets (h : Owns account? s) (user : User) (kind : Kind) (name : String) :
    Follows (Targets p account?) (fun _ _ => True) past (p.delete user kind s name) := by
  refine Follows.andThen (Follows.known _) fun _ _ _ _ => ?_
  refine Follows.andThen (Follows.free trivial) fun _ _ _ _ => ?_
  refine (Resource.get_targets h kind name).andThen fun _ cur _ hcur => ?_
  refine Follows.andThen (Follows.free trivial) fun _ time hp _ => ?_
  have hr : Handled _ (cur.tombstone user time) :=
    ((hcur cur rfl).handled.mono hp).keeps ⟨rfl, rfl, rfl, rfl⟩
  refine Follows.andThen (Follows.free ⟨_, hr, rfl, .inl rfl⟩) fun _ hit hp _ => ?_
  have hr := hr.mono hp
  split
  · refine (dispatch_targets hr .delete).andThen fun _ o hp ho => ?_
    obtain ⟨outcome, r'⟩ := o
    cases outcome with
    | noCluster =>
      refine (Resource.remove_targets ((hr.mono hp).keeps (ho _ rfl))).andThen fun _ _ _ _ => ?_
      trivial
    | dispatched cluster topic offset =>
      exact Follows.andThen (Follows.free trivial) fun _ _ _ _ => trivial
  · trivial

theorem resync_targets (h : Owns account? s) (user : User) (kind : Kind) (name : String) :
    Follows (Targets p account?) (fun _ _ => True) past (p.resync user kind s name) := by
  refine Follows.andThen (Follows.known _) fun _ _ _ _ => ?_
  refine Follows.andThen (Follows.free trivial) fun _ _ _ _ => ?_
  exact (Resource.get_targets h kind name).andThen fun _ cur _ hcur =>
    requeue_targets (hcur cur rfl).handled

theorem resyncScope_targets (h : Owns account? s) (user : User) :
    Follows (Targets p account?) (fun _ _ => True) past (p.resyncScope user s) := by
  refine Follows.andThen (Follows.known _) fun _ _ _ _ => ?_
  refine Follows.andThen (Follows.free trivial) fun _ _ _ _ => ?_
  refine Follows.total (fun _ => True) (fun kind _ past _ => ?_) trivial
  refine (Resource.members_targets h kind).andThen fun _ rs _ hrs => ?_
  exact Follows.total_read (hrs rs rfl) fun _ r hr =>
    (requeue_targets hr.handled).andThen fun _ _ _ _ => trivial

theorem countOrZero_targets {count : Program Nat}
    (h : Follows (Targets p account?) (fun _ _ => True) past count) :
    Follows (Targets p account?) (fun _ _ => True) past (countOrZero count) :=
  h.attempt.andThen fun _ _ _ _ => trivial

theorem resyncStale_targets (age : Nat) :
    Follows (Targets p none) (fun _ _ => True) past (p.resyncStale age) := by
  have asks : AsksFor none .waiting := fun _ h => nomatch h
  unfold resyncStale
  split
  · trivial
  refine Follows.andThen (Follows.free trivial) fun _ time _ _ => ?_
  split
  · trivial
  refine Follows.andThen (Follows.total (fun _ => True) (fun kind _ _ _ => ?_) trivial)
    fun _ _ _ _ => trivial
  refine countOrZero_targets ?_
  refine (Resource.findAll_reads kind .waiting asks).andThen fun _ rs _ hrs => ?_
  refine Follows.total_read (fun r hr => hrs rs rfl r (List.mem_filter.1 hr).1) fun _ r hr => ?_
  exact countOrZero_targets ((settle_targets hr.handled).andThen fun _ _ _ _ => trivial)

/-! ### Detachments -/

theorem detachOne_targets (h : Handled past r) :
    Follows (Targets p account?) (fun _ _ => True) past (detachOne r) := by
  refine Follows.andThen (Follows.free trivial) fun _ time hp _ => ?_
  have h := h.mono hp
  refine Follows.andThen (Follows.free ⟨r, h, congrArg _ (r.kind_detach time), .inl rfl⟩)
    fun _ _ hp _ => ?_
  refine Follows.andThen (Follows.free ⟨r, h.mono hp, r.mappingKey_detach time⟩) fun _ _ _ _ => ?_
  exact Follows.free trivial

theorem detachMembers_targets (h : Owns account? s) (purge : Bool) (kind : Kind) :
    Follows (Targets p account?) (fun _ _ => True) past (detachMembers s purge kind) := by
  unfold detachMembers
  split
  · trivial
  rename_i filter hfilter
  have asks := h.asks_members hfilter
  refine (Resource.findAll_reads kind filter asks).andThen fun past' rs _ hrs => ?_
  split
  rename_i purged kept hpart
  rw [List.partition_eq_filter_filter] at hpart
  cases hpart
  have detach : ∀ {past''}, past' <+: past'' → Follows (Targets p account?) (fun _ _ => True)
      past'' (do
        Program.forEach detachOne (rs.filter fun r => !(purge && s.purges r))
        return (⟨(rs.filter fun r => !(purge && s.purges r)).length,
          (rs.filter fun r => purge && s.purges r).length⟩ : DetachCounts)) := by
    intro past'' hp
    have kept : ∀ r ∈ rs.filter fun r => !(purge && s.purges r), Reads past'' kind r :=
      fun r hr => (hrs rs rfl r (List.mem_filter.1 hr).1).mono hp
    exact (Follows.forEach_read kept fun _ _ hr => detachOne_targets hr.handled).andThen
      fun _ _ _ _ => trivial
  dsimp only
  split
  · have asks : AsksFor account? (if s.isOwnedBy kind = true then
        filter ++ [.ne ["name"] (.str s.ownerName)] else filter) := by
      split
      · intro a ha
        obtain ⟨rest, rfl⟩ := asks a ha
        exact ⟨_, List.cons_append⟩
      · exact asks
    refine Follows.andThen (Follows.free asks) fun _ _ hp _ => ?_
    refine (Follows.forEach (past' <+: ·) (fun r hr past hp => ?_) hp).andThen
      fun _ _ _ hp => detach hp
    have hr := (hrs rs rfl r (List.mem_filter.1 hr).1).mono hp
    refine (Follows.andThen (Follows.free ⟨r, hr.handled, rfl⟩) fun _ _ _ _ =>
      Follows.free trivial).grows.mono fun _ _ _ hq => hp.trans hq.1
  · exact detach (List.prefix_refl past')

theorem detachKinds_targets (h : Owns account? s) (purge : Bool) (kinds : List Kind) :
    Follows (Targets p account?) (fun _ _ => True) past (detachKinds s purge kinds) := by
  induction kinds generalizing past with
  | nil => trivial
  | cons kind rest ih =>
    refine (detachMembers_targets h purge kind).andThen fun _ _ _ _ => ?_
    exact ih.andThen fun _ _ _ _ => trivial

theorem detachScope_targets (h : Owns account? s) (user : User) (purge : Bool) :
    Follows (Targets p account?) (fun _ _ => True) past (p.detachScope user s purge) := by
  refine Follows.andThen (Follows.known _) fun _ _ _ _ => ?_
  refine Follows.andThen (Follows.free trivial) fun _ _ _ _ => ?_
  refine Follows.andThen (Follows.free (.inl h)) fun _ _ _ _ => ?_
  exact (detachKinds_targets h purge p.kinds).andThen fun _ _ _ _ => trivial

/-! ### Creates and updates -/

theorem create_targets (h : Owns account? s) (user : User) (input : ResourceInput) :
    Follows (Targets p account?) (fun _ _ => True) past (p.create user s input) := by
  have owner : ∀ past, Follows (Targets p account?) (fun _ _ => True) past
      (s.requireOwner input.kind) := by
    intro past
    have asks : AsksFor account? (.owner s) := Owns.asks_named (s := s.ownerScope) h s.ownerName
    unfold Scope.requireOwner
    split
    · trivial
    · refine Follows.andThen (Follows.free (.inl asks)) fun _ doc _ _ => ?_
      cases doc with
      | none => trivial
      | some doc =>
        dsimp only
        split <;> trivial
  refine Follows.andThen (Follows.known _) fun _ _ _ _ => ?_
  refine Follows.andThen (Follows.known _) fun _ _ _ _ => ?_
  refine Follows.andThen (Follows.free trivial) fun _ _ _ _ => ?_
  refine (owner _).andThen fun _ _ _ _ => ?_
  refine Follows.andThen (Follows.free trivial) fun _ time _ _ => ?_
  refine Follows.andThen (Follows.free trivial) fun _ id _ _ => ?_
  have hscope : (input.toResource user s id time).scope = s := by cases s <;> rfl
  refine (Resource.cluster_targets (.inl (hscope.symm ▸ h))).andThen fun _ cluster _ _ => ?_
  dsimp only
  have insert : ∀ past (r : Resource), Follows (Targets p account?) (fun past' o => ∀ x, o = .ok x →
      Handled past' r) past r.insert := by
    intro past r
    have call : Follows (Targets p account?) (fun past' o => o = .ok () → Handled past' r) past
        (Program.insert r.document) :=
      Follows.single trivial fun a ha => (Obtained.inserted (ha ▸ List.mem_concat_self)).handled
    refine call.attempt.bind (fun past' o _ ho => ?_) fun _ _ _ ho => ?_
    · obtain ⟨o', ho', hr⟩ := ho
      cases ho'
      split
      · rintro _ ⟨⟩
      · rintro _ rfl
        exact hr rfl
    · obtain ⟨o', ho', -⟩ := ho
      cases ho'
  refine (insert _ _).andThen fun past' _ _ hr => ?_
  have hr := hr () rfl
  have rest : ∀ past (r : Resource), Handled past r →
      Follows (Targets p account?) (fun _ _ => True) past (do
        Program.emit .added r
        return (← p.dispatch r .apply).2) :=
    fun past r hr => Follows.andThen (Follows.free trivial) fun _ _ hp _ =>
      (dispatch_targets (hr.mono hp) .apply).andThen fun _ _ _ _ => trivial
  cases cluster with
  | none => exact rest _ _ hr
  | some cluster =>
    refine Follows.andThen (Follows.free ⟨_, cluster, hr, rfl⟩) fun _ _ hp _ => ?_
    exact rest _ _ (hr.mono hp)

theorem recordMove_targets (h : Handled past r) :
    Follows (Targets p account?) (fun _ _ => True) past (recordMove r) := by
  unfold recordMove
  split
  · refine Follows.andThen (Follows.free ⟨r, _, h, rfl⟩) fun _ _ hp _ => ?_
    split
    · exact Follows.andThen (Follows.free (.inr ⟨r, h.mono hp, rfl⟩)) fun _ _ _ _ => trivial
    · trivial
  · split
    · exact Follows.andThen (Follows.free (.inr ⟨r, h, rfl⟩)) fun _ _ _ _ => trivial
    · exact Follows.andThen (Follows.free ⟨r, h, rfl⟩) fun _ _ _ _ => trivial

theorem tryUpdate_targets (h : Owns account? s) (user : User) (input : ResourceInput) :
    Follows (Targets p account?) (fun _ _ => True) past (p.tryUpdate user s input) := by
  refine (Resource.get_targets h input.kind input.name).andThen fun _ current _ hread => ?_
  split
  · trivial
  split
  · trivial
  refine Follows.andThen (Follows.free trivial) fun _ time hp _ => ?_
  have hread := (hread current rfl).mono hp
  -- The scope is that of what was read, whatever is asked for.
  have law : Targets p account? _ (.resolve (input.revise current user time).scope) :=
    .inr ⟨current, hread.handled, rfl⟩
  refine (Resource.cluster_targets law).andThen fun past' cluster hp _ => ?_
  have hread := hread.mono hp
  let e : Edit := ⟨current, .revise input user time cluster⟩
  have patched : Follows (Targets p account?)
      (fun past'' o => o = .ok true → ⟨e.call, .ok true⟩ ∈ past'') past'
      (current.patchAtVersion (e.apply current).revision) :=
    Follows.single ⟨current, hread.handled, rfl, .inr ⟨_, rfl⟩⟩ fun a ha =>
      ha ▸ List.mem_concat_self
  refine patched.andThen fun past'' hit hp hhit => ?_
  cases hit with
  | false => trivial
  | true =>
    have hr : Handled past'' (e.apply e.current) :=
      (Obtained.revised rfl (hread.mono hp) (hhit rfl)).handled
    have sent : ∀ past, past'' <+: past → Follows (Targets p account?) (fun _ _ => True) past (do
        Program.emit .updated (e.apply e.current)
        return some (← p.dispatch (e.apply e.current) .apply).2) := by
      intro past hp
      refine Follows.andThen (Follows.free trivial) fun _ _ hp' _ => ?_
      exact (dispatch_targets (hr.mono (hp.trans hp')) .apply).andThen fun _ _ _ _ => trivial
    simp only [if_true]
    split
    · exact (recordMove_targets hr).andThen fun _ _ hp _ => sent _ hp
    · exact sent _ (List.prefix_refl _)

theorem update_targets (h : Owns account? s) (user : User) (input : ResourceInput) :
    Follows (Targets p account?) (fun _ _ => True) past (p.update user s input) := by
  have within : ∀ attempts past, Follows (Targets p account?) (fun _ _ => True) past
      (p.updateWithin user s input attempts) := by
    intro attempts
    induction attempts with
    | zero => exact fun _ => trivial
    | succ attempts ih =>
      intro past
      refine (tryUpdate_targets h user input).andThen fun past' o _ _ => ?_
      cases o with
      | none => exact ih past'
      | some r => trivial
  refine Follows.andThen (Follows.known _) fun _ _ _ _ => ?_
  exact Follows.andThen (Follows.free trivial) fun _ _ _ _ => within updateAttempts _

/-! ### Reports -/

theorem resend_targets (h : Handled past r) :
    Follows (Targets p account?) (fun _ _ => True) past (p.resend r) :=
  (settle_targets h).andThen fun _ _ _ _ => trivial

theorem resendChanged_targets (h : Handled past r) :
    Follows (Targets p account?) (fun _ _ => True) past (p.resendChanged r) := by
  refine (Resource.findOne_reads r.kind (.byId r.id) (.inr ⟨r, h, rfl, rfl⟩)).andThen
    fun _ o _ ho => ?_
  cases o with
  | none => trivial
  | some current => exact resend_targets (ho current rfl).handled

theorem takeStatus_targets (h : Handled past r) (report : Wire.Report) :
    Follows (Targets p account?) (fun _ _ => True) past (p.takeStatus r report) := by
  unfold takeStatus
  split
  · exact resend_targets h
  refine Follows.andThen (Follows.known _) fun _ status hp _ => ?_
  have h := h.mono hp
  refine Follows.andThen (Follows.free ⟨r, h, rfl, .inr ⟨_, rfl⟩⟩) fun _ hit hp _ => ?_
  split
  · exact Follows.andThen (Follows.free trivial) fun _ _ _ _ => trivial
  · exact resendChanged_targets (h.mono hp)

theorem takeError_targets (h : Handled past r) (report : Wire.Report) (message : String) :
    Follows (Targets p account?) (fun _ _ => True) past (p.takeError r report message) := by
  unfold takeError
  split
  · exact resend_targets h
  refine Follows.andThen (Follows.free ⟨r, h, rfl, .inr ⟨_, rfl⟩⟩) fun _ hit hp _ => ?_
  split
  · exact Follows.andThen (Follows.free trivial) fun _ _ _ _ => trivial
  · exact resendChanged_targets (h.mono hp)

theorem takeDeletion_targets (h : Handled past r) (report : Wire.Report) :
    Follows (Targets p account?) (fun _ _ => True) past (p.takeDeletion r report) := by
  unfold takeDeletion
  split
  · exact (Resource.remove_targets h).andThen fun _ _ _ _ => trivial
  · exact resend_targets h

theorem route_targets (report : Wire.Report) :
    Follows (Targets p (some report.accountName)) (fun _ _ => True) past (p.route report) := by
  have asks : AsksFor (some report.accountName) (.reported report) := by
    rintro _ ⟨⟩
    exact ⟨_, rfl⟩
  unfold route
  split
  · refine (Resource.findOne_reads report.resourceKind _ (.inl asks)).andThen fun _ o _ ho => ?_
    cases o with
    | none => trivial
    | some r =>
      have h := (ho r rfl).handled
      cases report.kind with
      | statusUpdate => exact takeStatus_targets h report
      | deleteConfirmation => exact takeDeletion_targets h report
      | applyError message => exact takeError_targets h report message
  · trivial

end ControlPlane

/-- Whatever the answers are, all calls of an operation are about what it handles, or they ask for
its account. -/
theorem Operation.targets (p : ControlPlane) (operation : Operation) :
    Follows (Targets p operation.account?) (fun _ _ => True) [] (operation.program p) := by
  have owns : ∀ s : Scope, Owns (some s.accountName) s := fun s a ha => Option.some.inj ha
  have map : ∀ {account? : Option String} {α : Type} {q : Program α} {f : α → Outcome},
      Follows (Targets p account?) (fun _ _ => True) [] q →
      Follows (Targets p account?) (fun _ _ => True) [] (f <$> q) :=
    fun h => h.map (fun _ _ _ _ => trivial) fun _ _ _ _ => trivial
  cases operation with
  | create user s input => exact map (ControlPlane.create_targets (owns s) user input)
  | update user s input => exact map (ControlPlane.update_targets (owns s) user input)
  | delete user kind s name => exact map (ControlPlane.delete_targets (owns s) user kind name)
  | resync user kind s name => exact map (ControlPlane.resync_targets (owns s) user kind name)
  | resyncScope user s => exact map (ControlPlane.resyncScope_targets (owns s) user)
  | detachScope user s purge => exact map (ControlPlane.detachScope_targets (owns s) user purge)
  | resyncStale age => exact map (ControlPlane.resyncStale_targets age)
  | ingest payload =>
    cases h : (Operation.ingest payload).report? with
    | none =>
      have hread : ∃ e, ControlPlane.readReport payload = .error e := by
        cases hr : ControlPlane.readReport payload with
        | error e => exact ⟨e, rfl⟩
        | ok report => rw [report?, hr] at h; cases h
      obtain ⟨e, hread⟩ := hread
      rw [program, ControlPlane.ingest, hread]
      trivial
    | some report =>
      rw [account?, h]
      exact follows_of_route p h (ControlPlane.route_targets report)
  | route report => exact map (ControlPlane.route_targets report)

end FleetSync
