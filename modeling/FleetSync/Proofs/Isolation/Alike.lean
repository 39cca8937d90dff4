import FleetSync.Proofs.Interleaving.System

/-!
# Programs that do alike

Where on the bus a message comes to stand depends on all that was published there. An operation
hands this on but does not go by it: whatever it is, the operation makes the same calls and ends
alike (`Operation.alike`). Most programs end the same, whatever it is (`Program.Steady`), since only
what is said of a dispatch holds the offset of its message (`DispatchOutcome.Alike`).
-/

namespace FleetSync

/-- Whether two exchanges are the same, but for where a message came to stand. -/
inductive Exchange.Alike : Exchange → Exchange → Prop
  | same (x : Exchange) : Alike x x
  | published {topic key : String} {payload : ByteArray} (offset offset' : Nat) :
    Alike ⟨.publish topic key payload, .ok offset⟩ ⟨.publish topic key payload, .ok offset'⟩

theorem Exchange.Alike.eq {c : Call} {a b : c.Answer} (h : Alike ⟨c, a⟩ ⟨c, b⟩)
    (hc : ∀ topic key payload, c ≠ .publish topic key payload) : a = b := by
  cases h with
  | same => rfl
  | published => exact absurd rfl (hc _ _ _)

/-- Whether two outcomes are the same, but for where the message stands. -/
inductive DispatchOutcome.Alike : DispatchOutcome → DispatchOutcome → Prop
  | noCluster : Alike .noCluster .noCluster
  | dispatched {cluster topic : String} (offset offset' : Nat) :
    Alike (.dispatched cluster topic offset) (.dispatched cluster topic offset')

theorem DispatchOutcome.Alike.cluster?_eq {d d' : DispatchOutcome} (h : d.Alike d') :
    d.cluster? = d'.cluster? := by cases h <;> rfl

theorem DispatchOutcome.Alike.count_eq {d d' : DispatchOutcome} (h : d.Alike d') :
    d.count = d'.count := by cases h <;> rfl

/-- Whether two outcomes are the same, but for where a message stands. -/
inductive Outcome.Alike : Outcome → Outcome → Prop
  | same (o : Outcome) : Alike o o
  | dispatch {d d' : DispatchOutcome} (h : d.Alike d') : Alike (.dispatch d) (.dispatch d')

namespace Program

variable {α β : Type}

/-- Whether two programs make the same calls and end with related results, as long as they are
answered alike. -/
inductive Alike (R : α → α → Prop) : Program α → Program α → Prop
  | error (e : OpError) : Alike R (done (.error e)) (done (.error e))
  | ok {a b : α} (h : R a b) : Alike R (done (.ok a)) (done (.ok b))
  | call {c : Call} {next next' : c.Answer → Program α}
    (h : ∀ a b, Exchange.Alike ⟨c, a⟩ ⟨c, b⟩ → Alike R (next a) (next' b)) :
    Alike R (call c next) (call c next')

/-- Whether a program makes the same calls and ends the same, wherever messages come to stand. -/
def Steady (p : Program α) : Prop := Alike Eq p p

theorem Alike.bind {R : α → α → Prop} {S : β → β → Prop} {p p' : Program α}
    {f f' : α → Program β} (h : Alike R p p') (hf : ∀ a b, R a b → Alike S (f a) (f' b)) :
    Alike S (p >>= f) (p' >>= f') := by
  induction h with
  | error e => exact .error e
  | ok h => exact hf _ _ h
  | call _ ih => exact .call ih

theorem Alike.mono {R S : α → α → Prop} {p p' : Program α} (h : Alike R p p')
    (hR : ∀ a b, R a b → S a b) : Alike S p p' := by
  induction h with
  | error e => exact .error e
  | ok h => exact .ok (hR _ _ h)
  | call _ ih => exact .call ih

namespace Steady

variable {p : Program α} {S : β → β → Prop}

theorem done (r : Except OpError α) : (Program.done r).Steady := by
  cases r with
  | error e => exact .error e
  | ok a => exact .ok rfl

/-- All calls but one are answered the same if they are answered alike. -/
theorem call {c : Call} {next : c.Answer → Program α}
    (hc : ∀ topic key payload, c ≠ .publish topic key payload) (h : ∀ a, (next a).Steady) :
    (Program.call c next).Steady :=
  Alike.call fun a _ hab => hab.eq hc ▸ h a

theorem alike_bind {f f' : α → Program β} (h : p.Steady) (hf : ∀ a, Alike S (f a) (f' a)) :
    Alike S (p >>= f) (p >>= f') :=
  Alike.bind h fun a _ hab => hab ▸ hf a

theorem bind {f : α → Program β} (h : p.Steady) (hf : ∀ a, (f a).Steady) : (p >>= f).Steady :=
  h.alike_bind hf

theorem map (h : p.Steady) (f : α → β) : (f <$> p).Steady := h.bind fun _ => done _

theorem attempt (h : p.Steady) : p.attempt.Steady := by
  have alike : ∀ {p p' : Program α}, Alike Eq p p' → Alike Eq p.attempt p'.attempt := by
    intro p p' h
    induction h with
    | error e => exact .ok rfl
    | ok h => exact .ok (congrArg _ h)
    | call _ ih => exact .call ih
  exact alike h

theorem total {count : α → Program Nat} (h : ∀ a, (count a).Steady) (items : List α) :
    (Program.total count items).Steady := by
  induction items with
  | nil => exact done _
  | cons a rest ih => exact (h a).bind fun _ => ih.bind fun _ => done _

theorem forEach {act : α → Program Unit} (h : ∀ a, (act a).Steady) (items : List α) :
    (Program.forEach act items).Steady := by
  induction items with
  | nil => exact done _
  | cons a rest ih => exact (h a).bind fun _ => ih

/-- A single call. -/
theorem free {c : Call} {f : c.Answer → Except OpError α}
    (hc : ∀ topic key payload, c ≠ .publish topic key payload) :
    (Program.call c fun a => .done (f a)).Steady := call hc fun _ => done _

end Steady

/-- Where a message comes to stand is handed on. -/
theorem alike_publish (topic key : String) (payload : ByteArray) :
    Alike (fun _ _ => True) (publish topic key payload) (publish topic key payload) := by
  refine .call fun a b h => ?_
  cases h with
  | same => exact (Steady.done a).mono fun _ _ _ => trivial
  | published => exact .ok trivial

end Program

open Program (Steady)

variable {r : Resource} {kind : Kind} {s : Scope}

namespace Resource

theorem findOne_steady (kind : Kind) (filter : Filter) : (findOne kind filter).Steady := by
  refine Steady.bind (Steady.free nofun) fun doc => ?_
  cases doc with
  | none => exact .done _
  | some j => exact Steady.bind (.done _) fun _ => .done _

theorem findAll_steady (kind : Kind) (filter : Filter) : (findAll kind filter).Steady :=
  Steady.bind (Steady.free nofun) fun _ => .done _

theorem get_steady (kind : Kind) (s : Scope) (name : String) : (get kind s name).Steady := by
  refine Steady.bind (findOne_steady ..) fun r => ?_
  cases r <;> exact .done _

theorem members_steady (kind : Kind) (s : Scope) : (members kind s).Steady := by
  unfold members
  split
  · exact findAll_steady ..
  · exact .done _

theorem cluster_steady (r : Resource) : r.cluster.Steady := by
  unfold cluster
  split
  · exact .done _
  · exact Steady.free nofun

theorem remove_steady (r : Resource) : r.remove.Steady :=
  Steady.bind (Steady.free nofun) fun _ => Steady.bind (Steady.free nofun) fun _ =>
    Steady.free nofun

theorem patch_steady (r : Resource) (patch : Patch) : (r.patch patch).Steady := Steady.free nofun

theorem patchAtVersion_steady (r : Resource) (patch : Patch) : (r.patchAtVersion patch).Steady :=
  Steady.free nofun

theorem insert_steady (r : Resource) : r.insert.Steady := by
  refine Steady.bind (Steady.attempt (Steady.free nofun)) fun result => ?_
  split <;> exact .done _

end Resource

theorem Scope.requireOwner_steady (s : Scope) (kind : Kind) : (s.requireOwner kind).Steady := by
  unfold requireOwner
  split
  · exact .done _
  · refine Steady.bind (Steady.free nofun) fun doc => ?_
    cases doc with
    | none => exact .done _
    | some doc =>
      dsimp only
      split <;> exact .done _

namespace ControlPlane

variable (p : ControlPlane)

/-! ### Dispatches -/

/-- Whether two dispatches went alike and left the same resource. -/
def DispatchAlike (x y : DispatchOutcome × Resource) : Prop := x.1.Alike y.1 ∧ x.2 = y.2

theorem DispatchAlike.sent {x y : DispatchOutcome × Resource} (h : DispatchAlike x y) :
    (∃ r, x = (.noCluster, r) ∧ y = (.noCluster, r)) ∨ ∃ cluster topic offset offset' r,
      x = (.dispatched cluster topic offset, r) ∧ y = (.dispatched cluster topic offset', r) := by
  obtain ⟨outcome, r⟩ := x
  obtain ⟨outcome', r'⟩ := y
  obtain ⟨h, rfl⟩ : outcome.Alike outcome' ∧ r = r' := h
  cases h with
  | noCluster => exact .inl ⟨r, rfl, rfl⟩
  | dispatched offset offset' => exact .inr ⟨_, _, offset, offset', r, rfl, rfl⟩

theorem send_alike (r : Resource) (action : SyncAction) :
    Program.Alike DispatchOutcome.Alike (p.send r action) (p.send r action) := by
  refine (r.cluster_steady).alike_bind fun cluster => ?_
  cases cluster with
  | none => exact .ok .noCluster
  | some cluster =>
    refine (Steady.done _).alike_bind fun frame => ?_
    exact (Program.alike_publish ..).bind fun _ _ _ => .ok (.dispatched ..)

theorem dispatch_alike (r : Resource) (action : SyncAction) :
    Program.Alike DispatchAlike (p.dispatch r action) (p.dispatch r action) := by
  refine (p.send_alike r action).bind fun outcome outcome' h => ?_
  -- What follows goes by the cluster only, which is the same.
  rw [← h.cluster?_eq]
  split
  · split
    · exact .ok ⟨h, rfl⟩
    · refine (r.patch_steady _).alike_bind fun _ => ?_
      exact Steady.alike_bind (Steady.free nofun) fun _ => .ok ⟨h, rfl⟩
  · refine (r.patch_steady _).alike_bind fun _ => ?_
    exact Steady.alike_bind (Steady.free nofun) fun _ => .ok ⟨h, rfl⟩
  · exact .ok ⟨h, rfl⟩

theorem dispatched_steady (r : Resource) (action : SyncAction) :
    Program.Steady (Prod.snd <$> p.dispatch r action) :=
  (p.dispatch_alike r action).bind fun _ _ h => .ok h.2

theorem settle_alike (r : Resource) : Program.Alike DispatchAlike (p.settle r) (p.settle r) := by
  refine (p.dispatch_alike r r.pendingAction).bind fun x y h => ?_
  obtain ⟨r', rfl, rfl⟩ | ⟨cluster, topic, offset, offset', r', rfl, rfl⟩ := h.sent
  · dsimp only
    split
    · exact (r'.remove_steady).alike_bind fun _ => .ok ⟨.noCluster, rfl⟩
    · exact .ok ⟨.noCluster, rfl⟩
  · simp only [reduceCtorEq, false_and, if_false]
    exact .ok ⟨.dispatched .., rfl⟩

theorem requeue_alike (r : Resource) :
    Program.Alike DispatchOutcome.Alike (p.requeue r) (p.requeue r) := by
  refine Steady.alike_bind (Steady.free nofun) fun time => ?_
  refine (Resource.patch_steady _ _).alike_bind fun _ => ?_
  refine (p.settle_alike _).bind fun x y h => ?_
  obtain ⟨r', rfl, rfl⟩ | ⟨cluster, topic, offset, offset', r', rfl, rfl⟩ := h.sent
  · dsimp only
    split
    · exact Steady.alike_bind (Steady.free nofun) fun _ => .ok .noCluster
    · exact .ok .noCluster
  · simp only [reduceCtorEq, false_and, not_false_eq_true, if_true]
    exact Steady.alike_bind (Steady.free nofun) fun _ => .ok (.dispatched ..)

/-! ### Changes -/

theorem create_steady (user : User) (s : Scope) (input : ResourceInput) :
    (p.create user s input).Steady := by
  refine Steady.bind (.done _) fun _ => Steady.bind (.done _) fun _ => ?_
  refine Steady.bind (Steady.free nofun) fun _ => (s.requireOwner_steady _).bind fun _ => ?_
  refine Steady.bind (Steady.free nofun) fun time => Steady.bind (Steady.free nofun) fun id => ?_
  refine (Resource.cluster_steady _).bind fun cluster => ?_
  refine (Resource.insert_steady _).bind fun _ => ?_
  have rest : ∀ r : Resource, Program.Steady (do
      Program.emit .added r
      return (← p.dispatch r .apply).2) :=
    fun r => Steady.bind (Steady.free nofun) fun _ => p.dispatched_steady r .apply
  cases cluster with
  | none => exact rest _
  | some cluster => exact Steady.bind (Steady.free nofun) fun _ => rest _

theorem recordMove_steady (r : Resource) : (recordMove r).Steady := by
  unfold recordMove
  split
  · refine Steady.bind (Steady.free nofun) fun _ => ?_
    split
    · exact Steady.bind (Steady.free nofun) fun _ => .done _
    · exact .done _
  · split <;> exact Steady.bind (Steady.free nofun) fun _ => .done _

theorem tryUpdate_steady (user : User) (s : Scope) (input : ResourceInput) :
    (p.tryUpdate user s input).Steady := by
  refine (Resource.get_steady ..).bind fun current => ?_
  split
  · exact .done _
  split
  · exact .done _
  refine Steady.bind (Steady.free nofun) fun time => (Resource.cluster_steady _).bind fun _ => ?_
  refine (Resource.patchAtVersion_steady _ _).bind fun hit => ?_
  have sent : ∀ r : Resource, Program.Steady (do
      Program.emit .updated r
      return some (← p.dispatch r .apply).2) :=
    fun r => Steady.bind (Steady.free nofun) fun _ =>
      (p.dispatch_alike r .apply).bind fun _ _ h => .ok (congrArg some h.2)
  split
  · split
    · exact (recordMove_steady _).bind fun _ => sent _
    · exact sent _
  · exact .done _

theorem update_steady (user : User) (s : Scope) (input : ResourceInput) :
    (p.update user s input).Steady := by
  have within : ∀ attempts, (p.updateWithin user s input attempts).Steady := by
    intro attempts
    induction attempts with
    | zero => exact .done _
    | succ attempts ih =>
      refine (p.tryUpdate_steady user s input).bind fun o => ?_
      cases o with
      | none => exact ih
      | some r => exact .done _
  exact Steady.bind (.done _) fun _ => Steady.bind (Steady.free nofun) fun _ => within _

theorem delete_steady (user : User) (kind : Kind) (s : Scope) (name : String) :
    (p.delete user kind s name).Steady := by
  refine Steady.bind (.done _) fun _ => Steady.bind (Steady.free nofun) fun _ => ?_
  refine (Resource.get_steady ..).bind fun current => Steady.bind (Steady.free nofun) fun time => ?_
  refine (Resource.patch_steady _ _).bind fun hit => ?_
  split
  · refine (p.dispatch_alike _ .delete).bind fun x y h => ?_
    obtain ⟨r, rfl, rfl⟩ | ⟨cluster, topic, offset, offset', r, rfl, rfl⟩ := h.sent
    · exact (Resource.remove_steady _).bind fun _ => .done _
    · exact Steady.bind (Steady.free nofun) fun _ => .done _
  · exact .done _

theorem resync_alike (user : User) (kind : Kind) (s : Scope) (name : String) :
    Program.Alike DispatchOutcome.Alike (p.resync user kind s name) (p.resync user kind s name) :=
  Steady.alike_bind (.done _) fun _ => Steady.alike_bind (Steady.free nofun) fun _ =>
    (Resource.get_steady ..).alike_bind fun _ => p.requeue_alike _

/-! ### Sweeps -/

theorem requeued_steady (r : Resource) : Program.Steady (do return (← p.requeue r).count) :=
  (p.requeue_alike r).bind fun _ _ h => .ok h.count_eq

theorem resyncScope_steady (user : User) (s : Scope) : (p.resyncScope user s).Steady := by
  refine Steady.bind (.done _) fun _ => Steady.bind (Steady.free nofun) fun _ => ?_
  exact Steady.total (fun kind => (Resource.members_steady kind s).bind fun rs =>
    Steady.total p.requeued_steady rs) _

theorem countOrZero_steady {count : Program Nat} (h : count.Steady) :
    (countOrZero count).Steady := h.attempt.bind fun _ => .done _

theorem resyncStale_steady (age : Nat) : (p.resyncStale age).Steady := by
  unfold resyncStale
  split
  · exact .done _
  refine Steady.bind (Steady.free nofun) fun time => ?_
  split
  · exact .done _
  have settled : ∀ r, Program.Steady (do return (← p.settle r).1.count) :=
    fun r => (p.settle_alike r).bind fun _ _ h => .ok h.1.count_eq
  refine (Steady.total (fun kind => countOrZero_steady ?_) _).bind fun _ => .done _
  exact (Resource.findAll_steady ..).bind fun rs =>
    Steady.total (fun r => countOrZero_steady (settled r)) _

theorem detachOne_steady (r : Resource) : (detachOne r).Steady := by
  refine Steady.bind (Steady.free nofun) fun time => (Resource.patch_steady _ _).bind fun _ => ?_
  exact Steady.bind (Steady.free nofun) fun _ => Steady.free nofun

theorem detachMembers_steady (s : Scope) (purge : Bool) (kind : Kind) :
    (detachMembers s purge kind).Steady := by
  unfold detachMembers
  split
  · exact .done _
  refine (Resource.findAll_steady ..).bind fun rs => ?_
  have forget : ∀ r, (forget r).Steady :=
    fun r => Steady.bind (Steady.free nofun) fun _ => Steady.free nofun
  have detach : ∀ kept purged : List Resource, Program.Steady (do
      Program.forEach detachOne kept
      return (⟨kept.length, purged.length⟩ : DetachCounts)) :=
    fun kept _ => (Steady.forEach detachOne_steady kept).bind fun _ => .done _
  split
  split
  · refine Steady.bind (Steady.free nofun) fun _ => ?_
    exact (Steady.forEach forget _).bind fun _ => detach _ _
  · exact detach _ _

theorem detachScope_steady (user : User) (s : Scope) (purge : Bool) :
    (p.detachScope user s purge).Steady := by
  have detach : ∀ kinds, (detachKinds s purge kinds).Steady := by
    intro kinds
    induction kinds with
    | nil => exact .done _
    | cons kind rest ih =>
      exact (detachMembers_steady s purge kind).bind fun _ => ih.bind fun _ => .done _
  refine Steady.bind (.done _) fun _ => Steady.bind (Steady.free nofun) fun _ => ?_
  exact Steady.bind (Steady.free nofun) fun _ => (detach _).bind fun _ => .done _

/-! ### Reports -/

theorem resend_steady (r : Resource) : (p.resend r).Steady :=
  (p.settle_alike r).bind fun _ _ _ => .ok rfl

theorem resendChanged_steady (r : Resource) : (p.resendChanged r).Steady := by
  refine (Resource.findOne_steady ..).bind fun o => ?_
  cases o with
  | none => exact .done _
  | some current => exact p.resend_steady current

theorem takeReport_steady (report : Wire.Report) : (p.takeReport report).Steady := by
  refine (Resource.findOne_steady ..).bind fun o => ?_
  cases o with
  | none => exact .done _
  | some r =>
    have written : ∀ (patch : Patch) (seen : Resource) (intake : Intake), Program.Steady (do
        if ← r.patchAtVersion patch then
          Program.emit .updated seen
          return intake
        else p.resendChanged r) := by
      intro patch seen intake
      refine (r.patchAtVersion_steady patch).bind fun hit => ?_
      split
      · exact Steady.bind (Steady.free nofun) fun _ => .done _
      · exact p.resendChanged_steady r
    dsimp only
    split
    · unfold takeStatus
      split
      · exact p.resend_steady r
      · exact Steady.bind (.done _) fun _ => written ..
    · unfold takeDeletion
      split
      · exact (r.remove_steady).bind fun _ => .done _
      · exact p.resend_steady r
    · unfold takeError
      split
      · exact p.resend_steady r
      · exact written ..

theorem route_steady (report : Wire.Report) : (p.route report).Steady := by
  unfold route
  split
  · exact p.takeReport_steady report
  · exact .done _

end ControlPlane

/-- Wherever messages come to stand, an operation makes the same calls and ends alike. -/
theorem Operation.alike (p : ControlPlane) (operation : Operation) :
    Program.Alike Outcome.Alike (operation.program p) (operation.program p) := by
  have same : ∀ {α : Type} {q : Program α} (f : α → Outcome), q.Steady →
      Program.Alike Outcome.Alike (f <$> q) (f <$> q) :=
    fun f h => (h.map f).mono fun _ _ h => h ▸ .same _
  cases operation with
  | create user s input => exact same _ (p.create_steady user s input)
  | update user s input => exact same _ (p.update_steady user s input)
  | delete user kind s name => exact same _ (p.delete_steady user kind s name)
  | resync user kind s name =>
    exact (p.resync_alike user kind s name).bind fun _ _ h => .ok (.dispatch h)
  | resyncScope user s => exact same _ (p.resyncScope_steady user s)
  | detachScope user s purge => exact same _ (p.detachScope_steady user s purge)
  | resyncStale age => exact same _ (p.resyncStale_steady age)
  | ingest payload => exact same _ (Steady.bind (.done _) fun report => p.route_steady report)
  | route report => exact same _ (p.route_steady report)

end FleetSync
