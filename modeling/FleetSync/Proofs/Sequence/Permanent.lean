import FleetSync.Proofs.Intake.Faultless
import FleetSync.Proofs.Isolation.Refusals
import FleetSync.Proofs.Sequence.Risks

/-!
# Errors that do not pass

Where calls fail only as they may, a change of a single resource that ends with an error that does
not pass has left everything as it was, unless it is the error that the envelope does not fit in a
frame (`System.permanent_errors_leave`). The frame is made last of all, so by then the resource is
written, with its mapping and its event if it is created or updated (`Stores.Writes`), and it stays
in the queue for a sweep to send it. What comes before the writing is harmless
(`Stores.Leaves.harmless`), what comes after it passes or is that error
(`ControlPlane.dispatch_risks`).
-/

namespace FleetSync

namespace Stores

variable (s : Stores)

/-- The stores with one more resource, and a mapping if it has a cluster. -/
def add (r : Resource) : Stores :=
  { s with
    documents := s.documents ++ [r.stored]
    rows := if r.clusterName = none then s.rows
      else Ledger.fileIn s.rows r.mappingKey r.clusterName }

/-- The stores once the mappings followed a resource to another cluster; those of a project's
members follow it. -/
def follow (r : Resource) : Stores :=
  { s with
    rows := match r.clusterName with
      | some x =>
        let rows := Ledger.fileIn s.rows r.mappingKey (some x)
        if r.kind = .project then
          rows.map fun row => if row.inScope r.scope then { row with cluster := x } else row
        else rows
      | none =>
        if r.kind = .project then s.rows.filter (!·.inScope r.scope)
        else Ledger.fileIn s.rows r.mappingKey none }

/-- The stores with a resource in the place of what it was, and its mapping where it is now. -/
def revise (old r : Resource) : Stores :=
  if r.clusterName = old.clusterName then s.put r else (s.put r).follow r

/-- Whether a resource of a kind and name is stored in a scope. -/
structure Holds (kind : Kind) (scope : Scope) (name : String) (r : Resource) : Prop where
  mem : r.stored ∈ s.documents
  kind : r.kind = kind
  account : r.accountName = scope.accountName
  project : r.projectName = scope.projectName
  environment : r.environmentName = scope.environmentName?
  name : r.name = name

theorem Holds.of_matches {s : Stores} {kind : Kind} {scope : Scope} {name : String}
    {r : Resource} (mem : r.stored ∈ s.documents)
    (h : r.stored.matches? kind.collection (.named scope name) = true) :
    s.Holds kind scope name r := by
  obtain ⟨hkind, account, project, environment, hname⟩ := Filter.Picks.named_of_matches h
  exact ⟨mem, hkind, account, project, environment, hname⟩

/-- What an operation writes of a resource before it sends it, and what becomes of the stores. -/
inductive Writes : Operation → Resource → Stores → Prop
  | created {user : User} {scope : Scope} {input : ResourceInput} {id : String} {time : Instant}
    {r : Resource} (home : r.clusterName = s.home? r.stored)
    (drafted : r = { input.toResource user scope id time with clusterName := r.clusterName }) :
    Writes (.create user scope input) r ((s.add r).tell .added r)
  | updated {user : User} {scope : Scope} {input : ResourceInput} {time : Instant}
    {old read r : Resource} (holds : s.Holds input.kind scope input.name old)
    (readBack : old.ReadBack read) (home : r.clusterName = s.home? r.stored)
    (revised : r = Edit.apply ⟨read, .revise input user time r.clusterName⟩ old) :
    Writes (.update user scope input) r ((s.revise old r).tell .updated r)
  | buried {user : User} {kind : Kind} {scope : Scope} {name : String} {time : Instant}
    {old read : Resource} (holds : s.Holds kind scope name old) (readBack : old.ReadBack read) :
    Writes (.delete user kind scope name) (Edit.apply ⟨read, .bury user time⟩ old)
      (s.put (Edit.apply ⟨read, .bury user time⟩ old))
  | requeued {user : User} {kind : Kind} {scope : Scope} {name : String} {time : Instant}
    {old read : Resource} (holds : s.Holds kind scope name old) (readBack : old.ReadBack read) :
    Writes (.resync user kind scope name) (Edit.apply ⟨read, .requeue time⟩ old)
      (s.put (Edit.apply ⟨read, .requeue time⟩ old))

/-- What an operation that ends with an error leaves behind. -/
inductive Leaves (operation : Operation) : OpError → Stores → Prop
  | nothing {e : OpError} (other : ∀ details, e ≠ .frame details) : Leaves operation e s
  /-- The resource is written, but not sent. -/
  | unsent {details : String} {r : Resource} {s' : Stores} (writes : s.Writes operation r s')
    (queued : r.syncStatus.state = .inQueue) : Leaves operation (.frame details) s'

variable {s} {s' : Stores} {operation : Operation} {r : Resource} {e : OpError}

/-- A resource belongs where its kind, its spec and its scope say. -/
theorem home?_eq (s : Stores) (r : Resource) : s.home? r.stored =
    if r.kind = .project then r.spec.bound else (MappingIndex.mk s.rows).resolve r.scope := by
  rw [home?, r.kind_stored, r.card_stored]
  split
  · exact r.specCluster?_stored ‹_›
  · rfl

/-- The mappings follow a resource by its key and its cluster. -/
theorem follow_congr (s : Stores) {r' : Resource} (hkey : r'.mappingKey = r.mappingKey)
    (hcluster : r'.clusterName = r.clusterName) : s.follow r' = s.follow r := by
  have hkind : r'.kind = r.kind := congrArg MappingKey.kind hkey
  have hscope : r'.scope = r.scope := congrArg MappingKey.scope hkey
  rw [follow, follow, hkey, hcluster, hkind, hscope]

theorem Writes.queued (h : s.Writes operation r s') : r.syncStatus.state = .inQueue := by
  cases h with
  | created home drafted =>
    rw [drafted]
    rfl
  | updated holds readBack home revised =>
    rw [revised]
    rfl
  | buried | requeued => rfl

theorem Writes.bus (h : s.Writes operation r s') : s'.bus = s.bus := by
  cases h with
  | updated =>
    rw [revise]
    split <;> rfl
  | _ => rfl

/-- An error that comes before anything is written leaves nothing. -/
theorem Leaves.harmless {w : World} (other : ∀ details, e ≠ .frame details)
    (same : w.stores = s) : s.Leaves operation e w.stores := by
  rw [same]
  exact .nothing other

/-- Nothing is published by what ends with an error of its own. -/
theorem Leaves.bus (h : s.Leaves operation e s') : s'.bus = s.bus := by
  cases h with
  | nothing => rfl
  | unsent writes => exact writes.bus

end Stores

/-! ## Checks -/

theorem Name.check_error {field value : String} {e : OpError}
    (h : Name.check field value = .error e) : ∃ reason, e = .invalid field reason := by
  unfold check at h
  split_ifs at h <;> exact ⟨_, (Except.error.inj h).symm⟩

/-- Checks that fail one after the other. -/
theorem error_of_seq {ε : Type} {x y : Except ε Unit} {e : ε} (h : (do x; y) = .error e) :
    x = .error e ∨ y = .error e := by
  cases x with
  | error e' => exact .inl h
  | ok u => exact .inr h

theorem Scope.check_error {s : Scope} {e : OpError} (h : s.check = .error e) :
    ∃ field reason, e = .invalid field reason := by
  unfold check at h
  rcases error_of_seq h with h | h
  · exact ⟨_, Name.check_error h⟩
  rcases error_of_seq h with h | h
  · exact ⟨_, Name.check_error h⟩
  cases he : s.environmentName? with
  | none => rw [he] at h; cases h
  | some e => rw [he] at h; exact ⟨_, Name.check_error h⟩

/-- What an operation checks of its arguments it calls invalid. -/
theorem Operation.check_error {operation : Operation} {e : OpError}
    (h : operation.check = .error e) : ∃ field reason, e = .invalid field reason := by
  cases operation with
  | create user s input =>
    rcases error_of_seq h with h | h
    · rcases error_of_seq h with h | h
      · exact ⟨_, Name.check_error h⟩
      · exact ⟨_, Name.check_error h⟩
    · rcases error_of_seq h with h | h
      · exact Scope.check_error h
      · split_ifs at h
        · exact ⟨_, _, (Except.error.inj h).symm⟩
        · exact ⟨_, _, (Except.error.inj h).symm⟩
        · cases h
  | update | delete | resync | resyncScope | detachScope => exact Scope.check_error h
  | resyncStale | ingest | route => cases h

/-! ## Programs -/

section Programs

variable {bad : OpError → World → Prop} {w : World} {p : ControlPlane} {r : Resource}

namespace Resource

/-- What is read of a resource that is looked up is stored. -/
theorem get_risks (kind : Kind) (scope : Scope) (name : String)
    (hbad : ∀ e w', (∀ details, e ≠ .frame details) → w'.stores = w.stores → bad e w') :
    (get kind scope name).Risks (fun read w' => w'.stores = w.stores ∧
      ∃ r, w.stores.Holds kind scope name r ∧ r.ReadBack read) bad w := by
  refine Program.Risks.tidy fun ht => ?_
  have found : (find kind scope name).Risks (fun o w' => w'.stores = w.stores ∧
      ∀ read, o = some read → ∃ r, w.stores.Holds kind scope name r ∧ r.ReadBack read) bad w := by
    refine Program.Risks.bind (Program.findOne_risks kind.collection (.named scope name) hbad)
      fun o w₁ h₁ => ?_
    obtain ⟨hw₁, ho⟩ := h₁
    cases o with
    | none => exact Program.Risks.done ⟨hw₁, fun _ h => by cases h⟩
    | some j =>
      obtain ⟨d, hfirst, hj⟩ := DocumentStore.find?_of_findOne ho
      have hmem := List.mem_of_find?_eq_some hfirst
      have hmatch := List.find?_some hfirst
      obtain ⟨r, -, rfl⟩ := ht.sound d hmem
      have hkind : r.kind = kind :=
        Kind.collection_inj (DocumentStore.collection_of_matches? hmatch)
      dsimp only
      cases hread : ofDocument kind j with
      | error e =>
        refine Program.Risks.fail (hbad e w₁ ?_ hw₁)
        rintro details rfl
        rw [ofDocument] at hread
        cases hd : (decode kind).ofJson j with
        | ok a => rw [hd] at hread; cases hread
        | error failure => rw [hd] at hread; cases hread
      | ok read =>
        refine Program.Risks.done ⟨hw₁, fun read' h => ?_⟩
        obtain rfl := Option.some.inj h
        have holds : Filter.holds? (.named scope name) r.stored.body = some true :=
          eq_of_beq (Bool.and_eq_true_iff.1 hmatch).2
        exact ⟨r, .of_matches hmem hmatch, resembles_of_read hkind hj hread,
          Filter.isReadable_of_holds? holds, shows_of_read hkind hj hread⟩
  refine found.bind fun o w₁ h₁ => ?_
  cases o with
  | none => exact Program.Risks.fail (hbad _ _ (fun _ h => by cases h) h₁.1)
  | some read => exact Program.Risks.done ⟨h₁.1, h₁.2 read rfl⟩

/-- A resource knows the cluster that it belongs to, or looks it up. -/
theorem cluster_risks (r : Resource) : r.cluster.Risks
    (fun o w' => o = w.stores.home? r.stored ∧ w'.stores = w.stores) bad w := by
  have hhome : w.stores.home? r.stored = w.ledger.target r.card := by
    rw [← r.card_stored, w.target_card]
    rfl
  rw [cluster_eq, hhome, Ledger.target]
  split
  · exact Program.Risks.done ⟨rfl, rfl⟩
  · exact Program.resolve_risks r.scope

theorem insert_risks (r : Resource)
    (hbad : ∀ e w', (∀ details, e ≠ .frame details) → w'.stores = w.stores → bad e w') :
    r.insert.Risks (fun _ w' => w'.stores =
      { w.stores with documents := w.stores.documents ++ [r.stored] }) bad w := by
  unfold insert
  have inserted : (Program.insert r.document).Risks (fun _ w' => w'.stores =
      { w.stores with documents := w.stores.documents ++ [r.stored] })
      (fun e w' => (∀ details, e ≠ .frame details) ∧ w'.stores = w.stores) w :=
    Program.insert_risks r fun _ _ other same => ⟨other, same⟩
  refine inserted.attempt.bind fun result w₁ h₁ => ?_
  cases result with
  | ok u => exact Program.Risks.done h₁
  | error e =>
    cases e with
    | database | bus => exact fun _ => .inl rfl
    | frame details => exact absurd rfl ((h₁.resolve_left nofun).1 details)
    | _ => exact Program.Risks.fail (hbad _ _ nofun (h₁.resolve_left nofun).2)

theorem remove_passes (r : Resource) : r.remove.Passes w := by
  refine (Program.deleteOne_passes _ _).bind fun _ w₁ => ?_
  refine (Program.Passes.of_risks (Program.removeMapping_risks r.mappingKey)).bind fun _ w₂ => ?_
  exact .of_risks (Program.emit_risks .deleted r)

end Resource

theorem Scope.requireOwner_risks (s : Scope) (kind : Kind)
    (hbad : ∀ e w', (∀ details, e ≠ .frame details) → w'.stores = w.stores → bad e w') :
    (s.requireOwner kind).Risks (fun _ w' => w'.stores = w.stores) bad w := by
  unfold requireOwner
  split
  · exact Program.Risks.done rfl
  refine (Program.findOne_risks s.ownerKind.collection (.owner s) hbad).bind fun o w₁ h₁ => ?_
  cases o with
  | none => exact Program.Risks.fail (hbad _ _ nofun h₁.1)
  | some doc =>
    dsimp only
    split
    · exact Program.Risks.fail (hbad _ _ nofun h₁.1)
    · exact Program.Risks.done h₁.1

namespace ControlPlane

/-- Sending a resource passes, or the envelope does not fit in a frame. -/
theorem send_risks (r : Resource) (action : SyncAction)
    (hbad : ∀ details w', w'.stores = w.stores → bad (.frame details) w') :
    (p.send r action).Risks (fun _ _ => True) bad w := by
  refine r.cluster_risks.bind fun o w₁ h₁ => ?_
  cases o with
  | none => exact Program.Risks.done trivial
  | some x =>
    dsimp only
    cases Wire.Frame.ofEnvelope (r.envelope x action) with
    | error e => exact Program.Risks.fail (hbad e.message w₁ h₁.2)
    | ok frame =>
      refine (Program.publish_passes (p.topicOf x) r.namespaceName frame.toBytes).risks.bind
        fun n w₂ _ => ?_
      exact Program.Risks.done trivial

theorem dispatch_risks (r : Resource) (action : SyncAction)
    (hbad : ∀ details w', w'.stores = w.stores → bad (.frame details) w') :
    (p.dispatch r action).Risks (fun _ _ => True) bad w := by
  refine (send_risks r action hbad).bind fun outcome w₁ _ => ?_
  have attached : ∀ o, (r.patch [.set ["cluster_name"] (.ofOption .str o)]).Passes w₁ :=
    fun _ => Program.patchOne_passes _ _ rfl
  refine Program.Passes.risks ?_
  cases hx : outcome.cluster? with
  | some x =>
    dsimp only
    split
    · exact .done
    · refine (attached (some x)).bind fun _ w₂ => ?_
      exact (Program.Passes.of_risks (Program.upsert_risks r x)).bind fun _ w₃ => .done
  | none =>
    cases r.clusterName with
    | some recorded =>
      refine (attached none).bind fun _ w₂ => ?_
      exact (Program.Passes.of_risks (Program.removeMapping_risks r.mappingKey)).bind
        fun _ w₃ => .done
    | none => exact .done

/-- What a change ends with: the resource is announced and sent. -/
theorem announce_risks {α : Type} (kind : EventKind) (r : Resource) (result : Resource → α)
    (hbad : ∀ details w', w'.stores = w.stores.tell kind r → bad (.frame details) w') :
    Program.Risks (fun a _ => ∃ r', a = result r') bad (do
      Program.emit kind r
      return result (← p.dispatch r .apply).2) w := by
  refine (Program.emit_risks kind r).bind fun _ w' h' => ?_
  rw [← h'] at hbad
  exact (dispatch_risks r .apply hbad).bind fun o _ _ => Program.Risks.done ⟨o.2, rfl⟩

theorem requeue_risks (read : Resource) (hr : r.stored ∈ w.stores.documents)
    (readBack : r.ReadBack read)
    (hbad : ∀ details time w', w'.stores = w.stores.put (Edit.apply ⟨read, .requeue time⟩ r) →
      bad (.frame details) w') :
    (p.requeue read).Risks (fun _ _ => True) bad w := by
  refine Program.now_risks.bind fun time w₁ h₁ => ?_
  have queued : (Program.patchOne read.kind.collection (.byId read.id) [.set ["sync_status"]
      (read.syncStatus.queued read.pendingAction time).encode]).Risks
        (fun hit w' => hit = true ∧
          w'.stores = w.stores.put (Edit.apply ⟨read, .requeue time⟩ r)) bad w₁ :=
    h₁ ▸ Edit.risks (e := ⟨read, .requeue time⟩) (h₁ ▸ hr) readBack rfl
  refine queued.bind fun _ w₂ h₂ => ?_
  have settled : ∀ r' : Resource, (p.settle r').Risks (fun _ _ => True) bad w₂ := by
    intro r'
    refine (dispatch_risks r' r'.pendingAction fun details w' h =>
      hbad details time w' (h.trans h₂.2)).bind fun o w₃ _ => ?_
    dsimp only
    split
    · exact o.2.remove_passes.risks.bind fun _ w₄ _ => Program.Risks.done trivial
    · exact Program.Risks.done trivial
  refine (settled _).bind fun o w₃ _ => ?_
  obtain ⟨outcome, r'⟩ := o
  dsimp only
  split
  · exact (Program.emit_risks .updated r').bind fun _ w₄ _ => Program.Risks.done trivial
  · exact Program.Risks.done trivial

/-- The mappings follow a resource that was given another cluster. -/
theorem recordMove_risks (r : Resource) :
    (recordMove r).Risks (fun _ w' => w'.stores = w.stores.follow r) bad w := by
  unfold recordMove
  cases hc : r.clusterName with
  | some x =>
    refine (Program.upsert_risks r x).bind fun _ w₁ h₁ => ?_
    split
    · rename_i hk
      refine (Program.reassignScope_risks r.scope x).bind fun _ w₂ h₂ => Program.Risks.done ?_
      rw [h₂, h₁, Stores.follow, hc]
      simp only [if_pos hk]
    · rename_i hk
      refine Program.Risks.done ?_
      rw [h₁, Stores.follow, hc]
      simp only [if_neg hk]
  | none =>
    dsimp only
    split
    · rename_i hk
      refine (Program.removeScope_risks r.scope).bind fun _ w₁ h₁ => Program.Risks.done ?_
      rw [h₁, Stores.follow, hc]
      simp only [if_pos hk]
    · rename_i hk
      refine (Program.removeMapping_risks r.mappingKey).bind fun _ w₁ h₁ => Program.Risks.done ?_
      rw [h₁, Stores.follow, hc]
      simp only [if_neg hk]

/-! ## Operations -/

/-- What comes before anything is looked up is harmless. -/
theorem guarded_risks (operation : Operation) (q : Question) {α : Type} {rest : Program α}
    {good : α → World → Prop}
    (hbad : ∀ e w', (∀ details, e ≠ .frame details) → w'.stores = w.stores → bad e w')
    (next : ∀ w', w'.stores = w.stores → rest.Risks good bad w') :
    (Program.guarded operation.check q rest).Risks good bad w := by
  have checked : (Program.ofExcept operation.check).Risks (fun _ w' => w'.stores = w.stores) bad
      w := by
    refine Program.Risks.known (fun _ _ => rfl) fun e he => hbad e w ?_ rfl
    obtain ⟨field, reason, rfl⟩ := Operation.check_error he
    exact nofun
  refine checked.bind fun _ w₁ h₁ => ?_
  refine (Program.authorize_risks q.userId q.resource q.permission fun e w' other same =>
    hbad e w' other (same.trans h₁)).bind fun _ w₂ h₂ => ?_
  exact next w₂ (h₂.trans h₁)

theorem create_risks (user : User) (scope : Scope) (input : ResourceInput) :
    (p.create user scope input).Risks (fun _ _ => True)
      (fun e w' => w.stores.Leaves (.create user scope input) e w'.stores) w := by
  rw [create, Program.ofExcept_bind_ofExcept]
  refine guarded_risks (.create user scope input)
    ⟨user.id, .of input.kind scope input.name, .create⟩ (fun _ _ => .harmless) fun w₁ h₁ => ?_
  rw [← h₁]
  refine (scope.requireOwner_risks input.kind fun _ _ => .harmless).bind fun _ w₂ h₂ => ?_
  rw [← h₂]
  refine Program.now_risks.bind fun time w₃ h₃ => ?_
  refine Program.freshId_risks.bind fun id w₄ h₄ => ?_
  rw [← h₃, ← h₄]
  refine (Resource.cluster_risks _).bind fun cluster w₅ h₅ => ?_
  obtain ⟨hcluster, hw₅⟩ := h₅
  rw [← hw₅] at hcluster ⊢
  rw [Stores.home?_eq] at hcluster
  dsimp only
  generalize hr : ({ input.toResource user scope id time with clusterName := cluster } : Resource) =
    r
  have hc : r.clusterName = cluster := by rw [← hr]
  have home : r.clusterName = w₅.stores.home? r.stored := by
    rw [hc, Stores.home?_eq, hcluster, ← hr]
    rfl
  have drafted : r = { input.toResource user scope id time with clusterName := r.clusterName } := by
    rw [← hr]
  have filed : ∀ w' : World, w'.stores = w₅.stores.add r → Program.Risks (fun _ _ => True)
      (fun e w' => w₅.stores.Leaves (.create user scope input) e w'.stores) (do
        Program.emit .added r
        return (← p.dispatch r .apply).2) w' := by
    intro w' hw'
    have writes := Stores.Writes.created home drafted
    refine (announce_risks .added r (fun r' => r') fun details w'' same => ?_).mono
      (fun _ _ _ => trivial) fun _ _ h => h
    rw [same, hw']
    exact .unsent writes writes.queued
  refine (r.insert_risks fun _ _ => .harmless).bind fun _ w₆ h₆ => ?_
  cases cluster with
  | some x =>
    refine (Program.upsert_risks r x).bind fun _ w₇ h₇ => filed w₇ ?_
    rw [h₇, h₆, Stores.add, hc, if_neg (Option.some_ne_none x)]
  | none =>
    refine filed w₆ ?_
    rw [h₆, Stores.add, hc, if_pos rfl]

/-- Once a resource was revised the mappings follow it if it was moved, and it is sent. What the
update goes on with, `updated`, tells as much as what it has written, `r`. -/
theorem sendRevised_risks {before : Stores} {current updated old r : Resource}
    (readBack : old.ReadBack current) (hkey : updated.mappingKey = r.mappingKey)
    (hc : updated.clusterName = r.clusterName) (hw : w.stores = before.put r)
    (hbad : ∀ details w', w'.stores = (before.revise old r).tell .updated r →
      bad (.frame details) w') :
    (do
      if updated.clusterName ≠ current.clusterName then recordMove updated
      Program.emit .updated updated
      return some (← p.dispatch updated .apply).2 : Program (Option Resource)).Risks
      (fun o _ => o.isSome = true) bad w := by
  have sent : ∀ w' : World, w'.stores = before.revise old r → (do
      Program.emit .updated updated
      return some (← p.dispatch updated .apply).2 : Program (Option Resource)).Risks
      (fun o _ => o.isSome = true) bad w' := by
    intro w' hw'
    refine (announce_risks .updated updated some fun details w'' same =>
      hbad details w'' ?_).mono ?_ fun _ _ h => h
    · rw [same, hw', Stores.tell, Stores.tell, Event.of_congr .updated hkey hc]
    · rintro _ _ ⟨r', rfl⟩
      rfl
  rw [hc, readBack.clusterName]
  split
  · rename_i hmoved
    refine (recordMove_risks updated).bind fun _ w₁ h₁ => sent w₁ ?_
    rw [h₁, Stores.follow_congr _ hkey hc, hw, Stores.revise, if_neg hmoved]
  · rename_i hsame
    refine sent w ?_
    rw [hw, Stores.revise, if_pos (not_not.1 hsame)]

theorem tryUpdate_risks (user : User) (scope : Scope) (input : ResourceInput) :
    (p.tryUpdate user scope input).Risks (fun o _ => o.isSome = true)
      (fun e w' => w.stores.Leaves (.update user scope input) e w'.stores) w := by
  refine (Resource.get_risks input.kind scope input.name fun _ _ => .harmless).bind
    fun current w₁ h₁ => ?_
  obtain ⟨hw₁, old, holds, readBack⟩ := h₁
  rw [← hw₁] at holds ⊢
  split
  · exact Program.Risks.fail (.nothing nofun)
  split
  · exact Program.Risks.fail (.nothing nofun)
  refine Program.now_risks.bind fun time w₂ h₂ => ?_
  rw [← h₂] at holds ⊢
  refine (Resource.cluster_risks _).bind fun cluster w₃ h₃ => ?_
  obtain ⟨hcluster, hw₃⟩ := h₃
  rw [← hw₃] at hcluster holds ⊢
  generalize hu : ({ input.revise current user time with clusterName := cluster } : Resource) =
    updated
  let e : Edit := ⟨current, .revise input user time cluster⟩
  have hkind : (e.apply old).kind = old.kind := holds.kind.symm
  have hcall : current.patchAtVersion updated.revision =
      Program.patchOne current.kind.collection e.filter (.ofFields e.changes) := by
    subst hu
    rfl
  dsimp only
  rw [hcall]
  refine (Edit.risks (e := e) holds.mem readBack hkind).bind fun hit w₄ h₄ => ?_
  obtain ⟨rfl, hw₄⟩ := h₄
  have hkey : updated.mappingKey = (e.apply old).mappingKey := by
    rw [← hu]
    exact congrArg (fun k : MappingKey => { k with kind := input.kind }) readBack.mappingKey
  have hc : updated.clusterName = (e.apply old).clusterName := by
    rw [← hu]
    rfl
  have home : (e.apply old).clusterName = w₃.stores.home? (e.apply old).stored := by
    have hscope : current.scope = old.scope := congrArg MappingKey.scope readBack.mappingKey
    have hnew : (e.apply old).scope = old.scope := rfl
    rw [Stores.home?_eq] at hcluster ⊢
    rw [hnew, ← hscope]
    exact hcluster
  have writes : w₃.stores.Writes (.update user scope input) (e.apply old) _ :=
    .updated holds readBack home (show e.apply old =
      Edit.apply ⟨current, .revise input user time (e.apply old).clusterName⟩ old from rfl)
  rw [if_pos rfl]
  exact sendRevised_risks readBack hkey hc hw₄ fun details w' same =>
    same ▸ .unsent writes writes.queued

theorem update_risks (user : User) (scope : Scope) (input : ResourceInput) :
    (p.update user scope input).Risks (fun _ _ => True)
      (fun e w' => w.stores.Leaves (.update user scope input) e w'.stores) w := by
  refine guarded_risks (.update user scope input)
    ⟨user.id, .of input.kind scope input.name, .update⟩ (fun _ _ => .harmless) fun w₁ h₁ => ?_
  rw [← h₁]
  refine (tryUpdate_risks user scope input).bind fun o w₂ h₂ => ?_
  obtain ⟨r, rfl⟩ := Option.isSome_iff_exists.1 h₂
  exact Program.Risks.done trivial

theorem delete_risks (user : User) (kind : Kind) (scope : Scope) (name : String) :
    (p.delete user kind scope name).Risks (fun _ _ => True)
      (fun e w' => w.stores.Leaves (.delete user kind scope name) e w'.stores) w := by
  refine guarded_risks (.delete user kind scope name)
    ⟨user.id, .of kind scope name, .delete⟩ (fun _ _ => .harmless) fun w₁ h₁ => ?_
  rw [← h₁]
  refine (Resource.get_risks kind scope name fun _ _ => .harmless).bind fun current w₂ h₂ => ?_
  obtain ⟨hw₂, old, holds, readBack⟩ := h₂
  refine Program.now_risks.bind fun time w₃ h₃ => ?_
  rw [← hw₂, ← h₃] at holds ⊢
  have buried : ((current.tombstone user time).patch (current.tombstone user time).burial).Risks
      (fun hit w' => hit = true ∧
        w'.stores = w₃.stores.put (Edit.apply ⟨current, .bury user time⟩ old))
      (fun e w' => w₃.stores.Leaves (.delete user kind scope name) e w'.stores) w₃ :=
    Edit.risks (e := ⟨current, .bury user time⟩) holds.mem readBack rfl
  refine buried.bind fun hit w₄ h₄ => ?_
  obtain ⟨rfl, hw₄⟩ := h₄
  have writes : w₃.stores.Writes (.delete user kind scope name)
      (Edit.apply ⟨current, .bury user time⟩ old) _ := .buried holds readBack
  rw [if_pos rfl]
  refine (dispatch_risks _ .delete fun details w' same => ?_).bind fun o w₅ _ => ?_
  · rw [same, hw₄]
    exact .unsent writes writes.queued
  · obtain ⟨outcome, r⟩ := o
    cases outcome with
    | noCluster => exact r.remove_passes.risks.bind fun _ w₆ _ => Program.Risks.done trivial
    | dispatched =>
      exact (Program.emit_risks .updated r).bind fun _ w₆ _ => Program.Risks.done trivial

theorem resync_risks (user : User) (kind : Kind) (scope : Scope) (name : String) :
    (p.resync user kind scope name).Risks (fun _ _ => True)
      (fun e w' => w.stores.Leaves (.resync user kind scope name) e w'.stores) w := by
  refine guarded_risks (.resync user kind scope name)
    ⟨user.id, .of kind scope name, .resync⟩ (fun _ _ => .harmless) fun w₁ h₁ => ?_
  rw [← h₁]
  refine (Resource.get_risks kind scope name fun _ _ => .harmless).bind fun current w₂ h₂ => ?_
  obtain ⟨hw₂, old, holds, readBack⟩ := h₂
  rw [← hw₂] at holds ⊢
  refine requeue_risks current holds.mem readBack fun details time w' same => ?_
  have writes : w₂.stores.Writes (.resync user kind scope name)
      (Edit.apply ⟨current, .requeue time⟩ old) _ := .requeued holds readBack
  rw [same]
  exact .unsent writes writes.queued

end ControlPlane

end Programs

/-- Whether an operation changes a single resource for a user. -/
def Operation.isChange : Operation → Bool
  | create .. | update .. | delete .. | resync .. => true
  | _ => false

/-- A change of a single resource ends with an error that passes, or it leaves what it should. -/
theorem Operation.risks (p : ControlPlane) {operation : Operation} {w : World}
    (changes : operation.isChange = true) : (operation.program p).Risks (fun _ _ => True)
      (fun e w' => w.stores.Leaves operation e w'.stores) w := by
  have made : ∀ {α : Type} {f : α → Outcome} {q : Program α} {bad : OpError → World → Prop},
      q.Risks (fun _ _ => True) bad w → (f <$> q).Risks (fun _ _ => True) bad w :=
    fun h => Program.Risks.bind h fun _ _ _ => Program.Risks.done trivial
  cases operation with
  | create user scope input => exact made (ControlPlane.create_risks user scope input)
  | update user scope input => exact made (ControlPlane.update_risks user scope input)
  | delete user kind scope name => exact made (ControlPlane.delete_risks user kind scope name)
  | resync user kind scope name => exact made (ControlPlane.resync_risks user kind scope name)
  | resyncScope | detachScope | resyncStale | ingest | route => cases changes

namespace System

variable {p : ControlPlane} {ms ms' : List Move} {operation : Operation}

/-- If a change of a single resource ends with an error that does not pass, then nothing is
published, and everything is as before, unless the error is that the envelope does not fit in a
frame: then what was written before it was to be sent stays, and is in the queue. -/
theorem permanent_errors_leave (h : Carried p ms operation ms')
    (changes : operation.isChange = true) (met : (after p ms').LastMeets Exchange.IsRegular) :
    ∃ t r, (after p ms').tasks = (after p ms).tasks ++ [t] ∧ t.rest = .done r ∧
      ∀ e, r = .error e → e.isTransient = false →
        (after p ms').world.bus = (after p ms).world.bus ∧
          (after p ms).world.stores.Leaves operation e (after p ms').world.stores := by
  obtain ⟨t, r, htasks, hrest, hends⟩ := h.upheld_last met (Operation.risks p changes)
  refine ⟨t, r, htasks, hrest, ?_⟩
  rintro e rfl permanent
  have leaves := hends.resolve_left (by simp [permanent])
  exact ⟨leaves.bus, leaves⟩

/-- The project is created for a second time. -/
def doubledRun : List Move :=
  createdRun ++ carryOut 1 "5e9b4f36" (.create .system shopScope shopInput) 4

/-- The error that a task ended with. -/
def failure? (t : Task) : Option OpError :=
  match t.rest with
  | .done (.error e) => some e
  | _ => none

theorem doubledRun_met : (after .default createdRun).AtRest ∧ (after .default doubledRun).AtRest ∧
    (after .default doubledRun).LastMeets Exchange.IsRegular ∧
    (after .default doubledRun).tasks.getLast?.bind failure? =
      some (.alreadyExists "project" "shop") := by
  decide +kernel

/-- In the run the project is there already, and so nothing happens. -/
theorem permanent_errors_leave_doubled :
    Carried .default createdRun (.create .system shopScope shopInput) doubledRun ∧
      Operation.isChange (.create .system shopScope shopInput) = true ∧
      (after .default doubledRun).LastMeets Exchange.IsRegular ∧
      (after .default doubledRun).tasks.getLast?.bind failure? =
        some (.alreadyExists "project" "shop") ∧
      (after .default doubledRun).world.stores = (after .default createdRun).world.stores := by
  obtain ⟨created, doubled, met, failed⟩ := doubledRun_met
  have carried : Carried .default createdRun (.create .system shopScope shopInput) doubledRun :=
    carried_carryOut created 1 "5e9b4f36" _ 4 doubled
  refine ⟨carried, rfl, met, failed, ?_⟩
  obtain ⟨t, r, htasks, hrest, hends⟩ := permanent_errors_leave carried rfl met
  rw [htasks, List.getLast?_concat, Option.bind_some, failure?, hrest] at failed
  cases r with
  | ok outcome => cases failed
  | error e =>
    obtain rfl := Option.some.inj failed
    obtain ⟨-, leaves⟩ := hends _ rfl rfl
    generalize (after .default doubledRun).world.stores = s at leaves ⊢
    cases leaves
    rfl

end System

/-! ## What does not fit in a frame -/

theorem DocumentStore.insert_empty {r : Resource} (readable : r.stored.body.isReadable = true) :
    empty.insert r.document = .ok ⟨[r.stored]⟩ := by
  have hbody : (StoredDocument.of r.document).body.isReadable = true := readable
  rw [insert, hbody]
  rfl

theorem MappingIndex.upsert_empty (r : Resource) (x : String) :
    empty.upsert (r.mapping x) = .ok ⟨[r.mappingKey.row x]⟩ := rfl

namespace ControlPlane

variable {p : ControlPlane}

/-- Where no call is made to fail, a project that does not fit in a frame is stored. -/
theorem create_of_large {w : World} {user : User} {s : Scope} {input : ResourceInput}
    {x : String} {r : Resource} {e : Wire.FrameError} {documents : DocumentStore}
    {mappings : MappingIndex} (names : input.checkNames = .ok ())
    (place : input.checkPlace s = .ok ()) (project : input.kind = .project)
    (bound : input.spec.bound = some x)
    (drafted : r = { input.toResource user s (World.idText w.idsGiven) w.clock with
      clusterName := some x })
    (inserted : w.documents.insert r.document = .ok documents)
    (filed : w.mappings.upsert (r.mapping x) = .ok mappings)
    (large : Wire.Frame.ofEnvelope (r.envelope x .apply) = .error e) :
    (p.create user s input).Ends (fun result w' => result = .error e.toOpError ∧
      w'.stores = ⟨documents.documents, mappings.rows, w.bus, w.events ++ [.of .added r]⟩) w := by
  rw [create, names, place, Scope.requireOwner, if_pos project]
  -- The checks of the names, of the place, of the permission and of the owner.
  refine Program.Ends.after (b := ()) (v := w) rfl ?_
  refine Program.Ends.after (b := ()) (v := w) rfl ?_
  refine Program.Ends.after (b := ()) (v := w) rfl ?_
  refine Program.Ends.after (b := ()) (v := w) rfl ?_
  refine Program.Ends.after (b := w.clock) (v := w) rfl ?_
  refine Program.Ends.after (b := World.idText w.idsGiven)
    (v := { w with idsGiven := w.idsGiven + 1 }) rfl ?_
  have hcluster : (input.toResource user s (World.idText w.idsGiven) w.clock).cluster.run
      (World.answer .allowAll) { w with idsGiven := w.idsGiven + 1 } =
      (.ok (some x), { w with idsGiven := w.idsGiven + 1 }) := by
    rw [Resource.cluster_of_bound bound]
    rfl
  refine Program.Ends.after hcluster ?_
  generalize hr : ({ input.toResource user s (World.idText w.idsGiven) w.clock with
    clusterName := some x } : Resource) = r'
  obtain rfl : r = r' := drafted.trans hr
  have hc : r.clusterName = some x := by rw [drafted]
  dsimp only
  have hinsert : r.insert.run (World.answer .allowAll) { w with idsGiven := w.idsGiven + 1 } =
      (.ok (), { w with idsGiven := w.idsGiven + 1, documents }) := by
    rw [Resource.insert, Program.run_bind, Program.run_attempt, Program.insert, Program.run_call,
      World.answer, inserted]
    rfl
  refine Program.Ends.after hinsert ?_
  have hupsert : (Program.upsert (r.mapping x)).run (World.answer .allowAll)
      { w with idsGiven := w.idsGiven + 1, documents } =
      (.ok (), { w with idsGiven := w.idsGiven + 1, documents, mappings }) := by
    rw [Program.upsert, Program.run_call, World.answer, filed]
    rfl
  rw [hc]
  refine Program.Ends.after hupsert ?_
  refine Program.Ends.after (b := ()) (v := { w with
    idsGiven := w.idsGiven + 1
    documents
    mappings
    events := w.events ++ [.of .added r] }) rfl ?_
  have hbound : r.spec.bound = some x := by rw [drafted]; exact bound
  rw [dispatch_of_large hbound large]
  exact ⟨rfl, rfl⟩

end ControlPlane

/-- What comes of creating something where no call is made to fail. -/
theorem Operation.run_create {p : ControlPlane} {w : World} {user : User} {s : Scope}
    {input : ResourceInput} {e : OpError} {stores : Stores}
    (h : (p.create user s input).Ends (fun result w' => result = .error e ∧ w'.stores = stores) w) :
    ∃ w', ((create user s input).program p).run (World.answer .allowAll) w = (.error e, w') ∧
      w'.stores = stores := by
  obtain ⟨_, w', hrun, rfl, hstores⟩ := h.run
  refine ⟨w', ?_, hstores⟩
  rw [program, map_eq_pure_bind, Program.run_bind, hrun]

namespace System

/-- The project with a label that does not fit in a frame. -/
def heavyInput : ResourceInput := { shopInput with labels := .ofList [("notes", longText)] }

/-- The project as it is created first of all. -/
def heavyProject : Resource :=
  { heavyInput.toResource .system shopScope (World.idText 0) default with
    clusterName := some "eu-1" }

/-- An error that does not pass may leave more than there was: a project with too long a label is
stored, with its mapping and its event, and only then it turns out not to fit in a frame. -/
theorem permanent_error_kept : ∃ details w,
    ((Operation.create .system shopScope heavyInput).program .default).run
        (World.answer .allowAll) (after .default []).world = (.error (.frame details), w) ∧
      (OpError.frame details).isTransient = false ∧
      (after .default []).world.stores = ⟨[], [], .empty, []⟩ ∧
      w.stores = ⟨[heavyProject.stored], [heavyProject.mappingKey.row "eu-1"], .empty,
        [.of .added heavyProject]⟩ := by
  have long : Wire.maxPayload < (Json.ofStrings heavyProject.labels).textLength := by
    refine Nat.lt_of_lt_of_le ?_ (Json.length_le_ofStrings (List.mem_singleton_self _))
    rw [longText, String.length_ofList, List.length_replicate]
    exact Nat.lt_succ_self _
  have readable : heavyProject.stored.body.isReadable = true := by
    decide +kernel
  have names : heavyInput.checkNames = .ok () := rfl
  have place : heavyInput.checkPlace shopScope = .ok () := rfl
  have bound : heavyInput.spec.bound = some "eu-1" := rfl
  have drafted : heavyProject = { heavyInput.toResource .system shopScope (World.idText 0) default
    with clusterName := some "eu-1" } := by rw [heavyProject]
  obtain ⟨large, hlarge⟩ : ∃ e, Wire.Frame.ofEnvelope (heavyProject.envelope "eu-1" .apply) =
      .error e := ⟨_, Wire.Frame.ofEnvelope_of_lt long⟩
  have ends := ControlPlane.create_of_large (p := .default) (w := .empty default)
    names place rfl bound drafted
    (DocumentStore.insert_empty readable) (MappingIndex.upsert_empty _ _) hlarge
  obtain ⟨w, hrun, hstores⟩ := Operation.run_create ends
  exact ⟨large.message, w, hrun, rfl, rfl, hstores⟩

end System

end FleetSync
