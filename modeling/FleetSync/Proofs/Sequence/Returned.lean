import FleetSync.Proofs.Interleaving.Attempts
import FleetSync.Proofs.Mapping.Reattachment
import FleetSync.Proofs.Sequence.Permanent
import FleetSync.Proofs.Store.Readout

/-!
# What is returned is what is stored

A resource that was created or updated is returned as it was made, and its document is in the store,
under its name in its scope (`ControlPlane.create_yields`, `ControlPlane.update_yields`). What an
update does not write is read again as it was read before (`ResourceInput.Makes.resource_iff`). So
the resource is got as it was returned exactly if its maps and its spec are free and every document
of its collection can be read by the store (`System.returned_is_read_iff`). A label may well have
the name that makes a map one that is not free: then it is stored, and cannot be read
(`System.returned_not_read`).
-/

namespace FleetSync

open Program (Ensures)

/-! ## Looking a name up -/

theorem Filter.isSome_holds? {f : Filter} {b : Body}
    (h : ∀ c ∈ f, (c.holds? b).isSome = true) : (f.holds? b).isSome = true := by
  induction f with
  | nil => rfl
  | cons c rest ih =>
    obtain ⟨hc, hrest⟩ := List.forall_mem_cons.1 h
    obtain ⟨x, hx⟩ := Option.isSome_iff_exists.1 hc
    rw [holds?, hx]
    cases x with
    | true => exact ih hrest
    | false => rfl

/-- A resource can be asked for its name and its scope exactly if it can be read. -/
theorem Resource.isSome_named_iff (r : Resource) (s : Scope) (name : String) :
    ((Filter.named s name).holds? r.stored.body).isSome = true ↔
      r.stored.body.isReadable = true := by
  refine ⟨Filter.isReadable_of_isSome, fun readable => Filter.isSome_holds? ?_⟩
  have text : ∀ (n : String) (o v : Option String), n ∈ storedNames →
      r.field n = .ofOption .str o →
      ((Condition.eq [.field ⟨n.toList⟩] (.ofOption .str v)).holds? r.stored.body).isSome =
        true := by
    intro n o v hn hf
    rw [Condition.holds?_text v hn hf, if_pos readable]
    rfl
  simp only [Filter.named, Filter.inScope, Filter.inProject, Filter.hasName, List.cons_append,
    List.nil_append, List.forall_mem_cons]
  exact ⟨text "account_name" (some r.accountName) (some s.accountName) (by decide) rfl,
    text "project_name" (some r.projectName) (some s.projectName) (by decide) rfl,
    text "environment_name" r.environmentName s.environmentName? (by decide) rfl,
    text "name" (some r.name) (some name) (by decide) rfl, nofun⟩

namespace DocumentStore

variable {s : DocumentStore} {kind : Kind} {scope : Scope} {name : String}

/-- Whether every document of a collection can be read by the store. -/
def IsReadable (s : DocumentStore) (collection : String) : Prop :=
  ∀ d ∈ s.collection collection, d.body.isReadable = true

namespace Tidy

variable (tidy : s.Tidy)

include tidy

/-- A name can be looked up exactly if every document of the collection can be read. -/
theorem selectAll_named (kind : Kind) (scope : Scope) (name : String) :
    (s.IsReadable kind.collection ∧ s.selectAll kind.collection (.named scope name) =
        .ok (·.matches? kind.collection (.named scope name))) ∨
      (¬ s.IsReadable kind.collection ∧
        s.selectAll kind.collection (.named scope name) = .error failed) := by
  have askable : (Filter.named scope name).isAskable = true := rfl
  have asked : (s.collection kind.collection).all (fun d =>
      ((Filter.named scope name).holds? d.body).isSome) = true ↔ s.IsReadable kind.collection := by
    rw [List.all_eq_true]
    refine forall₂_congr fun d hd => ?_
    obtain ⟨r, -, rfl⟩ := tidy.sound d (List.mem_filter.1 hd).1
    exact r.isSome_named_iff scope name
  rw [selectAll, if_pos askable, select, ← asked]
  split
  · exact .inl ⟨‹_›, rfl⟩
  · exact .inr ⟨‹_›, rfl⟩

/-- What is found under a name is the resource of that name. -/
theorem find?_named {w : Stores} {r : Resource} (hw : w.documents = s.documents)
    (holds : w.Holds kind scope name r) (readable : r.stored.body.isReadable = true) :
    s.documents.find? (·.matches? kind.collection (.named scope name)) = some r.stored := by
  have mem : r.stored ∈ s.documents := hw ▸ holds.mem
  have matched : r.stored.matches? kind.collection (.named scope name) = true := by
    obtain ⟨b, hb⟩ := Option.isSome_iff_exists.1 ((r.isSome_named_iff scope name).2 readable)
    have hpicked := Filter.Picks.named scope name r b holds.kind hb
    have hcard : r.card.key = r.mappingKey := rfl
    simp only [hcard, Resource.mappingKey, holds.account, holds.project, holds.environment,
      holds.name, beq_self_eq_true, Bool.and_self] at hpicked
    have hcollection : r.stored.collection = kind.collection := congrArg Kind.collection holds.kind
    rw [StoredDocument.matches?, hb, hpicked, hcollection]
    simp
  cases hfind : s.documents.find? (·.matches? kind.collection (.named scope name)) with
  | none => exact absurd matched (List.find?_eq_none.1 hfind _ mem)
  | some d =>
    have hd := List.mem_of_find?_eq_some hfind
    have hmatch := List.find?_some hfind
    obtain ⟨r', -, rfl⟩ := tidy.sound d hd
    obtain ⟨hkind, account, project, environment, hname⟩ := Filter.Picks.named_of_matches hmatch
    have hkey : r'.identityKey = r.identityKey := by
      have haccount : r'.accountName = r.accountName := account.trans holds.account.symm
      have hproject : r'.projectName = r.projectName := project.trans holds.project.symm
      have henvironment : r'.environmentName = r.environmentName :=
        environment.trans holds.environment.symm
      have hname : r'.name = r.name := hname.trans holds.name.symm
      rw [Resource.identityKey, Resource.identityKey, haccount, hproject, henvironment, hname]
    have hcollection : r'.kind.collection = r.kind.collection :=
      congrArg Kind.collection (hkind.trans holds.kind.symm)
    rw [List.inj_on_of_nodup_map tidy.keys hd mem (Prod.ext hcollection hkey)]

end Tidy

end DocumentStore

/-- What is got under a name is what is read of the document of that name, if all of the collection
can be read by the store. -/
theorem World.get_iff {w : World} {kind : Kind} {scope : Scope} {name : String} {r read : Resource}
    (tidy : w.documents.Tidy) (holds : w.stores.Holds kind scope name r) (checker : Checker) :
    ((Resource.get kind scope name).run (World.answer checker) w).1 = .ok read ↔
      w.documents.IsReadable kind.collection ∧ r.stored.resource kind = .ok read := by
  rw [Resource.get_eq, Program.run_call, World.answer, DocumentStore.findOne]
  rcases tidy.selectAll_named kind scope name with ⟨readable, hs⟩ | ⟨unreadable, hs⟩
  · have hr : r.stored ∈ w.documents.collection kind.collection := by
      refine List.mem_filter.2 ⟨holds.mem, ?_⟩
      exact beq_iff_eq.2 (congrArg Kind.collection holds.kind)
    have hfind := tidy.find?_named rfl holds (readable _ hr)
    rw [hs]
    simp only [bind, Except.bind, hfind, StoredDocument.resource]
    cases r.stored.read with
    | error e => simp [readable]
    | ok j => simp [readable, pure, Except.pure]
  · rw [hs]
    exact ⟨fun h => (by cases h), fun h => absurd h.1 unreadable⟩

/-! ## What programs yield -/

/-- Whether a call may change documents. -/
def Call.isStoring : Call → Bool
  | .insert _ | .patchOne .. | .deleteOne .. | .deleteMany .. => true
  | _ => false

theorem World.documents_reply (x : Circumstances) (w : World) {c : Call}
    (h : c.isStoring = false) : (w.reply x c).2.documents = w.documents := by
  rcases w.reply_answered x c with hw | same
  · rw [hw]
    cases c with
    | upsert m =>
      simp only [answer]
      split <;> rfl
    | _ => first | rfl | cases h
  · exact same.documents

namespace Program

variable {α β : Type} {good : α → World → Prop} {mid : β → World → Prop} {q : Program β}
  {f : β → Program α} {w : World}

/-- Whether a program has a property at its end if it ends without an error, whatever its calls
meet with. -/
def Yields (good : α → World → Prop) (q : Program α) (w : World) : Prop :=
  q.Ensures True good (fun _ _ => False) w

/-- Whether a program leaves the documents as they are if it ends without an error. -/
def Spares (q : Program α) : Prop := ∀ w, q.Yields (fun _ w' => w'.documents = w.documents) w

namespace Yields

theorem done {a : α} (h : good a w) : (pure a : Program α).Yields good w := Ensures.done h

theorem fail {e : OpError} : (fail e : Program α).Yields good w := Ensures.fail (.inl trivial)

theorem bind (hq : q.Yields mid w) (next : ∀ b w', mid b w' → (f b).Yields good w') :
    (q >>= f).Yields good w := Ensures.bind hq next

/-- A single call, by what it is answered. -/
theorem single {c : Call} {k : c.Answer → Except OpError α}
    (h : w.documents.Tidy → ∀ x : Circumstances, ∀ a, k (w.reply x c).1 = .ok a →
      good a (w.reply x c).2) : (call c fun a => .done (k a)).Yields good w := by
  refine Ensures.single fun ht x _ => ?_
  cases hk : k (w.reply x c).1 with
  | ok a => exact h ht x a hk
  | error e => exact .inl trivial

end Yields

namespace Spares

theorem done {a : α} : (pure a : Program α).Spares := fun _ => Yields.done rfl

theorem fail {e : OpError} : (fail e : Program α).Spares := fun _ => Yields.fail

theorem known {r : Except OpError α} : (ofExcept r).Spares :=
  fun _ => Ensures.known (fun _ _ => rfl) fun _ _ => .inl trivial

theorem single {c : Call} {k : c.Answer → Except OpError α} (h : c.isStoring = false) :
    (call c fun a => .done (k a)).Spares :=
  fun w => Yields.single fun _ x _ _ => w.documents_reply x h

/-- What follows a program that leaves the documents as they are goes on with them. -/
theorem yields (hq : q.Spares) (next : ∀ b w', w'.documents = w.documents →
    (f b).Yields good w') : (q >>= f).Yields good w := Yields.bind (hq w) next

theorem bind (hq : q.Spares) (hf : ∀ b, (f b).Spares) : (q >>= f).Spares :=
  fun _ => hq.yields fun b w' h => h ▸ hf b w'

end Spares

end Program

open Program (Spares Yields)

section Programs

variable {w : World}

/-! ## Parts of changes -/

theorem Resource.cluster_spares (r : Resource) : r.cluster.Spares := by
  unfold cluster
  split
  · exact Spares.done
  · exact Spares.single rfl

theorem Scope.requireOwner_spares (s : Scope) (kind : Kind) : (s.requireOwner kind).Spares := by
  unfold requireOwner
  split
  · exact Spares.done
  refine Spares.bind (Spares.single rfl) fun o => ?_
  cases o with
  | none => exact Spares.fail
  | some doc =>
    dsimp only
    split
    · exact Spares.fail
    · exact Spares.done

/-- What is got is what is read of a document of that name. -/
theorem Resource.get_yields (kind : Kind) (scope : Scope) (name : String) :
    (get kind scope name).Yields (fun read w' => w'.documents = w.documents ∧ ∃ r : Resource,
      r.Sound ∧ w.stores.Holds kind scope name r ∧ r.ReadBack read ∧
        r.stored.resource kind = .ok read) w := by
  rw [get_eq]
  refine Yields.single fun ht x read hread => ?_
  refine ⟨w.documents_reply x rfl, ?_⟩
  rcases ha : (w.reply x (.findOne kind.collection (.named scope name))).1 with e | _ | j
  · rw [ha] at hread
    cases hread
  · rw [ha] at hread
    cases hread
  · rw [ha] at hread
    rw [w.reply_of_not_failed x (c := .findOne kind.collection (.named scope name)) nofun
      fun e he => by rw [ha] at he; cases he] at ha
    obtain ⟨d, hfirst, hj⟩ := DocumentStore.find?_of_findOne ha
    have hmem := List.mem_of_find?_eq_some hfirst
    have hmatch := List.find?_some hfirst
    obtain ⟨r, sound, rfl⟩ := ht.sound d hmem
    have named : w.stores.Holds kind scope name r := .of_matches hmem hmatch
    have holds : (Filter.named scope name).holds? r.stored.body = some true :=
      eq_of_beq (Bool.and_eq_true_iff.1 hmatch).2
    have hread : ofDocument kind j = .ok read := hread
    refine ⟨r, sound, named, ⟨resembles_of_read named.kind hj hread,
      Filter.isReadable_of_holds? holds, shows_of_read named.kind hj hread⟩, ?_⟩
    rw [StoredDocument.resource, hj]
    exact hread

/-- An edit that finds a stored resource if that can be read leaves the edited one in the store. -/
theorem Edit.yields {e : Edit} {r : Resource} (hr : r.stored ∈ w.documents.documents)
    (hkind : r.kind = e.current.kind) (hid : r.id = e.current.id)
    (keeps : (e.apply r).kind = r.kind) (finds : r.stored.body.isReadable = true →
      r.stored.matches? e.current.kind.collection e.filter = true) :
    (Program.patchOne e.current.kind.collection e.filter (.ofFields e.changes)).Yields
      (fun _ w' => (e.apply r).stored ∈ w'.documents.documents) w := by
  refine Yields.single fun ht x hit ha => ?_
  obtain ⟨documents, hs, hw⟩ := w.patchOne_of_reply x ha
  rcases ht.edited_or_missed hr hid keeps hs with ⟨-, hdocs⟩ | ⟨ht', missed⟩
  · rw [hw]
    exact hdocs ▸ List.mem_map.2 ⟨r.stored, hr, if_pos rfl⟩
  · have asked := DocumentStore.isSome_of_select (DocumentStore.select_of_selectOne ht') hr
      (congrArg Kind.collection hkind)
    refine absurd (finds ?_) missed
    rw [filter] at asked
    split at asked <;>
      exact Filter.isReadable_of_isSome (c := .eq ["id"] (.str e.current.id)) asked

/-- A resource that is put on a cluster is stored as it was before, but on that. -/
theorem Resource.attach_yields {r read : Resource} (hr : r.stored ∈ w.documents.documents)
    (hkind : r.kind = read.kind) (hid : r.id = read.id) (o : Option String) :
    (read.patch [.set ["cluster_name"] (.ofOption .str o)]).Yields
      (fun _ w' => { r with clusterName := o }.stored ∈ w'.documents.documents) w := by
  refine Edit.yields (e := ⟨read, .attach o⟩) hr hkind hid rfl fun readable => ?_
  have found := matches_byId readable
  rw [hkind, hid] at found
  exact found

namespace ControlPlane

variable (p : ControlPlane)

theorem send_spares (r : Resource) (action : SyncAction) : (p.send r action).Spares := by
  refine Spares.bind r.cluster_spares fun o => ?_
  cases o with
  | none => exact Spares.done
  | some x =>
    refine Spares.bind Spares.known fun frame => ?_
    exact Spares.bind (Spares.single rfl) fun n => Spares.done

theorem recordMove_spares (r : Resource) : (recordMove r).Spares := by
  unfold recordMove
  cases r.clusterName with
  | some x =>
    refine Spares.bind (Spares.single rfl) fun _ => ?_
    split
    · exact Spares.bind (Spares.single rfl) fun _ => Spares.done
    · exact Spares.done
  | none =>
    dsimp only
    split
    · exact Spares.bind (Spares.single rfl) fun _ => Spares.done
    · exact Spares.bind (Spares.single rfl) fun _ => Spares.done

/-- A resource that was sent is on the cluster that is stored. -/
theorem dispatch_yields {r read : Resource} (hr : r.stored ∈ w.documents.documents)
    (hkind : r.kind = read.kind) (hid : r.id = read.id)
    (hcluster : r.clusterName = read.clusterName) (action : SyncAction) :
    (p.dispatch read action).Yields (fun o w' => ∃ c, o.2 = { read with clusterName := c } ∧
      { r with clusterName := c }.stored ∈ w'.documents.documents) w := by
  refine (p.send_spares read action).yields fun outcome w₁ h₁ => ?_
  rw [← h₁] at hr
  have stays : r.stored ∈ w₁.documents.documents → ∃ c, read = { read with clusterName := c } ∧
      { r with clusterName := c }.stored ∈ w₁.documents.documents :=
    fun hr => ⟨read.clusterName, rfl, hcluster ▸ hr⟩
  cases hx : outcome.cluster? with
  | some x =>
    dsimp only
    split
    · exact Yields.done (stays hr)
    · refine Yields.bind (Resource.attach_yields hr hkind hid (some x)) fun _ w₂ h₂ => ?_
      refine (Spares.single rfl).yields fun _ w₃ h₃ => Yields.done ⟨some x, rfl, ?_⟩
      rw [h₃]
      exact h₂
  | none =>
    cases hrec : read.clusterName with
    | some recorded =>
      refine Yields.bind (Resource.attach_yields hr hkind hid none) fun _ w₂ h₂ => ?_
      refine (Spares.single rfl).yields fun _ w₃ h₃ => Yields.done ⟨none, rfl, ?_⟩
      rw [h₃]
      exact h₂
    | none => exact Yields.done (stays hr)

end ControlPlane

/-! ## Changes -/

/-- What is stored and what is returned of a resource that was created or updated. -/
inductive ResourceInput.Makes (input : ResourceInput) (user : User) (scope : Scope) :
    Resource → Resource → Prop
  | created {id : String} {time : Instant} {cluster : Option String} {r : Resource}
    (made : r = { input.toResource user scope id time with clusterName := cluster }) :
    Makes input user scope r r
  | revised {old read : Resource} {time : Instant} {cluster : Option String} (sound : old.Sound)
    (readBack : old.ReadBack read) (reads : old.stored.resource input.kind = .ok read) :
    Makes input user scope (Edit.apply ⟨read, .revise input user time cluster⟩ old)
      (Edit.apply ⟨read, .revise input user time cluster⟩ read)

/-- Whether a resource that was created or updated is stored under its name in its scope. -/
def Stores.Keeps (s : Stores) (user : User) (scope : Scope) (input : ResourceInput)
    (r : Resource) : Prop :=
  ∃ stored, s.Holds input.kind scope input.name stored ∧ input.Makes user scope stored r

namespace Stores.Keeps

variable {s : Stores} {user : User} {scope : Scope} {input : ResourceInput} {time : Instant}
  {cluster : Option String}

theorem created {id : String}
    (mem : { input.toResource user scope id time with clusterName := cluster }.stored ∈
      s.documents) :
    s.Keeps user scope input { input.toResource user scope id time with clusterName := cluster } :=
  ⟨_, ⟨mem, rfl, rfl, rfl, rfl, rfl⟩, .created rfl⟩

theorem revised {s₀ : Stores} {old read : Resource} (sound : old.Sound)
    (holds : s₀.Holds input.kind scope input.name old) (readBack : old.ReadBack read)
    (reads : old.stored.resource input.kind = .ok read)
    (mem : (Edit.apply ⟨read, .revise input user time cluster⟩ old).stored ∈ s.documents) :
    s.Keeps user scope input (Edit.apply ⟨read, .revise input user time cluster⟩ read) :=
  ⟨_, ⟨mem, rfl, holds.account, holds.project, holds.environment, holds.name⟩,
    .revised sound readBack reads⟩

end Stores.Keeps

theorem Resource.insert_yields (r : Resource) :
    r.insert.Yields (fun _ w' => r.stored ∈ w'.documents.documents) w := by
  have attempted : (Program.insert r.document).attempt.Yields (fun result w' =>
      ∀ u, result = .ok u → r.stored ∈ w'.documents.documents) w := by
    refine Yields.single (k := Except.ok) fun _ x result hresult u hu => ?_
    obtain rfl := Except.ok.inj hresult
    obtain ⟨documents, hs, hw⟩ := w.insert_of_reply x hu
    rw [hw, (DocumentStore.insert_eq_ok hs).1]
    exact List.mem_append_right _ (List.mem_singleton_self _)
  refine Yields.bind attempted fun result w' h => ?_
  split
  · exact Yields.fail
  · exact Ensures.known (fun u hu => h u hu) fun _ _ => .inl trivial

namespace ControlPlane

variable (p : ControlPlane) (user : User) (scope : Scope) (input : ResourceInput)

/-- A resource that was created is stored as it is returned. -/
theorem create_yields : (p.create user scope input).Yields
    (fun r w' => w'.stores.Keeps user scope input r) w := by
  refine Spares.known.yields fun _ w₁ _ => ?_
  refine Spares.known.yields fun _ w₂ _ => ?_
  refine (Spares.single rfl).yields fun _ w₃ _ => ?_
  refine (scope.requireOwner_spares input.kind).yields fun _ w₄ _ => ?_
  refine (Spares.single rfl).yields fun time w₅ _ => ?_
  refine (Spares.single rfl).yields fun id w₆ _ => ?_
  refine (Resource.cluster_spares _).yields fun cluster w₇ _ => ?_
  refine Yields.bind (Resource.insert_yields _) fun _ w₈ stored => ?_
  have sent : ∀ {r : Resource} {w' : World},
      r = { input.toResource user scope id time with clusterName := cluster } →
      r.stored ∈ w'.documents.documents →
      Program.Yields (fun r w'' => w''.stores.Keeps user scope input r) (do
        Program.emit .added r
        return (← p.dispatch r .apply).2) w' := by
    intro r w' hr stored
    refine (Spares.single rfl).yields fun _ w₉ h₉ => ?_
    rw [← h₉] at stored
    refine Yields.bind (p.dispatch_yields stored rfl rfl rfl .apply) fun o w₁₀ h => ?_
    obtain ⟨c, ho, stored⟩ := h
    subst hr
    rw [ho]
    exact Yields.done (.created stored)
  cases cluster with
  | some x => exact (Spares.single rfl).yields fun _ w₉ h₉ => sent rfl (h₉ ▸ stored)
  | none => exact sent rfl stored

/-- An update that was tried and made is stored as it is returned. -/
theorem tryUpdate_yields : (p.tryUpdate user scope input).Yields
    (fun o w' => ∀ r, o = some r → w'.stores.Keeps user scope input r) w := by
  refine Yields.bind (Resource.get_yields input.kind scope input.name) fun read w₁ h₁ => ?_
  obtain ⟨hw₁, old, sound, holds, readBack, reads⟩ := h₁
  have mem : old.stored ∈ w₁.documents.documents := hw₁ ▸ holds.mem
  split
  · exact Yields.fail
  split
  · exact Yields.fail
  refine (Spares.single rfl).yields fun time w₂ h₂ => ?_
  refine (Resource.cluster_spares _).yields fun cluster w₃ h₃ => ?_
  rw [← h₂, ← h₃] at mem
  let e : Edit := ⟨read, .revise input user time cluster⟩
  have written : (Program.patchOne read.kind.collection e.filter (.ofFields e.changes)).Yields
      (fun _ w' => (e.apply old).stored ∈ w'.documents.documents) w₃ :=
    Edit.yields (e := e) mem readBack.kind.symm readBack.id.symm holds.kind.symm
      fun _ => Edit.matches_readBack readBack
  have sent : ∀ w' : World, (e.apply old).stored ∈ w'.documents.documents →
      Program.Yields (fun o w'' => ∀ r, o = some r → w''.stores.Keeps user scope input r) (do
        Program.emit .updated (e.apply read)
        return some (← p.dispatch (e.apply read) .apply).2) w' := by
    intro w' stored
    refine (Spares.single rfl).yields fun _ w₅ h₅ => ?_
    rw [← h₅] at stored
    have hkind : (e.apply old).kind = (e.apply read).kind := rfl
    have hid : (e.apply old).id = (e.apply read).id := readBack.id.symm
    refine Yields.bind (p.dispatch_yields stored hkind hid rfl .apply) fun o w₆ h => ?_
    obtain ⟨c, ho, stored⟩ := h
    refine Yields.done fun r hr => ?_
    rw [← Option.some.inj hr, ho]
    exact .revised sound holds readBack reads stored
  refine Yields.bind written fun hit w₄ stored => ?_
  cases hit with
  | false => exact Yields.done fun _ h => nomatch h
  | true =>
    rw [if_pos rfl]
    dsimp only
    split
    · refine (recordMove_spares _).yields fun _ w₅ h₅ => ?_
      rw [← h₅] at stored
      exact sent w₅ stored
    · exact sent w₄ stored

theorem updateWithin_yields (attempts : Nat) : (p.updateWithin user scope input attempts).Yields
    (fun r w' => w'.stores.Keeps user scope input r) w := by
  induction attempts generalizing w with
  | zero => exact Yields.fail
  | succ attempts ih =>
    refine Yields.bind (p.tryUpdate_yields user scope input) fun o w₁ h => ?_
    cases o with
    | some r => exact Yields.done (h r rfl)
    | none => exact ih

/-- A resource that was updated is stored as it is returned, but for what was not read as it was
written. -/
theorem update_yields : (p.update user scope input).Yields
    (fun r w' => w'.stores.Keeps user scope input r) w := by
  refine Spares.known.yields fun _ w₁ _ => ?_
  refine (Spares.single rfl).yields fun _ w₂ _ => ?_
  exact p.updateWithin_yields user scope input updateAttempts

end ControlPlane

end Programs

/-! ## What is read of what was made -/

/-- A resource that was created or updated is read as it is returned exactly if it is free. -/
theorem ResourceInput.Makes.resource_iff {input : ResourceInput} {user : User} {scope : Scope}
    {stored r : Resource} (h : input.Makes user scope stored r) (light : stored.IsLight)
    (sorted : input.spec.IsSorted) (version : Decoder.IsInt64 r.recordVersion) :
    stored.stored.resource input.kind = .ok r ↔ r.isFree = true := by
  cases h with
  | created made =>
    subst made
    have zero : Decoder.IsInt64 0 := by decide
    exact Resource.resource_new_iff light rfl version zero zero sorted
  | revised sound readBack reads =>
    refine Edit.resource_revised_iff rfl reads light version ?_ sorted
    have greatest := readBack.greatest
    have agrees := sound.agrees
    rw [readBack.syncVersion]
    exact ⟨Int.le_trans (by decide) agrees.nonneg, agrees.le.trans greatest⟩

theorem ResourceInput.Makes.id_eq {input : ResourceInput} {user : User} {scope : Scope}
    {stored r : Resource} (h : input.Makes user scope stored r) : stored.id = r.id := by
  cases h with
  | created => rfl
  | revised sound readBack reads => exact readBack.id.symm

namespace System

variable {p : ControlPlane} {ms ms' : List Move} {operation : Operation}

/-- What a create or an update returned is got right afterwards exactly if its maps and its spec are
free and its whole collection can be read by the store, provided that its document has integers
alone and does not nest too deep to be read as a value. -/
theorem returned_is_read_iff {user : User} {scope : Scope} {input : ResourceInput} {r : Resource}
    (carried : Carried p ms operation ms')
    (asks : operation = .create user scope input ∨ operation = .update user scope input)
    (ok : (after p ms').last? = some (.ok (.resource r))) (sorted : input.spec.IsSorted)
    (version : Decoder.IsInt64 r.recordVersion) (checker : Checker) :
    ∃ d ∈ (after p ms').documents, d.id = r.id ∧ (d.body.isLight Json.maxNesting = true →
      (((Resource.get input.kind scope input.name).run (World.answer checker)
          (after p ms').world).1 = .ok r ↔
        r.isFree = true ∧ (after p ms').world.documents.IsReadable input.kind.collection)) := by
  have yields : (operation.program p).Ensures True (fun o w' => ∀ r, o = .resource r →
      w'.stores.Keeps user scope input r) (fun _ _ => False) (after p ms).world := by
    have kept : ∀ (r : Resource) (w : World), w.stores.Keeps user scope input r →
        ∀ r', Outcome.resource r = .resource r' → w.stores.Keeps user scope input r' :=
      fun r w h r' hr => Outcome.resource.inj hr ▸ h
    rcases asks with rfl | rfl
    · exact Ensures.map (p.create_yields user scope input) kept
    · exact Ensures.map (p.update_yields user scope input) kept
  obtain ⟨stored, holds, makes⟩ := carried.ensures_last yields ok r rfl
  refine ⟨stored.stored, holds.mem, makes.id_eq, fun light => ?_⟩
  rw [World.get_iff (tidy p ms') holds checker, makes.resource_iff light sorted version, and_comm]

/-- The project is given a label, a name to show and another cluster. -/
def gildedInput : ResourceInput :=
  { shopInput with
    labels := .ofList [("tier", "gold")]
    spec := .project ⟨some "eu-2", none, some "Shop"⟩ }

/-- The project is created and updated. -/
def gildedRun : List Move :=
  createdRun ++ carryOut 1 "5e9b4f36" (.update .system shopScope gildedInput) 8

/-- What the update returns. -/
def gildedShop : Resource :=
  { gildedInput.toResource .system shopScope "7d1c52a0" default with
    clusterName := some "eu-2"
    recordVersion := 2 }

theorem gildedRun_documents : ((after .default createdRun).AtRest ∧
    (after .default gildedRun).AtRest) ∧
    (after .default gildedRun).last? = some (.ok (.resource gildedShop)) ∧
    ∀ d ∈ (after .default gildedRun).documents,
      d.body.isLight Json.maxNesting = true ∧ d.body.isReadable = true := by
  decide +kernel

/-- In the run the project is got as it was returned by the update. -/
theorem returned_is_read_gilded :
    Carried .default createdRun (.update .system shopScope gildedInput) gildedRun ∧
      (after .default gildedRun).last? = some (.ok (.resource gildedShop)) ∧
      ((Resource.get .project shopScope "shop").run (World.answer .allowAll)
        (after .default gildedRun).world).1 = .ok gildedShop := by
  obtain ⟨⟨created, gilded⟩, returned, fine⟩ := gildedRun_documents
  have carried : Carried .default createdRun (.update .system shopScope gildedInput) gildedRun :=
    carried_carryOut created 1 "5e9b4f36" _ 8 gilded
  obtain ⟨d, hd, -, reads⟩ :=
    returned_is_read_iff carried (.inr rfl) returned trivial (by decide) .allowAll
  refine ⟨carried, returned, (reads (fine d hd).1).2 ⟨by decide, fun d hd => ?_⟩⟩
  exact (fine d (List.mem_filter.1 hd).1).2

/-- A project with a label whose name is the key of objects that hold a value as a text. -/
def embeddedInput : ResourceInput :=
  { shopInput with
    labels := .ofList [(Json.embeddingKey, "x"), ("a", "1")]
    spec := .project ⟨none, none, none⟩ }

/-- That project is created. -/
def embeddedRun : List Move :=
  carryOut 0 "7d1c52a0" (.create .system shopScope embeddedInput) 5

/-- What is returned. -/
def embeddedShop : Resource := embeddedInput.toResource .system shopScope "7d1c52a0" default

theorem embeddedRun_documents : (after .default embeddedRun).AtRest ∧
    (after .default embeddedRun).last? = some (.ok (.resource embeddedShop)) ∧
    (∃ d ∈ (after .default embeddedRun).documents, d.id = embeddedShop.id) ∧
    ∀ d ∈ (after .default embeddedRun).documents, d.body.isLight Json.maxNesting = true := by
  decide +kernel

/-- In the run the project is created without an error, and cannot be read from then on. -/
theorem returned_not_read : Sequential .default embeddedRun ∧
    Carried .default [] (.create .system shopScope embeddedInput) embeddedRun ∧
      (after .default embeddedRun).last? = some (.ok (.resource embeddedShop)) ∧
      (∃ d ∈ (after .default embeddedRun).documents, d.id = embeddedShop.id ∧
        d.body.isLight Json.maxNesting = true) ∧
      ((Resource.get .project shopScope "shop").run (World.answer .allowAll)
        (after .default embeddedRun).world).1 = .error (.serialization "malformed document") := by
  obtain ⟨ended, returned, ⟨d, hd, hid⟩, light⟩ := embeddedRun_documents
  refine ⟨sequential_carryOut .default 0 "7d1c52a0" _ 5,
    carried_carryOut (atRest_nil .default) 0 "7d1c52a0" _ 5 ended, returned,
    ⟨d, hd, hid, light d hd⟩, ?_⟩
  decide +kernel

end System

end FleetSync
