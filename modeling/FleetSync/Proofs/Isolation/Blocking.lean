import FleetSync.Proofs.Isolation.Tenants
import FleetSync.Proofs.Sequence.Stores

/-!
# A tenant blocks another

A resource is stored one level deeper than its spec nests. So an edit that writes a spec that nests
as deep as the store can read leaves a document that it cannot read (`System.blocks_of_burying`).
From then on nothing is deleted in that collection for any other account
(`System.delete_of_blocks`). There tenants are not isolated: `System.tenant_blocked`.
-/

namespace FleetSync

/-- A value in so many arrays, one in the other. -/
def Json.nested : Nat → Json
  | 0 => .null
  | n + 1 => .arr [nested n]

/-- A resource cannot be read if its spec cannot one level below. -/
theorem Resource.not_readable {r : Resource} {l : Nat}
    (h : (Body.ofJson (r.field "spec").canonical).readableAt l = false) :
    r.stored.body.readableAt (l + 1) = false := by
  rw [r.stored_body, Body.readableAt_record, List.all_eq_false]
  exact ⟨"spec", by decide, by rw [h, Bool.and_false]; decide⟩

/-- Whether a change sets a spec that cannot be read one level below the top of a document. -/
def PatchOp.buries : PatchOp → Bool
  | .set path value => path == [.field ⟨"spec".toList⟩] &&
    !(Body.ofJson value.canonical).readableAt (Body.maxDepth - 1)
  | .unset _ => false

/-- An edit that sets such a spec leaves a resource that cannot be read. -/
theorem Edit.not_readable_apply {e : Edit} (r : Resource)
    (h : (Patch.ofFields e.changes).any (·.buries) = true) :
    (e.apply r).stored.body.isReadable = false := by
  obtain ⟨op, hop, hbury⟩ := List.any_eq_true.1 h
  obtain ⟨change, hchange, rfl⟩ := List.mem_map.1 hop
  obtain ⟨n, hn, rfl⟩ := List.mem_map.1 hchange
  rw [PatchOp.buries, Bool.and_eq_true, beq_iff_eq, Bool.not_eq_true'] at hbury
  obtain ⟨hpath, hdeep⟩ := hbury
  have hname : n = "spec" := by
    simp only [List.cons.injEq, Step.field.injEq, Label.mk.injEq, and_true] at hpath
    exact String.toList_inj.1 hpath
  subst hname
  refine Resource.not_readable ?_
  rwa [e.field_apply r, if_pos hn]

/-- Whether a change sets a value that can be read. -/
def PatchOp.isReadable : PatchOp → Bool
  | .set _ value => (Body.ofJson value.canonical).isReadable
  | .unset _ => true

/-- Whether a call makes a document unreadable: it finds one, and the spec that it sets can be read
for itself, but not as a part of the document. -/
def World.buriedBy (w : World) : Call → Bool
  | .patchOne collection filter patch =>
    patch.isAskable && patch.all (·.isReadable) && patch.any (·.buries) &&
      match w.documents.selectOne collection filter with
      | .ok test => (w.documents.documents.find? test).isSome
      | .error _ => false
  | _ => false

namespace System

variable {p : ControlPlane} {moves : List Move} {i : Nat} {operation : Operation}
  {past : List Exchange} {c : Call} {next : c.Answer → Program Outcome} {x : Circumstances}
  {owner account collection : String}

/-- A patch that finds a document is the edit of a stored resource. -/
theorem edit_of_find {collection : String} {filter : Filter} {patch : Patch}
    {next : Except OpError Bool → Program Outcome} {test : StoredDocument → Bool}
    {d : StoredDocument}
    (h : (after p moves).tasks[i]? =
      some ⟨operation, past, .call (.patchOne collection filter patch) next⟩)
    (ht : (after p moves).world.documents.selectOne collection filter = .ok test)
    (hd : (after p moves).documents.find? test = some d) :
    ∃ (e : Edit) (r : Resource), .patchOne collection filter patch = e.call ∧ d = r.stored ∧
      (e.apply r).kind = r.kind := by
  have mem := List.mem_of_getElem? h
  obtain ⟨e, he, read, allowed⟩ := (follows_after p (operation.follows p) moves _ mem rfl).1
  obtain ⟨r, hr, rfl⟩ := sound p moves moves (List.prefix_refl _) d (List.mem_of_find?_eq_some hd)
  have hit := DocumentStore.matches?_of_find? ht hd
  obtain ⟨rfl, rfl, rfl⟩ := Call.patchOne.injEq .. ▸ he
  exact ⟨e, r, he, rfl, ((sound p moves).fits mem read allowed hr hit).2⟩

/-- If an operation that is addressed to an account makes such a call, the collection is blocked for
every other account, though nothing of it changed. -/
theorem blocks_of_burying
    (h : (after p moves).tasks[i]? = some ⟨operation, past, .call c next⟩)
    (ha : operation.account? = some owner) (ho : owner ≠ account)
    (hc : c.collection? = some collection) (buried : (after p moves).world.buriedBy c = true)
    (hx : x.failure = none) :
    (after p (moves ++ [.turn i x])).world.documents.Blocks account collection ∧
      World.Agree account (after p (moves ++ [.turn i x])).world (after p moves).world ∧
      ∀ id, id ∈ (after p (moves ++ [.turn i x])).ids ↔ id ∈ (after p moves).ids := by
  cases c with
  | patchOne collection' filter patch =>
    obtain rfl := Option.some.inj hc
    obtain ⟨makes, -, hw⟩ := after_turn h (x := x) (by simp)
    refine ⟨?_, confined ha makes ho, fun id => makes.mem_ids.trans (or_iff_left nofun)⟩
    simp only [World.buriedBy, Bool.and_eq_true] at buried
    obtain ⟨⟨⟨askable, readable⟩, buries⟩, found⟩ := buried
    split at found
    swap
    · cases found
    rename_i test ht
    obtain ⟨d, hd⟩ := Option.isSome_iff_exists.1 found
    obtain ⟨e, r, he, rfl, hkind⟩ := edit_of_find h ht hd
    obtain ⟨rfl, rfl, rfl⟩ := Call.patchOne.injEq .. ▸ he
    have hv : ∀ c ∈ e.changes, (Body.ofJson c.2.canonical).isReadable = true :=
      fun c hc => List.all_eq_true.1 readable _ (List.mem_map_of_mem hc)
    obtain ⟨s', hpatch, hmem'⟩ := DocumentStore.patchOne_edit hkind ht hd askable hv
    simp only [World.reply, hx, Option.bind_none, World.answer, hpatch] at hw
    replace hmem' : (e.apply r).stored ∈
        (after p (moves ++ [.turn i x])).world.documents.documents := by
      rw [hw]
      exact hmem'
    have hmem := List.mem_of_find?_eq_some hd
    have hit := DocumentStore.matches?_of_find? ht hd
    have howner := (within_of_makes ha makes).account_eq hmem hit
    have hcollection := DocumentStore.collection_of_matches? hit
    refine ⟨_, hmem', ?_, (congrArg Kind.collection hkind).trans hcollection,
      e.not_readable_apply r buries⟩
    rw [keeps_accounts p moves (.turn i x) _ hmem _ hmem' (e.id_apply r).symm, howner]
    exact ho
  | _ => cases buried

/-- A deletion asks for permission, and then for the resource. -/
theorem delete_program (p : ControlPlane) (user : User) (kind : Kind) {s : Scope} (name : String)
    (checked : s.check = .ok ()) : ∃ next next',
      (Operation.delete user kind s name).program p =
        .call (.authorize user.id (.of kind s name) .delete) next ∧
      next (.ok true) = .call (.findOne kind.collection (.named s name)) next' ∧
      ∀ e, next' (.error e) = .done (.error e) := by
  rw [Operation.program, ControlPlane.delete, checked]
  exact ⟨_, _, rfl, rfl, fun e => rfl⟩

/-- In a collection that is blocked for its account a deletion fails. -/
theorem delete_of_blocks (p : ControlPlane) (moves : List Move) {user : User} {kind : Kind}
    {s : Scope} {name : String} (checked : s.check = .ok ())
    (blocks : (after p moves).world.documents.Blocks s.accountName kind.collection)
    (permitted : x.permission = .ok true) (hx : x.failure = none) :
    ∃ past, (after p (alone p moves (.delete user kind s name) [x, x])).tasks[
      (after p moves).tasks.length]? =
        some ⟨.delete user kind s name, past, .done (.error DocumentStore.failed)⟩ := by
  obtain ⟨next, next', hprogram, hnext, hnext'⟩ := delete_program p user kind name checked
  have start := task_of_start p moves (.delete user kind s name)
  rw [hprogram] at start
  have hw := world_of_start p moves (.delete user kind s name)
  obtain ⟨-, looks, hw₁⟩ := after_turn start (x := x) (by simp)
  simp only [World.reply, hx, Option.bind_none, World.answer, permitted, hnext] at looks hw₁
  obtain ⟨makes, done, -⟩ := after_turn looks (x := x) (by simp)
  have failed := (World.answer_of_blocks (fun _ _ _ => x.permission)
    { (after p (moves ++ [.start _] ++ [.turn _ x])).world with clock := x.time }
    (within_of_makes rfl makes) rfl (by rw [hw₁, hw]; exact blocks)).1
  simp only [World.reply, hx, Option.bind_none, ← Option.some.inj failed, hnext'] at done
  refine ⟨_, (congrArg (fun ms => (after p ms).tasks[(after p moves).tasks.length]?) ?_).trans done⟩
  exact List.append_cons ..

/-! ### A run -/

/-- The environment of a tenant. -/
def tenantScope (account : String) : Scope := .environment account "shop" "prod"

/-- A database with a template that nests so deep. -/
def databaseInput (depth : Nat) : ResourceInput :=
  .new "db" "default" (.managedResource ⟨"postgres", .nested depth⟩)

/-- A tenant creates a project, an environment and a database. -/
def databaseRun : List Move :=
  let project := creating [] "globex" "7d1c52a0"
  let environment := alone .default project (.create .system (.project "globex" "shop")
    (.new "prod" "default" (.environment ⟨none, none⟩))) (List.replicate 9 (served "7d1c52a1"))
  alone .default environment (.create .system (tenantScope "globex") (databaseInput 0))
    (List.replicate 9 (served "7d1c52a2"))

/-- An update of the template of the database is about to be written. -/
def untilBurying : List Move :=
  alone .default databaseRun (.update .system (tenantScope "globex") (databaseInput 999))
    (List.replicate 4 (served "7d1c52a3"))

/-- Its next call is the one that buries the database, and nothing belongs to the other tenant. -/
theorem untilBurying_state :
    (∃ operation past c next,
      (after .default untilBurying).tasks[3]? = some ⟨operation, past, .call c next⟩ ∧
        operation.account? = some "globex" ∧ c.collection? = some "managed_resources" ∧
        (after .default untilBurying).world.buriedBy c = true) ∧
      (∀ d ∈ (after .default untilBurying).world.documents.documents, d.account ≠ "acme") ∧
      (after .default untilBurying).world.mappings.rows = [] ∧
      "7d1c52a4" ∉ (after .default untilBurying).ids := by
  have decided : ((after .default untilBurying).tasks[3]?.any fun t =>
      decide (t.operation.account? = some "globex") &&
        match t.rest with
        | .call c _ => decide (c.collection? = some "managed_resources") &&
          (after .default untilBurying).world.buriedBy c
        | .done _ => false) = true ∧
      (∀ d ∈ (after .default untilBurying).world.documents.documents, d.account ≠ "acme") ∧
      (after .default untilBurying).world.mappings.rows = [] ∧
      "7d1c52a4" ∉ (after .default untilBurying).ids := by
    decide +kernel
  refine decided.imp_left fun asked => ?_
  generalize (after .default untilBurying).world = w at asked ⊢
  generalize (after .default untilBurying).tasks[3]? = t at asked ⊢
  rcases t with _ | ⟨operation, past, _ | ⟨c, next⟩⟩
  · cases asked
  · exact absurd (Bool.and_eq_true_iff.1 asked).2 Bool.false_ne_true
  · simp only [Option.any_some, Bool.and_eq_true, decide_eq_true_eq] at asked
    exact ⟨operation, past, c, next, rfl, asked⟩

/-- It is written. -/
def blockedRun : List Move := untilBurying ++ [.turn 3 (served "7d1c52a3")]

theorem blockedRun_state :
    (after .default blockedRun).world.documents.Blocks "acme" "managed_resources" ∧
      World.Agree "acme" (after .default blockedRun).world (after .default untilBurying).world ∧
      ∀ id, id ∈ (after .default blockedRun).ids ↔ id ∈ (after .default untilBurying).ids := by
  obtain ⟨⟨operation, past, c, next, ht, ha, hc, buried⟩, -⟩ := untilBurying_state
  have ho : "globex" ≠ "acme" := by decide
  rw [blockedRun]
  exact blocks_of_burying ht ha ho hc buried rfl

/-- Another tenant deletes a database that it does not have. -/
def strayDeletion : Operation := .delete .system .managedResource (tenantScope "acme") "db"

/-- Tenants are not isolated where a collection is blocked: of two runs in which a tenant has no
document and no mapping, one lets it know that it has no such database, and in the other the store
fails, for another tenant's database is buried there. -/
theorem tenant_blocked :
    World.Agree "acme" (after .default blockedRun).world (after .default []).world ∧
      ("7d1c52a4" ∈ (after .default blockedRun).ids ↔ "7d1c52a4" ∈ (after .default []).ids) ∧
      (∃ past, (after .default (alone .default blockedRun strayDeletion
          [served "7d1c52a4", served "7d1c52a4"])).tasks[
        (after .default blockedRun).tasks.length]? =
          some ⟨strayDeletion, past, .done (.error DocumentStore.failed)⟩) ∧
      ∃ past, (after .default (alone .default [] strayDeletion
          [served "7d1c52a4", served "7d1c52a4"])).tasks[(after .default []).tasks.length]? =
        some ⟨strayDeletion, past, .done (.error (.notFound "managed_resource" "db"))⟩ := by
  obtain ⟨blocks, agree, ids⟩ := blockedRun_state
  obtain ⟨-, documents, mappings, new⟩ := untilBurying_state
  have checked : (tenantScope "acme").check = .ok () := by rfl
  refine ⟨⟨agree.documents.trans ?_, agree.mappings.trans ?_⟩, ?_, ?_, _, rfl⟩
  · refine congrArg DocumentStore.mk (List.filter_eq_nil_iff.2 fun d hd => ?_)
    rw [beq_iff_eq]
    exact documents d hd
  · rw [MappingIndex.partOf, mappings]
    rfl
  · exact iff_of_false (mt (ids _).1 new) List.not_mem_nil
  · exact delete_of_blocks .default blockedRun checked blocks rfl rfl

end System

end FleetSync
