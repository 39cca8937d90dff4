import FleetSync.Proofs.Isolation.Confinement

/-!
# Tenants do not see each other

An operation that is addressed to an account goes on alone after some moves (`System.alone`). It
leaves all documents and mappings of other accounts as they are (`System.unchanged`). Whatever else
happened before, it does the same after two runs that agree on its account: it makes the same calls,
sends and tells the same, ends alike and leaves the two in agreement (`System.DoesAlike`), as one
turn after the other does (`Abreast.turn`). For this the same collections have to be blocked for it
in both; `System.tenants_isolated` has it all.
-/

namespace FleetSync

theorem Exchange.Alike.id?_eq {x y : Exchange} (h : x.Alike y) : x.id? = y.id? := by
  cases h <;> rfl

/-- What is of no other account blocks a collection for none of them. -/
theorem World.blocks_of_others {w w' : World} {account : String}
    (h : ∀ other, account ≠ other → Agree other w' w) (collection : String) :
    w'.documents.Blocks account collection ↔ w.documents.Blocks account collection := by
  have blocks : ∀ {w w' : World}, (∀ other, account ≠ other → Agree other w' w) →
      w'.documents.Blocks account collection → w.documents.Blocks account collection := by
    rintro w w' h ⟨d, hd, hne, hcol, hread⟩
    have hpart := (h d.account hne.symm).documents ▸ DocumentStore.mem_partOf.2 ⟨hd, rfl⟩
    exact ⟨d, (DocumentStore.mem_partOf.1 hpart).1, hne, hcol, hread⟩
  refine ⟨blocks h, blocks fun other ho => ?_⟩
  exact ⟨(h other ho).documents.symm, (h other ho).mappings.symm⟩

namespace System

variable {p : ControlPlane} {s s' : System} {moves moves' : List Move} {i i' : Nat} {t t' : Task}
  {operation : Operation} {past : List Exchange} {account other : String}

/-! ### Turns -/

theorem turn_done {r : Except OpError Outcome} (h : s.tasks[i]? = some ⟨operation, past, .done r⟩)
    (x : Circumstances) : s.turn i x = s := by
  rw [turn, h]

theorem turn_stuck {c : Call} {next : c.Answer → Program Outcome} {x : Circumstances}
    (h : s.tasks[i]? = some ⟨operation, past, .call c next⟩)
    (stuck : c = .freshId ∧ x.id ∈ s.ids) : s.turn i x = s := by
  rw [turn, h]
  exact if_pos stuck

/-- Otherwise a task makes its next call. -/
theorem after_turn {c : Call} {next : c.Answer → Program Outcome} {x : Circumstances}
    (h : (after p moves).tasks[i]? = some ⟨operation, past, .call c next⟩)
    (free : ¬ (c = .freshId ∧ x.id ∈ (after p moves).ids)) :
    (after p moves).Makes i operation past ⟨c, ((after p moves).world.reply x c).1⟩
        (after p (moves ++ [.turn i x])) ∧
      (after p (moves ++ [.turn i x])).tasks[i]? =
        some ⟨operation, past ++ [⟨c, ((after p moves).world.reply x c).1⟩],
          next ((after p moves).world.reply x c).1⟩ ∧
      (after p (moves ++ [.turn i x])).world = ((after p moves).world.reply x c).2 := by
  have hs : after p (moves ++ [.turn i x]) = ⟨((after p moves).world.reply x c).2,
      (after p moves).tasks.set i ⟨operation, past ++ [⟨c, ((after p moves).world.reply x c).1⟩],
        next ((after p moves).world.reply x c).1⟩⟩ := by
    rw [after_concat, move, turn, h]
    exact if_neg free
  rw [hs]
  exact ⟨⟨_, _, h, rfl⟩, List.getElem?_set_self (List.getElem?_eq_some_iff.1 h).1, rfl⟩

theorem mem_ids_iff {id : String} : id ∈ s.ids ↔
    ∃ (j : Nat) (t : Task), s.tasks[j]? = some t ∧ ∃ x ∈ t.past, x.id? = some id := by
  rw [ids, List.mem_flatMap]
  constructor
  · rintro ⟨t, ht, hid⟩
    obtain ⟨j, hj⟩ := List.mem_iff_getElem?.1 ht
    exact ⟨j, t, hj, List.mem_filterMap.1 hid⟩
  · rintro ⟨j, t, hj, hid⟩
    exact ⟨t, List.mem_of_getElem? hj, List.mem_filterMap.2 hid⟩

/-- The ids after a call are those before, and the one that it gives. -/
theorem Makes.mem_ids {x : Exchange} (h : s.Makes i operation past x s') {id : String} :
    id ∈ s'.ids ↔ id ∈ s.ids ∨ x.id? = some id := by
  obtain ⟨rest, hs⟩ := h.before
  obtain ⟨rest', hs'⟩ := h.after
  rw [mem_ids_iff, mem_ids_iff]
  constructor
  · rintro ⟨j, t, ht, y, hy, hid⟩
    by_cases hj : j = i
    · subst hj
      rw [hs'] at ht
      cases ht
      rcases List.mem_append.1 hy with hy | hy
      · exact .inl ⟨j, _, hs, y, hy, hid⟩
      · exact .inr (List.mem_singleton.1 hy ▸ hid)
    · exact .inl ⟨j, t, (h.others hj).symm.trans ht, y, hy, hid⟩
  · rintro (⟨j, t, ht, y, hy, hid⟩ | hid)
    · by_cases hj : j = i
      · subst hj
        rw [hs] at ht
        cases ht
        exact ⟨j, _, hs', y, List.mem_append_left _ hy, hid⟩
      · exact ⟨j, t, (h.others hj).trans ht, y, hy, hid⟩
    · exact ⟨i, _, hs', x, List.mem_concat_self, hid⟩

/-! ### Alone -/

/-- The moves of an operation that goes on alone after some others. -/
def alone (p : ControlPlane) (moves : List Move) (operation : Operation)
    (xs : List Circumstances) : List Move :=
  moves ++ [.start operation] ++ xs.map (.turn (after p moves).tasks.length)

theorem task_of_start (p : ControlPlane) (moves : List Move) (operation : Operation) :
    (after p (moves ++ [.start operation])).tasks[(after p moves).tasks.length]? =
      some ⟨operation, [], operation.program p⟩ := by
  rw [after_concat, move, List.getElem?_concat_length]

theorem world_of_start (p : ControlPlane) (moves : List Move) (operation : Operation) :
    (after p (moves ++ [.start operation])).world = (after p moves).world := by
  rw [after_concat, move]

theorem ids_of_start (p : ControlPlane) (moves : List Move) (operation : Operation) :
    (after p (moves ++ [.start operation])).ids = (after p moves).ids := by
  rw [after_concat, move, ids, ids, List.flatMap_append]
  exact List.append_nil _

/-- The turns of a task that is addressed to an account change nothing of another. -/
theorem unchanged_of_turns (ht : (after p moves).tasks[i]? = some t)
    (ha : t.operation.account? = some account) (ho : account ≠ other)
    (xs : List Circumstances) :
    World.Agree other (after p (moves ++ xs.map (.turn i))).world (after p moves).world := by
  induction xs generalizing moves t with
  | nil =>
    rw [List.map_nil, List.append_nil]
    exact ⟨rfl, rfl⟩
  | cons x xs ih =>
    have one : World.Agree other (after p (moves ++ [.turn i x])).world (after p moves).world := by
      rcases (after p moves).turn_cases i x with hs | ⟨operation, past, c, next, hi, hs⟩
      · rw [after_concat, move, hs]
        exact ⟨rfl, rfl⟩
      · rw [ht] at hi
        cases hi
        exact confined ha ⟨_, _, ht, by rw [after_concat, move, hs]⟩ ho
    obtain ⟨t', ht', hop, -⟩ := task_later p (List.prefix_append moves [.turn i x]) ht
    have rest := ih ht' (hop ▸ ha)
    rw [List.map_cons, List.append_cons]
    exact ⟨rest.documents.trans one.documents, rest.mappings.trans one.mappings⟩

/-! ### Side by side -/

/-- Two tasks, each after a run of its own, that are to do the same from now on. -/
structure Abreast (p : ControlPlane) (account : String) (moves moves' : List Move) (i i' : Nat)
    (t t' : Task) : Prop where
  task : (after p moves).tasks[i]? = some t
  task' : (after p moves').tasks[i']? = some t'
  operation : t'.operation = t.operation
  /-- They have made the same calls. -/
  past : List.Forall₂ Exchange.Alike t.past t'.past
  /-- What they have still to do, or end with, is the same. -/
  rest : Program.Alike Outcome.Alike t.rest t'.rest
  /-- The documents and mappings of the account are the same, in the same order. -/
  agree : World.Agree account (after p moves).world (after p moves').world
  blocks : World.SameBlocks account (after p moves).world (after p moves').world

/-- Whether two tasks went on side by side, from some moments to others. -/
structure Strides (p : ControlPlane) (account : String) (i i' : Nat) (operation : Operation)
    (moves moves₁ moves' moves₁' : List Move) : Prop where
  abreast : ∃ t t', Abreast p account moves₁ moves₁' i i' t t' ∧ t.operation = operation
  /-- They sent and told the same. -/
  adds : ∃ messages events,
    World.Adds messages events (after p moves).world (after p moves₁).world ∧
      World.Adds messages events (after p moves').world (after p moves₁').world
  ids : ∀ id, (id ∈ (after p moves).ids ↔ id ∈ (after p moves').ids) →
    (id ∈ (after p moves₁).ids ↔ id ∈ (after p moves₁').ids)

theorem Strides.trans {moves₁ moves₂ moves₁' moves₂' : List Move}
    (h : Strides p account i i' operation moves moves₁ moves' moves₁')
    (h' : Strides p account i i' operation moves₁ moves₂ moves₁' moves₂') :
    Strides p account i i' operation moves moves₂ moves' moves₂' where
  abreast := h'.abreast
  adds := by
    obtain ⟨messages, events, adds, adds'⟩ := h.adds
    obtain ⟨messages₁, events₁, adds₁, adds₁'⟩ := h'.adds
    exact ⟨_, _, adds.trans adds₁, adds'.trans adds₁'⟩
  ids id hid := h'.ids id (h.ids id hid)

namespace Abreast

/-- If nothing happens, nothing changes. -/
theorem idle (h : Abreast p account moves moves' i i' t t') {m m' : Move}
    (hs : after p (moves ++ [m]) = after p moves)
    (hs' : after p (moves' ++ [m']) = after p moves') :
    Strides p account i i' t.operation moves (moves ++ [m]) moves' (moves' ++ [m']) where
  abreast := by
    refine ⟨t, t', ⟨?_, ?_, h.operation, h.past, h.rest, ?_, ?_⟩, rfl⟩ <;> simp only [hs, hs']
    · exact h.task
    · exact h.task'
    · exact h.agree
    · exact h.blocks
  adds := ⟨[], [], by rw [hs]; exact .nothing rfl rfl, by rw [hs']; exact .nothing rfl rfl⟩
  ids id hid := by rwa [hs, hs']

/-- Both make the same call, and what they see of its effect is the same. -/
theorem turn (h : Abreast p account moves moves' i i' t t')
    (ha : t.operation.account? = some account) (x : Circumstances)
    (hid : x.id ∈ (after p moves).ids ↔ x.id ∈ (after p moves').ids) :
    Strides p account i i' t.operation moves (moves ++ [.turn i x]) moves'
      (moves' ++ [.turn i' x]) := by
  obtain ⟨operation, past, rest⟩ := t
  obtain ⟨operation', past', rest'⟩ := t'
  have hmove : ∀ (moves : List Move) i, after p (moves ++ [.turn i x]) =
      (after p moves).turn i x := fun moves i => after_concat moves (.turn i x)
  have h₀ := h
  obtain ⟨task, task', rfl, hpast, hrest, agree, blocks⟩ := h
  cases hrest with
  | error e =>
    exact h₀.idle ((hmove ..).trans (turn_done task x)) ((hmove ..).trans (turn_done task' x))
  | ok _ =>
    exact h₀.idle ((hmove ..).trans (turn_done task x)) ((hmove ..).trans (turn_done task' x))
  | @call c next next' hnext =>
    by_cases hstuck : c = .freshId ∧ x.id ∈ (after p moves).ids
    · have hstuck' := And.imp_right hid.1 hstuck
      exact h₀.idle ((hmove ..).trans (turn_stuck task hstuck))
        ((hmove ..).trans (turn_stuck task' hstuck'))
    obtain ⟨makes, later, hw⟩ := after_turn task hstuck
    obtain ⟨makes', later', hw'⟩ := after_turn task' fun h => hstuck (And.imp_right hid.2 h)
    have keeps := keeps_accounts p moves (.turn i x)
    have keeps' := keeps_accounts p moves' (.turn i' x)
    rw [hw] at keeps
    rw [hw'] at keeps'
    have within := within_of_makes ha makes
    have within' := within_of_makes ha makes'
    obtain ⟨alike, agree₁⟩ := World.reply_alike within within' keeps keeps' agree blocks
    rw [← hw, ← hw'] at agree₁
    have blocks₁ := fun collection =>
      (World.blocks_of_others (fun _ => confined ha makes) collection).trans <|
        (blocks collection).trans
          (World.blocks_of_others (fun _ => confined ha makes') collection).symm
    have adds := (after p moves).world.reply_adds x c
    have adds' := (after p moves').world.reply_adds x c
    rw [← hw] at adds
    rw [← hw', ← alike.messages_eq, ← alike.events_eq] at adds'
    have past₁ := List.rel_append hpast (.cons alike .nil)
    refine ⟨⟨_, _, ⟨later, later', rfl, past₁, hnext _ _ alike, agree₁, blocks₁⟩, rfl⟩,
      ⟨_, _, adds, adds'⟩, fun id hid => ?_⟩
    rw [makes.mem_ids, makes'.mem_ids, hid, alike.id?_eq]

theorem turns (h : Abreast p account moves moves' i i' t t')
    (ha : t.operation.account? = some account) (xs : List Circumstances)
    (hids : ∀ x ∈ xs, x.id ∈ (after p moves).ids ↔ x.id ∈ (after p moves').ids) :
    Strides p account i i' t.operation moves (moves ++ xs.map (.turn i)) moves'
      (moves' ++ xs.map (.turn i')) := by
  induction xs generalizing moves moves' t t' with
  | nil =>
    rw [List.map_nil, List.map_nil, List.append_nil, List.append_nil]
    exact ⟨⟨t, t', h, rfl⟩, ⟨[], [], .nothing rfl rfl, .nothing rfl rfl⟩, fun _ hid => hid⟩
  | cons x xs ih =>
    have one := h.turn ha x (hids x (List.mem_cons_self ..))
    obtain ⟨t₁, t₁', h₁, hop⟩ := one.abreast
    have rest := ih h₁ (hop ▸ ha) fun y hy => one.ids _ (hids y (List.mem_cons_of_mem _ hy))
    rw [hop] at rest
    rw [List.map_cons, List.map_cons, List.append_cons, List.append_cons moves']
    exact one.trans rest

/-- Operations start abreast. -/
theorem start (operation : Operation)
    (agree : World.Agree account (after p moves).world (after p moves').world)
    (blocks : World.SameBlocks account (after p moves).world (after p moves').world) :
    Abreast p account (moves ++ [.start operation]) (moves' ++ [.start operation])
      (after p moves).tasks.length (after p moves').tasks.length
      ⟨operation, [], operation.program p⟩ ⟨operation, [], operation.program p⟩ where
  task := task_of_start p moves operation
  task' := task_of_start p moves' operation
  operation := rfl
  past := .nil
  rest := operation.alike p
  agree := by rwa [world_of_start, world_of_start]
  blocks := by rwa [world_of_start, world_of_start]

end Abreast

/-! ### The isolation of tenants -/

/-- Whether an operation that goes on alone does and ends the same after two runs. -/
def DoesAlike (p : ControlPlane) (account : String) (operation : Operation)
    (xs : List Circumstances) (moves moves' : List Move) : Prop :=
  ∃ t t' messages events,
    Abreast p account (alone p moves operation xs) (alone p moves' operation xs)
      (after p moves).tasks.length (after p moves').tasks.length t t' ∧
    World.Adds messages events (after p moves).world (after p (alone p moves operation xs)).world ∧
    World.Adds messages events (after p moves').world (after p (alone p moves' operation xs)).world

/-- Who is addressed by operations on one account neither changes nor sees what is of others. -/
structure TenantsIsolated (p : ControlPlane) : Prop where
  /-- In no move does an operation change a document or mapping of an account that it is not
  addressed to, whatever else is under way. -/
  confined : ∀ moves m i operation past x account other, operation.account? = some account →
    account ≠ other → (after p moves).Makes i operation past x (after p (moves ++ [m])) →
    World.Agree other (after p (moves ++ [m])).world (after p moves).world
  /-- So it does not in all its moves together. -/
  unchanged : ∀ moves operation xs account other, operation.account? = some account →
    account ≠ other →
    World.Agree other (after p (alone p moves operation xs)).world (after p moves).world
  /-- What an operation does, sends, tells, ends with and leaves of its account depends on nothing
  but what there is of its account, on what is made for it anew, and on which collections are
  blocked. -/
  alike : ∀ moves moves' operation xs account, operation.account? = some account →
    World.Agree account (after p moves).world (after p moves').world →
    World.SameBlocks account (after p moves).world (after p moves').world →
    (∀ x ∈ xs, x.id ∈ (after p moves).ids ↔ x.id ∈ (after p moves').ids) →
    DoesAlike p account operation xs moves moves'

/-- Tenants are isolated, blocked collections left aside. -/
theorem tenants_isolated (p : ControlPlane) : TenantsIsolated p where
  confined _ _ _ _ _ _ _ _ ha ho makes := confined ha makes ho
  unchanged moves operation xs account other ha ho := by
    have turns := unchanged_of_turns (task_of_start p moves operation) ha ho xs
    rwa [world_of_start] at turns
  alike moves moves' operation xs account ha agree blocks hids := by
    have strides := (Abreast.start operation agree blocks).turns ha xs fun x hx => by
      rw [ids_of_start, ids_of_start]
      exact hids x hx
    obtain ⟨t, t', abreast, -⟩ := strides.abreast
    obtain ⟨messages, events, adds, adds'⟩ := strides.adds
    rw [world_of_start] at adds adds'
    exact ⟨t, t', messages, events, abreast, adds, adds'⟩

/-! ### A run beside another -/

/-- Nothing fails, and some id is given. -/
def served (id : String) : Circumstances := ⟨default, id, .ok true, none⟩

/-- After some moves a tenant creates a project without a cluster. -/
def creating (moves : List Move) (account id : String) : List Move :=
  alone .default moves (.create .system (.project account "shop")
    (.new "shop" "default" (.project ⟨none, none, none⟩))) (List.replicate 9 (served id))

/-- A tenant creates a project, and another one has a project of that name already. -/
def besideRun : List Move := creating (creating [] "globex" "7d1c52a0") "acme" "7d1c52a1"

/-- The tenant is the only one. -/
def lonelyRun : List Move := creating [] "acme" "7d1c52a1"

theorem besideRun_worlds :
    (∀ d ∈ (after .default besideRun).documents ++ (after .default lonelyRun).documents,
      d.body.isReadable = true) ∧
    "7d1c52a2" ∉ (after .default besideRun).ids ++ (after .default lonelyRun).ids ∧
    (after .default besideRun).documents.length = 2 ∧
    (after .default lonelyRun).documents.length = 1 := by
  decide +kernel

/-- A deletion goes the same way in both runs. -/
theorem tenants_isolated_beside :
    World.Agree "acme" (after .default besideRun).world (after .default lonelyRun).world ∧
      (after .default besideRun).documents.length = 2 ∧
      (after .default lonelyRun).documents.length = 1 ∧
      DoesAlike .default "acme" (.delete .system .project (.project "acme" "shop") "shop")
        (List.replicate 7 (served "7d1c52a2")) besideRun lonelyRun := by
  obtain ⟨readable, new, two, one⟩ := besideRun_worlds
  have agree : World.Agree "acme" (after .default besideRun).world
      (after .default lonelyRun).world := ⟨rfl, rfl⟩
  refine ⟨agree, two, one, ?_⟩
  refine (tenants_isolated .default).alike besideRun lonelyRun _ _ "acme" rfl agree ?_ ?_
  · intro collection
    refine iff_of_false ?_ ?_ <;> rintro ⟨d, hd, -, -, hread⟩
    · rw [readable d (List.mem_append_left _ hd)] at hread
      cases hread
    · rw [readable d (List.mem_append_right _ hd)] at hread
      cases hread
  · intro x hx
    rw [(List.mem_replicate.1 hx).2]
    rw [List.mem_append, not_or] at new
    exact iff_of_false new.1 new.2

end System

end FleetSync
