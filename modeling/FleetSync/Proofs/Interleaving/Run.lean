import FleetSync.Proofs.Interleaving.Conduct
import Mathlib.Data.List.Induction
import Mathlib.Data.List.Nodup

/-!
# Runs of a system

At every moment of a run all tasks keep to the law (`System.lawful`), so a move changes the
documents only in ways that the law leaves to the task that makes it (`System.advance`). What a task
has read was stored at some moment before (`System.read_stored`), so what is to hold of all
documents may be taken to have held of all documents before (`System.always`). An id belongs to one
task, which inserts at most one document, so the documents have ids of their own and no id comes
back after its document is gone (`System.origin`). Hence what every move does to a document, every
run does to it (`System.descent`).
-/

namespace FleetSync

/-- What an operation does to the documents with a call, by the law. -/
inductive Act (operation : Operation) (past : List Exchange) :
    Exchange → List StoredDocument → List StoredDocument → Prop
  | remove {x : Exchange} {docs docs' : List StoredDocument} (keep : x.isWrite = false)
    (less : docs'.Sublist docs) : Act operation past x docs docs'
  | insert {user : User} {scope : Scope} {input : ResourceInput} {id : String} {time : Instant}
    {cluster : Option String} {r : Resource} {docs : List StoredDocument}
    (create : operation = .create user scope input)
    (draft : r = { input.toResource user scope id time with clusterName := cluster })
    (given : ⟨.freshId, id⟩ ∈ past) (once : Uncommitted past) :
    Act operation past ⟨.insert r.document, .ok ()⟩ docs (docs ++ [r.stored])
  | edit {e : Edit} {l l' : List StoredDocument} {d : StoredDocument} {body : Body}
    (read : e.Read past) (allowed : e.Allowed operation past)
    (hit : d.matches? e.current.kind.collection e.filter = true)
    (done : (Patch.ofFields e.changes).applyTo? d.body = some body) :
    Act operation past ⟨e.call, .ok true⟩ (l ++ d :: l') (l ++ { d with body } :: l')

theorem Exchange.Effect.act {operation : Operation} {past : List Exchange} {x : Exchange}
    {docs docs' : List StoredDocument} (h : Effect x docs docs')
    (hp : operation.Permits past x.call) : Act operation past x docs docs' := by
  cases h with
  | insert new =>
    obtain ⟨user, scope, input, id, time, cluster, hop, rfl, hid, hu⟩ := hp
    exact .insert hop rfl hid hu
  | patch hit done =>
    obtain ⟨e, he, hread, hallowed⟩ := hp
    rw [Edit.call, Call.patchOne.injEq] at he
    obtain ⟨rfl, rfl, rfl⟩ := he
    exact .edit hread hallowed hit done
  | remove keep less => exact .remove keep less

/-- Whether a document of a kind reads as a resource. -/
def StoredDocument.ReadsAs (d : StoredDocument) (kind : Kind) (r : Resource) : Prop :=
  d.collection = kind.collection ∧ ∃ j, d.read = .ok j ∧ Resource.ofDocument kind j = .ok r

/-- A task keeps to the law, and has kept to it. -/
structure Task.Lawful (t : Task) : Prop where
  ahead : t.rest.Follows t.operation.Permits t.operation.Concludes t.past
  behind : ∀ past x later, t.past = past ++ x :: later → t.operation.Permits past x.call

theorem Task.Lawful.step {operation : Operation} {past : List Exchange} {c : Call}
    {next : c.Answer → Program Outcome}
    (h : Task.Lawful ⟨operation, past, .call c next⟩) (a : c.Answer) :
    Task.Lawful ⟨operation, past ++ [⟨c, a⟩], next a⟩ := by
  refine ⟨h.ahead.2 a, fun before y later hp => ?_⟩
  rcases List.eq_nil_or_concat later with rfl | ⟨l, z, rfl⟩
  · obtain ⟨rfl, hy⟩ := List.append_inj' hp rfl
    cases hy
    exact h.ahead.1
  · have hp : past ++ [⟨c, a⟩] = (before ++ y :: l) ++ [z] := by
      simpa only [List.append_assoc, List.cons_append, List.concat_eq_append] using hp
    exact h.behind before y l (List.append_inj' hp rfl).1

namespace System

variable {p : ControlPlane} {s s' : System} {i j : Nat} {operation : Operation}
  {past : List Exchange} {x : Exchange} {t : Task}

/-! ### Tasks -/

theorem Makes.before (h : s.Makes i operation past x s') :
    ∃ rest, s.tasks[i]? = some ⟨operation, past, rest⟩ := by
  obtain ⟨rest, -, hi, -⟩ := h
  exact ⟨rest, hi⟩

theorem Makes.after (h : s.Makes i operation past x s') :
    ∃ rest, s'.tasks[i]? = some ⟨operation, past ++ [x], rest⟩ := by
  obtain ⟨_, rest, hi, hs⟩ := h
  exact ⟨rest, by rw [hs, List.getElem?_set_self (List.getElem?_eq_some_iff.1 hi).1]⟩

theorem Makes.others (h : s.Makes i operation past x s') (hj : j ≠ i) :
    s'.tasks[j]? = s.tasks[j]? := by
  obtain ⟨-, rest, -, hs⟩ := h
  rw [hs, List.getElem?_set_ne hj.symm]

theorem Makes.changes (h : s.Makes i operation past x s') : s'.tasks[i]? ≠ s.tasks[i]? := by
  obtain ⟨rest, hs⟩ := h.before
  obtain ⟨rest', hs'⟩ := h.after
  rw [hs, hs']
  simp

/-- It is told from the tasks which call was made. -/
theorem Makes.unique {operation' : Operation} {past' : List Exchange} {x' : Exchange}
    (h : s.Makes i operation past x s') (h' : s.Makes j operation' past' x' s') :
    i = j ∧ operation = operation' ∧ past = past' ∧ x = x' := by
  by_cases hj : j = i
  · subst hj
    obtain ⟨rest, hs⟩ := h.after
    obtain ⟨rest', hs'⟩ := h'.after
    rw [hs] at hs'
    simp only [Option.some.injEq, Task.mk.injEq] at hs'
    obtain ⟨hpast, hx⟩ := List.append_inj' hs'.2.1 rfl
    exact ⟨rfl, hs'.1, hpast, List.singleton_inj.1 hx⟩
  · exact absurd (h.others hj) h'.changes

/-- A turn does nothing, or one task makes its next call. -/
theorem turn_cases (s : System) (i : Nat) (x : Circumstances) : s.turn i x = s ∨
    ∃ operation past c, ∃ next : c.Answer → Program Outcome,
      s.tasks[i]? = some ⟨operation, past, .call c next⟩ ∧
      s.turn i x = ⟨(s.world.reply x c).2, s.tasks.set i
        ⟨operation, past ++ [⟨c, (s.world.reply x c).1⟩], next (s.world.reply x c).1⟩⟩ := by
  rw [turn]
  split
  · rename_i operation past c next hi
    split
    · exact .inl rfl
    · exact .inr ⟨operation, past, c, next, hi, rfl⟩
  · exact .inl rfl

/-- What a move does to a system. -/
inductive Advance (s s' : System) : Prop
  | idle (documents : s'.documents = s.documents)
    (tasks : s'.tasks = s.tasks ∨ ∃ t : Task, t.past = [] ∧ s'.tasks = s.tasks ++ [t])
  | call {i : Nat} {operation : Operation} {past : List Exchange} {x : Exchange}
    (makes : s.Makes i operation past x s') (act : Act operation past x s.documents s'.documents)
    (finds : ∀ collection j, x.Finds collection j →
      ∃ d ∈ s.documents, d.collection = collection ∧ d.read = .ok j)
    (fresh : ∀ id, x = ⟨.freshId, id⟩ → id ∉ s.ids)

theorem Advance.of_makes (h : Advance s s') (makes : s.Makes i operation past x s') :
    Act operation past x s.documents s'.documents ∧ (∀ collection j, x.Finds collection j →
      ∃ d ∈ s.documents, d.collection = collection ∧ d.read = .ok j) ∧
      ∀ id, x = ⟨.freshId, id⟩ → id ∉ s.ids := by
  cases h with
  | idle _ tasks =>
    have hlen := (List.getElem?_eq_some_iff.1 makes.before.choose_spec).1
    rcases tasks with h | ⟨t, -, h⟩
    · exact absurd (by rw [h]) makes.changes
    · exact absurd (by rw [h, List.getElem?_append_left hlen]) makes.changes
  | call makes' act finds fresh =>
    obtain ⟨rfl, rfl, rfl, rfl⟩ := makes.unique makes'
    exact ⟨act, finds, fresh⟩

theorem Advance.task_before (h : Advance s s') (ht : s'.tasks[j]? = some t) :
    s.tasks[j]? = some t ∨ t.past = [] ∨
      ∃ past x rest, s.Makes j t.operation past x s' ∧ t.past = past ++ [x] ∧
        s.tasks[j]? = some ⟨t.operation, past, rest⟩ := by
  cases h with
  | idle _ tasks =>
    rcases tasks with h | ⟨t', h', h⟩
    · exact .inl (h ▸ ht)
    · rw [h, List.getElem?_append] at ht
      split at ht
      · exact .inl ht
      · obtain rfl := List.mem_singleton.1 (List.mem_of_getElem? ht)
        exact .inr (.inl h')
  | @call i operation past x makes _ _ _ =>
    by_cases hj : j = i
    · subst hj
      obtain ⟨rest, hs⟩ := makes.before
      obtain ⟨rest', hs'⟩ := makes.after
      rw [hs'] at ht
      cases ht
      exact .inr (.inr ⟨past, x, rest, makes, rfl, hs⟩)
    · exact .inl (makes.others hj ▸ ht)

theorem Advance.task_after (h : Advance s s') (ht : s.tasks[j]? = some t) :
    ∃ t', s'.tasks[j]? = some t' ∧ t'.operation = t.operation ∧ t.past <+: t'.past := by
  cases h with
  | idle _ tasks =>
    rcases tasks with h | ⟨t', -, h⟩
    · exact ⟨t, h ▸ ht, rfl, List.prefix_refl _⟩
    · have hlen := (List.getElem?_eq_some_iff.1 ht).1
      exact ⟨t, by rw [h, List.getElem?_append_left hlen, ht], rfl, List.prefix_refl _⟩
  | @call i operation past x makes _ _ _ =>
    by_cases hj : j = i
    · subst hj
      obtain ⟨rest, hs⟩ := makes.before
      obtain ⟨rest', hs'⟩ := makes.after
      rw [hs] at ht
      cases ht
      exact ⟨_, hs', rfl, List.prefix_append past [x]⟩
    · exact ⟨t, (makes.others hj).trans ht, rfl, List.prefix_refl _⟩

/-- At every moment all tasks keep to the law. -/
theorem lawful (p : ControlPlane) (moves : List Move) : ∀ t ∈ (after p moves).tasks, t.Lawful := by
  induction moves using List.reverseRecOn with
  | nil => exact fun t ht => nomatch ht
  | append_singleton moves m ih =>
    have step := step_after p moves m
    revert step
    generalize after p (moves ++ [m]) = s'
    rintro (_ | operation | ⟨x, task, fresh⟩) t ht
    · exact ih t ht
    · rcases List.mem_append.1 ht with ht | ht
      · exact ih t ht
      · obtain rfl := List.mem_singleton.1 ht
        exact ⟨operation.follows p, fun past x later h => by cases past <;> cases h⟩
    · rcases List.mem_or_eq_of_mem_set ht with ht | rfl
      · exact ih t ht
      · exact (ih _ (List.mem_of_getElem? task)).step _

theorem advance (p : ControlPlane) (moves : List Move) (m : Move) :
    Advance (after p moves) (after p (moves ++ [m])) := by
  have step := step_after p moves m
  have lawful := lawful p moves
  revert step lawful
  generalize after p moves = s
  generalize after p (moves ++ [m]) = s'
  rintro (_ | operation | ⟨x, task, fresh⟩) lawful
  · exact .idle rfl (.inl rfl)
  · exact .idle rfl (.inr ⟨_, rfl, rfl⟩)
  · refine .call ⟨_, _, task, rfl⟩ ((s.world.reply_effect x _).act ?_)
      (fun _ _ => s.world.reply_finds x) fun id hid => ?_
    · exact (lawful _ (List.mem_of_getElem? task)).ahead.1
    · obtain ⟨rfl, h⟩ := (Exchange.mk.injEq ..).mp hid
      exact eq_of_heq h ▸ fresh rfl

/-- Every task keeps to a law that its operation follows. -/
theorem follows_after (p : ControlPlane) {law : List Exchange → Call → Prop}
    {post : List Exchange → Except OpError Outcome → Prop}
    (h : (operation.program p).Follows law post []) (moves : List Move) :
    ∀ t ∈ (after p moves).tasks, t.operation = operation → t.rest.Follows law post t.past := by
  induction moves using List.reverseRecOn with
  | nil => exact fun t ht => nomatch ht
  | append_singleton moves m ih =>
    have step := step_after p moves m
    revert step
    generalize after p (moves ++ [m]) = s'
    rintro (_ | operation' | ⟨x, task, -⟩) t ht hop
    · exact ih t ht hop
    · rcases List.mem_append.1 ht with ht | ht
      · exact ih t ht hop
      · obtain rfl := List.mem_singleton.1 ht
        obtain rfl : operation' = operation := hop
        exact h
    · rcases List.mem_or_eq_of_mem_set ht with ht | rfl
      · exact ih t ht hop
      · exact (ih _ (List.mem_of_getElem? task) hop).2 _

/-- A call that is made is answered by the world. -/
theorem reply_of_makes {moves : List Move} {m : Move}
    (makes : (after p moves).Makes i operation past x (after p (moves ++ [m]))) :
    ∃ next y, (after p moves).tasks[i]? = some ⟨operation, past, .call x.call next⟩ ∧
      x.answer = ((after p moves).world.reply y x.call).1 ∧
      (after p (moves ++ [m])).world = ((after p moves).world.reply y x.call).2 := by
  have step := step_after p moves m
  revert makes step
  generalize after p moves = s
  generalize after p (moves ++ [m]) = s'
  rintro makes (_ | o | ⟨y, task, -⟩)
  · exact absurd rfl makes.changes
  · have hlt := (List.getElem?_eq_some_iff.1 makes.before.choose_spec).1
    exact absurd (List.getElem?_append_left hlt) makes.changes
  · obtain ⟨rfl, rfl, rfl, rfl⟩ := makes.unique ⟨_, _, task, rfl⟩
    exact ⟨_, y, task, rfl, rfl⟩

/-- What is inserted is stored after all that was stored before. -/
theorem documents_of_inserted {moves : List Move} {m : Move} {d : Document}
    (makes : (after p moves).Makes i operation past ⟨.insert d, .ok ()⟩ (after p (moves ++ [m]))) :
    (after p (moves ++ [m])).documents = (after p moves).documents ++ [.of d] := by
  obtain ⟨next, y, -, ha, hw⟩ := reply_of_makes makes
  have effect := (after p moves).world.reply_effect y (.insert d)
  rw [← ha, ← hw] at effect
  change Exchange.Effect _ (after p moves).documents (after p (moves ++ [m])).documents at effect
  revert effect
  generalize (after p moves).documents = docs
  generalize (after p (moves ++ [m])).documents = docs'
  rintro (_ | _ | ⟨keep, -⟩)
  · rfl
  · cases keep

/-- Every call of a task was made in some move. -/
theorem made (p : ControlPlane) (moves : List Move) {later : List Exchange}
    (ht : (after p moves).tasks[i]? = some t) (hpast : t.past = past ++ x :: later) :
    ∃ ms m, ms ++ [m] <+: moves ∧
      (after p ms).Makes i t.operation past x (after p (ms ++ [m])) := by
  induction moves using List.reverseRecOn generalizing t later with
  | nil => cases ht
  | append_singleton moves m ih =>
    have earlier : ∀ {t later}, (after p moves).tasks[i]? = some t → t.past = past ++ x :: later →
        ∃ ms m', ms ++ [m'] <+: moves ++ [m] ∧
          (after p ms).Makes i t.operation past x (after p (ms ++ [m'])) := by
      intro t later ht hpast
      obtain ⟨ms, m', hms, makes⟩ := ih ht hpast
      exact ⟨ms, m', hms.trans (List.prefix_append _ _), makes⟩
    rcases (advance p moves m).task_before ht with ht | hnil | ⟨past', y, rest, makes, hlast, hs⟩
    · exact earlier ht hpast
    · exact absurd (hnil.symm.trans hpast).symm (List.append_ne_nil_of_right_ne_nil _ nofun)
    · rw [hlast] at hpast
      rcases List.eq_nil_or_concat later with rfl | ⟨init, z, rfl⟩
      · obtain ⟨rfl, hx⟩ := List.append_inj' hpast rfl
        obtain rfl := List.singleton_inj.1 hx
        exact ⟨moves, m, List.prefix_refl _, makes⟩
      · have hpast : past' ++ [y] = (past ++ x :: init) ++ [z] := by
          simpa only [List.append_assoc, List.cons_append, List.concat_eq_append] using hpast
        exact earlier (t := ⟨t.operation, past', rest⟩) hs (List.append_inj' hpast rfl).1

/-- What a task has inserted is stored then. -/
theorem stored_of_inserted {moves : List Move} {r : Resource}
    (ht : (after p moves).tasks[i]? = some t) (done : ⟨.insert r.document, .ok ()⟩ ∈ t.past) :
    ∃ ms, ms <+: moves ∧ r.stored ∈ (after p ms).documents := by
  obtain ⟨past, later, hpast⟩ := List.append_of_mem done
  obtain ⟨ms, m, hp, makes⟩ := made p moves ht hpast
  refine ⟨ms ++ [m], hp, ?_⟩
  rw [documents_of_inserted makes]
  exact List.mem_concat_self

/-- What a task reads is a document that meets the filter it asks with. -/
theorem match_of_makes {moves : List Move} {m : Move} {collection : String} {j : Json}
    (makes : (after p moves).Makes i operation past x (after p (moves ++ [m])))
    (h : x.Finds collection j) :
    ∃ filter, (x.call = .findOne collection filter ∨ x.call = .find collection filter) ∧
      ∃ d ∈ (after p moves).documents, d.matches? collection filter = true ∧ d.read = .ok j := by
  obtain ⟨next, y, -, ha, -⟩ := reply_of_makes makes
  refine (after p moves).world.reply_matches y ?_
  rwa [← ha]

/-- A call that is made keeps to every law that its operation follows. -/
theorem follows_of_makes {moves : List Move} {m : Move} {law : List Exchange → Call → Prop}
    {post : List Exchange → Except OpError Outcome → Prop}
    (makes : (after p moves).Makes i operation past x (after p (moves ++ [m])))
    (h : (operation.program p).Follows law post []) : law past x.call := by
  obtain ⟨next, -, htask, -⟩ := reply_of_makes makes
  exact (follows_after p h moves _ (List.mem_of_getElem? htask) rfl).1

/-- A task stays, and what it called before stays its past. -/
theorem task_later (p : ControlPlane) {moves moves' : List Move} (hp : moves <+: moves')
    (ht : (after p moves).tasks[i]? = some t) : ∃ t', (after p moves').tasks[i]? = some t' ∧
      t'.operation = t.operation ∧ t.past <+: t'.past := by
  obtain ⟨later, rfl⟩ := hp
  induction later using List.reverseRecOn with
  | nil => exact ⟨t, by rwa [List.append_nil], rfl, List.prefix_refl _⟩
  | append_singleton later m ih =>
    obtain ⟨t₁, ht₁, hop₁, hp₁⟩ := ih
    rw [← List.append_assoc]
    obtain ⟨t₂, ht₂, hop₂, hp₂⟩ := (advance p _ m).task_after ht₁
    exact ⟨t₂, ht₂, hop₂.trans hop₁, hp₁.trans hp₂⟩

/-! ### Ids -/

theorem mem_ids {id : String} (ht : t ∈ s.tasks) (h : ⟨.freshId, id⟩ ∈ t.past) : id ∈ s.ids :=
  List.mem_flatMap.2 ⟨t, ht, List.mem_filterMap.2 ⟨_, h, rfl⟩⟩

/-- An id was given to one task only. -/
theorem owner_unique (p : ControlPlane) (moves : List Move) {i j : Nat} {t t' : Task} {id : String}
    (ht : (after p moves).tasks[i]? = some t) (ht' : (after p moves).tasks[j]? = some t')
    (h : ⟨.freshId, id⟩ ∈ t.past) (h' : ⟨.freshId, id⟩ ∈ t'.past) : i = j := by
  induction moves using List.reverseRecOn generalizing i j t t' with
  | nil => cases ht
  | append_singleton moves m ih =>
    have hadv := advance p moves m
    -- Whoever has the id had it before, or was given it now, when nobody had it.
    have before : ∀ {j t}, (after p (moves ++ [m])).tasks[j]? = some t → ⟨.freshId, id⟩ ∈ t.past →
        (∃ t₀, (after p moves).tasks[j]? = some t₀ ∧ ⟨.freshId, id⟩ ∈ t₀.past) ∨
          ∃ operation past, (after p moves).Makes j operation past ⟨.freshId, id⟩
            (after p (moves ++ [m])) := by
      intro j t ht h
      rcases hadv.task_before ht with ht | ht | ⟨past, x, rest, makes, hpast, hs⟩
      · exact .inl ⟨t, ht, h⟩
      · rw [ht] at h
        cases h
      · rw [hpast] at h
        rcases List.mem_append.1 h with h | h
        · exact .inl ⟨_, hs, h⟩
        · exact .inr ⟨_, past, List.mem_singleton.1 h ▸ makes⟩
    rcases before ht h with ⟨t₀, h₀, hid⟩ | ⟨operation, past, makes⟩ <;>
      rcases before ht' h' with ⟨t₁, h₁, hid'⟩ | ⟨operation', past', makes'⟩
    · exact ih h₀ h₁ hid hid'
    · exact absurd (mem_ids (List.mem_of_getElem? h₀) hid) ((hadv.of_makes makes').2.2 id rfl)
    · exact absurd (mem_ids (List.mem_of_getElem? h₁) hid') ((hadv.of_makes makes).2.2 id rfl)
    · exact (makes.unique makes').1

/-- Whether a document with an id was ever inserted. -/
def Inserted (s : System) (id : String) : Prop :=
  ∃ (i : Nat) (t : Task) (d : Document), s.tasks[i]? = some t ∧ ⟨.insert d, .ok ()⟩ ∈ t.past ∧
    d.id = id

/-- What was inserted has an id that was given. -/
theorem mem_ids_of_inserted (p : ControlPlane) (moves : List Move) {id : String}
    (h : (after p moves).Inserted id) : id ∈ (after p moves).ids := by
  obtain ⟨i, t, d, ht, hd, rfl⟩ := h
  obtain ⟨before, later, hpast⟩ := List.append_of_mem hd
  obtain ⟨user, scope, input, id, time, cluster, -, rfl, hid, -⟩ :=
    (lawful p moves t (List.mem_of_getElem? ht)).behind before _ later hpast
  refine mem_ids (List.mem_of_getElem? ht) ?_
  rw [hpast]
  exact List.mem_append_left _ hid

theorem Advance.inserted {id : String} (h : Advance s s') (hid : s.Inserted id) :
    s'.Inserted id := by
  obtain ⟨i, t, d, ht, hd, rfl⟩ := hid
  obtain ⟨t', ht', -, hp⟩ := h.task_after ht
  exact ⟨i, t', d, ht', hp.subset hd, rfl⟩

theorem inserted_after (p : ControlPlane) {moves moves' : List Move} {id : String}
    (hp : moves <+: moves') (h : (after p moves).Inserted id) : (after p moves').Inserted id := by
  obtain ⟨later, rfl⟩ := hp
  induction later using List.reverseRecOn with
  | nil => rwa [List.append_nil]
  | append_singleton later m ih =>
    rw [← List.append_assoc]
    exact (advance p _ m).inserted ih

/-- What is inserted has an id that no document ever had. -/
theorem not_inserted (p : ControlPlane) (moves : List Move) (id : String)
    (makes : (after p moves).Makes i operation past x s') (given : ⟨.freshId, id⟩ ∈ past)
    (once : Uncommitted past) : ¬ (after p moves).Inserted id := by
  rintro ⟨j, t, d, ht, hd, rfl⟩
  obtain ⟨before, later, hpast⟩ := List.append_of_mem hd
  obtain ⟨user, scope, input, id, time, cluster, -, rfl, hid, -⟩ :=
    (lawful p moves t (List.mem_of_getElem? ht)).behind before _ later hpast
  have hmem : (⟨.freshId, id⟩ : Exchange) ∈ t.past := by
    rw [hpast]
    exact List.mem_append_left _ hid
  obtain ⟨rest, hs⟩ := makes.before
  obtain rfl := owner_unique p moves ht hs hmem given
  rw [hs] at ht
  cases ht
  exact once _ hd ⟨.inl ⟨_, rfl⟩, rfl⟩

/-! ### Documents -/

/-- What holds of the documents of a moment if it held of all documents before holds always. -/
theorem always (p : ControlPlane) {P : List Move → StoredDocument → Prop}
    (step : ∀ moves m, (∀ ms, ms <+: moves → ∀ d ∈ (after p ms).documents, P ms d) →
      ∀ d ∈ (after p (moves ++ [m])).documents, P (moves ++ [m]) d)
    (moves : List Move) : ∀ d ∈ (after p moves).documents, P moves d := by
  have until_now : ∀ ms, ms <+: moves → ∀ d ∈ (after p ms).documents, P ms d := by
    induction moves using List.reverseRecOn with
    | nil =>
      intro ms hms d hd
      obtain rfl := List.prefix_nil.1 hms
      cases hd
    | append_singleton moves m ih =>
      intro ms hms d hd
      rcases List.prefix_concat_iff.1 hms with rfl | hms
      · exact step moves m ih d hd
      · exact ih ms hms d hd
  exact until_now moves (List.prefix_refl moves)

/-- The ids of the documents. -/
def documentIds (s : System) : List String := s.documents.map (·.id)

/-- In a move ids go, or there is one more that no document ever had. -/
theorem ids_advance (p : ControlPlane) (moves : List Move) (m : Move) :
    (after p (moves ++ [m])).documentIds.Sublist (after p moves).documentIds ∨
      ∃ id, (after p (moves ++ [m])).documentIds = (after p moves).documentIds ++ [id] ∧
        ¬ (after p moves).Inserted id ∧ (after p (moves ++ [m])).Inserted id := by
  unfold documentIds
  cases advance p moves m with
  | idle docs _ => exact .inl (docs ▸ .refl _)
  | call makes act _ _ =>
    obtain ⟨rest, hs⟩ := makes.after
    have new := fun id => not_inserted p moves id makes
    revert act
    generalize (after p moves).documents = docs
    generalize (after p (moves ++ [m])).documents = docs'
    rintro (⟨_, less⟩ | ⟨_, draft, given, once⟩ | _)
    · exact .inl (less.map _)
    · refine .inr ⟨_, List.map_append, draft ▸ new _ given once, ?_⟩
      exact ⟨_, _, _, hs, List.mem_concat_self, rfl⟩
    · refine .inl ?_
      rw [List.map_append, List.map_append, List.map_cons, List.map_cons]

theorem inserted_of_mem (p : ControlPlane) (moves : List Move) :
    ∀ id ∈ (after p moves).documentIds, (after p moves).Inserted id := by
  induction moves using List.reverseRecOn with
  | nil => exact fun id hid => nomatch hid
  | append_singleton moves m ih =>
    intro id hid
    have hadv := advance p moves m
    rcases ids_advance p moves m with hsub | ⟨new, hids, -, hnew⟩
    · exact hadv.inserted (ih id (hsub.subset hid))
    · rw [hids] at hid
      rcases List.mem_append.1 hid with hid | hid
      · exact hadv.inserted (ih id hid)
      · exact List.mem_singleton.1 hid ▸ hnew

/-- No two documents have the same id. -/
theorem ids_nodup (p : ControlPlane) (moves : List Move) : (after p moves).documentIds.Nodup := by
  induction moves using List.reverseRecOn with
  | nil => exact List.nodup_nil
  | append_singleton moves m ih =>
    rcases ids_advance p moves m with hsub | ⟨new, hids, hnew, -⟩
    · exact ih.sublist hsub
    · rw [hids, List.nodup_append]
      refine ⟨ih, List.nodup_singleton new, fun a ha b hb hab => ?_⟩
      rw [hab, List.mem_singleton.1 hb] at ha
      exact hnew (inserted_of_mem p moves new ha)

theorem eq_of_id_eq (p : ControlPlane) (moves : List Move) {d d' : StoredDocument}
    (hd : d ∈ (after p moves).documents) (hd' : d' ∈ (after p moves).documents)
    (h : d.id = d'.id) : d = d' :=
  List.inj_on_of_nodup_map (ids_nodup p moves) hd hd' h

/-- A document was there before, by its id at least, or its id is new. -/
theorem origin (p : ControlPlane) (moves : List Move) (m : Move) {d' : StoredDocument}
    (hd' : d' ∈ (after p (moves ++ [m])).documents) :
    (∃ d ∈ (after p moves).documents, d.id = d'.id) ∨ ¬ (after p moves).Inserted d'.id := by
  have hid : d'.id ∈ (after p (moves ++ [m])).documentIds := List.mem_map_of_mem hd'
  have old : d'.id ∈ (after p moves).documentIds → ∃ d ∈ (after p moves).documents, d.id = d'.id :=
    List.mem_map.1
  rcases ids_advance p moves m with hsub | ⟨new, hids, hnew, -⟩
  · exact .inl (old (hsub.subset hid))
  · rw [hids] at hid
    rcases List.mem_append.1 hid with hid | hid
    · exact .inl (old hid)
    · exact .inr (List.mem_singleton.1 hid ▸ hnew)

/-- A document that was stored at some moment and still is was stored one move before as well. -/
theorem stored_before (p : ControlPlane) {earlier moves : List Move} (hp : earlier <+: moves)
    (m : Move) {d d' : StoredDocument} (hd : d ∈ (after p earlier).documents)
    (hd' : d' ∈ (after p (moves ++ [m])).documents) (hid : d.id = d'.id) :
    ∃ d₀ ∈ (after p moves).documents, d₀.id = d'.id := by
  rcases origin p moves m hd' with hold | hnew
  · exact hold
  · refine absurd (inserted_after p hp ?_) hnew
    exact hid ▸ inserted_of_mem p earlier d.id (List.mem_map_of_mem hd)

/-- What every move from some moment on does to a document, the run since then did to it. -/
theorem descent (p : ControlPlane) {R : StoredDocument → StoredDocument → Prop}
    (refl : ∀ d, R d d) (trans : ∀ {a b c}, R a b → R b c → R a c) {earlier moves : List Move}
    (hp : earlier <+: moves)
    (step : ∀ ms m, earlier <+: ms → ms ++ [m] <+: moves → ∀ d ∈ (after p ms).documents,
      ∀ d' ∈ (after p (ms ++ [m])).documents, d.id = d'.id → R d d')
    {d d' : StoredDocument} (hd : d ∈ (after p earlier).documents)
    (hd' : d' ∈ (after p moves).documents) (hid : d.id = d'.id) : R d d' := by
  obtain ⟨later, rfl⟩ := hp
  induction later using List.reverseRecOn generalizing d' with
  | nil =>
    rw [List.append_nil] at hd'
    exact eq_of_id_eq p earlier hd hd' hid ▸ refl d
  | append_singleton later m ih =>
    rw [← List.append_assoc] at hd' step
    have hpre : earlier <+: earlier ++ later := List.prefix_append earlier later
    obtain ⟨d₀, hd₀, hid₀⟩ := stored_before p hpre m hd hd' hid
    have step' := fun ms m' he (hm : ms ++ [m'] <+: earlier ++ later) =>
      step ms m' he (hm.trans (List.prefix_append _ [m]))
    refine trans (ih (hid.trans hid₀.symm) step' hd₀) ?_
    exact step _ m hpre (List.prefix_refl _) d₀ hd₀ d' hd' hid₀

/-- What every move does to the documents of one id, a run does to them. -/
theorem descent_of_id (p : ControlPlane) {R : StoredDocument → StoredDocument → Prop}
    (refl : ∀ d, R d d) (trans : ∀ {a b c}, R a b → R b c → R a c) {earlier moves : List Move}
    (hp : earlier <+: moves) {id : String}
    (step : ∀ ms m, earlier <+: ms → ms ++ [m] <+: moves → ∀ d ∈ (after p ms).documents,
      ∀ d' ∈ (after p (ms ++ [m])).documents, d.id = id → d'.id = id → R d d')
    {d d' : StoredDocument} (hd : d ∈ (after p earlier).documents)
    (hd' : d' ∈ (after p moves).documents) (hid : d.id = id) (hid' : d'.id = id) : R d d' := by
  refine (descent p (R := fun d d' => d.id = id → d'.id = id ∧ R d d') (fun d hid => ⟨hid, refl d⟩)
    (fun h h' hid => ?_) hp (fun ms m he hm d₁ hd₁ d₂ hd₂ h₁₂ hid₁ => ?_) hd hd'
    (hid.trans hid'.symm) hid).2
  · obtain ⟨hid, hr⟩ := h hid
    exact (h' hid).imp_right (trans hr)
  · have hid₂ := h₁₂.symm.trans hid₁
    exact ⟨hid₂, step ms m he hm d₁ hd₁ d₂ hd₂ hid₁ hid₂⟩

/-! ### Reading -/

/-- What was read was stored at some moment before. -/
theorem read_stored (p : ControlPlane) (moves : List Move) {t : Task} {kind : Kind} {r : Resource}
    (ht : t ∈ (after p moves).tasks) (hr : Reads t.past kind r) :
    ∃ ms, ms <+: moves ∧ ∃ d ∈ (after p ms).documents, d.ReadsAs kind r := by
  induction moves using List.reverseRecOn generalizing t with
  | nil => cases ht
  | append_singleton moves m ih =>
    have earlier : ∀ {t}, t ∈ (after p moves).tasks → Reads t.past kind r →
        ∃ ms, ms <+: moves ++ [m] ∧ ∃ d ∈ (after p ms).documents, d.ReadsAs kind r := by
      intro t ht hr
      obtain ⟨ms, hms, h⟩ := ih ht hr
      exact ⟨ms, hms.trans (List.prefix_append _ _), h⟩
    obtain ⟨j, hj⟩ := List.mem_iff_getElem?.1 ht
    rcases (advance p moves m).task_before hj with hj | hj | ⟨past, x, rest, makes, hpast, hs⟩
    · exact earlier (List.mem_of_getElem? hj) hr
    · obtain ⟨x, hx, -⟩ := hr
      rw [hj] at hx
      cases hx
    · obtain ⟨y, hy, j, hj, hd⟩ := hr
      rw [hpast] at hy
      rcases List.mem_append.1 hy with hy | hy
      · exact earlier (List.mem_of_getElem? hs) ⟨y, hy, j, hj, hd⟩
      · obtain rfl := List.mem_singleton.1 hy
        obtain ⟨d, hmem, hcol, hread⟩ := ((advance p moves m).of_makes makes).2.1 _ j hj
        exact ⟨moves, List.prefix_append _ _, d, hmem, hcol, j, hread, hd⟩

end System

end FleetSync
