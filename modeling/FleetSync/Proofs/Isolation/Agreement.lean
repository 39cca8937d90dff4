import FleetSync.Proofs.Interleaving.Effect
import FleetSync.Proofs.Isolation.Alike
import FleetSync.Proofs.Isolation.Part

/-!
# Worlds that agree on an account

Two worlds agree on an account if they have the same documents and mappings of it (`World.Agree`).
A call within the account leaves a world in agreement with itself on all other accounts
(`World.reply_others`), and in worlds that agree on its own account it is answered alike and leaves
them so (`World.reply_alike`), if the same collections are blocked in both. What it adds to the bus
and to the events is told from the call and its answer (`World.reply_adds`).
-/

namespace FleetSync

namespace World

/-- A world with the documents and mappings of an account only. -/
def partOf (w : World) (account : String) : World :=
  { w with documents := w.documents.partOf account, mappings := w.mappings.partOf account }

/-- Whether two worlds have the same documents and mappings of an account, in the same order. -/
structure Agree (account : String) (w w' : World) : Prop where
  documents : w.documents.partOf account = w'.documents.partOf account
  mappings : w.mappings.partOf account = w'.mappings.partOf account

variable (checker : Checker) (w : World) {account other : String} {c : Call}

/-- A call within an account changes nothing of another. -/
theorem answer_others (h : c.Within account w.documents.documents)
    (keeps : w.documents.KeepsAccounts (w.answer checker c).2.documents) (ho : account ≠ other) :
    Agree other (w.answer checker c).2 w := by
  cases c with
  | insert d =>
    rw [answer]
    cases hs : w.documents.insert d with
    | error e => exact ⟨rfl, rfl⟩
    | ok s => exact ⟨DocumentStore.insert_others h.1 ho hs, rfl⟩
  | patchOne collection filter patch =>
    rw [answer] at keeps ⊢
    cases hs : w.documents.patchOne collection filter patch with
    | error e => exact ⟨rfl, rfl⟩
    | ok r =>
      rw [hs] at keeps
      exact ⟨DocumentStore.patchOne_others h ho hs keeps, rfl⟩
  | deleteOne collection filter =>
    rw [answer]
    cases hs : w.documents.deleteOne collection filter with
    | error e => exact ⟨rfl, rfl⟩
    | ok r => exact ⟨DocumentStore.deleteOne_others h ho hs, rfl⟩
  | deleteMany collection filter =>
    rw [answer]
    cases hs : w.documents.deleteMany collection filter with
    | error e => exact ⟨rfl, rfl⟩
    | ok r => exact ⟨DocumentStore.deleteMany_others h ho hs, rfl⟩
  | upsert m =>
    rw [answer]
    cases hs : w.mappings.upsert m with
    | error e => exact ⟨rfl, rfl⟩
    | ok x => exact ⟨rfl, MappingIndex.upsert_others h ho hs⟩
  | removeMapping k => exact ⟨rfl, MappingIndex.remove_others h ho⟩
  | removeScope s => exact ⟨rfl, MappingIndex.removeScope_others h ho⟩
  | reassignScope s cluster => exact ⟨rfl, MappingIndex.reassign_others h ho cluster⟩
  | _ => exact ⟨rfl, rfl⟩

/-- In a collection that is blocked a call within an account fails. -/
theorem answer_of_blocks {collection : String} (h : c.Within account w.documents.documents)
    (hc : c.collection? = some collection) (blocks : w.documents.Blocks account collection) :
    c.failure? DocumentStore.failed = some (w.answer checker c).1 ∧
      (w.answer checker c).2 = w := by
  cases c with
  | patchOne collection' filter patch =>
    obtain rfl := Option.some.inj hc
    have failed : w.documents.patchOne collection' filter patch = .error DocumentStore.failed := by
      unfold DocumentStore.patchOne DocumentStore.findOne
      rw [DocumentStore.selectAll_of_blocks h blocks, DocumentStore.selectOne_of_blocks h blocks]
      split
      · rfl
      split <;> rfl
    rw [answer, failed]
    exact ⟨rfl, rfl⟩
  | findOne collection' filter =>
    obtain rfl := Option.some.inj hc
    rw [answer, DocumentStore.findOne, DocumentStore.selectAll_of_blocks h blocks]
    exact ⟨rfl, rfl⟩
  | find collection' filter =>
    obtain rfl := Option.some.inj hc
    rw [answer, DocumentStore.find, DocumentStore.selectAll_of_blocks h blocks]
    exact ⟨rfl, rfl⟩
  | deleteOne collection' filter =>
    obtain rfl := Option.some.inj hc
    rw [answer, DocumentStore.deleteOne, DocumentStore.selectOne_of_blocks h blocks]
    exact ⟨rfl, rfl⟩
  | deleteMany collection' filter =>
    obtain rfl := Option.some.inj hc
    rw [answer, DocumentStore.deleteMany, DocumentStore.selectAll_of_blocks h blocks]
    exact ⟨rfl, rfl⟩
  | _ => cases hc

/-- In all others it is answered, and done, by the part of its account alone. -/
theorem answer_partOf (h : c.Within account w.documents.documents)
    (keeps : w.documents.KeepsAccounts (w.answer checker c).2.documents)
    (clear : ∀ collection, c.collection? = some collection →
      ¬ w.documents.Blocks account collection) :
    (w.partOf account).answer checker c =
      ((w.answer checker c).1, (w.answer checker c).2.partOf account) := by
  cases c with
  | insert d =>
    rw [answer, answer, partOf, DocumentStore.insert_partOf h.1 h.2]
    cases w.documents.insert d <;> rfl
  | patchOne collection filter patch =>
    rw [answer] at keeps
    rw [answer, answer, partOf, DocumentStore.patchOne_partOf h (clear collection rfl) ?_]
    · cases w.documents.patchOne collection filter patch <;> rfl
    · intro hit s hs
      rw [hs] at keeps
      exact keeps
  | findOne collection filter =>
    rw [answer, answer, partOf, DocumentStore.findOne_partOf h (clear collection rfl)]
  | find collection filter =>
    rw [answer, answer, partOf, DocumentStore.find_partOf h (clear collection rfl)]
  | deleteOne collection filter =>
    rw [answer, answer, partOf, DocumentStore.deleteOne_partOf h (clear collection rfl)]
    cases w.documents.deleteOne collection filter <;> rfl
  | deleteMany collection filter =>
    rw [answer, answer, partOf, DocumentStore.deleteMany_partOf h (clear collection rfl)]
    cases w.documents.deleteMany collection filter <;> rfl
  | upsert m =>
    rw [answer, answer, partOf, MappingIndex.upsert_partOf h]
    cases w.mappings.upsert m <;> rfl
  | resolve s => rw [answer, answer, partOf, MappingIndex.resolve_partOf h]
  | removeMapping k =>
    rw [answer, answer, partOf, MappingIndex.remove_partOf h]
    rfl
  | removeScope s =>
    rw [answer, answer, partOf, MappingIndex.removeScope_partOf h]
    rfl
  | reassignScope s cluster =>
    rw [answer, answer, partOf, MappingIndex.reassign_partOf h]
    rfl
  | _ => rfl

/-- Worlds with the same documents and mappings, at the same time, answer alike. -/
theorem answer_alike (w' : World) (hc : c ≠ .freshId) (documents : w.documents = w'.documents)
    (mappings : w.mappings = w'.mappings) (clock : w.clock = w'.clock) :
    Exchange.Alike ⟨c, (w.answer checker c).1⟩ ⟨c, (w'.answer checker c).1⟩ ∧
      (w.answer checker c).2.documents = (w'.answer checker c).2.documents ∧
      (w.answer checker c).2.mappings = (w'.answer checker c).2.mappings := by
  obtain ⟨docs, maps, bus, events, time, given⟩ := w
  obtain ⟨docs', maps', bus', events', time', given'⟩ := w'
  obtain rfl : docs = docs' := documents
  obtain rfl : maps = maps' := mappings
  obtain rfl : time = time' := clock
  cases c with
  | freshId => exact absurd rfl hc
  | publish topic key payload => exact ⟨.published .., rfl, rfl⟩
  | insert d =>
    simp only [answer]
    cases docs.insert d <;> exact ⟨.same _, rfl, rfl⟩
  | patchOne collection filter patch =>
    simp only [answer]
    cases docs.patchOne collection filter patch <;> exact ⟨.same _, rfl, rfl⟩
  | deleteOne collection filter =>
    simp only [answer]
    cases docs.deleteOne collection filter <;> exact ⟨.same _, rfl, rfl⟩
  | deleteMany collection filter =>
    simp only [answer]
    cases docs.deleteMany collection filter <;> exact ⟨.same _, rfl, rfl⟩
  | upsert m =>
    simp only [answer]
    cases maps.upsert m <;> exact ⟨.same _, rfl, rfl⟩
  | _ => exact ⟨.same _, rfl, rfl⟩

/-! ### Under any circumstances -/

/-- Whether the same collections are blocked for an account. -/
def SameBlocks (account : String) (w w' : World) : Prop := ∀ collection,
  w.documents.Blocks account collection ↔ w'.documents.Blocks account collection

variable {w} {w' : World} {x : Circumstances}

theorem reply_others (h : c.Within account w.documents.documents)
    (keeps : w.documents.KeepsAccounts (w.reply x c).2.documents) (ho : account ≠ other) :
    Agree other (w.reply x c).2 w := by
  rcases w.reply_cases x c with hw | ⟨-, hw⟩ | ⟨-, hw⟩
  · rw [hw] at keeps ⊢
    obtain ⟨documents, mappings⟩ := answer_others _ { w with clock := x.time } h keeps ho
    exact ⟨documents, mappings⟩
  · rw [hw]
    exact ⟨rfl, rfl⟩
  · rw [hw]
    exact ⟨rfl, rfl⟩

/-- Whatever is not an id is answered by the world, unless it fails. -/
theorem reply_of_ne (hc : c ≠ .freshId) (w : World) :
    w.reply x c = match x.failure.bind c.failure? with
      | some a => (a, w)
      | none => World.answer (fun _ _ _ => x.permission) c { w with clock := x.time } := by
  cases c <;> first | rfl | exact absurd rfl hc

/-- Worlds that agree on an account answer a call within it alike, and agree after it, if the same
collections are blocked. -/
theorem reply_alike (h : c.Within account w.documents.documents)
    (h' : c.Within account w'.documents.documents)
    (keeps : w.documents.KeepsAccounts (w.reply x c).2.documents)
    (keeps' : w'.documents.KeepsAccounts (w'.reply x c).2.documents)
    (agree : Agree account w w') (blocks : SameBlocks account w w') :
    Exchange.Alike ⟨c, (w.reply x c).1⟩ ⟨c, (w'.reply x c).1⟩ ∧
      Agree account (w.reply x c).2 (w'.reply x c).2 := by
  by_cases hc : c = .freshId
  · subst hc
    exact ⟨.same _, agree⟩
  rw [reply_of_ne hc] at keeps keeps' ⊢
  rw [reply_of_ne hc]
  cases hx : x.failure.bind c.failure? with
  | some a => exact ⟨.same _, agree⟩
  | none =>
    simp only [hx] at keeps keeps' ⊢
    generalize (fun _ _ _ => x.permission : Checker) = checker at keeps keeps' ⊢
    by_cases hblocked : ∃ collection, c.collection? = some collection ∧
        w.documents.Blocks account collection
    · obtain ⟨collection, hcol, hb⟩ := hblocked
      obtain ⟨ha, hw⟩ := answer_of_blocks checker { w with clock := x.time } h hcol hb
      obtain ⟨ha', hw'⟩ := answer_of_blocks checker { w' with clock := x.time } h' hcol
        ((blocks collection).1 hb)
      rw [hw, hw', Option.some.inj (ha.symm.trans ha')]
      exact ⟨.same _, agree.documents, agree.mappings⟩
    · have clear : ∀ collection, c.collection? = some collection →
          ¬ w.documents.Blocks account collection :=
        fun collection hcol hb => hblocked ⟨collection, hcol, hb⟩
      have part := answer_partOf checker { w with clock := x.time } h keeps clear
      have part' := answer_partOf checker { w' with clock := x.time } h' keeps'
        fun collection hcol hb => clear collection hcol ((blocks collection).2 hb)
      -- Both are answered as the part is, which is the same.
      obtain ⟨alike, documents, mappings⟩ := answer_alike checker
        (partOf { w with clock := x.time } account) (partOf { w' with clock := x.time } account)
        hc agree.documents agree.mappings rfl
      rw [part, part'] at alike documents mappings
      exact ⟨alike, documents, mappings⟩

end World

/-! ## What is added -/

/-- A bus after some more messages were published, by topic, key and payload. -/
def MemoryBus.publishAll (b : MemoryBus) (messages : List (String × String × ByteArray)) :
    MemoryBus :=
  messages.foldl (fun b m => (b.publish m.1 m.2.1 m.2.2).2) b

namespace Exchange

/-- The message that was published, if one was. -/
def messages : Exchange → List (String × String × ByteArray)
  | ⟨.publish topic key payload, .ok _⟩ => [(topic, key, payload)]
  | _ => []

/-- The event that was told, if one was. -/
def events : Exchange → List Event
  | ⟨.emit e, _⟩ => [e]
  | _ => []

theorem Alike.messages_eq {x y : Exchange} (h : x.Alike y) : x.messages = y.messages := by
  cases h <;> rfl

theorem Alike.events_eq {x y : Exchange} (h : x.Alike y) : x.events = y.events := by
  cases h <;> rfl

end Exchange

namespace World

/-- Whether a world has some more messages and events than another. -/
structure Adds (messages : List (String × String × ByteArray)) (events : List Event)
    (w w' : World) : Prop where
  bus : w'.bus = w.bus.publishAll messages
  events : w'.events = w.events ++ events

theorem Adds.trans {messages messages' : List (String × String × ByteArray)}
    {events events' : List Event} {w w' w'' : World} (h : Adds messages events w w')
    (h' : Adds messages' events' w' w'') :
    Adds (messages ++ messages') (events ++ events') w w'' where
  bus := by rw [h'.bus, h.bus, MemoryBus.publishAll, MemoryBus.publishAll, MemoryBus.publishAll,
    List.foldl_append]
  events := by rw [h'.events, h.events, List.append_assoc]

theorem Adds.nothing {w w' : World} (bus : w'.bus = w.bus) (events : w'.events = w.events) :
    Adds [] [] w w' := ⟨bus, events.trans (List.append_nil _).symm⟩

theorem answer_adds (checker : Checker) (c : Call) (w : World) :
    Adds (Exchange.messages ⟨c, (w.answer checker c).1⟩)
      (Exchange.events ⟨c, (w.answer checker c).1⟩) w (w.answer checker c).2 := by
  cases c with
  | publish topic key payload => exact ⟨rfl, (List.append_nil _).symm⟩
  | emit e => exact ⟨rfl, rfl⟩
  | insert d =>
    rw [answer]
    cases w.documents.insert d <;> exact .nothing rfl rfl
  | patchOne collection filter patch =>
    rw [answer]
    cases w.documents.patchOne collection filter patch <;> exact .nothing rfl rfl
  | deleteOne collection filter =>
    rw [answer]
    cases w.documents.deleteOne collection filter <;> exact .nothing rfl rfl
  | deleteMany collection filter =>
    rw [answer]
    cases w.documents.deleteMany collection filter <;> exact .nothing rfl rfl
  | upsert m =>
    rw [answer]
    cases w.mappings.upsert m <;> exact .nothing rfl rfl
  | _ => exact .nothing rfl rfl

/-- A call adds the message or the event that it is to add, if it does not fail. -/
theorem reply_adds (x : Circumstances) (c : Call) (w : World) :
    Adds (Exchange.messages ⟨c, (w.reply x c).1⟩) (Exchange.events ⟨c, (w.reply x c).1⟩) w
      (w.reply x c).2 := by
  rcases w.reply_cases x c with hw | ⟨⟨e, he⟩, hw⟩ | ⟨rfl, hw⟩
  · rw [hw]
    obtain ⟨bus, events⟩ := answer_adds (fun _ _ _ => x.permission) c { w with clock := x.time }
    exact ⟨bus, events⟩
  · rw [hw]
    generalize (w.reply x c).1 = a at he
    cases c <;> cases he <;> exact .nothing rfl rfl
  · rw [hw]
    exact .nothing rfl rfl

end World

end FleetSync
