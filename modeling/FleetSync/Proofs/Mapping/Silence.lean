import FleetSync.Proofs.Mapping.Reattachment
import FleetSync.Proofs.Sequence.Messages

/-!
# Detached projects are silent

Once a project is detached, no row is filed in its scope and its document names no cluster
(`Ledger.Silent`), so none of its members belongs to a cluster (`Ledger.Silent.target`). An honest
call files a resource, stores it or sends it only with the cluster that it belongs to. Hence the
project stays silent, whatever is done and whatever fails (`Operation.Honest.silent`), until its
document is created or updated again (`System.detached_silent`). The kind of projects has to be
registered, or the document keeps its cluster (`System.unregistered_not_silent`).
-/

namespace FleetSync

/-! ## What honest calls do to a ledger -/

/-- Whether a card is another one that may have come off its cluster or to the one it belongs to. -/
structure Card.Follows (l : Ledger) (d c : Card) : Prop where
  id : c.id = d.id
  key : c.key = d.key
  bound : c.bound = d.bound ∨ c.bound = none
  cluster : c.cluster = d.cluster ∨ c.cluster = none ∨ c.cluster = l.target c

/-- Whether a card is that of a resource as an operation desires it. -/
structure Card.Desired (l : Ledger) (operation : Operation) (c : Card) : Prop where
  placed : c.key.Placed
  desired : operation.desires? = some c.key.identity
  cluster : c.cluster = l.target c

/-- Whether a card follows one of a ledger, or is as an operation desires it. -/
def Card.Comes (l : Ledger) (operation : Operation) (c : Card) : Prop :=
  (∃ d ∈ l.cards, d.Follows l c) ∨ c.Desired l operation

theorem Card.Follows.refl (l : Ledger) (c : Card) : c.Follows l c := ⟨rfl, rfl, .inl rfl, .inl rfl⟩

/-- An honest edit makes a card that follows the one that was read, or is as desired. -/
theorem Edit.Honest.comes {e : Edit} {operation : Operation} {w : World}
    (h : e.Honest operation w) (keyed : w.ledger.Keyed) :
    (e.cardOf e.current.card).Comes w.ledger operation := by
  have mem := h.shown.card_mem
  have placed := keyed.placed _ mem
  rcases e with ⟨current, change⟩
  cases change with
  | attach cluster =>
    exact .inl ⟨_, mem, rfl, rfl, .inl rfl, .inr (.inr (h.attached cluster rfl))⟩
  | revise input user time cluster =>
    obtain ⟨hkind, hcluster, hdesired⟩ := h.revised input user time cluster rfl
    rw [Edit.card_apply (e := ⟨current, .revise input user time cluster⟩) hkind.symm] at hcluster
    exact .inr ⟨placed, hdesired, hcluster⟩
  | detach time => exact .inl ⟨_, mem, rfl, rfl, .inr rfl, .inr (.inl rfl)⟩
  | _ => exact .inl ⟨_, mem, rfl, rfl, .inl rfl, .inl rfl⟩

namespace Operation.Honest

variable {operation : Operation} {p : ControlPlane} {w : World} {c : Call} {x : Circumstances}
  {d : Card} {r : MappingRow}

/-- After an honest call every card is one from before, or that of an honest edit, or that of a new
resource on the cluster that it belongs to. -/
theorem card_cases (honest : operation.Honest True p w c) (tidy : w.documents.Tidy)
    (hd : d ∈ (w.reply x c).2.ledger.cards) : d ∈ w.ledger.cards ∨
      (∃ e : Edit, e.Honest operation w ∧ d = e.cardOf e.current.card) ∨
      ∃ r : Resource, d = r.card ∧ r.card.key.Placed ∧ r.clusterName = w.ledger.target r.card ∧
        operation.desires? = some r.card.key.identity := by
  have failed : ∀ {e : OpError}, c.failure? e = some (w.reply x c).1 → d ∈ w.ledger.cards :=
    fun h => w.ledger_of_failed x h ▸ hd
  have looked : c.isRead = true → d ∈ w.ledger.cards := fun h => w.ledger_of_reads x h ▸ hd
  have less : ∀ {documents : DocumentStore} {w' : World}, w'.documents = documents →
      documents.documents.Sublist w.documents.documents → d ∈ w'.ledger.cards →
      d ∈ w.ledger.cards := by
    rintro _ w' rfl hs hd
    exact (hs.map _).subset hd
  cases c with
  | insert document =>
    obtain ⟨r, rfl, placed, attached, desired⟩ := honest
    cases ha : (w.reply x (.insert r.document)).1 with
    | error e => exact .inl (failed (congrArg some ha.symm))
    | ok u =>
      obtain ⟨documents, hs, hw⟩ := w.insert_of_reply x ha
      rw [hw, World.ledger_with_documents w (DocumentStore.Tidy.insert hs)] at hd
      rcases List.mem_append.1 hd with hd | hd
      · exact .inl hd
      · exact .inr (.inr ⟨r, List.mem_singleton.1 hd, placed, attached, desired⟩)
  | patchOne collection filter patch =>
    obtain ⟨e, he, honest⟩ := honest
    obtain ⟨rfl, rfl, rfl⟩ := Call.patchOne.inj he
    cases ha : (w.reply x
        (.patchOne e.current.kind.collection e.filter (.ofFields e.changes))).1 with
    | error e => exact .inl (failed (congrArg some ha.symm))
    | ok hit =>
      obtain ⟨documents, hs, hw⟩ := w.patchOne_of_reply x ha
      have hkind : ∀ input user time cluster, e.change = .revise input user time cluster →
          e.current.kind = input.kind :=
        fun input user time cluster h => (honest.revised input user time cluster h).1
      rw [hw] at hd
      rcases tidy.patch honest.shown.card_mem hkind hs with ⟨-, hcards⟩ | ⟨-, -, rfl⟩
      · rw [World.ledger_with_documents w hcards] at hd
        rcases Card.mem_replaceIn.1 hd with ⟨hd, -⟩ | ⟨rfl, -⟩
        · exact .inl hd
        · exact .inr (.inl ⟨e, honest, rfl⟩)
      · exact .inl hd
  | deleteOne collection filter =>
    cases ha : (w.reply x (.deleteOne collection filter)).1 with
    | error e => exact .inl (failed (congrArg some ha.symm))
    | ok hit =>
      obtain ⟨documents, hs, hw⟩ := w.deleteOne_of_reply x ha
      exact .inl (less (by rw [hw]) (DocumentStore.deleteOne_sublist hs) hd)
  | deleteMany collection filter =>
    cases ha : (w.reply x (.deleteMany collection filter)).1 with
    | error e => exact .inl (failed (congrArg some ha.symm))
    | ok n =>
      obtain ⟨documents, hs, hw⟩ := w.deleteMany_of_reply x ha
      exact .inl (less (by rw [hw]) (DocumentStore.deleteMany_sublist hs) hd)
  | upsert | removeMapping | removeScope | reassignScope | publish =>
    exact .inl (less (w.reply_keeps x rfl).documents (.refl _) hd)
  | now | freshId | authorize | findOne | find | resolve | emit => exact .inl (looked rfl)

/-- After an honest call every card follows one from before or is as desired. -/
theorem comes (honest : operation.Honest True p w c) (tidy : w.documents.Tidy)
    (keyed : w.ledger.Keyed) (hd : d ∈ (w.reply x c).2.ledger.cards) :
    d.Comes w.ledger operation := by
  rcases honest.card_cases tidy hd with hd | ⟨e, honest, rfl⟩ | ⟨r, rfl, placed, attached, desired⟩
  · exact .inl ⟨d, hd, .refl _ d⟩
  · exact honest.comes keyed
  · exact .inr ⟨placed, desired, attached⟩

/-- After an honest call every row is one from before, perhaps with another cluster, or that of a
stored resource and the cluster it belongs to. -/
theorem row_origin (honest : operation.Honest True p w c)
    (hr : r ∈ (w.reply x c).2.ledger.rows) :
    (∃ r₀ ∈ w.ledger.rows, r = { r₀ with cluster := r.cluster }) ∨
      ∃ d ∈ w.ledger.cards, ∃ y, w.ledger.target d = some y ∧ r = d.key.row y := by
  have kept : r ∈ w.ledger.rows → (∃ r₀ ∈ w.ledger.rows, r = { r₀ with cluster := r.cluster }) ∨
      ∃ d ∈ w.ledger.cards, ∃ y, w.ledger.target d = some y ∧ r = d.key.row y :=
    fun h => .inl ⟨r, h, rfl⟩
  rcases w.reply_answered x c with hw | same
  · rw [hw] at hr
    cases c with
    | upsert m =>
      obtain ⟨d, hd, y, hrow, target⟩ := honest
      simp only [World.answer] at hr
      split at hr
      · rename_i mappings hm
        rw [MappingIndex.upsert, MappingIndex.insert] at hm
        split at hm
        · cases hm
        · obtain rfl := Except.ok.inj hm
          rcases List.mem_append.1 hr with hr | hr
          · exact kept (List.mem_filter.1 hr).1
          · exact .inr ⟨d, hd, y, target, (List.mem_singleton.1 hr).trans hrow⟩
      · exact kept hr
    | removeMapping | removeScope => exact kept (List.mem_filter.1 hr).1
    | reassignScope s cluster =>
      obtain ⟨r₀, hr₀, rfl⟩ := List.mem_map.1 hr
      refine .inl ⟨r₀, hr₀, ?_⟩
      split <;> rfl
    | insert | patchOne | deleteOne | deleteMany =>
      simp only [World.answer] at hr
      split at hr <;> exact kept hr
    | _ => exact kept hr
  · exact kept (same.ledger ▸ hr)

/-- Honest calls keep to keys that resources may have. -/
theorem keyed (honest : operation.Honest True p w c) (tidy : w.documents.Tidy)
    (keyed : w.ledger.Keyed) : (w.reply x c).2.ledger.Keyed := by
  refine ⟨fun d hd => ?_, fun r hr => ?_⟩
  · rcases honest.comes tidy keyed hd with ⟨d₀, hd₀, follows⟩ | desired
    · exact follows.key ▸ keyed.placed d₀ hd₀
    · exact desired.placed
  · rcases honest.row_origin hr with ⟨r₀, hr₀, heq⟩ | ⟨d, hd, y, -, rfl⟩
    · obtain ⟨k, placed, hk⟩ := keyed.rows r₀ hr₀
      refine ⟨k, placed, heq.trans ?_⟩
      rw [hk]
      rfl
    · exact ⟨d.key, keyed.placed d hd, rfl⟩

end Operation.Honest

/-! ## Silence -/

namespace Ledger

variable {l l' : Ledger} {a q : String} {c : Card}

/-- Whether nothing says on which cluster a project is: no row is filed in its scope, and its
document names none. -/
structure Silent (l : Ledger) (a q : String) : Prop where
  keyed : l.Keyed
  rows : ∀ r ∈ l.rows, r.inScope (.project a q) = false
  bound : ∀ c ∈ l.cards, (Scope.project a q).takes c.key = true → c.key.kind = .project →
    c.bound = none

/-- The owner of the scope that a member of a project lives in is a member, too. -/
theorem takes_of_owns_scope {k k' : MappingKey} (h : k.Owns k'.scope)
    (ht : (Scope.project a q).takes k' = true) : (Scope.project a q).takes k = true := by
  obtain ⟨rfl, rfl⟩ := takes_project.1 ht
  rw [MappingKey.scope] at h
  cases he : k'.environment with
  | none =>
    rw [he] at h
    exact takes_project.2 ⟨h.2.1, h.2.2⟩
  | some e =>
    rw [he] at h
    exact takes_project.2 ⟨h.2.1, h.2.2.1⟩

/-- Where no row is filed in the scope of a project its members are mapped to no cluster. -/
theorem resolve_of_vacant {rows : List MappingRow}
    (keyed : ∀ r ∈ rows, ∃ k : MappingKey, k.Placed ∧ r = k.row r.cluster)
    (vacant : ∀ r ∈ rows, r.inScope (.project a q) = false) {k : MappingKey}
    (ht : (Scope.project a q).takes k = true) : (MappingIndex.mk rows).resolve k.scope = none := by
  have no_owner : rows.filter (·.ownsScope k.scope) = [] := by
    refine List.filter_eq_nil_iff.2 fun r hr howns => ?_
    obtain ⟨k', placed, heq⟩ := keyed r hr
    rw [heq, placed.owns_iff] at howns
    have hin := vacant r hr
    rw [heq, placed.inScope_row, takes_of_owns_scope howns ht] at hin
    cases hin
  rw [MappingIndex.resolve, no_owner]
  rfl

/-- The members of a silent project belong to no cluster. -/
theorem Silent.target (h : l.Silent a q) (ht : (Scope.project a q).takes c.key = true)
    (bound : c.key.kind = .project → c.bound = none) : l.target c = none := by
  rw [Ledger.target]
  split
  · rename_i hk
    exact bound hk
  · exact resolve_of_vacant h.keyed.rows h.rows ht

/-- A member of a project that is a project is the one that the scope is called after. -/
theorem identity_of_takes (placed : c.key.Placed) (ht : (Scope.project a q).takes c.key = true)
    (hk : c.key.kind = .project) : c.key.identity = ⟨.project, a, q, none, q⟩ := by
  obtain ⟨rfl, rfl⟩ := takes_project.1 ht
  rw [MappingKey.identity, hk, placed.own hk, placed.environment_none (by rw [hk]; rfl)]

/-- When a project is detached, it falls silent. -/
theorem Detaching.silent {waits : Card → Prop} (h : l.Detaching (.project a q) waits l')
    (keyed : l'.Keyed) (settled : ∀ c ∈ l'.cards, c.key.kind = .project → ¬ waits c) :
    l'.Silent a q where
  keyed := keyed
  rows r hr := by
    rw [h.rows, List.mem_filter] at hr
    simpa using hr.2
  bound c hc ht hk := by
    rcases h.members c hc with ⟨-, hwaits⟩ | ⟨d, -, rfl⟩
    · exact absurd (hwaits ht) (settled c hc hk)
    · rfl

end Ledger

namespace Operation.Honest

variable {operation : Operation} {p : ControlPlane} {w : World} {c : Call} {x : Circumstances}
  {a q : String} {d : Card}

/-- What an honest call makes of a member of a silent project has come from a member, or belongs to
no cluster, unless the project is desired. -/
theorem target_of_silent (honest : operation.Honest True p w c) (tidy : w.documents.Tidy)
    (silent : w.ledger.Silent a q) (undesired : operation.desires? ≠ some ⟨.project, a, q, none, q⟩)
    (hd : d ∈ (w.reply x c).2.ledger.cards) (ht : (Scope.project a q).takes d.key = true) :
    w.ledger.target d = none ∧ (d.key.kind = .project → d.bound = none) ∧
      ((∃ d₀ ∈ w.ledger.cards, d₀.Follows w.ledger d) ∨ d.cluster = w.ledger.target d) := by
  rcases honest.comes tidy silent.keyed hd with ⟨d₀, hd₀, follows⟩ | desired
  · have bound : d.key.kind = .project → d.bound = none := by
      intro hk
      rw [follows.key] at ht hk
      have hnone := silent.bound d₀ hd₀ ht hk
      exact follows.bound.elim (fun h => h.trans hnone) id
    exact ⟨silent.target ht bound, bound, .inl ⟨d₀, hd₀, follows⟩⟩
  · have other : d.key.kind ≠ .project := fun hk => undesired <| by
      rw [desired.desired, Ledger.identity_of_takes desired.placed ht hk]
    exact ⟨silent.target ht fun hk => absurd hk other, fun hk => absurd hk other,
      .inr desired.cluster⟩

/-- A silent project stays silent. -/
theorem silent (honest : operation.Honest True p w c) (tidy : w.documents.Tidy)
    (silent : w.ledger.Silent a q)
    (undesired : operation.desires? ≠ some ⟨.project, a, q, none, q⟩) :
    (w.reply x c).2.ledger.Silent a q := by
  refine ⟨honest.keyed tidy silent.keyed, fun r hr => ?_, fun d hd ht => ?_⟩
  · rcases honest.row_origin hr with ⟨r₀, hr₀, heq⟩ | ⟨d, hd, y, target, rfl⟩
    · rw [heq]
      exact silent.rows r₀ hr₀
    · -- A row that is filed is not one of a member, which belongs to no cluster.
      rw [(silent.keyed.placed d hd).inScope_row, Bool.eq_false_iff]
      intro ht
      rw [silent.target ht (silent.bound d hd ht)] at target
      cases target
  · exact (honest.target_of_silent tidy silent undesired hd ht).2.1

/-- No member of a silent project comes to a cluster. -/
theorem cluster_of_silent (honest : operation.Honest True p w c) (tidy : w.documents.Tidy)
    (silent : w.ledger.Silent a q) (undesired : operation.desires? ≠ some ⟨.project, a, q, none, q⟩)
    (hd : d ∈ (w.reply x c).2.ledger.cards) (ht : (Scope.project a q).takes d.key = true)
    {y : String} (hy : d.cluster = some y) :
    ∃ d₀ ∈ w.ledger.cards, d₀.id = d.id ∧ d₀.cluster = some y := by
  obtain ⟨target, -, origin⟩ := honest.target_of_silent tidy silent undesired hd ht
  rcases origin with ⟨d₀, hd₀, follows⟩ | hcluster
  · refine ⟨d₀, hd₀, follows.id.symm, ?_⟩
    rcases follows.cluster with hcluster | hcluster | hcluster
    · exact hcluster ▸ hy
    · rw [hy] at hcluster
      cases hcluster
    · rw [hy, target] at hcluster
      cases hcluster
  · rw [hy, target] at hcluster
    cases hcluster

end Operation.Honest

namespace System

variable {p : ControlPlane} {ms ms' moves : List Move} {user : User} {a q : String}

/-- Whether no create or update of a project starts from some moment on. -/
def Undesired (ms' : List Move) (a q : String) (moves : List Move) : Prop :=
  EachStart (fun ms operation => ms' <+: ms →
    operation.desires? ≠ some ⟨.project, a, q, none, q⟩) moves

/-- Whether nothing of a project reached a cluster since a moment. -/
structure Silenced (p : ControlPlane) (ms' : List Move) (a q : String) (moves : List Move) :
    Prop where
  /-- No row is filed in its scope. -/
  rows : ∀ row ∈ (after p moves).world.mappings.rows, row.inScope (.project a q) = false
  /-- No move attaches one of its documents to a cluster. -/
  attached : ∀ ms mv, ms' <+: ms → ms ++ [mv] <+: moves → ∀ d ∈ (after p (ms ++ [mv])).documents,
    (Scope.project a q).takes d.card.key = true → ∀ x, d.card.cluster = some x →
      ∃ d₀ ∈ (after p ms).documents, d₀.id = d.id ∧ d₀.card.cluster = some x
  /-- Every message that was published tells of a document, but of none of the project. -/
  sent : ∀ topic, ∃ new, (after p moves).world.bus.log topic =
    (after p ms').world.bus.log topic ++ new ∧ ∀ m ∈ new, ∃ ms mv, ms' <+: ms ∧
      ms ++ [mv] <+: moves ∧ Publishes p ms mv topic m ∧
      (∃ d ∈ (after p ms).documents, ∃ e, m.Tells p (after p ms).world d e) ∧
      ∀ d ∈ (after p ms).documents, ∀ e, m.Tells p (after p ms).world d e →
        (Scope.project a q).takes d.card.key = false

/-- What holds at a moment at rest, and goes on to hold with every honest call of the operations
that start from then on, holds ever after. -/
theorem Sequential.honest_since {I : World → Prop} (seq : Sequential p moves) (hp : ms <+: moves)
    (rest : (after p ms).AtRest) (start : I (after p ms).world)
    (step : ∀ ms' operation, ms <+: ms' → ms' ++ [.start operation] <+: moves → ∀ w c x,
      w.documents.Tidy → I w → operation.Honest True p w c → I (w.reply x c).2) :
    I (after p moves).world :=
  have met : (after p moves).Meets (Exchange.Done True) := fun _ _ _ _ => .inl trivial
  seq.since met hp rest start (fun _ operation _ _ => operation.honest (.inl trivial))
    fun ms' operation hle hp w c x tidy h honest _ =>
      step ms' operation hle hp w c x tidy h honest

/-- In a sequential run all cards and rows have keys that resources may have. -/
theorem keyed (seq : Sequential p moves) : (after p moves).world.ledger.Keyed :=
  seq.honest_since (I := fun w => w.ledger.Keyed) List.nil_prefix (atRest_nil p)
    ⟨(fun _ h => nomatch h), fun _ h => nomatch h⟩
    fun _ _ _ _ _ _ _ tidy keyed honest => honest.keyed tidy keyed

/-- A project that is silent when the system is at rest stays silent. -/
theorem silent_since (seq : Sequential p moves) (hp : ms' <+: moves) (rest : (after p ms').AtRest)
    (silent : (after p ms').world.ledger.Silent a q) (undesired : Undesired ms' a q moves) :
    (after p moves).world.ledger.Silent a q :=
  seq.honest_since (I := fun w => w.ledger.Silent a q) hp rest silent
    fun _ operation hle hp _ _ _ tidy silent honest =>
      honest.silent tidy silent (undesired _ operation hp hle)

/-- A detached project is silent. -/
theorem silent_of_detached (seq : Sequential p ms')
    (carried : Carried p ms (.detachScope user (.project a q) purge) ms') {outcome : Outcome}
    (ok : (after p ms').last? = some (.ok outcome)) (registered : p.handles .project = true) :
    (after p ms').world.ledger.Silent a q := by
  have ensures : ((Operation.detachScope user (.project a q) purge).program p).Ensures True
      (fun _ w' => (after p ms).world.ledger.Detaching (.project a q)
        (fun c => p.handles c.key.kind = false) w'.ledger) (fun _ _ => True) (after p ms).world :=
    (ControlPlane.detachScope_detaching (keyed (seq.of_prefix carried.prefix)) user _ purge
      fun _ _ _ => trivial).map fun _ _ h => h
  have detaching : (after p ms).world.ledger.Detaching (.project a q)
      (fun c => p.handles c.key.kind = false) (after p ms').world.ledger :=
    carried.ensures_last ensures ok
  refine detaching.silent (keyed seq) fun c _ hk hwaits => ?_
  rw [hk, registered] at hwaits
  cases hwaits

/-- Nothing of a detached project reaches a cluster again until its document is created or updated,
if the kind of projects is registered. -/
theorem detached_silent (seq : Sequential p moves)
    (carried : Carried p ms (.detachScope user (.project a q) purge) ms') {outcome : Outcome}
    (ok : (after p ms').last? = some (.ok outcome)) (registered : p.handles .project = true)
    (hp : ms' <+: moves) (undesired : Undesired ms' a q moves) :
    Silenced p ms' a q moves := by
  have silent : ∀ ms, ms' <+: ms → ms <+: moves → (after p ms).world.ledger.Silent a q :=
    fun ms hle hle' => silent_since (seq.of_prefix hle') hle carried.ended
      (silent_of_detached (seq.of_prefix hp) carried ok registered) (undesired.of_prefix hle')
  refine ⟨(silent moves hp (List.prefix_refl _)).rows, fun ms mv hle hle' d hd ht y hy => ?_,
    fun topic => ?_⟩
  · have seq' : Sequential p (ms ++ [mv]) := seq.of_prefix hle'
    rcases seq'.turns (S := Exchange.Done True) fun _ _ _ _ => .inl trivial with
      hw | ⟨ms₀, operation, c, x, hp₀, -, last, -, hw, lawful⟩
    · exact ⟨d, by rwa [documents, ← hw], rfl, hy⟩
    have honest := lawful (operation.honest (.inl trivial))
    have hstart : ms₀ ++ [.start operation] <+: moves :=
      hp₀.trans ((List.prefix_append _ _).trans hle')
    have hd : d.card ∈ (after p (ms ++ [mv])).world.ledger.cards := mem_ledger hd
    rw [hw] at hd
    obtain ⟨c₀, hc₀, hid, hcluster⟩ := honest.cluster_of_silent (tidy p ms)
      (silent ms hle ((List.prefix_append _ _).trans hle'))
      (undesired ms₀ operation hstart (last ms' hle carried.ended)) hd ht hy
    obtain ⟨d₀, hd₀, rfl⟩ := List.mem_map.1 hc₀
    exact ⟨d₀, hd₀, hid, hcluster⟩
  · obtain ⟨new, hlog, sent⟩ := sent_since seq hp topic
    refine ⟨new, hlog, fun m hm => ?_⟩
    obtain ⟨ms, mv, hle, hle', publishes, tells⟩ := sent m hm
    refine ⟨ms, mv, hle, hle', publishes, tells, fun d hd e tells' => ?_⟩
    have silent := silent ms hle ((List.prefix_append _ _).trans hle')
    rw [Bool.eq_false_iff]
    intro ht
    have hnone := silent.target ht (silent.bound d.card (mem_ledger hd) ht)
    rw [tells'.target] at hnone
    cases hnone

/-! ### Runs -/

/-- Nothing starts from the end of a run on. -/
theorem undesired_self (moves : List Move) (a q : String) : Undesired moves a q moves := by
  intro ms operation hp hle
  have hlen := hp.length_le
  rw [List.length_append, List.length_singleton] at hlen
  exact absurd hle.length_le (by omega)

/-- The project with its environment is detached. -/
def silencedRun : List Move :=
  attachedRun ++ carryOut 2 "8a410000" (.detachScope .system shopScope false) 18

/-- Then it is sent again. -/
def resentRun : List Move :=
  silencedRun ++ carryOut 3 "8a410001" (.resyncScope .system shopScope) 16

theorem resentRun_rests : (after .default createdRun).AtRest ∧
    (after .default attachedRun).AtRest ∧ (after .default silencedRun).AtRest ∧
    (after .default silencedRun).last? = some (.ok (.detachment ⟨2, 2, 0⟩)) := by
  decide +kernel

/-- When the detached project is sent again with its environment, nothing reaches a cluster. -/
theorem detached_silent_resent : Silenced .default silencedRun "acme" "shop" resentRun := by
  obtain ⟨created, attached, silenced, ok⟩ := resentRun_rests
  have seq : Sequential .default silencedRun := (sequential_attachedRun created).carryOut attached 2
    "8a410000" (.detachScope .system shopScope false) 18
  have carried := carried_carryOut attached 2 "8a410000" (.detachScope .system shopScope false) 18
    silenced
  have undesired : Undesired silencedRun "acme" "shop" resentRun :=
    (undesired_self silencedRun "acme" "shop").carryOut
      (fun _ (h : (Operation.resyncScope .system shopScope).desires? = _) => nomatch h) 3
      "8a410001" 16
  exact detached_silent (seq.carryOut silenced 3 "8a410001" (.resyncScope .system shopScope) 16)
    carried ok (by decide) (List.prefix_append _ _) undesired

/-- A control plane of every kind but projects. -/
def planeWithoutProjects : ControlPlane := ⟨Kind.all.tail, ControlPlane.defaultSuffix⟩

/-- The project is created and detached. -/
def unregisteredRun : List Move :=
  createdRun ++ carryOut 1 "8a410000" (.detachScope .system shopScope false) 9

/-- Then it is sent again. -/
def unregisteredResentRun : List Move :=
  unregisteredRun ++ carryOut 2 "8a410001" (.resync .system .project shopScope "shop") 6

theorem unregisteredResentRun_documents :
    ((after planeWithoutProjects createdRun).AtRest ∧
      (after planeWithoutProjects unregisteredRun).AtRest ∧
      (after planeWithoutProjects unregisteredRun).last? =
        some (.ok (.detachment ⟨1, 0, 0⟩))) ∧
    ((after planeWithoutProjects unregisteredRun).world.bus.log "eu-1-incoming").length = 1 ∧
    ((after planeWithoutProjects unregisteredResentRun).world.bus.log
      "eu-1-incoming").length = 2 ∧
    ∀ n < unregisteredResentRun.length + 1,
      ∀ d ∈ (after planeWithoutProjects (unregisteredResentRun.take n)).documents,
        (Scope.project "acme" "shop").takes d.card.key = true := by
  decide +kernel

/-- Without the kind of projects a detached project keeps its cluster, and it is sent there when it
is sent again. -/
theorem unregistered_not_silent : Sequential planeWithoutProjects unregisteredResentRun ∧
    Carried planeWithoutProjects createdRun (.detachScope .system (.project "acme" "shop") false)
      unregisteredRun ∧
    (after planeWithoutProjects unregisteredRun).last? = some (.ok (.detachment ⟨1, 0, 0⟩)) ∧
    unregisteredRun <+: unregisteredResentRun ∧
    Undesired unregisteredRun "acme" "shop" unregisteredResentRun ∧
    ¬ Silenced planeWithoutProjects unregisteredRun "acme" "shop" unregisteredResentRun := by
  obtain ⟨⟨created, detached, ok⟩, before, sent, members⟩ := unregisteredResentRun_documents
  have seq : Sequential planeWithoutProjects createdRun :=
    sequential_carryOut _ 0 "7d1c52a0" (.create .system shopScope shopInput) 7
  have seq : Sequential planeWithoutProjects unregisteredRun :=
    seq.carryOut created 1 "8a410000" (.detachScope .system shopScope false) 9
  have undesired : Undesired unregisteredRun "acme" "shop" unregisteredResentRun :=
    (undesired_self unregisteredRun "acme" "shop").carryOut
      (fun _ (h : (Operation.resync .system .project shopScope "shop").desires? = _) => nomatch h) 2
      "8a410001" 6
  refine ⟨seq.carryOut detached 2 "8a410001" (.resync .system .project shopScope "shop") 6,
    carried_carryOut created 1 "8a410000" (.detachScope .system shopScope false) 9 detached, ok,
    List.prefix_append _ _, undesired, fun silenced => ?_⟩
  obtain ⟨new, hlog, told⟩ := silenced.sent "eu-1-incoming"
  have hlen : new.length = 1 := by
    have hlen := congrArg List.length hlog
    rw [List.length_append, sent, before] at hlen
    omega
  obtain ⟨m, hm⟩ := List.exists_mem_of_length_pos (hlen ▸ Nat.one_pos)
  obtain ⟨ms, mv, -, hp, -, ⟨d, hd, e, tells⟩, others⟩ := told m hm
  have hp := (List.prefix_append ms [mv]).trans hp
  have hms : ms = unregisteredResentRun.take ms.length := List.prefix_iff_eq_take.1 hp
  have ht := members ms.length (Nat.lt_succ_of_le hp.length_le) d (hms ▸ hd)
  rw [others d hd e tells] at ht
  cases ht

end System

end FleetSync
