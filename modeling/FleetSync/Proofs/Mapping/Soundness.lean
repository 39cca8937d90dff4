import FleetSync.Proofs.Interleaving.Tasks
import FleetSync.Proofs.Sequence.Operations

/-!
# The rows of the mapping index are sound

While operations run one after the other and the store and the index serve them, the rows of the
mapping index are in order whenever the system is at rest (`System.mapped`), whatever the bus does.
That is to say that every row belongs to one document on a cluster, no document has two rows, and a
project has a row just if its spec names a cluster, and then for that one (`World.MappingsSound`,
`System.mappings_sound`).
-/

namespace FleetSync

namespace Ledger

variable {l l' : Ledger}

theorem Mapped.with_bus (h : l.Mapped) (bus : MemoryBus) : ({ l with bus } : Ledger).Mapped :=
  ⟨h.placed, h.owned, h.single, h.bound, h.filed⟩

theorem Relocates.mapped (relocates : l.Relocates l') (h : l.Mapped) (tidy : l.Tidy) :
    l'.Mapped := by
  obtain ⟨bus, mem, project, id, key, bound, -⟩ := relocates
  exact (h.relocate tidy mem id key project bound).with_bus bus

end Ledger

/-- Every operation keeps the rows in order. -/
theorem Operation.Yields.mapped {operation : Operation} {l l' : Ledger}
    (yields : operation.Yields l l') (h : l.Mapped) (tidy : l.Tidy) : l'.Mapped := by
  rcases yields with evolves | ⟨-, relocates⟩ | ⟨-, -, -, c, hc, rfl⟩
  · exact (h.evolves tidy evolves).1
  · exact relocates.mapped h tidy
  · exact h.strike tidy hc

namespace System

variable {p : ControlPlane} {ms ms' moves : List Move} {operation : Operation}

/-- Whether resources are created only of kinds that are registered. -/
def Registered (p : ControlPlane) (moves : List Move) : Prop :=
  ∀ user scope input, .start (.create user scope input) ∈ moves → p.handles input.kind = true

theorem Registered.of_prefix (h : Registered p moves) (hp : ms <+: moves) : Registered p ms :=
  fun user scope input hm => h user scope input (hp.subset hm)

/-- Every task is that of an operation that was started. -/
theorem started (p : ControlPlane) (moves : List Move) :
    ∀ t ∈ (after p moves).tasks, .start t.operation ∈ moves := by
  intro t ht
  obtain ⟨i, hi⟩ := List.mem_iff_getElem?.1 ht
  obtain ⟨ms, hp, -⟩ := task_started p moves hi
  exact hp.subset List.mem_concat_self

/-- Every document is of a kind that is registered. -/
theorem Registered.handles (h : Registered p moves) :
    ∀ d ∈ (after p moves).documents, p.handles d.kind = true := by
  have until_now := always p (P := fun ms d => ms <+: moves → p.handles d.kind = true)
    (fun ms m ih d hd hp => ?_) moves
  · exact fun d hd => until_now d hd (List.prefix_refl _)
  have hms := (List.prefix_append ms [m]).trans hp
  rcases (sound p ms).came m hd with hd | hnew | ⟨d₀, hd₀, hedit⟩
  · exact ih ms (List.prefix_refl _) d hd hms
  · cases hnew with
    | @intro i past user scope input id time cluster r makes draft new =>
      obtain ⟨rest, hi⟩ := makes.before
      have hstart := hms.subset (started p ms _ (List.mem_of_getElem? hi))
      rw [Resource.kind_stored, draft]
      exact h user scope input hstart
  · have h₀ := ih ms (List.prefix_refl _) d₀ hd₀ hms
    cases hedit with
    | intro makes read allowed sound fits kind =>
      rw [Resource.kind_stored] at h₀ ⊢
      rwa [kind]

/-- What an operation that is carried out makes of the ledger. -/
theorem Carried.yields (h : Carried p ms operation ms') (served : (after p ms').Served)
    (registered : Registered p ms') (mapped : (after p ms).world.ledger.Mapped) :
    operation.Yields (after p ms).world.ledger (after p ms').world.ledger := by
  have hp : ∀ c ∈ (after p ms).world.ledger.cards, p.handles c.key.kind = true := by
    intro c hc
    obtain ⟨d, hd, rfl⟩ := List.mem_map.1 hc
    exact (registered.of_prefix h.prefix).handles d hd
  obtain ⟨t, r, -, -, -, hends⟩ := h.ensures (.inr served) (operation.ensures hp mapped)
  cases r with
  | ok a => exact hends
  | error e => exact hends.resolve_left id

/-- Before anything started the ledger is empty. -/
theorem ledger_of_noStart (h : NoStart moves) :
    (after p moves).world.ledger.cards = [] ∧ (after p moves).world.ledger.rows = [] := by
  rw [after_of_noStart h]
  exact ⟨rfl, rfl⟩

/-- Whenever the system is at rest the rows are in order. -/
theorem mapped (seq : Sequential p moves) (served : (after p moves).Served)
    (registered : Registered p moves) (rest : (after p moves).AtRest) :
    (after p moves).world.ledger.Mapped := by
  refine seq.induction (P := fun ms => (after p ms).world.ledger.Mapped) (fun ms hno => ?_)
    (fun ms operation ms' hp carried h => ?_) rest
  · obtain ⟨cards, rows⟩ := ledger_of_noStart (p := p) hno
    exact Ledger.mapped_of_empty cards rows
  · have yields := carried.yields (served.of_prefix hp) (registered.of_prefix hp) h
    exact yields.mapped h (Ledger.tidy_of_documents (tidy p ms))

end System

/-! ## Rows and documents -/

/-- The level of a place with an environment, or without. -/
def Level.of : Option String → Level
  | none => .project
  | some _ => .environment

/-- The rows of the index that are filed under the key of a document. -/
def World.rowsOf (w : World) (d : StoredDocument) : List MappingRow :=
  w.mappings.rows.filter (·.hasKey d.card.key)

/-- The documents that a row is filed for. -/
def World.ownersOf (w : World) (row : MappingRow) : List StoredDocument :=
  w.documents.documents.filter fun d => row.hasKey d.card.key

/-- Whether the rows of the mapping index are those of the stored documents. -/
structure World.MappingsSound (w : World) : Prop where
  /-- Every row belongs to one document, and that is on a cluster. -/
  owned : ∀ row ∈ w.mappings.rows, ∃ d, w.ownersOf row = [d] ∧ d.card.cluster.isSome = true
  /-- No document has two rows. -/
  single : ∀ d ∈ w.documents.documents, (w.rowsOf d).length ≤ 1
  level : ∀ row ∈ w.mappings.rows, row.level = (Level.of row.environment).name
  /-- A project has a row just if its spec names a cluster, and then for that one. -/
  project : ∀ d ∈ w.documents.documents, d.kind = .project →
    (w.rowsOf d ≠ [] ↔ d.specCluster?.isSome = true) ∧
      ∀ row ∈ w.rowsOf d, d.card.cluster = some row.cluster ∧ d.specCluster? = some row.cluster

namespace Ledger

variable {w : World}

/-- A row that is in order belongs to one document. -/
theorem Mapped.ownersOf (h : w.ledger.Mapped) (ht : w.documents.Tidy) {row : MappingRow}
    (hrow : row ∈ w.mappings.rows) :
    ∃ d, w.ownersOf row = [d] ∧ d.card.cluster.isSome = true := by
  obtain ⟨c, hc, hsome, heq⟩ := h.owned row hrow
  obtain ⟨d, hd, rfl⟩ := List.mem_map.1 hc
  refine ⟨d, ?_, hsome⟩
  have hmem : d ∈ w.ownersOf row :=
    List.mem_filter.2 ⟨hd, heq ▸ MappingKey.hasKey_row.2 rfl⟩
  have hall : ∀ d' ∈ w.ownersOf row, d' = d := by
    intro d' hd'
    obtain ⟨hd', hkey⟩ := List.mem_filter.1 hd'
    rw [heq, MappingKey.hasKey_row] at hkey
    have hcard := (tidy_of_documents ht).eq_of_key (List.mem_map_of_mem hd') hc hkey.symm
    exact List.inj_on_of_nodup_map ht.ids hd' hd (congrArg Card.id hcard)
  have hnodup : (w.ownersOf row).Nodup := (List.Nodup.of_map _ ht.ids).filter _
  have hrep := List.eq_replicate_of_mem hall
  rw [hrep, List.nodup_replicate] at hnodup
  obtain ⟨e, he⟩ := List.length_eq_one_iff.1 (Nat.le_antisymm hnodup (List.length_pos_of_mem hmem))
  rw [he, List.mem_singleton] at hmem
  rw [he, hmem]

theorem Mapped.mappingsSound (h : w.ledger.Mapped) (ht : w.documents.Tidy) : w.MappingsSound where
  owned row hrow := h.ownersOf ht hrow
  single d _ := h.length_rows_le d.card.key
  level row hrow := by
    obtain ⟨c, -, -, heq⟩ := h.owned row hrow
    rw [heq]
    have hlevel : ∀ a p e, (Scope.of a p e).level = Level.of e := by
      intro a p e
      cases e <;> rfl
    exact congrArg Level.name (hlevel ..)
  project d hd hk := by
    have hc : d.card ∈ w.ledger.cards := List.mem_map_of_mem hd
    have hbound : d.card.cluster = d.specCluster? := by
      rw [h.bound d.card hc hk]
      exact if_pos hk
    have owner : ∀ row ∈ w.rowsOf d, ∃ x, d.card.cluster = some x := by
      intro row hrow
      obtain ⟨hrow, hkey⟩ := List.mem_filter.1 hrow
      obtain ⟨c, hc', hsome, heq⟩ := h.owned row hrow
      rw [heq, MappingKey.hasKey_row] at hkey
      rw [(tidy_of_documents ht).eq_of_key hc' hc hkey] at hsome
      exact Option.isSome_iff_exists.1 hsome
    have filed : ∀ x, d.card.cluster = some x → d.card.key.row x ∈ w.rowsOf d := fun x hx =>
      List.mem_filter.2 ⟨h.filed d.card hc hk x hx, MappingKey.hasKey_row.2 rfl⟩
    refine ⟨⟨fun hne => ?_, fun hsome hnil => ?_⟩, fun row hrow => ?_⟩
    · obtain ⟨row, hrow⟩ := List.exists_mem_of_ne_nil _ hne
      obtain ⟨x, hx⟩ := owner row hrow
      rw [← hbound, hx]
      rfl
    · obtain ⟨x, hx⟩ := Option.isSome_iff_exists.1 hsome
      have hfiled := filed x (hbound.trans hx)
      rw [hnil] at hfiled
      cases hfiled
    · obtain ⟨x, hx⟩ := owner row hrow
      have hone := eq_singleton_of_mem (h.length_rows_le d.card.key) (filed x hx)
      have hrow : row ∈ w.ledger.rows.filter (·.hasKey d.card.key) := hrow
      rw [hone, List.mem_singleton] at hrow
      rw [← hbound, hx, hrow]
      exact ⟨rfl, rfl⟩

end Ledger

namespace System

variable {p : ControlPlane} {moves : List Move}

theorem registered_default (moves : List Move) : Registered .default moves :=
  fun _ _ input _ => List.contains_iff_mem.2 input.kind.mem_all

/-- The project is created, but the bus does not take the message to its agent. -/
def unsentRun : List Move :=
  breakOff 0 "7d1c52a0" (.create .system shopScope shopInput) 6
    (.bus "publish" "eu-1-incoming" "down")

theorem sequential_unsentRun : Sequential .default unsentRun :=
  (eachStart_nil _).breakOff (atRest_nil _) 0 "7d1c52a0" 6 _

theorem unsentRun_served : ((after .default unsentRun).Served ∧ (after .default unsentRun).AtRest) ∧
    (after .default unsentRun).world.mappings.rows.map (·.cluster) = ["eu-1"] ∧
      (after .default unsentRun).world.bus.topics = [] := by
  decide +kernel

end System

end FleetSync
