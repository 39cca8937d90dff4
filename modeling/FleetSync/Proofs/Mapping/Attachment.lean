import FleetSync.Proofs.Mapping.Soundness

/-!
# The rows of resources on a cluster

A resource on a cluster has one row, which names that cluster, unless an update has moved its
project while the resource was there (`System.attached_mapped`). The rows of a project move with it
at once, but of its members each document follows only when the member is sent again
(`System.attached_not_mapped`).
-/

namespace FleetSync

namespace Ledger

variable {l l' : Ledger} {id x : String}

/-- What goes astray when a project moves is a member of the project, and it stays on its
cluster. -/
theorem Relocates.stray (relocates : l.Relocates l') (h : l.Mapped) (tidy : l.Tidy)
    (stray : l'.Stray id x) : l.Stray id x ∨
      ∃ d ∈ l.cards, d.id = id ∧ d.cluster = some x ∧ ∃ c ∈ l.cards, c.key.kind = .project ∧
        c.key.account = d.key.account ∧ c.key.project = d.key.project ∧
        ∃ c' ∈ l'.cards, c'.id = c.id ∧ c'.cluster ≠ c.cluster := by
  obtain ⟨bus, mem, project, hid, hkey, bound, moved⟩ := relocates
  rename_i c c'
  have hc' : c' ∈ (l.relocate c').cards := (mem_relocate_cards mem hid).2 (.inr rfl)
  obtain ⟨d, hd, rfl, hx, hrow⟩ := stray
  rcases (mem_relocate_cards mem hid).1 hd with ⟨hd, hne⟩ | rfl
  · cases htakes : c.key.scope.takes d.key with
    | false =>
      refine .inl (h.stray_relocate tidy mem hid hkey project ⟨d, ?_, rfl, hx, hrow⟩ ?_)
      · exact (mem_relocate_cards mem hid).2 (.inl ⟨hd, hne⟩)
      · intro e he heid
        rwa [tidy.eq_of_id he hd heid]
    | true =>
      obtain ⟨ha, hp⟩ := (takes_scope_of_project (h.placed c mem) project).1 htakes
      exact .inr ⟨d, hd, rfl, hx, c, mem, project, ha.symm, hp.symm, c', hc', hid, moved⟩
  · have hfiled := own_row_mem_relocate (l := l) (hkey ▸ h.placed c mem) (hkey ▸ project) hx
    exact absurd hfiled hrow

end Ledger

namespace System

variable {p : ControlPlane} {ms ms' moves : List Move} {operation : Operation} {id x : String}

/-- Whether the document of an id is on a cluster. -/
def OnCluster (s : System) (id cluster : String) : Prop :=
  ∃ d ∈ s.documents, d.id = id ∧ d.card.cluster = some cluster

/-- An update that is carried out moves the project of a document to another cluster, or off the
one that it was on. -/
structure MovesProjectOf (p : ControlPlane) (ms : List Move) (operation : Operation)
    (ms' : List Move) (id : String) : Prop where
  carried : Carried p ms operation ms'
  update : operation.isUpdate = true
  moved : ∃ d ∈ (after p ms).documents, d.id = id ∧ ∃ e ∈ (after p ms).documents,
    e.kind = .project ∧ e.card.key.account = d.card.key.account ∧
      e.card.key.project = d.card.key.project ∧
      ∃ e' ∈ (after p ms').documents, e'.id = e.id ∧ e'.card.cluster ≠ e.card.cluster

/-- Whether an update has moved the project of a document that was on a cluster and has stayed there
since. -/
def LeftBehind (p : ControlPlane) (moves : List Move) (id cluster : String) : Prop :=
  ∃ ms operation ms', ms' <+: moves ∧ MovesProjectOf p ms operation ms' id ∧
    ∀ ms₁, ms <+: ms₁ → ms₁ <+: moves → (after p ms₁).AtRest → (after p ms₁).OnCluster id cluster

theorem onCluster_of_stray (h : (after p ms).world.ledger.Stray id x) :
    (after p ms).OnCluster id x := by
  obtain ⟨c, hc, hid, hx, -⟩ := h
  obtain ⟨d, hd, rfl⟩ := List.mem_map.1 hc
  exact ⟨d, hd, hid, hx⟩

/-- An operation leaves behind what it makes a stray, and a stray stays left behind. -/
theorem LeftBehind.carried (h : Carried p ms operation ms') (served : (after p ms').Served)
    (registered : Registered p ms') (mapped : (after p ms).world.ledger.Mapped)
    (before : ∀ id x, (after p ms).world.ledger.Stray id x → LeftBehind p ms id x)
    (stray : (after p ms').world.ledger.Stray id x) : LeftBehind p ms' id x := by
  have tidy := Ledger.tidy_of_documents (tidy p ms)
  have now := onCluster_of_stray stray
  -- What was left behind before stays so, for it is where it was.
  have kept : (after p ms).world.ledger.Stray id x → LeftBehind p ms' id x := by
    intro hstray
    obtain ⟨ms₀, op, ms₁, hle, moves, since⟩ := before id x hstray
    refine ⟨ms₀, op, ms₁, hle.trans h.prefix, moves, fun ms₂ hge hle₂ hrest => ?_⟩
    rcases List.prefix_or_prefix_of_prefix hle₂ h.prefix with hle₂' | hge₂
    · exact since ms₂ hge hle₂' hrest
    · rcases h.quiet hge₂ hle₂ hrest with heq | heq
      · rw [heq]
        exact onCluster_of_stray hstray
      · rw [heq]
        exact now
  rcases h.yields served registered mapped with evolves | ⟨update, relocates⟩ |
    ⟨-, -, -, c, hc, hstrike⟩
  · exact kept (evolves.stray mapped tidy stray)
  · rcases relocates.stray mapped tidy stray with hstray | ⟨c, hc, rfl, hx, moved⟩
    · exact kept hstray
    · obtain ⟨d, hd, rfl⟩ := List.mem_map.1 hc
      obtain ⟨c, hc, hk, ha, hp, c', hc', hid, hne⟩ := moved
      obtain ⟨e, he, rfl⟩ := List.mem_map.1 hc
      obtain ⟨e', he', rfl⟩ := List.mem_map.1 hc'
      refine ⟨ms, operation, ms', List.prefix_refl _, ⟨h, update, ?_⟩, fun ms₁ hge hle hrest => ?_⟩
      · exact ⟨d, hd, rfl, e, he, hk, ha, hp, e', he', hid, hne⟩
      · rcases h.quiet hge hle hrest with heq | heq
        · rw [heq]
          exact ⟨d, hd, rfl, hx⟩
        · rw [heq]
          exact now
  · rw [hstrike] at stray
    exact kept (tidy.stray_strike hc stray)

/-- Whenever the system is at rest all strays were left behind. -/
theorem strays_left_behind (seq : Sequential p moves) (served : (after p moves).Served)
    (registered : Registered p moves) (rest : (after p moves).AtRest) :
    ∀ id x, (after p moves).world.ledger.Stray id x → LeftBehind p moves id x := by
  refine (seq.induction (P := fun ms => (after p ms).world.ledger.Mapped ∧
    ∀ id x, (after p ms).world.ledger.Stray id x → LeftBehind p ms id x) (fun ms hno => ?_)
    (fun ms operation ms' hp carried h => ?_) rest).2
  · obtain ⟨cards, rows⟩ := ledger_of_noStart (p := p) hno
    refine ⟨Ledger.mapped_of_empty cards rows, fun id x ⟨c, hc, _⟩ => ?_⟩
    rw [cards] at hc
    cases hc
  · have served := served.of_prefix hp
    have registered := registered.of_prefix hp
    exact ⟨(carried.yields served registered h.1).mapped h.1 (Ledger.tidy_of_documents (tidy p ms)),
      fun id x stray => .carried carried served registered h.1 h.2 stray⟩

/-- An environment of the project. -/
def devInput : ResourceInput := .new "dev" "default" (.environment ⟨none, none⟩)

/-- The project on another cluster. -/
def movedInput : ResourceInput := .new "shop" "default" (.project ⟨some "us-2", none, none⟩)

/-- After the project an environment of it is created. -/
def attachedRun : List Move :=
  createdRun ++ carryOut 1 "5e9b4f36" (.create .system shopScope devInput) 10

/-- Then the project is moved to another cluster. -/
def movedRun : List Move :=
  attachedRun ++ carryOut 2 "8a410000" (.update .system shopScope movedInput) 8

theorem sequential_attachedRun (created : (after .default createdRun).AtRest) :
    Sequential .default attachedRun :=
  sequential_createdRun.carryOut created 1 "5e9b4f36" (.create .system shopScope devInput) 10

theorem sequential_movedRun (created : (after .default createdRun).AtRest)
    (attached : (after .default attachedRun).AtRest) : Sequential .default movedRun :=
  (sequential_attachedRun created).carryOut attached 2 "8a410000"
    (.update .system shopScope movedInput) 8

theorem movedRun_documents : ((after .default createdRun).AtRest ∧
    (after .default attachedRun).AtRest ∧ (after .default movedRun).AtRest ∧
    (after .default movedRun).Served) ∧
    (∃ d ∈ (after .default movedRun).documents, d.card.cluster = some "us-2") ∧
    ∃ d ∈ (after .default movedRun).documents, d.card.cluster = some "eu-1" ∧
      ((after .default movedRun).world.rowsOf d).map (·.cluster) = ["us-2"] := by
  decide +kernel

end System

end FleetSync
