import FleetSync.Program.World
import FleetSync.Proofs.Sequence.Tidy

/-!
# Ledgers

A `Ledger` is what operations keep books of: the cards of the stored resources, the rows of the
mapping index and the bus. The changes that operations make are functions of it. A card is put in
the place of another and the row follows if the cluster has changed (`Ledger.amend`), a card is
added (`Ledger.enlist`) or taken away (`Ledger.strike`), and the rows of a project follow it to
another cluster (`Ledger.relocate`). Of each it is said which cards and rows there are afterwards.
-/

namespace FleetSync

theorem Kind.name_inj {k l : Kind} (h : k.name = l.name) : k = l := by
  have inj : ∀ k ∈ Kind.all, ∀ l ∈ Kind.all, k.name = l.name → k = l := by
    decide
  exact inj k k.mem_all l l.mem_all h

namespace MappingKey

/-- The scope of what is filed under a key. -/
def scope (k : MappingKey) : Scope := .of k.account k.project k.environment

/-- The row of a key and a cluster. -/
def row (k : MappingKey) (cluster : String) : MappingRow :=
  .ofMapping ⟨k.scope.level, k.kind, k.name, k.namespaceName, k.account, cluster, k.project,
    k.environment⟩

variable {k l : MappingKey} {x y : String} {s : Scope}

@[simp] theorem cluster_row : (k.row x).cluster = x := rfl

theorem hasKey_row : (k.row x).hasKey l = true ↔ k = l := by
  constructor
  · intro h
    simp only [MappingRow.hasKey, row, MappingRow.ofMapping, Bool.and_eq_true, beq_iff_eq] at h
    obtain ⟨⟨⟨⟨⟨hk, ha⟩, hp⟩, he⟩, hn⟩, hns⟩ := h
    rw [mk.injEq]
    exact ⟨Kind.name_inj hk, hn, hns, ha, hp, he⟩
  · rintro rfl
    simp [MappingRow.hasKey, row, MappingRow.ofMapping]

theorem hasKey_row_of_ne (h : k ≠ l) : (k.row x).hasKey l = false := by
  rw [Bool.eq_false_iff]
  exact fun hk => h (hasKey_row.1 hk)

theorem eq_of_row_eq (h : k.row x = l.row y) : k = l ∧ x = y := by
  have hkey : (k.row x).hasKey l = true := by
    rw [h]
    exact hasKey_row.2 rfl
  exact ⟨hasKey_row.1 hkey, congrArg MappingRow.cluster h⟩

/-- Whether a key is one that a resource may have. -/
structure Placed (k : MappingKey) : Prop where
  level : k.environment.isSome = true ↔ k.kind.level = .environment
  own : k.kind = .project → k.name = k.project

/-- The rows of a scope are those of its members. -/
theorem Placed.inScope_row (h : k.Placed) : (k.row x).inScope s = s.takes k := by
  cases s with
  | project a p => simp [MappingRow.inScope, row, MappingRow.ofMapping, Scope.takes,
      Scope.accountName, Scope.projectName, Scope.environmentName?]
  | environment a p e =>
    simp only [MappingRow.inScope, row, MappingRow.ofMapping, Scope.takes, Scope.accountName,
      Scope.projectName, Scope.environmentName?]
    by_cases hk : k.kind = .environment
    · have henv : k.environment = none := by
        have hlevel := h.level
        rw [hk] at hlevel
        cases he : k.environment with
        | none => rfl
        | some e => exact absurd (hlevel.1 (by rw [he]; rfl)) (by decide)
      simp [henv, hk]
    · have hname : (k.kind.name == Kind.environment.name) = false :=
        beq_eq_false_iff_ne.2 fun he => hk (Kind.name_inj he)
      cases he : k.environment with
      | none => simp [hk, hname]
      | some e' =>
        have hlevel := h.level.1 (by rw [he]; rfl)
        simp [hk, hname, hlevel]

end MappingKey

/-- What operations keep books of. -/
structure Ledger where
  cards : List Card
  rows : List MappingRow
  bus : MemoryBus

/-- The ledger of a world. -/
def World.ledger (w : World) : Ledger := ⟨w.documents.cards, w.mappings.rows, w.bus⟩

theorem Card.mem_replaceIn {cards : List Card} {c d : Card} :
    d ∈ c.replaceIn cards ↔ d ∈ cards ∧ d.id ≠ c.id ∨ d = c ∧ ∃ old ∈ cards, old.id = c.id := by
  rw [replaceIn, List.mem_map]
  constructor
  · rintro ⟨old, hold, rfl⟩
    split
    · rename_i h
      exact .inr ⟨rfl, old, hold, h⟩
    · rename_i h
      exact .inl ⟨hold, h⟩
  · rintro (⟨hd, hne⟩ | ⟨rfl, old, hold, hid⟩)
    · exact ⟨d, hd, if_neg hne⟩
    · exact ⟨old, hold, if_pos hid⟩

/-- A card that is replaced by itself stays. -/
theorem Card.replaceIn_self {cards : List Card} {c : Card}
    (h : ∀ d ∈ cards, d.id = c.id → d = c) : c.replaceIn cards = cards :=
  calc cards.map (fun old => if old.id = c.id then c else old)
      = cards.map fun d => d := List.map_congr_left fun d hd => by
        split
        · rename_i hid
          exact (h d hd hid).symm
        · rfl
    _ = cards := List.map_id' cards

/-- A card that is put in the place of another leaves the ids. -/
theorem Card.map_id_replaceIn (cards : List Card) (c : Card) :
    (c.replaceIn cards).map (·.id) = cards.map (·.id) := by
  rw [replaceIn, List.map_map]
  refine List.map_congr_left fun d _ => ?_
  rw [Function.comp_apply]
  split
  · rename_i hid
    exact hid.symm
  · rfl

/-- A card on a cluster, or on none. -/
def Card.on (c : Card) (cluster : Option String) : Card := { c with cluster }

namespace Card

variable (c : Card) (o : Option String)

@[simp] theorem id_on : (c.on o).id = c.id := rfl

@[simp] theorem key_on : (c.on o).key = c.key := rfl

@[simp] theorem cluster_on : (c.on o).cluster = o := rfl

@[simp] theorem bound_on : (c.on o).bound = c.bound := rfl

end Card

namespace Ledger

/-- The rows after one is filed under a key, or none. -/
def fileIn (rows : List MappingRow) (k : MappingKey) : Option String → List MappingRow
  | some x => rows.filter (!·.hasKey k) ++ [k.row x]
  | none => rows.filter (!·.hasKey k)

theorem mem_fileIn {rows : List MappingRow} {k : MappingKey} {o : Option String} {r : MappingRow} :
    r ∈ fileIn rows k o ↔ r ∈ rows ∧ r.hasKey k = false ∨ ∃ x, o = some x ∧ r = k.row x := by
  cases o <;> simp [fileIn]

variable (l : Ledger)

/-- The ledger with a message on the bus. -/
def post (topic key : String) (payload : ByteArray) : Ledger :=
  { l with bus := (l.bus.publish topic key payload).2 }

/-- The ledger with a card in the place of another; the row follows if the cluster has changed. -/
def amend (c c' : Card) : Ledger :=
  { l with
    cards := c'.replaceIn l.cards
    rows := if c'.cluster = c.cluster then l.rows else fileIn l.rows c'.key c'.cluster }

/-- The ledger with one more card, and a row if it has a cluster. -/
def enlist (c : Card) : Ledger :=
  { l with
    cards := l.cards ++ [c]
    rows := if c.cluster = none then l.rows else fileIn l.rows c.key c.cluster }

/-- The ledger without a card and the row of its key. -/
def strike (c : Card) : Ledger :=
  { l with
    cards := l.cards.filter fun d => decide (d.id ≠ c.id)
    rows := fileIn l.rows c.key none }

/-- The ledger with the card of a project in the place of another one; all rows of the project
follow it to its cluster, or go if it has none. -/
def relocate (c : Card) : Ledger :=
  { l with
    cards := c.replaceIn l.cards
    rows := match c.cluster with
      | some x => (fileIn l.rows c.key (some x)).map fun r =>
        if r.inScope c.key.scope then { r with cluster := x } else r
      | none => l.rows.filter (!·.inScope c.key.scope) }

/-- The cluster that a resource belongs to. -/
def target (c : Card) : Option String :=
  if c.key.kind = .project then c.bound else (MappingIndex.mk l.rows).resolve c.key.scope

/-- Whether all cards and rows of a ledger have keys that resources may have. -/
structure Keyed : Prop where
  placed : ∀ c ∈ l.cards, c.key.Placed
  rows : ∀ r ∈ l.rows, ∃ k : MappingKey, k.Placed ∧ r = k.row r.cluster

/-- Ids and identities of the cards of a ledger are their own. -/
structure Tidy : Prop where
  ids : (l.cards.map (·.id)).Nodup
  identities : (l.cards.map (·.key.identity)).Nodup

theorem tidy_of_documents {w : World} (h : w.documents.Tidy) : w.ledger.Tidy :=
  ⟨h.ids_cards, h.identities⟩

variable {l} {c c' d : Card}

theorem Tidy.eq_of_id (h : l.Tidy) (hc : c ∈ l.cards) (hd : d ∈ l.cards) (hid : c.id = d.id) :
    c = d := List.inj_on_of_nodup_map h.ids hc hd hid

theorem Tidy.eq_of_identity (h : l.Tidy) (hc : c ∈ l.cards) (hd : d ∈ l.cards)
    (hi : c.key.identity = d.key.identity) : c = d :=
  List.inj_on_of_nodup_map h.identities hc hd hi

theorem Tidy.eq_of_key (h : l.Tidy) (hc : c ∈ l.cards) (hd : d ∈ l.cards) (hk : c.key = d.key) :
    c = d := h.eq_of_identity hc hd (congrArg MappingKey.identity hk)

/-- Other cards have other keys. -/
theorem Tidy.key_ne (h : l.Tidy) (hc : c ∈ l.cards) (hd : d ∈ l.cards) (hid : d.id ≠ c.id) :
    d.key ≠ c.key := fun hk => hid (congrArg Card.id (h.eq_of_key hd hc hk))

/-- A card that stays the same changes nothing. -/
theorem Tidy.amend_self (h : l.Tidy) (hc : c ∈ l.cards) : l.amend c c = l := by
  have hcards := Card.replaceIn_self fun d hd hid => h.eq_of_id hd hc hid
  rw [amend, if_pos rfl, hcards]

theorem mem_amend (hc : c ∈ l.cards) (hid : c'.id = c.id) :
    d ∈ (l.amend c c').cards ↔ d ∈ l.cards ∧ d.id ≠ c.id ∨ d = c' := by
  rw [amend, Card.mem_replaceIn, hid]
  constructor
  · rintro (h | ⟨rfl, -⟩)
    · exact .inl h
    · exact .inr rfl
  · rintro (h | rfl)
    · exact .inl h
    · exact .inr ⟨rfl, c, hc, rfl⟩

end Ledger

end FleetSync
