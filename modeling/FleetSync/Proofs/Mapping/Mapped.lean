import FleetSync.Proofs.Mapping.Ledger
import Mathlib.Logic.Relation

/-!
# Ledgers whose rows are in order

Every row belongs to a resource with a cluster, no resource has two of them, and a project is on the
cluster that its spec names and has its row there (`Ledger.Mapped`). The row of another resource may
lag behind its card. One that has a cluster but not the row for it is a stray (`Ledger.Stray`).

What operations do to a ledger are deeds (`Ledger.Deed`). A deed keeps the rows in order
(`Ledger.Mapped.deed`) and leaves no stray that was none (`Ledger.Deed.stray`). When a project is
relocated, the rows stay in order as well (`Ledger.Mapped.relocate`), but its members may be left
astray.
-/

namespace FleetSync

/-- Whether no key is that of both rows. -/
def MappingRow.Apart (r s : MappingRow) : Prop := ∀ k, r.hasKey k = true → s.hasKey k = false

namespace Ledger

/-- A ledger whose rows are in order. -/
structure Mapped (l : Ledger) : Prop where
  placed : ∀ c ∈ l.cards, c.key.Placed
  /-- Every row belongs to a resource with a cluster. -/
  owned : ∀ r ∈ l.rows, ∃ c ∈ l.cards, c.cluster.isSome = true ∧ r = c.key.row r.cluster
  /-- No resource has two rows. -/
  single : l.rows.Pairwise MappingRow.Apart
  /-- A project is on the cluster that its spec names. -/
  bound : ∀ c ∈ l.cards, c.key.kind = .project → c.cluster = c.bound
  /-- A project on a cluster has its row. -/
  filed : ∀ c ∈ l.cards, c.key.kind = .project → ∀ x, c.cluster = some x → c.key.row x ∈ l.rows

/-- The rows of an empty ledger are in order. -/
theorem mapped_of_empty {l : Ledger} (cards : l.cards = []) (rows : l.rows = []) : l.Mapped where
  placed c hc := by simp [cards] at hc
  owned r hr := by simp [rows] at hr
  single := by simp [rows]
  bound c hc := by simp [cards] at hc
  filed c hc := by simp [cards] at hc

theorem Mapped.keyed {l : Ledger} (h : l.Mapped) : l.Keyed where
  placed := h.placed
  rows r hr := by
    obtain ⟨c, hc, -, heq⟩ := h.owned r hr
    exact ⟨c.key, h.placed c hc, heq⟩

/-- Whether the resource of an id is on a cluster but has no row for it. -/
def Stray (l : Ledger) (id x : String) : Prop :=
  ∃ c ∈ l.cards, c.id = id ∧ c.cluster = some x ∧ c.key.row x ∉ l.rows

/-- What becomes of a ledger when a scope is detached: the rows of the scope go, and of its members
there remain at most some without a cluster. -/
structure Detaches (l : Ledger) (s : Scope) (l' : Ledger) : Prop where
  rows : l'.rows = l.rows.filter (!·.inScope s)
  others : ∀ c ∈ l.cards, s.takes c.key = false → c ∈ l'.cards
  members : ∀ c ∈ l'.cards, c ∈ l.cards ∧ s.takes c.key = false ∨
    ∃ d ∈ l.cards, c = { d with cluster := none, bound := none }

/-- What an operation does to a ledger. -/
inductive Deed (l : Ledger) : Ledger → Prop
  | post (topic key : String) (payload : ByteArray) : Deed l (l.post topic key payload)
  | enlist {c : Card} (placed : c.key.Placed) (target : c.cluster = l.target c) :
    Deed l (l.enlist c)
  | amend {c c' : Card} (mem : c ∈ l.cards) (id : c'.id = c.id) (key : c'.key = c.key)
    (bound : c.key.kind = .project → c'.cluster = c'.bound ∧ c'.cluster = c.cluster)
    (target : c'.cluster = c.cluster ∨ c'.cluster = l.target c') : Deed l (l.amend c c')
  | strike {c : Card} (mem : c ∈ l.cards) (off : c.cluster = none) : Deed l (l.strike c)
  | detach {s : Scope} {l' : Ledger} (detaches : l.Detaches s l') : Deed l l'

/-- What operations make of a ledger by one deed after the other. -/
def Evolves : Ledger → Ledger → Prop := Relation.ReflTransGen fun l l' => Deed l l' ∧ l'.Tidy

variable {l l' : Ledger} {c c' d : Card} {s : Scope} {r : MappingRow} {id x : String}

/-! ## Rows in order -/

theorem Mapped.apart_row (h : l.Mapped) (hr : r ∈ l.rows) {k : MappingKey}
    (hk : r.hasKey k = false) : MappingRow.Apart r (k.row x) := by
  intro k' hk'
  obtain ⟨c, -, -, hc⟩ := h.owned r hr
  rw [hc, MappingKey.hasKey_row] at hk'
  rw [Bool.eq_false_iff, Ne, MappingKey.hasKey_row]
  rintro rfl
  rw [hc, hk', Bool.eq_false_iff] at hk
  exact hk (MappingKey.hasKey_row.2 rfl)

theorem Mapped.single_fileIn (h : l.Mapped) (k : MappingKey) (o : Option String) :
    (fileIn l.rows k o).Pairwise MappingRow.Apart := by
  have without : (l.rows.filter (!·.hasKey k)).Pairwise MappingRow.Apart :=
    h.single.sublist List.filter_sublist
  cases o with
  | none => exact without
  | some x =>
    refine List.pairwise_append.2 ⟨without, List.pairwise_singleton .., fun r hr r' hr' => ?_⟩
    obtain rfl := List.mem_singleton.1 hr'
    obtain ⟨hr, hk⟩ := List.mem_filter.1 hr
    exact h.apart_row hr (by simpa using hk)

/-- A row that is filed under a key is that of the key and some cluster. -/
theorem Mapped.eq_row (h : l.Mapped) (hr : r ∈ l.rows) {k : MappingKey}
    (hk : r.hasKey k = true) : r = k.row r.cluster := by
  obtain ⟨c, -, -, heq⟩ := h.owned r hr
  rw [heq, MappingKey.hasKey_row] at hk
  rw [← hk, ← heq]

/-- A row that is not filed under the key of a card belongs to another one. -/
theorem Mapped.owner_ne (h : l.Mapped) (tidy : l.Tidy) (hc : c ∈ l.cards) (hr : r ∈ l.rows)
    (hk : r.hasKey c.key = false) : ∃ d ∈ l.cards, d.id ≠ c.id ∧ d.cluster.isSome = true ∧
      r = d.key.row r.cluster := by
  obtain ⟨d, hd, hsome, heq⟩ := h.owned r hr
  refine ⟨d, hd, fun hid => ?_, hsome, heq⟩
  rw [tidy.eq_of_id hd hc hid] at heq
  rw [heq, Bool.eq_false_iff] at hk
  exact hk (MappingKey.hasKey_row.2 rfl)

/-- The row of another card stays where one is filed. -/
theorem Tidy.mem_fileIn_other (tidy : l.Tidy) (hc : c ∈ l.cards) (hd : d ∈ l.cards)
    (hid : d.id ≠ c.id) {o : Option String} :
    d.key.row x ∈ fileIn l.rows c.key o ↔ d.key.row x ∈ l.rows := by
  have hkey := tidy.key_ne hc hd hid
  rw [mem_fileIn]
  constructor
  · rintro (⟨h, -⟩ | ⟨y, -, h⟩)
    · exact h
    · exact absurd (MappingKey.eq_of_row_eq h).1 hkey
  · exact fun h => .inl ⟨h, MappingKey.hasKey_row_of_ne hkey⟩

theorem Mapped.amend (h : l.Mapped) (tidy : l.Tidy) (hc : c ∈ l.cards) (hid : c'.id = c.id)
    (hkey : c'.key = c.key)
    (hbound : c.key.kind = .project → c'.cluster = c'.bound ∧ c'.cluster = c.cluster) :
    (l.amend c c').Mapped := by
  have cards : ∀ d, d ∈ (l.amend c c').cards ↔ d ∈ l.cards ∧ d.id ≠ c.id ∨ d = c' :=
    fun d => mem_amend hc hid
  have other : ∀ d ∈ l.cards, d.id ≠ c.id → ∀ x, d.key.row x ∈ l.rows →
      d.key.row x ∈ (l.amend c c').rows := by
    intro d hd hne x hx
    rw [Ledger.amend]
    dsimp only
    split
    · exact hx
    · rw [hkey]
      exact (tidy.mem_fileIn_other hc hd hne).2 hx
  refine ⟨fun d hd => ?_, fun r hr => ?_, ?_, fun d hd hk => ?_, fun d hd hk x hx => ?_⟩
  · rcases (cards d).1 hd with ⟨hd, -⟩ | rfl
    · exact h.placed d hd
    · exact hkey ▸ h.placed c hc
  · rw [Ledger.amend] at hr
    dsimp only at hr
    split at hr
    · rename_i hsame
      obtain ⟨d, hd, hsome, heq⟩ := h.owned r hr
      by_cases hne : d.id = c.id
      · obtain rfl := tidy.eq_of_id hd hc hne
        exact ⟨c', (cards c').2 (.inr rfl), hsame ▸ hsome, hkey ▸ heq⟩
      · exact ⟨d, (cards d).2 (.inl ⟨hd, hne⟩), hsome, heq⟩
    · rw [hkey] at hr
      rcases mem_fileIn.1 hr with ⟨hr, hno⟩ | ⟨y, hy, rfl⟩
      · obtain ⟨d, hd, hne, hsome, heq⟩ := h.owner_ne tidy hc hr hno
        exact ⟨d, (cards d).2 (.inl ⟨hd, hne⟩), hsome, heq⟩
      · exact ⟨c', (cards c').2 (.inr rfl), by rw [hy]; rfl, by rw [hkey]; rfl⟩
  · rw [Ledger.amend]
    dsimp only
    split
    · exact h.single
    · exact h.single_fileIn _ _
  · rcases (cards d).1 hd with ⟨hd, -⟩ | rfl
    · exact h.bound d hd hk
    · exact (hbound (hkey ▸ hk)).1
  · rcases (cards d).1 hd with ⟨hd, hne⟩ | rfl
    · exact other d hd hne x (h.filed d hd hk x hx)
    · -- A project stays on its cluster, so its row stays as well.
      have hsame := (hbound (hkey ▸ hk)).2
      have hrow := h.filed c hc (hkey ▸ hk) x (hsame ▸ hx)
      rw [Ledger.amend]
      dsimp only
      rw [if_pos hsame, hkey]
      exact hrow

theorem mem_strike : d ∈ (l.strike c).cards ↔ d ∈ l.cards ∧ d.id ≠ c.id := by
  simp [Ledger.strike]

theorem rows_strike (l : Ledger) (c : Card) : (l.strike c).rows = fileIn l.rows c.key none := rfl

theorem Mapped.strike (h : l.Mapped) (tidy : l.Tidy) (hc : c ∈ l.cards) : (l.strike c).Mapped := by
  refine ⟨fun d hd => ?_, fun r hr => ?_, ?_, fun d hd hk => ?_, fun d hd hk x hx => ?_⟩
  · exact h.placed d (mem_strike.1 hd).1
  · rw [rows_strike] at hr
    rcases mem_fileIn.1 hr with ⟨hr, hno⟩ | ⟨y, hy, -⟩
    · obtain ⟨d, hd, hne, hsome, heq⟩ := h.owner_ne tidy hc hr hno
      exact ⟨d, mem_strike.2 ⟨hd, hne⟩, hsome, heq⟩
    · cases hy
  · rw [rows_strike]
    exact h.single_fileIn _ _
  · exact h.bound d (mem_strike.1 hd).1 hk
  · obtain ⟨hd, hne⟩ := mem_strike.1 hd
    rw [rows_strike]
    exact (tidy.mem_fileIn_other hc hd hne).2 (h.filed d hd hk x hx)

/-- A card that is added is new. -/
theorem Tidy.new_of_enlist (tidy : (l.enlist c).Tidy) (hd : d ∈ l.cards) :
    d.id ≠ c.id ∧ d.key ≠ c.key := by
  have hmem : d ∈ (l.enlist c).cards := List.mem_append_left _ hd
  have hnew : c ∈ (l.enlist c).cards := List.mem_concat_self
  have hids := tidy.ids
  rw [Ledger.enlist, List.map_append, List.nodup_append] at hids
  have hid : d.id ≠ c.id :=
    hids.2.2 _ (List.mem_map_of_mem hd) _ (List.mem_singleton_self _)
  exact ⟨hid, fun hkey => hid (congrArg Card.id (tidy.eq_of_key hmem hnew hkey))⟩

theorem Mapped.enlist (h : l.Mapped) (tidy : (l.enlist c).Tidy) (placed : c.key.Placed)
    (hbound : c.key.kind = .project → c.cluster = c.bound) : (l.enlist c).Mapped := by
  have cards : ∀ d, d ∈ (l.enlist c).cards ↔ d ∈ l.cards ∨ d = c := by
    simp [Ledger.enlist]
  have rows : ∀ r, r ∈ (l.enlist c).rows ↔
      r ∈ l.rows ∨ ∃ x, c.cluster = some x ∧ r = c.key.row x := by
    intro r
    have hfree : ∀ r ∈ l.rows, r.hasKey c.key = false := by
      intro r hr
      obtain ⟨d, hd, -, heq⟩ := h.owned r hr
      rw [heq]
      exact MappingKey.hasKey_row_of_ne (tidy.new_of_enlist hd).2
    rw [Ledger.enlist]
    dsimp only
    split
    · rename_i hnone
      simp [hnone]
    · rw [mem_fileIn]
      constructor
      · rintro (⟨hr, -⟩ | hr)
        · exact .inl hr
        · exact .inr hr
      · rintro (hr | hr)
        · exact .inl ⟨hr, hfree r hr⟩
        · exact .inr hr
  refine ⟨fun d hd => ?_, fun r hr => ?_, ?_, fun d hd hk => ?_, fun d hd hk x hx => ?_⟩
  · rcases (cards d).1 hd with hd | rfl
    · exact h.placed d hd
    · exact placed
  · rcases (rows r).1 hr with hr | ⟨x, hx, rfl⟩
    · obtain ⟨d, hd, hsome, heq⟩ := h.owned r hr
      exact ⟨d, (cards d).2 (.inl hd), hsome, heq⟩
    · exact ⟨c, (cards c).2 (.inr rfl), by rw [hx]; rfl, rfl⟩
  · rw [Ledger.enlist]
    dsimp only
    split
    · exact h.single
    · exact h.single_fileIn _ _
  · rcases (cards d).1 hd with hd | rfl
    · exact h.bound d hd hk
    · exact hbound hk
  · rcases (cards d).1 hd with hd | rfl
    · exact (rows _).2 (.inl (h.filed d hd hk x hx))
    · exact (rows _).2 (.inr ⟨x, hx, rfl⟩)

theorem Mapped.detach (h : l.Mapped) (detaches : l.Detaches s l') : l'.Mapped := by
  have rows : ∀ r, r ∈ l'.rows ↔ r ∈ l.rows ∧ r.inScope s = false := by
    intro r
    rw [detaches.rows, List.mem_filter]
    simp
  refine ⟨fun d hd => ?_, fun r hr => ?_, ?_, fun d hd hk => ?_, fun d hd hk x hx => ?_⟩
  · rcases detaches.members d hd with ⟨hd, -⟩ | ⟨d₀, hd₀, rfl⟩
    · exact h.placed d hd
    · exact h.placed d₀ hd₀
  · obtain ⟨hr, hout⟩ := (rows r).1 hr
    obtain ⟨d, hd, hsome, heq⟩ := h.owned r hr
    rw [heq, (h.placed d hd).inScope_row] at hout
    exact ⟨d, detaches.others d hd hout, hsome, heq⟩
  · rw [detaches.rows]
    exact h.single.sublist List.filter_sublist
  · rcases detaches.members d hd with ⟨hd, -⟩ | ⟨d, hd, rfl⟩
    · exact h.bound d hd hk
    · rfl
  · rcases detaches.members d hd with ⟨hd, hout⟩ | ⟨d, hd, rfl⟩
    · exact (rows _).2 ⟨h.filed d hd hk x hx, by rw [(h.placed d hd).inScope_row, hout]⟩
    · cases hx

/-- A deed keeps the rows in order. -/
theorem Mapped.deed (h : l.Mapped) (tidy : l.Tidy) (tidy' : l'.Tidy) (deed : Deed l l') :
    l'.Mapped := by
  cases deed with
  | post topic key payload => exact ⟨h.placed, h.owned, h.single, h.bound, h.filed⟩
  | enlist placed target =>
    exact h.enlist tidy' placed fun hk => target.trans (if_pos hk)
  | amend mem id key bound => exact h.amend tidy mem id key bound
  | strike mem => exact h.strike tidy mem
  | detach detaches => exact h.detach detaches

/-! ## Relocations -/

/-- The members of a project's scope are filed under its account and its name. -/
theorem takes_scope_of_project (hc : c.key.Placed) (hk : c.key.kind = .project) {k : MappingKey} :
    c.key.scope.takes k = true ↔ k.account = c.key.account ∧ k.project = c.key.project := by
  have henv : c.key.environment = none := by
    cases he : c.key.environment with
    | none => rfl
    | some e =>
      have hlevel := hc.level.1 (by rw [he]; rfl)
      rw [hk] at hlevel
      cases hlevel
  simp [MappingKey.scope, henv, Scope.of, Scope.takes, Scope.accountName, Scope.projectName,
    Scope.environmentName?]

/-- Another project is not a member of a project's scope. -/
theorem Mapped.not_takes_project (h : l.Mapped) (tidy : l.Tidy) (hc : c ∈ l.cards)
    (hk : c.key.kind = .project) (hd : d ∈ l.cards) (hdk : d.key.kind = .project)
    (hne : d.id ≠ c.id) : c.key.scope.takes d.key = false := by
  rw [Bool.eq_false_iff, Ne, takes_scope_of_project (h.placed c hc) hk]
  rintro ⟨ha, hp⟩
  have none : ∀ e ∈ l.cards, e.key.kind = .project → e.key.environment = none := by
    intro e he hek
    cases henv : e.key.environment with
    | none => rfl
    | some x =>
      have hlevel := (h.placed e he).level.1 (by rw [henv]; rfl)
      rw [hek] at hlevel
      cases hlevel
  have hidentity : d.key.identity = c.key.identity := by
    simp [MappingKey.identity, hk, hdk, ha, hp, none c hc hk, none d hd hdk,
      (h.placed c hc).own hk, (h.placed d hd).own hdk]
  exact hne (congrArg Card.id (tidy.eq_of_identity hd hc hidentity))

/-- The rows after a project is relocated. -/
theorem mem_relocate {r : MappingRow} : r ∈ (l.relocate c).rows ↔
    match c.cluster with
    | some x => ∃ r₀ ∈ fileIn l.rows c.key (some x),
      r = if r₀.inScope c.key.scope then { r₀ with cluster := x } else r₀
    | none => r ∈ l.rows ∧ r.inScope c.key.scope = false := by
  rw [Ledger.relocate]
  cases c.cluster with
  | some x =>
    rw [List.mem_map]
    exact exists_congr fun r₀ => and_congr_right fun _ => eq_comm
  | none => simp

theorem MappingKey.row_with (k : MappingKey) (x y : String) :
    { k.row x with cluster := y } = k.row y := rfl

/-- Whatever is filed outside a project stays when it is relocated. -/
theorem row_mem_relocate (hd : d.key.Placed)
    (hout : c.key.scope.takes d.key = false) (hne : d.key ≠ c.key) :
    d.key.row x ∈ (l.relocate c).rows ↔ d.key.row x ∈ l.rows := by
  have hrow : ∀ y, (d.key.row y).inScope c.key.scope = false := fun y => by
    rw [hd.inScope_row, hout]
  rw [mem_relocate]
  cases hx : c.cluster with
  | none => simp [hrow]
  | some y =>
    dsimp only
    constructor
    · rintro ⟨r₀, hr₀, heq⟩
      split at heq
      · rename_i hin
        have hsame : r₀.inScope c.key.scope = (d.key.row x).inScope c.key.scope := by
          rw [heq]
          cases c.key.scope <;> rfl
        rw [hsame, hrow] at hin
        cases hin
      · subst heq
        rcases mem_fileIn.1 hr₀ with ⟨hr₀, -⟩ | ⟨z, -, hz⟩
        · exact hr₀
        · exact absurd (MappingKey.eq_of_row_eq hz).1 hne
    · intro hr
      refine ⟨d.key.row x, mem_fileIn.2 (.inl ⟨hr, MappingKey.hasKey_row_of_ne hne⟩), ?_⟩
      rw [hrow, if_neg Bool.false_ne_true]

theorem mem_relocate_cards (hc : c ∈ l.cards) (hid : c'.id = c.id) :
    d ∈ (l.relocate c').cards ↔ d ∈ l.cards ∧ d.id ≠ c.id ∨ d = c' := mem_amend hc hid

/-- The row of a project that is relocated is filed. -/
theorem own_row_mem_relocate (hc : c.key.Placed) (hk : c.key.kind = .project)
    (hx : c.cluster = some x) : c.key.row x ∈ (l.relocate c).rows := by
  rw [mem_relocate, hx]
  refine ⟨c.key.row x, mem_fileIn.2 (.inr ⟨x, rfl, rfl⟩), ?_⟩
  rw [hc.inScope_row, (takes_scope_of_project hc hk).2 ⟨rfl, rfl⟩, if_pos rfl,
    MappingKey.row_with]

/-- All rows of a project that is relocated name its cluster. -/
theorem cluster_of_mem_relocate (hx : c.cluster = some x) (hr : r ∈ (l.relocate c).rows)
    (hin : r.inScope c.key.scope = true) : r.cluster = x := by
  rw [mem_relocate, hx] at hr
  obtain ⟨r₀, -, rfl⟩ := hr
  split at hin
  · rename_i h
    rw [if_pos h]
  · rename_i h
    exact absurd hin h

/-- Where a project moves, the rows stay in order. -/
theorem Mapped.relocate (h : l.Mapped) (tidy : l.Tidy) (hc : c ∈ l.cards) (hid : c'.id = c.id)
    (hkey : c'.key = c.key) (hk : c.key.kind = .project) (hbound : c'.cluster = c'.bound) :
    (l.relocate c').Mapped := by
  have cards : ∀ d, d ∈ (l.relocate c').cards ↔ d ∈ l.cards ∧ d.id ≠ c.id ∨ d = c' :=
    fun d => mem_relocate_cards hc hid
  have placed : c'.key.Placed := hkey ▸ h.placed c hc
  have hk' : c'.key.kind = .project := hkey ▸ hk
  refine ⟨fun d hd => ?_, fun r hr => ?_, ?_, fun d hd hdk => ?_, fun d hd hdk x hx => ?_⟩
  · rcases (cards d).1 hd with ⟨hd, -⟩ | rfl
    · exact h.placed d hd
    · exact placed
  · rw [mem_relocate] at hr
    cases hx : c'.cluster with
    | none =>
      rw [hx] at hr
      obtain ⟨hr, hout⟩ := hr
      obtain ⟨d, hd, hsome, heq⟩ := h.owned r hr
      refine ⟨d, (cards d).2 (.inl ⟨hd, fun he => ?_⟩), hsome, heq⟩
      -- The row of the project itself is one of its scope.
      rw [heq, tidy.eq_of_id hd hc he, (h.placed c hc).inScope_row, hkey,
        (takes_scope_of_project (h.placed c hc) hk).2 ⟨rfl, rfl⟩] at hout
      cases hout
    | some x =>
      rw [hx] at hr
      obtain ⟨r₀, hr₀, rfl⟩ := hr
      have owner : ∃ d ∈ (l.relocate c').cards, d.cluster.isSome = true ∧
          r₀ = d.key.row r₀.cluster := by
        rcases mem_fileIn.1 hr₀ with ⟨hr₀, hno⟩ | ⟨y, hy, rfl⟩
        · rw [hkey] at hno
          obtain ⟨d, hd, hne, hsome, heq⟩ := h.owner_ne tidy hc hr₀ hno
          exact ⟨d, (cards d).2 (.inl ⟨hd, hne⟩), hsome, heq⟩
        · exact ⟨c', (cards c').2 (.inr rfl), by rw [hx]; rfl, rfl⟩
      obtain ⟨d, hd, hsome, heq⟩ := owner
      refine ⟨d, hd, hsome, ?_⟩
      split
      · rw [heq]
        rfl
      · exact heq
  · rw [Ledger.relocate]
    cases c'.cluster with
    | none => exact h.single.sublist List.filter_sublist
    | some x =>
      have same : ∀ (r : MappingRow) k, (if r.inScope c'.key.scope then { r with cluster := x }
          else r).hasKey k = r.hasKey k := by
        intro r k
        split <;> rfl
      refine List.Pairwise.map _ (fun a b hab k hk => ?_) (h.single_fileIn c'.key (some x))
      rw [same] at hk ⊢
      exact hab k hk
  · rcases (cards d).1 hd with ⟨hd, -⟩ | rfl
    · exact h.bound d hd hdk
    · exact hbound
  · rcases (cards d).1 hd with ⟨hd, hne⟩ | rfl
    · have hout := h.not_takes_project tidy hc hk hd hdk hne
      exact (row_mem_relocate (h.placed d hd) (hkey ▸ hout) (hkey ▸ tidy.key_ne hc hd hne)).2
        (h.filed d hd hdk x hx)
    · exact own_row_mem_relocate placed hk' hx

/-! ## Strays -/

/-- Where a card is taken away, no other goes astray. -/
theorem Tidy.stray_strike (tidy : l.Tidy) (hc : c ∈ l.cards) (stray : (l.strike c).Stray id x) :
    l.Stray id x := by
  obtain ⟨d, hd, rfl, hx, hrow⟩ := stray
  obtain ⟨hd, hne⟩ := mem_strike.1 hd
  refine ⟨d, hd, rfl, hx, fun hr => hrow ?_⟩
  rw [rows_strike]
  exact (tidy.mem_fileIn_other hc hd hne).2 hr

/-- A deed leaves no stray that was none. -/
theorem Deed.stray (deed : Deed l l') (h : l.Mapped) (tidy : l.Tidy) (tidy' : l'.Tidy)
    (stray : l'.Stray id x) : l.Stray id x := by
  cases deed with
  | post topic key payload => exact stray
  | @enlist c placed target =>
    obtain ⟨d, hd, rfl, hx, hrow⟩ := stray
    rcases List.mem_append.1 hd with hd | hd
    · refine ⟨d, hd, rfl, hx, fun hr => hrow ?_⟩
      rw [Ledger.enlist]
      dsimp only
      split
      · exact hr
      · have hne := (tidy'.new_of_enlist hd).2
        exact mem_fileIn.2 (.inl ⟨hr, MappingKey.hasKey_row_of_ne hne⟩)
    · obtain rfl := List.mem_singleton.1 hd
      rw [Ledger.enlist, hx] at hrow
      exact absurd (mem_fileIn.2 (.inr ⟨x, rfl, rfl⟩)) hrow
  | @amend c c' mem hid key bound target =>
    obtain ⟨d, hd, rfl, hx, hrow⟩ := stray
    rcases (mem_amend mem hid).1 hd with ⟨hd, hne⟩ | rfl
    · refine ⟨d, hd, rfl, hx, fun hr => hrow ?_⟩
      rw [Ledger.amend]
      dsimp only
      split
      · exact hr
      · rw [key]
        exact (tidy.mem_fileIn_other mem hd hne).2 hr
    · rw [Ledger.amend] at hrow
      dsimp only at hrow
      split at hrow
      · rename_i hsame
        exact ⟨c, mem, hid.symm, hsame ▸ hx, key ▸ hrow⟩
      · rw [hx] at hrow
        exact absurd (mem_fileIn.2 (.inr ⟨x, rfl, rfl⟩)) hrow
  | strike mem => exact tidy.stray_strike mem stray
  | @detach s l' detaches =>
    obtain ⟨d, hd, rfl, hx, hrow⟩ := stray
    rcases detaches.members d hd with ⟨hd, hout⟩ | ⟨d₀, hd₀, rfl⟩
    · refine ⟨d, hd, rfl, hx, fun hr => hrow ?_⟩
      rw [detaches.rows, List.mem_filter]
      exact ⟨hr, by rw [(h.placed d hd).inScope_row, hout]; rfl⟩
    · cases hx

/-- Where a project moves, nothing outside it goes astray. -/
theorem Mapped.stray_relocate (h : l.Mapped) (tidy : l.Tidy) (hc : c ∈ l.cards)
    (hid : c'.id = c.id) (hkey : c'.key = c.key) (hk : c.key.kind = .project)
    (stray : (l.relocate c').Stray id x)
    (outside : ∀ d ∈ l.cards, d.id = id → c.key.scope.takes d.key = false) : l.Stray id x := by
  obtain ⟨d, hd, rfl, hx, hrow⟩ := stray
  rcases (mem_relocate_cards hc hid).1 hd with ⟨hd, hne⟩ | rfl
  · have hout := outside d hd rfl
    refine ⟨d, hd, rfl, hx, fun hr => hrow ?_⟩
    exact (row_mem_relocate (h.placed d hd) (hkey ▸ hout) (hkey ▸ tidy.key_ne hc hd hne)).2 hr
  · exact absurd (own_row_mem_relocate (hkey ▸ h.placed c hc) (hkey ▸ hk) hx) hrow

/-! ## Sequences of deeds -/

theorem Mapped.evolves (h : l.Mapped) (tidy : l.Tidy) (evolves : l.Evolves l') :
    l'.Mapped ∧ l'.Tidy := by
  induction evolves with
  | refl => exact ⟨h, tidy⟩
  | tail _ deed ih => exact ⟨ih.1.deed ih.2 deed.2 deed.1, deed.2⟩

theorem Evolves.stray (evolves : l.Evolves l') (h : l.Mapped) (tidy : l.Tidy)
    (stray : l'.Stray id x) : l.Stray id x := by
  induction evolves with
  | refl => exact stray
  | tail before deed ih =>
    obtain ⟨hb, htb⟩ := h.evolves tidy before
    exact ih (deed.1.stray hb htb deed.2 stray)

theorem eq_singleton_of_mem {α : Type} {as : List α} {a : α} (h : as.length ≤ 1) (ha : a ∈ as) :
    as = [a] := by
  obtain ⟨b, rfl⟩ := List.length_eq_one_iff.1 (Nat.le_antisymm h (List.length_pos_of_mem ha))
  rw [List.mem_singleton.1 ha]

/-- No two rows are filed under the same key. -/
theorem Mapped.length_rows_le (h : l.Mapped) (k : MappingKey) :
    (l.rows.filter (·.hasKey k)).length ≤ 1 := by
  have hpair : (l.rows.filter (·.hasKey k)).Pairwise MappingRow.Apart :=
    h.single.sublist List.filter_sublist
  have hkeys : ∀ r ∈ l.rows.filter (·.hasKey k), r.hasKey k = true :=
    fun r hr => (List.mem_filter.1 hr).2
  match hrows : l.rows.filter (·.hasKey k) with
  | [] | [_] => rw [hrows]; simp
  | a :: b :: rest =>
    rw [hrows] at hpair hkeys
    have hapart := (List.pairwise_cons.1 hpair).1 b (List.mem_cons_self ..)
    have hno := hapart k (hkeys a (List.mem_cons_self ..))
    rw [hkeys b (List.mem_cons_of_mem _ (List.mem_cons_self ..))] at hno
    cases hno

/-- A resource on a cluster that is no stray has one row, and that row names the cluster. -/
theorem Mapped.rows_of_not_stray (h : l.Mapped) (hc : c ∈ l.cards) (hx : c.cluster = some x)
    (hs : ¬ l.Stray c.id x) : l.rows.filter (·.hasKey c.key) = [c.key.row x] := by
  have hrow : c.key.row x ∈ l.rows := by
    by_contra hrow
    exact hs ⟨c, hc, rfl, hx, hrow⟩
  exact eq_singleton_of_mem (h.length_rows_le c.key)
    (List.mem_filter.2 ⟨hrow, MappingKey.hasKey_row.2 rfl⟩)

end Ledger

end FleetSync
