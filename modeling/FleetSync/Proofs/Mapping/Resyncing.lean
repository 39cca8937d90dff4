import FleetSync.Proofs.Sequence.Dispatch

/-!
# Ledgers while a project is sent again

A project that has a cluster is sent again together with its members, one after the other. What
lives directly in the project finds the cluster through the row of the project, and what lives in an
environment through the row of that environment (`Ledger.Mapped.resolve_of_row`). So a member that
is sent is on the cluster afterwards if its environment was sent before (`Ledger.Resyncing.settle`),
and the row of the member names the cluster unless the member was a stray: then its document names
the cluster already, and nothing files the row.
-/

namespace FleetSync

theorem Wire.Envelope.isOf_on {e : Wire.Envelope} {c : Card} {o : Option String} :
    e.IsOf (c.on o) ↔ e.IsOf c :=
  ⟨fun h => ⟨h.account, h.kind, h.namespaceName, h.name, h.version, h.action⟩,
    fun h => ⟨h.account, h.kind, h.namespaceName, h.name, h.version, h.action⟩⟩

namespace MappingIndex

variable {rows : List MappingRow} {r : MappingRow} {s : Scope} {x : String}

theorem mem_of_first? (h : first? rows = some r) : r ∈ rows := by
  induction rows generalizing r with
  | nil => cases h
  | cons a rest ih =>
    rw [first?] at h
    split at h
    · obtain rfl := Option.some.inj h
      exact List.mem_cons_self ..
    · rename_i b hb
      split at h <;> obtain rfl := Option.some.inj h
      · exact List.mem_cons_self ..
      · exact List.mem_cons_of_mem _ (ih hb)

theorem isSome_first? (h : r ∈ rows) : (first? rows).isSome = true := by
  cases rows with
  | nil => cases h
  | cons a rest =>
    rw [first?]
    split
    · rfl
    · split <;> rfl

/-- A scope is on the cluster that the rows of its owner name, if there are any. -/
theorem resolve_eq (hr : r ∈ rows) (owns : r.ownsScope s = true)
    (all : ∀ r ∈ rows, r.ownsScope s = true → r.cluster = x) :
    (MappingIndex.mk rows).resolve s = some x := by
  have hmem : r ∈ rows.filter (·.ownsScope s) := List.mem_filter.2 ⟨hr, owns⟩
  obtain ⟨r', hr'⟩ := Option.isSome_iff_exists.1 (isSome_first? hmem)
  obtain ⟨hmem, howns⟩ := List.mem_filter.1 (mem_of_first? hr')
  rw [resolve, hr', ← all r' hmem howns]
  rfl

end MappingIndex

namespace MappingKey

/-- Whether a key is that of the owner of a scope. -/
def Owns (k : MappingKey) : Scope → Prop
  | .project a q => k.kind = .project ∧ k.account = a ∧ k.project = q
  | .environment a q e =>
    k.kind = .environment ∧ k.account = a ∧ k.project = q ∧ k.environment = none ∧ k.name = e

variable {k k' : MappingKey} {s : Scope} {x : String}

theorem Placed.environment_none (h : k.Placed) (hl : k.kind.level = .project) :
    k.environment = none := by
  cases he : k.environment with
  | none => rfl
  | some e =>
    have hlevel := h.level.1 (by rw [he]; rfl)
    rw [hl] at hlevel
    cases hlevel

theorem Placed.owns_iff (h : k.Placed) : (k.row x).ownsScope s = true ↔ k.Owns s := by
  cases s with
  | project a q =>
    simp only [MappingRow.ownsScope, row, MappingRow.ofMapping, Bool.and_eq_true, beq_iff_eq, Owns]
    constructor
    · rintro ⟨⟨hk, ha⟩, hn⟩
      have hk := Kind.name_inj hk
      exact ⟨hk, ha, (h.own hk).symm.trans hn⟩
    · rintro ⟨hk, ha, hq⟩
      exact ⟨⟨congrArg Kind.name hk, ha⟩, (h.own hk).trans hq⟩
  | environment a q e =>
    simp only [MappingRow.ownsScope, row, MappingRow.ofMapping, Bool.and_eq_true, beq_iff_eq, Owns]
    constructor
    · rintro ⟨⟨⟨hk, ha⟩, hq⟩, hn⟩
      have hk := Kind.name_inj hk
      exact ⟨hk, ha, hq, h.environment_none (by rw [hk]; rfl), hn⟩
    · rintro ⟨hk, ha, hq, -, hn⟩
      exact ⟨⟨⟨congrArg Kind.name hk, ha⟩, hq⟩, hn⟩

/-- A scope has one owner. -/
theorem Owns.identity_eq (h : k.Owns s) (hp : k.Placed) (hp' : k'.Placed) (h' : k'.Owns s) :
    k.identity = k'.identity := by
  cases s with
  | project a q =>
    obtain ⟨hk, ha, hq⟩ := h
    obtain ⟨hk', ha', hq'⟩ := h'
    simp [identity, hk, hk', ha, ha', hq, hq', hp.own hk, hp'.own hk',
      hp.environment_none (by rw [hk]; rfl), hp'.environment_none (by rw [hk']; rfl)]
  | environment a q e =>
    obtain ⟨hk, ha, hq, he, hn⟩ := h
    obtain ⟨hk', ha', hq', he', hn'⟩ := h'
    simp [identity, hk, hk', ha, ha', hq, hq', he, he', hn, hn']

end MappingKey

namespace Ledger

variable {p : ControlPlane} {l₀ l l₁ : Ledger} {s : Scope} {x y : String} {c d : Card}
  {o : Option String} {r : Resource} {action : SyncAction} {waits waits' : Card → Prop}

/-- What belongs to a scope finds the cluster through the row of the owner. -/
theorem Mapped.resolve_of_row (h : l.Mapped) (tidy : l.Tidy) {k : MappingKey}
    (hrow : k.row x ∈ l.rows) (owns : k.Owns s) :
    (MappingIndex.mk l.rows).resolve s = some x := by
  obtain ⟨d, hd, -, heq⟩ := h.owned _ hrow
  obtain ⟨rfl, -⟩ := MappingKey.eq_of_row_eq heq
  have placed := h.placed d hd
  refine MappingIndex.resolve_eq hrow (placed.owns_iff.2 owns) fun r hr howns => ?_
  obtain ⟨e, he, -, hre⟩ := h.owned r hr
  rw [hre, (h.placed e he).owns_iff] at howns
  have hed : e = d := tidy.eq_of_identity he hd
    (howns.identity_eq (h.placed e he) placed owns)
  rw [hed] at hre
  have hone := eq_singleton_of_mem (h.length_rows_le d.key)
    (List.mem_filter.2 ⟨hrow, MappingKey.hasKey_row.2 rfl⟩)
  have hr : r ∈ l.rows.filter (·.hasKey d.key) :=
    List.mem_filter.2 ⟨hr, hre ▸ MappingKey.hasKey_row.2 rfl⟩
  rw [hone, List.mem_singleton] at hr
  rw [hr, MappingKey.cluster_row]

/-! ## The bus -/

/-- Sending something only adds to the topics. -/
theorem Sends.log (sends : Sends p r action l l₁ o) (t : String) :
    l.bus.log t <+: l₁.bus.log t := by
  cases o with
  | none =>
    obtain rfl : l₁ = l := sends
    exact List.prefix_refl _
  | some x =>
    obtain ⟨frame, -, rfl⟩ := sends
    rw [Ledger.post, MemoryBus.log_publish]
    exact List.prefix_append _ _

/-- Whether a resource was sent to a cluster since an earlier moment, as its card says. -/
def Sent (p : ControlPlane) (l : Ledger) (x : String) (c : Card) (l' : Ledger) : Prop :=
  ∃ d ∈ (l'.bus.log (p.topicOf x)).drop (l.bus.log (p.topicOf x)).length,
    ∃ e : Wire.Envelope, d.Carries e ∧ e.clusterName = x ∧ e.IsOf c

theorem Sent.mono {l' : Ledger} (h : Sent p l₀ x c l)
    (log : l.bus.log (p.topicOf x) <+: l'.bus.log (p.topicOf x)) : Sent p l₀ x c l' := by
  obtain ⟨d, hd, h⟩ := h
  obtain ⟨later, hlater⟩ := log
  refine ⟨d, ?_, h⟩
  rw [← hlater, List.drop_append]
  exact List.mem_append_left _ hd

/-- What is sent was sent since any earlier moment. -/
theorem Sends.sent (sends : Sends p r r.pendingAction l l₁ (some x))
    (log : l₀.bus.log (p.topicOf x) <+: l.bus.log (p.topicOf x)) : Sent p l₀ x r.card l₁ := by
  obtain ⟨frame, hframe, rfl⟩ := sends
  let d : Delivery :=
    ⟨(l.bus.log (p.topicOf x)).length, p.topicOf x, r.namespaceName, frame.toBytes, 1⟩
  refine ⟨d, ?_, r.envelope x r.pendingAction, ⟨frame, hframe, rfl⟩, rfl, r.envelope_isOf x⟩
  rw [Ledger.post, MemoryBus.log_publish, if_pos rfl, List.drop_append_of_le_length log.length_le]
  exact List.mem_concat_self

/-! ## One card after the other -/

/-- Other rows stay where a card is settled. -/
theorem Tidy.row_mem_settle (tidy : l.Tidy) (hc : c ∈ l.cards) (hd : d ∈ l.cards)
    (hid : d.id ≠ c.id) : d.key.row y ∈ (l.settle c o).rows ↔ d.key.row y ∈ l.rows := by
  have hother := fun o' => tidy.mem_fileIn_other (x := y) hc hd hid (o := o')
  have hamend : d.key.row y ∈ (l.amend c (c.on o)).rows ↔ d.key.row y ∈ l.rows := by
    rw [Ledger.amend]
    dsimp only
    split
    · exact Iff.rfl
    · exact hother o
  rw [Ledger.settle]
  split
  · rw [rows_strike, mem_fileIn, hamend]
    simp [MappingKey.hasKey_row_of_ne (tidy.key_ne hc hd hid)]
  · exact hamend

/-- Nobody is settled who was not there. -/
theorem origin_settle (hd : d ∈ (l.settle c o).cards) (hc : c ∈ l.cards) :
    ∃ e ∈ l.cards, d.id = e.id ∧ d.key = e.key := by
  have hamend : d ∈ (l.amend c (c.on o)).cards → ∃ e ∈ l.cards, d.id = e.id ∧ d.key = e.key := by
    intro hd
    rcases (mem_amend hc (c.id_on o)).1 hd with ⟨hd, -⟩ | rfl
    · exact ⟨d, hd, rfl, rfl⟩
    · exact ⟨c, hc, rfl, rfl⟩
  rw [Ledger.settle] at hd
  split at hd
  · exact hamend (mem_strike.1 hd).1
  · exact hamend hd

theorem bus_settle : (l.settle c o).bus = l.bus := by
  rw [Ledger.settle]
  split <;> rfl

/-- A card that is settled on a cluster is there afterwards; its row is filed if the card was not
there before. -/
theorem settle_on (hc : c ∈ l.cards) : c.on (some x) ∈ (l.settle c (some x)).cards ∧
    (c.key.row x ∈ (l.settle c (some x)).rows ↔ (c.cluster = some x → c.key.row x ∈ l.rows)) := by
  rw [Ledger.settle, if_neg fun h => Option.some_ne_none x h.1]
  refine ⟨(mem_amend hc (c.id_on _)).2 (.inr rfl), ?_⟩
  rw [Ledger.amend]
  dsimp only
  split
  · rename_i hsame
    exact ⟨fun h _ => h, fun h => h hsame.symm⟩
  · rename_i hne
    exact ⟨fun _ h => absurd h.symm hne, fun _ => mem_fileIn.2 (.inr ⟨x, rfl, rfl⟩)⟩

theorem Tidy.not_stray_iff (tidy : l.Tidy) (hc : c ∈ l.cards) :
    ¬ l.Stray c.id x ↔ (c.cluster = some x → c.key.row x ∈ l.rows) := by
  constructor
  · intro h hx
    by_contra hrow
    exact h ⟨c, hc, rfl, hx, hrow⟩
  · rintro h ⟨d, hd, hid, hx, hrow⟩
    rw [tidy.eq_of_id hd hc hid] at hx hrow
    exact hrow (h hx)

/-- Whether a member of a scope is reached through rows: it lives in the project, or in an
environment that has a document and is no stray. -/
structure Reached (l : Ledger) (s : Scope) (x : String) (c : Card) : Prop where
  takes : s.takes c.key = true
  environment : ∀ e, c.key.environment = some e → ∃ d ∈ l.cards,
    d.key.Owns (.environment c.key.account c.key.project e) ∧ ¬ l.Stray d.id x

/-- A member that was sent is on the cluster, and it has its row unless it was a stray. -/
structure Settled (p : ControlPlane) (l₀ : Ledger) (x : String) (c : Card) (l : Ledger) : Prop where
  card : c.on (some x) ∈ l.cards
  row : c.key.row x ∈ l.rows ↔ ¬ l₀.Stray c.id x
  sent : Sent p l₀ x c l

/-- What has become of a ledger while the members of a scope are sent again: those that were reached
wait as they were, or they were sent. -/
structure Resyncing (p : ControlPlane) (l₀ : Ledger) (s : Scope) (x : String) (waits : Card → Prop)
    (l : Ledger) : Prop where
  origin : ∀ c ∈ l.cards, ∃ d ∈ l₀.cards, c.id = d.id ∧ c.key = d.key
  log : ∀ t, l₀.bus.log t <+: l.bus.log t
  reached : ∀ c ∈ l₀.cards, l₀.Reached s x c →
    waits c ∧ c ∈ l.cards ∧ (c.key.row x ∈ l.rows ↔ c.key.row x ∈ l₀.rows) ∨ Settled p l₀ x c l

theorem Resyncing.refl (all : ∀ c ∈ l₀.cards, waits c) : Resyncing p l₀ s x waits l₀ where
  origin c hc := ⟨c, hc, rfl, rfl⟩
  log _ := List.prefix_refl _
  reached c hc _ := .inl ⟨all c hc, hc, Iff.rfl⟩

theorem Resyncing.mono (h : Resyncing p l₀ s x waits l)
    (hw : ∀ c ∈ l.cards, s.takes c.key = true → waits c → waits' c) :
    Resyncing p l₀ s x waits' l where
  origin := h.origin
  log := h.log
  reached c hc hr := (h.reached c hc hr).imp_left fun hm => ⟨hw c hm.2.1 hr.takes hm.1, hm.2⟩

/-- Where a reached member has its row or waits for it, it is no stray. -/
theorem Resyncing.row (h : Resyncing p l₀ s x waits l) (hc : c ∈ l₀.cards)
    (hr : l₀.Reached s x c) (hrow : c.key.row x ∈ l₀.rows) (tidy₀ : l₀.Tidy) :
    c.key.row x ∈ l.rows := by
  rcases h.reached c hc hr with ⟨-, -, hsame⟩ | hsettled
  · exact hsame.2 hrow
  · refine hsettled.row.2 ?_
    rintro ⟨d, hd, hid, -, hno⟩
    rw [tidy₀.eq_of_id hd hc hid] at hno
    exact hno hrow

theorem takes_project {k : MappingKey} {a q : String} :
    (Scope.project a q).takes k = true ↔ k.account = a ∧ k.project = q := by
  simp [Scope.takes, Scope.accountName, Scope.projectName, Scope.environmentName?]

/-- A project that is bound to a cluster. -/
structure Anchor (l : Ledger) (a q x : String) (c : Card) : Prop where
  mem : c ∈ l.cards
  owns : c.key.Owns (.project a q)
  bound : c.bound = some x

variable {a q : String} {anchor : Card}

theorem Anchor.reached (h : l₀.Anchor a q x anchor) (mapped : l₀.Mapped) :
    l₀.Reached (.project a q) x anchor where
  takes := takes_project.2 h.owns.2
  environment e he := by
    have hnone := (mapped.placed anchor h.mem).environment_none (by rw [h.owns.1]; rfl)
    rw [hnone] at he
    cases he

theorem Anchor.row (h : l₀.Anchor a q x anchor) (mapped : l₀.Mapped) :
    anchor.key.row x ∈ l₀.rows :=
  mapped.filed anchor h.mem h.owns.1 x ((mapped.bound anchor h.mem h.owns.1).trans h.bound)

/-- What was reached belongs to the cluster of the project, once the environments were sent. -/
theorem Resyncing.target (h : Resyncing p l₀ (.project a q) x waits l) (mapped₀ : l₀.Mapped)
    (tidy₀ : l₀.Tidy) (mapped : l.Mapped) (tidy : l.Tidy) (ha : l₀.Anchor a q x anchor)
    (hc : c ∈ l₀.cards) (hr : l₀.Reached (.project a q) x c) (hkey : d.key = c.key)
    (hbound : d.bound = c.bound)
    (ready : c.key.environment.isSome = true → ∀ e, e.key.kind = .environment → ¬ waits e) :
    l.target d = some x := by
  obtain ⟨haccount, hproject⟩ := takes_project.1 hr.takes
  rw [Ledger.target, hkey]
  split
  · rename_i hk
    have owns : c.key.Owns (.project a q) := ⟨hk, haccount, hproject⟩
    have hca : c = anchor := tidy₀.eq_of_identity hc ha.mem
      (owns.identity_eq (mapped₀.placed c hc) (mapped₀.placed anchor ha.mem) ha.owns)
    rw [hbound, hca, ha.bound]
  · cases he : c.key.environment with
    | none =>
      have hscope : c.key.scope = .project a q := by
        rw [MappingKey.scope, he, haccount, hproject]
        rfl
      rw [hscope]
      exact mapped.resolve_of_row tidy
        (h.row ha.mem (ha.reached mapped₀) (ha.row mapped₀) tidy₀) ha.owns
    | some e =>
      have hscope : c.key.scope = .environment a q e := by
        rw [MappingKey.scope, he, haccount, hproject]
        rfl
      obtain ⟨d', hd', owns, hstray⟩ := hr.environment e he
      rw [haccount, hproject] at owns
      have hreached : l₀.Reached (.project a q) x d' :=
        ⟨takes_project.2 ⟨owns.2.1, owns.2.2.1⟩, fun e' he' => by
          rw [owns.2.2.2.1] at he'
          cases he'⟩
      rw [hscope]
      rcases h.reached d' hd' hreached with ⟨hwaits, -⟩ | hsettled
      · exact absurd hwaits (ready (by rw [he]; rfl) d' owns.1)
      · exact mapped.resolve_of_row tidy (hsettled.row.2 hstray) owns

/-- A member that is sent is on the cluster afterwards, and the others are as they were. -/
theorem Resyncing.settle (h : Resyncing p l₀ (.project a q) x waits l) (mapped₀ : l₀.Mapped)
    (tidy₀ : l₀.Tidy) (mapped : l.Mapped) (tidy : l.Tidy) (ha : l₀.Anchor a q x anchor)
    (hr : r.card ∈ l.cards)
    (ready : r.card.key.environment.isSome = true → ∀ e, e.key.kind = .environment → ¬ waits e)
    (sends : Sends p r r.pendingAction l l₁ (l.target r.card)) :
    Resyncing p l₀ (.project a q) x (fun c => waits c ∧ c.id ≠ r.id)
      (l₁.settle r.card (l.target r.card)) where
  origin d hd := by
    obtain ⟨e, he, hid, hkey⟩ := origin_settle hd (sends.cards ▸ hr)
    obtain ⟨e₀, he₀, hid₀, hkey₀⟩ := h.origin e (sends.cards ▸ he)
    exact ⟨e₀, he₀, hid.trans hid₀, hkey.trans hkey₀⟩
  log t := by
    rw [bus_settle]
    exact (h.log t).trans (sends.log t)
  reached c hc hreached := by
    have hr₁ : r.card ∈ l₁.cards := sends.cards ▸ hr
    have sent : Sent p l₀ x c l₁ → Sent p l₀ x c (l₁.settle r.card (l.target r.card)) := by
      rw [Sent, Sent, bus_settle]
      exact id
    have held := h.reached c hc hreached
    by_cases hid : c.id = r.id
    · -- The card is as it was, or it was sent before and is on the cluster already.
      have hcard : r.card = c ∨ r.card = c.on (some x) := by
        rcases held with ⟨-, hmem, -⟩ | hsettled
        · exact .inl (tidy.eq_of_id hr hmem hid.symm)
        · exact .inr (tidy.eq_of_id hr hsettled.card hid.symm)
      have hkey : r.card.key = c.key := hcard.elim (congrArg Card.key) (congrArg Card.key)
      have hbound : r.card.bound = c.bound := hcard.elim (congrArg Card.bound) (congrArg Card.bound)
      have hon : r.card.on (some x) = c.on (some x) :=
        hcard.elim (congrArg (Card.on · (some x))) (congrArg (Card.on · (some x)))
      have htarget := h.target mapped₀ tidy₀ mapped tidy ha hc hreached hkey hbound
        (hkey ▸ ready)
      rw [htarget] at sends ⊢
      obtain ⟨hmem, hrow⟩ := settle_on (x := x) hr₁
      rw [hkey, sends.rows] at hrow
      refine .inr ⟨hon ▸ hmem, hrow.trans ?_, ?_⟩
      · rcases held with ⟨-, hmem, hsame⟩ | hsettled
        · rw [tidy.eq_of_id hr hmem hid.symm, tidy₀.not_stray_iff hc, hsame]
        · rw [tidy.eq_of_id hr hsettled.card hid.symm, ← hsettled.row]
          exact ⟨fun h => h rfl, fun h _ => h⟩
      · obtain ⟨d, hd, e, hcarries, hcluster, hof⟩ := sends.sent (h.log (p.topicOf x))
        rw [htarget] at sent
        refine sent ⟨d, hd, e, hcarries, hcluster, ?_⟩
        rcases hcard with hcard | hcard
        · exact hcard ▸ hof
        · exact Wire.Envelope.isOf_on.1 (hcard ▸ hof)
    · have tidy₁ := tidy.of_cards sends.cards
      rcases held with ⟨hwaits, hmem, hsame⟩ | hsettled
      · have hmem₁ : c ∈ l₁.cards := sends.cards ▸ hmem
        refine .inl ⟨⟨hwaits, hid⟩, mem_settle hr₁ hmem₁ hid, ?_⟩
        rw [tidy₁.row_mem_settle hr₁ hmem₁ hid, sends.rows, hsame]
      · have hmem₁ : c.on (some x) ∈ l₁.cards := sends.cards ▸ hsettled.card
        have hrow := tidy₁.row_mem_settle (y := x) (o := l.target r.card) hr₁ hmem₁ hid
        rw [Card.key_on, sends.rows] at hrow
        refine .inr ⟨mem_settle hr₁ hmem₁ hid, hrow.trans hsettled.row, ?_⟩
        exact sent (hsettled.sent.mono (sends.log _))

end Ledger

end FleetSync
