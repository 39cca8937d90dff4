import FleetSync.Proofs.Sequence.Dispatch

/-!
# Rows and documents that agree

The index and the documents agree on a resource if its rows are just the one that its document asks
for, and none if it has no document (`Ledger.AgreesOn`). Each call to the index makes other rows of
the ones that there are (`Call.refile`, `World.rows_reply`). Where such a call fails, the document
has been written already; but the call would have brought the rows in line with it, and nothing else
will, since the document is on record for the cluster that it belongs to (`Ledger.BrokenOff`). So to
settle the resource later leaves it as it is, unless it is removed (`Ledger.BrokenOff.settle`).
-/

namespace FleetSync

/-- A row that follows a scope that it belongs to onto a cluster. -/
def MappingRow.follow (r : MappingRow) (s : Scope) (cluster : String) : MappingRow :=
  if r.inScope s then { r with cluster } else r

/-- Whether a row is one of a resource. -/
def MappingRow.isOf (r : MappingRow) (i : Identity) : Bool :=
  r.kind == i.kind.name && r.account == i.account && r.project == i.project &&
    r.environment == i.environment && r.name == i.name

namespace MappingRow

variable {r : MappingRow} {i j : Identity} {k : MappingKey} {x : String}

theorem isOf_inj (h : r.isOf i = true) (h' : r.isOf j = true) : i = j := by
  simp only [isOf, Bool.and_eq_true, beq_iff_eq] at h h'
  obtain ⟨⟨⟨⟨hk, ha⟩, hp⟩, he⟩, hn⟩ := h
  obtain ⟨⟨⟨⟨hk', ha'⟩, hp'⟩, he'⟩, hn'⟩ := h'
  rw [Identity.mk.injEq]
  exact ⟨Kind.name_inj (hk.symm.trans hk'), ha.symm.trans ha', hp.symm.trans hp',
    he.symm.trans he', hn.symm.trans hn'⟩

theorem isOf_of_hasKey (h : r.hasKey k = true) : r.isOf k.identity = true := by
  simp only [hasKey, isOf, MappingKey.identity, Bool.and_eq_true, beq_iff_eq] at h ⊢
  exact h.1

theorem isOf_row : (k.row x).isOf i = true ↔ k.identity = i := by
  have own : (k.row x).isOf k.identity = true := isOf_of_hasKey (MappingKey.hasKey_row.2 rfl)
  exact ⟨isOf_inj own, fun h => h ▸ own⟩

@[simp] theorem isOf_follow {s : Scope} : (r.follow s x).isOf i = r.isOf i := by
  rw [follow]
  split <;> rfl

/-- A row that is on the cluster already stays as it is. -/
theorem follow_row {s : Scope} : (k.row x).follow s x = k.row x := ite_self _

/-- The rows of a resource belong to the scope that it lives in. -/
theorem inScope_of_isOf (h : r.isOf k.identity = true) : r.inScope k.scope = true := by
  simp only [isOf, MappingKey.identity, Bool.and_eq_true, beq_iff_eq] at h
  obtain ⟨⟨⟨⟨-, ha⟩, hp⟩, he⟩, -⟩ := h
  rw [MappingKey.scope]
  cases hk : k.environment with
  | none => simp [Scope.of, inScope, ha, hp]
  | some e => simp [Scope.of, inScope, ha, hp, he, hk]

end MappingRow

/-- What a call to the index makes of the rows. -/
def Call.refile : Call → List MappingRow → List MappingRow
  | .upsert m, rows => rows.filter (!·.hasKey m.key) ++ [.ofMapping m]
  | .removeMapping k, rows => rows.filter (!·.hasKey k)
  | .removeScope s, rows => rows.filter (!·.inScope s)
  | .reassignScope s cluster, rows => rows.map (·.follow s cluster)
  | _, rows => rows

/-- A call that does not fail makes of the rows what it says. -/
theorem World.rows_reply (w : World) (x : Circumstances) {c : Call}
    (h : ∀ e, c.failure? e ≠ some (w.reply x c).1) :
    (w.reply x c).2.mappings.rows = c.refile w.mappings.rows := by
  by_cases hid : c = .freshId
  · subst hid
    exact congrArg Ledger.rows (w.ledger_of_reads x (c := .freshId) rfl)
  have hreply := w.reply_of_not_failed x hid h
  rw [hreply] at h ⊢
  cases c with
  | upsert m =>
    simp only [answer] at h ⊢
    cases hm : w.mappings.upsert m with
    | error e => exact absurd (by simp only [hm]; rfl) (h e)
    | ok mappings =>
      rw [MappingIndex.upsert, MappingIndex.insert] at hm
      split at hm
      · cases hm
      · obtain rfl := Except.ok.inj hm
        rfl
  | insert | patchOne | deleteOne | deleteMany =>
    simp only [answer]
    split <;> rfl
  | _ => rfl

/-- The row that a card asks for. -/
def Card.row? (c : Card) : Option MappingRow := c.cluster.map c.key.row

namespace Ledger

/-- The rows after one is filed under a key, or none. -/
theorem fileIn_eq (rows : List MappingRow) (k : MappingKey) (o : Option String) :
    fileIn rows k o = rows.filter (!·.hasKey k) ++ (o.map k.row).toList := by
  cases o with
  | none => exact (List.append_nil _).symm
  | some x => rfl

variable (l : Ledger) (i : Identity)

/-- The rows of a resource. -/
def rowsOf : List MappingRow := l.rows.filter (·.isOf i)

/-- The card of a resource. -/
def card? : Option Card := l.cards.find? fun c => decide (c.key.identity = i)

/-- Whether the index has for a resource just the row that its document asks for: one, for the
cluster on record, or none if there is no cluster on record, or no document. -/
def AgreesOn : Prop := l.rowsOf i = ((l.card? i).bind Card.row?).toList

instance : Decidable (l.AgreesOn i) := inferInstanceAs (Decidable (_ = _))

/-- Whether the index and the documents agree on all resources. -/
def Agreed : Prop := ∀ i, l.AgreesOn i

/-- Whether a resource has rows under no other key. -/
def Only (k : MappingKey) : Prop := ∀ r ∈ l.rowsOf k.identity, r.hasKey k = true

/-- Whether a call to the index has something to change of the rows of a resource. -/
def Needs (c : Call) : Prop := (c.refile l.rows).filter (·.isOf i) ≠ l.rowsOf i

instance (c : Call) : Decidable (l.Needs i c) := inferInstanceAs (Decidable (_ ≠ _))

/-- Where a call to the index fails that is made for a resource: it would have brought the rows in
line with the document; and unless they are in line, the document is on record for the cluster that
the resource belongs to. -/
structure BrokenOff (c : Call) : Prop where
  mends : ({ l with rows := c.refile l.rows } : Ledger).AgreesOn i
  settled : l.AgreesOn i ∨ ∀ d, l.card? i = some d → l.target d = d.cluster ∧ l.Only d.key

variable {l i} {l' : Ledger} {c c' d : Card} {k : MappingKey} {o : Option String} {call : Call}

theorem card?_eq_none : l.card? i = none ↔ ∀ c ∈ l.cards, c.key.identity ≠ i := by
  simp [card?]

theorem mem_of_card? (h : l.card? i = some c) : c ∈ l.cards ∧ c.key.identity = i := by
  have h : l.cards.find? (fun c => decide (c.key.identity = i)) = some c := h
  have hid := List.find?_some (p := fun c : Card => decide (c.key.identity = i)) h
  exact ⟨List.mem_of_find?_eq_some h, of_decide_eq_true hid⟩

theorem Tidy.card? (h : l.Tidy) (hc : c ∈ l.cards) : l.card? c.key.identity = some c := by
  cases hd : l.card? c.key.identity with
  | none => exact absurd rfl (card?_eq_none.1 hd c hc)
  | some d =>
    obtain ⟨hmem, hid⟩ := mem_of_card? hd
    rw [h.eq_of_identity hmem hc hid]

theorem agreesOn_congr (cards : l'.cards = l.cards) (rows : l'.rows = l.rows) :
    l'.AgreesOn i ↔ l.AgreesOn i := by
  rw [AgreesOn, AgreesOn, rowsOf, rowsOf, Ledger.card?, Ledger.card?, cards, rows]

theorem AgreesOn.rowsOf_eq (h : l.AgreesOn i) (hc : l.card? i = some c) :
    l.rowsOf i = (c.cluster.map c.key.row).toList := by
  rw [h, hc]
  rfl

theorem AgreesOn.only (h : l.AgreesOn c.key.identity) (hc : l.card? c.key.identity = some c) :
    l.Only c.key := by
  intro r hr
  rw [h.rowsOf_eq hc, Option.mem_toList] at hr
  obtain ⟨x, -, rfl⟩ := Option.map_eq_some_iff.1 hr
  exact MappingKey.hasKey_row.2 rfl

/-! ## Filing -/

theorem filter_isOf_fileIn (only : l.Only k) :
    (fileIn l.rows k o).filter (·.isOf k.identity) = (o.map k.row).toList := by
  rw [fileIn_eq, List.filter_append]
  have none : (l.rows.filter (!·.hasKey k)).filter (·.isOf k.identity) = [] := by
    refine List.filter_eq_nil_iff.2 fun r hr his => ?_
    obtain ⟨hr, hno⟩ := List.mem_filter.1 hr
    rw [only r (List.mem_filter.2 ⟨hr, his⟩)] at hno
    cases hno
  have own : (o.map k.row).toList.filter (·.isOf k.identity) = (o.map k.row).toList := by
    refine List.filter_eq_self.2 fun r hr => ?_
    obtain ⟨x, -, rfl⟩ := Option.map_eq_some_iff.1 (Option.mem_toList.1 hr)
    exact MappingRow.isOf_row.2 rfl
  rw [none, own, List.nil_append]

/-- What is filed for a document agrees with it. -/
theorem agreesOn_of_fileIn (only : l.Only c.key) (hc : l'.card? c.key.identity = some c)
    (rows : l'.rows = fileIn l.rows c.key c.cluster) : l'.AgreesOn c.key.identity := by
  rw [AgreesOn, rowsOf, rows, filter_isOf_fileIn only, hc]
  rfl

/-- A card that is put in the place of another one is that of the resource. -/
theorem Tidy.card?_replaceIn (h : l.Tidy) (hc : c ∈ l.cards) (hid : c'.id = c.id)
    (hkey : c'.key = c.key) (cards : l'.cards = c'.replaceIn l.cards) :
    l'.card? c'.key.identity = some c' := by
  refine (h.replaceIn hc hid hkey cards).card? ?_
  rw [cards, Card.mem_replaceIn]
  exact .inr ⟨rfl, c, hc, hid.symm⟩

/-- A document that is moved still agrees with its rows. -/
theorem AgreesOn.amend (h : l.AgreesOn c.key.identity) (tidy : l.Tidy) (hc : c ∈ l.cards)
    (hid : c'.id = c.id) (hkey : c'.key = c.key) : (l.amend c c').AgreesOn c'.key.identity := by
  have found : (l.amend c c').card? c'.key.identity = some c' :=
    tidy.card?_replaceIn hc hid hkey rfl
  by_cases hsame : c'.cluster = c.cluster
  · rw [AgreesOn, found, rowsOf, Ledger.amend, if_pos hsame, hkey]
    rw [Option.bind_some, Card.row?, hsame, hkey]
    exact h.rowsOf_eq (tidy.card? hc)
  · refine agreesOn_of_fileIn (l := l) (hkey ▸ h.only (tidy.card? hc)) found ?_
    rw [Ledger.amend, if_neg hsame]

/-- What is new has no rows. -/
theorem AgreesOn.rowsOf_new (h : l.AgreesOn c.key.identity) (tidy : (l.enlist c).Tidy) :
    l.rowsOf c.key.identity = [] := by
  have new : l.card? c.key.identity = none := by
    refine card?_eq_none.2 fun d hd hi => (tidy.new_of_enlist hd).1 ?_
    exact congrArg Card.id
      (tidy.eq_of_identity (List.mem_append_left _ hd) List.mem_concat_self hi)
  rw [AgreesOn, new] at h
  exact h

theorem AgreesOn.only_new (h : l.AgreesOn c.key.identity) (tidy : (l.enlist c).Tidy) :
    l.Only c.key := by
  intro r hr
  rw [h.rowsOf_new tidy] at hr
  cases hr

/-- What is enlisted agrees with its row. -/
theorem AgreesOn.enlist (h : l.AgreesOn c.key.identity) (tidy : (l.enlist c).Tidy) :
    (l.enlist c).AgreesOn c.key.identity := by
  have found : (l.enlist c).card? c.key.identity = some c := tidy.card? List.mem_concat_self
  by_cases hc : c.cluster = none
  · rw [AgreesOn, found, Option.bind_some, Card.row?, hc, rowsOf, Ledger.enlist, if_pos hc]
    exact h.rowsOf_new tidy
  · refine agreesOn_of_fileIn (h.only_new tidy) found ?_
    rw [Ledger.enlist, if_neg hc]

/-- Where a document goes, its row goes. -/
theorem Only.strike (only : l.Only c.key) (tidy : l.Tidy) (hc : c ∈ l.cards) :
    (l.strike c).AgreesOn c.key.identity ∧ (l.strike c).card? c.key.identity = none := by
  have gone : (l.strike c).card? c.key.identity = none := by
    refine card?_eq_none.2 fun d hd hi => ?_
    obtain ⟨hd, hne⟩ := List.mem_filter.1 hd
    rw [tidy.eq_of_identity hd hc hi] at hne
    exact of_decide_eq_true hne rfl
  refine ⟨?_, gone⟩
  rw [AgreesOn, gone]
  exact filter_isOf_fileIn (o := none) only

theorem AgreesOn.settle (h : l.AgreesOn i) (tidy : l.Tidy) (hc : l.card? i = some c)
    (o : Option String) : (l.settle c o).AgreesOn i := by
  obtain ⟨hmem, rfl⟩ := mem_of_card? hc
  have hamend : (l.amend c (c.on o)).AgreesOn c.key.identity :=
    h.amend tidy hmem (c.id_on o) (c.key_on o)
  have tidy' : (l.amend c (c.on o)).Tidy := tidy.replaceIn hmem (c.id_on o) (c.key_on o) rfl
  have hmem' : c.on o ∈ (l.amend c (c.on o)).cards := (mem_amend hmem (c.id_on o)).2 (.inr rfl)
  rw [Ledger.settle]
  split
  · have only : (l.amend c (c.on o)).Only (c.on o).key :=
      AgreesOn.only (c := c.on o) hamend (tidy'.card? hmem')
    exact (only.strike tidy' hmem').1
  · exact hamend

/-! ## Where a call fails -/

namespace BrokenOff

/-- The rows are in line already just if the call has nothing to change. -/
theorem agreesOn_iff (h : l.BrokenOff i call) : l.AgreesOn i ↔ ¬ l.Needs i call := by
  have mends : (call.refile l.rows).filter (·.isOf i) = ((l.card? i).bind Card.row?).toList :=
    h.mends
  rw [Needs, not_not, mends, AgreesOn, eq_comm]

/-- If the resource is settled later, the rows are in line from then on just if the call had nothing
to change, or the resource is removed. -/
theorem settle (h : l.BrokenOff i call) (tidy : l.Tidy) (hc : l.card? i = some c) :
    (l.settle c (l.target c)).AgreesOn i ↔
      ¬ l.Needs i call ∨ (l.settle c (l.target c)).card? i = none := by
  rcases h.settled with agrees | settled
  · exact iff_of_true (agrees.settle tidy hc _) (.inl (h.agreesOn_iff.1 agrees))
  obtain ⟨target, only⟩ := settled c hc
  obtain ⟨hmem, rfl⟩ := mem_of_card? hc
  have hself : c.on c.cluster = c := rfl
  rw [target, Ledger.settle, hself, tidy.amend_self hmem]
  split
  · obtain ⟨agrees, gone⟩ := only.strike tidy hmem
    exact iff_of_true agrees (.inr gone)
  · rw [h.agreesOn_iff, hc, or_iff_left (Option.some_ne_none c)]

/-- Looking up has nothing to change. -/
theorem of_agreesOn (h : l.AgreesOn i) (reads : call.refile l.rows = l.rows) :
    l.BrokenOff i call := by
  refine ⟨?_, .inl h⟩
  rw [reads]
  exact h

/-- To file a document that is on record for where it belongs. -/
theorem of_filing (only : l.Only c.key) (hc : l.card? c.key.identity = some c)
    (target : l.target c = c.cluster)
    (files : (call.refile l.rows).filter (·.isOf c.key.identity) =
      (c.cluster.map c.key.row).toList) : l.BrokenOff c.key.identity call := by
  refine ⟨?_, .inr fun d hd => ?_⟩
  · rw [AgreesOn, show ({ l with rows := call.refile l.rows } : Ledger).card? c.key.identity =
      some c from hc]
    exact files
  · obtain rfl := Option.some.inj (hc.symm.trans hd)
    exact ⟨target, only⟩

/-- To file a document that was moved to where it belongs. -/
theorem of_move (h : l.AgreesOn c.key.identity) (tidy : l.Tidy) (hc : c ∈ l.cards)
    (hid : c'.id = c.id) (hkey : c'.key = c.key) (target : l.target c' = c'.cluster)
    (files : l.Only c'.key → (call.refile l.rows).filter (·.isOf c'.key.identity) =
      (c'.cluster.map c'.key.row).toList) :
    ({ l with cards := c'.replaceIn l.cards } : Ledger).BrokenOff c'.key.identity call := by
  have only : l.Only c'.key := hkey ▸ h.only (tidy.card? hc)
  exact of_filing only (tidy.card?_replaceIn hc hid hkey rfl) target (files only)

/-- To file a document that is new. -/
theorem of_new (h : l.AgreesOn c.key.identity) (tidy : (l.enlist c).Tidy)
    (target : l.target c = c.cluster)
    (files : l.Only c.key → (call.refile l.rows).filter (·.isOf c.key.identity) =
      (c.cluster.map c.key.row).toList) :
    ({ l with cards := l.cards ++ [c] } : Ledger).BrokenOff c.key.identity call := by
  have only := h.only_new tidy
  exact of_filing only (tidy.card? List.mem_concat_self) target (files only)

/-- To take the rows of a document away that was deleted. -/
theorem of_deletion (only : l.Only k) (gone : l.card? k.identity = none) :
    l.BrokenOff k.identity (.removeMapping k) := by
  refine ⟨?_, .inr fun d hd => ?_⟩
  · have gone' : ({ l with rows := (Call.removeMapping k).refile l.rows } : Ledger).card?
        k.identity = none := gone
    rw [AgreesOn, gone']
    exact filter_isOf_fileIn (o := none) only
  · cases gone.symm.trans hd

end BrokenOff

/-- To remove the scope that a resource lives in takes its rows away. -/
theorem filter_isOf_removeScope (rows : List MappingRow) (k : MappingKey) :
    ((Call.removeScope k.scope).refile rows).filter (·.isOf k.identity) = [] := by
  refine List.filter_eq_nil_iff.2 fun r hr his => ?_
  obtain ⟨-, hout⟩ := List.mem_filter.1 hr
  rw [MappingRow.inScope_of_isOf his] at hout
  cases hout

/-- To move a scope to the cluster that a resource is on has nothing to change of its rows. -/
theorem AgreesOn.reassignScope {s : Scope} {x : String} (h : l.AgreesOn i)
    (hc : l.card? i = some c) (on : c.cluster = some x) :
    l.BrokenOff i (.reassignScope s x) := by
  refine ⟨?_, .inl h⟩
  have hrows := h.rowsOf_eq hc
  rw [on] at hrows
  show (l.rows.map (·.follow s x)).filter (·.isOf i) = ((l.card? i).bind Card.row?).toList
  rw [hc, Option.bind_some, Card.row?, on]
  calc (l.rows.map (·.follow s x)).filter (·.isOf i)
      = (l.rows.filter fun r => (r.follow s x).isOf i).map (·.follow s x) := List.filter_map
    _ = (l.rowsOf i).map (·.follow s x) := by simp only [MappingRow.isOf_follow]; rfl
    _ = [(c.key.row x).follow s x] := by rw [hrows]; rfl
    _ = [c.key.row x] := by rw [MappingRow.follow_row]

end Ledger

end FleetSync
