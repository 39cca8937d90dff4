import FleetSync.Program.Call
import FleetSync.Proofs.Store.Contents
import FleetSync.Proofs.Store.Identity
import Mathlib.Data.List.Find

/-!
# The part of an account

What belongs to one account is a part of the documents and of the mappings. A call within an account
(`Call.Within`) asks for what is of the account alone, and what it adds cannot be taken for what is
of another. Such a call does in the part of its account what it does in the whole (`_partOf`), and
nothing in the parts of others (`_others`), with one exception: every document of a collection is
looked at, so one that cannot be read blocks the collection for all accounts
(`DocumentStore.select_of_blocks`).
-/

namespace FleetSync

/-- The account of a stored document. -/
def StoredDocument.account (d : StoredDocument) : String := d.identity.account

@[simp] theorem Resource.account_stored (r : Resource) : r.stored.account = r.accountName := by
  rw [StoredDocument.account, Resource.identity_stored]
  rfl

/-- Whether a filter holds of no document of another account, though only those that can be read
tell. -/
def Filter.Within (f : Filter) (account : String) (docs : List StoredDocument) : Prop :=
  ∀ d ∈ docs, d.account ≠ account →
    f.holds? d.body = if d.body.isReadable then some false else none

theorem Filter.Within.account_eq {f : Filter} {account collection : String}
    {docs : List StoredDocument} (h : f.Within account docs) {d : StoredDocument} (hd : d ∈ docs)
    (hm : d.matches? collection f = true) : d.account = account := by
  by_contra hne
  rw [StoredDocument.matches?, h d hd hne, Bool.and_eq_true, beq_iff_eq, beq_iff_eq] at hm
  split at hm
  · exact Bool.false_ne_true (Option.some.inj hm.2)
  · cases hm.2

/-- Whether a call asks for what is of an account alone, and adds only what is of it and cannot be
taken for a document of another one. -/
def Call.Within (account : String) (docs : List StoredDocument) : Call → Prop
  | .insert d => (StoredDocument.of d).account = account ∧ ∀ e ∈ docs, e.account ≠ account →
    e.collection = d.collection → e.id ≠ d.id ∧ e.key ≠ d.key
  | .patchOne _ filter _ | .findOne _ filter | .find _ filter | .deleteOne _ filter
  | .deleteMany _ filter => filter.Within account docs
  | .upsert m => m.account = account
  | .resolve s | .removeScope s | .reassignScope s _ => s.accountName = account
  | .removeMapping k => k.account = account
  | .now | .freshId | .authorize .. | .publish .. | .emit _ => True

/-- The collection whose documents a call looks at. -/
def Call.collection? : Call → Option String
  | .patchOne collection .. | .findOne collection _ | .find collection _ | .deleteOne collection _
  | .deleteMany collection _ => some collection
  | _ => none

namespace DocumentStore

/-- The documents of an account. -/
def partOf (s : DocumentStore) (account : String) : DocumentStore :=
  ⟨s.documents.filter (·.account == account)⟩

/-- Whether a collection has a document of another account that cannot be read. -/
def Blocks (s : DocumentStore) (account collection : String) : Prop :=
  ∃ d ∈ s.documents, d.account ≠ account ∧ d.collection = collection ∧ d.body.isReadable = false

variable {s s' : DocumentStore} {account other collection : String} {f : Filter}

theorem mem_partOf {d : StoredDocument} :
    d ∈ (s.partOf account).documents ↔ d ∈ s.documents ∧ d.account = account := by
  rw [partOf, List.mem_filter, beq_iff_eq]

/-! ### Looking -/

theorem select_of_blocks (h : f.Within account s.documents) (blocks : s.Blocks account collection) :
    s.select collection f = .error failed := by
  obtain ⟨d, hd, hne, hcol, hread⟩ := blocks
  rw [select, if_neg]
  intro hall
  have hd : d ∈ s.collection collection := List.mem_filter.2 ⟨hd, beq_iff_eq.2 hcol⟩
  have hsome := List.all_eq_true.1 hall d hd
  rw [h d (List.mem_filter.1 hd).1 hne, hread] at hsome
  cases hsome

theorem selectAll_of_blocks (h : f.Within account s.documents)
    (blocks : s.Blocks account collection) : s.selectAll collection f = .error failed := by
  rw [selectAll, select_of_blocks h blocks, ite_self]

theorem selectOne_of_blocks (h : f.Within account s.documents)
    (blocks : s.Blocks account collection) : s.selectOne collection f = .error failed := by
  rw [selectOne, select_of_blocks h blocks, ite_self]

theorem select_partOf (h : f.Within account s.documents)
    (clear : ¬ s.Blocks account collection) :
    (s.partOf account).select collection f = s.select collection f := by
  have all : (((s.partOf account).collection collection).all fun d => (f.holds? d.body).isSome) =
      (s.collection collection).all fun d => (f.holds? d.body).isSome := by
    rw [Bool.eq_iff_iff, List.all_eq_true, List.all_eq_true]
    refine ⟨fun hall d hd => ?_, fun hall d hd => ?_⟩
    · obtain ⟨hd, hcol⟩ := List.mem_filter.1 hd
      by_cases ha : d.account = account
      · exact hall d (List.mem_filter.2 ⟨mem_partOf.2 ⟨hd, ha⟩, hcol⟩)
      · rw [h d hd ha]
        cases hread : d.body.isReadable with
        | true => rfl
        | false => exact absurd ⟨d, hd, ha, eq_of_beq hcol, hread⟩ clear
    · obtain ⟨hd, hcol⟩ := List.mem_filter.1 hd
      exact hall d (List.mem_filter.2 ⟨(mem_partOf.1 hd).1, hcol⟩)
  rw [select, select, all]

theorem selectAll_partOf (h : f.Within account s.documents)
    (clear : ¬ s.Blocks account collection) :
    (s.partOf account).selectAll collection f = s.selectAll collection f := by
  rw [selectAll, selectAll, select_partOf h clear]

theorem selectOne_partOf (h : f.Within account s.documents)
    (clear : ¬ s.Blocks account collection) :
    (s.partOf account).selectOne collection f = s.selectOne collection f := by
  rw [selectOne, selectOne, select_partOf h clear]

/-- What meets a filter within an account is found in the part of that account. -/
theorem find?_partOf (h : f.Within account s.documents) :
    (s.partOf account).documents.find? (·.matches? collection f) =
      s.documents.find? (·.matches? collection f) := by
  rw [partOf, List.find?_filter]
  refine List.find?_congr fun d hd => ?_
  rw [Bool.eq_iff_iff, decide_eq_true_iff, beq_iff_eq]
  exact and_iff_right_of_imp (h.account_eq hd)

theorem filter_partOf (h : f.Within account s.documents) :
    (s.partOf account).documents.filter (·.matches? collection f) =
      s.documents.filter (·.matches? collection f) := by
  rw [partOf, List.filter_filter]
  refine List.filter_congr fun d hd => ?_
  rw [Bool.eq_iff_iff, Bool.and_eq_true, beq_iff_eq]
  exact and_iff_left_of_imp (h.account_eq hd)

theorem findOne_partOf (h : f.Within account s.documents)
    (clear : ¬ s.Blocks account collection) :
    (s.partOf account).findOne collection f = s.findOne collection f := by
  rw [findOne, findOne, selectAll_partOf h clear]
  cases ht : s.selectAll collection f with
  | error e => rfl
  | ok test =>
    obtain rfl := selectAll_eq_ok ht
    simp only [bind, Except.bind, find?_partOf h]

theorem find_partOf (h : f.Within account s.documents) (clear : ¬ s.Blocks account collection) :
    (s.partOf account).find collection f = s.find collection f := by
  rw [find, find, selectAll_partOf h clear]
  cases ht : s.selectAll collection f with
  | error e => rfl
  | ok test =>
    obtain rfl := selectAll_eq_ok ht
    simp only [bind, Except.bind, filter_partOf h]

/-! ### Changing -/

/-- A document that is inserted within an account collides with those of the account only. -/
theorem insert_partOf {d : Document} (h : (StoredDocument.of d).account = account)
    (apart : ∀ e ∈ s.documents, e.account ≠ account → e.collection = d.collection →
      e.id ≠ d.id ∧ e.key ≠ d.key) :
    (s.partOf account).insert d = (s.insert d).map (·.partOf account) := by
  have collides : (s.partOf account).collides d = s.collides d := by
    rw [DocumentStore.collides, DocumentStore.collides, Bool.eq_iff_iff, List.any_eq_true,
      List.any_eq_true]
    constructor
    · rintro ⟨e, he, hc⟩
      exact ⟨e, (mem_partOf.1 he).1, hc⟩
    rintro ⟨e, he, hc⟩
    refine ⟨e, mem_partOf.2 ⟨he, ?_⟩, hc⟩
    by_contra ha
    rw [Bool.and_eq_true, Bool.or_eq_true, beq_iff_eq, beq_iff_eq, beq_iff_eq] at hc
    obtain ⟨hid, hkey⟩ := apart e he ha hc.1
    exact hc.2.elim hid hkey
  rw [insert, insert, collides]
  split
  · rfl
  split
  · rfl
  · have hd : [StoredDocument.of d].filter (·.account == account) = [.of d] :=
      List.filter_eq_self.2 fun e he => beq_iff_eq.2 (List.mem_singleton.1 he ▸ h)
    simp only [Except.map, partOf, List.filter_append, hd]

theorem modifyFirst_filter {test q : StoredDocument → Bool} {d : StoredDocument}
    {g : StoredDocument → StoredDocument} {docs : List StoredDocument}
    (hd : docs.find? test = some d) (hq : q d = true) (hg : q (g d) = true) :
    modifyFirst test g (docs.filter q) = (modifyFirst test g docs).filter q := by
  induction docs with
  | nil => rfl
  | cons e rest ih =>
    rw [List.find?_cons] at hd
    cases he : test e with
    | true =>
      rw [he] at hd
      obtain rfl := Option.some.inj hd
      rw [List.filter_cons_of_pos hq, modifyFirst, modifyFirst, if_pos he, if_pos he,
        List.filter_cons_of_pos hg]
    | false =>
      rw [he] at hd
      have hne : ¬ test e = true := by rw [he]; decide
      rw [modifyFirst, if_neg hne]
      by_cases hqe : q e = true
      · rw [List.filter_cons_of_pos hqe, List.filter_cons_of_pos hqe, modifyFirst, if_neg hne,
          ih hd]
      · rw [List.filter_cons_of_neg hqe, List.filter_cons_of_neg hqe, ih hd]

/-- Whether documents that stay keep their account. -/
def KeepsAccounts (s s' : DocumentStore) : Prop :=
  ∀ d ∈ s.documents, ∀ d' ∈ s'.documents, d.id = d'.id → d'.account = d.account

theorem patchOne_partOf {patch : Patch} (h : f.Within account s.documents)
    (clear : ¬ s.Blocks account collection)
    (keeps : ∀ hit s', s.patchOne collection f patch = .ok (hit, s') → s.KeepsAccounts s') :
    (s.partOf account).patchOne collection f patch =
      (s.patchOne collection f patch).map fun r => (r.1, r.2.partOf account) := by
  unfold patchOne at keeps ⊢
  rw [findOne_partOf h clear, selectOne_partOf h clear]
  split
  · cases s.findOne collection f <;> rfl
  rename_i hempty
  split
  · rfl
  rename_i haskable
  rw [if_neg hempty, if_neg haskable] at keeps
  cases ht : s.selectOne collection f with
  | error e => rfl
  | ok test =>
    obtain rfl := selectOne_eq_ok ht
    rw [ht] at keeps
    simp only [bind, Except.bind, find?_partOf h, pure, Except.pure] at keeps ⊢
    cases hd : s.documents.find? (·.matches? collection f) with
    | none => rfl
    | some d =>
      rw [hd] at keeps
      dsimp only at keeps ⊢
      cases hb : patch.applyTo? d.body with
      | none => rfl
      | some body =>
        rw [hb] at keeps
        have hmem := List.mem_of_find?_eq_some hd
        have hm := List.find?_some hd
        have ha := h.account_eq hmem hm
        have hmem' : { d with body } ∈
            modifyFirst (·.matches? collection f) (fun d => { d with body }) s.documents := by
          obtain ⟨l, l', -, hl⟩ := modifyFirst_eq (fun d => { d with body }) hd
          rw [hl]
          exact List.mem_append_right _ (List.mem_cons_self ..)
        have ha' : ({ d with body } : StoredDocument).account = account :=
          (keeps _ _ rfl d hmem _ hmem' rfl).trans ha
        have hfilter := modifyFirst_filter (q := (·.account == account))
          (g := fun d => { d with body }) hd (beq_iff_eq.2 ha) (beq_iff_eq.2 ha')
        simp only [Except.map, partOf, hfilter]

theorem eraseP_filter_of_imp {α : Type} {p q : α → Bool} {l : List α}
    (h : ∀ a ∈ l, p a = true → q a = true) : (l.filter q).eraseP p = (l.eraseP p).filter q := by
  induction l with
  | nil => rfl
  | cons a rest ih =>
    have ih := ih fun b hb => h b (List.mem_cons_of_mem _ hb)
    by_cases hp : p a = true
    · rw [List.filter_cons_of_pos (h a (List.mem_cons_self ..) hp), List.eraseP_cons_of_pos hp,
        List.eraseP_cons_of_pos hp]
    · rw [List.eraseP_cons_of_neg hp]
      by_cases hq : q a = true
      · rw [List.filter_cons_of_pos hq, List.filter_cons_of_pos hq, List.eraseP_cons_of_neg hp, ih]
      · rw [List.filter_cons_of_neg hq, List.filter_cons_of_neg hq, ih]

theorem deleteOne_partOf (h : f.Within account s.documents)
    (clear : ¬ s.Blocks account collection) :
    (s.partOf account).deleteOne collection f =
      (s.deleteOne collection f).map fun r => (r.1, r.2.partOf account) := by
  unfold deleteOne
  rw [selectOne_partOf h clear]
  cases ht : s.selectOne collection f with
  | error e => rfl
  | ok test =>
    obtain rfl := selectOne_eq_ok ht
    have any : (s.partOf account).documents.any (·.matches? collection f) =
        s.documents.any (·.matches? collection f) := by
      rw [← List.isSome_find?, ← List.isSome_find?, find?_partOf h]
    have erase := eraseP_filter_of_imp (p := (·.matches? collection f))
      (q := (·.account == account)) fun d hd hm => beq_iff_eq.2 (h.account_eq hd hm)
    simp only [bind, Except.bind, pure, Except.pure, Except.map, any]
    rw [partOf, erase]
    rfl

theorem deleteMany_partOf (h : f.Within account s.documents)
    (clear : ¬ s.Blocks account collection) :
    (s.partOf account).deleteMany collection f =
      (s.deleteMany collection f).map fun r => (r.1, r.2.partOf account) := by
  unfold deleteMany
  rw [selectAll_partOf h clear]
  cases ht : s.selectAll collection f with
  | error e => rfl
  | ok test =>
    obtain rfl := selectAll_eq_ok ht
    have count : (s.partOf account).documents.countP (·.matches? collection f) =
        s.documents.countP (·.matches? collection f) := by
      rw [List.countP_eq_length_filter, List.countP_eq_length_filter, filter_partOf h]
    simp only [bind, Except.bind, pure, Except.pure, Except.map, count]
    simp only [partOf, List.filter_filter, Bool.and_comm]

/-! ### Others -/

theorem filter_account_of_ne {l l' : List StoredDocument} {d : StoredDocument}
    (h : d.account ≠ other) : (l ++ d :: l').filter (·.account == other) =
      l.filter (·.account == other) ++ l'.filter (·.account == other) := by
  rw [List.filter_append, List.filter_cons, if_neg fun heq => h (eq_of_beq heq)]

/-- What is changed within an account is of no other. -/
theorem patchOne_others {patch : Patch} {hit : Bool} (h : f.Within account s.documents)
    (ho : account ≠ other) (hs : s.patchOne collection f patch = .ok (hit, s'))
    (keeps : s.KeepsAccounts s') : s'.partOf other = s.partOf other := by
  rcases patchOne_eq_ok hs with ⟨-, rfl⟩ | ⟨l, d, l', body, hd, hm, -, -, hd'⟩
  · rfl
  have hmem : d ∈ s.documents := hd ▸ List.mem_append_right _ (List.mem_cons_self ..)
  have hmem' : { d with body } ∈ s'.documents :=
    hd' ▸ List.mem_append_right _ (List.mem_cons_self ..)
  have ha := h.account_eq hmem hm
  have ha' := (keeps d hmem _ hmem' rfl).trans ha
  rw [partOf, partOf, hd, hd', filter_account_of_ne (ha.trans_ne ho),
    filter_account_of_ne (ha'.trans_ne ho)]

theorem deleteOne_others {hit : Bool} (h : f.Within account s.documents) (ho : account ≠ other)
    (hs : s.deleteOne collection f = .ok (hit, s')) : s'.partOf other = s.partOf other := by
  unfold deleteOne at hs
  cases ht : s.selectOne collection f with
  | error e => rw [ht] at hs; cases hs
  | ok test =>
    rw [ht] at hs
    cases hs
    obtain rfl := selectOne_eq_ok ht
    rcases List.exists_or_eq_self_of_eraseP (·.matches? collection f) s.documents with
      hl | ⟨d, l, l', -, hm, hl, herase⟩
    · rw [partOf, hl, partOf]
    · have hmem : d ∈ s.documents := hl ▸ List.mem_append_right _ (List.mem_cons_self ..)
      rw [partOf, partOf, herase, hl, filter_account_of_ne ((h.account_eq hmem hm).trans_ne ho),
        List.filter_append]

theorem deleteMany_others {n : Nat} (h : f.Within account s.documents) (ho : account ≠ other)
    (hs : s.deleteMany collection f = .ok (n, s')) : s'.partOf other = s.partOf other := by
  unfold deleteMany at hs
  cases ht : s.selectAll collection f with
  | error e => rw [ht] at hs; cases hs
  | ok test =>
    rw [ht] at hs
    cases hs
    obtain rfl := selectAll_eq_ok ht
    rw [partOf, partOf, List.filter_filter]
    refine congrArg mk (List.filter_congr fun d hd => ?_)
    rw [Bool.eq_iff_iff, Bool.and_eq_true, Bool.not_eq_true']
    refine and_iff_left_of_imp fun heq => Bool.not_eq_true _ ▸ fun hm => ?_
    exact ho ((h.account_eq hd hm).symm.trans (eq_of_beq heq))

theorem insert_others {d : Document} (h : (StoredDocument.of d).account = account)
    (ho : account ≠ other) (hs : s.insert d = .ok s') : s'.partOf other = s.partOf other := by
  rw [partOf, partOf, (insert_eq_ok hs).1, filter_account_of_ne (h.trans_ne ho), List.filter_nil,
    List.append_nil]

end DocumentStore

namespace MappingIndex

/-- The rows of an account. -/
def partOf (x : MappingIndex) (account : String) : MappingIndex :=
  ⟨x.rows.filter (·.account == account)⟩

variable {x x' : MappingIndex} {account other : String} {s : Scope} {k : MappingKey} {m : Mapping}

theorem account_of_hasKey {r : MappingRow} (h : r.hasKey k = true) : r.account = k.account := by
  simp only [MappingRow.hasKey, Bool.and_eq_true, beq_iff_eq] at h
  exact h.1.1.1.1.2

theorem account_of_inScope {r : MappingRow} (h : r.inScope s = true) :
    r.account = s.accountName := by
  cases s <;> simp only [MappingRow.inScope, Bool.and_eq_true, beq_iff_eq] at h
  · exact h.1
  · exact h.1.1

theorem account_of_ownsScope {r : MappingRow} (h : r.ownsScope s = true) :
    r.account = s.accountName := by
  cases s <;> simp only [MappingRow.ownsScope, Bool.and_eq_true, beq_iff_eq] at h
  · exact h.1.2
  · exact h.1.1.2

theorem account_of_clashes {r r' : MappingRow} (h : r.clashes r' = true) :
    r.account = r'.account := by
  simp only [MappingRow.clashes, Bool.and_eq_true, beq_iff_eq] at h
  exact h.1.1.1.1.2

theorem account_reassigned (r : MappingRow) (cluster : String) :
    (if r.inScope s then { r with cluster } else r).account = r.account := by
  split <;> rfl

/-- Rows that meet a test of an account are in its part. -/
theorem filter_partOf {test : MappingRow → Bool} (h : ∀ r, test r = true → r.account = account) :
    (x.partOf account).rows.filter test = x.rows.filter test := by
  rw [partOf, List.filter_filter]
  refine List.filter_congr fun r _ => ?_
  rw [Bool.eq_iff_iff, Bool.and_eq_true, beq_iff_eq]
  exact and_iff_left_of_imp (h r)

theorem countP_partOf {test : MappingRow → Bool} (h : ∀ r, test r = true → r.account = account) :
    (x.partOf account).rows.countP test = x.rows.countP test := by
  rw [List.countP_eq_length_filter, List.countP_eq_length_filter, filter_partOf h]

theorem resolve_partOf (h : s.accountName = account) :
    (x.partOf account).resolve s = x.resolve s := by
  rw [resolve, resolve, filter_partOf fun r hr => (account_of_ownsScope hr).trans h]

theorem without_partOf : (x.partOf account).without k = (x.without k).partOf account := by
  simp only [without, partOf, List.filter_filter, Bool.and_comm]

theorem remove_partOf (h : k.account = account) :
    (x.partOf account).remove k = ((x.remove k).1, (x.remove k).2.partOf account) := by
  rw [remove, remove, countP_partOf fun r hr => (account_of_hasKey hr).trans h, without_partOf]

theorem insert_partOf {r : MappingRow} (h : r.account = account) :
    (x.partOf account).insert r = (x.insert r).map (·.partOf account) := by
  have hany : (x.partOf account).rows.any r.clashes = x.rows.any r.clashes := by
    rw [partOf, List.any_filter, Bool.eq_iff_iff, List.any_eq_true, List.any_eq_true]
    refine exists_congr fun r' => and_congr_right fun _ => ?_
    rw [Bool.and_eq_true, beq_iff_eq]
    exact and_iff_right_of_imp fun hc => (account_of_clashes hc).symm.trans h
  have hr : [r].filter (·.account == account) = [r] :=
    List.filter_eq_self.2 fun r' hr' => beq_iff_eq.2 (List.mem_singleton.1 hr' ▸ h)
  rw [insert, insert, hany]
  split
  · rfl
  · simp only [Except.map, partOf, List.filter_append, hr]

theorem upsert_partOf (h : m.account = account) :
    (x.partOf account).upsert m = (x.upsert m).map (·.partOf account) := by
  rw [upsert, without_partOf, insert_partOf h, upsert]

theorem removeScope_partOf (h : s.accountName = account) : (x.partOf account).removeScope s =
    ((x.removeScope s).1, (x.removeScope s).2.partOf account) := by
  rw [removeScope, removeScope, countP_partOf fun r hr => (account_of_inScope hr).trans h]
  simp only [partOf, List.filter_filter, Bool.and_comm]

theorem reassign_partOf (h : s.accountName = account) (cluster : String) :
    (x.partOf account).reassign s cluster =
      ((x.reassign s cluster).1, (x.reassign s cluster).2.partOf account) := by
  rw [reassign, reassign, countP_partOf fun r hr => (account_of_inScope hr).trans h]
  simp only [partOf, List.filter_map, Function.comp_def, account_reassigned]

/-! ### Others -/

theorem partOf_filter_not {test : MappingRow → Bool} (ho : account ≠ other)
    (h : ∀ r, test r = true → r.account = account) :
    partOf ⟨x.rows.filter (!test ·)⟩ other = x.partOf other := by
  rw [partOf, partOf, List.filter_filter]
  refine congrArg mk (List.filter_congr fun r _ => ?_)
  rw [Bool.eq_iff_iff, Bool.and_eq_true, Bool.not_eq_true']
  refine and_iff_left_of_imp fun heq => Bool.not_eq_true _ ▸ fun hm => ?_
  exact ho ((h r hm).symm.trans (eq_of_beq heq))

theorem remove_others (h : k.account = account) (ho : account ≠ other) :
    (x.remove k).2.partOf other = x.partOf other :=
  partOf_filter_not ho fun _ hr => (account_of_hasKey hr).trans h

theorem removeScope_others (h : s.accountName = account) (ho : account ≠ other) :
    (x.removeScope s).2.partOf other = x.partOf other :=
  partOf_filter_not ho fun _ hr => (account_of_inScope hr).trans h

theorem reassign_others (h : s.accountName = account) (ho : account ≠ other) (cluster : String) :
    (x.reassign s cluster).2.partOf other = x.partOf other := by
  simp only [reassign, partOf, List.filter_map, Function.comp_def, account_reassigned]
  refine congrArg mk ((List.map_congr_left fun r hr => ?_).trans (List.map_id _))
  have heq := eq_of_beq (List.mem_filter.1 hr).2
  exact if_neg fun hs => ho (h.symm.trans ((account_of_inScope hs).symm.trans heq))

theorem upsert_others (h : m.account = account) (ho : account ≠ other)
    (hx : x.upsert m = .ok x') : x'.partOf other = x.partOf other := by
  rw [upsert, insert] at hx
  split at hx
  · cases hx
  obtain rfl := Except.ok.inj hx
  have hm : [MappingRow.ofMapping m].filter (·.account == other) = [] :=
    List.filter_eq_nil_iff.2 fun r hr heq => ho <| by
      rw [← h, ← eq_of_beq heq, List.mem_singleton.1 hr]
      rfl
  have hkey : ∀ r : MappingRow, r.hasKey m.key = true → r.account = account :=
    fun _ hr => (account_of_hasKey hr).trans h
  rw [partOf, List.filter_append, hm, List.append_nil]
  exact partOf_filter_not ho hkey

end MappingIndex

end FleetSync
