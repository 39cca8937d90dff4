import FleetSync.Store.Documents

/-!
# What calls do to the documents of a store

Inserting adds a document with an id that is new in its collection (`insert_eq_ok`), patching
changes the body of one that meets the filter (`patchOne_eq_ok`), deleting only takes documents away
(`deleteOne_sublist`, `deleteMany_sublist`). What is found is what a stored document reads as
(`match_of_findOne`, `match_of_find`).
-/

namespace FleetSync

theorem mem_of_mapM_eq_ok {ε α β : Type} {f : α → Except ε β} {l : List α} {l' : List β}
    (h : l.mapM f = .ok l') {b : β} (hb : b ∈ l') : ∃ a ∈ l, f a = .ok b := by
  induction l generalizing l' with
  | nil =>
    cases h
    cases hb
  | cons a rest ih =>
    rw [List.mapM_cons] at h
    cases ha : f a with
    | error e => rw [ha] at h; cases h
    | ok c =>
      cases hrest : rest.mapM f with
      | error e => rw [ha, hrest] at h; cases h
      | ok cs =>
        rw [ha, hrest] at h
        cases h
        rcases List.mem_cons.1 hb with rfl | hb
        · exact ⟨a, List.mem_cons_self .., ha⟩
        · obtain ⟨a', ha', hf⟩ := ih hrest hb
          exact ⟨a', List.mem_cons_of_mem _ ha', hf⟩

namespace DocumentStore

variable {s s' : DocumentStore} {collection : String} {filter : Filter}

theorem select_eq_ok {test : StoredDocument → Bool} (h : s.select collection filter = .ok test) :
    test = (·.matches? collection filter) := by
  rw [select] at h
  split at h
  · exact (Except.ok.inj h).symm
  · cases h

/-- What is selected is told from documents that all can be asked. -/
theorem isSome_of_select {test : StoredDocument → Bool} (h : s.select collection filter = .ok test)
    {d : StoredDocument} (hd : d ∈ s.documents) (hcol : d.collection = collection) :
    (filter.holds? d.body).isSome = true := by
  rw [select] at h
  split at h
  · rename_i hall
    exact List.all_eq_true.1 hall d (List.mem_filter.2 ⟨hd, beq_iff_eq.2 hcol⟩)
  · cases h

theorem select_of_selectAll {test : StoredDocument → Bool}
    (h : s.selectAll collection filter = .ok test) : s.select collection filter = .ok test := by
  rw [selectAll] at h
  split at h
  · exact h
  · cases h

theorem select_of_selectOne {test : StoredDocument → Bool}
    (h : s.selectOne collection filter = .ok test) : s.select collection filter = .ok test := by
  rw [selectOne] at h
  split at h
  · exact h
  · cases h

theorem selectAll_eq_ok {test : StoredDocument → Bool}
    (h : s.selectAll collection filter = .ok test) : test = (·.matches? collection filter) :=
  select_eq_ok (select_of_selectAll h)

theorem selectOne_eq_ok {test : StoredDocument → Bool}
    (h : s.selectOne collection filter = .ok test) : test = (·.matches? collection filter) :=
  select_eq_ok (select_of_selectOne h)

theorem matches?_of_find? {test : StoredDocument → Bool} {d : StoredDocument}
    (h : s.selectOne collection filter = .ok test) (hd : s.documents.find? test = some d) :
    d.matches? collection filter = true := by
  have hit := List.find?_some hd
  rwa [selectOne_eq_ok h] at hit

theorem collection_of_matches? {d : StoredDocument} (h : d.matches? collection filter = true) :
    d.collection = collection := by
  rw [StoredDocument.matches?, Bool.and_eq_true] at h
  exact eq_of_beq h.1

theorem insert_eq_ok {d : Document} (h : s.insert d = .ok s') :
    s'.documents = s.documents ++ [.of d] ∧
      ∀ e ∈ s.documents, e.collection = d.collection → e.id ≠ d.id := by
  rw [insert] at h
  split at h
  · cases h
  split at h
  · cases h
  · rename_i hc
    obtain rfl := Except.ok.inj h
    refine ⟨rfl, fun e he hcol hid => hc ?_⟩
    rw [collides, List.any_eq_true]
    exact ⟨e, he, by rw [hcol, hid, beq_self_eq_true, beq_self_eq_true]; rfl⟩

theorem modifyFirst_eq {test : StoredDocument → Bool} {d : StoredDocument}
    (f : StoredDocument → StoredDocument) {docs : List StoredDocument}
    (h : docs.find? test = some d) :
    ∃ l l', docs = l ++ d :: l' ∧ modifyFirst test f docs = l ++ f d :: l' := by
  induction docs with
  | nil => cases h
  | cons e rest ih =>
    rw [List.find?_cons] at h
    cases he : test e with
    | true =>
      rw [he] at h
      obtain rfl := Option.some.inj h
      exact ⟨[], rest, rfl, by rw [modifyFirst, if_pos he]; rfl⟩
    | false =>
      rw [he] at h
      obtain ⟨l, l', hl, hm⟩ := ih h
      refine ⟨e :: l, l', by rw [hl]; rfl, ?_⟩
      rw [modifyFirst, if_neg (by rw [he]; exact Bool.false_ne_true), hm]
      rfl

/-- A patch that is not empty changes a document that meets the filter, or finds none. -/
theorem patchOne_eq_ok {patch : Patch} {hit : Bool}
    (h : s.patchOne collection filter patch = .ok (hit, s')) :
    ((patch.isEmpty = true ∨ hit = false) ∧ s' = s) ∨
      ∃ l d l' body, s.documents = l ++ d :: l' ∧ d.matches? collection filter = true ∧
        patch.applyTo? d.body = some body ∧ hit = true ∧
        s'.documents = l ++ { d with body } :: l' := by
  unfold patchOne at h
  split at h
  · rename_i he
    cases hf : s.findOne collection filter with
    | error e => rw [hf] at h; cases h
    | ok o => rw [hf] at h; cases h; exact .inl ⟨.inl he, rfl⟩
  split at h
  · cases h
  cases ht : s.selectOne collection filter with
  | error e => rw [ht] at h; cases h
  | ok test =>
    rw [ht] at h
    simp only [bind, Except.bind] at h
    split at h
    · cases h; exact .inl ⟨.inr rfl, rfl⟩
    rename_i d hd
    split at h
    · cases h
    rename_i body hb
    cases h
    obtain ⟨l, l', hl, hm⟩ := modifyFirst_eq (fun d => { d with body }) hd
    exact .inr ⟨l, d, l', body, hl, matches?_of_find? ht hd, hb, rfl, hm⟩

/-- A patch that finds nothing has looked at every document. -/
theorem none_of_patchOne_eq_ok {patch : Patch} (hp : patch.isEmpty = false)
    (h : s.patchOne collection filter patch = .ok (false, s')) :
    ∃ test, s.selectOne collection filter = .ok test ∧ s.documents.find? test = none := by
  unfold patchOne at h
  rw [if_neg (by rw [hp]; decide)] at h
  split at h
  · cases h
  cases ht : s.selectOne collection filter with
  | error e => rw [ht] at h; cases h
  | ok test =>
    rw [ht] at h
    simp only [bind, Except.bind] at h
    split at h
    · rename_i hnone
      exact ⟨test, rfl, hnone⟩
    · split at h <;> cases h

theorem deleteOne_sublist {hit : Bool} (h : s.deleteOne collection filter = .ok (hit, s')) :
    s'.documents.Sublist s.documents := by
  unfold deleteOne at h
  cases ht : s.selectOne collection filter with
  | error e => rw [ht] at h; cases h
  | ok test => rw [ht] at h; cases h; exact List.eraseP_sublist

theorem deleteMany_sublist {n : Nat} (h : s.deleteMany collection filter = .ok (n, s')) :
    s'.documents.Sublist s.documents := by
  unfold deleteMany at h
  cases ht : s.selectAll collection filter with
  | error e => rw [ht] at h; cases h
  | ok test => rw [ht] at h; cases h; exact List.filter_sublist

/-- What a deletion took away met the filter. -/
theorem matches?_of_deleteOne {hit : Bool} (h : s.deleteOne collection filter = .ok (hit, s'))
    {d : StoredDocument} (hd : d ∈ s.documents) (gone : d ∉ s'.documents) :
    d.matches? collection filter = true := by
  unfold deleteOne at h
  cases ht : s.selectOne collection filter with
  | error e => rw [ht] at h; cases h
  | ok test =>
    rw [ht] at h
    cases h
    obtain rfl := selectOne_eq_ok ht
    refine Decidable.byContradiction fun hm => gone ?_
    exact (List.mem_eraseP_of_neg (p := (·.matches? collection filter)) hm).2 hd

/-- What is found is the first document that meets the filter. -/
theorem find?_of_findOne {j : Json} (h : s.findOne collection filter = .ok (some j)) :
    ∃ d, s.documents.find? (·.matches? collection filter) = some d ∧ d.read = .ok j := by
  unfold findOne at h
  cases ht : s.selectAll collection filter with
  | error e => rw [ht] at h; cases h
  | ok test =>
    rw [ht] at h
    simp only [bind, Except.bind] at h
    split at h
    · cases h
    rename_i d hd
    cases hr : d.read with
    | error e => rw [hr] at h; cases h
    | ok v =>
      rw [hr] at h
      cases h
      obtain rfl := selectAll_eq_ok ht
      exact ⟨d, hd, hr⟩

/-- Nothing is found if no document meets the filter. -/
theorem find?_of_findOne_none (h : s.findOne collection filter = .ok none) :
    s.documents.find? (·.matches? collection filter) = none := by
  unfold findOne at h
  cases ht : s.selectAll collection filter with
  | error e => rw [ht] at h; cases h
  | ok test =>
    rw [ht] at h
    simp only [bind, Except.bind] at h
    split at h
    · rename_i hnone
      obtain rfl := selectAll_eq_ok ht
      exact hnone
    · rename_i d hd
      cases hr : d.read with
      | error e => rw [hr] at h; cases h
      | ok v => rw [hr] at h; cases h

/-- What is found first is a document that meets the filter. -/
theorem match_of_findOne {j : Json} (h : s.findOne collection filter = .ok (some j)) :
    ∃ d ∈ s.documents, d.matches? collection filter = true ∧ d.read = .ok j := by
  obtain ⟨d, hd, hr⟩ := find?_of_findOne h
  have hm := List.find?_some hd
  exact ⟨d, List.mem_of_find?_eq_some hd, hm, hr⟩

/-- Whatever is found is a document that meets the filter. -/
theorem match_of_find {js : List Json} (h : s.find collection filter = .ok js) {j : Json}
    (hj : j ∈ js) :
    ∃ d ∈ s.documents, d.matches? collection filter = true ∧ d.read = .ok j := by
  unfold find at h
  cases ht : s.selectAll collection filter with
  | error e => rw [ht] at h; cases h
  | ok test =>
    rw [ht] at h
    obtain ⟨d, hd, hr⟩ := mem_of_mapM_eq_ok h hj
    obtain ⟨hmem, htest⟩ := List.mem_filter.1 hd
    obtain rfl := selectAll_eq_ok ht
    exact ⟨d, hmem, htest, hr⟩

end DocumentStore

end FleetSync
