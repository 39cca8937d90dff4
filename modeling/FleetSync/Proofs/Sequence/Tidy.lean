import FleetSync.Proofs.Interleaving.Sound
import FleetSync.Proofs.Store.Selection

/-!
# Stores by their cards

At every moment the store is tidy (`System.tidy`): it holds sound resources, each with an id and an
identity of its own. What calls do to a tidy store can be said by the cards of its resources alone
(`DocumentStore.cards`): what is found are the cards that a filter picks
(`DocumentStore.Tidy.find`), an edit puts one card in the place of another
(`DocumentStore.Tidy.patch`), and what is deleted are the cards that are picked
(`DocumentStore.Tidy.deleteOne`, `DocumentStore.Tidy.deleteMany`).
-/

namespace FleetSync

/-- A store of sound resources with ids and identities of their own. -/
structure DocumentStore.Tidy (s : DocumentStore) : Prop where
  sound : ∀ d ∈ s.documents, ∃ r : Resource, r.Sound ∧ r.stored = d
  ids : (s.documents.map (·.id)).Nodup
  keys : (s.documents.map fun d => (d.collection, d.key)).Nodup

/-! ## Keys -/

theorem DocumentStore.key_ne_of_insert_eq_ok {s s' : DocumentStore} {d : Document}
    (h : s.insert d = .ok s') :
    ∀ e ∈ s.documents, (e.collection, e.key) ≠ (d.collection, d.key) := by
  rw [insert] at h
  split at h
  · cases h
  split at h
  · cases h
  · rename_i hc
    intro e he heq
    obtain ⟨hcol, hkey⟩ := Prod.mk.inj heq
    refine hc ?_
    rw [collides, List.any_eq_true]
    exact ⟨e, he, by simp [hcol, hkey]⟩

namespace World

variable (x : Circumstances) (w : World)

/-- No call gives two documents of a collection the same key. -/
theorem reply_keys (c : Call)
    (h : (w.documents.documents.map fun d => (d.collection, d.key)).Nodup) :
    ((w.reply x c).2.documents.documents.map fun d => (d.collection, d.key)).Nodup := by
  have effect := w.reply_effect x c
  have inserted : ∀ d : Document, (⟨c, (w.reply x c).1⟩ : Exchange) = ⟨.insert d, .ok ()⟩ →
      ∀ e ∈ w.documents.documents, (e.collection, e.key) ≠ (d.collection, d.key) := by
    intro d hx
    obtain ⟨rfl, ha⟩ := (Exchange.mk.injEq ..).mp hx
    have ha := eq_of_heq ha
    rcases w.reply_cases x (.insert d) with hw | ⟨⟨e, hf⟩, -⟩ | ⟨hc, -⟩
    · rw [hw, answer] at ha
      cases hi : w.documents.insert d with
      | error e => simp only [hi] at ha; cases ha
      | ok s => exact DocumentStore.key_ne_of_insert_eq_ok hi
    · rw [ha] at hf
      cases hf
    · cases hc
  revert effect inserted
  generalize hx : (⟨c, (w.reply x c).1⟩ : Exchange) = exchange
  generalize (w.reply x c).2.documents.documents = docs'
  revert h
  generalize w.documents.documents = docs
  rintro h (new | ⟨hit, done⟩ | ⟨keep, less⟩) inserted
  · rename_i d
    rw [List.map_append, List.nodup_append]
    refine ⟨h, List.nodup_singleton _, ?_⟩
    intro a ha b hb hab
    obtain ⟨e, he, rfl⟩ := List.mem_map.1 ha
    obtain rfl := List.mem_singleton.1 hb
    exact inserted d rfl e he hab
  · simpa only [List.map_append, List.map_cons] using h
  · exact h.sublist (less.map _)

end World

namespace System

theorem keys_nodup (p : ControlPlane) (moves : List Move) :
    ((after p moves).documents.map fun d => (d.collection, d.key)).Nodup := by
  induction moves using List.reverseRecOn with
  | nil => exact List.nodup_nil
  | append_singleton moves m ih =>
    have step := step_after p moves m
    revert step
    generalize after p (moves ++ [m]) = s'
    rintro (_ | operation | ⟨x, task, fresh⟩)
    · exact ih
    · exact ih
    · exact World.reply_keys x _ _ ih

/-- At every moment the store is tidy. -/
theorem tidy (p : ControlPlane) (moves : List Move) : (after p moves).world.documents.Tidy where
  sound := sound p moves moves (List.prefix_refl _)
  ids := ids_nodup p moves
  keys := keys_nodup p moves

end System

/-! ## Cards -/

namespace Spec

theorem bound_clearBinding (s : Spec) : s.clearBinding.bound = none := by
  cases s <;> rfl

end Spec

namespace Edit

/-- A card after an edit. -/
def cardOf (e : Edit) (c : Card) : Card :=
  match e.change with
  | .attach cluster => { c with cluster }
  | .revise input _ _ cluster =>
    { c with cluster, bound := input.spec.bound, version := e.current.recordVersion.next }
  | .bury .. => { c with marked := true }
  | .requeue _ | .observe .. | .fail .. => c
  | .detach _ => { c with cluster := none, bound := none }

theorem card_apply {e : Edit} {r : Resource} (hkind : (e.apply r).kind = r.kind) :
    (e.apply r).card = e.cardOf r.card := by
  rcases e with ⟨current, change⟩
  cases change with
  | revise input user time cluster =>
    have hkind : input.spec.kind = r.kind := hkind
    simp [apply, cardOf, Resource.card, Resource.mappingKey, Resource.kind, hkind]
  | detach time =>
    have hkind : current.spec.clearBinding.kind = r.kind := hkind
    simp [apply, cardOf, Resource.card, Resource.mappingKey, Resource.kind, hkind,
      Spec.bound_clearBinding]
  | _ => rfl

@[simp] theorem id_cardOf (e : Edit) (c : Card) : (e.cardOf c).id = c.id := by
  rcases e with ⟨current, change⟩
  cases change <;> rfl

@[simp] theorem key_cardOf (e : Edit) (c : Card) : (e.cardOf c).key = c.key := by
  rcases e with ⟨current, change⟩
  cases change <;> rfl

/-- An edit goes to a resource of the kind and the id that were read, whatever its version. -/
theorem target_of_matches? {e : Edit} {r : Resource}
    (h : r.stored.matches? e.current.kind.collection e.filter = true) :
    r.kind = e.current.kind ∧ r.id = e.current.id := by
  have byId : r.stored.matches? e.current.kind.collection (.byId e.current.id) = true := by
    rw [filter] at h
    split at h
    · rw [StoredDocument.matches?, Bool.and_eq_true] at h ⊢
      obtain ⟨hid, -⟩ := Filter.holds?_cons.1 (eq_of_beq h.2)
      refine ⟨h.1, ?_⟩
      have hall : Filter.holds? (.byId e.current.id) r.stored.body = some true :=
        Filter.holds?_cons.2 ⟨hid, rfl⟩
      rw [hall]
      rfl
    · exact h
  exact Resource.of_matches_byId byId

end Edit

/-- The cards with one in the place of that with the same id. -/
def Card.replaceIn (cards : List Card) (c : Card) : List Card :=
  cards.map fun old => if old.id = c.id then c else old

namespace DocumentStore

/-- The cards of the resources in a store. -/
def cards (s : DocumentStore) : List Card := s.documents.map (·.card)

namespace Tidy

variable {s s' : DocumentStore} {kind : Kind} {f : Filter} {test : Card → Bool}

theorem ids_cards (h : s.Tidy) : (s.cards.map (·.id)).Nodup := by
  rw [cards, List.map_map]
  exact h.ids

theorem eq_of_id (h : s.Tidy) {c c' : Card} (hc : c ∈ s.cards) (hc' : c' ∈ s.cards)
    (hid : c.id = c'.id) : c = c' :=
  List.inj_on_of_nodup_map h.ids_cards hc hc' hid

/-- No two resources have the same identity. -/
theorem identities (h : s.Tidy) : (s.cards.map (·.key.identity)).Nodup := by
  let filed : Identity → String × String := fun i =>
    (i.kind.collection, identityKey i.account i.project i.environment i.name)
  refine List.Nodup.of_map filed ?_
  rw [cards, List.map_map, List.map_map]
  have hkeys : s.documents.map (fun d => (d.collection, d.key)) =
      s.documents.map (filed ∘ (fun c : Card => c.key.identity) ∘ (·.card)) := by
    refine List.map_congr_left fun d hd => ?_
    obtain ⟨r, -, rfl⟩ := h.sound d hd
    simp only [Function.comp_apply, Resource.card_stored]
    rfl
  exact hkeys ▸ h.keys

/-! ### Reading -/

/-- What is read of a document has its card. -/
theorem card_of_read (h : s.Tidy) {d : StoredDocument} {j : Json} {read : Resource}
    (hd : d ∈ s.documents) (hcol : d.collection = kind.collection) (hj : d.read = .ok j)
    (hr : Resource.ofDocument kind j = .ok read) : read.card = d.card ∧ read.kind = kind := by
  obtain ⟨r, -, rfl⟩ := h.sound d hd
  have hkind : r.kind = kind := Kind.collection_inj hcol
  have hr := Resource.resembles_of_read hkind hj hr
  exact ⟨by rw [Resource.card_stored, hr.card], hr.kind.trans hkind⟩

/-- What is selected are the cards of the kind that a filter picks. -/
theorem selects (h : s.Tidy) (picks : f.Picks kind test) {select : StoredDocument → Bool}
    (hs : s.select kind.collection f = .ok select) {d : StoredDocument} (hd : d ∈ s.documents) :
    select d = (decide (d.card.key.kind = kind) && test d.card) := by
  have hsome := isSome_of_select hs hd
  obtain rfl := select_eq_ok hs
  obtain ⟨r, -, rfl⟩ := h.sound d hd
  simp only [StoredDocument.matches?, Resource.card_stored]
  by_cases hk : r.kind = kind
  · obtain ⟨b, hb⟩ := Option.isSome_iff_exists.1 (hsome (congrArg Kind.collection hk))
    have htest := picks r b hk hb
    have hcol : r.stored.collection = kind.collection := congrArg Kind.collection hk
    have hkey : r.card.key.kind = kind := hk
    simp [hcol, hkey, hb, ← htest]
  · have hcol : r.stored.collection ≠ kind.collection := fun e => hk (Kind.collection_inj e)
    have hkey : r.card.key.kind ≠ kind := hk
    simp [hcol, hkey]

end Tidy

end DocumentStore

theorem map_of_mapM_eq_ok {ε α β γ δ : Type} {f : α → Except ε β} {g : β → Except ε γ} {l : List α}
    {m : List β} {n : List γ} {k : γ → δ} {k' : α → δ} (hf : l.mapM f = .ok m)
    (hg : m.mapM g = .ok n) (h : ∀ a ∈ l, ∀ b c, f a = .ok b → g b = .ok c → k c = k' a) :
    n.map k = l.map k' := by
  induction l generalizing m n with
  | nil =>
    cases hf
    cases hg
    rfl
  | cons a l ih =>
    rw [List.mapM_cons] at hf
    cases ha : f a with
    | error e => rw [ha] at hf; cases hf
    | ok b =>
      cases hl : l.mapM f with
      | error e => rw [ha, hl] at hf; cases hf
      | ok m' =>
        rw [ha, hl] at hf
        cases hf
        rw [List.mapM_cons] at hg
        cases hb : g b with
        | error e => rw [hb] at hg; cases hg
        | ok c =>
          cases hm : m'.mapM g with
          | error e => rw [hb, hm] at hg; cases hg
          | ok n' =>
            rw [hb, hm] at hg
            cases hg
            have htail := ih hl hm fun a' ha' => h a' (List.mem_cons_of_mem _ ha')
            rw [List.map_cons, List.map_cons, htail, h a (List.mem_cons_self ..) b c ha hb]

namespace DocumentStore.Tidy

variable {s s' : DocumentStore} {kind : Kind} {f : Filter} {test : Card → Bool}

/-- What is found has cards of the store. -/
theorem find_sublist (h : s.Tidy) {js : List Json} {rs : List Resource}
    (hj : s.find kind.collection f = .ok js) (hr : js.mapM (Resource.ofDocument kind) = .ok rs) :
    (rs.map (·.card)).Sublist s.cards ∧ ∀ r ∈ rs, r.kind = kind := by
  unfold DocumentStore.find at hj
  cases ht : s.selectAll kind.collection f with
  | error e => rw [ht] at hj; cases hj
  | ok select =>
    rw [ht] at hj
    have hj : (s.documents.filter select).mapM (·.read) = .ok js := hj
    obtain rfl := selectAll_eq_ok ht
    have read : ∀ d ∈ s.documents.filter (·.matches? kind.collection f), ∀ j r, d.read = .ok j →
        Resource.ofDocument kind j = .ok r → r.card = d.card ∧ r.kind = kind := by
      intro d hd j r hj hr
      obtain ⟨hd, hm⟩ := List.mem_filter.1 hd
      exact h.card_of_read hd (collection_of_matches? hm) hj hr
    have hcards := map_of_mapM_eq_ok hj hr fun d hd j r hj hr => (read d hd j r hj hr).1
    refine ⟨hcards ▸ (List.filter_sublist.map _), fun r hmem => ?_⟩
    obtain ⟨j, hjmem, hdec⟩ := mem_of_mapM_eq_ok hr hmem
    obtain ⟨d, hd, hread⟩ := mem_of_mapM_eq_ok hj hjmem
    exact (read d hd j r hread hdec).2

/-- What is found are the cards that a filter picks. -/
theorem find (h : s.Tidy) (picks : f.Picks kind test) {js : List Json} {rs : List Resource}
    (hj : s.find kind.collection f = .ok js) (hr : js.mapM (Resource.ofDocument kind) = .ok rs) :
    rs.map (·.card) = s.cards.filter fun c => decide (c.key.kind = kind) && test c := by
  unfold DocumentStore.find at hj
  cases ht : s.selectAll kind.collection f with
  | error e => rw [ht] at hj; cases hj
  | ok select =>
    rw [ht] at hj
    have hj : (s.documents.filter select).mapM (·.read) = .ok js := hj
    have hselect := selectAll_eq_ok ht
    have hcards : rs.map (·.card) = (s.documents.filter select).map (·.card) := by
      refine map_of_mapM_eq_ok hj hr fun d hd j r hj hr => ?_
      obtain ⟨hd, hm⟩ := List.mem_filter.1 hd
      rw [hselect] at hm
      exact (h.card_of_read hd (collection_of_matches? hm) hj hr).1
    rw [hcards, cards, List.filter_map]
    exact congrArg _ (List.filter_congr fun d hd => h.selects picks (select_of_selectAll ht) hd)

/-! ### Writing -/

theorem insert {r : Resource} (hs : s.insert r.document = .ok s') :
    s'.cards = s.cards ++ [r.card] := by
  have hdocs : s'.documents = s.documents ++ [r.stored] := (insert_eq_ok hs).1
  rw [cards, hdocs, List.map_append, List.map_singleton, Resource.card_stored, cards]

/-- An edit of a resource that is stored is applied to its document, unless it is bound to a
version. -/
theorem edits (h : s.Tidy) {e : Edit} {hit : Bool} (hcur : e.current.card ∈ s.cards)
    (hkind : ∀ input user time cluster, e.change = .revise input user time cluster →
      e.current.kind = input.kind)
    (hs : s.patchOne e.current.kind.collection e.filter (.ofFields e.changes) = .ok (hit, s')) :
    (hit = true ∧ ∃ l r l', s.documents = l ++ r.stored :: l' ∧
      s'.documents = l ++ (e.apply r).stored :: l' ∧ r.card = e.current.card ∧
      (e.apply r).card = e.cardOf r.card) ∨
      (hit = false ∧ e.isGuarded = true ∧ s' = s) := by
  have hne : (Patch.ofFields e.changes).isEmpty = false := by
    rcases e with ⟨current, change⟩
    cases change <;> rfl
  rcases patchOne_eq_ok hs with ⟨hkeep, rfl⟩ | ⟨l, d, l', body, hd, hm, hb, rfl, hs'⟩
  · have hhit : hit = false := by
      rcases hkeep with he | hh
      · exact absurd (he.symm.trans hne) (by decide)
      · exact hh
    subst hhit
    refine .inr ⟨rfl, ?_, rfl⟩
    -- Without a guard the edit finds what is stored.
    by_contra hg
    have hfilter : e.filter = .byId e.current.id := by rw [Edit.filter, if_neg hg]
    obtain ⟨select, ht, hnone⟩ := none_of_patchOne_eq_ok hne hs
    rw [hfilter] at ht
    obtain ⟨d, hd, hcard⟩ := List.mem_map.1 hcur
    have hsel := h.selects (Filter.Picks.id e.current.id) (select_of_selectOne ht) hd
    refine List.find?_eq_none.1 hnone d hd ?_
    rw [hsel, hcard]
    simp [Resource.card, Resource.mappingKey]
  · refine .inl ⟨rfl, ?_⟩
    obtain ⟨r, -, rfl⟩ := h.sound d (hd ▸ by simp)
    obtain ⟨hk, hid⟩ := Edit.target_of_matches? hm
    have hkind' : (e.apply r).kind = r.kind := by
      rcases e with ⟨current, change⟩
      cases change with
      | revise input user time cluster => exact (hkind _ _ _ _ rfl).symm.trans hk.symm
      | detach time => exact (Spec.kind_clearBinding current.spec).trans hk.symm
      | _ => rfl
    rw [e.stored_apply hkind' hb] at hs'
    have hcard : r.card = e.current.card := by
      refine h.eq_of_id ?_ hcur hid
      rw [← Resource.card_stored]
      exact List.mem_map_of_mem (hd ▸ by simp)
    exact ⟨l, r, l', hd, hs', hcard, Edit.card_apply hkind'⟩

/-- An edit of a resource that is stored replaces its card, unless it is bound to a version. -/
theorem patch (h : s.Tidy) {e : Edit} {hit : Bool} (hcur : e.current.card ∈ s.cards)
    (hkind : ∀ input user time cluster, e.change = .revise input user time cluster →
      e.current.kind = input.kind)
    (hs : s.patchOne e.current.kind.collection e.filter (.ofFields e.changes) = .ok (hit, s')) :
    (hit = true ∧ s'.cards = (e.cardOf e.current.card).replaceIn s.cards) ∨
      (hit = false ∧ e.isGuarded = true ∧ s' = s) := by
  refine (h.edits hcur hkind hs).imp_left ?_
  rintro ⟨rfl, l, r, l', hd, hs', hcard, hnew⟩
  refine ⟨rfl, ?_⟩
  have hids := h.ids
  rw [hd] at hids
  simp only [List.map_append, List.map_cons, List.nodup_append, List.nodup_cons,
    List.mem_map, List.mem_cons, Resource.stored_id] at hids
  have others : ∀ m : List StoredDocument, (∀ d ∈ m, d.id ≠ r.id) →
      (m.map (·.card)).map (fun old => if old.id = r.id then e.cardOf e.current.card else old) =
        m.map (·.card) := by
    intro m hm
    rw [List.map_map]
    refine List.map_congr_left fun d hd => ?_
    have hne : d.card.id ≠ r.id := hm d hd
    rw [Function.comp_apply, if_neg hne]
  have hbefore := others l fun d hd e => hids.2.2 _ ⟨d, hd, rfl⟩ _ (.inl rfl) e
  have hafter := others l' fun d hd e => hids.2.1.1 ⟨d, hd, e⟩
  rw [hcard] at hnew
  have hid' : (e.cardOf e.current.card).id = r.id := by
    rw [Edit.id_cardOf, ← hcard]
    rfl
  rw [cards, hs', cards, hd, Card.replaceIn, hid']
  simp only [List.map_append, List.map_cons, Resource.card_stored, hnew] at hbefore hafter ⊢
  rw [hbefore, hafter]
  have hself : (if r.card.id = r.id then e.cardOf e.current.card else r.card) =
      e.cardOf e.current.card := if_pos rfl
  rw [hself]

/-- Deleting a resource by its id takes its document away. -/
theorem deletesOne (h : s.Tidy) {r : Resource} {hit : Bool} (hcur : r.card ∈ s.cards)
    (hs : s.deleteOne r.kind.collection (.byId r.id) = .ok (hit, s')) :
    s'.documents = s.documents.filter fun d => decide (d.id ≠ r.id) := by
  unfold DocumentStore.deleteOne at hs
  cases ht : s.selectOne r.kind.collection (.byId r.id) with
  | error e => rw [ht] at hs; cases hs
  | ok select =>
    rw [ht] at hs
    cases hs
    have ht := select_of_selectOne ht
    have hselect : ∀ d ∈ s.documents, select d = decide (d.id = r.id) := by
      intro d hd
      rw [h.selects (Filter.Picks.id r.id) ht hd]
      by_cases hid : d.id = r.id
      · have hcard := h.eq_of_id (List.mem_map_of_mem hd) hcur hid
        have hk : d.card.key.kind = r.kind := congrArg (·.key.kind) hcard
        have hcid : d.card.id = r.id := hid
        simp [hid, hcid, hk]
      · have hcid : d.card.id ≠ r.id := hid
        simp [hid, hcid]
    have erased : ∀ docs : List StoredDocument, (docs.map (·.id)).Nodup →
        (∀ d ∈ docs, select d = decide (d.id = r.id)) →
        docs.eraseP select = docs.filter fun d => decide (d.id ≠ r.id) := by
      intro docs
      induction docs with
      | nil => exact fun _ _ => rfl
      | cons d rest ih =>
        intro hids hsel
        rw [List.map_cons, List.nodup_cons] at hids
        have hd := hsel d (List.mem_cons_self ..)
        have hrest := ih hids.2 fun d' hd' => hsel d' (List.mem_cons_of_mem _ hd')
        by_cases hid : d.id = r.id
        · have hothers : ∀ d' ∈ rest, decide (d'.id ≠ r.id) = true := by
            refine fun d' hd' => decide_eq_true fun he => hids.1 (List.mem_map.2 ⟨d', hd', ?_⟩)
            exact he.trans hid.symm
          rw [List.eraseP_cons_of_pos (by rw [hd, decide_eq_true hid]),
            List.filter_cons_of_neg (by simp [hid]), List.filter_eq_self.2 hothers]
        · rw [List.eraseP_cons_of_neg (by rw [hd]; simp [hid]),
            List.filter_cons_of_pos (by simp [hid]), hrest]
    exact erased s.documents h.ids hselect

/-- Deleting a resource by its id takes its card away. -/
theorem deleteOne (h : s.Tidy) {r : Resource} {hit : Bool} (hcur : r.card ∈ s.cards)
    (hs : s.deleteOne r.kind.collection (.byId r.id) = .ok (hit, s')) :
    s'.cards = s.cards.filter fun c => decide (c.id ≠ r.id) := by
  rw [cards, cards, List.filter_map, h.deletesOne hcur hs]
  rfl

/-- Deleting what a filter picks takes the documents of it away. -/
theorem deletesMany (h : s.Tidy) (picks : f.Picks kind test) {n : Nat}
    (hs : s.deleteMany kind.collection f = .ok (n, s')) :
    s'.documents =
      s.documents.filter fun d => !(decide (d.card.key.kind = kind) && test d.card) := by
  unfold DocumentStore.deleteMany at hs
  cases ht : s.selectAll kind.collection f with
  | error e => rw [ht] at hs; cases hs
  | ok select =>
    rw [ht] at hs
    cases hs
    exact List.filter_congr fun d hd => by rw [h.selects picks (select_of_selectAll ht) hd]

/-- Deleting what a filter picks takes the cards of it away. -/
theorem deleteMany (h : s.Tidy) (picks : f.Picks kind test) {n : Nat}
    (hs : s.deleteMany kind.collection f = .ok (n, s')) :
    s'.cards = s.cards.filter fun c => !(decide (c.key.kind = kind) && test c) := by
  rw [cards, cards, List.filter_map, h.deletesMany picks hs]
  rfl

end DocumentStore.Tidy

end FleetSync
