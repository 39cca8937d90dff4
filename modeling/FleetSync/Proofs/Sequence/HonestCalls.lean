import FleetSync.Proofs.Sequence.Truth

/-!
# What honest calls do

Of each call what is so after it. A call that fails changes nothing (`World.reply_failed`), and one
that looks, or is one of the index or the bus, changes neither documents nor events
(`World.Keeps`). What is read is shown by the store (`Resource.get_honest`,
`Resource.findAll_honest`), and what is inserted or edited is shown from then on
(`Program.insert_honest`, `Edit.honest`). An event comes when the store has just changed as it says
(`Program.emit_honest`).
-/

namespace FleetSync

namespace World

variable (x : Circumstances) (w : World)

/-- A call to the index or the bus changes neither documents nor events. -/
theorem reply_keeps {c : Call} (h : c.isFiling = true) : w.Keeps (w.reply x c).2 := by
  rcases w.reply_answered x c with hw | same
  · rw [hw]
    cases c with
    | upsert m =>
      simp only [answer]
      split <;> exact ⟨rfl, rfl⟩
    | _ => first | exact ⟨rfl, rfl⟩ | cases h
  · exact same.keeps

end World

section Calls

variable {faults : Prop} {p : ControlPlane} {o : Operation} {w : World} {α : Type}

namespace Program

/-- A result that is known before. -/
theorem ofExcept_honest (r : Except OpError α) :
    Honest faults p o (fun b w' => w = w' ∧ r = b) (ofExcept r) w := Upholds.known ⟨rfl, rfl⟩

/-! ### Looking -/

theorem now_honest : Honest faults p o (fun _ w' => w.SameStores w') now w :=
  Upholds.single trivial fun _ x _ => w.reply_look x rfl

theorem freshId_honest : Honest faults p o (fun _ w' => w.SameStores w') freshId w :=
  Upholds.single trivial fun _ x _ => w.reply_look x rfl

theorem authorize_honest (userId : String) (resource : ResourceRef) (permission : Permission) :
    Honest faults p o (fun _ w' => w.SameStores w') (authorize userId resource permission) w :=
  Upholds.single trivial fun _ x _ => w.reply_look x rfl

theorem resolve_honest (s : Scope) : Honest faults p o (fun r w' => w.SameStores w' ∧
    ∀ cluster, r = .ok cluster → cluster = w.mappings.resolve s) (resolve s) w := by
  refine Upholds.single trivial fun _ x _ => ⟨w.reply_look x rfl, fun cluster ha => ?_⟩
  have hreply := w.reply_of_not_failed x (c := .resolve s) nofun fun e he => by
    rw [ha] at he
    cases he
  rw [hreply] at ha
  exact (Except.ok.inj ha).symm

theorem findOne_honest (collection : String) (filter : Filter) :
    Honest faults p o (fun r w' => w.SameStores w' ∧
      ∀ j, r = .ok j → w.documents.findOne collection filter = .ok j)
      (findOne collection filter) w := by
  refine Upholds.single trivial fun _ x _ => ⟨w.reply_look x rfl, fun j ha => ?_⟩
  have hreply := w.reply_of_not_failed x (c := .findOne collection filter) nofun fun e he => by
    rw [ha] at he
    cases he
  rwa [hreply] at ha

theorem find_honest (collection : String) (filter : Filter) :
    Honest faults p o (fun r w' => w.SameStores w' ∧
      ∀ js, r = .ok js → w.documents.find collection filter = .ok js)
      (find collection filter) w := by
  refine Upholds.single trivial fun _ x _ => ⟨w.reply_look x rfl, fun js ha => ?_⟩
  have hreply := w.reply_of_not_failed x (c := .find collection filter) nofun fun e he => by
    rw [ha] at he
    cases he
  rwa [hreply] at ha

/-! ### The index and the bus -/

/-- A call of the index keeps documents and events, and fails only if there are faults. -/
theorem filing_honest {c : Call} {k : c.Answer → Except OpError α}
    (lawful : o.Honest faults p w c) (filing : c.isFiling = true) (due : c.isDue = true)
    (failed : ∀ a e, k a = .error e → c.failure? e = some a) :
    Honest faults p o (fun r w' => w.Keeps w' ∧ ∀ e, r = .error e → faults)
      (call c fun a => .done (k a)) w :=
  Upholds.single lawful fun _ x hx =>
    ⟨w.reply_keeps x filing, fun _ he => hx.of_failed due (failed _ _ he)⟩

theorem upsert_honest {r : Resource} {cluster : String} (hr : r.card ∈ w.documents.cards)
    (ht : w.ledger.target r.card = some cluster) :
    Honest faults p o (fun r w' => w.Keeps w' ∧ ∀ e, r = .error e → faults)
      (upsert (r.mapping cluster)) w :=
  filing_honest ⟨r.card, hr, cluster, rfl, ht⟩ rfl rfl fun _ _ h => congrArg some h.symm

theorem removeMapping_honest (k : MappingKey) :
    Honest faults p o (fun r w' => w.Keeps w' ∧ ∀ e, r = .error e → faults) (removeMapping k) w :=
  filing_honest trivial rfl rfl fun _ _ h => congrArg some h.symm

theorem removeScope_honest (s : Scope) :
    Honest faults p o (fun r w' => w.Keeps w' ∧ ∀ e, r = .error e → faults) (removeScope s) w :=
  filing_honest trivial rfl rfl fun _ _ h => congrArg some h.symm

theorem reassignScope_honest (s : Scope) (cluster : String) :
    Honest faults p o (fun r w' => w.Keeps w' ∧ ∀ e, r = .error e → faults)
      (reassignScope s cluster) w :=
  filing_honest trivial rfl rfl fun _ _ h => congrArg some h.symm

theorem publish_honest {topic key : String} {payload : ByteArray} {d : StoredDocument}
    {e : Wire.Envelope} (hd : d ∈ w.documents.documents)
    (tells : Delivery.Tells ⟨(w.bus.log topic).length, topic, key, payload, 1⟩ p w d e) :
    Honest faults p o (fun _ w' => w.Keeps w' ∧ w'.mappings = w.mappings)
      (publish topic key payload) w := by
  refine Upholds.single ⟨d, hd, e, tells⟩ fun _ x _ => ⟨w.reply_keeps x rfl, ?_⟩
  rcases w.reply_answered x (.publish topic key payload) with hw | same
  · rw [hw]
    rfl
  · exact same.mappings

/-! ### Events -/

/-- An event comes when it is awaited, and then it is announced. -/
theorem emit_honest (kind : EventKind) {there : Identity → Prop} (there' : Identity → Prop)
    {r : Resource}
    (h : faults ∨ w.Announces there)
    (turns : kind.Turns (there r.card.key.identity) (there' r.card.key.identity))
    (others : ∀ i, i ≠ r.card.key.identity → (there' i ↔ there i)) :
    Honest faults p o (fun result w' => result.isOk = true ∧ w'.documents = w.documents ∧
      (faults ∨ w'.Announces there')) (emit kind r) w := by
  have reply : ∀ x : Circumstances, (w.reply x (.emit (.of kind r))).2 =
      { w with events := w.events ++ [.of kind r], clock := x.time } := by
    intro x
    rcases w.reply_cases x (.emit (.of kind r)) with hw | ⟨⟨e, he⟩, -⟩ | ⟨hc, -⟩
    · rw [hw]
      rfl
    · cases he
    · cases hc
  have next : ∀ w' : World, w'.events = w.events ++ [.of kind r] →
      faults ∨ w.Awaits (.of kind r) ∧ w'.Announces there' :=
    fun w' hevents => h.imp_right fun h => h.emit turns others hevents
  refine Upholds.single ((next { w with events := w.events ++ [.of kind r] } rfl).imp_right
    And.left) fun _ x _ => ?_
  rw [reply x]
  exact ⟨rfl, rfl, (next _ rfl).imp_right And.right⟩

/-- With the event of what has just changed the events are in step with the store again. -/
theorem emit_inStep (kind : EventKind) {there : Identity → Prop} {r : Resource}
    (h : faults ∨ w.Announces there)
    (turns : kind.Turns (there r.card.key.identity) (w.Holds r.card.key.identity))
    (others : ∀ i, i ≠ r.card.key.identity → (w.Holds i ↔ there i)) :
    Honest faults p o (fun _ w' => w'.documents = w.documents ∧ w'.InStep faults)
      (emit kind r) w := by
  refine (emit_honest kind w.Holds h turns others).mono fun _ w' h =>
    ⟨h.2.1, h.2.2.imp_right fun h' => ?_⟩
  exact h'.congr rfl fun i => by rw [World.Holds, World.Holds, h.2.1]

/-- An update is told of a resource that is there. -/
theorem emit_updated {r : Resource} (hr : w.Shows r) (hi : w.InStep faults) :
    Honest faults p o (fun _ w' => w'.Shows r ∧ ∀ id, w.Tends faults id w') (emit .updated r) w :=
  (emit_inStep .updated hi ⟨hr.holds, hr.holds⟩ fun _ _ => Iff.rfl).mono fun _ _ h =>
    ⟨by rwa [World.Shows, h.1], fun _ => ⟨fun d hd _ => by rwa [h.1], h.2⟩⟩

/-! ### The store -/

/-- What is inserted is shown from then on, and its identity is new. -/
theorem insert_honest {r : Resource} (placed : r.card.key.Placed)
    (attached : r.clusterName = w.ledger.target r.card)
    (desired : o.desires? = some r.card.key.identity) :
    Honest faults p o (fun result w' => if result.isOk then w.Gains r w' else w.SameStores w')
      (insert r.document) w := by
  refine Upholds.single ⟨r, rfl, placed, attached, desired⟩ fun ht x _ => ?_
  cases ha : (w.reply x (.insert r.document)).1 with
  | error e => exact w.reply_failed x (congrArg some ha.symm)
  | ok u =>
    obtain ⟨documents, hs, hw⟩ := w.insert_of_reply x ha
    have hdocs : documents.documents = w.documents.documents ++ [r.stored] :=
      (DocumentStore.insert_eq_ok hs).1
    rw [hw]
    refine ⟨⟨r.stored, by rw [hdocs]; exact List.mem_concat_self, r.shows_stored⟩, rfl, rfl, ?_,
      fun i hi => ?_⟩
    · rintro ⟨d, hd, hident⟩
      obtain ⟨r', -, rfl⟩ := ht.sound d hd
      refine DocumentStore.key_ne_of_insert_eq_ok hs _ hd ?_
      rw [← r'.file_stored, hident]
      exact r.identity_stored ▸ r.file_stored
    · rw [World.Holds, hdocs]
      constructor
      · rintro ⟨d, hd, rfl⟩
        rcases List.mem_append.1 hd with hd | hd
        · exact ⟨d, hd, rfl⟩
        · obtain rfl := List.mem_singleton.1 hd
          exact absurd r.identity_stored hi
      · rintro ⟨d, hd, hident⟩
        exact ⟨d, List.mem_append_left _ hd, hident⟩

/-- A resource that is deleted by its id is not there any more, and all others are. -/
theorem deleteOne_honest {r : Resource} (hr : w.Shows r) :
    Honest faults p o (fun result w' => match result with
      | .ok _ => w'.events = w.events ∧
        w'.documents.documents = w.documents.documents.filter fun d => decide (d.id ≠ r.id)
      | .error _ => faults ∧ w.SameStores w')
      (deleteOne r.kind.collection (.byId r.id)) w := by
  refine Upholds.single trivial fun ht x hx => ?_
  cases ha : (w.reply x (.deleteOne r.kind.collection (.byId r.id))).1 with
  | error e =>
    have failed := congrArg some ha.symm
    exact ⟨hx.of_failed rfl failed, w.reply_failed x failed⟩
  | ok hit =>
    obtain ⟨documents, hs, hw⟩ := w.deleteOne_of_reply x ha
    rw [hw]
    exact ⟨rfl, ht.deletesOne hr.card_mem hs⟩

theorem deleteMany_honest {kind : Kind} {filter : Filter} {test : Card → Bool}
    (picks : filter.Picks kind test) :
    Honest faults p o (fun result w' => match result with
      | .ok _ => w'.events = w.events ∧ w'.documents.documents = w.documents.documents.filter
        fun d => !(decide (d.card.key.kind = kind) && test d.card)
      | .error _ => faults ∧ w.SameStores w') (deleteMany kind.collection filter) w := by
  refine Upholds.single trivial fun ht x hx => ?_
  cases ha : (w.reply x (.deleteMany kind.collection filter)).1 with
  | error e =>
    have failed := congrArg some ha.symm
    exact ⟨hx.of_failed rfl failed, w.reply_failed x failed⟩
  | ok n =>
    obtain ⟨documents, hs, hw⟩ := w.deleteMany_of_reply x ha
    rw [hw]
    exact ⟨rfl, ht.deletesMany picks hs⟩

end Program

/-- A resource that is edited is shown as the edited one, unless the edit is bound to a version. -/
theorem Edit.honest {e : Edit} (h : e.Honest o w) (hi : w.InStep faults) :
    Program.Honest faults p o (fun result w' => w.Tends faults e.current.id w' ∧
      w'.mappings = w.mappings ∧ ∀ hit, result = .ok hit →
        w'.Shows (e.apply e.current) ∨ hit = false ∧ e.isGuarded = true)
      (Program.patchOne e.current.kind.collection e.filter (.ofFields e.changes)) w := by
  refine Program.Upholds.single ⟨e, rfl, h⟩ fun ht x _ => ?_
  cases ha : (w.reply x
      (.patchOne e.current.kind.collection e.filter (.ofFields e.changes))).1 with
  | error failure =>
    have same := w.reply_failed (c := .patchOne e.current.kind.collection e.filter _) x
      (congrArg some ha.symm)
    exact ⟨same.keeps.tended hi, same.mappings, nofun⟩
  | ok hit =>
    obtain ⟨documents, hs, hw⟩ := w.patchOne_of_reply x ha
    rw [hw]
    have revised : ∀ input user time cluster, e.change = .revise input user time cluster →
        e.current.kind = input.kind := fun input user time cluster hc =>
      (h.revised input user time cluster hc).1
    rcases ht.edits h.shown.card_mem revised hs with
      ⟨rfl, l, r, l', hd, hs', hcard, hnew⟩ | ⟨rfl, hg, rfl⟩
    · have hmem : r.stored ∈ w.documents.documents := hd ▸ by simp
      have hid : r.id = e.current.id := congrArg Card.id hcard
      have hshown : r.stored.Shows e.current := by
        obtain ⟨d, hd', hshows⟩ := h.shown
        have hid : d.id = r.stored.id :=
          congrArg Card.id (hshows.card.trans (hcard.symm.trans r.card_stored.symm))
        rwa [List.inj_on_of_nodup_map ht.ids hd' hmem hid] at hshows
      have hcard' : (e.apply r).card = (e.apply e.current).card := by
        have hkind := Edit.kind_apply (e := e) (r := e.current) ⟨rfl, rfl, fun _ => rfl⟩ revised
        rw [hnew, hcard, Edit.card_apply hkind]
      have hident : (e.apply r).stored.identity = r.stored.identity := by
        rw [StoredDocument.identity, StoredDocument.identity, Resource.card_stored,
          Resource.card_stored, hnew, Edit.key_cardOf]
      refine ⟨⟨fun d hd' hne => ?_, hi.imp_right fun hm => hm.congr rfl fun i => ?_⟩, rfl,
        fun _ _ => .inl ⟨(e.apply r).stored, hs' ▸ by simp, hshown.apply hcard'⟩⟩
      · rw [hd, List.mem_append, List.mem_cons] at hd'
        rw [hs', List.mem_append, List.mem_cons]
        rcases hd' with hd' | rfl | hd'
        · exact .inl hd'
        · exact absurd hid hne
        · exact .inr (.inr hd')
      · rw [World.Holds, World.Holds, Identity.Taken, Identity.Taken, hs', hd]
        simp only [List.mem_append, List.mem_cons, or_and_right, exists_or, exists_eq_left, hident]
    · exact ⟨⟨fun d hd _ => hd, hi⟩, rfl, fun _ h => .inr ⟨(Except.ok.inj h).symm, hg⟩⟩

/-! ## Looking resources up -/

/-- What is read of a tidy store is shown by what was read. -/
theorem DocumentStore.Tidy.shows_of_read {s : DocumentStore} (h : s.Tidy) {d : StoredDocument}
    {kind : Kind} {j : Json} {r : Resource} (hd : d ∈ s.documents)
    (hcol : d.collection = kind.collection) (hj : d.read = .ok j)
    (hr : Resource.ofDocument kind j = .ok r) : d.Shows r := by
  obtain ⟨r', -, rfl⟩ := h.sound d hd
  exact Resource.shows_of_read (Kind.collection_inj hcol) hj hr

namespace Resource

variable (kind : Kind) (filter : Filter)

/-- A resource that is found is shown, and the filter picks it. -/
theorem findOne_honest :
    Program.Honest faults p o (fun result w' => w.SameStores w' ∧ ∀ r, result = .ok (some r) →
      w.Shows r ∧ r.kind = kind ∧ ∀ test, filter.Picks kind test → test r.card = true)
      (findOne kind filter) w := by
  refine Program.Upholds.tidy fun ht => ?_
  refine (Program.findOne_honest kind.collection filter).bind (fun found w₁ h₁ => ?_)
    fun _ _ h => ⟨h.1, fun _ he => nomatch he⟩
  cases found with
  | none => exact Program.Upholds.done ⟨h₁.1, fun _ he => nomatch he⟩
  | some j =>
    obtain ⟨d, hd, hm, hj⟩ := DocumentStore.match_of_findOne (h₁.2 _ rfl)
    have hcol := DocumentStore.collection_of_matches? hm
    refine (Program.ofExcept_honest (ofDocument kind j)).bind
      (fun r w₂ h₂ => Program.Upholds.done ⟨h₂.1 ▸ h₁.1, fun r' hr' => ?_⟩)
      fun _ _ h => ⟨h.1 ▸ h₁.1, fun _ he => nomatch he⟩
    obtain rfl := Option.some.inj (Except.ok.inj hr')
    have hshows := ht.shows_of_read hd hcol hj h₂.2
    obtain ⟨hcard, hkind⟩ := ht.card_of_read hd hcol hj h₂.2
    refine ⟨⟨d, hd, hshows⟩, hkind, fun test picks => ?_⟩
    obtain ⟨r', -, rfl⟩ := ht.sound d hd
    rw [StoredDocument.matches?, Bool.and_eq_true] at hm
    rw [hcard, r'.card_stored]
    exact (picks r' true (Kind.collection_inj hcol) (eq_of_beq hm.2)).symm

/-- A resource is found under its identity. -/
theorem get_honest (s : Scope) (name : String) :
    Program.Honest faults p o (fun result w' => w.SameStores w' ∧ ∀ r, result = .ok r →
      w.Shows r ∧ r.kind = kind ∧ r.card.key.identity =
        ⟨kind, s.accountName, s.projectName, s.environmentName?, name⟩) (get kind s name) w := by
  refine (findOne_honest kind (.named s name)).bind (fun found w₁ h₁ => ?_)
    fun _ _ h => ⟨h.1, fun _ he => nomatch he⟩
  cases found with
  | none => exact Program.Upholds.fail ⟨h₁.1, fun _ he => nomatch he⟩
  | some r =>
    refine Program.Upholds.done ⟨h₁.1, fun r' hr' => ?_⟩
    obtain rfl := Except.ok.inj hr'
    obtain ⟨hshows, hkind, hpicked⟩ := h₁.2 r rfl
    have named := hpicked _ (Filter.Picks.named s name)
    simp only [Bool.and_eq_true, beq_iff_eq] at named
    obtain ⟨⟨⟨ha, hp⟩, he⟩, hn⟩ := named
    have hk : r.card.key.kind = kind := hkind
    exact ⟨hshows, hkind, by rw [MappingKey.identity, hk, ha, hp, he, hn]⟩

/-- Resources that are found together are shown, and they are those that the filter picks. -/
theorem findAll_honest :
    Program.Honest faults p o (fun result w' => w.SameStores w' ∧ ∀ rs, result = .ok rs →
      w.Lists rs ∧ ∀ test, filter.Picks kind test → rs.map (·.card) =
        w.documents.cards.filter fun c => decide (c.key.kind = kind) && test c)
      (findAll kind filter) w := by
  refine Program.Upholds.tidy fun ht => ?_
  refine (Program.find_honest kind.collection filter).bind (fun js w₁ h₁ => ?_)
    fun _ _ h => ⟨h.1, fun _ he => nomatch he⟩
  have hjs := h₁.2 js rfl
  refine Program.Upholds.known ⟨h₁.1, fun rs hrs => ⟨⟨fun r hr => ?_, ?_⟩, fun test picks => ?_⟩⟩
  · obtain ⟨j, hj, hr⟩ := mem_of_mapM_eq_ok hrs hr
    obtain ⟨d, hd, hm, hread⟩ := DocumentStore.match_of_find hjs hj
    exact ⟨d, hd, ht.shows_of_read hd (DocumentStore.collection_of_matches? hm) hread hr⟩
  · exact nodup_ids (Ledger.tidy_of_documents ht) (ht.find_sublist hjs hrs).1
  · exact ht.find picks hjs hrs

theorem members_honest (s : Scope) :
    Program.Honest faults p o (fun result w' => w.SameStores w' ∧ ∀ rs, result = .ok rs →
      w.Lists rs) (members kind s) w := by
  unfold members
  split
  · exact (findAll_honest kind _).mono fun _ _ h => ⟨h.1, fun rs hrs => (h.2 rs hrs).1⟩
  · refine Program.Upholds.done ⟨.refl w, fun rs hrs => ?_⟩
    obtain rfl := Except.ok.inj hrs
    exact ⟨(fun _ hr => nomatch hr), List.nodup_nil⟩

end Resource

end Calls

end FleetSync
