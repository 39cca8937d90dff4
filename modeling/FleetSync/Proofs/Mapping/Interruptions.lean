import FleetSync.Proofs.Mapping.Filing
import FleetSync.Proofs.Sequence.Operations
import FleetSync.Proofs.Sequence.Unsent

/-!
# Operations that a failing call to the index ends

A program breaks off if it ends as soon as a call to the index fails, and what it leaves of a
resource by then is what such a call may leave (`Program.BreaksOff`). What it does as long as its
calls are served is known from what it ensures (`Program.BreaksOff.ensuring`), so of each program
only its calls to the index remain to be looked at: a dispatch looks the cluster up first and files
the row last (`ControlPlane.dispatch_breaksOff`). Every operation that writes a single resource or
sends it once more breaks off (`Operation.breaksOff`).
-/

namespace FleetSync

/-- What a scope calls by a kind and a name. -/
def Scope.identity (s : Scope) (kind : Kind) (name : String) : Identity :=
  ⟨kind, s.accountName, s.projectName, s.environmentName?, name⟩

/-- Whether a call is one to the index. -/
def Call.isIndex : Call → Bool
  | .upsert _ | .resolve _ | .removeMapping _ | .removeScope _ | .reassignScope .. => true
  | _ => false

namespace Program

variable {α β : Type}

/-- Whether a program comes to a good end if its calls are served, and ends at once where a call to
the index fails, with nothing broken of a resource but what that call would have mended. -/
def BreaksOff (i : Identity) (good : α → World → Prop) : Program α → World → Prop
  | done r, w => w.documents.Tidy → ∀ a, r = .ok a → good a w
  | call c next, w => w.documents.Tidy →
    (c.isIndex = true → w.ledger.BrokenOff i c ∧
      ∀ e a, c.failure? e = some a → ∃ e', next a = done (.error e')) ∧
    ∀ x : Circumstances, Exchange.isServed ⟨c, (w.reply x c).1⟩ = true →
      BreaksOff i good (next (w.reply x c).1) (w.reply x c).2

namespace BreaksOff

variable {i : Identity} {good good' : α → World → Prop} {q : Program α} {w : World}

theorem tidy (h : w.documents.Tidy → q.BreaksOff i good w) : q.BreaksOff i good w := by
  cases q with
  | done r => exact fun ht => h ht ht
  | call c next => exact fun ht => h ht ht

theorem done {a : α} (h : good a w) : (pure a : Program α).BreaksOff i good w := by
  rintro - _ ⟨⟩
  exact h

theorem fail {e : OpError} : (Program.fail e : Program α).BreaksOff i good w := by
  rintro - _ ⟨⟩

theorem known {r : Except OpError α} (h : ∀ a, r = .ok a → good a w) :
    (ofExcept r).BreaksOff i good w := fun _ => h

theorem mono (h : q.BreaksOff i good w) (hgood : ∀ a w, good a w → good' a w) :
    q.BreaksOff i good' w := by
  induction q generalizing w with
  | done r => exact fun ht a ha => hgood a w (h ht a ha)
  | call c next ih => exact fun ht => ⟨(h ht).1, fun x hx => ih _ ((h ht).2 x hx)⟩

theorem bind {mid : β → World → Prop} {q : Program β} {f : β → Program α}
    (hq : q.BreaksOff i mid w) (ok : ∀ b w', mid b w' → (f b).BreaksOff i good w') :
    (q >>= f).BreaksOff i good w := by
  induction q generalizing w with
  | done r =>
    cases r with
    | ok b => exact tidy fun ht => ok b w (hq ht b rfl)
    | error e => exact fail
  | call c next ih =>
    refine fun ht => ⟨fun hc => ?_, fun x hx => ih _ ((hq ht).2 x hx)⟩
    obtain ⟨broken, ends⟩ := (hq ht).1 hc
    refine ⟨broken, fun e a ha => ?_⟩
    obtain ⟨e', hnext⟩ := ends e a ha
    exact ⟨e', congrArg (Program.bind · f) hnext⟩

theorem map {mid : β → World → Prop} {q : Program β} {f : β → α} (hq : q.BreaksOff i mid w) :
    (f <$> q).BreaksOff i (fun _ _ => True) w := hq.bind fun _ _ _ => done trivial

/-- What a program ensures if its calls are served. -/
theorem ensuring (h : q.BreaksOff i (fun _ _ => True) w)
    (ensures : Ensures False good (fun _ _ => True) q w) : q.BreaksOff i good w := by
  induction q generalizing w with
  | done r =>
    rintro ht a rfl
    exact ensures ht
  | call c next ih =>
    exact fun ht => ⟨(h ht).1, fun x hx => ih _ ((h ht).2 x hx) (ensures ht x (.inr hx))⟩

/-- A call that is none to the index. -/
theorem other {c : Call} {k : c.Answer → Except OpError α} (hc : c.isIndex = false) :
    (call c fun a => Program.done (k a)).BreaksOff i (fun _ _ => True) w :=
  fun _ => ⟨fun h => (Bool.eq_false_iff.1 hc h).elim, fun _ _ _ _ _ => trivial⟩

/-- A call to the index. -/
theorem index {c : Call} {k : c.Answer → Except OpError α} (broken : w.ledger.BrokenOff i c)
    (fails : ∀ e a, c.failure? e = some a → ∃ e', k a = .error e') :
    (call c fun a => Program.done (k a)).BreaksOff i (fun _ _ => True) w := by
  refine fun _ => ⟨fun _ => ⟨broken, fun e a ha => ?_⟩, fun _ _ _ _ _ => trivial⟩
  obtain ⟨e', he⟩ := fails e a ha
  exact ⟨e', congrArg Program.done he⟩

end BreaksOff

/-! ## Single calls -/

variable {i : Identity} {w : World}

theorem upsert_breaksOff (r : Resource) (x : String)
    (broken : w.ledger.BrokenOff i (.upsert (r.mapping x))) :
    (upsert (r.mapping x)).BreaksOff i (fun _ w' => w'.ledger = { w.ledger with
      rows := Ledger.fileIn w.ledger.rows r.mappingKey (some x) }) w :=
  (BreaksOff.index broken fun e _ h => ⟨e, (Option.some.inj h).symm⟩).ensuring (upsert_ensures r x)

theorem removeMapping_breaksOff (k : MappingKey)
    (broken : w.ledger.BrokenOff i (.removeMapping k)) :
    (removeMapping k).BreaksOff i (fun _ w' => w'.ledger = { w.ledger with
      rows := Ledger.fileIn w.ledger.rows k none }) w :=
  (BreaksOff.index broken fun e _ h => ⟨e, (Option.some.inj h).symm⟩).ensuring
    (removeMapping_ensures k)

theorem now_breaksOff : now.BreaksOff i (fun _ w' => w'.ledger = w.ledger) w :=
  (BreaksOff.other rfl).ensuring now_ensures

theorem emit_breaksOff (kind : EventKind) (r : Resource) :
    (emit kind r).BreaksOff i (fun _ w' => w'.ledger = w.ledger) w :=
  (BreaksOff.other rfl).ensuring (emit_ensures kind r)

theorem ofExcept_breaksOff {α : Type} (r : Except OpError α) :
    (ofExcept r).BreaksOff i (fun a w' => w'.ledger = w.ledger ∧ r = .ok a) w :=
  BreaksOff.known fun _ h => ⟨rfl, h⟩

theorem authorize_breaksOff (userId : String) (resource : ResourceRef) (permission : Permission) :
    (authorize userId resource permission).BreaksOff i (fun _ w' => w'.ledger = w.ledger) w :=
  (BreaksOff.other rfl).ensuring (authorize_ensures userId resource permission fun _ _ _ => trivial)

end Program

open Program (Ensures BreaksOff)

variable {i : Identity} {w : World}

namespace Resource

/-- A resource that is found is one that the filter picks. -/
theorem findOne_picks {faults : Prop} {bad : OpError → World → Prop} {kind : Kind} {filter : Filter}
    {test : Card → Bool} (picks : filter.Picks kind test) :
    Ensures faults (fun o w' => w'.ledger = w.ledger ∧ ∀ r, o = some r →
      r.card ∈ w.ledger.cards ∧ r.kind = kind ∧ test r.card = true) bad (findOne kind filter)
      w := by
  refine Ensures.tidy fun ht => ?_
  refine (findOne_finds kind filter).mono (fun o w' h => ?_) fun _ _ h => h
  obtain ⟨hledger, hkind, hcard⟩ := h
  refine ⟨hledger, fun r hr => ?_⟩
  rw [hr, Option.map_some] at hcard
  obtain ⟨d, hd, hcard⟩ := Option.map_eq_some_iff.1 hcard.symm
  have hmem := List.mem_of_find?_eq_some hd
  have hmatch := List.find?_some hd
  have hcol := DocumentStore.collection_of_matches? hmatch
  refine ⟨hcard ▸ List.mem_map_of_mem hmem, hkind r hr, ?_⟩
  obtain ⟨r', -, rfl⟩ := ht.sound d hmem
  rw [StoredDocument.matches?, Bool.and_eq_true] at hmatch
  rw [← hcard, r'.card_stored]
  exact (picks r' true (Kind.collection_inj hcol) (eq_of_beq hmatch.2)).symm

theorem findOne_breaksOff (kind : Kind) (filter : Filter) :
    (findOne kind filter).BreaksOff i (fun _ _ => True) w := by
  have found : (Program.findOne kind.collection filter).BreaksOff i (fun _ _ => True) w :=
    BreaksOff.other rfl
  refine found.bind fun o w' _ => ?_
  cases o with
  | none => exact BreaksOff.done trivial
  | some j => exact (Program.ofExcept_breaksOff _).map

/-- A resource that is gotten is the one that the scope calls by its kind and name. -/
theorem get_named {faults : Prop} {bad : OpError → World → Prop} (kind : Kind) (s : Scope)
    (name : String) (hbad : ∀ e w', w'.ledger = w.ledger → bad e w') :
    Ensures faults (fun r w' => w'.ledger = w.ledger ∧ r.card ∈ w.ledger.cards ∧ r.kind = kind ∧
      r.card.key.identity = s.identity kind name) bad (get kind s name) w := by
  refine (findOne_picks (.named s name)).bind fun o w' h => ?_
  obtain ⟨hledger, hfound⟩ := h
  cases o with
  | none => exact Ensures.fail (.inr (hbad _ _ hledger))
  | some r =>
    obtain ⟨hmem, hkind, hpicked⟩ := hfound r rfl
    simp only [Bool.and_eq_true, beq_iff_eq] at hpicked
    obtain ⟨⟨⟨ha, hp⟩, he⟩, hn⟩ := hpicked
    have hk : r.card.key.kind = kind := hkind
    refine Ensures.done ⟨hledger, hmem, hkind, ?_⟩
    rw [MappingKey.identity, hk, ha, hp, he, hn, Scope.identity]

theorem get_breaksOff (kind : Kind) (s : Scope) (name : String) :
    (get kind s name).BreaksOff i (fun r w' => w'.ledger = w.ledger ∧ r.card ∈ w.ledger.cards ∧
      r.kind = kind ∧ r.card.key.identity = s.identity kind name) w := by
  refine BreaksOff.ensuring ?_ (get_named kind s name fun _ _ _ => trivial)
  refine (findOne_breaksOff kind (.named s name)).bind fun o w' _ => ?_
  cases o with
  | none => exact BreaksOff.fail
  | some r => exact BreaksOff.done trivial

/-- To look the cluster up leaves what is in line in line. -/
theorem cluster_breaksOff (r : Resource) (looks : r.kind ≠ .project → w.ledger.AgreesOn i) :
    r.cluster.BreaksOff i (fun o w' => o = w.ledger.target r.card ∧ w'.ledger = w.ledger) w := by
  refine BreaksOff.ensuring ?_ r.cluster_ensures
  rw [cluster_eq]
  split
  · exact BreaksOff.done trivial
  · rename_i hk
    exact BreaksOff.index (.of_agreesOn (looks hk) rfl) fun e _ h => ⟨e, (Option.some.inj h).symm⟩

/-- To write a resource is no call to the index. -/
theorem patch_breaksOff (r : Resource) (patch : Patch) :
    (r.patch patch).BreaksOff i (fun _ _ => True) w := BreaksOff.other rfl

theorem patchAtVersion_breaksOff (r : Resource) (patch : Patch) :
    (r.patchAtVersion patch).BreaksOff i (fun _ _ => True) w := BreaksOff.other rfl

theorem remove_breaksOff {r : Resource} (hr : r.card ∈ w.ledger.cards)
    (hi : r.card.key.identity = i) (only : w.ledger.Only r.card.key) :
    r.remove.BreaksOff i (fun _ _ => True) w := by
  refine BreaksOff.tidy fun ht => ?_
  have tidy := Ledger.tidy_of_documents ht
  have deleted : (Program.deleteOne r.kind.collection (.byId r.id)).BreaksOff i
      (fun _ w' => w'.ledger = { w.ledger with
        cards := w.ledger.cards.filter fun d => decide (d.id ≠ r.id) }) w :=
    (BreaksOff.other rfl).ensuring (Program.deleteOne_ensures hr)
  refine deleted.bind fun _ w₁ h₁ => ?_
  have gone : w₁.ledger.card? r.card.key.identity = none := by
    rw [h₁]
    exact (only.strike tidy hr).2
  have broken : w₁.ledger.BrokenOff i (.removeMapping r.mappingKey) := by
    rw [← hi]
    refine .of_deletion (k := r.card.key) ?_ gone
    rw [h₁]
    exact only
  refine (Program.removeMapping_breaksOff r.mappingKey broken).bind fun _ w₂ h₂ => ?_
  exact (Program.emit_breaksOff .deleted r).mono fun _ _ _ => trivial

end Resource

namespace ControlPlane

variable (p : ControlPlane)

theorem send_breaksOff (r : Resource) (action : SyncAction)
    (looks : r.kind ≠ .project → w.ledger.AgreesOn i) :
    (p.send r action).BreaksOff i (fun o w' => o.cluster? = w.ledger.target r.card ∧
      Ledger.Sends p r action w.ledger w'.ledger (w.ledger.target r.card)) w := by
  refine BreaksOff.ensuring ?_ (p.send_ensures r action fun _ _ _ => trivial)
  refine (r.cluster_breaksOff looks).bind fun o w₁ h₁ => ?_
  cases o with
  | none => exact BreaksOff.done trivial
  | some x =>
    refine (Program.ofExcept_breaksOff _).bind fun frame w₂ h₂ => ?_
    have published : (Program.publish (p.topicOf x) r.namespaceName frame.toBytes).BreaksOff i
        (fun _ _ => True) w₂ := BreaksOff.other rfl
    exact published.bind fun _ _ _ => BreaksOff.done trivial

/-- A dispatch looks the cluster up and, if it is another one than that on record, files the row at
last. -/
theorem dispatch_breaksOff {r : Resource} (hr : r.card ∈ w.ledger.cards)
    (hi : r.card.key.identity = i) (action : SyncAction)
    (looks : r.kind ≠ .project → w.ledger.AgreesOn i)
    (moves : w.ledger.target r.card ≠ r.clusterName → w.ledger.AgreesOn i) :
    (p.dispatch r action).BreaksOff i (fun o w' => o.1.cluster? = w.ledger.target r.card ∧
      o.2 = { r with clusterName := w.ledger.target r.card } ∧
      ∃ l, Ledger.Sends p r action w.ledger l (w.ledger.target r.card) ∧
        w'.ledger = l.amend r.card (r.card.on (w.ledger.target r.card))) w := by
  refine BreaksOff.ensuring ?_ (p.dispatch_ensures hr action fun _ _ _ => trivial)
  refine BreaksOff.tidy fun ht => ?_
  have tidy := Ledger.tidy_of_documents ht
  refine (p.send_breaksOff r action looks).bind fun outcome w₁ h₁ => ?_
  obtain ⟨ho, sends⟩ := h₁
  have hr₁ : r.card ∈ w₁.ledger.cards := sends.cards ▸ hr
  have tidy₁ := tidy.of_cards sends.cards
  -- What is called by then is called to file a document that was moved.
  have filing : ∀ {o : Option String} {w₂ : World} {call : Call}, outcome.cluster? = o →
      o ≠ r.clusterName → w₂.ledger = { w₁.ledger with
        cards := (r.card.on o).replaceIn w₁.ledger.cards } →
      (w₁.ledger.Only r.card.key → (call.refile w₁.ledger.rows).filter
        (·.isOf r.card.key.identity) = (o.map r.card.key.row).toList) →
      w₂.ledger.BrokenOff i call := by
    rintro _ w₂ call rfl moved hw₂ files
    rw [ho] at moved hw₂ files
    have agrees : w₁.ledger.AgreesOn r.card.key.identity :=
      hi ▸ (Ledger.agreesOn_congr sends.cards sends.rows).2 (moves moved)
    rw [← hi, hw₂]
    exact .of_move agrees tidy₁ hr₁ rfl rfl sends.target files
  cases hx : outcome.cluster? with
  | some x =>
    dsimp only
    split
    · exact BreaksOff.done trivial
    · rename_i hne
      have attached := (r.patch_breaksOff (i := i) (w := w₁)
        [.set ["cluster_name"] (.str x)]).ensuring (r.attach_ensures hr₁ (some x))
      refine attached.bind fun _ w₂ h₂ => ?_
      have broken : w₂.ledger.BrokenOff i (.upsert (r.mapping x)) :=
        filing hx (fun h => hne h.symm) h₂ fun only =>
          Ledger.filter_isOf_fileIn (o := some x) only
      exact (Program.upsert_breaksOff r x broken).bind fun _ _ _ => BreaksOff.done trivial
  | none =>
    cases hrec : r.clusterName with
    | some recorded =>
      have attached := (r.patch_breaksOff (i := i) (w := w₁)
        [.set ["cluster_name"] .null]).ensuring (r.attach_ensures hr₁ none)
      refine attached.bind fun _ w₂ h₂ => ?_
      have broken : w₂.ledger.BrokenOff i (.removeMapping r.mappingKey) :=
        filing hx (fun h => by cases h.trans hrec) h₂ fun only =>
          Ledger.filter_isOf_fileIn (o := none) only
      exact (Program.removeMapping_breaksOff r.mappingKey broken).bind fun _ _ _ =>
        BreaksOff.done trivial
    | none => exact BreaksOff.done trivial

/-- What a change ends with: the resource is announced and sent. -/
theorem announce_breaksOff {α : Type} {r : Resource} (hr : r.card ∈ w.ledger.cards)
    (hi : r.card.key.identity = i) (looks : r.kind ≠ .project → w.ledger.AgreesOn i)
    (moves : w.ledger.target r.card ≠ r.clusterName → w.ledger.AgreesOn i) (kind : EventKind)
    (result : Resource → α) :
    (do
      Program.emit kind r
      return result (← p.dispatch r .apply).2 : Program α).BreaksOff i
      (fun a _ => ∃ r', a = result r') w := by
  refine (Program.emit_breaksOff kind r).bind fun _ w' h' => ?_
  rw [← h'] at hr looks moves
  exact (p.dispatch_breaksOff hr hi .apply looks moves).bind fun o _ _ =>
    BreaksOff.done ⟨o.2, rfl⟩

/-- A resource is sent, and removed if it is marked and belongs nowhere. -/
theorem settle_breaksOff {r : Resource} (hr : r.card ∈ w.ledger.cards)
    (hi : r.card.key.identity = i) (agrees : w.ledger.AgreesOn i) :
    (p.settle r).BreaksOff i (fun _ _ => True) w := by
  refine BreaksOff.tidy fun ht => ?_
  have tidy := Ledger.tidy_of_documents ht
  refine (p.dispatch_breaksOff hr hi r.pendingAction (fun _ => agrees) fun _ => agrees).bind
    fun o w₁ h₁ => ?_
  obtain ⟨ho, hr', l, sends, hw₁⟩ := h₁
  obtain ⟨outcome, r'⟩ := o
  dsimp only at ho hr' ⊢
  split
  · have hrl : r.card ∈ l.cards := sends.cards ▸ hr
    have tidyl := tidy.of_cards sends.cards
    have hmem : r'.card ∈ w₁.ledger.cards := by
      rw [hw₁, hr']
      exact (Ledger.mem_amend hrl (r.card.id_on _)).2 (.inr rfl)
    have hi' : r'.card.key.identity = i := by
      rw [hr']
      exact hi
    have amended : w₁.ledger.AgreesOn r'.card.key.identity := by
      have agrees' : l.AgreesOn r.card.key.identity :=
        hi ▸ (Ledger.agreesOn_congr sends.cards sends.rows).2 agrees
      rw [hw₁, hr']
      exact agrees'.amend tidyl hrl (r.card.id_on _) (r.card.key_on _)
    refine BreaksOff.tidy fun ht₁ => ?_
    have only := amended.only ((Ledger.tidy_of_documents ht₁).card? hmem)
    exact (Resource.remove_breaksOff hmem hi' only).bind fun _ _ _ => BreaksOff.done trivial
  · exact BreaksOff.done trivial

theorem requeue_breaksOff {r : Resource} (hr : r.card ∈ w.ledger.cards)
    (hi : r.card.key.identity = i) (agrees : w.ledger.AgreesOn i) :
    (p.requeue r).BreaksOff i (fun _ _ => True) w := by
  refine Program.now_breaksOff.bind fun time w₁ h₁ => ?_
  rw [← h₁] at hr agrees
  have queued : (Program.patchOne r.kind.collection (.byId r.id) [.set ["sync_status"]
      (r.syncStatus.queued r.pendingAction time).encode]).BreaksOff i
      (fun _ w' => w'.ledger = w₁.ledger) w₁ := (BreaksOff.other rfl).ensuring
    (Edit.ensures_same (e := ⟨r, .requeue time⟩) hr (fun _ _ _ _ h => by cases h) rfl)
  refine queued.bind fun _ w₂ h₂ => ?_
  rw [← h₂] at hr agrees
  let r' : Resource := { r with syncStatus := r.syncStatus.queued r.pendingAction time }
  have hr' : r'.card ∈ w₂.ledger.cards := hr
  refine (p.settle_breaksOff hr' hi agrees).bind fun o w₃ _ => ?_
  obtain ⟨outcome, r''⟩ := o
  dsimp only
  split
  · exact (Program.emit_breaksOff .updated r'').bind fun _ _ _ => BreaksOff.done trivial
  · exact BreaksOff.done trivial

theorem resync_breaksOff (user : User) (kind : Kind) (s : Scope) (name : String)
    (agrees : w.ledger.AgreesOn (s.identity kind name)) :
    (p.resync user kind s name).BreaksOff (s.identity kind name) (fun _ _ => True) w := by
  unfold resync
  refine (Program.ofExcept_breaksOff s.check).bind fun _ w₁ h₁ => ?_
  rw [← h₁.1] at agrees
  refine (Program.authorize_breaksOff user.id _ .resync).bind fun _ w₂ h₂ => ?_
  rw [← h₂] at agrees
  refine (Resource.get_breaksOff kind s name).bind fun current w₃ h₃ => ?_
  obtain ⟨hw₃, hcur, -, hi⟩ := h₃
  rw [← hw₃] at hcur agrees
  exact p.requeue_breaksOff hcur hi agrees

/-! ## Creating and updating -/

theorem requireOwner_breaksOff (s : Scope) (kind : Kind) :
    (s.requireOwner kind).BreaksOff i (fun _ w' => w'.ledger = w.ledger) w := by
  refine BreaksOff.ensuring ?_ (s.requireOwner_ensures kind fun _ _ _ => trivial)
  unfold Scope.requireOwner
  split
  · exact BreaksOff.done trivial
  have found : (Program.findOne s.ownerKind.collection (.owner s)).BreaksOff i
      (fun _ _ => True) w := BreaksOff.other rfl
  refine found.bind fun o w' _ => ?_
  cases o with
  | none => exact BreaksOff.fail
  | some doc =>
    dsimp only
    split
    · exact BreaksOff.fail
    · exact BreaksOff.done trivial

theorem insert_breaksOff (r : Resource) : r.insert.BreaksOff i (fun _ w' =>
    w'.ledger = { w.ledger with cards := w.ledger.cards ++ [r.card] }) w := by
  refine BreaksOff.ensuring ?_ (r.insert_ensures fun _ _ _ => trivial)
  have inserted : (Program.insert r.document).attempt.BreaksOff i (fun _ _ => True) w :=
    BreaksOff.other rfl
  refine inserted.bind fun result w' _ => ?_
  split
  · exact BreaksOff.fail
  · exact BreaksOff.known fun _ _ => trivial

/-- Once its row is filed a new resource is sent, and agrees with it. -/
theorem sendAdded_breaksOff {r : Resource} {l : Ledger} (agrees : l.AgreesOn r.card.key.identity)
    (hi : r.card.key.identity = i) (hw : w.ledger = l.enlist r.card) :
    (do
      Program.emit .added r
      return (← p.dispatch r .apply).2 : Program Resource).BreaksOff i (fun _ _ => True) w := by
  refine BreaksOff.tidy fun ht => ?_
  have tidy : (l.enlist r.card).Tidy := hw ▸ Ledger.tidy_of_documents ht
  have agrees' : w.ledger.AgreesOn i := by
    rw [hw, ← hi]
    exact agrees.enlist tidy
  have hr : r.card ∈ w.ledger.cards := hw ▸ List.mem_concat_self
  exact (p.announce_breaksOff hr hi (fun _ => agrees') (fun _ => agrees') .added id).mono
    fun _ _ _ => trivial

theorem create_breaksOff (user : User) (s : Scope) (input : ResourceInput)
    (agrees : w.ledger.AgreesOn (input.identity s)) :
    (p.create user s input).BreaksOff (input.identity s) (fun _ _ => True) w := by
  unfold create
  refine (Program.ofExcept_breaksOff input.checkNames).bind fun _ w₁ h₁ => ?_
  rw [← h₁.1] at agrees
  refine (Program.ofExcept_breaksOff (input.checkPlace s)).bind fun _ w₂ h₂ => ?_
  rw [← h₂.1] at agrees
  refine (Program.authorize_breaksOff user.id _ .create).bind fun _ w₃ h₃ => ?_
  rw [← h₃] at agrees
  refine (requireOwner_breaksOff s input.kind).bind fun _ w₄ h₄ => ?_
  rw [← h₄] at agrees
  refine Program.now_breaksOff.bind fun time w₅ h₅ => ?_
  rw [← h₅] at agrees
  refine ((BreaksOff.other rfl).ensuring Program.freshId_ensures).bind fun id w₆ h₆ => ?_
  rw [← h₆] at agrees
  refine (Resource.cluster_breaksOff _ fun _ => agrees).bind fun cluster w₇ h₇ => ?_
  obtain ⟨hcluster, hw₇⟩ := h₇
  rw [← hw₇] at hcluster agrees
  dsimp only
  generalize hr : ({ input.toResource user s id time with clusterName := cluster } : Resource) = r
  have hi : r.card.key.identity = input.identity s := by
    rw [← hr]
    rfl
  have target : r.card.cluster = w₇.ledger.target r.card := by
    rw [← hr]
    exact hcluster
  have hclusterName : r.card.cluster = cluster := by
    rw [← hr]
    rfl
  rw [← hi] at agrees
  refine (insert_breaksOff r).bind fun _ w₈ h₈ => ?_
  cases cluster with
  | some x =>
    refine BreaksOff.tidy fun ht => ?_
    have tidy : (w₇.ledger.enlist r.card).Tidy :=
      (Ledger.tidy_of_documents ht).of_cards (by rw [h₈]; rfl)
    have broken : w₈.ledger.BrokenOff (input.identity s) (.upsert (r.mapping x)) := by
      rw [h₈, ← hi]
      refine .of_new agrees tidy target.symm fun only => ?_
      rw [hclusterName]
      exact Ledger.filter_isOf_fileIn (o := some x) only
    refine (Program.upsert_breaksOff r x broken).bind fun _ w₉ h₉ =>
      p.sendAdded_breaksOff agrees hi ?_
    rw [h₉, h₈, Ledger.enlist, hclusterName, if_neg (Option.some_ne_none x)]
    rfl
  | none =>
    refine p.sendAdded_breaksOff agrees hi ?_
    rw [h₈, Ledger.enlist, if_pos hclusterName]

/-- The rows follow a resource that was moved, first of all its own. -/
theorem recordMove_breaksOff {r : Resource} {l : Ledger} {c : Card}
    (agrees : l.AgreesOn c.key.identity) (tidy : l.Tidy) (hc : c ∈ l.cards)
    (hid : r.card.id = c.id) (hkey : r.card.key = c.key) (target : l.target r.card = r.card.cluster)
    (hi : r.card.key.identity = i) (moved : r.card.cluster ≠ c.cluster)
    (hw : w.ledger = { l with cards := r.card.replaceIn l.cards }) :
    (recordMove r).BreaksOff i (fun _ w' => w'.ledger =
      if r.kind = .project then l.relocate r.card else l.amend c r.card) w := by
  refine BreaksOff.ensuring ?_ (recordMove_ensures hw moved)
  have broken : ∀ call : Call, (l.Only r.card.key → (call.refile l.rows).filter
      (·.isOf r.card.key.identity) = (r.card.cluster.map r.card.key.row).toList) →
      w.ledger.BrokenOff i call := by
    intro call files
    rw [← hi, hw]
    exact .of_move agrees tidy hc hid hkey target files
  unfold recordMove
  cases hcluster : r.clusterName with
  | some x =>
    have on : r.card.cluster = some x := hcluster
    have files : l.Only r.card.key → (Ledger.fileIn l.rows r.card.key (some x)).filter
        (·.isOf r.card.key.identity) = (r.card.cluster.map r.card.key.row).toList := fun only => by
      rw [on]
      exact Ledger.filter_isOf_fileIn only
    refine (Program.upsert_breaksOff r x (broken _ files)).bind fun _ w₁ h₁ => ?_
    split
    · have found : w₁.ledger.card? i = some r.card := by
        rw [← hi, h₁, hw]
        exact tidy.card?_replaceIn hc hid hkey rfl
      have only : l.Only r.card.key := hkey ▸ agrees.only (tidy.card? hc)
      have filed : w₁.ledger.AgreesOn i := by
        rw [← hi] at found ⊢
        exact Ledger.agreesOn_of_fileIn only found (by rw [h₁, hw, on]; rfl)
      have reassigned : (Program.reassignScope r.scope x).BreaksOff i (fun _ _ => True) w₁ :=
        BreaksOff.index (filed.reassignScope found on) fun e _ h => ⟨e, (Option.some.inj h).symm⟩
      refine reassigned.bind fun _ _ _ => ?_
      exact BreaksOff.done trivial
    · exact BreaksOff.done trivial
  | none =>
    have off : r.card.cluster = none := hcluster
    dsimp only
    split
    · have files : ((Call.removeScope r.scope).refile l.rows).filter
          (·.isOf r.card.key.identity) = (r.card.cluster.map r.card.key.row).toList := by
        rw [off]
        exact Ledger.filter_isOf_removeScope l.rows r.card.key
      have removed : (Program.removeScope r.scope).BreaksOff i (fun _ _ => True) w :=
        BreaksOff.index (broken _ fun _ => files) fun e _ h => ⟨e, (Option.some.inj h).symm⟩
      refine removed.bind fun _ _ _ => ?_
      exact BreaksOff.done trivial
    · have files : l.Only r.card.key → (Ledger.fileIn l.rows r.card.key none).filter
          (·.isOf r.card.key.identity) = (r.card.cluster.map r.card.key.row).toList := by
        intro only
        rw [off]
        exact Ledger.filter_isOf_fileIn only
      refine (Program.removeMapping_breaksOff r.mappingKey (broken _ files)).bind fun _ _ _ => ?_
      exact BreaksOff.done trivial

/-- Once a resource was revised the rows follow it if it was moved, and it is sent. -/
theorem sendRevised_breaksOff {current updated : Resource} {l : Ledger}
    (agrees : l.AgreesOn current.card.key.identity) (tidy : l.Tidy) (hc : current.card ∈ l.cards)
    (hid : updated.card.id = current.card.id) (hkey : updated.card.key = current.card.key)
    (target : l.target updated.card = updated.card.cluster) (hi : updated.card.key.identity = i)
    (hw : w.ledger = { l with cards := updated.card.replaceIn l.cards }) :
    (do
      if updated.clusterName ≠ current.clusterName then recordMove updated
      Program.emit .updated updated
      return some (← p.dispatch updated .apply).2 : Program (Option Resource)).BreaksOff i
      (fun o _ => ∃ r, o = some r) w := by
  have amended : ∀ w' : World, w'.ledger = l.amend current.card updated.card → (do
      Program.emit .updated updated
      return some (← p.dispatch updated .apply).2 : Program (Option Resource)).BreaksOff i
      (fun o _ => ∃ r, o = some r) w' := by
    intro w' hw'
    have agrees' : w'.ledger.AgreesOn i := by
      rw [hw', ← hi]
      exact agrees.amend tidy hc hid hkey
    have hr : updated.card ∈ w'.ledger.cards := by
      rw [hw']
      exact (Ledger.mem_amend hc hid).2 (.inr rfl)
    exact p.announce_breaksOff hr hi (fun _ => agrees') (fun _ => agrees') .updated some
  split
  · rename_i hmoved
    have moved : updated.card.cluster ≠ current.card.cluster := hmoved
    refine (recordMove_breaksOff agrees tidy hc hid hkey target hi moved hw).bind
      fun _ w₁ h₁ => ?_
    split at h₁
    · -- A project that was moved is where its spec says, and so it is not looked up.
      rename_i hk
      have hk : updated.card.key.kind = .project := hk
      have stays : w₁.ledger.target updated.card = updated.clusterName := by
        rw [Ledger.target, if_pos hk] at target ⊢
        exact target
      have hr : updated.card ∈ w₁.ledger.cards := by
        rw [h₁]
        exact (Ledger.mem_relocate_cards hc hid).2 (.inr rfl)
      exact p.announce_breaksOff hr hi (fun hne => absurd hk hne) (fun hne => absurd stays hne)
        .updated some
    · exact amended w₁ h₁
  · rename_i hsame
    have stays : updated.card.cluster = current.card.cluster := not_not.1 hsame
    refine amended w ?_
    rw [hw, Ledger.amend, if_pos stays]

/-- An update that is tried breaks off, and if another writer was faster it has done nothing. -/
theorem tryUpdate_breaksOff (user : User) (s : Scope) (input : ResourceInput)
    (agrees : w.ledger.AgreesOn (input.identity s)) :
    (p.tryUpdate user s input).BreaksOff (input.identity s)
      (fun o w' => o = none → w'.ledger = w.ledger) w := by
  unfold tryUpdate
  refine BreaksOff.tidy fun ht => ?_
  have tidy := Ledger.tidy_of_documents ht
  refine (Resource.get_breaksOff input.kind s input.name).bind ?_
  rintro current w₁ ⟨hw₁, hcur, hkind, hi⟩
  split
  · exact BreaksOff.fail
  split
  · exact BreaksOff.fail
  refine Program.now_breaksOff.bind fun time w₂ h₂ => ?_
  rw [← h₂.trans hw₁] at agrees
  refine (Resource.cluster_breaksOff _ fun _ => agrees).bind fun cluster w₃ h₃ => ?_
  obtain ⟨hcluster, hw₃⟩ := h₃
  rw [h₂, hw₁] at hcluster hw₃ agrees
  generalize hu : ({ input.revise current user time with clusterName := cluster } : Resource) =
    updated
  have hid : updated.card.id = current.card.id := by
    rw [← hu]
    rfl
  have hkey : updated.card.key = current.card.key := by
    rw [← hu]
    exact congrArg (fun kind => { current.mappingKey with kind }) hkind.symm
  have target : w.ledger.target updated.card = updated.card.cluster := by
    rw [← hu]
    exact hcluster.symm
  have hi : current.card.key.identity = input.identity s := hi
  have hi' : updated.card.key.identity = input.identity s := hkey ▸ hi
  rw [← hw₃] at hcur
  have revised := (current.patchAtVersion_breaksOff (i := input.identity s) (w := w₃)
    updated.revision).ensuring (revise_ensures hcur hkind user time cluster hu.symm)
  refine revised.bind fun hit w₄ h₄ => ?_
  rw [hw₃] at hcur h₄
  cases hit with
  | false => exact BreaksOff.done fun _ => h₄
  | true =>
    rw [if_pos rfl] at h₄
    rw [← hi] at agrees
    refine (p.sendRevised_breaksOff agrees tidy hcur hid hkey target hi' h₄).mono ?_
    rintro _ _ ⟨r, rfl⟩ h
    cases h

theorem updateWithin_breaksOff (user : User) (s : Scope) (input : ResourceInput)
    (agrees : w.ledger.AgreesOn (input.identity s)) (attempts : Nat) :
    (p.updateWithin user s input attempts).BreaksOff (input.identity s) (fun _ _ => True) w := by
  induction attempts generalizing w with
  | zero => exact BreaksOff.fail
  | succ attempts ih =>
    refine (p.tryUpdate_breaksOff user s input agrees).bind fun o w₁ h₁ => ?_
    cases o with
    | some r => exact BreaksOff.done trivial
    | none =>
      rw [← h₁ rfl] at agrees
      exact ih agrees

theorem update_breaksOff (user : User) (s : Scope) (input : ResourceInput)
    (agrees : w.ledger.AgreesOn (input.identity s)) :
    (p.update user s input).BreaksOff (input.identity s) (fun _ _ => True) w := by
  unfold update
  refine (Program.ofExcept_breaksOff s.check).bind fun _ w₁ h₁ => ?_
  rw [← h₁.1] at agrees
  refine (Program.authorize_breaksOff user.id _ .update).bind fun _ w₂ h₂ => ?_
  rw [← h₂] at agrees
  exact p.updateWithin_breaksOff user s input agrees updateAttempts

/-! ## Taking reports in -/

theorem resend_breaksOff {r : Resource} (hr : r.card ∈ w.ledger.cards)
    (hi : r.card.key.identity = i) (agrees : w.ledger.AgreesOn i) :
    (p.resend r).BreaksOff i (fun _ _ => True) w :=
  (p.settle_breaksOff hr hi agrees).bind fun _ _ _ => BreaksOff.done trivial

theorem resendChanged_breaksOff {r : Resource} (hr : r.card ∈ w.ledger.cards)
    (hi : r.card.key.identity = i) (agrees : w.ledger.AgreesOn i) :
    (p.resendChanged r).BreaksOff i (fun _ _ => True) w := by
  refine BreaksOff.tidy fun ht => ?_
  have found := (Resource.findOne_breaksOff (i := i) (w := w) r.kind (.byId r.id)).ensuring
    (Resource.findOne_picks (.id r.id))
  refine found.bind fun o w₁ h₁ => ?_
  obtain ⟨hw₁, hfound⟩ := h₁
  cases o with
  | none => exact BreaksOff.done trivial
  | some current =>
    obtain ⟨hmem, -, hid⟩ := hfound current rfl
    have hsame := (Ledger.tidy_of_documents ht).eq_of_id hmem hr (eq_of_beq hid)
    rw [← hw₁] at hmem agrees
    exact p.resend_breaksOff hmem (hsame ▸ hi) agrees

theorem takeStatus_breaksOff {r : Resource} (hr : r.card ∈ w.ledger.cards)
    (hi : r.card.key.identity = i) (agrees : w.ledger.AgreesOn i) (report : Wire.Report) :
    (p.takeStatus r report).BreaksOff i (fun _ _ => True) w := by
  unfold takeStatus
  split
  · exact p.resend_breaksOff hr hi agrees
  refine (Program.ofExcept_breaksOff report.observed).bind fun status w₁ h₁ => ?_
  rw [← h₁.1] at hr agrees
  have observed := (r.patchAtVersion_breaksOff (i := i) (w := w₁)
    (r.observe report status).observation).ensuring (Edit.ensures_same
      (e := ⟨r, .observe report status⟩) hr (fun _ _ _ _ h => by cases h) rfl)
  refine observed.bind fun hit w₂ h₂ => ?_
  rw [← h₂] at hr agrees
  split
  · exact (Program.emit_breaksOff .updated _).bind fun _ _ _ => BreaksOff.done trivial
  · exact p.resendChanged_breaksOff hr hi agrees

theorem takeError_breaksOff {r : Resource} (hr : r.card ∈ w.ledger.cards)
    (hi : r.card.key.identity = i) (agrees : w.ledger.AgreesOn i) (report : Wire.Report)
    (message : String) : (p.takeError r report message).BreaksOff i (fun _ _ => True) w := by
  unfold takeError
  split
  · exact p.resend_breaksOff hr hi agrees
  have failed := (r.patchAtVersion_breaksOff (i := i) (w := w) [.set ["sync_status"]
      (r.syncStatus.failed message report.timestamp).encode]).ensuring (Edit.ensures_same
    (e := ⟨r, .fail message report.timestamp⟩) hr (fun _ _ _ _ h => by cases h) rfl)
  refine failed.bind fun hit w₁ h₁ => ?_
  rw [← h₁] at hr agrees
  split
  · exact (Program.emit_breaksOff .updated _).bind fun _ _ _ => BreaksOff.done trivial
  · exact p.resendChanged_breaksOff hr hi agrees

theorem takeDeletion_breaksOff {r : Resource} (hr : r.card ∈ w.ledger.cards)
    (hi : r.card.key.identity = i) (agrees : w.ledger.AgreesOn i) (report : Wire.Report) :
    (p.takeDeletion r report).BreaksOff i (fun _ _ => True) w := by
  refine BreaksOff.tidy fun ht => ?_
  unfold takeDeletion
  split
  · have only : w.ledger.Only r.card.key :=
      Ledger.AgreesOn.only (hi ▸ agrees) ((Ledger.tidy_of_documents ht).card? hr)
    exact (Resource.remove_breaksOff hr hi only).bind fun _ _ _ => BreaksOff.done trivial
  · exact p.resend_breaksOff hr hi agrees

/-- To take in a report on a document breaks off. -/
theorem route_breaksOff (report : Wire.Report) {d : StoredDocument}
    (about : w.documents.documents.find?
      (·.matches? report.resourceKind.collection (.reported report)) = some d)
    (agrees : w.ledger.AgreesOn d.identity) :
    (p.route report).BreaksOff d.identity (fun _ _ => True) w := by
  unfold route
  split
  · have found := (Resource.findOne_breaksOff (i := d.identity) (w := w) report.resourceKind
      (.reported report)).ensuring (Resource.findOne_finds report.resourceKind (.reported report))
    refine found.bind fun o w₁ h₁ => ?_
    obtain ⟨hw₁, -, hcards⟩ := h₁
    rw [about, Option.map_some] at hcards
    obtain ⟨r, rfl, hcard⟩ := Option.map_eq_some_iff.1 hcards
    have hr : r.card ∈ w.ledger.cards := by
      rw [hcard]
      exact List.mem_map_of_mem (List.mem_of_find?_eq_some about)
    have hi : r.card.key.identity = d.identity := by
      rw [hcard]
      rfl
    rw [← hw₁] at hr agrees
    cases hkind : report.kind with
    | statusUpdate => exact p.takeStatus_breaksOff hr hi agrees report
    | deleteConfirmation => exact p.takeDeletion_breaksOff hr hi agrees report
    | applyError message => exact p.takeError_breaksOff hr hi agrees report message
  · exact BreaksOff.done trivial

end ControlPlane

/-! ## Operations -/

/-- Whether an operation is about a resource: it is to create or to update it, to send it once more,
or to take in a report on its document. -/
inductive Operation.Concerns (s : System) : Operation → Identity → Prop
  | create (user : User) (scope : Scope) (input : ResourceInput) :
    Concerns s (.create user scope input) (input.identity scope)
  | update (user : User) (scope : Scope) (input : ResourceInput) :
    Concerns s (.update user scope input) (input.identity scope)
  | resync (user : User) (kind : Kind) (scope : Scope) (name : String) :
    Concerns s (.resync user kind scope name) (scope.identity kind name)
  | report {operation : Operation} {report : Wire.Report} {d : StoredDocument}
    (reports : operation.report? = some report) (about : s.reported? report = some d) :
    Concerns s operation d.identity

/-- An operation breaks off where a call to the index fails. -/
theorem Operation.breaksOff {p : ControlPlane} {s : System} {operation : Operation}
    (concerns : operation.Concerns s i) (agrees : s.world.ledger.AgreesOn i) :
    (operation.program p).BreaksOff i (fun _ _ => True) s.world := by
  cases concerns with
  | create user scope input => exact (p.create_breaksOff user scope input agrees).map
  | update user scope input => exact (p.update_breaksOff user scope input agrees).map
  | resync user kind scope name => exact (p.resync_breaksOff user kind scope name agrees).map
  | @report operation report d reports about =>
    have routed := p.route_breaksOff report about agrees
    cases operation with
    | ingest payload =>
      have ingested : (p.ingest payload).BreaksOff d.identity (fun _ _ => True) s.world := by
        unfold ControlPlane.ingest
        cases hread : ControlPlane.readReport payload with
        | error e => rw [report?, hread] at reports; cases reports
        | ok report' =>
          rw [report?, hread] at reports
          obtain rfl := Option.some.inj reports
          exact routed
      exact ingested.map
    | route report' =>
      obtain rfl := Option.some.inj reports
      exact routed.map
    | _ => cases reports

end FleetSync
