import FleetSync.Proofs.Interleaving.Creation
import FleetSync.Proofs.Mapping.Ledger
import FleetSync.Proofs.Sequence.Ensures

/-!
# What single calls ensure

Each call by what it does to the ledger. What only looks leaves the ledger as it is, and so does
what fails (`World.ledger_of_reads`, `World.ledger_of_failed`). What is read has a card of the
ledger (`Resource.findOne_ensures`), and of a scope all members are read
(`Resource.members_ensures`). An edit puts the card it works out in the place of the one that was
read (`Edit.ensures`).
-/

namespace FleetSync

/-- Whether a call only looks. -/
def Call.isRead : Call → Bool
  | .now | .freshId | .authorize .. | .findOne .. | .find .. | .resolve _ | .emit _ => true
  | _ => false

/-- Whether a call is served only if it does not fail. -/
def Call.isDue : Call → Bool
  | .now | .freshId | .authorize .. | .insert _ | .publish .. | .emit _ => false
  | _ => true

/-- If a call fails that is served only if it does not, then there are faults. -/
theorem Exchange.faults_of_failed {faults : Prop} {c : Call} {a : c.Answer} {e : OpError}
    (served : faults ∨ Exchange.isServed ⟨c, a⟩ = true) (due : c.isDue = true)
    (failed : c.failure? e = some a) : faults := by
  refine served.resolve_right fun h => ?_
  cases c with
  | now | freshId | authorize | insert | publish | emit => cases due
  | _ =>
    obtain rfl := Option.some.inj failed
    cases h

namespace World

theorem SameStores.ledger {w w' : World} (h : w.SameStores w') : w'.ledger = w.ledger := by
  rw [World.ledger, World.ledger, h.documents, h.mappings, h.bus]

variable (x : Circumstances) (w : World)

theorem ledger_of_reads {c : Call} (h : c.isRead = true) :
    (w.reply x c).2.ledger = w.ledger := by
  rcases w.reply_answered x c with hw | same
  · rw [hw]
    cases c <;> first | rfl | cases h
  · exact same.ledger

theorem ledger_of_failed {c : Call} {e : OpError} (h : c.failure? e = some (w.reply x c).1) :
    (w.reply x c).2.ledger = w.ledger := (w.reply_failed x h).ledger

/-- A call that did not fail was answered by the world. -/
theorem reply_of_not_failed {c : Call} (hc : c ≠ .freshId)
    (h : ∀ e, c.failure? e ≠ some (w.reply x c).1) :
    w.reply x c = World.answer (fun _ _ _ => x.permission) c { w with clock := x.time } := by
  rcases w.reply_cases x c with hw | ⟨⟨e, he⟩, -⟩ | ⟨hc', -⟩
  · exact hw
  · exact absurd he (h e)
  · exact absurd hc' hc

/-! What a call to the store does that did not fail. -/

theorem insert_of_reply {d : Document} {u : Unit} (h : (w.reply x (.insert d)).1 = .ok u) :
    ∃ documents, w.documents.insert d = .ok documents ∧
      (w.reply x (.insert d)).2 = { w with documents, clock := x.time } := by
  have hreply := w.reply_of_not_failed x (c := .insert d) nofun
    fun e he => by rw [h] at he; cases he
  rw [hreply] at h ⊢
  simp only [answer] at h ⊢
  split at h
  · exact ⟨_, ‹_›, rfl⟩
  · cases h

theorem patchOne_of_reply {collection : String} {filter : Filter} {patch : Patch} {hit : Bool}
    (h : (w.reply x (.patchOne collection filter patch)).1 = .ok hit) :
    ∃ documents, w.documents.patchOne collection filter patch = .ok (hit, documents) ∧
      (w.reply x (.patchOne collection filter patch)).2 =
        { w with documents, clock := x.time } := by
  have hreply := w.reply_of_not_failed x (c := .patchOne collection filter patch) nofun
    fun e he => by rw [h] at he; cases he
  rw [hreply] at h ⊢
  simp only [answer] at h ⊢
  split at h
  · obtain rfl := Except.ok.inj h
    exact ⟨_, ‹_›, rfl⟩
  · cases h

theorem deleteOne_of_reply {collection : String} {filter : Filter} {hit : Bool}
    (h : (w.reply x (.deleteOne collection filter)).1 = .ok hit) :
    ∃ documents, w.documents.deleteOne collection filter = .ok (hit, documents) ∧
      (w.reply x (.deleteOne collection filter)).2 = { w with documents, clock := x.time } := by
  have hreply := w.reply_of_not_failed x (c := .deleteOne collection filter) nofun
    fun e he => by rw [h] at he; cases he
  rw [hreply] at h ⊢
  simp only [answer] at h ⊢
  split at h
  · obtain rfl := Except.ok.inj h
    exact ⟨_, ‹_›, rfl⟩
  · cases h

theorem deleteMany_of_reply {collection : String} {filter : Filter} {n : Nat}
    (h : (w.reply x (.deleteMany collection filter)).1 = .ok n) :
    ∃ documents, w.documents.deleteMany collection filter = .ok (n, documents) ∧
      (w.reply x (.deleteMany collection filter)).2 = { w with documents, clock := x.time } := by
  have hreply := w.reply_of_not_failed x (c := .deleteMany collection filter) nofun
    fun e he => by rw [h] at he; cases he
  rw [hreply] at h ⊢
  simp only [answer] at h ⊢
  split at h
  · obtain rfl := Except.ok.inj h
    exact ⟨_, ‹_›, rfl⟩
  · cases h

theorem ledger_with_documents {documents : DocumentStore} {cards : List Card} {clock : Instant}
    (h : documents.cards = cards) :
    { w with documents, clock }.ledger = { w.ledger with cards } := by
  rw [ledger, h]
  rfl

end World

namespace Program

variable {faults : Prop} {bad : OpError → World → Prop} {w : World}

/-! ## Calls that only look -/

theorem ofExcept_ensures {α : Type} (r : Except OpError α)
    (hbad : ∀ e w', w'.ledger = w.ledger → bad e w') :
    Ensures faults (fun a w' => w'.ledger = w.ledger ∧ r = .ok a) bad (ofExcept r) w :=
  Ensures.known (fun _ h => ⟨rfl, h⟩) fun e _ => .inr (hbad e w rfl)

theorem now_ensures : Ensures faults (fun _ w' => w'.ledger = w.ledger) bad now w :=
  Ensures.single fun _ x _ => w.ledger_of_reads x rfl

theorem freshId_ensures : Ensures faults (fun _ w' => w'.ledger = w.ledger) bad freshId w :=
  Ensures.single fun _ x _ => w.ledger_of_reads x rfl

theorem emit_ensures (kind : EventKind) (r : Resource) :
    Ensures faults (fun _ w' => w'.ledger = w.ledger) bad (emit kind r) w :=
  Ensures.single fun _ x _ => w.ledger_of_reads x rfl

theorem authorize_ensures (userId : String) (resource : ResourceRef) (permission : Permission)
    (hbad : ∀ e w', w'.ledger = w.ledger → bad e w') :
    Ensures faults (fun _ w' => w'.ledger = w.ledger) bad
      (authorize userId resource permission) w := by
  refine Ensures.single fun _ x _ => ?_
  have hledger := w.ledger_of_reads x (c := .authorize userId resource permission) rfl
  generalize Checker.verdict userId resource permission _ = r
  cases r with
  | ok a => exact hledger
  | error e => exact .inr (hbad e _ hledger)

theorem resolve_ensures (s : Scope) :
    Ensures faults (fun o w' => o = (MappingIndex.mk w.ledger.rows).resolve s ∧
      w'.ledger = w.ledger) bad (resolve s) w := by
  refine Ensures.single fun _ x hx => ?_
  have hledger := w.ledger_of_reads x (c := .resolve s) rfl
  have hreply := w.reply_of_not_failed x (c := .resolve s)
  cases ha : (w.reply x (.resolve s)).1 with
  | error e => exact .inl (Exchange.faults_of_failed hx rfl (congrArg some ha.symm))
  | ok o =>
    have hreply := hreply nofun fun e he => by rw [ha] at he; cases he
    rw [hreply] at ha
    exact ⟨(Except.ok.inj ha).symm, hledger⟩

theorem findOne_ensures (collection : String) (filter : Filter) :
    Ensures faults (fun o w' => w'.ledger = w.ledger ∧
      w.documents.findOne collection filter = .ok o ∧ ∀ j, o = some j →
        (faults ∨ Exchange.isLegible collection j = true)) bad (findOne collection filter) w := by
  refine Ensures.single fun _ x hx => ?_
  have hledger := w.ledger_of_reads x (c := .findOne collection filter) rfl
  have hreply := w.reply_of_not_failed x (c := .findOne collection filter)
  cases ha : (w.reply x (.findOne collection filter)).1 with
  | error e => exact .inl (Exchange.faults_of_failed hx rfl (congrArg some ha.symm))
  | ok o =>
    have hreply := hreply nofun fun e he => by rw [ha] at he; cases he
    rw [hreply] at ha
    refine ⟨hledger, ha, fun j hj => ?_⟩
    subst hj
    rw [← hreply] at ha
    simpa [Exchange.isServed, ha] using hx

theorem find_ensures (collection : String) (filter : Filter) :
    Ensures faults (fun js w' => w'.ledger = w.ledger ∧
      w.documents.find collection filter = .ok js ∧
        (faults ∨ js.all (Exchange.isLegible collection) = true)) bad
      (find collection filter) w := by
  refine Ensures.single fun _ x hx => ?_
  have hledger := w.ledger_of_reads x (c := .find collection filter) rfl
  have hreply := w.reply_of_not_failed x (c := .find collection filter)
  cases ha : (w.reply x (.find collection filter)).1 with
  | error e => exact .inl (Exchange.faults_of_failed hx rfl (congrArg some ha.symm))
  | ok js =>
    have hreply := hreply nofun fun e he => by rw [ha] at he; cases he
    refine ⟨hledger, ?_, by simpa only [Exchange.isServed, ha] using hx⟩
    rw [hreply] at ha
    exact ha

/-! ## Calls to the index and the bus -/

theorem upsert_ensures (r : Resource) (cluster : String) :
    Ensures faults (fun _ w' => w'.ledger = { w.ledger with
      rows := Ledger.fileIn w.ledger.rows r.mappingKey (some cluster) }) bad
      (upsert (r.mapping cluster)) w := by
  refine Ensures.single fun _ x hx => ?_
  have hreply := w.reply_of_not_failed x (c := .upsert (r.mapping cluster))
  cases ha : (w.reply x (.upsert (r.mapping cluster))).1 with
  | error e => exact .inl (Exchange.faults_of_failed hx rfl (congrArg some ha.symm))
  | ok u =>
    have hreply := hreply nofun fun e he => by rw [ha] at he; cases he
    rw [hreply] at ha ⊢
    simp only [World.answer] at ha ⊢
    split at ha
    · rename_i mappings hm
      rw [MappingIndex.upsert, MappingIndex.insert] at hm
      split at hm
      · cases hm
      · obtain rfl := Except.ok.inj hm
        rfl
    · cases ha

theorem removeMapping_ensures (k : MappingKey) :
    Ensures faults (fun _ w' => w'.ledger = { w.ledger with
      rows := Ledger.fileIn w.ledger.rows k none }) bad (removeMapping k) w := by
  refine Ensures.single fun _ x hx => ?_
  have hreply := w.reply_of_not_failed x (c := .removeMapping k)
  cases ha : (w.reply x (.removeMapping k)).1 with
  | error e => exact .inl (Exchange.faults_of_failed hx rfl (congrArg some ha.symm))
  | ok n =>
    rw [hreply nofun fun e he => by rw [ha] at he; cases he]
    rfl

theorem removeScope_ensures (s : Scope) :
    Ensures faults (fun _ w' => w'.ledger = { w.ledger with
      rows := w.ledger.rows.filter (!·.inScope s) }) bad (removeScope s) w := by
  refine Ensures.single fun _ x hx => ?_
  have hreply := w.reply_of_not_failed x (c := .removeScope s)
  cases ha : (w.reply x (.removeScope s)).1 with
  | error e => exact .inl (Exchange.faults_of_failed hx rfl (congrArg some ha.symm))
  | ok n =>
    rw [hreply nofun fun e he => by rw [ha] at he; cases he]
    rfl

theorem reassignScope_ensures (s : Scope) (cluster : String) :
    Ensures faults (fun _ w' => w'.ledger = { w.ledger with
      rows := w.ledger.rows.map fun r => if r.inScope s then { r with cluster } else r }) bad
      (reassignScope s cluster) w := by
  refine Ensures.single fun _ x hx => ?_
  have hreply := w.reply_of_not_failed x (c := .reassignScope s cluster)
  cases ha : (w.reply x (.reassignScope s cluster)).1 with
  | error e => exact .inl (Exchange.faults_of_failed hx rfl (congrArg some ha.symm))
  | ok n =>
    rw [hreply nofun fun e he => by rw [ha] at he; cases he]
    rfl

theorem publish_ensures (topic key : String) (payload : ByteArray)
    (hbad : ∀ e w', w'.ledger = w.ledger → bad e w') :
    Ensures faults (fun _ w' => w'.ledger = w.ledger.post topic key payload) bad
      (publish topic key payload) w := by
  refine Ensures.single fun _ x _ => ?_
  have hreply := w.reply_of_not_failed x (c := .publish topic key payload)
  have hfailed := fun e => w.ledger_of_failed x (c := .publish topic key payload) (e := e)
  cases ha : (w.reply x (.publish topic key payload)).1 with
  | error e => exact .inr (hbad e _ (hfailed e (congrArg some ha.symm)))
  | ok n =>
    rw [hreply nofun fun e he => by rw [ha] at he; cases he]
    rfl

/-! ## Calls to the store -/

theorem insert_ensures (r : Resource) (hbad : ∀ e w', w'.ledger = w.ledger → bad e w') :
    Ensures faults (fun _ w' => w'.ledger = { w.ledger with cards := w.ledger.cards ++ [r.card] })
      bad (insert r.document) w := by
  refine Ensures.single fun _ x _ => ?_
  have hfailed := fun e => w.ledger_of_failed x (c := .insert r.document) (e := e)
  cases ha : (w.reply x (.insert r.document)).1 with
  | error e => exact .inr (hbad e _ (hfailed e (congrArg some ha.symm)))
  | ok u =>
    obtain ⟨documents, hd, hw⟩ := w.insert_of_reply x ha
    exact hw ▸ World.ledger_with_documents w (DocumentStore.Tidy.insert hd)

theorem deleteOne_ensures {r : Resource} (hr : r.card ∈ w.ledger.cards) :
    Ensures faults (fun _ w' => w'.ledger = { w.ledger with
      cards := w.ledger.cards.filter fun d => decide (d.id ≠ r.id) }) bad
      (deleteOne r.kind.collection (.byId r.id)) w := by
  refine Ensures.single fun ht x hx => ?_
  cases ha : (w.reply x (.deleteOne r.kind.collection (.byId r.id))).1 with
  | error e => exact .inl (Exchange.faults_of_failed hx rfl (congrArg some ha.symm))
  | ok hit =>
    obtain ⟨documents, hd, hw⟩ := w.deleteOne_of_reply x ha
    exact hw ▸ World.ledger_with_documents w (ht.deleteOne hr hd)

theorem deleteMany_ensures {kind : Kind} {filter : Filter} {test : Card → Bool}
    (picks : filter.Picks kind test) :
    Ensures faults (fun _ w' => w'.ledger = { w.ledger with
      cards := w.ledger.cards.filter fun c => !(decide (c.key.kind = kind) && test c) }) bad
      (deleteMany kind.collection filter) w := by
  refine Ensures.single fun ht x hx => ?_
  cases ha : (w.reply x (.deleteMany kind.collection filter)).1 with
  | error e => exact .inl (Exchange.faults_of_failed hx rfl (congrArg some ha.symm))
  | ok n =>
    obtain ⟨documents, hd, hw⟩ := w.deleteMany_of_reply x ha
    exact hw ▸ World.ledger_with_documents w (ht.deleteMany picks hd)

end Program

open Program (Ensures)

variable {faults : Prop} {bad : OpError → World → Prop} {w : World}

/-- An edit replaces the card of the resource it goes by, unless it is bound to a version. -/
theorem Edit.ensures {e : Edit} (hcur : e.current.card ∈ w.ledger.cards)
    (hkind : ∀ input user time cluster, e.change = .revise input user time cluster →
      e.current.kind = input.kind) :
    Ensures faults (fun hit w' =>
      (hit = true ∧ w'.ledger = { w.ledger with
        cards := (e.cardOf e.current.card).replaceIn w.ledger.cards }) ∨
      (hit = false ∧ e.isGuarded = true ∧ w'.ledger = w.ledger)) bad
      (Program.patchOne e.current.kind.collection e.filter (.ofFields e.changes)) w := by
  refine Ensures.single fun ht x hx => ?_
  cases ha : (w.reply x
      (.patchOne e.current.kind.collection e.filter (.ofFields e.changes))).1 with
  | error e => exact .inl (Exchange.faults_of_failed hx rfl (congrArg some ha.symm))
  | ok hit =>
    obtain ⟨documents, hd, hw⟩ := w.patchOne_of_reply x ha
    rw [hw]
    rcases ht.patch hcur hkind hd with ⟨rfl, hcards⟩ | ⟨rfl, hg, rfl⟩
    · exact .inl ⟨rfl, World.ledger_with_documents w hcards⟩
    · exact .inr ⟨rfl, hg, rfl⟩

namespace Resource

/-- What is found has the card of the first document that meets the filter. -/
theorem findOne_finds (kind : Kind) (filter : Filter) :
    Ensures faults (fun o w' => w'.ledger = w.ledger ∧ (∀ r, o = some r → r.kind = kind) ∧
      o.map (·.card) = (w.documents.documents.find? (·.matches? kind.collection filter)).map
        (·.card)) bad (findOne kind filter) w := by
  refine Ensures.tidy fun ht => ?_
  refine (Program.findOne_ensures kind.collection filter).bind fun o w' h => ?_
  obtain ⟨hledger, hfound, hlegible⟩ := h
  cases o with
  | none =>
    refine Ensures.done ⟨hledger, (fun r hr => nomatch hr), ?_⟩
    rw [DocumentStore.find?_of_findOne_none hfound]
    rfl
  | some j =>
    obtain ⟨d, hd, hj⟩ := DocumentStore.find?_of_findOne hfound
    have decoded : Ensures faults (fun r w'' => w''.ledger = w.ledger ∧
        Resource.ofDocument kind j = .ok r) bad (Program.ofExcept (ofDocument kind j)) w' := by
      refine Ensures.known (fun r hr => ⟨hledger, hr⟩) fun e he => .inl ?_
      refine (hlegible j rfl).resolve_right fun hl => ?_
      obtain ⟨r, hr⟩ := Exchange.isOk_of_isLegible hl
      rw [hr] at he
      cases he
    refine decoded.bind fun r w'' h => ?_
    have hmatch := List.find?_some hd
    have hcol := DocumentStore.collection_of_matches? hmatch
    obtain ⟨hcard, hkind⟩ := ht.card_of_read (List.mem_of_find?_eq_some hd) hcol hj h.2
    refine Ensures.done ⟨h.1, fun r' hr' => Option.some.inj hr' ▸ hkind, ?_⟩
    rw [hd, Option.map_some, Option.map_some, hcard]

/-- A resource that is found has a card of the ledger. -/
theorem findOne_ensures (kind : Kind) (filter : Filter) :
    Ensures faults (fun o w' => w'.ledger = w.ledger ∧ ∀ r, o = some r →
      r.card ∈ w.ledger.cards ∧ r.kind = kind) bad (findOne kind filter) w := by
  refine (findOne_finds kind filter).mono (fun o w' h => ?_) fun _ _ h => h
  obtain ⟨hledger, hkind, hcard⟩ := h
  refine ⟨hledger, fun r hr => ⟨?_, hkind r hr⟩⟩
  rw [hr, Option.map_some] at hcard
  obtain ⟨d, hd, hcard⟩ := Option.map_eq_some_iff.1 hcard.symm
  exact hcard ▸ List.mem_map_of_mem (List.mem_of_find?_eq_some hd)

theorem findAll_ensures (kind : Kind) (filter : Filter) :
    Ensures faults (fun rs w' => w'.ledger = w.ledger ∧
      (rs.map (·.card)).Sublist w.ledger.cards ∧ (∀ r ∈ rs, r.kind = kind) ∧
      ∀ test, filter.Picks kind test → rs.map (·.card) =
        w.ledger.cards.filter fun c => decide (c.key.kind = kind) && test c) bad
      (findAll kind filter) w := by
  refine Ensures.tidy fun ht => ?_
  refine (Program.find_ensures kind.collection filter).bind fun js w' h => ?_
  obtain ⟨hledger, hfound, hlegible⟩ := h
  refine Ensures.known (fun rs hrs => ?_) fun e he => .inl ?_
  · obtain ⟨hsub, hkinds⟩ := ht.find_sublist hfound hrs
    exact ⟨hledger, hsub, hkinds, fun test picks => ht.find picks hfound hrs⟩
  · refine hlegible.resolve_right fun hall => ?_
    have legible : ∀ js : List Json, js.all (Exchange.isLegible kind.collection) = true →
        ∃ rs, js.mapM (ofDocument kind) = .ok rs := by
      intro js
      induction js with
      | nil => exact fun _ => ⟨[], rfl⟩
      | cons j rest ih =>
        intro hall
        rw [List.all_cons, Bool.and_eq_true] at hall
        obtain ⟨r, hr⟩ := Exchange.isOk_of_isLegible hall.1
        obtain ⟨rs, hrs⟩ := ih hall.2
        exact ⟨r :: rs, by rw [List.mapM_cons, hr, hrs]; rfl⟩
    obtain ⟨rs, hrs⟩ := legible js hall
    rw [hrs] at he
    cases he

/-- Cards that are read one by one have ids of their own. -/
theorem nodup_ids {l : Ledger} (h : l.Tidy) {rs : List Resource}
    (hs : (rs.map (·.card)).Sublist l.cards) : (rs.map (·.id)).Nodup := by
  have hids := h.ids.sublist (hs.map (·.id))
  rwa [List.map_map] at hids

theorem get_ensures (kind : Kind) (s : Scope) (name : String)
    (hbad : ∀ e w', w'.ledger = w.ledger → bad e w') :
    Ensures faults (fun r w' => w'.ledger = w.ledger ∧ r.card ∈ w.ledger.cards ∧ r.kind = kind) bad
      (get kind s name) w := by
  refine (findOne_ensures kind (.named s name)).bind fun o w' h => ?_
  cases o with
  | none => exact Ensures.fail (.inr (hbad _ _ h.1))
  | some r => exact Ensures.done ⟨h.1, h.2 r rfl⟩

/-- Of a scope all members of a kind are found. -/
theorem members_ensures (kind : Kind) (s : Scope) :
    Ensures faults (fun rs w' => w'.ledger = w.ledger ∧ rs.map (·.card) =
      w.ledger.cards.filter fun c => decide (c.key.kind = kind) && s.takes c.key) bad
      (members kind s) w := by
  unfold members
  split
  · rename_i filter hf
    refine (findAll_ensures kind filter).mono (fun rs w' h => ?_) fun _ _ h => h
    exact ⟨h.1, h.2.2.2 _ (Filter.Picks.members hf)⟩
  · rename_i hnone
    refine Ensures.done ⟨rfl, ?_⟩
    have hall : ∀ c ∈ w.ledger.cards, ¬ (decide (c.key.kind = kind) && s.takes c.key) = true := by
      intro c _ hc
      obtain ⟨hk, htakes⟩ := (Bool.and_eq_true ..).mp hc
      obtain rfl := of_decide_eq_true hk
      rw [Filter.not_takes_of_members? hnone] at htakes
      cases htakes
    rw [List.filter_eq_nil_iff.2 hall]
    rfl

end Resource

end FleetSync
