import FleetSync.Proofs.Sequence.HonestCalls
import FleetSync.Proofs.Store.Writing
import Mathlib.Data.List.Find

/-!
# What calls make of the stores

The stores of a world are its documents, mappings, messages and events (`World.stores`). Here it is
said of each call what it makes of all of them, where every call is served and publications end as
it is said, in a fault or without one (`Exchange.MeetsWith`). What is found is the first document
that a filter picks (`DocumentStore.Tidy.findOne`), and an edit of it puts the edited resource in
its place (`Edit.does`).
-/

namespace FleetSync

/-- What a world holds. -/
structure Stores where
  documents : List StoredDocument
  rows : List MappingRow
  bus : MemoryBus
  events : List Event

/-- The documents, mappings, messages and events of a world. -/
def World.stores (w : World) : Stores := ⟨w.documents.documents, w.mappings.rows, w.bus, w.events⟩

namespace Stores

variable (s : Stores)

/-- The stores with a resource in the place of the one with its id. -/
def put (r : Resource) : Stores :=
  { s with documents := s.documents.map fun d => if d.id = r.id then r.stored else d }

/-- The stores without a resource and its mapping. -/
def drop (r : Resource) : Stores :=
  { s with
    documents := s.documents.filter fun d => decide (d.id ≠ r.id)
    rows := Ledger.fileIn s.rows r.mappingKey none }

/-- The stores with a resource on a cluster, or on none. Its mapping follows if that is another one
than before. -/
def moveTo (r : Resource) (cluster : Option String) : Stores :=
  if cluster = r.clusterName then s
  else
    { s.put { r with clusterName := cluster } with
      rows := Ledger.fileIn s.rows r.mappingKey cluster }

/-- The stores with a message published. -/
def post (topic key : String) (payload : ByteArray) : Stores :=
  { s with bus := (s.bus.publish topic key payload).2 }

/-- The stores with an event of a resource told. -/
def tell (kind : EventKind) (r : Resource) : Stores :=
  { s with events := s.events ++ [.of kind r] }

theorem documents_put (r : Resource) : (s.put r).documents =
    s.documents.map fun d => if d.id = r.id then r.stored else d := rfl

theorem documents_drop (r : Resource) : (s.drop r).documents =
    s.documents.filter fun d => decide (d.id ≠ r.id) := rfl

theorem documents_tell (kind : EventKind) (r : Resource) :
    (s.tell kind r).documents = s.documents := rfl

end Stores

theorem System.stores_documents (s : System) : s.world.stores.documents = s.documents := rfl

theorem World.SameStores.stores {w w' : World} (h : w.SameStores w') : w'.stores = w.stores := by
  rw [World.stores, World.stores, h.documents, h.mappings, h.bus, h.events]

/-! ## Documents as they are found -/

/-- What a read resource has of the stored one that it was read from. -/
structure Resource.ReadBack (r read : Resource) : Prop extends r.Resembles read where
  readable : r.stored.body.isReadable = true
  shows : r.stored.Shows read

namespace Resource

variable {r read : Resource}

/-- A stored resource is found by its id. -/
theorem matches_byId (readable : r.stored.body.isReadable = true) :
    r.stored.matches? r.kind.collection (.byId r.id) = true := by
  have hid := Condition.holds?_text (r := r) (n := "id") (o := some r.id) (some r.id)
    (by decide) rfl
  rw [if_pos readable, beq_self_eq_true] at hid
  rw [StoredDocument.matches?, Bool.and_eq_true]
  exact ⟨beq_self_eq_true _, beq_iff_eq.2 (Filter.holds?_cons.2 ⟨hid, rfl⟩)⟩

/-- A stored resource is found by its id and its version, if that fits in 64 bits. -/
theorem matches_byIdAt (readable : r.stored.body.isReadable = true)
    (least : -(Nat.pow 2 63 : Int) ≤ r.recordVersion)
    (greatest : r.recordVersion ≤ (Nat.pow 2 63 - 1 : Nat)) :
    r.stored.matches? r.kind.collection (.byIdAt r.id r.recordVersion) = true := by
  have hat := r.at?_stored (by decide : "record_version" ∈ storedNames) []
  have hint : Scalar.ofInt r.recordVersion = .int r.recordVersion := by
    have hlt : r.recordVersion < (Nat.pow 2 63 : Int) := Int.lt_of_le_sub_one greatest
    rw [Scalar.ofInt, if_pos ⟨least, hlt⟩]
  have hversion : (Condition.eq ["record_version"] (.ofInt r.recordVersion)).holds? r.stored.body =
      some true := by
    rw [Condition.holds?, if_pos (by rw [readable]; rfl), Condition.path, hat]
    have hself : (Scalar.ofInt r.recordVersion).same (.ofInt r.recordVersion) = true := by
      rw [hint]
      exact beq_self_eq_true r.recordVersion
    exact congrArg some hself
  have hid := matches_byId readable
  rw [StoredDocument.matches?, Bool.and_eq_true, beq_iff_eq] at hid ⊢
  obtain ⟨hcol, hid⟩ := hid
  refine ⟨hcol, beq_iff_eq.2 (Filter.holds?_cons.2 ⟨(Filter.holds?_cons.1 (eq_of_beq hid)).1, ?_⟩)⟩
  exact Filter.holds?_cons.2 ⟨hversion, rfl⟩

end Resource

/-- An edit of a resource as it was read finds it, while the version is the one that was read. -/
theorem Edit.matches_readBack {e : Edit} {r : Resource} (h : r.ReadBack e.current) :
    r.stored.matches? e.current.kind.collection e.filter = true := by
  rw [filter, h.kind, h.id, h.recordVersion]
  split
  · exact Resource.matches_byIdAt h.readable h.least h.greatest
  · exact Resource.matches_byId h.readable

theorem mapM_cons_eq_ok {ε α β : Type} {f : α → Except ε β} {a : α} {rest : List α} {bs : List β}
    (h : (a :: rest).mapM f = .ok bs) :
    ∃ b bs', f a = .ok b ∧ rest.mapM f = .ok bs' ∧ bs = b :: bs' := by
  rw [List.mapM_cons] at h
  cases ha : f a with
  | error e => rw [ha] at h; cases h
  | ok b =>
    cases hrest : rest.mapM f with
    | error e => rw [ha, hrest] at h; cases h
    | ok bs' =>
      rw [ha, hrest] at h
      exact ⟨b, bs', rfl, rfl, (Except.ok.inj h).symm⟩

/-- An edit of values that can be read is made, whatever becomes of the document. -/
theorem DocumentStore.patchOne_edit {s : DocumentStore} {e : Edit} {r : Resource}
    {test : StoredDocument → Bool} (hkind : (e.apply r).kind = r.kind)
    (ht : s.selectOne e.current.kind.collection e.filter = .ok test)
    (hd : s.documents.find? test = some r.stored)
    (askable : (Patch.ofFields e.changes).isAskable = true)
    (hv : ∀ c ∈ e.changes, (Body.ofJson c.2.canonical).isReadable = true) :
    ∃ s', s.patchOne e.current.kind.collection e.filter (.ofFields e.changes) = .ok (true, s') ∧
      (e.apply r).stored ∈ s'.documents := by
  have hmatch := matches?_of_find? ht hd
  have hread : r.stored.body.isReadable = true := by
    rw [StoredDocument.matches?, Bool.and_eq_true] at hmatch
    have hholds := eq_of_beq hmatch.2
    rw [Edit.filter] at hholds
    split at hholds <;> exact Filter.isReadable_of_holds? hholds
  rw [r.stored_body] at hread
  have happly := Patch.applyTo?_eq Resource.fieldNames_stored e.names_stored
    e.changes_ne_nil hv hread Resource.forgottenSize_lt
  rw [← r.stored_body] at happly
  have hstored := e.stored_apply hkind happly
  obtain ⟨l, l', hl, hm⟩ := modifyFirst_eq (fun d => { d with
    body := .ofJson (.record Resource.storedNames
      (Patch.setFields (fun n => (r.field n).canonical) e.changes)) }) hd
  refine ⟨⟨l ++ (e.apply r).stored :: l'⟩, ?_, List.mem_append_right _ (List.mem_cons_self ..)⟩
  have hne : (Patch.ofFields e.changes).isEmpty = false := by
    rw [Patch.ofFields, List.isEmpty_map, List.isEmpty_eq_false_iff]
    exact e.changes_ne_nil
  rw [patchOne, if_neg (by rw [hne]; decide), if_neg (by rw [askable]; decide), ht]
  simp only [bind, Except.bind, hd, happly, hm, hstored, pure, Except.pure]

namespace DocumentStore.Tidy

variable {s s' : DocumentStore}

/-- What is found is the first document of the kind that a filter picks. -/
theorem findOne (h : s.Tidy) {kind : Kind} {f : Filter} {test : Card → Bool}
    (picks : f.Picks kind test) {o : Option Json} (ho : s.findOne kind.collection f = .ok o) :
    match s.documents.find? fun d => decide (d.card.key.kind = kind) && test d.card with
    | none => o = none
    | some d => d.matches? kind.collection f = true ∧ ∃ j, o = some j ∧ d.read = .ok j := by
  have hfind : s.documents.find? (fun d => decide (d.card.key.kind = kind) && test d.card) =
      s.documents.find? (·.matches? kind.collection f) := by
    unfold DocumentStore.findOne at ho
    cases ht : s.selectAll kind.collection f with
    | error e => rw [ht] at ho; cases ho
    | ok select =>
      obtain rfl := selectAll_eq_ok ht
      exact List.find?_congr fun d hd => (h.selects picks (select_of_selectAll ht) hd).symm
  rw [hfind]
  cases o with
  | none => rw [find?_of_findOne_none ho]
  | some j =>
    obtain ⟨d, hd, hj⟩ := find?_of_findOne ho
    rw [hd]
    have hm := List.find?_some hd
    exact ⟨hm, j, rfl, hj⟩

/-- What is found are the documents that a filter selects, in their order, as they are read. -/
theorem finds (h : s.Tidy) {kind : Kind} {c : Condition} {rest : Filter} {js : List Json}
    {rs : List Resource} (hj : s.find kind.collection (c :: rest) = .ok js)
    (hr : js.mapM (Resource.ofDocument kind) = .ok rs) :
    List.Forall₂ (fun d read => ∃ r : Resource, r.stored = d ∧ r.ReadBack read)
      (s.documents.filter (·.matches? kind.collection (c :: rest))) rs := by
  unfold DocumentStore.find at hj
  cases ht : s.selectAll kind.collection (c :: rest) with
  | error e => rw [ht] at hj; cases hj
  | ok select =>
    rw [ht, selectAll_eq_ok ht] at hj
    have readings : ∀ docs : List StoredDocument,
        (∀ d ∈ docs, d ∈ s.documents ∧ d.matches? kind.collection (c :: rest) = true) →
        ∀ {js rs}, docs.mapM (·.read) = .ok js → js.mapM (Resource.ofDocument kind) = .ok rs →
          List.Forall₂ (fun d read => ∃ r : Resource, r.stored = d ∧ r.ReadBack read) docs rs := by
      intro docs
      induction docs with
      | nil =>
        intro _ js rs hj hr
        cases hj
        cases hr
        exact .nil
      | cons d docs ih =>
        intro hall js rs hj hr
        obtain ⟨⟨hd, hm⟩, hothers⟩ := List.forall_mem_cons.1 hall
        obtain ⟨j, js', hread, hjs, rfl⟩ := mapM_cons_eq_ok hj
        obtain ⟨read, rs', hdec, hrs, rfl⟩ := mapM_cons_eq_ok hr
        obtain ⟨r, -, rfl⟩ := h.sound d hd
        have hkind : r.kind = kind := Kind.collection_inj (collection_of_matches? hm)
        have holds := (Bool.and_eq_true_iff.1 hm).2
        exact .cons ⟨r, rfl, Resource.resembles_of_read hkind hread hdec,
          Filter.isReadable_of_holds? (eq_of_beq holds),
          Resource.shows_of_read hkind hread hdec⟩ (ih hothers hjs hrs)
    exact readings _ (fun d hd => List.mem_filter.1 hd) hj hr

/-- An edit of a resource that is stored puts the edited resource in its place, if it finds it. -/
theorem edited_or_missed (h : s.Tidy) {e : Edit} {r : Resource} {hit : Bool}
    (hr : r.stored ∈ s.documents) (hid : r.id = e.current.id) (hkind : (e.apply r).kind = r.kind)
    (hs : s.patchOne e.current.kind.collection e.filter (.ofFields e.changes) = .ok (hit, s')) :
    (hit = true ∧
      s'.documents = s.documents.map fun d => if d.id = r.id then (e.apply r).stored else d) ∨
    (s.selectOne e.current.kind.collection e.filter =
        .ok (·.matches? e.current.kind.collection e.filter) ∧
      r.stored.matches? e.current.kind.collection e.filter ≠ true) := by
  have hne : (Patch.ofFields e.changes).isEmpty = false := by
    rcases e with ⟨current, change⟩
    cases change <;> rfl
  rcases patchOne_eq_ok hs with ⟨hkeep, rfl⟩ | ⟨l, d, l', body, hd, hm, hb, hhit, hs'⟩
  · -- An edit that finds nothing has not seen the resource either.
    have hhit : hit = false := hkeep.resolve_left fun he => Bool.false_ne_true (hne.symm.trans he)
    obtain ⟨select, ht, hnone⟩ := none_of_patchOne_eq_ok hne (hhit ▸ hs)
    obtain rfl := selectOne_eq_ok ht
    exact .inr ⟨ht, List.find?_eq_none.1 hnone _ hr⟩
  · have hmem : d ∈ s.documents := hd ▸ by simp
    have hid : d.id = r.id := by
      obtain ⟨r', -, rfl⟩ := h.sound d hmem
      exact (Edit.target_of_matches? hm).2.trans hid.symm
    obtain rfl : d = r.stored := List.inj_on_of_nodup_map h.ids hmem hr hid
    rw [e.stored_apply hkind hb] at hs'
    have hids := h.ids
    rw [hd, List.map_append, List.map_cons, List.nodup_append, List.nodup_cons] at hids
    have others : ∀ m : List StoredDocument, (∀ d ∈ m, d.id ≠ r.id) →
        (m.map fun d => if d.id = r.id then (e.apply r).stored else d) = m := by
      intro m hm
      rw [List.map_congr_left fun d hd => if_neg (hm d hd), List.map_id']
    refine .inl ⟨hhit, ?_⟩
    rw [hs', hd, List.map_append, List.map_cons, if_pos hid, others l fun d hd hid' => ?_,
      others l' fun d hd hid' => ?_]
    · exact hids.2.1.1 (hid'.trans hid.symm ▸ List.mem_map_of_mem hd)
    · exact hids.2.2 _ (List.mem_map_of_mem hd) _ (List.mem_cons_self ..) (hid'.trans hid.symm)

/-- An edit of a resource that is stored and was read puts the edited resource in its place. -/
theorem edited (h : s.Tidy) {e : Edit} {r : Resource} {hit : Bool} (hr : r.stored ∈ s.documents)
    (read : r.ReadBack e.current) (hkind : (e.apply r).kind = r.kind)
    (hs : s.patchOne e.current.kind.collection e.filter (.ofFields e.changes) = .ok (hit, s')) :
    hit = true ∧
      s'.documents = s.documents.map fun d => if d.id = r.id then (e.apply r).stored else d :=
  (h.edited_or_missed hr read.id.symm hkind hs).resolve_right
    fun missed => missed.2 (Edit.matches_readBack read)

end DocumentStore.Tidy

/-! ## Calls -/

/-- How a publication ended, if the call is one: in a fault, or without one. -/
def Exchange.fault? : Exchange → Option (Option OpError)
  | ⟨.publish .., .ok _⟩ => some none
  | ⟨.publish .., .error e⟩ => some (some e)
  | _ => none

/-- Whether a call is served, and ends as it is said if it is a publication. -/
structure Exchange.MeetsWith (fault : Option OpError) (x : Exchange) : Prop where
  served : x.isServed = true
  published : ∀ f ∈ x.fault?, f = fault

instance (fault : Option OpError) (x : Exchange) : Decidable (x.MeetsWith fault) :=
  decidable_of_iff (x.isServed = true ∧ ∀ f ∈ x.fault?, f = fault)
    ⟨fun h => ⟨h.1, h.2⟩, fun h => ⟨h.1, h.2⟩⟩

/-- Whether a program ends as it is said, if publications do and all else is served. -/
def Program.Leads {α : Type} (fault : Option OpError) (post : Except OpError α → World → Prop)
    (q : Program α) (w : World) : Prop :=
  q.Upholds (Exchange.MeetsWith fault) (fun _ _ => True) post w

/-- Whether a program ends without an error, if publications end as it is said and all else is
served. -/
def Program.Does {α : Type} (fault : Option OpError) (good : α → World → Prop) (q : Program α)
    (w : World) : Prop :=
  q.Leads fault (fun r w' => ∃ a, r = .ok a ∧ good a w') w

section Calls

variable {fault : Option OpError} {w : World}

theorem Exchange.MeetsWith.not_failed {c : Call} {a : c.Answer}
    (h : Exchange.MeetsWith fault ⟨c, a⟩) (due : c.isDue = true) (e : OpError) :
    c.failure? e ≠ some a := by
  intro failed
  have served : False ∨ Exchange.isServed ⟨c, a⟩ = true := .inr h.served
  exact Exchange.faults_of_failed served due failed

/-- What is served is answered by the world. -/
theorem World.reply_of_meetsWith {x : Circumstances} {c : Call} (due : c.isDue = true)
    (h : Exchange.MeetsWith fault ⟨c, (w.reply x c).1⟩) :
    w.reply x c = World.answer (fun _ _ _ => x.permission) c { w with clock := x.time } := by
  refine w.reply_of_not_failed x (fun hc => ?_) (h.not_failed due)
  subst hc
  cases due

namespace Program

variable {α β : Type} {q : Program β} {f : β → Program α} {good : β → World → Prop}
  {post : Except OpError α → World → Prop}

/-- A single call, by what it is answered. -/
theorem Leads.single {c : Call} {k : c.Answer → Except OpError α}
    (h : w.documents.Tidy → ∀ x : Circumstances, Exchange.MeetsWith fault ⟨c, (w.reply x c).1⟩ →
      post (k (w.reply x c).1) (w.reply x c).2) :
    (call c fun a => .done (k a)).Leads fault post w := Upholds.single trivial h

theorem Does.single {c : Call} {k : c.Answer → Except OpError β}
    (h : w.documents.Tidy → ∀ x : Circumstances, Exchange.MeetsWith fault ⟨c, (w.reply x c).1⟩ →
      ∃ b, k (w.reply x c).1 = .ok b ∧ good b (w.reply x c).2) :
    (call c fun a => .done (k a)).Does fault good w := Leads.single h

theorem Leads.done {a : α} (h : post (.ok a) w) : (pure a : Program α).Leads fault post w :=
  Upholds.done h

theorem Leads.fail {e : OpError} (h : post (.error e) w) :
    (fail e : Program α).Leads fault post w := Upholds.fail h

theorem Leads.mono {post' : Except OpError α → World → Prop} {q : Program α}
    (h : q.Leads fault post w) (hpost : ∀ r w', post r w' → post' r w') :
    q.Leads fault post' w := Upholds.mono h hpost

theorem Leads.bind {mid : Except OpError β → World → Prop} (hq : q.Leads fault mid w)
    (ok : ∀ b w', mid (.ok b) w' → (f b).Leads fault post w')
    (error : ∀ e w', mid (.error e) w' → post (.error e) w') : (q >>= f).Leads fault post w :=
  Upholds.bind hq ok error

theorem Does.done {b : β} (h : good b w) : (pure b : Program β).Does fault good w :=
  Leads.done ⟨b, rfl, h⟩

/-- What ends without an error is gone on with. -/
theorem Does.bind (hq : q.Does fault good w)
    (next : ∀ b w', good b w' → (f b).Leads fault post w') : (q >>= f).Leads fault post w := by
  refine Upholds.bind hq (fun b w' h => ?_) fun e w' h => ?_
  · obtain ⟨b', hb, h⟩ := h
    obtain rfl := Except.ok.inj hb
    exact next b w' h
  · obtain ⟨b, hb, -⟩ := h
    cases hb

theorem Does.mono {good' : β → World → Prop} (h : q.Does fault good w)
    (hgood : ∀ b w', good b w' → good' b w') : q.Does fault good' w :=
  Upholds.mono h fun _ w' ⟨b, hb, h⟩ => ⟨b, hb, hgood b w' h⟩

/-! ## The index, the bus and the events -/

theorem resolve_does (s : Scope) : (resolve s).Does fault
    (fun o w' => o = w.mappings.resolve s ∧ w'.stores = w.stores) w := by
  refine Does.single fun _ x hx => ?_
  rw [World.reply_of_meetsWith rfl hx]
  exact ⟨_, rfl, rfl, rfl⟩

theorem upsert_does (r : Resource) (cluster : String) : (upsert (r.mapping cluster)).Does fault
    (fun _ w' => w'.stores = { w.stores with
      rows := Ledger.fileIn w.stores.rows r.mappingKey (some cluster) }) w := by
  refine Does.single fun _ x hx => ?_
  have hreply := World.reply_of_meetsWith rfl hx
  cases hm : w.mappings.upsert (r.mapping cluster) with
  | error e =>
    refine absurd ?_ (hx.not_failed rfl e)
    rw [hreply, World.answer, hm]
    rfl
  | ok mappings =>
    rw [hreply, World.answer, hm]
    refine ⟨(), rfl, ?_⟩
    rw [MappingIndex.upsert, MappingIndex.insert] at hm
    split at hm
    · cases hm
    · obtain rfl := Except.ok.inj hm
      rfl

theorem removeMapping_does (k : MappingKey) : (removeMapping k).Does fault
    (fun _ w' => w'.stores = { w.stores with rows := Ledger.fileIn w.stores.rows k none }) w := by
  refine Does.single fun _ x hx => ?_
  rw [World.reply_of_meetsWith rfl hx]
  exact ⟨_, rfl, rfl⟩

theorem emit_does (kind : EventKind) (r : Resource) : (emit kind r).Does fault
    (fun _ w' => w'.stores = w.stores.tell kind r) w := by
  refine Does.single fun _ x _ => ⟨(), rfl, ?_⟩
  rw [w.reply_of_not_failed x (c := .emit (.of kind r)) nofun nofun]
  rfl

/-- A message is published, or nothing changes. -/
theorem publish_leads (topic key : String) (payload : ByteArray) :
    (publish topic key payload).Leads fault (fun r w' => match fault with
      | none => (∃ n, r = .ok n) ∧ w'.stores = w.stores.post topic key payload
      | some e => r = .error e ∧ w'.stores = w.stores) w := by
  refine Leads.single fun _ x hx => ?_
  cases ha : (w.reply x (.publish topic key payload)).1 with
  | error e =>
    rw [ha] at hx
    obtain rfl := hx.published (some e) rfl
    exact ⟨rfl, (w.reply_failed x (c := .publish topic key payload) (congrArg some ha.symm)).stores⟩
  | ok n =>
    have hreply := w.reply_of_not_failed x (c := .publish topic key payload) nofun fun e he => by
      rw [ha] at he
      cases he
    rw [ha] at hx
    obtain rfl := hx.published none rfl
    exact ⟨⟨n, rfl⟩, by rw [hreply]; rfl⟩

/-! ## The store -/

theorem findOne_does (collection : String) (filter : Filter) :
    (findOne collection filter).Does fault (fun o w' => w'.stores = w.stores ∧
      w.documents.findOne collection filter = .ok o ∧
        ∀ j, o = some j → Exchange.isLegible collection j = true) w := by
  refine Does.single fun _ x hx => ?_
  have hreply := World.reply_of_meetsWith rfl hx
  cases ha : (w.reply x (.findOne collection filter)).1 with
  | error e => exact absurd (congrArg some ha.symm) (hx.not_failed rfl e)
  | ok o =>
    have hsame := w.reply_look x (c := .findOne collection filter) rfl
    have hfound := ha
    rw [hreply] at hfound
    refine ⟨o, rfl, hsame.stores, hfound, fun j hj => ?_⟩
    rw [ha, hj] at hx
    exact hx.served

theorem deleteOne_does {r : Resource} (hr : r.card ∈ w.documents.cards) :
    (deleteOne r.kind.collection (.byId r.id)).Does fault (fun _ w' => w'.stores = { w.stores with
      documents := w.stores.documents.filter fun d => decide (d.id ≠ r.id) }) w := by
  refine Does.single fun ht x hx => ?_
  cases ha : (w.reply x (.deleteOne r.kind.collection (.byId r.id))).1 with
  | error e => exact absurd (congrArg some ha.symm) (hx.not_failed rfl e)
  | ok hit =>
    obtain ⟨documents, hs, hw⟩ := w.deleteOne_of_reply x ha
    refine ⟨hit, rfl, ?_⟩
    rw [hw, World.stores, ht.deletesOne hr hs]
    rfl

end Program

/-- An edit of a resource that is stored and was read puts the edited resource in its place. -/
theorem Edit.does {e : Edit} {r : Resource} (hr : r.stored ∈ w.stores.documents)
    (read : r.ReadBack e.current) (hkind : (e.apply r).kind = r.kind) :
    (Program.patchOne e.current.kind.collection e.filter (.ofFields e.changes)).Does fault
      (fun hit w' => hit = true ∧ w'.stores = w.stores.put (e.apply r)) w := by
  refine Program.Does.single fun ht x hx => ?_
  cases ha : (w.reply x
      (.patchOne e.current.kind.collection e.filter (.ofFields e.changes))).1 with
  | error failure => exact absurd (congrArg some ha.symm) (hx.not_failed rfl failure)
  | ok hit =>
    obtain ⟨documents, hs, hw⟩ := w.patchOne_of_reply x ha
    obtain ⟨hhit, hdocs⟩ := ht.edited hr read hkind hs
    refine ⟨hit, rfl, hhit, ?_⟩
    rw [hw, World.stores, hdocs, Stores.put, Edit.id_apply]
    rfl

end Calls

end FleetSync
