import FleetSync.Proofs.Intake.Faultless
import FleetSync.Proofs.Mapping.Silence

/-!
# When only the bus fails

Where no call but publications is made to fail, what an operation does depends on how each of its
publications ended (`Program.Weathers`). The other calls succeed by themselves while the store and
the index are in order: every document can be read, and all keys are keys that resources may have
(`Stores.Orderly`). Then an edit finds its document (`Resource.attach_proceeds`), a row that is
filed clashes with none (`Program.upsert_proceeds`), and what is found are all documents of a kind
that wait, if they read back (`ControlPlane.findWaiting_proceeds`).
-/

namespace FleetSync

/-- Whether a call puts a message on the bus. -/
def Call.isPublish : Call → Bool
  | publish .. => true
  | _ => false

theorem Exchange.fault?_eq_none {c : Call} (h : c.isPublish = false) (a : c.Answer) :
    fault? ⟨c, a⟩ = none := by
  cases c <;> first | rfl | cases h

/-! ## Runs in which only publications fail -/

namespace System

/-- Whether a move makes no call fail but a publication. -/
def spares (s : System) : Move → Bool
  | .start _ => true
  | .turn i x => match s.tasks[i]? with
    | some ⟨_, _, .call c _⟩ => x.failure.isNone || c.isPublish
    | _ => true

/-- Whether all of some moves make no call fail but publications. -/
def sparesAll (p : ControlPlane) : System → List Move → Bool
  | _, [] => true
  | s, m :: rest => s.spares m && sparesAll p (s.move p m) rest

/-- Whether from one moment to another no call was made to fail but publications. -/
def OnlyBusFails (p : ControlPlane) (ms ms' : List Move) : Prop :=
  (after p ms).sparesAll p (ms'.drop ms.length) = true

instance (p : ControlPlane) (ms ms' : List Move) : Decidable (OnlyBusFails p ms ms') :=
  inferInstanceAs (Decidable (_ = true))

theorem sparesAll_append (p : ControlPlane) (s : System) (ms later : List Move) :
    s.sparesAll p (ms ++ later) =
      (s.sparesAll p ms && (ms.foldl (move p) s).sparesAll p later) := by
  induction ms generalizing s with
  | nil => rfl
  | cons m rest ih =>
    rw [List.cons_append, sparesAll, sparesAll, ih, Bool.and_assoc]
    rfl

/-- A call that is made in such a time was not made to fail, or it is a publication. -/
theorem OnlyBusFails.spared {p : ControlPlane} {ms later later' : List Move} {o : Operation}
    {i : Nat} {x : Circumstances} {task : Operation} {past : List Exchange} {c : Call}
    {next : c.Answer → Program Outcome} (h : OnlyBusFails p ms (ms ++ .start o :: later))
    (hp : later' ++ [.turn i x] <+: later)
    (hi : (after p (ms ++ .start o :: later')).tasks[i]? = some ⟨task, past, .call c next⟩) :
    x.failure = none ∨ c.isPublish = true := by
  obtain ⟨tail, rfl⟩ := hp
  rw [OnlyBusFails, List.drop_left, List.append_assoc, ← List.cons_append, sparesAll_append,
    Bool.and_eq_true] at h
  have hs : (Move.start o :: later').foldl (move p) (after p ms) =
      after p (ms ++ .start o :: later') := (List.foldl_append ..).symm
  rw [hs, List.singleton_append] at h
  have hspared := (Bool.and_eq_true_iff.1 h.2).1
  rw [spares, hi] at hspared
  exact (Bool.or_eq_true_iff.1 hspared).imp_left Option.isNone_iff_eq_none.1

end System

namespace Program

variable {α β : Type}

/-- Whether a program that goes on in a world has a property at its end, with how its publications
ended, in faults or without them, if no other of its calls is made to fail. -/
def Weathers : Program α → (List (Option OpError) → Except OpError α → World → Prop) → World → Prop
  | done r, post, w => w.documents.Tidy → post [] r w
  | call c next, post, w => w.documents.Tidy → ∀ x : Circumstances,
    (x.failure = none ∨ c.isPublish = true) →
      (next (w.reply x c).1).Weathers
        (fun faults => post ((Exchange.fault? ⟨c, (w.reply x c).1⟩).toList ++ faults))
        (w.reply x c).2

/-- Whether a program ends without an error and publishes nothing, if none of its calls is made to
fail. -/
def Proceeds (good : α → World → Prop) (q : Program α) (w : World) : Prop :=
  q.Weathers (fun faults r w' => faults = [] ∧ ∃ a, r = .ok a ∧ good a w') w

namespace Weathers

variable {post post' : List (Option OpError) → Except OpError α → World → Prop} {q : Program α}
  {w : World}

/-- The store is tidy at every moment. -/
theorem tidy (h : w.documents.Tidy → q.Weathers post w) : q.Weathers post w := by
  cases q with
  | done r => exact fun ht => h ht ht
  | call c next => exact fun ht => h ht ht

theorem done {a : α} (h : post [] (.ok a) w) : (pure a : Program α).Weathers post w := fun _ => h

theorem fail {e : OpError} (h : post [] (.error e) w) : (fail e : Program α).Weathers post w :=
  fun _ => h

theorem mono (h : q.Weathers post w) (hpost : ∀ faults r w', post faults r w' → post' faults r w') :
    q.Weathers post' w := by
  induction q generalizing w post post' with
  | done r => exact fun ht => hpost _ _ _ (h ht)
  | call c next ih => exact fun ht x hx => ih _ (h ht x hx) fun faults => hpost _

theorem bind {mid : List (Option OpError) → Except OpError β → World → Prop} {q : Program β}
    {f : β → Program α} (hq : q.Weathers mid w)
    (ok : ∀ faults b w', mid faults (.ok b) w' →
      (f b).Weathers (fun faults' => post (faults ++ faults')) w')
    (error : ∀ faults e w', mid faults (.error e) w' → post faults (.error e) w') :
    (q >>= f).Weathers post w := by
  induction q generalizing w mid post with
  | done r =>
    cases r with
    | ok b => exact tidy fun ht => ok [] b w (hq ht)
    | error e => exact fun ht => error [] e w (hq ht)
  | call c next ih =>
    refine fun ht x hx => ih _ (hq ht x hx) (fun faults b w' h => ?_) fun faults => error _
    exact (ok _ b w' h).mono fun faults' r w'' h => by rwa [← List.append_assoc]

/-- An error is no end if it is handed on as a result. -/
theorem attempt {post : List (Option OpError) → Except OpError (Except OpError α) → World → Prop}
    (h : q.Weathers (fun faults r => post faults (.ok r)) w) : q.attempt.Weathers post w := by
  induction q generalizing w post with
  | done r => exact h
  | call c next ih => exact fun ht x hx => ih _ (h ht x hx)

end Weathers

namespace Proceeds

variable {good : β → World → Prop} {q : Program β} {w : World}

theorem done {b : β} (h : good b w) : (pure b : Program β).Proceeds good w :=
  Weathers.done ⟨rfl, b, rfl, h⟩

/-- What proceeds is gone on with. -/
theorem bind {post : List (Option OpError) → Except OpError α → World → Prop} {f : β → Program α}
    (hq : q.Proceeds good w) (next : ∀ b w', good b w' → (f b).Weathers post w') :
    (q >>= f).Weathers post w := by
  refine Weathers.bind hq (fun faults b w' h => ?_) fun faults e w' h => ?_
  · obtain ⟨rfl, b', hb, h⟩ := h
    obtain rfl := Except.ok.inj hb
    exact next b w' h
  · obtain ⟨-, b, hb, -⟩ := h
    cases hb

theorem mono {good' : β → World → Prop} (h : q.Proceeds good w)
    (hgood : ∀ b w', good b w' → good' b w') : q.Proceeds good' w :=
  Weathers.mono h fun _ _ w' ⟨hf, b, hb, h⟩ => ⟨hf, b, hb, hgood b w' h⟩

/-- A single call, by what it is answered. -/
theorem single {c : Call} {k : c.Answer → Except OpError β} (silent : c.isPublish = false)
    (h : w.documents.Tidy → ∀ x : Circumstances, x.failure = none →
      (w.reply x c).2.documents.Tidy →
        ∃ b, k (w.reply x c).1 = .ok b ∧ good b (w.reply x c).2) :
    (call c fun a => .done (k a)).Proceeds good w := by
  refine fun ht x hx ht' => ⟨?_, h ht x (hx.resolve_right fun hc => ?_) ht'⟩
  · rw [Exchange.fault?_eq_none silent]
    rfl
  · rw [silent] at hc
    cases hc

end Proceeds

end Program

namespace World

variable {w : World} {x : Circumstances}

/-- A call that is not made to fail is answered by the world. -/
theorem reply_of_unfailed {c : Call} (hc : c ≠ .freshId) (hx : x.failure = none) :
    w.reply x c = World.answer (fun _ _ _ => x.permission) c { w with clock := x.time } := by
  cases c with
  | freshId => exact absurd rfl hc
  | _ =>
    rw [reply, hx, Option.bind_none]
    intro h
    cases h

end World

/-- What is done where all calls are served is done where none is made to fail, if the call is
served then. -/
theorem Program.Does.proceeds {β : Type} {c : Call} {k : c.Answer → Except OpError β}
    {good : β → World → Prop} {w : World}
    (h : (call c fun a => .done (k a)).Does none good w) (silent : c.isPublish = false)
    (served : w.documents.Tidy → ∀ x : Circumstances, x.failure = none →
      Exchange.isServed ⟨c, (w.reply x c).1⟩ = true) :
    (call c fun a => .done (k a)).Proceeds good w := by
  refine Proceeds.single silent fun ht x hx ht' => ?_
  have meets : Exchange.MeetsWith none ⟨c, (w.reply x c).1⟩ :=
    ⟨served ht x hx, fun f hf => by rw [Exchange.fault?_eq_none silent] at hf; cases hf⟩
  exact (h ht).2 x meets ht'

/-! ## Stores in order -/

/-- Whether every document of the stores can be read, and all keys are such that resources may have
them. -/
structure Stores.Orderly (s : Stores) : Prop where
  ids : (s.documents.map (·.id)).Nodup
  readable : ∀ d ∈ s.documents, d.body.isReadable = true
  placed : ∀ d ∈ s.documents, d.card.key.Placed
  rows : ∀ row ∈ s.rows, ∃ k : MappingKey, k.Placed ∧ row = k.row row.cluster

/-- A resource that can be read can be read on any cluster. -/
theorem Resource.isReadable_on {r : Resource} (h : r.stored.body.isReadable = true)
    (o : Option String) : { r with clusterName := o }.stored.body.isReadable = true := by
  let e : Edit := ⟨r, .attach o⟩
  rw [Body.isReadable, stored_body, Body.maxDepth, Body.readableAt_record, List.all_eq_true] at h ⊢
  intro n hn
  have hsound := (Bool.and_eq_true_iff.1 (h n hn)).1
  refine Bool.and_eq_true_iff.2 ⟨hsound, ?_⟩
  by_cases hcluster : n = "cluster_name"
  · subst hcluster
    exact (congrArg (fun j => (Body.ofJson j).readableAt _) (canonical_ofText o)).trans
      (by cases o <;> rfl)
  · have hfield : (e.apply r).field n = r.field n :=
      (e.field_apply r n).trans (if_neg (mt List.mem_singleton.1 hcluster))
    exact (congrArg (fun j : Json => (Body.ofJson j.canonical).readableAt _) hfield).trans
      (Bool.and_eq_true_iff.1 (h n hn)).2

namespace Stores.Orderly

variable {s : Stores} {r : Resource}

theorem of_sublist {s' : Stores} (h : s.Orderly) (docs : s'.documents.Sublist s.documents)
    (rows : s'.rows ⊆ s.rows) : s'.Orderly where
  ids := h.ids.sublist (docs.map _)
  readable d hd := h.readable d (docs.subset hd)
  placed d hd := h.placed d (docs.subset hd)
  rows row hrow := h.rows row (rows hrow)

theorem eq_of_id (h : s.Orderly) (hr : r.stored ∈ s.documents) {d : StoredDocument}
    (hd : d ∈ s.documents) (hid : d.id = r.id) : d = r.stored :=
  List.inj_on_of_nodup_map h.ids hd hr hid

theorem placed_key (h : s.Orderly) (hr : r.stored ∈ s.documents) : r.mappingKey.Placed := by
  have hcard := h.placed _ hr
  rwa [r.card_stored] at hcard

/-- A resource that is put on another cluster leaves the stores in order. -/
theorem put (h : s.Orderly) (hr : r.stored ∈ s.documents) (o : Option String) :
    (s.put { r with clusterName := o }).Orderly := by
  have hkey := h.placed_key hr
  have hdocs := s.documents_put { r with clusterName := o }
  refine ⟨?_, fun d hd => ?_, fun d hd => ?_, h.rows⟩
  · have hids : (s.put { r with clusterName := o }).documents.map (·.id) =
        s.documents.map (·.id) := by
      rw [hdocs, List.map_map]
      refine List.map_congr_left fun d hd => ?_
      rw [Function.comp_apply]
      split
      · rename_i hid
        exact hid.symm
      · rfl
    exact hids ▸ h.ids
  · rw [hdocs] at hd
    obtain ⟨d', hd', rfl⟩ := List.mem_map.1 hd
    split
    · exact Resource.isReadable_on (h.readable _ hr) o
    · exact h.readable d' hd'
  · rw [hdocs] at hd
    obtain ⟨d', hd', rfl⟩ := List.mem_map.1 hd
    split
    · rw [Resource.card_stored]
      exact hkey
    · exact h.placed d' hd'

theorem moveTo (h : s.Orderly) (hr : r.stored ∈ s.documents) (o : Option String) :
    (s.moveTo r o).Orderly := by
  rw [Stores.moveTo]
  split
  · exact h
  have hput := h.put hr o
  refine ⟨hput.ids, hput.readable, hput.placed, fun row hrow => ?_⟩
  rcases Ledger.mem_fileIn.1 hrow with ⟨hrow, -⟩ | ⟨x, rfl, rfl⟩
  · exact h.rows row hrow
  · exact ⟨r.mappingKey, h.placed_key hr, rfl⟩

theorem drop (h : s.Orderly) (r : Resource) : (s.drop r).Orderly :=
  h.of_sublist List.filter_sublist fun _ hrow => (List.mem_filter.1 hrow).1

end Stores.Orderly

/-- Keys that resources may have clash only if they are the same. -/
theorem MappingKey.Placed.eq_of_clashes {k l : MappingKey} (hk : k.Placed) (hl : l.Placed)
    {x y : String} (h : (k.row x).clashes (l.row y) = true) : k = l := by
  simp only [MappingRow.clashes, row, MappingRow.ofMapping, Bool.and_eq_true, beq_iff_eq] at h
  obtain ⟨⟨⟨⟨⟨hkind, ha⟩, hp⟩, he⟩, hn⟩, hns⟩ := h
  have hkind := Kind.name_inj hkind
  rw [mk.injEq]
  refine ⟨hkind, hn, hns, ha, hp, ?_⟩
  have hsome : k.environment.isSome = l.environment.isSome := by
    rw [Bool.eq_iff_iff, hk.level, hl.level, hkind]
  revert hsome he
  cases k.environment <;> cases l.environment <;> intro he hsome
  · rfl
  · cases hsome
  · cases hsome
  · exact congrArg some he

/-- A row can be filed among those of other keys. -/
theorem MappingIndex.upsert_ok {rows : List MappingRow}
    (h : ∀ row ∈ rows, ∃ k : MappingKey, k.Placed ∧ row = k.row row.cluster) {r : Resource}
    (placed : r.mappingKey.Placed) (cluster : String) :
    ∃ x, (MappingIndex.mk rows).upsert (r.mapping cluster) = .ok x := by
  rw [upsert, insert, if_neg]
  · exact ⟨_, rfl⟩
  rw [Bool.not_eq_true, List.any_eq_false]
  intro row hrow hclash
  obtain ⟨hrow, hkey⟩ := List.mem_filter.1 hrow
  obtain ⟨k, hk, heq⟩ := h row hrow
  rw [heq] at hclash hkey
  have hsame : r.mappingKey = k := placed.eq_of_clashes hk (x := cluster) hclash
  have hself : (k.row row.cluster).hasKey r.mappingKey = true := MappingKey.hasKey_row.2 hsame.symm
  rw [Bool.not_eq_true'] at hkey
  exact Bool.false_ne_true (hkey.symm.trans hself)

/-! ## What the store can tell -/

namespace DocumentStore

variable {s : DocumentStore} {kind : Kind} {f : Filter}

/-- What can be told of each document of a kind selects among them. -/
theorem select_ok (tidy : s.Tidy)
    (h : ∀ r : Resource, r.stored ∈ s.documents → (f.holds? r.stored.body).isSome = true) :
    s.select kind.collection f = .ok (·.matches? kind.collection f) := by
  rw [select, if_pos]
  refine List.all_eq_true.2 fun d hd => ?_
  have hd := (List.mem_filter.1 hd).1
  obtain ⟨r, -, rfl⟩ := tidy.sound d hd
  exact h r hd

theorem selectOne_byId (kind : Kind) (tidy : s.Tidy)
    (readable : ∀ d ∈ s.documents, d.body.isReadable = true) (id : String) :
    s.selectOne kind.collection (.byId id) = .ok (·.matches? kind.collection (.byId id)) := by
  have askable : (Filter.byId id).isAskableWithin = true := rfl
  rw [selectOne, if_pos askable]
  refine select_ok tidy fun r hr => ?_
  have hid := Condition.holds?_text (r := r) (n := "id") (o := some r.id) (some id) (by decide) rfl
  rw [if_pos (readable _ hr)] at hid
  have hholds : (Condition.eq ["id"] (.str id)).holds? r.stored.body =
      some (some r.id == some id) := hid
  rw [Filter.byId, Filter.holds?, hholds]
  cases some r.id == some id <;> rfl

/-- A resource that is stored and can be read is the one that is found by its id. -/
theorem Tidy.find?_byId (tidy : s.Tidy) {r : Resource} (hr : r.stored ∈ s.documents)
    (readable : r.stored.body.isReadable = true) :
    s.documents.find? (·.matches? r.kind.collection (.byId r.id)) = some r.stored := by
  have hself := Resource.matches_byId readable
  cases hfind : s.documents.find? (·.matches? r.kind.collection (.byId r.id)) with
  | none => exact absurd hself (List.find?_eq_none.1 hfind _ hr)
  | some d =>
    have hd := List.mem_of_find?_eq_some hfind
    have hmatch := List.find?_some hfind
    obtain ⟨r', -, rfl⟩ := tidy.sound d hd
    have hid := (Resource.of_matches_byId hmatch).2
    rw [List.inj_on_of_nodup_map tidy.ids hd hr hid]

end DocumentStore

/-- A resource waits for its agent if it is in the queue. -/
theorem Resource.holds?_waiting {r : Resource} (readable : r.stored.body.isReadable = true) :
    Filter.waiting.holds? r.stored.body = some (decide (r.syncStatus.state = .inQueue)) := by
  have hat := r.at?_syncStatus (by decide : "state" ∈ SyncStatus.storedNames)
  have hcond : (Condition.eq ["sync_status", "state"] SyncState.inQueue.encode).holds?
      r.stored.body = some (decide (r.syncStatus.state = .inQueue)) := by
    have hoperand : (Condition.eq ["sync_status", "state"]
        SyncState.inQueue.encode).operand.isReadable = true := rfl
    rw [Condition.holds?, hoperand, readable, Bool.and_true, if_pos rfl, Condition.path, hat]
    have hstate : r.syncStatus.field "state" = r.syncStatus.state.encode := rfl
    rw [hstate]
    cases r.syncStatus.state <;> rfl
  rw [Filter.waiting, Filter.holds?, hcond]
  cases decide (r.syncStatus.state = .inQueue) <;> rfl

/-! ## Calls that succeed by themselves -/

section Calls

variable {w : World} {r read : Resource}

namespace Program

theorem resolve_proceeds (s : Scope) : (resolve s).Proceeds
    (fun o w' => o = w.mappings.resolve s ∧ w'.stores = w.stores) w := by
  refine (resolve_does s).proceeds rfl fun _ x hx => ?_
  rw [World.reply_of_unfailed (c := .resolve s) nofun hx]
  rfl

theorem removeMapping_proceeds (k : MappingKey) : (removeMapping k).Proceeds (fun _ w' =>
    w'.stores = { w.stores with rows := Ledger.fileIn w.stores.rows k none }) w := by
  refine (removeMapping_does k).proceeds rfl fun _ x hx => ?_
  rw [World.reply_of_unfailed (c := .removeMapping k) nofun hx]
  rfl

theorem emit_proceeds (kind : EventKind) (r : Resource) : (emit kind r).Proceeds (fun _ w' =>
    w'.stores = w.stores.tell kind r) w :=
  (emit_does kind r).proceeds rfl fun _ _ _ => rfl

theorem upsert_proceeds (h : w.stores.Orderly) (placed : r.mappingKey.Placed) (cluster : String) :
    (upsert (r.mapping cluster)).Proceeds (fun _ w' => w'.stores = { w.stores with
      rows := Ledger.fileIn w.stores.rows r.mappingKey (some cluster) }) w := by
  refine (upsert_does r cluster).proceeds rfl fun _ x hx => ?_
  obtain ⟨mappings, hm⟩ := MappingIndex.upsert_ok h.rows placed cluster
  have hm : w.mappings.upsert (r.mapping cluster) = .ok mappings := hm
  rw [World.reply_of_unfailed (c := .upsert (r.mapping cluster)) nofun hx, World.answer, hm]
  rfl

theorem deleteOne_proceeds (h : w.stores.Orderly) (hr : r.card ∈ w.documents.cards) :
    (deleteOne r.kind.collection (.byId r.id)).Proceeds (fun _ w' => w'.stores = { w.stores with
      documents := w.stores.documents.filter fun d => decide (d.id ≠ r.id) }) w := by
  refine (deleteOne_does hr).proceeds rfl fun ht x hx => ?_
  have hselect := DocumentStore.selectOne_byId r.kind ht h.readable r.id
  rw [World.reply_of_unfailed (c := .deleteOne r.kind.collection (.byId r.id)) nofun hx,
    World.answer, DocumentStore.deleteOne, hselect]
  rfl

/-- A message is published, or the bus fails. -/
theorem publish_weathers (topic key : String) (payload : ByteArray) :
    (publish topic key payload).Weathers (fun faults result w' => match result with
      | .ok _ => faults = [none] ∧ w'.stores = w.stores.post topic key payload
      | .error e => faults = [some e] ∧ w'.stores = w.stores) w := by
  intro _ x _ _
  cases ha : (w.reply x (.publish topic key payload)).1 with
  | error e =>
    exact ⟨rfl, (w.reply_failed x (c := .publish topic key payload) (congrArg some ha.symm)).stores⟩
  | ok n =>
    have hreply := w.reply_of_not_failed x (c := .publish topic key payload) nofun fun e he => by
      rw [ha] at he
      cases he
    exact ⟨rfl, by rw [hreply]; rfl⟩

end Program

namespace Resource

/-- A resource knows the cluster that it belongs to, or looks it up. -/
theorem cluster_proceeds (h : r.ReadBack read) : read.cluster.Proceeds
    (fun o w' => o = w.stores.home? r.stored ∧ w'.stores = w.stores) w := by
  have hhome : w.stores.home? r.stored = w.ledger.target read.card := by
    rw [h.card, ← r.card_stored, w.target_card]
    rfl
  rw [cluster_eq, hhome, Ledger.target]
  split
  · exact Program.Proceeds.done ⟨rfl, rfl⟩
  · exact Program.resolve_proceeds read.scope

/-- Setting the cluster of a resource puts it there. -/
theorem attach_proceeds (ord : w.stores.Orderly) (hr : r.stored ∈ w.stores.documents)
    (h : r.ReadBack read) (o : Option String) :
    (read.patch [.set ["cluster_name"] (.ofOption .str o)]).Proceeds
      (fun _ w' => w'.stores = w.stores.put { r with clusterName := o }) w := by
  refine (attach_does hr h o).proceeds rfl fun ht x hx => ?_
  let e : Edit := ⟨read, .attach o⟩
  have hselect := DocumentStore.selectOne_byId read.kind ht ord.readable read.id
  have hfind := ht.find?_byId hr h.readable
  rw [← h.kind, ← h.id] at hfind
  have hvalues : ∀ c ∈ e.changes, (Body.ofJson c.2.canonical).isReadable = true := by
    intro c hc
    obtain rfl := List.mem_singleton.1 hc
    exact (congrArg (fun j => (Body.ofJson j).isReadable) (canonical_ofText o)).trans
      (by cases o <;> rfl)
  obtain ⟨s', hs', -⟩ := DocumentStore.patchOne_edit (e := e) rfl hselect hfind rfl hvalues
  have hpatch : w.documents.patchOne read.kind.collection (.byId read.id)
      [.set ["cluster_name"] (.ofOption .str o)] = .ok (true, s') := hs'
  rw [World.reply_of_unfailed (c := .patchOne read.kind.collection (.byId read.id)
    [.set ["cluster_name"] (.ofOption .str o)]) nofun hx, World.answer, hpatch]
  rfl

theorem remove_proceeds (ord : w.stores.Orderly) (hr : r.card ∈ w.documents.cards) :
    r.remove.Proceeds (fun _ w' => w'.stores = (w.stores.drop r).tell .deleted r) w := by
  refine (Program.deleteOne_proceeds ord hr).bind fun _ w₁ h₁ => ?_
  refine (Program.removeMapping_proceeds r.mappingKey).bind fun _ w₂ h₂ => ?_
  refine (Program.emit_proceeds .deleted r).mono fun _ w₃ h₃ => ?_
  rw [h₃, h₂, h₁]
  rfl

end Resource

end Calls

end FleetSync
