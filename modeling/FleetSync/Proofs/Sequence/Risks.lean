import FleetSync.Proofs.Sequence.Intake

/-!
# Calls that may fail

The store, the index and the bus fail only in ways that may pass, but an insertion may find the
resource there already, a search may find something that cannot be read, and whether somebody has a
permission may not be known for any reason (`Call.mayFail`). The world never lets a call fail in
another way (`World.answer_isRegular`). Of a program whose calls fail only like this it is said what
it leaves if it ends with an error that does not pass (`Program.Risks`), and for most calls that
means nothing at all (`Program.Passes`).
-/

namespace FleetSync

/-- The errors that a call may fail with. -/
def Call.mayFail : Call → OpError → Bool
  | .authorize .., _ => true
  | .insert _, .alreadyExists .. => true
  | .findOne .., .serialization _ | .find .., .serialization _ => true
  -- A patch that changes nothing is a search.
  | .patchOne _ _ patch, .serialization _ => patch.isEmpty
  | _, e => e.isTransient

namespace Exchange

/-- The error of a call that failed. -/
def error? : Exchange → Option OpError
  | ⟨.authorize .., .error e⟩ | ⟨.insert _, .error e⟩ | ⟨.patchOne .., .error e⟩
  | ⟨.findOne .., .error e⟩ | ⟨.find .., .error e⟩ | ⟨.deleteOne .., .error e⟩
  | ⟨.deleteMany .., .error e⟩ | ⟨.upsert _, .error e⟩ | ⟨.resolve _, .error e⟩
  | ⟨.removeMapping _, .error e⟩ | ⟨.removeScope _, .error e⟩ | ⟨.reassignScope .., .error e⟩
  | ⟨.publish .., .error e⟩ => some e
  | _ => none

/-- Whether a call was answered, or failed in a way in which it may. -/
def IsRegular (x : Exchange) : Prop := ∀ e ∈ x.error?, x.call.mayFail e = true

instance (x : Exchange) : Decidable x.IsRegular :=
  inferInstanceAs (Decidable (∀ e ∈ x.error?, x.call.mayFail e = true))

end Exchange

theorem StoredDocument.read_error {d : StoredDocument} {e : OpError} (h : d.read = .error e) :
    ∃ details, e = .serialization details := by
  rw [read] at h
  cases hv : d.body.value? with
  | none => exact ⟨_, (Except.error.inj (by rwa [hv] at h)).symm⟩
  | some j => rw [hv] at h; cases h

namespace DocumentStore

variable {s : DocumentStore} {collection : String} {filter : Filter} {e : OpError}

theorem select_error (h : s.select collection filter = .error e) : e = failed := by
  rw [select] at h
  split at h
  · cases h
  · exact (Except.error.inj h).symm

theorem selectAll_error (h : s.selectAll collection filter = .error e) : e = failed := by
  rw [selectAll] at h
  split at h
  · exact select_error h
  · exact (Except.error.inj h).symm

theorem selectOne_error (h : s.selectOne collection filter = .error e) : e = failed := by
  rw [selectOne] at h
  split at h
  · exact select_error h
  · exact (Except.error.inj h).symm

/-- A search fails as a whole, or something that is found cannot be read. -/
theorem findOne_error (h : s.findOne collection filter = .error e) :
    e = failed ∨ ∃ details, e = .serialization details := by
  unfold findOne at h
  cases hs : s.selectAll collection filter with
  | error e' =>
    rw [hs] at h
    exact .inl (Except.error.inj h ▸ selectAll_error hs)
  | ok test =>
    rw [hs] at h
    dsimp only [bind, Except.bind] at h
    cases hf : s.documents.find? test with
    | none => rw [hf] at h; cases h
    | some d =>
      rw [hf] at h
      dsimp only at h
      cases hd : d.read with
      | ok j => rw [hd] at h; cases h
      | error e' =>
        rw [hd] at h
        exact .inr (Except.error.inj h ▸ d.read_error hd)

theorem find_error (h : s.find collection filter = .error e) :
    e = failed ∨ ∃ details, e = .serialization details := by
  unfold find at h
  cases hs : s.selectAll collection filter with
  | error e' =>
    rw [hs] at h
    exact .inl (Except.error.inj h ▸ selectAll_error hs)
  | ok test =>
    rw [hs] at h
    refine .inr ?_
    change (s.documents.filter test).mapM (·.read) = _ at h
    generalize s.documents.filter test = found at h
    induction found with
    | nil => cases h
    | cons d rest ih =>
      rw [List.mapM_cons] at h
      cases hd : d.read with
      | error e' =>
        rw [hd] at h
        exact Except.error.inj h ▸ d.read_error hd
      | ok j =>
        rw [hd] at h
        cases hr : rest.mapM (·.read) with
        | error e' =>
          rw [hr] at h
          exact ih (hr.trans h)
        | ok js => rw [hr] at h; cases h

theorem patchOne_error {patch : Patch} (h : s.patchOne collection filter patch = .error e) :
    e = failed ∨ patch.isEmpty = true ∧ ∃ details, e = .serialization details := by
  unfold patchOne at h
  split at h
  · rename_i empty
    cases hf : s.findOne collection filter with
    | ok o => rw [hf] at h; cases h
    | error e' =>
      rw [hf] at h
      obtain rfl := Except.error.inj h
      exact (findOne_error hf).imp_right fun hd => ⟨empty, hd⟩
  · refine .inl ?_
    split at h
    · exact (Except.error.inj h).symm
    cases hs : s.selectOne collection filter with
    | error e' =>
      rw [hs] at h
      exact Except.error.inj h ▸ selectOne_error hs
    | ok test =>
      rw [hs] at h
      dsimp only [bind, Except.bind] at h
      cases hf : s.documents.find? test with
      | none => rw [hf] at h; cases h
      | some d =>
        rw [hf] at h
        dsimp only at h
        split at h
        · exact (Except.error.inj h).symm
        · cases h

end DocumentStore

/-- The world itself lets calls fail only as they may. -/
theorem World.answer_isRegular (checker : Checker) (c : Call) (w : World) :
    (Exchange.mk c (w.answer checker c).1).IsRegular := by
  cases c with
  | now | freshId | emit | resolve | removeMapping | removeScope | reassignScope =>
    exact fun _ he => by cases he
  | authorize => exact fun _ _ => rfl
  | insert d =>
    rw [answer, DocumentStore.insert]
    split_ifs
    · rintro _ ⟨⟩
      rfl
    · rintro _ ⟨⟩
      rfl
    · exact fun _ he => by cases he
  | patchOne collection filter patch =>
    rw [answer]
    cases h : w.documents.patchOne collection filter patch with
    | ok result => exact fun _ he => by cases he
    | error e =>
      rintro _ ⟨⟩
      obtain rfl | ⟨empty, details, rfl⟩ := DocumentStore.patchOne_error h
      · rfl
      · exact empty
  | findOne collection filter =>
    cases h : w.documents.findOne collection filter with
    | ok o =>
      rw [answer, h]
      exact fun _ he => by cases he
    | error e =>
      rw [answer, h]
      rintro _ ⟨⟩
      obtain rfl | ⟨details, rfl⟩ := DocumentStore.findOne_error h <;> rfl
  | find collection filter =>
    cases h : w.documents.find collection filter with
    | ok js =>
      rw [answer, h]
      exact fun _ he => by cases he
    | error e =>
      rw [answer, h]
      rintro _ ⟨⟩
      obtain rfl | ⟨details, rfl⟩ := DocumentStore.find_error h <;> rfl
  | deleteOne collection filter =>
    rw [answer, DocumentStore.deleteOne]
    cases h : w.documents.selectOne collection filter with
    | ok test => exact fun _ he => by cases he
    | error e =>
      rintro _ ⟨⟩
      obtain rfl := DocumentStore.selectOne_error h
      rfl
  | deleteMany collection filter =>
    rw [answer, DocumentStore.deleteMany]
    cases h : w.documents.selectAll collection filter with
    | ok test => exact fun _ he => by cases he
    | error e =>
      rintro _ ⟨⟩
      obtain rfl := DocumentStore.selectAll_error h
      rfl
  | upsert m =>
    rw [answer, MappingIndex.upsert, MappingIndex.insert]
    split_ifs
    · rintro _ ⟨⟩
      rfl
    · exact fun _ he => by cases he
  | publish topic key payload => exact fun _ he => by cases he

namespace Program

variable {α β : Type}

/-- Whether a program ends well, or with an error that passes or is bad in some other way, if its
calls fail only as they may. -/
def Risks (good : α → World → Prop) (bad : OpError → World → Prop) (q : Program α) (w : World) :
    Prop :=
  q.Upholds Exchange.IsRegular (fun _ _ => True) (fun r w' => match r with
    | .ok a => good a w'
    | .error e => e.isTransient = true ∨ bad e w') w

/-- Whether a program ends without an error, or with one that passes. -/
def Passes (q : Program α) (w : World) : Prop := q.Risks (fun _ _ => True) (fun _ _ => False) w

variable {good : α → World → Prop} {bad : OpError → World → Prop} {mid : β → World → Prop}
  {q : Program β} {f : β → Program α} {w : World}

namespace Risks

theorem tidy {q : Program α} (h : w.documents.Tidy → q.Risks good bad w) : q.Risks good bad w :=
  Upholds.tidy h

theorem done {a : α} (h : good a w) : (pure a : Program α).Risks good bad w := Upholds.done h

theorem fail {e : OpError} (h : bad e w) : (fail e : Program α).Risks good bad w :=
  Upholds.fail (.inr h)

/-- A result that is known before. -/
theorem known {r : Except OpError α} (hgood : ∀ a, r = .ok a → good a w)
    (hbad : ∀ e, r = .error e → bad e w) : (ofExcept r).Risks good bad w := by
  cases r with
  | ok a => exact done (hgood a rfl)
  | error e => exact fail (hbad e rfl)

theorem mono {good' : α → World → Prop} {bad' : OpError → World → Prop} {q : Program α}
    (h : q.Risks good bad w) (hgood : ∀ a w', good a w' → good' a w')
    (hbad : ∀ e w', bad e w' → bad' e w') : q.Risks good' bad' w := by
  refine Upholds.mono h fun r w' hr => ?_
  cases r with
  | ok a => exact hgood a w' hr
  | error e => exact hr.imp_right (hbad e w')

theorem bind (hq : q.Risks mid bad w) (next : ∀ b w', mid b w' → (f b).Risks good bad w') :
    (q >>= f).Risks good bad w := Upholds.bind hq next fun _ _ h => h

/-- An error is no end if it is handed on as a result. -/
theorem attempt {bad' : OpError → World → Prop} {q : Program α} (h : q.Risks good bad w) :
    q.attempt.Risks (fun result w' => match result with
      | .ok a => good a w'
      | .error e => e.isTransient = true ∨ bad e w') bad' w := Upholds.attempt h

/-- A single call, by what it is answered. -/
theorem single {c : Call} {k : c.Answer → Except OpError α}
    (h : w.documents.Tidy → ∀ x : Circumstances, Exchange.IsRegular ⟨c, (w.reply x c).1⟩ →
      match k (w.reply x c).1 with
      | .ok a => good a (w.reply x c).2
      | .error e => e.isTransient = true ∨ bad e (w.reply x c).2) :
    (call c fun a => .done (k a)).Risks good bad w := Upholds.single trivial h

end Risks

namespace Passes

theorem done {a : α} : (pure a : Program α).Passes w := Risks.done trivial

theorem bind (hq : q.Passes w) (next : ∀ b w', (f b).Passes w') : (q >>= f).Passes w :=
  Risks.bind hq fun b w' _ => next b w'

/-- What passes is no risk. -/
theorem risks {q : Program α} (h : q.Passes w) : q.Risks (fun _ _ => True) bad w :=
  h.mono (fun _ _ h => h) fun _ _ h => h.elim

/-- What cannot end badly passes. -/
theorem of_risks {q : Program α} (h : q.Risks good (fun _ _ => False) w) : q.Passes w :=
  h.mono (fun _ _ _ => trivial) fun _ _ h => h

end Passes

/-! ## The store -/

theorem authorize_risks (userId : String) (resource : ResourceRef) (permission : Permission)
    (hbad : ∀ e w', (∀ details, e ≠ .frame details) → w'.stores = w.stores → bad e w') :
    (authorize userId resource permission).Risks (fun _ w' => w'.stores = w.stores) bad w := by
  refine Risks.single fun _ x _ => ?_
  have hsame := w.reply_look x (c := .authorize userId resource permission) rfl
  generalize (w.reply x (.authorize userId resource permission)).1 = a
  split
  · exact hsame.stores
  · rename_i e he
    refine .inr (hbad e _ ?_ hsame.stores)
    rintro details rfl
    unfold Checker.verdict at he
    split at he <;> cases he

theorem findOne_risks (collection : String) (filter : Filter)
    (hbad : ∀ e w', (∀ details, e ≠ .frame details) → w'.stores = w.stores → bad e w') :
    (findOne collection filter).Risks (fun o w' => w'.stores = w.stores ∧
      w.documents.findOne collection filter = .ok o) bad w := by
  refine Risks.single fun _ x hx => ?_
  have hsame := w.reply_look x (c := .findOne collection filter) rfl
  cases ha : (w.reply x (.findOne collection filter)).1 with
  | ok o =>
    rw [w.reply_of_not_failed x (c := .findOne collection filter) nofun fun e he => by
      rw [ha] at he; cases he] at ha
    exact ⟨hsame.stores, ha⟩
  | error e =>
    rw [ha] at hx
    have hmay : (Call.findOne collection filter).mayFail e = true := hx e rfl
    cases e with
    | database | bus => exact .inl rfl
    | serialization details => exact .inr (hbad _ _ nofun hsame.stores)
    | _ => cases hmay

theorem insert_risks (r : Resource)
    (hbad : ∀ e w', (∀ details, e ≠ .frame details) → w'.stores = w.stores → bad e w') :
    (insert r.document).Risks (fun _ w' => w'.stores =
      { w.stores with documents := w.stores.documents ++ [r.stored] }) bad w := by
  refine Risks.single fun _ x hx => ?_
  cases ha : (w.reply x (.insert r.document)).1 with
  | ok u =>
    obtain ⟨documents, hs, hw⟩ := w.insert_of_reply x ha
    rw [DocumentStore.insert] at hs
    split_ifs at hs
    obtain rfl := Except.ok.inj hs
    rw [hw]
    rfl
  | error e =>
    have hsame := w.reply_failed x (c := .insert r.document) (congrArg some ha.symm)
    rw [ha] at hx
    have hmay : (Call.insert r.document).mayFail e = true := hx e rfl
    cases e with
    | database | bus => exact .inl rfl
    | alreadyExists kind name => exact .inr (hbad _ _ (fun _ h => by cases h) hsame.stores)
    | _ => cases hmay

theorem deleteOne_passes (collection : String) (filter : Filter) :
    (deleteOne collection filter).Passes w := by
  refine Risks.single fun _ x hx => ?_
  cases ha : (w.reply x (.deleteOne collection filter)).1 with
  | ok hit => trivial
  | error e =>
    rw [ha] at hx
    exact .inl (hx e rfl)

theorem patchOne_passes (collection : String) (filter : Filter) {patch : Patch}
    (hne : patch.isEmpty = false) : (patchOne collection filter patch).Passes w := by
  refine Risks.single fun _ x hx => ?_
  cases ha : (w.reply x (.patchOne collection filter patch)).1 with
  | ok hit => trivial
  | error e =>
    rw [ha] at hx
    have hmay : (Call.patchOne collection filter patch).mayFail e = true := hx e rfl
    cases e with
    | serialization details => cases hne.symm.trans hmay
    | _ => exact .inl hmay

/-! ## The index, the bus and the events -/

theorem now_risks : now.Risks (fun _ w' => w'.stores = w.stores) bad w :=
  Risks.single fun _ x _ => (w.reply_look x (c := .now) rfl).stores

theorem freshId_risks : freshId.Risks (fun _ w' => w'.stores = w.stores) bad w :=
  Risks.single fun _ x _ => (w.reply_look x (c := .freshId) rfl).stores

theorem emit_risks (kind : EventKind) (r : Resource) :
    (emit kind r).Risks (fun _ w' => w'.stores = w.stores.tell kind r) bad w := by
  refine Risks.single fun _ x _ => ?_
  rw [w.reply_of_not_failed x (c := .emit (.of kind r)) nofun nofun]
  rfl

theorem resolve_risks (s : Scope) : (resolve s).Risks
    (fun o w' => o = w.mappings.resolve s ∧ w'.stores = w.stores) bad w := by
  refine Risks.single fun _ x hx => ?_
  have hsame := w.reply_look x (c := .resolve s) rfl
  cases ha : (w.reply x (.resolve s)).1 with
  | ok o =>
    rw [w.reply_of_not_failed x (c := .resolve s) nofun fun e he => by
      rw [ha] at he; cases he] at ha
    exact ⟨(Except.ok.inj ha).symm, hsame.stores⟩
  | error e =>
    rw [ha] at hx
    exact .inl (hx e rfl)

theorem upsert_risks (r : Resource) (cluster : String) : (upsert (r.mapping cluster)).Risks
    (fun _ w' => w'.stores = { w.stores with
      rows := Ledger.fileIn w.stores.rows r.mappingKey (some cluster) }) bad w := by
  refine Risks.single fun _ x hx => ?_
  cases ha : (w.reply x (.upsert (r.mapping cluster))).1 with
  | ok u =>
    have hreply := w.reply_of_not_failed x (c := .upsert (r.mapping cluster)) nofun fun e he => by
      rw [ha] at he; cases he
    rw [hreply, World.answer, MappingIndex.upsert, MappingIndex.insert] at ha ⊢
    split at ha
    · rename_i mappings hm
      split at hm
      · cases hm
      · obtain rfl := Except.ok.inj hm
        rfl
    · cases ha
  | error e =>
    rw [ha] at hx
    exact .inl (hx e rfl)

theorem removeMapping_risks (k : MappingKey) : (removeMapping k).Risks
    (fun _ w' => w'.stores = { w.stores with rows := Ledger.fileIn w.stores.rows k none }) bad
      w := by
  refine Risks.single fun _ x hx => ?_
  cases ha : (w.reply x (.removeMapping k)).1 with
  | ok n =>
    rw [w.reply_of_not_failed x (c := .removeMapping k) nofun fun e he => by
      rw [ha] at he; cases he]
    rfl
  | error e =>
    rw [ha] at hx
    exact .inl (hx e rfl)

theorem removeScope_risks (s : Scope) : (removeScope s).Risks
    (fun _ w' => w'.stores = { w.stores with rows := w.stores.rows.filter (!·.inScope s) }) bad
      w := by
  refine Risks.single fun _ x hx => ?_
  cases ha : (w.reply x (.removeScope s)).1 with
  | ok n =>
    rw [w.reply_of_not_failed x (c := .removeScope s) nofun fun e he => by
      rw [ha] at he; cases he]
    rfl
  | error e =>
    rw [ha] at hx
    exact .inl (hx e rfl)

theorem reassignScope_risks (s : Scope) (cluster : String) : (reassignScope s cluster).Risks
    (fun _ w' => w'.stores = { w.stores with
      rows := w.stores.rows.map fun r => if r.inScope s then { r with cluster } else r }) bad
      w := by
  refine Risks.single fun _ x hx => ?_
  cases ha : (w.reply x (.reassignScope s cluster)).1 with
  | ok n =>
    rw [w.reply_of_not_failed x (c := .reassignScope s cluster) nofun fun e he => by
      rw [ha] at he; cases he]
    rfl
  | error e =>
    rw [ha] at hx
    exact .inl (hx e rfl)

theorem publish_passes (topic key : String) (payload : ByteArray) :
    (publish topic key payload).Passes w := by
  refine Risks.single fun _ x hx => ?_
  cases ha : (w.reply x (.publish topic key payload)).1 with
  | ok n => trivial
  | error e =>
    rw [ha] at hx
    exact .inl (hx e rfl)

end Program

/-- An edit of a resource that is stored and was read puts the edited resource in its place. -/
theorem Edit.risks {e : Edit} {r : Resource} {bad : OpError → World → Prop} {w : World}
    (hr : r.stored ∈ w.stores.documents) (read : r.ReadBack e.current)
    (hkind : (e.apply r).kind = r.kind) :
    (Program.patchOne e.current.kind.collection e.filter (.ofFields e.changes)).Risks
      (fun hit w' => hit = true ∧ w'.stores = w.stores.put (e.apply r)) bad w := by
  have hne : (Patch.ofFields e.changes).isEmpty = false := by
    rcases e with ⟨current, change⟩
    cases change <;> rfl
  refine Program.Risks.single fun ht x hx => ?_
  cases ha : (w.reply x
      (.patchOne e.current.kind.collection e.filter (.ofFields e.changes))).1 with
  | ok hit =>
    obtain ⟨documents, hs, hw⟩ := w.patchOne_of_reply x ha
    obtain ⟨hhit, hdocs⟩ := ht.edited hr read hkind hs
    refine ⟨hhit, ?_⟩
    rw [hw, World.stores, hdocs, Stores.put, Edit.id_apply]
    rfl
  | error failure =>
    rw [ha] at hx
    have hmay : (Call.patchOne e.current.kind.collection e.filter
        (.ofFields e.changes)).mayFail failure = true := hx failure rfl
    cases failure with
    | serialization details => cases hne.symm.trans hmay
    | _ => exact .inl hmay

end FleetSync
