import FleetSync.Proofs.Isolation.Agreement
import FleetSync.Proofs.Sequence.Addresses
import FleetSync.Proofs.Sequence.Decisions
import FleetSync.Proofs.Store.Timestamps

/-!
# Where no call is made to fail

A program that goes on alone, and none of whose calls is made to fail, is run against the world. It
does the same in worlds that differ only in what was published and told (`World.Alike`,
`Program.Alike.run`). What it has at its end is worked out call by call (`Program.Ends`): what is
found is read from a stored document (`StoredDocument.Gives`), and an edit of it fails and does
nothing, or puts the edited resource in its place (`Edit.ends`). The store may fail of itself, where
it cannot read what it holds.
-/

namespace FleetSync

/-! ## Worlds that differ in messages and events -/

/-- Whether two worlds have the same documents and mappings. -/
structure World.SameRecords (w w' : World) : Prop where
  documents : w'.documents = w.documents
  mappings : w'.mappings = w.mappings

/-- Whether two worlds have the same documents and mappings, the same time and the same ids to
give. -/
structure World.Alike (w w' : World) : Prop extends w.SameRecords w' where
  clock : w'.clock = w.clock
  idsGiven : w'.idsGiven = w.idsGiven

namespace World

variable {w w' w'' : World}

namespace Alike

theorem refl (w : World) : w.Alike w := ⟨⟨rfl, rfl⟩, rfl, rfl⟩

theorem symm (h : w.Alike w') : w'.Alike w :=
  ⟨⟨h.documents.symm, h.mappings.symm⟩, h.clock.symm, h.idsGiven.symm⟩

theorem trans (h : w.Alike w') (h' : w'.Alike w'') : w.Alike w'' :=
  ⟨⟨h'.documents.trans h.documents, h'.mappings.trans h.mappings⟩, h'.clock.trans h.clock,
    h'.idsGiven.trans h.idsGiven⟩

theorem target (h : w.Alike w') (c : Card) : w'.ledger.target c = w.ledger.target c :=
  target_congr h.mappings c

end Alike

/-- Only what gives an id changes which one comes next, and the time stands still. -/
theorem answer_keeps (checker : Checker) {c : Call} (hc : c ≠ .freshId) (w : World) :
    (w.answer checker c).2.clock = w.clock ∧ (w.answer checker c).2.idsGiven = w.idsGiven := by
  cases c with
  | freshId => exact absurd rfl hc
  | insert | patchOne | deleteOne | deleteMany | upsert =>
    simp only [answer]
    split <;> exact ⟨rfl, rfl⟩
  | _ => exact ⟨rfl, rfl⟩

/-- Worlds that are alike answer alike, and are alike afterwards. -/
theorem Alike.answer (h : w.Alike w') (checker : Checker) (c : Call) :
    Exchange.Alike ⟨c, (w.answer checker c).1⟩ ⟨c, (w'.answer checker c).1⟩ ∧
      (w.answer checker c).2.Alike (w'.answer checker c).2 := by
  by_cases hc : c = .freshId
  · subst hc
    have hid : (w'.answer checker .freshId).1 = (w.answer checker .freshId).1 :=
      congrArg idText h.idsGiven
    rw [hid]
    exact ⟨.same _, ⟨h.documents, h.mappings⟩, h.clock, congrArg (· + 1) h.idsGiven⟩
  · obtain ⟨clock, given⟩ := w.answer_keeps checker hc
    obtain ⟨clock', given'⟩ := w'.answer_keeps checker hc
    obtain ⟨alike, documents, mappings⟩ := w.answer_alike checker w' hc h.documents.symm
      h.mappings.symm h.clock.symm
    exact ⟨alike, ⟨documents.symm, mappings.symm⟩, clock'.trans (h.clock.trans clock.symm),
      given'.trans (h.idsGiven.trans given.symm)⟩

end World

/-- Programs that do alike leave alike worlds alike. -/
theorem Program.Alike.run {α : Type} {R : α → α → Prop} {q q' : Program α} (h : Alike R q q')
    (checker : Checker) {w w' : World} (alike : w.Alike w') :
    (q.run (World.answer checker) w).2.Alike (q'.run (World.answer checker) w').2 := by
  induction h generalizing w w' with
  | error e => exact alike
  | ok h => exact alike
  | call _ ih => exact ih _ _ (alike.answer checker _).1 (alike.answer checker _).2

/-! ## What programs end with -/

namespace Program

variable {α β : Type}

/-- Whether a program has a property at its end where no call is made to fail. -/
def Ends (post : Except OpError α → World → Prop) (q : Program α) (w : World) : Prop :=
  post (q.run (World.answer .allowAll) w).1 (q.run (World.answer .allowAll) w).2

variable {post : Except OpError α → World → Prop} {q : Program β} {f : β → Program α} {w : World}

theorem Ends.run {q : Program α} (h : q.Ends post w) :
    ∃ r w', q.run (World.answer .allowAll) w = (r, w') ∧ post r w' := ⟨_, _, rfl, h⟩

theorem Ends.mono {post' : Except OpError α → World → Prop} {q : Program α} (h : q.Ends post w)
    (hpost : ∀ r w', post r w' → post' r w') : q.Ends post' w := hpost _ _ h

theorem Ends.done {a : α} (h : post (.ok a) w) : (pure a : Program α).Ends post w := h

theorem Ends.known {r : Except OpError α} (h : post r w) : (ofExcept r).Ends post w := h

theorem Ends.bind {mid : Except OpError β → World → Prop} (hq : q.Ends mid w)
    (ok : ∀ b w', mid (.ok b) w' → (f b).Ends post w')
    (error : ∀ e w', mid (.error e) w' → post (.error e) w') : (q >>= f).Ends post w := by
  have hrun := q.run_bind (World.answer .allowAll) f w
  unfold Ends at hq
  rcases hresult : q.run (World.answer .allowAll) w with ⟨_ | b, w'⟩
  · rw [hresult] at hq hrun
    rw [Ends, hrun]
    exact error _ _ hq
  · rw [hresult] at hq hrun
    rw [Ends, hrun]
    exact ok _ _ hq

/-- What comes after a program that ends without an error. -/
theorem Ends.after {v : World} {b : β} (hq : q.run (World.answer .allowAll) w = (.ok b, v))
    (next : (f b).Ends post v) : (q >>= f).Ends post w := by
  rw [Ends, run_bind, hq]
  exact next

end Program

/-! ## What is found -/

/-- Whether a resource was read from a stored document. -/
structure StoredDocument.Gives (d : StoredDocument) (read : Resource) : Prop where
  readable : d.body.isReadable = true
  decoded : ∃ kind j, d.collection = Kind.collection kind ∧ d.read = .ok j ∧
    Resource.ofDocument kind j = .ok read

namespace StoredDocument.Gives

variable {r read : Resource}

theorem readBack (h : r.stored.Gives read) : r.ReadBack read := by
  obtain ⟨readable, kind, j, hcol, hj, hread⟩ := h
  have hkind : r.kind = kind := Kind.collection_inj hcol
  exact ⟨Resource.resembles_of_read hkind hj hread, readable,
    Resource.shows_of_read hkind hj hread⟩

theorem scheduled (h : r.stored.Gives read) :
    read.syncStatus.syncScheduledAt = r.syncStatus.syncScheduledAt := by
  obtain ⟨-, kind, j, -, hj, hread⟩ := h
  exact Resource.scheduled_of_read hj hread

theorem state (h : r.stored.Gives read) : read.syncStatus.state = r.syncStatus.state := by
  obtain ⟨-, kind, j, -, hj, hread⟩ := h
  exact Resource.state_of_read hj hread

end StoredDocument.Gives

namespace DocumentStore.Tidy

variable {s s' : DocumentStore} {r r' : Resource}

theorem of_sublist (h : s.Tidy) (hs : s'.documents.Sublist s.documents) : s'.Tidy where
  sound d hd := h.sound d (hs.subset hd)
  ids := h.ids.sublist (hs.map _)
  keys := h.keys.sublist (hs.map _)

/-- A sound resource in the place of the one with its id and its identity. -/
theorem put (h : s.Tidy) (hr : r.stored ∈ s.documents) (sound : r'.Sound) (hid : r'.id = r.id)
    (hkind : r'.kind = r.kind) (hkey : r'.identityKey = r.identityKey)
    (hs : s'.documents = s.documents.map fun d => if d.id = r.id then r'.stored else d) :
    s'.Tidy := by
  have filed : ∀ d ∈ s.documents, ∀ d', d' = (if d.id = r.id then r'.stored else d) →
      d'.id = d.id ∧ d'.collection = d.collection ∧ d'.key = d.key := by
    rintro d hd d' rfl
    split
    · rename_i h'
      obtain rfl : d = r.stored := List.inj_on_of_nodup_map h.ids hd hr h'
      exact ⟨hid, congrArg Kind.collection hkind, hkey⟩
    · exact ⟨rfl, rfl, rfl⟩
  have hids : s'.documents.map (·.id) = s.documents.map (·.id) := by
    rw [hs, List.map_map]
    exact List.map_congr_left fun d hd => (filed d hd _ rfl).1
  have hkeys : s'.documents.map (fun d => (d.collection, d.key)) =
      s.documents.map fun d => (d.collection, d.key) := by
    rw [hs, List.map_map]
    exact List.map_congr_left fun d hd => Prod.ext (filed d hd _ rfl).2.1 (filed d hd _ rfl).2.2
  refine ⟨fun d' hd' => ?_, hids ▸ h.ids, hkeys ▸ h.keys⟩
  obtain ⟨d, hd, rfl⟩ := List.mem_map.1 (hs ▸ hd')
  split
  · exact ⟨r', sound, rfl⟩
  · exact h.sound d hd

end DocumentStore.Tidy

section Calls

variable {w : World} {r read : Resource}

/-- What a report is about is found by its address. -/
theorem Resource.findReported_ends (tidy : w.documents.Tidy) (report : Wire.Report) :
    (findOne report.resourceKind (.reported report)).Ends (fun result w' => w' = w ∧
      ∀ read, result = .ok (some read) → ∃ d ∈ w.documents.documents,
        d.card.address? = some report.address ∧ d.Gives read) w := by
  have hfind : (Program.findOne report.resourceKind.collection (.reported report)).Ends
      (fun result w' => w' = w ∧
        result = w.documents.findOne report.resourceKind.collection (.reported report)) w :=
    ⟨rfl, rfl⟩
  refine hfind.bind (fun found w₁ h₁ => ?_) fun e w₁ h₁ =>
    ⟨h₁.1, fun _ h => nomatch h⟩
  obtain ⟨rfl, hfound⟩ := h₁
  cases found with
  | none => exact Program.Ends.done ⟨rfl, fun _ h => nomatch Except.ok.inj h⟩
  | some j =>
    have hread : (Program.ofExcept (ofDocument report.resourceKind j)).Ends
        (fun result w' => w' = w₁ ∧ result = ofDocument report.resourceKind j) w₁ :=
      Program.Ends.known ⟨rfl, rfl⟩
    refine hread.bind (fun read w₂ h₂ => ?_) fun e w₂ h₂ => ⟨h₂.1, fun _ h => nomatch h⟩
    obtain ⟨rfl, hdecoded⟩ := h₂
    refine Program.Ends.done ⟨rfl, fun read' h => ?_⟩
    obtain rfl := Option.some.inj (Except.ok.inj h)
    obtain ⟨d, hfirst, hj⟩ := DocumentStore.find?_of_findOne hfound.symm
    have hmem := List.mem_of_find?_eq_some hfirst
    have hmatch := List.find?_some hfirst
    obtain ⟨address, readable⟩ := (tidy.matches_reported hmem).1 hmatch
    exact ⟨d, hmem, address, readable, _, j, DocumentStore.collection_of_matches? hmatch, hj,
      hdecoded.symm⟩

/-- A resource knows the cluster that it belongs to, or looks it up. -/
theorem Resource.cluster_ends (read : Resource) :
    read.cluster.Ends (fun result w' => w' = w ∧ result = .ok (w.ledger.target read.card)) w := by
  rw [cluster_eq, Ledger.target]
  split <;> exact ⟨rfl, rfl⟩

/-- An edit of a resource as it was read fails and does nothing, or it is made. -/
theorem Edit.ends {e : Edit} {d : StoredDocument} (tidy : w.documents.Tidy)
    (hd : d ∈ w.documents.documents) (gives : d.Gives e.current)
    (hkind : ∀ r : Resource, (e.apply r).kind = r.kind) :
    (Program.patchOne e.current.kind.collection e.filter (.ofFields e.changes)).Ends
      (fun result w' => (∃ failure, result = .error failure) ∧ w' = w ∨
        result = .ok true ∧ ∃ documents, w' = { w with documents } ∧
          ∀ r : Resource, r.stored = d → documents.documents = w.documents.documents.map fun d =>
            if d.id = r.id then (e.apply r).stored else d) w := by
  rw [Program.Ends, Program.patchOne, Program.run_call, Program.run_done]
  cases hs : w.documents.patchOne e.current.kind.collection e.filter (.ofFields e.changes) with
  | error failure =>
    rw [World.answer, hs]
    exact .inl ⟨⟨failure, rfl⟩, rfl⟩
  | ok result =>
    obtain ⟨hit, documents⟩ := result
    have made : ∀ r : Resource, r.stored = d → hit = true ∧ documents.documents =
        w.documents.documents.map fun d => if d.id = r.id then (e.apply r).stored else d := by
      rintro r rfl
      exact tidy.edited hd gives.readBack (hkind r) hs
    obtain ⟨r, -, hr⟩ := tidy.sound d hd
    obtain ⟨rfl, -⟩ := made r hr
    rw [World.answer, hs]
    exact .inr ⟨rfl, documents, rfl, fun r hr => (made r hr).2⟩

/-- Filing a mapping leaves the documents. -/
theorem Program.upsert_ends (m : Mapping) :
    (upsert m).Ends (fun _ w' => w'.documents = w.documents) w := by
  rw [Ends, upsert, run_call, run_done, World.answer]
  split <;> rfl

/-- A message is published. -/
theorem Program.publish_ends (topic key : String) (payload : ByteArray) :
    (publish topic key payload).Ends (fun result w' => (∃ n, result = .ok n) ∧ w.Alike w') w :=
  ⟨⟨_, rfl⟩, ⟨rfl, rfl⟩, rfl, rfl⟩

/-- Of the documents a removal does no more than to delete the one of the resource. -/
theorem Resource.remove_ends (r : Resource) : r.remove.Ends (fun _ w' => w.Alike w' ∨
    ∃ hit, w.documents.deleteOne r.kind.collection (.byId r.id) = .ok (hit, w'.documents)) w := by
  have hdelete : (Program.deleteOne r.kind.collection (.byId r.id)).Ends (fun result w' =>
      (∃ e, result = .error e) ∧ w' = w ∨
        ∃ hit, w.documents.deleteOne r.kind.collection (.byId r.id) = .ok (hit, w'.documents))
      w := by
    rw [Program.Ends, Program.deleteOne, Program.run_call, Program.run_done, World.answer]
    split
    · exact .inr ⟨_, ‹_›⟩
    · exact .inl ⟨⟨_, rfl⟩, rfl⟩
  refine hdelete.bind (fun _ w₁ h₁ => ?_) fun _ w₁ h₁ => ?_
  · refine .inr (h₁.resolve_left ?_)
    rintro ⟨⟨e, he⟩, -⟩
    cases he
  · exact h₁.imp_left fun h => by rw [h.2]; exact .refl w

end Calls

end FleetSync
