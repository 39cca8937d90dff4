import FleetSync.Proofs.Events.Lifecycle
import FleetSync.Proofs.Interleaving.Creation
import FleetSync.Proofs.Sequence.Calls
import FleetSync.Proofs.Sequence.Upholds
import FleetSync.Proofs.Store.Saying

/-!
# Honest calls

A call is honest if what it says agrees with the store (`Operation.Honest`): a message tells of a
stored document where its resource belongs to (`Delivery.Tells`), a mapping is that of a stored
resource and its cluster, a resource is stored or edited with the cluster it belongs to, and an
event is the next one of its identity. What an operation reads is shown by the store
(`World.Shows`), and here it is said of each call what goes on to be so. The events mirror the store
as long as the store and the index do not fail (`World.InStep`).
-/

namespace FleetSync

/-! ## What is told -/

/-- Whether a message tells the truth of a stored document: it carries an envelope that is about the
document as it is, and it goes to the agent of the cluster that the document belongs to. -/
structure Delivery.Tells (m : Delivery) (p : ControlPlane) (w : World) (d : StoredDocument)
    (e : Wire.Envelope) : Prop where
  carries : m.Carries e
  isOf : e.IsOf d.card
  labels : d.Says "labels" (.ofStrings e.object.labels)
  annotations : d.Says "annotations" (.ofStrings e.object.annotations)
  spec : d.Says "spec" e.object.spec
  /-- A project says itself which cluster it belongs to, and everything else is where the owner of
  its scope is mapped to. -/
  cluster : (if d.kind = .project then d.specCluster? else w.mappings.resolve d.card.key.scope) =
    some e.clusterName
  topic : m.topic = p.topicOf e.clusterName
  key : m.key = e.object.namespaceName

/-- The identity of the resource that an operation is to create or update. -/
def Operation.desires? : Operation → Option Identity
  | create _ s input | update _ s input => some (input.identity s)
  | _ => none

namespace World

variable {faults : Prop} {w w' w'' : World} {r : Resource} {id : String}

/-- Whether a stored document shows a resource. -/
def Shows (w : World) (r : Resource) : Prop := ∃ d ∈ w.documents.documents, d.Shows r

/-- Whether a store shows all of some resources, which are different ones. -/
structure Lists (w : World) (rs : List Resource) : Prop where
  shown : ∀ r ∈ rs, w.Shows r
  ids : (rs.map (·.id)).Nodup

/-- Whether the events mirror the store, unless there are faults. -/
def InStep (faults : Prop) (w : World) : Prop := faults ∨ w.Mirrors

/-- Whether a world has the documents and events of another one. -/
structure Keeps (w w' : World) : Prop where
  documents : w'.documents = w.documents
  events : w'.events = w.events

/-- Whether a world shows one more resource, of an identity that was not there before. -/
structure Gains (r : Resource) (w w' : World) : Prop where
  shows : w'.Shows r
  mappings : w'.mappings = w.mappings
  events : w'.events = w.events
  new : ¬ w.Holds r.card.key.identity
  others : ∀ i, i ≠ r.card.key.identity → (w'.Holds i ↔ w.Holds i)

/-- Whether the other documents than one stay, and the events are in step with the store. -/
structure Tends (faults : Prop) (id : String) (w w' : World) : Prop where
  others : ∀ d ∈ w.documents.documents, d.id ≠ id → d ∈ w'.documents.documents
  inStep : w'.InStep faults

theorem Shows.card_mem (h : w.Shows r) : r.card ∈ w.ledger.cards := by
  obtain ⟨d, hd, hs⟩ := h
  exact hs.card ▸ List.mem_map_of_mem hd

theorem Shows.holds (h : w.Shows r) : w.Holds r.card.key.identity := by
  obtain ⟨d, hd, hs⟩ := h
  exact ⟨d, hd, by rw [StoredDocument.identity, hs.card]⟩

/-- A project belongs to the cluster that its document names, and everything else to that of the
owner of its scope. -/
theorem target_card (w : World) (d : StoredDocument) : w.ledger.target d.card =
    if d.kind = .project then d.specCluster? else w.mappings.resolve d.card.key.scope := by
  rw [Ledger.target]
  by_cases hk : d.kind = .project
  · have hkey : d.card.key.kind = .project := hk
    have hbound : d.card.bound = d.specCluster? := if_pos hk
    rw [if_pos hkey, if_pos hk, hbound]
  · have hkey : d.card.key.kind ≠ .project := hk
    rw [if_neg hkey, if_neg hk]
    rfl

/-- Where a resource belongs to is told from the mappings. -/
theorem target_congr (h : w'.mappings = w.mappings) (c : Card) :
    w'.ledger.target c = w.ledger.target c := by
  rw [Ledger.target, Ledger.target, World.ledger, World.ledger, h]

theorem SameStores.keeps (h : w.SameStores w') : w.Keeps w' := ⟨h.documents, h.events⟩

theorem SameStores.target (h : w.SameStores w') (c : Card) :
    w'.ledger.target c = w.ledger.target c := target_congr h.mappings c

namespace Keeps

theorem refl (w : World) : w.Keeps w := ⟨rfl, rfl⟩

theorem trans (h : w.Keeps w') (h' : w'.Keeps w'') : w.Keeps w'' :=
  ⟨h'.documents.trans h.documents, h'.events.trans h.events⟩

theorem shows (h : w.Keeps w') (hs : w.Shows r) : w'.Shows r := by
  rwa [Shows, h.documents]

theorem lists (h : w.Keeps w') {rs : List Resource} (hl : w.Lists rs) : w'.Lists rs :=
  ⟨fun r hr => h.shows (hl.shown r hr), hl.ids⟩

theorem holds (h : w.Keeps w') (i : Identity) : w'.Holds i ↔ w.Holds i := by
  rw [Holds, Holds, h.documents]

theorem inStep (h : w.Keeps w') (hi : w.InStep faults) : w'.InStep faults :=
  hi.imp_right fun hm => hm.congr h.events h.holds

theorem tends (h : w.Keeps w') (ht : w'.Tends faults id w'') : w.Tends faults id w'' :=
  ⟨h.documents ▸ ht.others, ht.inStep⟩

theorem tended (h : w.Keeps w') (hi : w.InStep faults) : w.Tends faults id w' :=
  ⟨fun d hd _ => by rwa [h.documents], h.inStep hi⟩

end Keeps

theorem Tends.trans (h : w.Tends faults id w') (h' : w'.Tends faults id w'') :
    w.Tends faults id w'' :=
  ⟨fun d hd hid => h'.others d (h.others d hd hid) hid, h'.inStep⟩

theorem Tends.keeps (h : w.Tends faults id w') (h' : w'.Keeps w'') : w.Tends faults id w'' :=
  h.trans (h'.tended h.inStep)

/-- What is shown of others stays. -/
theorem Tends.shows (h : w.Tends faults id w') (hs : w.Shows r) (hid : r.id ≠ id) : w'.Shows r := by
  obtain ⟨d, hd, hs⟩ := hs
  refine ⟨d, h.others d hd ?_, hs⟩
  have hcard : d.card.id = r.card.id := congrArg Card.id hs.card
  exact fun he => hid (hcard.symm.trans he)

theorem Lists.of_sublist {rs rs' : List Resource} (h : w.Lists rs) (hs : rs'.Sublist rs) :
    w.Lists rs' :=
  ⟨fun r hr => h.shown r (hs.subset hr), h.ids.sublist (hs.map _)⟩

/-- What is done to the first of some resources leaves the others. -/
theorem Lists.rest {rs : List Resource} (h : w.Lists (r :: rs)) (ht : w.Tends faults r.id w') :
    w'.Lists rs := by
  obtain ⟨hr, hrs⟩ := List.nodup_cons.1 h.ids
  refine ⟨fun r' hr' => ht.shows (h.shown r' (List.mem_cons_of_mem _ hr')) fun hid => ?_, hrs⟩
  exact hr (List.mem_map.2 ⟨r', hr', hid⟩)

end World

/-- The envelope of a resource tells of the document that shows it. -/
theorem StoredDocument.Shows.tells {p : ControlPlane} {w : World} {d : StoredDocument}
    {r : Resource} {m : Delivery} {x : String} (h : d.Shows r)
    (hx : w.ledger.target r.card = some x) (hm : m.Carries (r.envelope x r.pendingAction))
    (topic : m.topic = p.topicOf x) (key : m.key = r.namespaceName) :
    m.Tells p w d (r.envelope x r.pendingAction) := by
  refine ⟨hm, h.card ▸ r.envelope_isOf x, h.labels, h.annotations, h.spec, ?_, topic, key⟩
  rw [← World.target_card, h.card, hx]
  rfl

/-- A message that tells of a document goes to the cluster that the document belongs to. -/
theorem Delivery.Tells.target {m : Delivery} {p : ControlPlane} {w : World} {d : StoredDocument}
    {e : Wire.Envelope} (h : m.Tells p w d e) : w.ledger.target d.card = some e.clusterName :=
  (w.target_card d).trans h.cluster

/-! ## The law -/

/-- Whether an edit is made of a stored resource: its cluster becomes the one that it belongs to,
and it is revised only if that is asked for. -/
structure Edit.Honest (e : Edit) (operation : Operation) (w : World) : Prop where
  shown : w.Shows e.current
  attached : ∀ cluster, e.change = .attach cluster → cluster = w.ledger.target e.current.card
  revised : ∀ input user time cluster, e.change = .revise input user time cluster →
    e.current.kind = input.kind ∧ cluster = w.ledger.target (e.apply e.current).card ∧
      operation.desires? = some e.current.card.key.identity

/-- The calls that agree with the store. -/
def Operation.Honest (faults : Prop) (p : ControlPlane) (operation : Operation) (w : World) :
    Call → Prop
  | .insert d => ∃ r : Resource, d = r.document ∧ r.card.key.Placed ∧
    r.clusterName = w.ledger.target r.card ∧ operation.desires? = some r.card.key.identity
  | .patchOne collection filter patch =>
    ∃ e : Edit, .patchOne collection filter patch = e.call ∧ e.Honest operation w
  | .upsert m => ∃ c ∈ w.documents.cards, ∃ x, .ofMapping m = c.key.row x ∧
    w.ledger.target c = some x
  | .publish topic key payload => ∃ d ∈ w.documents.documents, ∃ e, Delivery.Tells
    ⟨(w.bus.log topic).length, topic, key, payload, 1⟩ p w d e
  | .emit e => faults ∨ w.Awaits e
  | _ => True

/-- Whether a call is one of the index or the bus. -/
def Call.isFiling : Call → Bool
  | .upsert _ | .removeMapping _ | .removeScope _ | .reassignScope .. | .publish .. => true
  | _ => false

/-- Whether a call of the store or the index did what was asked of it, unless there are faults. -/
def Exchange.Done (faults : Prop) (x : Exchange) : Prop :=
  faults ∨ (x.call.isDue = true → ¬ x.Failed)

/-- Whether a program makes honest calls and has a property at its end. -/
def Program.Honest {α : Type} (faults : Prop) (p : ControlPlane) (operation : Operation)
    (post : Except OpError α → World → Prop) (q : Program α) (w : World) : Prop :=
  q.Upholds (Exchange.Done faults) (operation.Honest faults p) post w

/-- A call of the store or the index fails only if there are faults. -/
theorem Exchange.Done.of_failed {faults : Prop} {c : Call} {a : c.Answer} {e : OpError}
    (h : Exchange.Done faults ⟨c, a⟩) (due : c.isDue = true) (failed : c.failure? e = some a) :
    faults :=
  h.resolve_right fun h => h due ⟨e, failed⟩

end FleetSync
