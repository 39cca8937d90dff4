import FleetSync.Proofs.Mapping.Mapped
import FleetSync.Proofs.Sequence.Calls

/-!
# What dispatching ensures

A dispatch sends a resource to the cluster it belongs to (`Ledger.Sends`) and records that cluster
(`ControlPlane.dispatch_ensures`); with a tombstone and without a cluster the resource is removed
(`Ledger.settle`, `ControlPlane.settle_ensures`, `ControlPlane.requeue_ensures`). If it fails, the
ledger is as it was. All of this is done to a ledger whose rows are in order by deeds
(`Ledger.Mapped.evolves_settle`), and other cards stay as they are (`Ledger.mem_settle`).
-/

namespace FleetSync

namespace Ledger

/-- Whether a resource was sent to a cluster, if there is one. -/
def Sends (p : ControlPlane) (r : Resource) (action : SyncAction) (l l' : Ledger) :
    Option String → Prop
  | none => l' = l
  | some x => ∃ frame, Wire.Frame.ofEnvelope (r.envelope x action) = .ok frame ∧
    l' = l.post (p.topicOf x) r.namespaceName frame.toBytes

/-- The ledger with a card moved to a cluster, or taken away if it is marked and there is none. -/
def settle (l : Ledger) (c : Card) (cluster : Option String) : Ledger :=
  if cluster = none ∧ c.marked = true then (l.amend c (c.on cluster)).strike c
  else l.amend c (c.on cluster)

variable {p : ControlPlane} {r : Resource} {action : SyncAction} {l l' : Ledger} {c d : Card}
  {o : Option String}

/-- Sending something changes nothing but the bus. -/
theorem Sends.eq (h : Sends p r action l l' o) : l' = { l with bus := l'.bus } := by
  cases o with
  | none => rw [h]
  | some x =>
    obtain ⟨frame, -, rfl⟩ := h
    rfl

theorem Sends.cards (h : Sends p r action l l' o) : l'.cards = l.cards := by
  rw [h.eq]

theorem Sends.rows (h : Sends p r action l l' o) : l'.rows = l.rows := by
  rw [h.eq]

theorem Tidy.of_cards (h : l.Tidy) (hc : l'.cards = l.cards) : l'.Tidy :=
  ⟨hc ▸ h.ids, hc ▸ h.identities⟩

theorem Tidy.replaceIn {c' : Card} (h : l.Tidy) (hc : c ∈ l.cards) (hid : c'.id = c.id)
    (hkey : c'.key = c.key) (hl : l'.cards = c'.replaceIn l.cards) : l'.Tidy := by
  have hids : l'.cards.map (·.id) = l.cards.map (·.id) := by
    rw [hl, Card.map_id_replaceIn]
  have hidentities : l'.cards.map (·.key.identity) = l.cards.map (·.key.identity) := by
    rw [hl, Card.replaceIn, List.map_map]
    refine List.map_congr_left fun d hd => congrArg MappingKey.identity ?_
    show (if d.id = c'.id then c' else d).key = d.key
    split
    · rename_i hd'
      rw [hkey, h.eq_of_id hd hc (hd'.trans hid)]
    · rfl
  exact ⟨hids ▸ h.ids, hidentities ▸ h.identities⟩

theorem Tidy.strike (h : l.Tidy) : (l.strike c).Tidy :=
  ⟨h.ids.sublist (List.filter_sublist.map _), h.identities.sublist (List.filter_sublist.map _)⟩

/-- Other cards stay. -/
theorem mem_settle (hc : c ∈ l.cards) (hd : d ∈ l.cards) (hid : d.id ≠ c.id) :
    d ∈ (l.settle c o).cards := by
  have hamend : d ∈ (l.amend c (c.on o)).cards :=
    (mem_amend hc (c.id_on o)).2 (.inl ⟨hd, hid⟩)
  rw [Ledger.settle]
  split
  · exact mem_strike.2 ⟨hamend, hid⟩
  · exact hamend

theorem Evolves.refl : l.Evolves l := Relation.ReflTransGen.refl

theorem Evolves.deed (h : Deed l l') (tidy : l'.Tidy) : l.Evolves l' :=
  Relation.ReflTransGen.single ⟨h, tidy⟩

theorem Evolves.trans {l'' : Ledger} (h : l.Evolves l') (h' : l'.Evolves l'') : l.Evolves l'' :=
  Relation.ReflTransGen.trans h h'

theorem Sends.evolves (h : Sends p r action l l' o) (tidy : l.Tidy) : l.Evolves l' := by
  have tidy' := tidy.of_cards h.cards
  cases o with
  | none =>
    obtain rfl : l' = l := h
    exact .refl
  | some x =>
    obtain ⟨frame, -, rfl⟩ := h
    exact .deed (.post ..) tidy'

theorem Sends.target (h : Sends p r action l l' o) : l'.target c = l.target c := by
  rw [Ledger.target, Ledger.target, h.rows]

/-- A resource is sent and moved to its cluster by deeds. -/
theorem Mapped.evolves_amend (h : l.Mapped) (tidy : l.Tidy) (hc : c ∈ l.cards)
    (sends : Sends p r action l l' (l.target c)) :
    l.Evolves (l'.amend c (c.on (l.target c))) := by
  have tidy' := tidy.of_cards sends.cards
  have hc' : c ∈ l'.cards := sends.cards ▸ hc
  have bound : c.key.kind = .project → l.target c = c.bound ∧ l.target c = c.cluster := by
    intro hk
    rw [Ledger.target, if_pos hk]
    exact ⟨rfl, (h.bound c hc hk).symm⟩
  have target : l.target c = l'.target (c.on (l.target c)) := (sends.target (c := c.on _)).symm
  exact (sends.evolves tidy).trans (.deed (.amend hc' rfl rfl bound (.inr target))
    (tidy'.replaceIn hc' (c.id_on _) (c.key_on _) rfl))

theorem Mapped.evolves_settle (h : l.Mapped) (tidy : l.Tidy) (hc : c ∈ l.cards)
    (sends : Sends p r action l l' (l.target c)) : l.Evolves (l'.settle c (l.target c)) := by
  have hamend := h.evolves_amend tidy hc sends
  have tidy' := tidy.of_cards sends.cards
  have hc' : c ∈ l'.cards := sends.cards ▸ hc
  rw [Ledger.settle]
  split
  · rename_i hgone
    have hmem : (c.on (l.target c)) ∈
        (l'.amend c (c.on (l.target c))).cards := (mem_amend hc' (c.id_on _)).2 (.inr rfl)
    have hamended : (l'.amend c (c.on (l.target c))).Tidy :=
      tidy'.replaceIn hc' (c.id_on _) (c.key_on _) rfl
    exact hamend.trans (.deed (.strike (c := c.on (l.target c)) hmem hgone.1) hamended.strike)
  · exact hamend

end Ledger

open Program (Ensures)

variable {faults : Prop} {bad : OpError → World → Prop} {w : World}

/-- An edit that keeps the card of the resource keeps the ledger. -/
theorem Edit.ensures_same {e : Edit} (hcur : e.current.card ∈ w.ledger.cards)
    (hkind : ∀ input user time cluster, e.change = .revise input user time cluster →
      e.current.kind = input.kind) (hsame : e.cardOf e.current.card = e.current.card) :
    Ensures faults (fun _ w' => w'.ledger = w.ledger) bad
      (Program.patchOne e.current.kind.collection e.filter (.ofFields e.changes)) w := by
  refine Ensures.tidy fun ht => ?_
  have tidy := Ledger.tidy_of_documents ht
  refine (Edit.ensures hcur hkind).mono ?_ fun _ _ h => h
  rintro hit w' (⟨-, h⟩ | ⟨-, -, h⟩)
  · have hself : e.current.card.replaceIn w.ledger.cards = w.ledger.cards :=
      Card.replaceIn_self fun d hd hid => tidy.eq_of_id hd hcur hid
    rw [h, hsame]
    exact congrArg (fun cards => { w.ledger with cards }) hself
  · exact h

namespace Resource

/-- A project knows its cluster, and everything else looks it up. -/
theorem cluster_eq (r : Resource) : r.cluster =
    if r.card.key.kind = .project then pure r.card.bound else Program.resolve r.scope := by
  have hk : r.card.key.kind = r.spec.kind := rfl
  have hb : r.card.bound = r.spec.bound := rfl
  rw [hk, hb, cluster, Spec.bound]
  cases r.spec <;> rfl

theorem cluster_ensures (r : Resource) :
    Ensures faults (fun o w' => o = w.ledger.target r.card ∧ w'.ledger = w.ledger) bad
      r.cluster w := by
  rw [cluster_eq]
  split
  · rename_i hk
    exact Ensures.done ⟨(if_pos hk).symm, rfl⟩
  · rename_i hk
    exact (Program.resolve_ensures r.scope).mono (fun o w' h => ⟨h.1.trans (if_neg hk).symm, h.2⟩)
      fun _ _ h => h

/-- Setting the cluster of a resource replaces its card. -/
theorem attach_ensures {r : Resource} (hr : r.card ∈ w.ledger.cards) (o : Option String) :
    Ensures faults (fun _ w' => w'.ledger = { w.ledger with
      cards := (r.card.on o).replaceIn w.ledger.cards }) bad
      (r.patch [.set ["cluster_name"] (.ofOption .str o)]) w := by
  refine (Edit.ensures (e := ⟨r, .attach o⟩) hr fun _ _ _ _ h => nomatch h).mono ?_ fun _ _ h => h
  rintro hit w' (⟨-, h⟩ | ⟨-, hg, -⟩)
  · exact h
  · cases hg

/-- Removing a resource takes its card and its row away. -/
theorem remove_ensures {r : Resource} (hr : r.card ∈ w.ledger.cards) :
    Ensures faults (fun _ w' => w'.ledger = w.ledger.strike r.card) bad r.remove w := by
  refine (Program.deleteOne_ensures hr).bind fun _ w₁ h₁ => ?_
  refine (Program.removeMapping_ensures r.mappingKey).bind fun _ w₂ h₂ => ?_
  refine (Program.emit_ensures .deleted r).mono (fun _ w₃ h₃ => ?_) fun _ _ h => h
  rw [h₃, h₂, h₁]
  rfl

end Resource

namespace ControlPlane

variable (p : ControlPlane)

theorem send_ensures (r : Resource) (action : SyncAction)
    (hbad : ∀ e w', w'.ledger = w.ledger → bad e w') :
    Ensures faults (fun o w' => o.cluster? = w.ledger.target r.card ∧
      Ledger.Sends p r action w.ledger w'.ledger (w.ledger.target r.card)) bad
      (p.send r action) w := by
  refine (r.cluster_ensures).bind fun o w₁ h₁ => ?_
  obtain ⟨ho, hw₁⟩ := h₁
  rw [← ho]
  cases o with
  | none => exact Ensures.done ⟨rfl, hw₁⟩
  | some x =>
    have framed : Ensures faults (fun frame w' => w'.ledger = w.ledger ∧
        Wire.Frame.ofEnvelope (r.envelope x action) = .ok frame) bad (Program.ofExcept
          ((Wire.Frame.ofEnvelope (r.envelope x action)).mapError (·.toOpError))) w₁ := by
      refine Ensures.known (fun frame hf => ⟨hw₁, ?_⟩) fun e _ => .inr (hbad e _ hw₁)
      cases hframe : Wire.Frame.ofEnvelope (r.envelope x action) with
      | error e => rw [hframe] at hf; cases hf
      | ok f => rw [hframe] at hf; exact congrArg _ (Except.ok.inj hf)
    refine framed.bind fun frame w₂ h₂ => ?_
    refine (Program.publish_ensures (p.topicOf x) r.namespaceName frame.toBytes
      fun e w' hw' => hbad e w' (hw'.trans h₂.1)).bind fun offset w₃ h₃ => ?_
    refine Ensures.done ⟨rfl, frame, h₂.2, ?_⟩
    rw [h₃, h₂.1]

/-- A dispatch sends a resource to its cluster and moves its card there. -/
theorem dispatch_ensures {r : Resource} (hr : r.card ∈ w.ledger.cards) (action : SyncAction)
    (hbad : ∀ e w', w'.ledger = w.ledger → bad e w') :
    Ensures faults (fun o w' => o.1.cluster? = w.ledger.target r.card ∧
      o.2 = { r with clusterName := w.ledger.target r.card } ∧
      ∃ l, Ledger.Sends p r action w.ledger l (w.ledger.target r.card) ∧
        w'.ledger = l.amend r.card (r.card.on (w.ledger.target r.card))) bad
      (p.dispatch r action) w := by
  refine Ensures.tidy fun ht => ?_
  refine (p.send_ensures r action hbad).bind fun outcome w₁ h₁ => ?_
  obtain ⟨ho, hsends⟩ := h₁
  have hr₁ : r.card ∈ w₁.ledger.cards := hsends.cards ▸ hr
  have tidy₁ := (Ledger.tidy_of_documents ht).of_cards hsends.cards
  rw [← ho] at hsends ⊢
  cases hx : outcome.cluster? with
  | some x =>
    rw [hx] at hsends
    dsimp only
    split
    · rename_i hsame
      have hcard : r.card.on (some x) = r.card := by
        rw [← hsame]
        rfl
      refine Ensures.done ⟨hx, by rw [← hsame], w₁.ledger, hsends, ?_⟩
      rw [hcard, tidy₁.amend_self hr₁]
    · rename_i hne
      refine (r.attach_ensures hr₁ (some x)).bind fun _ w₂ h₂ => ?_
      refine (Program.upsert_ensures r x).bind fun _ w₃ h₃ => ?_
      refine Ensures.done ⟨hx, rfl, w₁.ledger, hsends, ?_⟩
      rw [h₃, h₂, Ledger.amend, if_neg fun h => hne h.symm]
      rfl
  | none =>
    rw [hx] at hsends
    cases hrec : r.clusterName with
    | some recorded =>
      refine (r.attach_ensures hr₁ none).bind fun _ w₂ h₂ => ?_
      refine (Program.removeMapping_ensures r.mappingKey).bind fun _ w₃ h₃ => ?_
      refine Ensures.done ⟨hx, rfl, w₁.ledger, hsends, ?_⟩
      have hne : (r.card.on none).cluster ≠ r.card.cluster := fun h => by
        have h : none = r.clusterName := h
        rw [hrec] at h
        cases h
      rw [h₃, h₂, Ledger.amend, if_neg hne]
      rfl
    | none =>
      have hcard : r.card.on none = r.card := by
        rw [← hrec]
        rfl
      refine Ensures.done ⟨hx, by rw [← hrec], w₁.ledger, hsends, ?_⟩
      rw [hcard, tidy₁.amend_self hr₁]

theorem DispatchOutcome.cluster?_eq_none {o : DispatchOutcome} :
    o.cluster? = none ↔ o = .noCluster := by
  cases o <;> simp [DispatchOutcome.cluster?]

/-- A resource is sent to its cluster and moved there, or removed. -/
theorem settle_ensures {r : Resource} (hr : r.card ∈ w.ledger.cards)
    (hbad : ∀ e w', w'.ledger = w.ledger → bad e w') :
    Ensures faults (fun o w' => o.1.cluster? = w.ledger.target r.card ∧
      o.2.markedForDeletion = r.markedForDeletion ∧
      ∃ l, Ledger.Sends p r r.pendingAction w.ledger l (w.ledger.target r.card) ∧
        w'.ledger = l.settle r.card (w.ledger.target r.card)) bad (p.settle r) w := by
  refine (p.dispatch_ensures hr r.pendingAction hbad).bind fun o w₁ h₁ => ?_
  obtain ⟨ho, hr', l, hsends, hw₁⟩ := h₁
  obtain ⟨outcome, r'⟩ := o
  dsimp only at ho hr' ⊢
  have hmarked : r'.markedForDeletion = r.markedForDeletion := by rw [hr']
  have hcond : (outcome = .noCluster ∧ r'.markedForDeletion = true) ↔
      (w.ledger.target r.card = none ∧ r.card.marked = true) := by
    rw [← ho, DispatchOutcome.cluster?_eq_none, hmarked]
    rfl
  split
  · rename_i hgone
    have hmem : r'.card ∈ w₁.ledger.cards := by
      rw [hw₁, hr']
      exact (Ledger.mem_amend (hsends.cards ▸ hr) (r.card.id_on _)).2 (.inr rfl)
    refine (Resource.remove_ensures hmem).bind fun _ w₂ h₂ => ?_
    refine Ensures.done ⟨ho, hmarked, l, hsends, ?_⟩
    rw [h₂, hw₁, Ledger.settle, if_pos (hcond.1 hgone), hr']
    rfl
  · rename_i hstays
    refine Ensures.done ⟨ho, hmarked, l, hsends, ?_⟩
    rw [hw₁, Ledger.settle, if_neg fun h => hstays (hcond.2 h)]

/-- Queueing a resource again does to the ledger what sending it does. -/
theorem requeue_ensures {r : Resource} (hr : r.card ∈ w.ledger.cards)
    (hbad : ∀ e w', w'.ledger = w.ledger → bad e w') :
    Ensures faults (fun o w' => o.cluster? = w.ledger.target r.card ∧
      ∃ l, Ledger.Sends p r r.pendingAction w.ledger l (w.ledger.target r.card) ∧
        w'.ledger = l.settle r.card (w.ledger.target r.card)) bad (p.requeue r) w := by
  refine Program.now_ensures.bind fun time w₁ h₁ => ?_
  have queued : Ensures faults (fun _ w' => w'.ledger = w₁.ledger) bad
      (Program.patchOne r.kind.collection (.byId r.id) [.set ["sync_status"]
        (r.syncStatus.queued r.pendingAction time).encode]) w₁ :=
    Edit.ensures_same (e := ⟨r, .requeue time⟩) (h₁ ▸ hr) (fun _ _ _ _ h => nomatch h) rfl
  refine queued.bind fun _ w₂ h₂ => ?_
  rw [h₁] at h₂
  let r' : Resource := { r with syncStatus := r.syncStatus.queued r.pendingAction time }
  have hr' : r'.card ∈ w₂.ledger.cards := h₂ ▸ hr
  refine (p.settle_ensures hr' fun e w' hw' => hbad e w' (hw'.trans h₂)).bind fun o w₃ h₃ => ?_
  obtain ⟨ho, -, l, hsends, hw₃⟩ := h₃
  obtain ⟨outcome, r''⟩ := o
  rw [h₂] at ho hsends hw₃
  dsimp only at ho ⊢
  split
  · refine (Program.emit_ensures .updated r'').bind fun _ w₄ h₄ => ?_
    exact Ensures.done ⟨ho, l, hsends, h₄.trans hw₃⟩
  · exact Ensures.done ⟨ho, l, hsends, hw₃⟩

end ControlPlane

end FleetSync
