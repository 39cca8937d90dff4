import FleetSync.Proofs.Sequence.Changes
import FleetSync.Proofs.Sequence.HonestCalls

/-!
# Honest operations

Whoever works on a resource that the store shows makes honest calls only, leaves all other documents
as they are, and at its end the events are in step with the store again (`World.Tends`). A dispatch
shows the resource on the cluster it was sent to (`ControlPlane.dispatch_honest`), and a resource is
removed along with its event (`Resource.remove_honest`). All that users do with a single resource is
made of these (`ControlPlane.create_honest`, `ControlPlane.update_honest`,
`ControlPlane.delete_honest`, `ControlPlane.resync_honest`).
-/

namespace FleetSync

open Program (Honest)
open Program.Upholds (done fail known)

variable {faults : Prop} {p : ControlPlane} {o : Operation} {w : World} {r : Resource}

namespace Program.Honest

variable {α β : Type} {q : Program β} {f : β → Program α} {mid : Except OpError β → World → Prop}
  {id : String}

/-- What tends one document goes on to tend it. -/
theorem tends (hq : Honest faults p o (fun b w' => w.Tends faults id w' ∧ mid b w') q w)
    (next : ∀ b w', w'.InStep faults → mid (.ok b) w' →
      Honest faults p o (fun _ w'' => w'.Tends faults id w'') (f b) w') :
    Honest faults p o (fun _ w' => w.Tends faults id w') (q >>= f) w :=
  hq.bind (fun b w' h => (next b w' h.1.inStep h.2).mono fun _ _ h' => h.1.trans h')
    fun _ _ h => h.1

/-- What only looks keeps everything in step. -/
theorem look (hi : w.InStep faults)
    (hq : Honest faults p o (fun b w' => w.SameStores w' ∧ mid b w') q w)
    (next : ∀ b w', w.SameStores w' → mid (.ok b) w' →
      Honest faults p o (fun _ w'' => w'.Tends faults id w'') (f b) w') :
    Honest faults p o (fun _ w' => w.Tends faults id w') (q >>= f) w :=
  hq.bind (fun b w' h => (next b w' h.1 h.2).mono fun _ _ h' => h.1.keeps.tends h')
    fun _ _ h => h.1.keeps.tended hi

/-- The clock is looked at. -/
theorem now {f : Instant → Program α} (hi : w.InStep faults)
    (next : ∀ time w', w.SameStores w' →
      Honest faults p o (fun _ w'' => w'.Tends faults id w'') (f time) w') :
    Honest faults p o (fun _ w' => w.Tends faults id w') (Program.now >>= f) w :=
  have looked : Honest faults p o (fun _ w' => w.SameStores w' ∧ True) Program.now w :=
    now_honest.mono fun _ _ h => ⟨h, trivial⟩
  look hi looked fun time w' h _ => next time w' h

end Program.Honest

namespace Resource

theorem cluster_honest (r : Resource) : Honest faults p o (fun result w' => w.SameStores w' ∧
    ∀ x, result = .ok x → x = w.ledger.target r.card) r.cluster w := by
  rw [cluster_eq]
  split
  · rename_i hk
    exact done ⟨.refl w, fun x hx => (Except.ok.inj hx).symm.trans (if_pos hk).symm⟩
  · rename_i hk
    exact (Program.resolve_honest r.scope).mono fun _ w' h =>
      ⟨h.1, fun x hx => (h.2 x hx).trans (if_neg hk).symm⟩

/-- Setting the cluster of a resource to the one that it belongs to shows the resource there. -/
theorem attach_honest (hr : w.Shows r) (hi : w.InStep faults) :
    Honest faults p o (fun result w' => w.Tends faults r.id w' ∧ w'.mappings = w.mappings ∧
      (result.isOk = true → w'.Shows { r with clusterName := w.ledger.target r.card }))
      (r.patch [.set ["cluster_name"] (.ofOption .str (w.ledger.target r.card))]) w := by
  let e : Edit := ⟨r, .attach (w.ledger.target r.card)⟩
  have honest : e.Honest o w :=
    ⟨hr, fun x hx => (Change.attach.inj hx).symm, fun _ _ _ _ hc => nomatch hc⟩
  refine (e.honest honest hi).mono fun result w' h => ⟨h.1, h.2.1, fun hok => ?_⟩
  cases result with
  | error e => cases hok
  | ok hit => exact (h.2.2 hit rfl).resolve_right fun hg => nomatch hg.2

/-- What is left without the document of a resource are the other identities. -/
theorem holds_of_deleted {w' : World} (ht : w.documents.Tidy) (hr : w.Shows r)
    (hdocs : w'.documents.documents = w.documents.documents.filter fun d => decide (d.id ≠ r.id))
    (i : Identity) : w'.Holds i ↔ w.Holds i ∧ i ≠ r.card.key.identity := by
  have tidy := Ledger.tidy_of_documents ht
  rw [World.Holds, Identity.Taken, hdocs]
  constructor
  · rintro ⟨d, hd, rfl⟩
    obtain ⟨hd, hid⟩ := List.mem_filter.1 hd
    refine ⟨⟨d, hd, rfl⟩, fun heq => of_decide_eq_true hid ?_⟩
    exact congrArg Card.id (tidy.eq_of_identity (List.mem_map_of_mem hd) hr.card_mem heq)
  · rintro ⟨⟨d, hd, rfl⟩, hne⟩
    refine ⟨d, List.mem_filter.2 ⟨hd, decide_eq_true fun hid => hne ?_⟩, rfl⟩
    exact congrArg (·.key.identity) (tidy.eq_of_id (List.mem_map_of_mem hd) hr.card_mem hid)

/-- A resource is removed, and told to be. -/
theorem remove_honest (hr : w.Shows r) (hi : w.InStep faults) :
    Honest faults p o (fun _ w' => w.Tends faults r.id w') r.remove w := by
  refine Program.Upholds.tidy fun ht => ?_
  refine (Program.deleteOne_honest hr).bind (fun hit w₁ h₁ => ?_) fun _ _ h => h.2.keeps.tended hi
  obtain ⟨hevents, hdocs⟩ := h₁
  have others : ∀ d ∈ w.documents.documents, d.id ≠ r.id → d ∈ w₁.documents.documents :=
    fun d hd hid => by rw [hdocs]; exact List.mem_filter.2 ⟨hd, decide_eq_true hid⟩
  refine (Program.removeMapping_honest r.mappingKey).bind (fun _ w₂ h₂ => ?_)
    fun e w' h => ⟨h.1.documents ▸ others, .inl (h.2 e rfl)⟩
  have holds : ∀ i, w₂.Holds i ↔ w.Holds i ∧ i ≠ r.card.key.identity :=
    fun i => (h₂.1.holds i).trans (holds_of_deleted ht hr hdocs i)
  have announces : faults ∨ w₂.Announces w.Holds :=
    hi.imp_right fun h => h.congr (h₂.1.events.trans hevents) fun _ => Iff.rfl
  refine (Program.emit_inStep .deleted announces ⟨hr.holds, fun h => ?_⟩
    fun i hne => (holds i).trans (and_iff_left hne)).mono fun _ w₃ h₃ => ⟨?_, h₃.2⟩
  · exact ((holds _).1 h).2 rfl
  · rw [h₃.1, h₂.1.documents]
    exact others

end Resource

namespace ControlPlane

variable {action : SyncAction}

/-- What is sent tells of the document of the resource. -/
theorem send_honest (hr : w.Shows r) (ha : action = r.pendingAction) :
    Honest faults p o (fun result w' => w.Keeps w' ∧ w'.mappings = w.mappings ∧
      ∀ outcome, result = .ok outcome → outcome.cluster? = w.ledger.target r.card)
      (p.send r action) w := by
  refine r.cluster_honest.bind (fun cluster w₁ h₁ => ?_)
    fun _ _ h => ⟨h.1.keeps, h.1.mappings, fun _ he => nomatch he⟩
  obtain ⟨same, hcluster⟩ := h₁
  have hcluster := hcluster cluster rfl
  cases cluster with
  | none =>
    refine done ⟨same.keeps, same.mappings, fun outcome ho => ?_⟩
    obtain rfl := Except.ok.inj ho
    exact hcluster
  | some x =>
    refine (Program.ofExcept_honest _).bind (fun frame w₂ h₂ => ?_)
      fun _ _ h => ⟨h.1 ▸ same.keeps, h.1 ▸ same.mappings, fun _ he => nomatch he⟩
    obtain ⟨rfl, hframe⟩ := h₂
    have hframe : Wire.Frame.ofEnvelope (r.envelope x r.pendingAction) = .ok frame := by
      rw [ha] at hframe
      cases h : Wire.Frame.ofEnvelope (r.envelope x r.pendingAction) with
      | error e => rw [h] at hframe; cases hframe
      | ok f => rw [h] at hframe; exact congrArg _ (Except.ok.inj hframe)
    obtain ⟨d, hd, hs⟩ := same.keeps.shows hr
    have hx : w₁.ledger.target r.card = some x := (same.target r.card).trans hcluster.symm
    have tells := hs.tells (p := p) (m := ⟨(w₁.bus.log (p.topicOf x)).length, p.topicOf x,
      r.namespaceName, frame.toBytes, 1⟩) hx ⟨frame, hframe, rfl⟩ rfl rfl
    refine (Program.publish_honest hd tells).bind (fun offset w₃ h₃ => ?_) fun _ _ h =>
      ⟨same.keeps.trans h.1, h.2.trans same.mappings, fun _ he => nomatch he⟩
    refine done ⟨same.keeps.trans h₃.1, h₃.2.trans same.mappings, fun outcome ho => ?_⟩
    obtain rfl := Except.ok.inj ho
    exact hcluster

/-- A dispatch shows the resource on the cluster that it was sent to. -/
theorem dispatch_honest (hr : w.Shows r) (hi : w.InStep faults) (ha : action = r.pendingAction) :
    Honest faults p o (fun result w' => w.Tends faults r.id w' ∧ ∀ outcome r',
      result = .ok (outcome, r') → outcome.cluster? = r'.clusterName ∧
        r' = { r with clusterName := w.ledger.target r.card } ∧ w'.Shows r')
      (p.dispatch r action) w := by
  refine (send_honest hr ha).bind (fun outcome w₁ h₁ => ?_)
    fun _ _ h => ⟨h.1.tended hi, fun _ _ he => nomatch he⟩
  obtain ⟨keeps, hmappings, houtcome⟩ := h₁
  have houtcome := houtcome outcome rfl
  have hr₁ := keeps.shows hr
  have htarget : w₁.ledger.target r.card = w.ledger.target r.card :=
    World.target_congr hmappings r.card
  have attached := r.attach_honest (p := p) (o := o) hr₁ (keeps.inStep hi)
  rw [htarget, ← houtcome] at attached
  -- What goes on with a resource that has its cluster already is the resource itself.
  have stays : r.clusterName = outcome.cluster? → ∀ outcome' r',
      (.ok (outcome, r) : Except OpError (DispatchOutcome × Resource)) = .ok (outcome', r') →
      outcome'.cluster? = r'.clusterName ∧
        r' = { r with clusterName := w.ledger.target r.card } ∧ w₁.Shows r' := by
    intro hsame outcome' r' heq
    obtain ⟨rfl, rfl⟩ := Prod.mk.inj (Except.ok.inj heq)
    exact ⟨hsame.symm, by rw [← houtcome, ← hsame], hr₁⟩
  cases hx : outcome.cluster? with
  | some x =>
    rw [hx] at attached houtcome stays
    dsimp only
    split
    · rename_i hsame
      exact done ⟨keeps.tended hi, stays hsame⟩
    refine attached.bind (fun _ w₂ h₂ => ?_)
      fun _ _ h => ⟨keeps.tends h.1, fun _ _ he => nomatch he⟩
    have hr₂ := h₂.2.2 rfl
    have target : w₂.ledger.target r.card = some x :=
      (World.target_congr h₂.2.1 r.card).trans (htarget.trans houtcome.symm)
    refine (Program.upsert_honest hr₂.card_mem target).bind (fun _ w₃ h₃ => ?_)
      fun _ _ h => ⟨(keeps.tends h₂.1).keeps h.1, fun _ _ he => nomatch he⟩
    refine done ⟨(keeps.tends h₂.1).keeps h₃.1, fun outcome' r' heq => ?_⟩
    obtain ⟨rfl, rfl⟩ := Prod.mk.inj (Except.ok.inj heq)
    exact ⟨hx, by rw [← houtcome], h₃.1.shows hr₂⟩
  | none =>
    rw [hx] at attached houtcome stays
    cases hrec : r.clusterName with
    | some recorded =>
      refine attached.bind (fun _ w₂ h₂ => ?_)
        fun _ _ h => ⟨keeps.tends h.1, fun _ _ he => nomatch he⟩
      refine (Program.removeMapping_honest r.mappingKey).bind (fun _ w₃ h₃ => ?_)
        fun _ _ h => ⟨(keeps.tends h₂.1).keeps h.1, fun _ _ he => nomatch he⟩
      refine done ⟨(keeps.tends h₂.1).keeps h₃.1, fun outcome' r' heq => ?_⟩
      obtain ⟨rfl, rfl⟩ := Prod.mk.inj (Except.ok.inj heq)
      exact ⟨hx, by rw [← houtcome], h₃.1.shows (h₂.2.2 rfl)⟩
    | none => exact done ⟨keeps.tended hi, stays hrec⟩

/-- A resource is sent and shown on its cluster, or it is removed. -/
theorem settle_honest (hr : w.Shows r) (hi : w.InStep faults) :
    Honest faults p o (fun result w' => w.Tends faults r.id w' ∧ ∀ outcome r',
      result = .ok (outcome, r') → ¬(outcome = .noCluster ∧ r'.markedForDeletion = true) →
        w'.Shows r') (p.settle r) w := by
  refine (dispatch_honest hr hi rfl).bind (fun sent w₁ h₁ => ?_)
    fun _ _ h => ⟨h.1, fun _ _ he => nomatch he⟩
  obtain ⟨outcome, r'⟩ := sent
  obtain ⟨tends, hsent⟩ := h₁
  obtain ⟨-, hr', hshows⟩ := hsent outcome r' rfl
  have hid : r'.id = r.id := by rw [hr']
  dsimp only
  split
  · rename_i hgone
    refine (Resource.remove_honest hshows tends.inStep).bind (fun _ w₂ h₂ => ?_)
      fun _ _ h => ⟨tends.trans (hid ▸ h), fun _ _ he => nomatch he⟩
    refine done ⟨tends.trans (hid ▸ h₂), fun outcome' r'' heq hstays => ?_⟩
    obtain ⟨rfl, rfl⟩ := Prod.mk.inj (Except.ok.inj heq)
    exact absurd hgone hstays
  · refine done ⟨tends, fun outcome' r'' heq _ => ?_⟩
    obtain ⟨rfl, rfl⟩ := Prod.mk.inj (Except.ok.inj heq)
    exact hshows

theorem requeue_honest (hr : w.Shows r) (hi : w.InStep faults) :
    Honest faults p o (fun _ w' => w.Tends faults r.id w') (p.requeue r) w := by
  refine Honest.now hi fun time w₁ same => ?_
  let e : Edit := ⟨r, .requeue time⟩
  have honest : e.Honest o w₁ :=
    ⟨same.keeps.shows hr, fun _ hc => (nomatch hc), fun _ _ _ _ hc => nomatch hc⟩
  refine (e.honest honest (same.keeps.inStep hi)).tends fun hit w₂ hi₂ h₂ => ?_
  have hr₂ := (h₂.2 hit rfl).resolve_right fun hg => nomatch hg.2
  refine (settle_honest hr₂ hi₂).tends fun sent w₃ hi₃ h₃ => ?_
  obtain ⟨outcome, r'⟩ := sent
  dsimp only
  split
  · rename_i hstays
    exact (Program.emit_updated (h₃ outcome r' rfl hstays) hi₃).bind
      (fun _ _ h => done (h.2 r.id)) fun _ _ h => h.2 r.id
  · exact done ((World.Keeps.refl w₃).tended hi₃)

/-! ## Creating -/

theorem requireOwner_honest (s : Scope) (kind : Kind) :
    Honest faults p o (fun _ w' => w.SameStores w') (s.requireOwner kind) w := by
  unfold Scope.requireOwner
  split
  · exact done (.refl w)
  refine (Program.findOne_honest s.ownerKind.collection (.owner s)).bind (fun found w₁ h₁ => ?_)
    fun _ _ h => h.1
  cases found with
  | none => exact fail h₁.1
  | some doc =>
    dsimp only
    split
    · exact fail h₁.1
    · exact done h₁.1

theorem insert_honest (placed : r.card.key.Placed)
    (attached : r.clusterName = w.ledger.target r.card)
    (desired : o.desires? = some r.card.key.identity) :
    Honest faults p o (fun result w' => if result.isOk then w.Gains r w' else w.SameStores w')
      r.insert w := by
  have inserted : Honest faults p o (fun b w' => ∃ result, b = .ok result ∧
      if result.isOk then w.Gains r w' else w.SameStores w')
        (Program.insert r.document).attempt w :=
    .attempt ((Program.insert_honest placed attached desired).mono
      fun result _ h => ⟨result, rfl, h⟩)
  refine inserted.bind (fun result w' h => ?_) fun e w' h => by obtain ⟨_, he, -⟩ := h; cases he
  obtain ⟨_, heq, h⟩ := h
  obtain rfl := Except.ok.inj heq
  cases result with
  | ok u => exact known h
  | error e => cases e <;> exact fail h

theorem create_honest (hi : w.InStep faults) (user : User) (s : Scope) (input : ResourceInput)
    (desired : o.desires? = some (input.identity s)) :
    Honest faults p o (fun _ w' => w'.InStep faults) (p.create user s input) w := by
  refine (Program.ofExcept_honest input.checkNames).bind (fun _ w₁ h₁ => ?_) fun _ _ h => h.1 ▸ hi
  obtain ⟨rfl, -⟩ := h₁
  refine (Program.ofExcept_honest (input.checkPlace s)).bind (fun _ w₁ h₁ => ?_)
    fun _ _ h => h.1 ▸ hi
  obtain ⟨rfl, hplace⟩ := h₁
  refine (Program.authorize_honest _ _ _).bind (fun _ w₁ h₁ => ?_) fun _ _ h => h.keeps.inStep hi
  replace hi := h₁.keeps.inStep hi
  refine (requireOwner_honest s input.kind).bind (fun _ w₂ h₂ => ?_) fun _ _ h => h.keeps.inStep hi
  replace hi := h₂.keeps.inStep hi
  refine Program.now_honest.bind (fun time w₃ h₃ => ?_) fun _ _ h => h.keeps.inStep hi
  replace hi := h₃.keeps.inStep hi
  refine Program.freshId_honest.bind (fun id w₄ h₄ => ?_) fun _ _ h => h.keeps.inStep hi
  replace hi := h₄.keeps.inStep hi
  refine (Resource.cluster_honest _).bind (fun cluster w₅ h₅ => ?_) fun _ _ h => h.1.keeps.inStep hi
  replace hi := h₅.1.keeps.inStep hi
  have hcluster := (h₅.2 cluster rfl).trans (h₅.1.target _).symm
  have placed := ResourceInput.placed_toResource hplace user id time
  dsimp only
  generalize hr : ({ input.toResource user s id time with clusterName := cluster } : Resource) = r
  have hcard : r.card = (input.toResource user s id time).card.on cluster := by rw [← hr]; rfl
  have hname : r.clusterName = cluster := by rw [← hr]
  have htarget : w₅.ledger.target r.card = cluster := hcard ▸ hcluster.symm
  have hpending : SyncAction.apply = r.pendingAction := by rw [← hr]; rfl
  have hident : o.desires? = some r.card.key.identity := hcard ▸ desired
  -- The events lag behind the store until the addition is told.
  have told : ∀ w' : World, w'.Shows r → w'.events = w₅.events → ¬ w₅.Holds r.card.key.identity →
      (∀ i, i ≠ r.card.key.identity → (w'.Holds i ↔ w₅.Holds i)) →
      Honest faults p o (fun _ w'' => w''.InStep faults) (do
        Program.emit .added r
        return (← p.dispatch r .apply).2) w' := by
    intro w' hshows hevents new others
    have announces : faults ∨ w'.Announces w₅.Holds :=
      hi.imp_right fun h => h.congr hevents fun _ => Iff.rfl
    refine (Program.emit_inStep .added announces ⟨new, hshows.holds⟩ others).bind
      (fun _ w'' h => ?_) fun _ _ h => h.2
    have hshows : w''.Shows r := by rwa [World.Shows, h.1]
    exact (dispatch_honest hshows h.2 hpending).bind (fun _ _ h => done h.1.inStep)
      fun _ _ h => h.1.inStep
  refine (insert_honest (hcard ▸ placed) (hname.trans htarget.symm) hident).bind (fun _ w₆ h₆ => ?_)
    fun _ _ h => h.keeps.inStep hi
  obtain ⟨hshows, hmappings, hevents, new, others⟩ := h₆
  cases cluster with
  | some x =>
    have htarget := (World.target_congr hmappings r.card).trans htarget
    refine (Program.upsert_honest hshows.card_mem htarget).bind (fun _ w₇ h₇ => ?_)
      fun e _ h => .inl (h.2 e rfl)
    exact told w₇ (h₇.1.shows hshows) (h₇.1.events.trans hevents) new
      fun i hne => (h₇.1.holds i).trans (others i hne)
  | none => exact told w₆ hshows hevents new others

/-! ## Updating -/

/-- The mappings follow a resource to the cluster that it belongs to. -/
theorem recordMove_honest (hr : w.Shows r) (hc : r.clusterName = w.ledger.target r.card) :
    Honest faults p o (fun _ w' => w.Keeps w') (recordMove r) w := by
  unfold recordMove
  cases hx : r.clusterName with
  | some x =>
    refine (Program.upsert_honest hr.card_mem (hc.symm.trans hx)).bind (fun _ w₁ h₁ => ?_)
      fun _ _ h => h.1
    split
    · exact (Program.reassignScope_honest r.scope x).bind (fun _ _ h => done (h₁.1.trans h.1))
        fun _ _ h => h₁.1.trans h.1
    · exact done h₁.1
  | none =>
    dsimp only
    split
    · exact (Program.removeScope_honest r.scope).bind (fun _ _ h => done h.1) fun _ _ h => h.1
    · exact (Program.removeMapping_honest r.mappingKey).bind (fun _ _ h => done h.1)
        fun _ _ h => h.1

theorem tryUpdate_honest (hi : w.InStep faults) (user : User) (s : Scope) (input : ResourceInput)
    (desired : o.desires? = some (input.identity s)) :
    Honest faults p o (fun _ w' => w'.InStep faults) (p.tryUpdate user s input) w := by
  unfold tryUpdate
  refine (Resource.get_honest input.kind s input.name).bind (fun current w₁ h₁ => ?_)
    fun _ _ h => h.1.keeps.inStep hi
  obtain ⟨same, hget⟩ := h₁
  obtain ⟨hcur, hkind, hident⟩ := hget current rfl
  replace hi := same.keeps.inStep hi
  replace hcur := same.keeps.shows hcur
  split
  · exact fail hi
  rename_i unmarked
  split
  · exact fail hi
  refine Program.now_honest.bind (fun time w₂ h₂ => ?_) fun _ _ h => h.keeps.inStep hi
  replace hi := h₂.keeps.inStep hi
  replace hcur := h₂.keeps.shows hcur
  refine (Resource.cluster_honest _).bind (fun cluster w₃ h₃ => ?_) fun _ _ h => h.1.keeps.inStep hi
  have hcluster := (h₃.2 cluster rfl).trans (h₃.1.target _).symm
  replace hi := h₃.1.keeps.inStep hi
  replace hcur := h₃.1.keeps.shows hcur
  let e : Edit := ⟨current, .revise input user time cluster⟩
  have honest : e.Honest o w₃ := by
    refine ⟨hcur, fun _ hc => (nomatch hc), fun _ _ _ _ hc => ?_⟩
    cases hc
    exact ⟨hkind, hcluster, desired.trans (congrArg some hident.symm)⟩
  refine (e.honest honest hi).bind (fun hit w₄ h₄ => ?_) fun _ _ h => h.1.inStep
  obtain ⟨tends, hmappings, hedited⟩ := h₄
  cases hit with
  | false => exact done tends.inStep
  | true =>
    have hshows := (hedited true rfl).resolve_right fun h => nomatch h.1
    have hpending : SyncAction.apply = (e.apply e.current).pendingAction :=
      (if_neg unmarked).symm
    have told : ∀ w' : World, w'.Shows (e.apply e.current) → w'.InStep faults →
        Honest faults p o (fun _ w'' => w''.InStep faults) (do
          Program.emit .updated (e.apply e.current)
          return some (← p.dispatch (e.apply e.current) .apply).2) w' := by
      intro w' hshows hi
      refine (Program.emit_updated hshows hi).bind (fun _ w'' h => ?_)
        fun _ _ h => (h.2 current.id).inStep
      exact (dispatch_honest h.1 (h.2 current.id).inStep hpending).bind
        (fun _ _ h => done h.1.inStep) fun _ _ h => h.1.inStep
    have hattached : (e.apply e.current).clusterName = w₄.ledger.target (e.apply e.current).card :=
      hcluster.trans (World.target_congr hmappings _).symm
    dsimp only
    rw [if_pos rfl]
    split
    · exact (recordMove_honest hshows hattached).bind
        (fun _ w₅ h₅ => told w₅ (h₅.shows hshows) (h₅.inStep tends.inStep))
        fun _ _ h => h.inStep tends.inStep
    · exact told w₄ hshows tends.inStep

theorem updateWithin_honest (hi : w.InStep faults) (user : User) (s : Scope)
    (input : ResourceInput) (desired : o.desires? = some (input.identity s)) (attempts : Nat) :
    Honest faults p o (fun _ w' => w'.InStep faults) (p.updateWithin user s input attempts) w := by
  induction attempts generalizing w with
  | zero => exact fail hi
  | succ attempts ih =>
    refine (tryUpdate_honest hi user s input desired).bind (fun updated w₁ h₁ => ?_)
      fun _ _ h => h
    cases updated with
    | some r => exact done h₁
    | none => exact ih h₁

theorem update_honest (hi : w.InStep faults) (user : User) (s : Scope) (input : ResourceInput)
    (desired : o.desires? = some (input.identity s)) :
    Honest faults p o (fun _ w' => w'.InStep faults) (p.update user s input) w := by
  refine (Program.ofExcept_honest s.check).bind (fun _ w₁ h₁ => ?_) fun _ _ h => h.1 ▸ hi
  obtain ⟨rfl, -⟩ := h₁
  refine (Program.authorize_honest _ _ _).bind (fun _ w₁ h₁ => ?_) fun _ _ h => h.keeps.inStep hi
  exact updateWithin_honest (h₁.keeps.inStep hi) user s input desired updateAttempts

/-! ## Deleting and sending again -/

theorem delete_honest (hi : w.InStep faults) (user : User) (kind : Kind) (s : Scope)
    (name : String) :
    Honest faults p o (fun _ w' => w'.InStep faults) (p.delete user kind s name) w := by
  unfold delete
  refine (Program.ofExcept_honest s.check).bind (fun _ w₁ h₁ => ?_) fun _ _ h => h.1 ▸ hi
  obtain ⟨rfl, -⟩ := h₁
  refine (Program.authorize_honest _ _ _).bind (fun _ w₁ h₁ => ?_) fun _ _ h => h.keeps.inStep hi
  replace hi := h₁.keeps.inStep hi
  refine (Resource.get_honest kind s name).bind (fun current w₂ h₂ => ?_)
    fun _ _ h => h.1.keeps.inStep hi
  have hcur := h₂.1.keeps.shows (h₂.2 current rfl).1
  replace hi := h₂.1.keeps.inStep hi
  refine Program.now_honest.bind (fun time w₃ h₃ => ?_) fun _ _ h => h.keeps.inStep hi
  let e : Edit := ⟨current, .bury user time⟩
  have honest : e.Honest o w₃ :=
    ⟨h₃.keeps.shows hcur, fun _ hc => (nomatch hc), fun _ _ _ _ hc => nomatch hc⟩
  refine (e.honest honest (h₃.keeps.inStep hi)).bind (fun hit w₄ h₄ => ?_) fun _ _ h => h.1.inStep
  obtain ⟨tends, -, hedited⟩ := h₄
  have hshows := (hedited hit rfl).resolve_right fun h => nomatch h.2
  dsimp only
  split
  · refine (dispatch_honest hshows tends.inStep rfl).bind (fun sent w₅ h₅ => ?_)
      fun _ _ h => h.1.inStep
    obtain ⟨outcome, r⟩ := sent
    have hsent := (h₅.2 outcome r rfl).2.2
    cases outcome with
    | noCluster =>
      exact (Resource.remove_honest hsent h₅.1.inStep).bind (fun _ _ h => done h.inStep)
        fun _ _ h => h.inStep
    | dispatched =>
      exact (Program.emit_updated hsent h₅.1.inStep).bind
        (fun _ _ h => done (h.2 r.id).inStep) fun _ _ h => (h.2 r.id).inStep
  · exact fail tends.inStep

theorem resync_honest (hi : w.InStep faults) (user : User) (kind : Kind) (s : Scope)
    (name : String) :
    Honest faults p o (fun _ w' => w'.InStep faults) (p.resync user kind s name) w := by
  unfold resync
  refine (Program.ofExcept_honest s.check).bind (fun _ w₁ h₁ => ?_) fun _ _ h => h.1 ▸ hi
  obtain ⟨rfl, -⟩ := h₁
  refine (Program.authorize_honest _ _ _).bind (fun _ w₁ h₁ => ?_) fun _ _ h => h.keeps.inStep hi
  replace hi := h₁.keeps.inStep hi
  refine (Resource.get_honest kind s name).bind (fun current w₂ h₂ => ?_)
    fun _ _ h => h.1.keeps.inStep hi
  have hcur := h₂.1.keeps.shows (h₂.2 current rfl).1
  exact (requeue_honest hcur (h₂.1.keeps.inStep hi)).mono fun _ _ h => h.inStep

end ControlPlane

end FleetSync
