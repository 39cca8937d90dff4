import FleetSync.Control.Change
import FleetSync.Proofs.Sequence.Dispatch

/-!
# What changes of resources ensure

To a ledger whose rows are in order, creating, deleting and sending a resource again does nothing
but deeds (`Program.Works`). So does an update, unless it moves a project: then the rows of the
project are relocated with it (`ControlPlane.update_ensures`).
-/

namespace FleetSync

/-- A project is moved: its card is replaced by one on the cluster that its new spec names, and all
rows of the project follow it. -/
inductive Ledger.Relocates (l : Ledger) : Ledger → Prop
  | intro {c c' : Card} (bus : MemoryBus) (mem : c ∈ l.cards) (project : c.key.kind = .project)
    (id : c'.id = c.id) (key : c'.key = c.key) (bound : c'.cluster = c'.bound)
    (moved : c'.cluster ≠ c.cluster) : Relocates l { l.relocate c' with bus }

/-- What an update makes of a ledger. -/
def Ledger.Updates (l l' : Ledger) : Prop := l.Evolves l' ∨ l.Relocates l'

namespace Program

variable {α β : Type} {w : World}

/-- Whether a program that runs by itself does nothing to the ledger but deeds. -/
def Works (q : Program α) (w : World) : Prop :=
  Ensures False (fun _ w' => w.ledger.Evolves w'.ledger)
    (fun _ w' => w.ledger.Evolves w'.ledger) q w

namespace Ensures

variable {q : Program β} {f : β → Program α} {mid : β → World → Prop}

/-- What follows a program works from there on. -/
theorem works (hq : Ensures False mid (fun _ w' => w.ledger.Evolves w'.ledger) q w)
    (next : ∀ b w', mid b w' → w.ledger.Evolves w'.ledger ∧ (f b).Works w') :
    (q >>= f).Works w := by
  refine hq.bind fun b w' h => ?_
  obtain ⟨evolves, works⟩ := next b w' h
  exact works.mono (fun _ _ h => evolves.trans h) fun _ _ h => evolves.trans h

/-- A program that only looks, at first. -/
theorem look (hq : Ensures False mid (fun _ w' => w'.ledger = w.ledger) q w)
    (next : ∀ b w', mid b w' → w'.ledger = w.ledger ∧ (f b).Works w') : (q >>= f).Works w := by
  refine works (hq.mono (fun _ _ h => h) fun _ w' h => h ▸ .refl) fun b w' h => ?_
  obtain ⟨same, works⟩ := next b w' h
  exact ⟨same ▸ .refl, works⟩

end Ensures

namespace Works

/-- A program that works goes on with what became of a ledger by deeds. -/
theorem after {l : Ledger} {q : Program α} (h : q.Works w) (evolves : l.Evolves w.ledger) :
    Ensures False (fun _ w' => l.Evolves w'.ledger) (fun _ w' => l.Evolves w'.ledger) q w :=
  h.mono (fun _ _ h => evolves.trans h) fun _ _ h => evolves.trans h

theorem fail {e : OpError} : (Program.fail e : Program α).Works w :=
  Ensures.fail (.inr .refl)

theorem done {a : α} : (pure a : Program α).Works w := Ensures.done .refl

theorem tidy {q : Program α} (h : w.ledger.Tidy → q.Works w) : q.Works w :=
  Ensures.tidy fun ht => h (Ledger.tidy_of_documents ht)

end Works

end Program

open Program (Ensures)

variable {w : World}

namespace ResourceInput

/-- A new resource may live in its scope. -/
theorem checkPlace_eq_ok {i : ResourceInput} {s : Scope} (h : i.checkPlace s = .ok ()) :
    s.level = i.kind.level ∧ (i.kind = .project → s.projectName = i.name) := by
  unfold checkPlace at h
  cases hs : s.check with
  | error e => rw [hs] at h; cases h
  | ok _ =>
    rw [hs] at h
    change (if s.level ≠ i.kind.level then _ else _) = _ at h
    split at h
    · cases h
    rename_i hlevel
    split at h
    · cases h
    · rename_i hname
      exact ⟨not_not.1 hlevel, fun hk => not_not.1 fun hne => hname ⟨hk, hne⟩⟩

theorem placed_toResource {i : ResourceInput} {s : Scope} (h : i.checkPlace s = .ok ())
    (user : User) (id : String) (time : Instant) :
    (i.toResource user s id time).card.key.Placed := by
  obtain ⟨hlevel, hname⟩ := checkPlace_eq_ok h
  refine ⟨?_, fun hk => (hname hk).symm⟩
  have hk : (i.toResource user s id time).card.key.kind = i.kind := rfl
  have he : (i.toResource user s id time).card.key.environment = s.environmentName? := rfl
  rw [hk, he, ← hlevel]
  cases s <;> simp [Scope.environmentName?, Scope.level]

end ResourceInput

theorem Scope.requireOwner_ensures {bad : OpError → World → Prop} (s : Scope) (kind : Kind)
    (hbad : ∀ e w', w'.ledger = w.ledger → bad e w') :
    Ensures False (fun _ w' => w'.ledger = w.ledger) bad (s.requireOwner kind) w := by
  unfold requireOwner
  split
  · exact Ensures.done rfl
  refine (Program.findOne_ensures s.ownerKind.collection (.owner s)).bind fun o w' h => ?_
  cases o with
  | none => exact Ensures.fail (.inr (hbad _ _ h.1))
  | some doc =>
    dsimp only
    split
    · exact Ensures.fail (.inr (hbad _ _ h.1))
    · exact Ensures.done h.1

theorem Resource.insert_ensures {bad : OpError → World → Prop} (r : Resource)
    (hbad : ∀ e w', w'.ledger = w.ledger → bad e w') :
    Ensures False (fun _ w' => w'.ledger = { w.ledger with cards := w.ledger.cards ++ [r.card] })
      bad r.insert w := by
  unfold insert
  have inserted : Ensures False (fun result w' => match result with
      | .ok _ => w'.ledger = { w.ledger with cards := w.ledger.cards ++ [r.card] }
      | .error _ => w'.ledger = w.ledger) bad (Program.insert r.document).attempt w :=
    Ensures.attempt not_false (Program.insert_ensures r fun _ _ h => h)
  refine inserted.bind fun result w' h => ?_
  split
  · exact Ensures.fail (.inr (hbad _ _ h))
  · refine Ensures.known (fun u hu => ?_) fun e he => .inr (hbad e w' ?_)
    · rw [hu] at h
      exact h
    · rw [he] at h
      exact h

namespace ControlPlane

variable (p : ControlPlane)

theorem dispatch_works (hl : w.ledger.Mapped) {r : Resource} (hr : r.card ∈ w.ledger.cards)
    (action : SyncAction) : (p.dispatch r action).Works w := by
  refine Program.Works.tidy fun tidy => ?_
  refine (p.dispatch_ensures hr action fun _ _ h => h ▸ .refl).mono ?_ fun _ _ h => h
  rintro o w' ⟨-, -, l, hsends, hw'⟩
  exact hw' ▸ hl.evolves_amend tidy hr hsends

theorem settle_works (hl : w.ledger.Mapped) {r : Resource} (hr : r.card ∈ w.ledger.cards) :
    (p.settle r).Works w := by
  refine Program.Works.tidy fun tidy => ?_
  refine (p.settle_ensures hr fun _ _ h => h ▸ .refl).mono ?_ fun _ _ h => h
  rintro o w' ⟨-, -, l, hsends, hw'⟩
  exact hw' ▸ hl.evolves_settle tidy hr hsends

theorem requeue_works (hl : w.ledger.Mapped) {r : Resource} (hr : r.card ∈ w.ledger.cards) :
    (p.requeue r).Works w := by
  refine Program.Works.tidy fun tidy => ?_
  refine (p.requeue_ensures hr fun _ _ h => h ▸ .refl).mono ?_ fun _ _ h => h
  rintro o w' ⟨-, l, hsends, hw'⟩
  exact hw' ▸ hl.evolves_settle tidy hr hsends

theorem remove_works {r : Resource} (hr : r.card ∈ w.ledger.cards) (off : r.card.cluster = none) :
    r.remove.Works w := by
  refine Program.Works.tidy fun tidy => ?_
  refine (Resource.remove_ensures hr).mono (fun _ w' h => ?_) fun _ _ h => h
  exact h ▸ .deed (.strike hr off) tidy.strike

theorem create_works (hl : w.ledger.Mapped) (user : User) (s : Scope) (input : ResourceInput) :
    (p.create user s input).Works w := by
  refine (Program.ofExcept_ensures input.checkNames fun _ _ h => h).look
    fun _ w₁ h₁ => ⟨h₁.1, ?_⟩
  rw [← h₁.1] at hl
  refine (Program.ofExcept_ensures (input.checkPlace s) fun _ _ h => h).look
    fun _ w₂ h₂ => ⟨h₂.1, ?_⟩
  obtain ⟨hw₂, hplace⟩ := h₂
  rw [← hw₂] at hl
  refine (Program.authorize_ensures user.id _ .create fun _ _ h => h).look fun _ w₃ h₃ => ⟨h₃, ?_⟩
  rw [← h₃] at hl
  refine (s.requireOwner_ensures input.kind fun _ _ h => h).look fun _ w₄ h₄ => ⟨h₄, ?_⟩
  rw [← h₄] at hl
  refine Program.now_ensures.look fun time w₅ h₅ => ⟨h₅, ?_⟩
  rw [← h₅] at hl
  refine Program.freshId_ensures.look fun id w₆ h₆ => ⟨h₆, ?_⟩
  rw [← h₆] at hl
  refine (Resource.cluster_ensures _).look fun cluster w₇ h₇ => ⟨h₇.2, ?_⟩
  obtain ⟨hcluster, hw₇⟩ := h₇
  rw [← hw₇] at hl hcluster
  dsimp only
  generalize hr : ({ input.toResource user s id time with clusterName := cluster } : Resource) = r
  have hcard : r.card = (input.toResource user s id time).card.on cluster := by
    rw [← hr]
    rfl
  have hplaced : r.card.key.Placed := by
    rw [hcard]
    exact ResourceInput.placed_toResource hplace user id time
  have htarget : r.card.cluster = w₇.ledger.target r.card := by
    rw [hcard, Card.cluster_on, hcluster]
    rfl
  have hclusterName : r.clusterName = cluster := by
    rw [← hr]
  -- The resource is inserted before its row is filed, so it is enlisted only by then.
  have enlisted : ∀ w', w'.ledger = w₇.ledger.enlist r.card → Ensures False
      (fun _ w'' => w₇.ledger.Evolves w''.ledger) (fun _ w'' => w₇.ledger.Evolves w''.ledger)
      (do
        Program.emit .added r
        return (← p.dispatch r .apply).2) w' := by
    intro w' hw'
    refine Ensures.tidy fun ht => ?_
    have tidy : (w₇.ledger.enlist r.card).Tidy := hw' ▸ Ledger.tidy_of_documents ht
    have mapped : w'.ledger.Mapped :=
      hw' ▸ hl.enlist tidy hplaced fun hk => htarget.trans (if_pos hk)
    have hr' : r.card ∈ w'.ledger.cards := hw' ▸ List.mem_concat_self
    refine Program.Works.after ?_ (hw' ▸ .deed (.enlist hplaced htarget) tidy)
    refine (Program.emit_ensures .added r).look fun _ w₈ h₈ => ⟨h₈, ?_⟩
    rw [← h₈] at mapped hr'
    exact (p.dispatch_works mapped hr' .apply).works fun _ _ h => ⟨h, .done⟩
  refine Ensures.bind (r.insert_ensures fun _ _ h => h ▸ .refl) fun _ w₈ h₈ => ?_
  cases cluster with
  | some x =>
    refine (Program.upsert_ensures r x).bind fun _ w₉ h₉ => enlisted w₉ ?_
    have hcluster : r.card.cluster = some x := hclusterName
    rw [h₉, h₈, Ledger.enlist, hcluster, if_neg (Option.some_ne_none x)]
    rfl
  | none =>
    have hcluster : r.card.cluster = none := hclusterName
    refine enlisted w₈ ?_
    rw [h₈, Ledger.enlist, if_pos hcluster]

/-! ## Updates -/

/-- What an update writes replaces the card of the resource. -/
theorem revise_ensures {current : Resource} (hr : current.card ∈ w.ledger.cards)
    {input : ResourceInput} (hk : current.kind = input.kind) (user : User) (time : Instant)
    (cluster : Option String) {updated : Resource}
    (hu : updated = { input.revise current user time with clusterName := cluster })
    {bad : OpError → World → Prop} :
    Ensures False (fun hit w' => if hit then
        w'.ledger = { w.ledger with cards := updated.card.replaceIn w.ledger.cards }
      else w'.ledger = w.ledger) bad (current.patchAtVersion updated.revision) w := by
  let e : Edit := ⟨current, .revise input user time cluster⟩
  have hcall : current.patchAtVersion updated.revision =
      Program.patchOne current.kind.collection e.filter (.ofFields e.changes) := by
    subst hu
    rfl
  have hcard : e.cardOf current.card = updated.card := by
    rw [hu, ← Edit.card_apply (e := e) hk.symm]
    rfl
  rw [hcall]
  refine (Edit.ensures (e := e) hr fun _ _ _ _ h => ?_).mono ?_ fun _ _ h => h
  · cases h
    exact hk
  · rintro hit w' (⟨rfl, h⟩ | ⟨rfl, -, h⟩)
    · rw [← hcard]
      exact h
    · exact h

/-- The rows follow a resource that was given another cluster. -/
theorem recordMove_ensures {r : Resource} {l : Ledger} {c : Card}
    (hw : w.ledger = { l with cards := r.card.replaceIn l.cards })
    (moved : r.card.cluster ≠ c.cluster) {bad : OpError → World → Prop} :
    Ensures False (fun _ w' => w'.ledger =
      if r.kind = .project then l.relocate r.card else l.amend c r.card) bad (recordMove r) w := by
  unfold recordMove
  cases hc : r.clusterName with
  | some x =>
    have hcluster : r.card.cluster = some x := hc
    refine (Program.upsert_ensures r x).bind fun _ w₁ h₁ => ?_
    split
    · refine (Program.reassignScope_ensures r.scope x).bind fun _ w₂ h₂ => Ensures.done ?_
      rw [h₂, h₁, hw, Ledger.relocate, hcluster]
      rfl
    · refine Ensures.done ?_
      rw [h₁, hw, Ledger.amend, if_neg moved, hcluster]
      rfl
  | none =>
    have hcluster : r.card.cluster = none := hc
    split
    · refine (Program.removeScope_ensures r.scope).bind fun _ w₁ h₁ => Ensures.done ?_
      rw [h₁, hw, Ledger.relocate, hcluster]
      rfl
    · refine (Program.removeMapping_ensures r.mappingKey).bind fun _ w₁ h₁ => Ensures.done ?_
      rw [h₁, hw, Ledger.amend, if_neg moved, hcluster]
      rfl

/-- A project that was relocated is already on the cluster it is sent to. -/
theorem dispatch_relocated {l : Ledger} {c : Card} (hc : c ∈ l.cards)
    (hk : c.key.kind = .project) {r : Resource} (hid : r.card.id = c.id)
    (hkey : r.card.key = c.key) (hbound : r.card.cluster = r.card.bound)
    (moved : r.card.cluster ≠ c.cluster) (hw : w.ledger = l.relocate r.card) :
    Ensures False (fun _ w' => l.Relocates w'.ledger) (fun _ w' => l.Relocates w'.ledger) (do
      Program.emit .updated r
      p.dispatch r .apply) w := by
  have relocates : ∀ bus, l.Relocates { l.relocate r.card with bus } := fun bus =>
    .intro bus hc hk hid hkey hbound moved
  have relocated : ∀ w' : World, w'.ledger = l.relocate r.card → l.Relocates w'.ledger :=
    fun w' h => h ▸ relocates l.bus
  refine (Program.emit_ensures .updated r).bind fun _ w₁ h₁ => Ensures.tidy fun ht => ?_
  have tidy := Ledger.tidy_of_documents ht
  rw [hw] at h₁
  have hr : r.card ∈ w₁.ledger.cards := h₁ ▸ (Ledger.mem_relocate_cards hc hid).2 (.inr rfl)
  refine (p.dispatch_ensures hr .apply fun _ w' h => relocated w' (h.trans h₁)).mono ?_
    fun _ _ h => h
  rintro o w₂ ⟨-, -, l', hsends, hw₂⟩
  have htarget : w₁.ledger.target r.card = r.card.cluster := by
    have hkr : r.card.key.kind = .project := hkey ▸ hk
    rw [Ledger.target, if_pos hkr, hbound]
  have hself : r.card.on r.card.cluster = r.card := rfl
  rw [htarget] at hsends hw₂
  rw [hself, (tidy.of_cards hsends.cards).amend_self (hsends.cards ▸ hr)] at hw₂
  rw [hw₂, hsends.eq, h₁]
  exact relocates l'.bus

theorem dispatch_amended {l : Ledger} {c : Card} (hl : l.Mapped) (tidy : l.Tidy)
    (hc : c ∈ l.cards) {r : Resource} (hid : r.card.id = c.id) (hkey : r.card.key = c.key)
    (hbound : c.key.kind = .project → r.card.cluster = r.card.bound ∧ r.card.cluster = c.cluster)
    (htarget : r.card.cluster = l.target r.card) (hw : w.ledger = l.amend c r.card) :
    Ensures False (fun _ w' => l.Evolves w'.ledger) (fun _ w' => l.Evolves w'.ledger) (do
      Program.emit .updated r
      p.dispatch r .apply) w := by
  have tidy' : (l.amend c r.card).Tidy := tidy.replaceIn hc hid hkey rfl
  have mapped : w.ledger.Mapped := hw ▸ hl.amend tidy hc hid hkey hbound
  have hr : r.card ∈ w.ledger.cards := hw ▸ (Ledger.mem_amend hc hid).2 (.inr rfl)
  refine Program.Works.after ?_ (hw ▸ .deed (.amend hc hid hkey hbound (.inr htarget)) tidy')
  refine (Program.emit_ensures .updated r).look fun _ w₁ h₁ => ⟨h₁, ?_⟩
  rw [← h₁] at mapped hr
  exact p.dispatch_works mapped hr .apply

/-- Once a resource was revised the rows follow it if it was moved, and it is sent. -/
theorem sendRevised_ensures {l : Ledger} {current updated : Resource} (hl : l.Mapped)
    (tidy : l.Tidy) (hcur : current.card ∈ l.cards) (hid : updated.card.id = current.card.id)
    (hkey : updated.card.key = current.card.key)
    (htarget : updated.card.cluster = l.target updated.card)
    (hw : w.ledger = { l with cards := updated.card.replaceIn l.cards }) :
    Ensures False (fun o w' => o.isSome = true ∧ l.Updates w'.ledger)
      (fun _ w' => l.Updates w'.ledger) (do
        if updated.clusterName ≠ current.clusterName then recordMove updated
        Program.emit .updated updated
        return some (← p.dispatch updated .apply).2 : Program (Option Resource)) w := by
  have hbound : current.card.key.kind = .project → updated.card.cluster = updated.card.bound :=
    fun hk => htarget.trans (if_pos ((congrArg MappingKey.kind hkey).trans hk))
  have amended : (current.card.key.kind = .project →
      updated.card.cluster = current.card.cluster) →
      ∀ w', w'.ledger = l.amend current.card updated.card →
      Ensures False (fun _ w'' => l.Updates w''.ledger) (fun _ w'' => l.Updates w''.ledger) (do
        Program.emit .updated updated
        p.dispatch updated .apply) w' := fun hstays w' hw' =>
    (p.dispatch_amended hl tidy hcur hid hkey (fun hk => ⟨hbound hk, hstays hk⟩) htarget hw').mono
      (fun _ _ h => .inl h) fun _ _ h => .inl h
  split
  · rename_i hmoved
    have moved : updated.card.cluster ≠ current.card.cluster := hmoved
    refine (recordMove_ensures hw moved).bind fun _ w₁ h₁ => ?_
    rw [← bind_assoc]
    suffices sent : Ensures False (fun _ w' => l.Updates w'.ledger)
        (fun _ w' => l.Updates w'.ledger) (do
          Program.emit .updated updated
          p.dispatch updated .apply) w₁ from sent.bind fun _ _ h => Ensures.done ⟨rfl, h⟩
    by_cases hk : current.card.key.kind = .project
    · have hk' : updated.kind = .project := (congrArg MappingKey.kind hkey).trans hk
      rw [if_pos hk'] at h₁
      exact (p.dispatch_relocated hcur hk hid hkey (hbound hk) moved h₁).mono
        (fun _ _ h => .inr h) fun _ _ h => .inr h
    · have hk' : updated.kind ≠ .project :=
        fun h => hk ((congrArg MappingKey.kind hkey).symm.trans h)
      rw [if_neg hk'] at h₁
      exact amended (fun h => absurd h hk) w₁ h₁
  · rename_i hsame
    have stays : updated.card.cluster = current.card.cluster := not_not.1 hsame
    rw [← bind_assoc]
    refine (amended (fun _ => stays) w ?_).bind fun _ _ h => Ensures.done ⟨rfl, h⟩
    rw [Ledger.amend, if_pos stays]
    exact hw

/-- An update that is tried either finds another writer was faster, or it is carried out. -/
theorem tryUpdate_ensures (hl : w.ledger.Mapped) (user : User) (s : Scope)
    (input : ResourceInput) :
    Ensures False (fun o w' => if o.isSome then w.ledger.Updates w'.ledger
      else w'.ledger = w.ledger) (fun _ w' => w.ledger.Updates w'.ledger)
      (p.tryUpdate user s input) w := by
  have same : ∀ w' : World, w'.ledger = w.ledger → w.ledger.Updates w'.ledger :=
    fun w' h => .inl (h ▸ .refl)
  unfold tryUpdate
  refine Ensures.tidy fun ht => ?_
  have tidy := Ledger.tidy_of_documents ht
  refine (Resource.get_ensures input.kind s input.name fun _ w' h => same w' h).bind ?_
  rintro current w₁ ⟨hw₁, hcur, hkind⟩
  split
  · exact Ensures.fail (.inr (same _ hw₁))
  split
  · exact Ensures.fail (.inr (same _ hw₁))
  refine Program.now_ensures.bind fun time w₂ h₂ => ?_
  refine (Resource.cluster_ensures _).bind fun cluster w₃ h₃ => ?_
  obtain ⟨hcluster, hw₃⟩ := h₃
  rw [h₂, hw₁] at hcluster hw₃
  generalize hu : ({ input.revise current user time with clusterName := cluster } : Resource) =
    updated
  have hid : updated.card.id = current.card.id := by
    rw [← hu]
    rfl
  have hkey : updated.card.key = current.card.key := by
    rw [← hu]
    exact congrArg (fun kind => { current.mappingKey with kind }) hkind.symm
  have htarget : updated.card.cluster = w.ledger.target updated.card := by
    rw [← hu]
    exact hcluster
  rw [← hw₃] at hcur
  refine (revise_ensures hcur hkind user time cluster hu.symm).bind fun hit w₄ h₄ => ?_
  rw [hw₃] at hcur h₄
  cases hit with
  | false => exact Ensures.done h₄
  | true =>
    rw [if_pos rfl] at h₄
    refine (p.sendRevised_ensures hl tidy hcur hid hkey htarget h₄).mono (fun o w' h => ?_)
      fun _ _ h => h
    rw [if_pos h.1]
    exact h.2

theorem updateWithin_ensures (hl : w.ledger.Mapped) (user : User) (s : Scope)
    (input : ResourceInput) (attempts : Nat) :
    Ensures False (fun _ w' => w.ledger.Updates w'.ledger) (fun _ w' => w.ledger.Updates w'.ledger)
      (p.updateWithin user s input attempts) w := by
  induction attempts generalizing w with
  | zero => exact Ensures.fail (.inr (.inl .refl))
  | succ attempts ih =>
    refine (p.tryUpdate_ensures hl user s input).bind fun o w₁ h₁ => ?_
    cases o with
    | some r => exact Ensures.done h₁
    | none =>
      have h₁ : w₁.ledger = w.ledger := h₁
      rw [← h₁] at hl ⊢
      exact ih hl

/-- An update works, unless it moves a project. -/
theorem update_ensures (hl : w.ledger.Mapped) (user : User) (s : Scope) (input : ResourceInput) :
    Ensures False (fun _ w' => w.ledger.Updates w'.ledger) (fun _ w' => w.ledger.Updates w'.ledger)
      (p.update user s input) w := by
  have same : ∀ w' : World, w'.ledger = w.ledger → w.ledger.Updates w'.ledger :=
    fun w' h => .inl (h ▸ .refl)
  refine (Program.ofExcept_ensures s.check fun _ w' h => same w' h).bind fun _ w₁ h₁ => ?_
  refine (Program.authorize_ensures user.id _ .update fun _ w' h => same w' (h.trans h₁.1)).bind
    fun _ w₂ h₂ => ?_
  rw [h₁.1] at h₂
  rw [← h₂] at hl ⊢
  exact p.updateWithin_ensures hl user s input updateAttempts

/-! ## Deletions -/

/-- A tombstone marks the card of the resource. -/
theorem tombstone_ensures {current : Resource} (hr : current.card ∈ w.ledger.cards) (user : User)
    (time : Instant) {bad : OpError → World → Prop} :
    Ensures False (fun hit w' => hit = true ∧
      w'.ledger = w.ledger.amend current.card (current.tombstone user time).card) bad
      ((current.tombstone user time).patch (current.tombstone user time).burial) w := by
  let e : Edit := ⟨current, .bury user time⟩
  have hcard : e.cardOf current.card = (current.tombstone user time).card := rfl
  refine (Edit.ensures (e := e) hr fun _ _ _ _ h => nomatch h).mono ?_ fun _ _ h => h
  rintro hit w' (⟨rfl, h⟩ | ⟨-, hg, -⟩)
  · have hsame : (current.tombstone user time).card.cluster = current.card.cluster := rfl
    rw [Ledger.amend, if_pos hsame, ← hcard]
    exact ⟨rfl, h⟩
  · cases hg

theorem delete_works (hl : w.ledger.Mapped) (user : User) (kind : Kind) (s : Scope)
    (name : String) : (p.delete user kind s name).Works w := by
  unfold delete
  refine (Program.ofExcept_ensures s.check fun _ _ h => h).look fun _ w₁ h₁ => ⟨h₁.1, ?_⟩
  rw [← h₁.1] at hl
  refine (Program.authorize_ensures user.id _ .delete fun _ _ h => h).look fun _ w₂ h₂ => ⟨h₂, ?_⟩
  rw [← h₂] at hl
  refine (Resource.get_ensures kind s name fun _ _ h => h).look fun current w₃ h₃ => ⟨h₃.1, ?_⟩
  obtain ⟨hw₃, hcur, -⟩ := h₃
  rw [← hw₃] at hl hcur
  refine Program.now_ensures.look fun time w₄ h₄ => ⟨h₄, ?_⟩
  rw [← h₄] at hl hcur
  refine Program.Works.tidy fun tidy => ?_
  refine (tombstone_ensures hcur user time).works fun hit w₅ h₅ => ?_
  obtain ⟨rfl, hw₅⟩ := h₅
  have hid : (current.tombstone user time).card.id = current.card.id := rfl
  have hkey : (current.tombstone user time).card.key = current.card.key := rfl
  have hbound : current.card.key.kind = .project →
      (current.tombstone user time).card.cluster = (current.tombstone user time).card.bound ∧
        (current.tombstone user time).card.cluster = current.card.cluster :=
    fun hk => ⟨hl.bound current.card hcur hk, rfl⟩
  have hsame : (current.tombstone user time).card.cluster = current.card.cluster := rfl
  rw [if_pos rfl]
  generalize current.tombstone user time = r at hw₅ hid hkey hbound hsame
  have tidy₅ : w₅.ledger.Tidy := tidy.replaceIn hcur hid hkey (by rw [hw₅]; rfl)
  have mapped : w₅.ledger.Mapped := hw₅ ▸ hl.amend tidy hcur hid hkey hbound
  have hr : r.card ∈ w₅.ledger.cards := hw₅ ▸ (Ledger.mem_amend hcur hid).2 (.inr rfl)
  refine ⟨hw₅ ▸ .deed (.amend hcur hid hkey hbound (.inl hsame)) (hw₅ ▸ tidy₅), ?_⟩
  refine (p.dispatch_ensures hr .delete fun _ _ h => h ▸ .refl).works fun o w₆ h₆ => ?_
  obtain ⟨outcome, r'⟩ := o
  obtain ⟨houtcome, hr', l, hsends, hw₆⟩ := h₆
  obtain rfl : r' = _ := hr'
  refine ⟨hw₆ ▸ mapped.evolves_amend tidy₅ hr hsends, ?_⟩
  have hr₆ : (r.card.on (w₅.ledger.target r.card)) ∈ w₆.ledger.cards :=
    hw₆ ▸ (Ledger.mem_amend (hsends.cards ▸ hr) (r.card.id_on _)).2 (.inr rfl)
  cases outcome with
  | noCluster =>
    exact Ensures.works (remove_works hr₆ houtcome.symm) fun _ _ h => ⟨h, .done⟩
  | dispatched =>
    exact (Program.emit_ensures .updated _).look fun _ w₇ h₇ => ⟨h₇, .done⟩

theorem resync_works (hl : w.ledger.Mapped) (user : User) (kind : Kind) (s : Scope)
    (name : String) : (p.resync user kind s name).Works w := by
  unfold resync
  refine (Program.ofExcept_ensures s.check fun _ _ h => h).look fun _ w₁ h₁ => ⟨h₁.1, ?_⟩
  rw [← h₁.1] at hl
  refine (Program.authorize_ensures user.id _ .resync fun _ _ h => h).look fun _ w₂ h₂ => ⟨h₂, ?_⟩
  rw [← h₂] at hl
  refine (Resource.get_ensures kind s name fun _ _ h => h).look fun current w₃ h₃ => ⟨h₃.1, ?_⟩
  obtain ⟨hw₃, hcur, -⟩ := h₃
  rw [← hw₃] at hl hcur
  exact p.requeue_works hl hcur

end ControlPlane

end FleetSync
