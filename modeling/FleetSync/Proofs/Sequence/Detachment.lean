import FleetSync.Proofs.Sequence.Dispatch

/-!
# What detaching a scope ensures

The rows of the scope go first, then its members one kind after the other. In between the members
that wait for their turn are still as they were (`Ledger.Detaching`). Once the kinds are through,
nothing waits any more and the scope is detached (`ControlPlane.detachScope_ensures`).
-/

namespace FleetSync

/-- A card taken off its cluster. -/
def Card.off (c : Card) : Card := { c with cluster := none, bound := none }

namespace Ledger

/-- What has become of a ledger while a scope is detached: the rows of the scope are gone, and what
is not a member stays. Of the members some still wait. -/
structure Detaching (l : Ledger) (s : Scope) (waits : Card → Prop) (l' : Ledger) : Prop where
  rows : l'.rows = l.rows.filter (!·.inScope s)
  others : ∀ c ∈ l.cards, s.takes c.key = false → c ∈ l'.cards
  members : ∀ c ∈ l'.cards, c ∈ l.cards ∧ (s.takes c.key = true → waits c) ∨
    ∃ d ∈ l.cards, c = d.off

variable {l l' : Ledger} {s : Scope} {waits waits' : Card → Prop}

theorem Detaching.mono (h : l.Detaching s waits l') (hw : ∀ c ∈ l'.cards, waits c → waits' c) :
    l.Detaching s waits' l' where
  rows := h.rows
  others := h.others
  members c hc := (h.members c hc).imp_left fun hm => ⟨hm.1, fun ht => hw c hc (hm.2 ht)⟩

theorem Detaching.detaches (h : l.Detaching s (fun _ => False) l') : l.Detaches s l' where
  rows := h.rows
  others := h.others
  members c hc := (h.members c hc).imp_left fun hm => ⟨hm.1, by simpa using hm.2⟩

/-- Every card comes from one that was there before. -/
theorem Detaching.origin (h : l.Detaching s waits l') {c : Card} (hc : c ∈ l'.cards) :
    ∃ d ∈ l.cards, c.key = d.key ∧ c.off = d.off := by
  rcases h.members c hc with ⟨hc, -⟩ | ⟨d, hd, rfl⟩
  · exact ⟨c, hc, rfl, rfl⟩
  · exact ⟨d, hd, rfl, rfl⟩

/-- Members have no rows any more. -/
theorem Detaching.fileIn_none (h : l.Detaching s waits l') (hl : l.Keyed) {k : MappingKey}
    (placed : k.Placed) (ht : s.takes k = true) : fileIn l'.rows k none = l'.rows := by
  refine List.filter_eq_self.2 fun r hr => ?_
  rw [h.rows, List.mem_filter] at hr
  obtain ⟨hr, hout⟩ := hr
  obtain ⟨k', -, heq⟩ := hl.rows r hr
  cases hk : r.hasKey k with
  | false => rfl
  | true =>
    rw [heq, MappingKey.hasKey_row] at hk
    rw [heq, hk, placed.inScope_row, ht] at hout
    cases hout

/-- If the members of a kind but for the owner are deleted, the others wait as before. -/
theorem Detaching.purged (h : l.Detaching s waits l') (kind : Kind) :
    l.Detaching s waits { l' with cards := l'.cards.filter fun c =>
      !(decide (c.key.kind = kind) && (s.takes c.key && !s.isOwner c.key)) } where
  rows := h.rows
  others c hc hout := List.mem_filter.2 ⟨h.others c hc hout, by rw [hout]; simp⟩
  members c hc := h.members c (List.mem_filter.1 hc).1

end Ledger

open Program (Ensures)

namespace ControlPlane

variable {faults : Prop} {bad : OpError → World → Prop} {w : World} {l : Ledger} {s : Scope}
  {waits : Card → Prop}

theorem forget_ensures (hl : l.Keyed) (h : l.Detaching s waits w.ledger) {r : Resource}
    (placed : r.card.key.Placed) (ht : s.takes r.card.key = true) :
    Ensures faults (fun _ w' => w'.ledger = w.ledger) bad (forget r) w := by
  refine (Program.removeMapping_ensures r.mappingKey).bind fun _ w₁ h₁ => ?_
  refine (Program.emit_ensures .deleted r).mono (fun _ w₂ h₂ => ?_) fun _ _ h => h
  rw [h₂, h₁]
  exact congrArg (fun rows => { w.ledger with rows }) (h.fileIn_none hl placed ht)

/-- A member that is detached does not wait any longer. -/
theorem detachOne_ensures (hl : l.Keyed) (h : l.Detaching s waits w.ledger) {r : Resource}
    (hr : r.card ∈ w.ledger.cards) (ht : s.takes r.card.key = true) :
    Ensures faults (fun _ w' => l.Detaching s (fun c => waits c ∧ c ≠ r.card) w'.ledger ∧
      ∀ c ∈ w.ledger.cards, c.id ≠ r.id → c ∈ w'.ledger.cards) bad (detachOne r) w := by
  refine Ensures.tidy fun htidy => ?_
  have tidy := Ledger.tidy_of_documents htidy
  obtain ⟨d, hd, hkeyd, hoff⟩ := h.origin hr
  refine Program.now_ensures.bind fun time w₁ h₁ => ?_
  have detached : Ensures faults (fun _ w' => w'.ledger = { w.ledger with
      cards := r.card.off.replaceIn w.ledger.cards }) bad
      ((r.detach time).patch (r.detach time).detachment) w₁ := by
    rw [r.patch_detachment time]
    refine (Edit.ensures (e := ⟨r, .detach time⟩) (h₁ ▸ hr) fun _ _ _ _ h => nomatch h).mono ?_
      fun _ _ h => h
    rintro hit w' (⟨-, h⟩ | ⟨-, hg, -⟩)
    · rw [h₁] at h
      exact h
    · cases hg
  refine detached.bind fun _ w₂ h₂ => ?_
  refine (Program.removeMapping_ensures (r.detach time).mappingKey).bind fun _ w₃ h₃ => ?_
  refine (Program.emit_ensures .updated _).mono (fun _ w₄ h₄ => ?_) fun _ _ h => h
  have hledger : w₄.ledger = { w.ledger with cards := r.card.off.replaceIn w.ledger.cards } := by
    rw [h₄, h₃, h₂, r.mappingKey_detach time]
    exact congrArg
      (fun rows => { w.ledger with cards := r.card.off.replaceIn w.ledger.cards, rows })
      (h.fileIn_none hl (hkeyd ▸ hl.placed d hd) ht)
  have hcards : ∀ c, c ∈ w₄.ledger.cards ↔
      c ∈ w.ledger.cards ∧ c.id ≠ r.id ∨ c = r.card.off := by
    intro c
    rw [hledger, Card.mem_replaceIn]
    constructor
    · rintro (hc | ⟨rfl, -⟩)
      · exact .inl hc
      · exact .inr rfl
    · rintro (hc | rfl)
      · exact .inl hc
      · exact .inr ⟨rfl, r.card, hr, rfl⟩
  refine ⟨⟨by rw [hledger]; exact h.rows, fun c hc hout => ?_, fun c hc => ?_⟩, fun c hc hid => ?_⟩
  · refine (hcards c).2 (.inl ⟨h.others c hc hout, fun hid => ?_⟩)
    rw [tidy.eq_of_id (h.others c hc hout) hr hid, ht] at hout
    cases hout
  · rcases (hcards c).1 hc with ⟨hc, hne⟩ | rfl
    · refine (h.members c hc).imp_left fun hm => ⟨hm.1, fun ht => ⟨hm.2 ht, ?_⟩⟩
      rintro rfl
      exact hne rfl
    · exact .inr ⟨d, hd, hoff⟩
  · exact (hcards c).2 (.inl ⟨hc, hid⟩)

theorem forgetEach_ensures (hl : l.Keyed) (h : l.Detaching s waits w.ledger) {rs : List Resource}
    (hrs : ∀ r ∈ rs, r.card.key.Placed ∧ s.takes r.card.key = true) :
    Ensures faults (fun _ w' => w'.ledger = w.ledger) bad (Program.forEach forget rs) w := by
  let inv : List Resource → World → Prop := fun rest w' => w'.ledger = w.ledger ∧ ∀ r ∈ rest, r ∈ rs
  refine (Ensures.forEach inv (fun r rest w' hinv => ?_) ⟨rfl, fun r hr => hr⟩).mono
    (fun _ _ h => h.1) fun _ _ h => h
  obtain ⟨hw', hmem⟩ := hinv
  obtain ⟨placed, ht⟩ := hrs r (hmem r (List.mem_cons_self ..))
  refine (forget_ensures hl (hw' ▸ h) placed ht).mono (fun _ w'' h => ⟨h.trans hw', ?_⟩)
    fun _ _ h => h
  exact fun r' hr' => hmem r' (List.mem_cons_of_mem _ hr')

/-- If all that wait of a kind are detached, one after the other, none of them waits any longer. -/
theorem detachEach_ensures (hl : l.Keyed) (h : l.Detaching s waits w.ledger) {kind : Kind}
    {kept : List Resource}
    (hall : ∀ c ∈ w.ledger.cards, c.key.kind = kind → s.takes c.key = true → ∃ r ∈ kept, r.card = c)
    (hkept : ∀ r ∈ kept, r.card ∈ w.ledger.cards ∧ s.takes r.card.key = true)
    (hids : (kept.map (·.id)).Nodup) :
    Ensures faults (fun _ w' => l.Detaching s (fun c => waits c ∧ c.key.kind ≠ kind) w'.ledger) bad
      (Program.forEach detachOne kept) w := by
  let inv : List Resource → World → Prop := fun rest w' =>
    l.Detaching s (fun c => waits c ∧ (c.key.kind = kind → ∃ r ∈ rest, r.card = c)) w'.ledger ∧
      (∀ r ∈ rest, r.card ∈ w'.ledger.cards ∧ s.takes r.card.key = true) ∧
      (rest.map (·.id)).Nodup
  have start : inv kept w := by
    refine ⟨⟨h.rows, h.others, fun c hc => ?_⟩, hkept, hids⟩
    refine (h.members c hc).imp_left fun hm => ⟨hm.1, fun ht => ⟨hm.2 ht, fun hk => ?_⟩⟩
    exact hall c hc hk ht
  have turns : ∀ (r : Resource) (rest : List Resource) (w' : World), inv (r :: rest) w' →
      Ensures faults (fun _ => inv rest) bad (detachOne r) w' := by
    rintro r rest w' ⟨hd, hmem, hnodup⟩
    obtain ⟨hr, ht⟩ := hmem r (List.mem_cons_self ..)
    obtain ⟨hnew, hnodup⟩ := List.nodup_cons.1 hnodup
    refine (detachOne_ensures hl hd hr ht).mono (fun _ w'' h => ⟨?_, fun r' hr' => ?_, hnodup⟩)
      fun _ _ h => h
    · refine h.1.mono fun c _ hc => ⟨hc.1.1, fun hk => ?_⟩
      obtain ⟨r', hr', rfl⟩ := hc.1.2 hk
      rcases List.mem_cons.1 hr' with rfl | hr'
      · exact absurd rfl hc.2
      · exact ⟨r', hr', rfl⟩
    · obtain ⟨hr'', ht'⟩ := hmem r' (List.mem_cons_of_mem _ hr')
      refine ⟨h.2 _ hr'' fun hid => hnew ?_, ht'⟩
      exact List.mem_map.2 ⟨r', hr', hid⟩
  refine (Ensures.forEach inv turns start).mono (fun _ w' h => ?_) fun _ _ h => h
  exact h.1.mono fun c _ hc => ⟨hc.1, fun hk => by simpa using hc.2 hk⟩

/-- If what is left of a kind, once all that was to be purged is gone, is detached, then none of the
kind waits any longer. -/
theorem detachKept_ensures (hl : l.Keyed) (h : l.Detaching s waits w.ledger) {purge : Bool}
    {kind : Kind} {cards : List Card} {rs : List Resource}
    (found : ∀ c, (∃ r ∈ rs, r.card = c) ↔
      c ∈ cards ∧ c.key.kind = kind ∧ s.takes c.key = true)
    (ids : (rs.map (·.id)).Nodup)
    (left : ∀ c, c ∈ w.ledger.cards ↔ c ∈ cards ∧
      (c.key.kind = kind → s.takes c.key = true → purge = true → s.isOwner c.key = true)) :
    Ensures faults (fun _ w' => l.Detaching s (fun c => waits c ∧ c.key.kind ≠ kind) w'.ledger) bad
      (Program.forEach detachOne (rs.filter fun r => !(purge && s.purges r))) w := by
  have stays : ∀ r : Resource, (!(purge && s.purges r)) = true ↔
      (purge = true → s.isOwner r.card.key = true) := by
    intro r
    rw [Scope.purges_eq]
    cases purge <;> simp
  refine detachEach_ensures hl h (fun c hc hk ht => ?_) (fun r hr => ?_)
    (ids.sublist (List.filter_sublist.map _))
  · obtain ⟨hc, howner⟩ := (left c).1 hc
    obtain ⟨r, hr, rfl⟩ := (found c).2 ⟨hc, hk, ht⟩
    exact ⟨r, List.mem_filter.2 ⟨hr, (stays r).2 (howner hk ht)⟩, rfl⟩
  · obtain ⟨hr, howner⟩ := List.mem_filter.1 hr
    obtain ⟨hc, -, ht⟩ := (found r.card).1 ⟨r, hr, rfl⟩
    exact ⟨(left r.card).2 ⟨hc, fun _ _ => (stays r).1 howner⟩, ht⟩

/-- The members of a kind are detached, or deleted but for the owner. -/
theorem detachMembers_ensures (hl : l.Keyed) (purge : Bool) (kind : Kind)
    (h : l.Detaching s waits w.ledger) :
    Ensures faults (fun _ w' => l.Detaching s (fun c => waits c ∧ c.key.kind ≠ kind) w'.ledger) bad
      (detachMembers s purge kind) w := by
  unfold detachMembers
  split
  · rename_i hnone
    refine Ensures.done ⟨h.rows, h.others, fun c hc => ?_⟩
    refine (h.members c hc).imp_left fun hm => ⟨hm.1, fun ht => ⟨hm.2 ht, ?_⟩⟩
    rintro rfl
    rw [Filter.not_takes_of_members? hnone] at ht
    cases ht
  rename_i filter hfilter
  refine (Resource.findAll_ensures kind filter).bind fun rs w₁ h₁ => ?_
  obtain ⟨hw₁, -, -, hpicked⟩ := h₁
  have hcards := hpicked _ (Filter.Picks.members hfilter)
  rw [← hw₁] at h hcards
  refine Ensures.tidy fun htidy => ?_
  have ids : (rs.map (·.id)).Nodup :=
    Resource.nodup_ids (Ledger.tidy_of_documents htidy) (hcards ▸ List.filter_sublist)
  have found : ∀ c, (∃ r ∈ rs, r.card = c) ↔
      c ∈ w₁.ledger.cards ∧ c.key.kind = kind ∧ s.takes c.key = true := by
    intro c
    rw [← List.mem_map, hcards, List.mem_filter]
    simp
  split
  rename_i purged kept hpart
  rw [List.partition_eq_filter_filter, Prod.mk.injEq] at hpart
  obtain ⟨hpurged, rfl⟩ := hpart
  dsimp only
  split
  · rename_i hsome
    have hpurge := Scope.purge_of_purged hpurged hsome
    refine (Program.deleteMany_ensures (Filter.Picks.purged hfilter)).bind fun _ w₂ h₂ => ?_
    have detaching : l.Detaching s waits w₂.ledger := h₂ ▸ h.purged kind
    have forgotten : Ensures faults (fun _ w' => w'.ledger = w₂.ledger) bad
        (Program.forEach forget purged) w₂ := by
      refine forgetEach_ensures hl detaching fun r hr => ?_
      rw [← hpurged] at hr
      obtain ⟨hr, -, ht⟩ := (found r.card).1 ⟨r, (List.mem_filter.1 hr).1, rfl⟩
      obtain ⟨d, hd, hkey, -⟩ := h.origin hr
      exact ⟨hkey ▸ hl.placed d hd, ht⟩
    refine forgotten.bind fun _ w₃ h₃ => ?_
    refine (detachKept_ensures hl (h₃ ▸ detaching) found ids fun c => ?_).bind
      fun _ _ h => Ensures.done h
    rw [h₃, h₂, List.mem_filter, hpurge]
    simp only [Bool.not_eq_true', Bool.and_eq_false_imp, decide_eq_true_eq, Bool.not_eq_false',
      forall_const]
  · rename_i hnone
    have hnil : purged = [] := by simpa using hnone
    rw [hnil, List.filter_eq_nil_iff] at hpurged
    refine (detachKept_ensures hl h found ids fun c => ⟨fun hc => ⟨hc, fun hk ht hpurge => ?_⟩,
      And.left⟩).bind fun _ _ h => Ensures.done h
    -- Nothing was to be purged, so in a purge all that there is of the kind is the owner.
    obtain ⟨r, hr, rfl⟩ := (found c).2 ⟨hc, hk, ht⟩
    simpa [hpurge, Scope.purges_eq] using hpurged r hr

/-- Once the kinds are through, none of their members waits. -/
theorem detachKinds_ensures (hl : l.Keyed) (purge : Bool) (kinds : List Kind)
    (h : l.Detaching s waits w.ledger) :
    Ensures faults (fun _ w' => l.Detaching s (fun c => waits c ∧ c.key.kind ∉ kinds) w'.ledger) bad
      (detachKinds s purge kinds) w := by
  induction kinds generalizing w waits with
  | nil => exact Ensures.done (h.mono fun c _ hc => ⟨hc, List.not_mem_nil⟩)
  | cons kind rest ih =>
    refine (detachMembers_ensures hl purge kind h).bind fun a w₁ h₁ => ?_
    refine (ih h₁).bind fun b w₂ h₂ => Ensures.done ?_
    exact h₂.mono fun c _ hc => ⟨hc.1.1, by simpa using ⟨hc.1.2, hc.2⟩⟩

/-- Of the members of a scope none is left that waits but for those of other kinds. -/
theorem detachScope_detaching {p : ControlPlane} (hl : w.ledger.Keyed) (user : User) (s : Scope)
    (purge : Bool) (hbad : ∀ e w', w'.ledger = w.ledger → bad e w') :
    Ensures faults
      (fun _ w' => w.ledger.Detaching s (fun c => p.handles c.key.kind = false) w'.ledger) bad
      (p.detachScope user s purge) w := by
  refine (Program.ofExcept_ensures s.check hbad).bind fun _ w₁ h₁ => ?_
  refine (Program.authorize_ensures user.id (.scopeOwner s) .detach
    fun e w' hw' => hbad e w' (hw'.trans h₁.1)).bind fun _ w₂ h₂ => ?_
  refine (Program.removeScope_ensures s).bind fun _ w₃ h₃ => ?_
  have start : w.ledger.Detaching s (fun _ => True) w₃.ledger := by
    rw [h₃, h₂, h₁.1]
    exact ⟨rfl, fun c hc _ => hc, fun c hc => .inl ⟨hc, fun _ => trivial⟩⟩
  refine (detachKinds_ensures hl purge p.kinds start).bind fun _ w₄ h₄ => Ensures.done ?_
  exact h₄.mono fun c _ hwaits => by simpa [ControlPlane.handles] using hwaits.2

/-- All members of a scope are detached that are of registered kinds. -/
theorem detachScope_ensures {p : ControlPlane}
    (hp : ∀ c ∈ w.ledger.cards, p.handles c.key.kind = true) (hl : w.ledger.Mapped)
    (user : User) (s : Scope) (purge : Bool) (hbad : ∀ e w', w'.ledger = w.ledger → bad e w') :
    Ensures faults (fun _ w' => w.ledger.Detaches s w'.ledger) bad
      (p.detachScope user s purge) w := by
  refine (detachScope_detaching hl.keyed user s purge hbad).mono (fun _ w' h => ?_) fun _ _ h => h
  refine (h.mono fun c hc hwaits => ?_).detaches
  obtain ⟨d, hd, hkey, -⟩ := h.origin hc
  rw [hkey, hp d hd] at hwaits
  cases hwaits

end ControlPlane

end FleetSync
