import FleetSync.Proofs.Mapping.Attachment
import FleetSync.Proofs.Mapping.Silence
import FleetSync.Proofs.Sequence.Stores

/-!
# What detaching a scope does and says

A detachment that ends without an error has done to the stores just what its summary tells
(`Stores.DetachesTo`). The members of a kind are read and go one after the other: those that stay
are taken off their cluster (`ControlPlane.detachEach_yields`), those that go are deleted
(`ControlPlane.detachMembers_yields`). The kinds do not meddle with each other, so their effects and
counts add up (`Stores.Detaching.cons`). Hence the summary is exact after any sequential run
(`System.detachment_exact`). A member that stays is written back as it was read, which need not be
how it was stored, and members of kinds that are not registered stay as they are
(`System.detachment_inexact`).
-/

namespace FleetSync

/-- The event of the resource of a card. -/
def Card.event (c : Card) (kind : EventKind) : Event :=
  ⟨kind, c.key.kind, c.key.account, c.key.project, c.key.environment, c.cluster, c.key.name,
    c.key.namespaceName⟩

namespace Scope

variable (s : Scope) (purge : Bool) (c : Card)

/-- Whether a resource is deleted when a scope is detached: with a purge all members are but the
owner. -/
def deletes : Bool := s.takes c.key && (purge && !s.isOwner c.key)

/-- Whether a resource is taken off its cluster when a scope is detached. -/
def releases : Bool := s.takes c.key && !(purge && !s.isOwner c.key)

end Scope

namespace StoredDocument

/-- Whether a document is another one taken off its cluster: what it asks for is as it reads, with
no cluster in it, and but for the time of the last update nothing else has changed. -/
def TakenOff (d d' : StoredDocument) : Prop :=
  ∃ (r : Resource) (spec : Spec) (time : Instant), r.stored = d ∧ spec.kind = r.kind ∧
    d.Says "spec" spec.value ∧ d' = ({ r with spec }.detach time).stored

/-- What becomes of a document when the members of some kinds in a scope are detached. -/
inductive Fares (s : Scope) (purge : Bool) (kinds : List Kind) (d : StoredDocument) :
    Option StoredDocument → Prop
  | deleted (kind : d.kind ∈ kinds) (deletes : s.deletes purge d.card = true) :
    Fares s purge kinds d none
  | released {d' : StoredDocument} (kind : d.kind ∈ kinds)
    (releases : s.releases purge d.card = true) (off : d.TakenOff d') :
    Fares s purge kinds d (some d')
  | other (other : d.kind ∈ kinds → s.takes d.card.key = false) : Fares s purge kinds d (some d)

end StoredDocument

namespace Stores

/-- The events that tell of the members of a kind when a scope is detached. -/
def farewells (stores : Stores) (s : Scope) (purge : Bool) (kind : Kind) : List Event :=
  ((stores.documents.filter fun d => decide (d.kind = kind) && s.deletes purge d.card).map
    (·.card.event .deleted)) ++
  (stores.documents.filter fun d => decide (d.kind = kind) && s.releases purge d.card).map
    (·.card.off.event .updated)

/-- What has become of the stores when the members of some kinds in a scope are detached. -/
structure Detaching (s : Scope) (purge : Bool) (kinds : List Kind) (before : Stores)
    (counts : DetachCounts) (after : Stores) : Prop where
  documents : ∃ fate : StoredDocument → Option StoredDocument,
    after.documents = before.documents.filterMap fate ∧
      ∀ d ∈ before.documents, d.Fares s purge kinds (fate d)
  rows : after.rows = before.rows
  bus : after.bus = before.bus
  events : after.events = before.events ++ kinds.flatMap (before.farewells s purge)
  detached : counts.detached =
    before.documents.countP fun d => decide (d.kind ∈ kinds) && s.releases purge d.card
  purged : counts.purged =
    before.documents.countP fun d => decide (d.kind ∈ kinds) && s.deletes purge d.card

/-- Whether stores are what is left when a scope is detached, as the summary says. -/
structure DetachesTo (p : ControlPlane) (s : Scope) (purge : Bool) (before : Stores)
    (summary : DetachSummary) (after : Stores) : Prop where
  /-- Each row is that of a resource, and it is in the scope if the resource is a member. -/
  rowed : ∀ row ∈ before.rows, ∃ k : MappingKey,
    row = k.row row.cluster ∧ row.inScope s = s.takes k
  rows : after.rows = before.rows.filter (!·.inScope s)
  removed : summary.mappingsRemoved = before.rows.countP (·.inScope s)
  /-- The order of the documents is kept. -/
  documents : ∃ fate : StoredDocument → Option StoredDocument,
    after.documents = before.documents.filterMap fate ∧
      ∀ d ∈ before.documents, d.Fares s purge p.kinds (fate d)
  counted : summary.counts.detached + summary.counts.purged =
    before.documents.countP fun d => p.handles d.kind && s.takes d.card.key
  purged : summary.counts.purged =
    before.documents.countP fun d => p.handles d.kind && s.deletes purge d.card
  bus : after.bus = before.bus
  events : after.events = before.events ++ p.kinds.flatMap (before.farewells s purge)

end Stores

/-! ## Documents that are taken off their cluster -/

namespace StoredDocument

variable {s : Scope} {purge : Bool} {kinds : List Kind} {d d' : StoredDocument}

/-- A document that is taken off its cluster stays where it is filed. -/
theorem TakenOff.key (h : d.TakenOff d') : d'.card.key = d.card.key := by
  obtain ⟨r, spec, time, rfl, hkind, -, rfl⟩ := h
  have hkey : ({ r with spec } : Resource).mappingKey = r.mappingKey := by
    simp only [Resource.mappingKey, Resource.kind, hkind]
  rw [Resource.card_stored, Resource.card_stored]
  exact (Resource.mappingKey_detach _ time).trans hkey

theorem TakenOff.kind (h : d.TakenOff d') : d'.kind = d.kind := congrArg MappingKey.kind h.key

/-- A plain spec stays as it was but for the cluster in it. -/
theorem TakenOff.of_isPlain (h : d.TakenOff d') {b : Body} (hb : d.field "spec" = .place b)
    (plain : b.isPlain = true) :
    ∃ v, b = .ofJson v ∧ d'.field "spec" = .place (.ofJson v.unbound) := by
  obtain ⟨r, spec, time, rfl, -, ⟨b', hb', hsays⟩, rfl⟩ := h
  obtain rfl := Reached.place.inj (hb.symm.trans hb')
  refine ⟨spec.value, (Body.says_iff_of_isPlain plain).1 hsays, ?_⟩
  rw [← Spec.value_clearBinding]
  exact Resource.asks_stored _

/-- Documents of other kinds stay. -/
theorem Fares.eq_some {o : Option StoredDocument} (h : d.Fares s purge kinds o)
    (other : d.kind ∉ kinds) : o = some d := by
  cases h with
  | deleted kind => exact absurd kind other
  | released kind => exact absurd kind other
  | other => rfl

/-- What was done to a document of one kind is not undone when the others have their turn. -/
theorem Fares.cons {kind : Kind} {o : Option StoredDocument}
    {fate : StoredDocument → Option StoredDocument} (new : kind ∉ kinds)
    (h : d.Fares s purge [kind] o)
    (next : ∀ d', o = some d' → d'.Fares s purge kinds (fate d')) :
    d.Fares s purge (kind :: kinds) (o.bind fate) := by
  cases h with
  | deleted hk deletes => exact .deleted (List.mem_cons.2 (.inl (List.mem_singleton.1 hk))) deletes
  | @released d' hk releases off =>
    -- The other kinds leave alone what was taken off.
    obtain rfl := List.mem_singleton.1 hk
    have stays := (next d' rfl).eq_some (off.kind ▸ new)
    rw [Option.bind_some, stays]
    exact .released (List.mem_cons_self ..) releases off
  | other hother =>
    have hd := next d rfl
    rw [Option.bind_some]
    generalize fate d = o at hd
    cases hd with
    | deleted hk deletes => exact .deleted (List.mem_cons_of_mem _ hk) deletes
    | released hk releases off => exact .released (List.mem_cons_of_mem _ hk) releases off
    | other hother' =>
      refine .other fun hk => ?_
      rcases List.mem_cons.1 hk with hk | hk
      · exact hother (List.mem_singleton.2 hk)
      · exact hother' hk

end StoredDocument

namespace Stores

variable {s : Scope} {purge : Bool} {kind : Kind} {kinds : List Kind}
  {counts counts' : DetachCounts} {before middle after : Stores}

theorem Detaching.nil (stores : Stores) : stores.Detaching s purge [] ⟨0, 0⟩ stores where
  documents := ⟨some, List.filterMap_some.symm, fun _ _ => .other fun h => nomatch h⟩
  rows := rfl
  bus := rfl
  events := (List.append_nil _).symm
  detached := by simp
  purged := by simp

/-- The documents of other kinds are not touched. -/
theorem Detaching.filter_documents (h : before.Detaching s purge kinds counts middle)
    {q : StoredDocument → Bool} (other : ∀ d, q d = true → d.kind ∉ kinds) :
    middle.documents.filter q = before.documents.filter q := by
  obtain ⟨fate, hdocs, fares⟩ := h.documents
  rw [hdocs]
  generalize before.documents = docs at fares
  induction docs with
  | nil => rfl
  | cons d rest ih =>
    obtain ⟨hd, hrest⟩ := List.forall_mem_cons.1 fares
    have ih := ih hrest
    rw [List.filterMap_cons]
    generalize fate d = o at hd
    cases hd with
    | deleted kind =>
      rw [List.filter_cons_of_neg fun hq => other d hq kind]
      exact ih
    | released kind _ off =>
      rw [List.filter_cons_of_neg fun hq => other d hq kind]
      exact (List.filter_cons_of_neg fun hq => other _ hq (off.kind ▸ kind)).trans ih
    | other =>
      dsimp only
      rw [List.filter_cons, List.filter_cons, ih]

theorem countP_of_other (h : before.Detaching s purge kinds counts middle)
    {q : StoredDocument → Bool} (other : ∀ d, q d = true → d.kind ∉ kinds) :
    middle.documents.countP q = before.documents.countP q := by
  rw [List.countP_eq_length_filter, List.countP_eq_length_filter, h.filter_documents other]

/-- What is counted of one kind and of others is counted of all of them. -/
theorem countP_kinds (docs : List StoredDocument) (q : StoredDocument → Bool) (new : kind ∉ kinds) :
    docs.countP (fun d => decide (d.kind ∈ [kind]) && q d) +
        docs.countP (fun d => decide (d.kind ∈ kinds) && q d) =
      docs.countP fun d => decide (d.kind ∈ kind :: kinds) && q d := by
  induction docs with
  | nil => rfl
  | cons d rest ih =>
    rw [List.countP_cons, List.countP_cons, List.countP_cons, ← ih]
    by_cases hk : d.kind = kind
    · have hnew : d.kind ∉ kinds := hk ▸ new
      simp [hk, new]
      omega
    · simp [hk]
      omega

/-- The events of the members of other kinds are not touched. -/
theorem Detaching.farewells (new : kind ∉ kinds)
    (h : before.Detaching s purge [kind] counts middle) :
    kinds.flatMap (middle.farewells s purge) = kinds.flatMap (before.farewells s purge) := by
  refine List.flatMap_congr fun k hk => ?_
  have other : ∀ (q : StoredDocument → Bool) (d : StoredDocument),
      (decide (d.kind = k) && q d) = true → d.kind ∉ [kind] := by
    intro q d hd hkind
    rw [Bool.and_eq_true, decide_eq_true_eq] at hd
    exact new (List.mem_singleton.1 hkind ▸ hd.1 ▸ hk)
  rw [Stores.farewells, Stores.farewells, h.filter_documents (other _),
    h.filter_documents (other _)]

/-- What was done to one kind is not undone by the others. -/
theorem Detaching.cons (new : kind ∉ kinds) (h : before.Detaching s purge [kind] counts middle)
    (h' : middle.Detaching s purge kinds counts' after) :
    before.Detaching s purge (kind :: kinds)
      ⟨counts.detached + counts'.detached, counts.purged + counts'.purged⟩ after := by
  have other : ∀ (q : StoredDocument → Bool) (d : StoredDocument),
      (decide (d.kind ∈ kinds) && q d) = true → d.kind ∉ [kind] := by
    intro q d hd hk
    rw [Bool.and_eq_true, decide_eq_true_eq] at hd
    exact new (List.mem_singleton.1 hk ▸ hd.1)
  refine ⟨?_, h'.rows.trans h.rows, h'.bus.trans h.bus, ?_, ?_, ?_⟩
  · obtain ⟨fate, hdocs, fares⟩ := h.documents
    obtain ⟨fate', hdocs', fares'⟩ := h'.documents
    refine ⟨fun d => (fate d).bind fate', by rw [hdocs', hdocs, List.filterMap_filterMap],
      fun d hd => (fares d hd).cons new fun d' hd' => ?_⟩
    exact fares' d' (hdocs ▸ List.mem_filterMap.2 ⟨d, hd, hd'⟩)
  · rw [h'.events, h.events, h.farewells new, List.append_assoc, List.flatMap_cons,
      List.flatMap_cons, List.flatMap_nil, List.append_nil]
  · rw [h.detached, h'.detached, countP_of_other h (other _), countP_kinds _ _ new]
  · rw [h.purged, h'.purged, countP_of_other h (other _), countP_kinds _ _ new]

end Stores

/-! ## What the calls of a detachment yield -/

open Program (Ensures)

variable {bad : OpError → World → Prop} {w : World} {s : Scope} {purge : Bool}

namespace Program

theorem now_yields : Ensures True (fun _ w' => w'.stores = w.stores) bad now w :=
  Ensures.single fun _ x _ => (w.reply_look x (c := .now) rfl).stores

theorem emit_yields (kind : EventKind) (r : Resource) :
    Ensures True (fun _ w' => w'.stores = w.stores.tell kind r) bad (emit kind r) w := by
  refine Ensures.single fun _ x _ => ?_
  rw [w.reply_of_not_failed x (c := .emit (.of kind r)) nofun nofun]
  rfl

theorem removeMapping_yields (k : MappingKey) :
    Ensures True (fun _ w' => w'.stores = { w.stores with
      rows := Ledger.fileIn w.stores.rows k none }) bad (removeMapping k) w := by
  refine Ensures.single fun _ x _ => ?_
  have hreply := w.reply_of_not_failed x (c := .removeMapping k)
  cases ha : (w.reply x (.removeMapping k)).1 with
  | error e => exact .inl trivial
  | ok n =>
    rw [hreply nofun fun e he => by rw [ha] at he; cases he]
    rfl

theorem removeScope_yields (s : Scope) :
    Ensures True (fun n w' => n = w.stores.rows.countP (·.inScope s) ∧
      w'.stores = { w.stores with rows := w.stores.rows.filter (!·.inScope s) }) bad
      (removeScope s) w := by
  refine Ensures.single fun _ x _ => ?_
  have hreply := w.reply_of_not_failed x (c := .removeScope s)
  cases ha : (w.reply x (.removeScope s)).1 with
  | error e => exact .inl trivial
  | ok n =>
    have hreply := hreply nofun fun e he => by rw [ha] at he; cases he
    rw [hreply] at ha ⊢
    exact ⟨(Except.ok.inj ha).symm, rfl⟩

theorem deleteMany_yields {kind : Kind} {filter : Filter} {test : Card → Bool}
    (picks : filter.Picks kind test) :
    Ensures True (fun _ w' => w'.stores = { w.stores with
      documents := w.stores.documents.filter fun d => !(decide (d.kind = kind) && test d.card) })
      bad (deleteMany kind.collection filter) w := by
  refine Ensures.single fun ht x _ => ?_
  cases ha : (w.reply x (.deleteMany kind.collection filter)).1 with
  | error e => exact .inl trivial
  | ok n =>
    obtain ⟨documents, hd, hw⟩ := w.deleteMany_of_reply x ha
    have hstores : { w with documents, clock := x.time }.stores = _ :=
      congrArg (fun docs => { w.stores with documents := docs }) (ht.deletesMany picks hd)
    exact hw ▸ hstores

theorem edit_yields {e : Edit} {r : Resource} (hr : r.stored ∈ w.stores.documents)
    (read : r.ReadBack e.current) (hkind : (e.apply r).kind = r.kind) :
    Ensures True (fun _ w' => w'.stores = w.stores.put (e.apply r)) bad
      (patchOne e.current.kind.collection e.filter (.ofFields e.changes)) w := by
  refine Ensures.single fun ht x _ => ?_
  cases ha : (w.reply x
      (.patchOne e.current.kind.collection e.filter (.ofFields e.changes))).1 with
  | error failure => exact .inl trivial
  | ok hit =>
    obtain ⟨documents, hs, hw⟩ := w.patchOne_of_reply x ha
    have hstores : { w with documents, clock := x.time }.stores = w.stores.put (e.apply r) := by
      rw [World.stores, (ht.edited hr read hkind hs).2, Stores.put, Edit.id_apply]
      rfl
    exact hw ▸ hstores

end Program

theorem exists_of_forall₂ {α β : Type} {R : α → β → Prop} {as : List α} {bs : List β}
    (h : List.Forall₂ R as bs) {b : β} (hb : b ∈ bs) : ∃ a ∈ as, R a b := by
  induction h with
  | nil => cases hb
  | @cons a _ _ _ hab _ ih =>
    rcases List.mem_cons.1 hb with rfl | hb
    · exact ⟨a, List.mem_cons_self .., hab⟩
    · obtain ⟨a, ha, hab⟩ := ih hb
      exact ⟨a, List.mem_cons_of_mem _ ha, hab⟩

theorem Filter.eq_cons_of_members? {kind : Kind} {f : Filter} (h : members? s kind = some f) :
    ∃ c rest, f = c :: rest := by
  rw [members?] at h
  split at h
  · exact ⟨_, _, (Option.some.inj h).symm⟩
  · split at h
    · exact ⟨_, _, (Option.some.inj h).symm⟩
    · split at h
      · cases h
      · exact ⟨_, _, (Option.some.inj h).symm⟩

/-- What is found are stored resources as they were read. -/
theorem Resource.findAll_yields (kind : Kind) {c : Condition} {rest : Filter}
    {test : Card → Bool} (picks : Filter.Picks (c :: rest) kind test) :
    Ensures True (fun rs w' => w'.stores = w.stores ∧
      (∀ read ∈ rs, ∃ r : Resource, r.stored ∈ w.stores.documents ∧ r.ReadBack read) ∧
      rs.map (·.card) = (w.stores.documents.filter fun d =>
        decide (d.kind = kind) && test d.card).map (·.card)) bad (findAll kind (c :: rest)) w := by
  refine Ensures.tidy fun ht => ?_
  have found : Ensures True (fun js w' => w'.stores = w.stores ∧
      w.documents.find kind.collection (c :: rest) = .ok js) bad
      (Program.find kind.collection (c :: rest)) w := by
    refine Ensures.single fun _ x _ => ?_
    have same := (w.reply_look x (c := .find kind.collection (c :: rest)) rfl).stores
    have hreply := w.reply_of_not_failed x (c := .find kind.collection (c :: rest))
    cases ha : (w.reply x (.find kind.collection (c :: rest))).1 with
    | error e => exact .inl trivial
    | ok js =>
      have hreply := hreply nofun fun e he => by rw [ha] at he; cases he
      rw [hreply] at ha
      exact ⟨same, ha⟩
  refine found.bind fun js w' h => Ensures.known (fun rs hrs => ?_) fun _ _ => .inl trivial
  obtain ⟨same, hfound⟩ := h
  have readings := ht.finds hfound hrs
  refine ⟨same, fun read hread => ?_, ?_⟩
  · obtain ⟨d, hd, r, rfl, readBack⟩ := exists_of_forall₂ readings hread
    exact ⟨r, (List.mem_filter.1 hd).1, readBack⟩
  · rw [ht.find picks hfound hrs, DocumentStore.cards, List.filter_map]
    rfl

namespace ControlPlane

/-- A document whose resource is detached is taken off its cluster. -/
theorem takenOff_detach {r read : Resource} (h : r.ReadBack read) (time : Instant) :
    r.stored.TakenOff ((Edit.mk read (.detach time)).apply r).stored :=
  ⟨r, read.spec, time, rfl, h.kind, h.shows.spec, rfl⟩

/-- Whether no row is that of a member of a scope. -/
def Rowless (s : Scope) (rows : List MappingRow) : Prop :=
  ∀ row ∈ rows, ∃ k : MappingKey, row = k.row row.cluster ∧ s.takes k = false

/-- To take away the row of a member changes nothing if there is none. -/
theorem Rowless.fileIn {rows : List MappingRow} (h : Rowless s rows) {k : MappingKey}
    (ht : s.takes k = true) : Ledger.fileIn rows k none = rows := by
  refine List.filter_eq_self.2 fun row hrow => ?_
  obtain ⟨k', heq, hout⟩ := h row hrow
  rw [heq, MappingKey.hasKey_row_of_ne]
  · rfl
  · rintro rfl
    rw [hout] at ht
    cases ht

theorem forget_yields (rowless : Rowless s w.stores.rows) {r : Resource}
    (ht : s.takes r.mappingKey = true) :
    Ensures True (fun _ w' => w'.stores = w.stores.tell .deleted r) bad (forget r) w := by
  refine (Program.removeMapping_yields r.mappingKey).bind fun _ w₁ h₁ => ?_
  refine (Program.emit_yields .deleted r).mono (fun _ w₂ h₂ => ?_) fun _ _ h => h
  rw [h₂, h₁, rowless.fileIn ht]

/-- A member is taken off its cluster. -/
theorem detachOne_yields (rowless : Rowless s w.stores.rows) {r read : Resource}
    (hr : r.stored ∈ w.stores.documents) (h : r.ReadBack read)
    (ht : s.takes read.mappingKey = true) :
    Ensures True (fun _ w' => ∃ time, w'.stores =
      { w.stores.put ((Edit.mk read (.detach time)).apply r) with
        events := w.stores.events ++ [read.card.off.event .updated] }) bad (detachOne read) w := by
  refine Program.now_yields.bind fun time w₁ h₁ => ?_
  have hkind : ((Edit.mk read (.detach time)).apply r).kind = r.kind :=
    (Spec.kind_clearBinding read.spec).trans h.kind
  have detached : Ensures True (fun _ w' => w'.stores =
      w₁.stores.put ((Edit.mk read (.detach time)).apply r)) bad
      ((read.detach time).patch (read.detach time).detachment) w₁ := by
    rw [read.patch_detachment time]
    exact Program.edit_yields (e := ⟨read, .detach time⟩) (h₁ ▸ hr) h hkind
  refine detached.bind fun _ w₂ h₂ => ?_
  refine (Program.removeMapping_yields (read.detach time).mappingKey).bind fun _ w₃ h₃ => ?_
  refine (Program.emit_yields .updated (read.detach time)).mono (fun _ w₄ h₄ => ⟨time, ?_⟩)
    fun _ _ h => h
  have hevent : Event.of .updated (read.detach time) = read.card.off.event .updated := by
    have hkey := read.kind_detach time
    rw [Event.of, hkey]
    rfl
  rw [h₄, h₃, h₂, h₁, Stores.tell, hevent, read.mappingKey_detach time]
  exact congrArg (fun rows => (⟨_, rows, _, _⟩ : Stores)) (rowless.fileIn ht)

/-- Members that go are told of, one after the other. -/
theorem forgetEach_yields {purged : List Resource} (rowless : Rowless s w.stores.rows)
    (takes : ∀ read ∈ purged, s.takes read.mappingKey = true) :
    Ensures True (fun _ w' => w'.stores = { w.stores with
      events := w.stores.events ++ purged.map (·.card.event .deleted) }) bad
      (Program.forEach forget purged) w := by
  induction purged generalizing w with
  | nil => exact Ensures.done (by rw [List.map_nil, List.append_nil])
  | cons read rest ih =>
    obtain ⟨ht, hrest⟩ := List.forall_mem_cons.1 takes
    refine (forget_yields rowless ht).bind fun _ w₁ h₁ => ?_
    have rowless₁ : Rowless s w₁.stores.rows := by rwa [h₁]
    refine (ih rowless₁ hrest).mono (fun _ w₂ h₂ => ?_) fun _ _ h => h
    rw [h₂, h₁, List.map_cons, List.append_cons]
    rfl

/-- Members that stay are taken off their cluster, one after the other. -/
theorem detachEach_yields {kept : List Resource} (rowless : Rowless s w.stores.rows)
    (takes : ∀ read ∈ kept, s.takes read.mappingKey = true)
    (readings : ∀ read ∈ kept, ∃ r : Resource, r.stored ∈ w.stores.documents ∧ r.ReadBack read)
    (hids : (kept.map (·.id)).Nodup) :
    Ensures True (fun _ w' => ∃ turned : StoredDocument → StoredDocument,
      w'.stores = { w.stores with
        documents := w.stores.documents.map turned
        events := w.stores.events ++ kept.map (·.card.off.event .updated) } ∧
      ∀ d ∈ w.stores.documents,
        if d.id ∈ kept.map (·.id) then d.TakenOff (turned d) else turned d = d) bad
      (Program.forEach detachOne kept) w := by
  induction kept generalizing w with
  | nil =>
    refine Ensures.done ⟨id, ?_, fun d _ => rfl⟩
    rw [List.map_id, List.map_nil, List.append_nil]
  | cons read rest ih =>
    obtain ⟨ht, hrest⟩ := List.forall_mem_cons.1 takes
    obtain ⟨⟨r, hr, readBack⟩, readings⟩ := List.forall_mem_cons.1 readings
    obtain ⟨hnew, hids⟩ := List.nodup_cons.1 hids
    refine Ensures.tidy fun htidy => ?_
    refine (detachOne_yields rowless hr readBack ht).bind fun _ w₁ h₁ => ?_
    obtain ⟨time, h₁⟩ := h₁
    let moved := (Edit.mk read (.detach time)).apply r
    let put : StoredDocument → StoredDocument := fun d => if d.id = r.id then moved.stored else d
    have hdocs : w₁.stores.documents = w.stores.documents.map put := by rw [h₁]; rfl
    have stays : ∀ read' ∈ rest, ∃ r' : Resource,
        r'.stored ∈ w₁.stores.documents ∧ r'.ReadBack read' := by
      intro read' hread'
      obtain ⟨r', hr', readBack'⟩ := readings read' hread'
      have hne : r'.stored.id ≠ r.id := by
        intro hid
        refine hnew (List.mem_map.2 ⟨read', hread', ?_⟩)
        exact readBack'.id.trans (hid.trans readBack.id.symm)
      exact ⟨r', hdocs ▸ List.mem_map.2 ⟨_, hr', if_neg hne⟩, readBack'⟩
    have rowless₁ : Rowless s w₁.stores.rows := by rwa [h₁]
    refine (ih rowless₁ hrest stays hids).mono (fun _ w₂ h₂ => ?_) fun _ _ h => h
    obtain ⟨turned, hstores, hturned⟩ := h₂
    refine ⟨turned ∘ put, ?_, fun d hd => ?_⟩
    · have hevents := List.append_cons w.stores.events (read.card.off.event .updated)
        (rest.map (·.card.off.event .updated))
      rw [hstores, hdocs, List.map_map, h₁, List.map_cons, hevents]
      rfl
    have hput : put d ∈ w₁.stores.documents := hdocs ▸ List.mem_map_of_mem hd
    have hd' := hturned _ hput
    rw [Function.comp_apply]
    by_cases hid : d.id = r.id
    · have hself : put d = moved.stored := if_pos hid
      have hmoved : moved.stored.id = read.id := readBack.id.symm
      rw [hself, hmoved, if_neg hnew] at hd'
      obtain rfl : d = r.stored := List.inj_on_of_nodup_map htidy.ids hd hr hid
      rw [hself, hd', if_pos (by rw [hid, ← readBack.id]; exact List.mem_cons_self ..)]
      exact takenOff_detach readBack time
    · have hself : put d = d := if_neg hid
      rw [hself] at hd' ⊢
      have hne : d.id ≠ read.id := fun h => hid (h.trans readBack.id)
      simpa only [List.map_cons, List.mem_cons, hne, false_or] using hd'

/-- Some of those whose documents are picked, by their cards. -/
theorem cards_filter {docs : List StoredDocument} {kind : Kind} {g : Card → Bool}
    {rs : List Resource} (h : rs.map (·.card) = (docs.filter fun d =>
      decide (d.kind = kind) && g d.card).map (·.card)) (g' : Card → Bool) :
    (rs.filter (g' ·.card)).map (·.card) = (docs.filter fun d =>
      decide (d.kind = kind) && (g d.card && g' d.card)).map (·.card) := by
  have both : (docs.filter fun d => decide (d.kind = kind) && (g d.card && g' d.card)) =
      (docs.filter fun d => decide (d.kind = kind) && g d.card).filter (g' ·.card) := by
    rw [List.filter_filter]
    exact List.filter_congr fun d _ => by rw [← Bool.and_assoc, Bool.and_comm]
  have same := congrArg (List.filter g') h
  rw [List.filter_map, List.filter_map] at same
  rw [both]
  exact same

theorem test_of_cards {docs : List StoredDocument} {kind : Kind} {g : Card → Bool}
    {rs : List Resource} (h : rs.map (·.card) = (docs.filter fun d =>
      decide (d.kind = kind) && g d.card).map (·.card)) {r : Resource} (hr : r ∈ rs) :
    g r.card = true := by
  have hcard := List.mem_map_of_mem (f := (·.card)) hr
  rw [h] at hcard
  obtain ⟨d, hd, hcard⟩ := List.mem_map.1 hcard
  exact hcard ▸ (Bool.and_eq_true_iff.1 (List.mem_filter.1 hd).2).2

/-- Whose document is picked by its card is told by its id. -/
theorem mem_ids_iff {docs : List StoredDocument} {q : StoredDocument → Bool} {rs : List Resource}
    (ids : (docs.map (·.id)).Nodup) (h : rs.map (·.card) = (docs.filter q).map (·.card))
    {d : StoredDocument} (hd : d ∈ docs) : d.id ∈ rs.map (·.id) ↔ q d = true := by
  have hids := congrArg (List.map Card.id) h
  rw [List.map_map, List.map_map] at hids
  have hids : rs.map (·.id) = (docs.filter q).map (·.id) := hids
  rw [hids, List.mem_map]
  constructor
  · rintro ⟨d', hd', hid⟩
    obtain ⟨hmem, hq⟩ := List.mem_filter.1 hd'
    exact List.inj_on_of_nodup_map ids hmem hd hid ▸ hq
  · exact fun hq => ⟨d, List.mem_filter.2 ⟨hd, hq⟩, rfl⟩

/-- When those of a kind that go have gone and those that stay are taken off, the members of the
kind are detached. -/
theorem detaching_of_kind {kind : Kind} {before after : Stores} {purged kept : List Resource}
    {turned : StoredDocument → StoredDocument} (ids : (before.documents.map (·.id)).Nodup)
    (hpurged : purged.map (·.card) = (before.documents.filter fun d =>
      decide (d.kind = kind) && s.deletes purge d.card).map (·.card))
    (hkept : kept.map (·.card) = (before.documents.filter fun d =>
      decide (d.kind = kind) && s.releases purge d.card).map (·.card))
    (stores : after = { before with
      documents := (before.documents.filter fun d =>
        !(decide (d.kind = kind) && s.deletes purge d.card)).map turned
      events := before.events ++ purged.map (·.card.event .deleted) ++
        kept.map (·.card.off.event .updated) })
    (hturned : ∀ d ∈ before.documents,
      (decide (d.kind = kind) && s.deletes purge d.card) = false →
      if d.id ∈ kept.map (·.id) then d.TakenOff (turned d) else turned d = d) :
    before.Detaching s purge [kind] ⟨kept.length, purged.length⟩ after := by
  subst stores
  have counted : ∀ {rs : List Resource} {g : Card → Bool},
      rs.map (·.card) = (before.documents.filter fun d =>
        decide (d.kind = kind) && g d.card).map (·.card) →
      rs.length = before.documents.countP fun d => decide (d.kind ∈ [kind]) && g d.card := by
    intro rs g h
    have hlen := congrArg List.length h
    rw [List.length_map, List.length_map, ← List.countP_eq_length_filter] at hlen
    simpa only [List.mem_singleton] using hlen
  have told : ∀ {rs : List Resource} {docs : List StoredDocument} (event : Card → Event),
      rs.map (·.card) = docs.map (·.card) → rs.map (fun r => event r.card) =
        docs.map fun d => event d.card := by
    intro rs docs event h
    have hevents := congrArg (List.map event) h
    rwa [List.map_map, List.map_map] at hevents
  refine ⟨⟨fun d => if !(decide (d.kind = kind) && s.deletes purge d.card) then some (turned d)
    else none, ?_, fun d hd => ?_⟩, rfl, rfl, ?_, counted hkept, counted hpurged⟩
  · rw [← List.filterMap_eq_map, List.filterMap_filter]
    rfl
  · have hd' := hturned d hd
    have leaves := mem_ids_iff ids hkept hd
    change StoredDocument.Fares s purge [kind] d (if _ then _ else _)
    cases hgoes : decide (d.kind = kind) && s.deletes purge d.card with
    | true =>
      simp only [Bool.and_eq_true, decide_eq_true_eq] at hgoes
      exact .deleted (List.mem_singleton.2 hgoes.1) hgoes.2
    | false =>
      have hd' := hd' hgoes
      change StoredDocument.Fares s purge [kind] d (some (turned d))
      split at hd'
      · rename_i hid
        have hstays := leaves.1 hid
        simp only [Bool.and_eq_true, decide_eq_true_eq] at hstays
        exact .released (List.mem_singleton.2 hstays.1) hstays.2 hd'
      · rename_i hid
        rw [hd']
        refine .other fun hk => Bool.eq_false_iff.2 fun ht => hid (leaves.2 ?_)
        rw [decide_eq_true (List.mem_singleton.1 hk), Bool.true_and] at hgoes ⊢
        rw [Scope.deletes, ht, Bool.true_and] at hgoes
        rw [Scope.releases, ht, hgoes]
        rfl
  · rw [List.flatMap_cons, List.flatMap_nil, List.append_nil, Stores.farewells,
      told (·.event .deleted) hpurged, told (·.off.event .updated) hkept, List.append_assoc]

/-- Of a kind without members in a scope nothing is detached. -/
theorem detaching_of_no_members {kind : Kind} {stores : Stores}
    (ids : (stores.documents.map (·.id)).Nodup) (none : Filter.members? s kind = none) :
    stores.Detaching s purge [kind] ⟨0, 0⟩ stores := by
  have outside : ∀ d ∈ stores.documents, ∀ b, (decide (d.kind = kind) &&
      (s.takes d.card.key && b)) = false := by
    intro d _ b
    by_cases hk : d.kind = kind
    · have ht : s.takes d.card.key = false := Filter.not_takes_of_members? (k := d.card.key)
        ((congrArg (Filter.members? s) hk).trans none)
      rw [ht, Bool.false_and, Bool.and_false]
    · rw [decide_eq_false hk, Bool.false_and]
  have nobody : ∀ g : Card → Bool, ([] : List Resource).map (·.card) =
      (stores.documents.filter fun d =>
        decide (d.kind = kind) && (s.takes d.card.key && g d.card)).map (·.card) := by
    intro g
    rw [List.filter_eq_nil_iff.2 fun d hd => Bool.eq_false_iff.1 (outside d hd (g d.card))]
    rfl
  have stays : stores.documents.filter (fun d =>
      !(decide (d.kind = kind) && s.deletes purge d.card)) = stores.documents :=
    List.filter_eq_self.2 fun d hd => (congrArg not (outside d hd _)).trans rfl
  have same : stores = { stores with
      documents := (stores.documents.filter fun d =>
        !(decide (d.kind = kind) && s.deletes purge d.card)).map id
      events := stores.events ++ ([] : List Resource).map (·.card.event .deleted) ++
        ([] : List Resource).map (·.card.off.event .updated) } := by
    rw [stays, List.map_id, List.map_nil, List.map_nil, List.append_nil, List.append_nil]
  exact detaching_of_kind ids (nobody fun c => purge && !s.isOwner c.key)
    (nobody fun c => !(purge && !s.isOwner c.key)) same fun d _ _ => rfl

/-- Once those of a kind that go are gone, the others are taken off their cluster. -/
theorem detachRest_yields {before : Stores} {kind : Kind} {purged kept : List Resource}
    (rowless : Rowless s before.rows) (ids : (before.documents.map (·.id)).Nodup)
    (readings : ∀ read ∈ kept, ∃ r : Resource, r.stored ∈ before.documents ∧ r.ReadBack read)
    (unlike : (kept.map (·.id)).Nodup)
    (hpurged : purged.map (·.card) = (before.documents.filter fun d =>
      decide (d.kind = kind) && s.deletes purge d.card).map (·.card))
    (hkept : kept.map (·.card) = (before.documents.filter fun d =>
      decide (d.kind = kind) && s.releases purge d.card).map (·.card))
    (h : w.stores = { before with
      documents := before.documents.filter fun d =>
        !(decide (d.kind = kind) && s.deletes purge d.card)
      events := before.events ++ purged.map (·.card.event .deleted) }) :
    Ensures True (fun counts w' => before.Detaching s purge [kind] counts w'.stores) bad
      (do
        Program.forEach detachOne kept
        return ⟨kept.length, purged.length⟩) w := by
  have released : ∀ read ∈ kept, s.takes read.mappingKey = true ∧
      s.deletes purge read.card = false := by
    intro read hread
    have hrel := test_of_cards hkept hread
    rw [Scope.releases, Bool.and_eq_true, Bool.not_eq_true'] at hrel
    exact ⟨hrel.1, by rw [Scope.deletes, hrel.2, Bool.and_false]⟩
  have stays : ∀ read ∈ kept, ∃ r : Resource,
      r.stored ∈ w.stores.documents ∧ r.ReadBack read := by
    intro read hread
    obtain ⟨r, hr, readBack⟩ := readings read hread
    have hdel : s.deletes purge r.stored.card = false := by
      rw [r.card_stored, ← readBack.card, (released read hread).2]
    rw [h]
    exact ⟨r, List.mem_filter.2 ⟨hr, by rw [hdel, Bool.and_false]; rfl⟩, readBack⟩
  have rowless' : Rowless s w.stores.rows := by rwa [h]
  refine (detachEach_yields rowless' (fun read hread => (released read hread).1) stays
    unlike).bind fun _ w₁ h₁ => Ensures.done ?_
  obtain ⟨turned, hstores, hturned⟩ := h₁
  rw [h] at hstores hturned
  exact detaching_of_kind ids hpurged hkept hstores fun d hd hgoes =>
    hturned d (List.mem_filter.2 ⟨hd, by rw [hgoes]; rfl⟩)

/-- The members of a kind are detached. -/
theorem detachMembers_yields (rowless : Rowless s w.stores.rows) (kind : Kind) :
    Ensures True (fun counts w' => w.stores.Detaching s purge [kind] counts w'.stores) bad
      (detachMembers s purge kind) w := by
  refine Ensures.tidy fun htidy => ?_
  unfold detachMembers
  split
  · rename_i none
    exact Ensures.done (detaching_of_no_members htidy.ids none)
  rename_i filter hfilter
  obtain ⟨c, rest, rfl⟩ := Filter.eq_cons_of_members? hfilter
  refine (Resource.findAll_yields kind (Filter.Picks.members hfilter)).bind fun rs w₁ h₁ => ?_
  obtain ⟨same, readings, hcards⟩ := h₁
  have ids : (w₁.stores.documents.map (·.id)).Nodup := same ▸ htidy.ids
  rw [← same] at rowless readings hcards ⊢
  split
  rename_i purged kept hpart
  rw [List.partition_eq_filter_filter, Prod.mk.injEq] at hpart
  obtain ⟨hpurges, hkeeps⟩ := hpart
  have hpurged : purged.map (·.card) = (w₁.stores.documents.filter fun d =>
      decide (d.kind = kind) && s.deletes purge d.card).map (·.card) := by
    rw [← hpurges]
    exact cards_filter (g := fun c => s.takes c.key) hcards fun c => purge && !s.isOwner c.key
  have hkept : kept.map (·.card) = (w₁.stores.documents.filter fun d =>
      decide (d.kind = kind) && s.releases purge d.card).map (·.card) := by
    rw [← hkeeps]
    exact cards_filter (g := fun c => s.takes c.key) hcards fun c => !(purge && !s.isOwner c.key)
  have keptReadings : ∀ read ∈ kept, ∃ r : Resource,
      r.stored ∈ w₁.stores.documents ∧ r.ReadBack read := fun read hread => by
    rw [← hkeeps] at hread
    exact readings read (List.mem_filter.1 hread).1
  have unlike : (kept.map (·.id)).Nodup := by
    have hids := congrArg (List.map Card.id) hkept
    rw [List.map_map, List.map_map] at hids
    exact hids ▸ ids.sublist (List.filter_sublist.map _)
  dsimp only
  split
  · rename_i hsome
    have hpurge := Scope.purge_of_purged hpurges hsome
    refine (Program.deleteMany_yields (Filter.Picks.purged hfilter)).bind fun _ w₂ h₂ => ?_
    have rowless₂ : Rowless s w₂.stores.rows := by rwa [h₂]
    refine (forgetEach_yields rowless₂ fun read hread =>
      (Bool.and_eq_true_iff.1 (test_of_cards hpurged hread)).1).bind fun _ w₃ h₃ => ?_
    refine detachRest_yields rowless ids keptReadings unlike hpurged hkept ?_
    rw [h₃, h₂]
    simp only [Scope.deletes, hpurge, Bool.true_and]
  · rename_i hnone
    have hnil : purged = [] := by simpa using hnone
    have nobody := List.filter_eq_nil_iff.1 (List.map_eq_nil_iff.1
      (hpurged.symm.trans (congrArg (List.map (·.card)) hnil)))
    have stays : w₁.stores.documents.filter (fun d =>
        !(decide (d.kind = kind) && s.deletes purge d.card)) = w₁.stores.documents :=
      List.filter_eq_self.2 fun d hd => (congrArg not (Bool.eq_false_iff.2 (nobody d hd))).trans rfl
    refine detachRest_yields rowless ids keptReadings unlike hpurged hkept ?_
    rw [stays, hnil, List.map_nil, List.append_nil]

/-- The members of some kinds are detached, one kind after the other. -/
theorem detachKinds_yields (rowless : Rowless s w.stores.rows) {kinds : List Kind}
    (nodup : kinds.Nodup) :
    Ensures True (fun counts w' => w.stores.Detaching s purge kinds counts w'.stores) bad
      (detachKinds s purge kinds) w := by
  induction kinds generalizing w with
  | nil => exact Ensures.done (.nil _)
  | cons kind rest ih =>
    obtain ⟨new, nodup⟩ := List.nodup_cons.1 nodup
    refine (detachMembers_yields rowless kind).bind fun a w₁ h₁ => ?_
    have rowless₁ : Rowless s w₁.stores.rows := h₁.rows ▸ rowless
    exact (ih rowless₁ nodup).bind fun b w₂ h₂ => Ensures.done (h₁.cons new h₂)

/-- Whoever is taken off or deleted is a member. -/
theorem countP_members (s : Scope) (purge : Bool) (docs : List StoredDocument)
    (among : StoredDocument → Bool) :
    (docs.countP fun d => among d && s.releases purge d.card) +
        (docs.countP fun d => among d && s.deletes purge d.card) =
      docs.countP fun d => among d && s.takes d.card.key := by
  induction docs with
  | nil => rfl
  | cons d rest ih =>
    rw [List.countP_cons, List.countP_cons, List.countP_cons, ← ih, Scope.releases, Scope.deletes]
    cases among d <;> cases s.takes d.card.key <;> cases purge && !s.isOwner d.card.key <;>
      simp <;> omega

/-- A scope is detached as the summary says. -/
theorem detachScope_yields {p : ControlPlane} (nodup : p.kinds.Nodup) (keyed : w.ledger.Keyed)
    (user : User) :
    Ensures True (fun summary w' => w.stores.DetachesTo p s purge summary w'.stores) bad
      (p.detachScope user s purge) w := by
  have rowed : ∀ row ∈ w.stores.rows, ∃ k : MappingKey,
      row = k.row row.cluster ∧ row.inScope s = s.takes k := by
    intro row hrow
    obtain ⟨k, placed, heq⟩ := keyed.rows row hrow
    exact ⟨k, heq, by rw [heq, placed.inScope_row]⟩
  have checked : Ensures True (fun _ w' => w' = w) bad (Program.ofExcept s.check) w :=
    Ensures.known (fun _ _ => rfl) fun _ _ => .inl trivial
  refine checked.bind fun _ w₁ h₁ => ?_
  have allowed : Ensures True (fun _ w' => w'.stores = w₁.stores) bad
      (Program.authorize user.id (.scopeOwner s) .detach) w₁ := by
    refine Ensures.single fun _ x _ => ?_
    have same := (w₁.reply_look x (c := .authorize user.id (.scopeOwner s) .detach) rfl).stores
    generalize Checker.verdict _ _ _ _ = verdict
    cases verdict with
    | ok _ => exact same
    | error _ => exact .inl trivial
  refine allowed.bind fun _ w₂ h₂ => ?_
  rw [h₁] at h₂
  refine (Program.removeScope_yields s).bind fun n w₃ h₃ => ?_
  obtain ⟨hn, h₃⟩ := h₃
  rw [h₂] at hn h₃
  have rowless : Rowless s w₃.stores.rows := by
    intro row hrow
    rw [h₃, List.mem_filter] at hrow
    obtain ⟨hrow, hout⟩ := hrow
    obtain ⟨k, heq, hin⟩ := rowed row hrow
    exact ⟨k, heq, by rw [← hin]; simpa using hout⟩
  refine (detachKinds_yields rowless nodup).bind fun counts w₄ h₄ => Ensures.done ?_
  have handled : ∀ d : StoredDocument, p.handles d.kind = decide (d.kind ∈ p.kinds) :=
    fun d => List.contains_eq_mem ..
  have hcounted := countP_members s purge w.stores.documents fun d => p.handles d.kind
  rw [h₃] at h₄
  exact {
    rowed
    rows := h₄.rows
    removed := hn
    documents := h₄.documents
    counted := by
      rw [h₄.detached, h₄.purged, ← hcounted]
      simp only [handled]
    purged := by
      rw [h₄.purged]
      simp only [handled]
    bus := h₄.bus
    events := h₄.events }

/-- What is told of a detachment is its summary. -/
theorem detachment_yields {p : ControlPlane} (nodup : p.kinds.Nodup) (keyed : w.ledger.Keyed)
    (user : User) :
    ((Operation.detachScope user s purge).program p).Ensures True (fun outcome w' =>
      ∀ summary, outcome = .detachment summary →
        w.stores.DetachesTo p s purge summary w'.stores) (fun _ _ => True) w :=
  (detachScope_yields nodup keyed user).map fun _ _ h _ heq => Outcome.detachment.inj heq ▸ h

end ControlPlane

namespace System

variable {p : ControlPlane} {ms ms' : List Move} {user : User} {summary : DetachSummary}

/-- After any sequential run, a detachment that ends without an error does just what its summary
says. -/
theorem detachment_exact (seq : Sequential p ms) (nodup : p.kinds.Nodup)
    (carried : Carried p ms (.detachScope user s purge) ms')
    (ok : (after p ms').last? = some (.ok (.detachment summary))) :
    (after p ms).world.stores.DetachesTo p s purge summary (after p ms').world.stores :=
  carried.ensures_last
    (ControlPlane.detachment_yields nodup (keyed seq) user) ok summary rfl

/-! ### Runs -/

/-- The scope of the environment of the project. -/
def devScope : Scope := .environment "acme" "shop" "dev"

/-- A database with a number in its template, the one that the text `1e-25` is read as. It is
written as `9.999999999999999e-26`, and that is read as another number. -/
def templateInput : ResourceInput :=
  .new "db" "default" (.managedResource ⟨"postgres", .num (.float ⟨false, 8711228593176024, -136⟩)⟩)

/-- A database is created in the environment. -/
def templateRun : List Move :=
  attachedRun ++ carryOut 2 "8a410000" (.create .system devScope templateInput) 10

/-- Then the environment is detached, with or without a purge. -/
def detachedTemplateRun (purge : Bool) : List Move :=
  templateRun ++
    carryOut 3 "8a410001" (.detachScope .system devScope purge) (if purge then 15 else 16)

theorem templateRun_documents : ((after .default createdRun).AtRest ∧
    (after .default attachedRun).AtRest ∧ (after .default templateRun).AtRest) ∧
    ((after .default (detachedTemplateRun true)).AtRest ∧
      (after .default (detachedTemplateRun true)).last? = some (.ok (.detachment ⟨2, 1, 1⟩))) ∧
    ((after .default (detachedTemplateRun false)).AtRest ∧
      (after .default (detachedTemplateRun false)).last? = some (.ok (.detachment ⟨2, 2, 0⟩))) ∧
    ∃ d ∈ (after .default templateRun).documents,
      ∃ d' ∈ (after .default (detachedTemplateRun false)).documents,
        d.kind = .managedResource ∧ d'.id = d.id ∧ d'.field "spec" ≠ d.field "spec" := by
  decide +kernel

theorem sequential_templateRun : Sequential .default templateRun := by
  obtain ⟨⟨created, attached, -⟩, -⟩ := templateRun_documents
  exact (sequential_attachedRun created).carryOut attached 2 "8a410000"
    (.create .system devScope templateInput) 10

theorem carried_detachedTemplateRun (purge : Bool) :
    Carried .default templateRun (.detachScope .system devScope purge)
      (detachedTemplateRun purge) := by
  obtain ⟨⟨-, -, rests⟩, ⟨purged, -⟩, ⟨kept, -⟩, -⟩ := templateRun_documents
  cases purge with
  | true => exact carried_carryOut rests 3 "8a410001" _ 15 purged
  | false => exact carried_carryOut rests 3 "8a410001" _ 16 kept

/-- With a purge the environment is detached and the database is deleted. -/
theorem detachment_exact_purged :
    (after .default templateRun).world.stores.DetachesTo .default devScope true ⟨2, 1, 1⟩
      (after .default (detachedTemplateRun true)).world.stores :=
  detachment_exact sequential_templateRun (by decide) (carried_detachedTemplateRun true)
    templateRun_documents.2.1.2

/-- Not every document that stays is as it was but for its cluster and the time of its update: the
number in the template of the database becomes another one. And a document of a kind that is not
registered stays on its cluster. -/
theorem detachment_inexact :
    (Sequential .default templateRun ∧
      Carried .default templateRun (.detachScope .system devScope false)
        (detachedTemplateRun false) ∧
      (after .default (detachedTemplateRun false)).last? = some (.ok (.detachment ⟨2, 2, 0⟩)) ∧
      ∃ d ∈ (after .default templateRun).documents,
        ∃ d' ∈ (after .default (detachedTemplateRun false)).documents,
          d.kind = .managedResource ∧ d'.id = d.id ∧ d'.field "spec" ≠ d.field "spec") ∧
    Sequential planeWithoutProjects createdRun ∧
      Carried planeWithoutProjects createdRun (.detachScope .system shopScope false)
        unregisteredRun ∧
      (after planeWithoutProjects unregisteredRun).last? = some (.ok (.detachment ⟨1, 0, 0⟩)) ∧
      ∃ d ∈ (after planeWithoutProjects unregisteredRun).documents,
        shopScope.takes d.card.key = true ∧ d.card.cluster = some "eu-1" := by
  obtain ⟨⟨created, detached, ok⟩, -⟩ := unregisteredResentRun_documents
  obtain ⟨-, -, ⟨-, summary⟩, changed⟩ := templateRun_documents
  refine ⟨⟨sequential_templateRun, carried_detachedTemplateRun false, summary, changed⟩,
    sequential_carryOut _ 0 "7d1c52a0" (.create .system shopScope shopInput) 7,
    carried_carryOut created 1 "8a410000" _ 9 detached, ok, by decide +kernel⟩

end System

end FleetSync
