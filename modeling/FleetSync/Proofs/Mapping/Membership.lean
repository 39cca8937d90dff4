import FleetSync.Proofs.Mapping.Attachment
import FleetSync.Proofs.Mapping.Resyncing
import FleetSync.Proofs.Sequence.Replays

/-!
# The rows of the members of a project

The rows of a project, its own and those of its members, all name one cluster, and without its own
row there are none (`World.MembersFollow`). That is so just if each of them names the cluster that
the project is on (`Ledger.Follows`, `Ledger.Mapped.follows_iff`). Deeds keep it
(`Ledger.Deed.follows`), and so does an update that moves the project. A project without a cluster
has no members on one, so that it may go; but a delete confirmation takes away a project that is on
a cluster, and the rows of the members stay. So the members follow just if that never happens while
there are such rows (`System.members_follow_iff`).
-/

namespace FleetSync

/-- Whether the rows of a project name the cluster that its own row names, and are gone without
that. -/
structure World.MembersFollow (w : World) (account project : String) : Prop where
  together : ∀ d ∈ w.documents.documents, d.card.key.Owns (.project account project) →
    ∀ own ∈ w.rowsOf d, ∀ row ∈ w.mappings.rows, row.inScope (.project account project) = true →
      row.cluster = own.cluster
  gone : (∀ row ∈ w.mappings.rows, row.ownsScope (.project account project) = false) →
    ∀ row ∈ w.mappings.rows, row.inScope (.project account project) = false

namespace MappingKey

variable {k : MappingKey} {s : Scope} {a q : String}

theorem Owns.takes (h : k.Owns (.project a q)) : (Scope.project a q).takes k = true :=
  Ledger.takes_project.2 h.2

/-- The owner of a scope lives in the project of the scope. -/
theorem Owns.takes_of_scope {e : Option String} (h : k.Owns (.of a q e)) :
    (Scope.project a q).takes k = true := by
  cases e with
  | none => exact h.takes
  | some e => exact Ledger.takes_project.2 ⟨h.2.1, h.2.2.1⟩

/-- A project is a member of no scope but its own. -/
theorem Owns.scope_eq (h : k.Owns (.project a q)) (placed : k.Placed) (takes : s.takes k = true) :
    s = .project a q := by
  obtain ⟨hk, rfl, rfl⟩ := h
  cases s with
  | project a' q' =>
    obtain ⟨rfl, rfl⟩ := Ledger.takes_project.1 takes
    rfl
  | environment a' q' e =>
    have henv := placed.environment_none (by rw [hk]; rfl)
    simp [Scope.takes, Scope.environmentName?, hk, henv] at takes

end MappingKey

namespace Ledger

variable {l l' : Ledger} {c c' : Card} {a q x : String} {r : MappingRow}

/-- Whether a project is on a cluster. -/
def Hosts (l : Ledger) (a q x : String) : Prop :=
  ∃ c ∈ l.cards, c.key.Owns (.project a q) ∧ c.cluster = some x

/-- Whether every row of a project names the cluster that the project is on. -/
def Follows (l : Ledger) (a q : String) : Prop :=
  ∀ r ∈ l.rows, r.inScope (.project a q) = true → l.Hosts a q r.cluster

/-- A project has one card. -/
theorem Mapped.eq_of_owns (h : l.Mapped) (tidy : l.Tidy) (hc : c ∈ l.cards) (hc' : c' ∈ l.cards)
    (owns : c.key.Owns (.project a q)) (owns' : c'.key.Owns (.project a q)) : c = c' :=
  tidy.eq_of_identity hc hc' (owns.identity_eq (h.placed c hc) (h.placed c' hc') owns')

/-- What is filed for a member of a project is filed for the cluster that the project is on. -/
theorem Follows.target (follows : l.Follows a q) (h : l.Mapped) (hk : c.key.kind ≠ .project)
    (takes : (Scope.project a q).takes c.key = true) (hx : l.target c = some x) :
    l.Hosts a q x := by
  obtain ⟨ha, hq⟩ := takes_project.1 takes
  rw [Ledger.target, if_neg hk, MappingIndex.resolve] at hx
  obtain ⟨r, hr, rfl⟩ := Option.map_eq_some_iff.1 hx
  obtain ⟨hr, howns⟩ := List.mem_filter.1 (MappingIndex.mem_of_first? hr)
  obtain ⟨d, hd, -, heq⟩ := h.owned r hr
  have placed := h.placed d hd
  rw [heq, placed.owns_iff, MappingKey.scope, ha, hq] at howns
  refine follows r hr ?_
  rw [heq, placed.inScope_row]
  exact howns.takes_of_scope

/-! ## What is filed -/

theorem of_mem_rows_enlist (hr : r ∈ (l.enlist c).rows) :
    r ∈ l.rows ∨ ∃ x, c.cluster = some x ∧ r = c.key.row x := by
  rw [Ledger.enlist] at hr
  dsimp only at hr
  split at hr
  · exact .inl hr
  · exact (mem_fileIn.1 hr).imp_left And.left

theorem of_mem_rows_amend (hr : r ∈ (l.amend c c').rows) :
    r ∈ l.rows ∨ c'.cluster ≠ c.cluster ∧ ∃ x, c'.cluster = some x ∧ r = c'.key.row x := by
  rw [Ledger.amend] at hr
  dsimp only at hr
  split at hr
  · exact .inl hr
  · rename_i moved
    exact (mem_fileIn.1 hr).imp And.left fun h => ⟨moved, h⟩

theorem mem_rows_strike : r ∈ (l.strike c).rows ↔ r ∈ l.rows ∧ r.hasKey c.key = false := by
  rw [rows_strike, mem_fileIn]
  simp

/-! ## What keeps the members -/

/-- A card that is amended leaves projects on their clusters. -/
theorem Hosts.amend (hosts : l.Hosts a q x) (tidy : l.Tidy) (hc : c ∈ l.cards)
    (hid : c'.id = c.id) (hkey : c'.key = c.key)
    (stays : c.key.kind = .project → c'.cluster = c.cluster) : (l.amend c c').Hosts a q x := by
  obtain ⟨d, hd, owns, hx⟩ := hosts
  by_cases hne : d.id = c.id
  · obtain rfl := tidy.eq_of_id hd hc hne
    exact ⟨c', (mem_amend hc hid).2 (.inr rfl), hkey ▸ owns, (stays owns.1).trans hx⟩
  · exact ⟨d, (mem_amend hc hid).2 (.inl ⟨hd, hne⟩), owns, hx⟩

/-- When a card is taken away, the members of a project follow it just if it is not the card of the
project, or they have no rows. -/
theorem Follows.strike_iff (follows : l.Follows a q) (h : l.Mapped) (tidy : l.Tidy)
    (hc : c ∈ l.cards) : (l.strike c).Follows a q ↔ (c.key.Owns (.project a q) →
      ∀ r ∈ l.rows, r.hasKey c.key = false → r.inScope (.project a q) = false) := by
  constructor
  · intro follows' owns r hr hkey
    by_contra hin
    obtain ⟨d, hd, owns', -⟩ :=
      follows' r (mem_rows_strike.2 ⟨hr, hkey⟩) (eq_true_of_ne_false hin)
    obtain ⟨hd, hne⟩ := mem_strike.1 hd
    exact hne (congrArg Card.id (h.eq_of_owns tidy hd hc owns' owns))
  · intro free r hr hin
    obtain ⟨hr, hkey⟩ := mem_rows_strike.1 hr
    obtain ⟨d, hd, owns, hx⟩ := follows r hr hin
    refine ⟨d, mem_strike.2 ⟨hd, fun hid => ?_⟩, owns, hx⟩
    rw [tidy.eq_of_id hd hc hid] at owns
    exact Bool.false_ne_true ((free owns r hr hkey).symm.trans hin)

/-- A deed keeps the members of a project with it. -/
theorem Deed.follows (deed : Deed l l') (h : l.Mapped) (tidy : l.Tidy)
    (follows : l.Follows a q) : l'.Follows a q := by
  cases deed with
  | post topic key payload => exact follows
  | @enlist c placed target =>
    have hosts : ∀ {x}, l.Hosts a q x → (l.enlist c).Hosts a q x :=
      fun ⟨d, hd, h⟩ => ⟨d, List.mem_append_left _ hd, h⟩
    intro r hr hin
    rcases of_mem_rows_enlist hr with hr | ⟨x, hx, rfl⟩
    · exact hosts (follows r hr hin)
    · rw [placed.inScope_row] at hin
      by_cases hk : c.key.kind = .project
      · exact ⟨c, List.mem_concat_self, ⟨hk, takes_project.1 hin⟩, hx⟩
      · exact hosts (follows.target h hk hin (target.symm.trans hx))
  | @amend c c' mem hid hkey bound target =>
    intro r hr hin
    have stays := fun hk => (bound hk).2
    rcases of_mem_rows_amend hr with hr | ⟨moved, x, hx, rfl⟩
    · exact (follows r hr hin).amend tidy mem hid hkey stays
    · rw [hkey, (h.placed c mem).inScope_row] at hin
      have hk : c'.key.kind ≠ .project := fun hk => moved (stays (hkey ▸ hk))
      have hosts := follows.target h hk (hkey ▸ hin) ((target.resolve_left moved).symm.trans hx)
      exact hosts.amend tidy mem hid hkey stays
  | @strike c mem off =>
    refine (follows.strike_iff h tidy mem).2 fun owns r hr _ => ?_
    -- A project that is on no cluster has no rows.
    by_contra hin
    obtain ⟨d, hd, owns', hx⟩ := follows r hr (eq_true_of_ne_false hin)
    rw [h.eq_of_owns tidy hd mem owns' owns, off] at hx
    cases hx
  | @detach s l' detaches =>
    intro r hr hin
    rw [detaches.rows, List.mem_filter] at hr
    obtain ⟨hr, hout⟩ := hr
    obtain ⟨c, hc, owns, hx⟩ := follows r hr hin
    refine ⟨c, detaches.others c hc (Bool.eq_false_iff.2 fun takes => ?_), owns, hx⟩
    rw [owns.scope_eq (h.placed c hc) takes, hin] at hout
    cases hout

theorem Evolves.follows (evolves : l.Evolves l') (h : l.Mapped) (tidy : l.Tidy)
    (follows : l.Follows a q) : l'.Follows a q := by
  induction evolves with
  | refl => exact follows
  | tail before deed ih =>
    obtain ⟨mapped, tidy⟩ := h.evolves tidy before
    exact deed.1.follows mapped tidy ih

/-- The members of a project follow where projects move. -/
theorem Relocates.follows (relocates : l.Relocates l') (h : l.Mapped) (tidy : l.Tidy)
    (follows : l.Follows a q) : l'.Follows a q := by
  have mapped' := relocates.mapped h tidy
  obtain ⟨bus, mem, project, hid, hkey, bound, -⟩ := relocates
  rename_i c c'
  have placed : c'.key.Placed := hkey ▸ h.placed c mem
  have project' : c'.key.kind = .project := hkey ▸ project
  have scope := fun k => takes_scope_of_project placed project' (k := k)
  intro r hr hin
  obtain ⟨d, hd, -, heq⟩ := mapped'.owned r hr
  have hr : d.key.row r.cluster ∈ (l.relocate c').rows := heq ▸ hr
  have placed' := mapped'.placed d hd
  rw [heq, placed'.inScope_row] at hin
  obtain ⟨ha, hq⟩ := takes_project.1 hin
  by_cases own : (Scope.project a q).takes c'.key = true
  · obtain ⟨ha', hq'⟩ := takes_project.1 own
    have hin : (d.key.row r.cluster).inScope c'.key.scope = true := by
      rw [placed'.inScope_row, scope]
      exact ⟨ha.trans ha'.symm, hq.trans hq'.symm⟩
    cases hx : c'.cluster with
    | none =>
      rw [mem_relocate, hx, hin] at hr
      cases hr.2
    | some x =>
      refine ⟨c', (mem_relocate_cards mem hid).2 (.inr rfl), ⟨project', ha', hq'⟩, ?_⟩
      rw [hx, ← cluster_of_mem_relocate hx hr hin]
      rfl
  · have hout : c'.key.scope.takes d.key = false := by
      refine Bool.eq_false_iff.2 fun takes => own ?_
      obtain ⟨ha', hq'⟩ := (scope d.key).1 takes
      exact takes_project.2 ⟨ha'.symm.trans ha, hq'.symm.trans hq⟩
    have hne : d.key ≠ c'.key := fun he => own (he ▸ hin)
    have hr := (row_mem_relocate placed' hout hne).1 hr
    obtain ⟨e, he, owns, hx⟩ := follows _ hr (placed'.inScope_row.trans hin)
    refine ⟨e, (mem_relocate_cards mem hid).2 (.inl ⟨he, fun hide => own ?_⟩), owns, hx⟩
    rw [tidy.eq_of_id he mem hide, ← hkey] at owns
    exact owns.takes

/-- Where the rows are in order, they follow the project just if they name the cluster that it is
on. -/
theorem Mapped.follows_iff {w : World} (h : w.ledger.Mapped) (tidy : w.ledger.Tidy) :
    w.ledger.Follows a q ↔ w.MembersFollow a q := by
  constructor
  · intro follows
    refine ⟨fun d hd owns own hown row hrow hin => ?_, fun none row hrow => ?_⟩
    · obtain ⟨hown, hkey⟩ := List.mem_filter.1 hown
      have hinOwn : own.inScope (.project a q) = true := by
        rw [h.eq_row hown hkey, (h.placed d.card (List.mem_map_of_mem hd)).inScope_row]
        exact owns.takes
      obtain ⟨c, hc, howns, hx⟩ := follows row hrow hin
      obtain ⟨c', hc', howns', hx'⟩ := follows own hown hinOwn
      rw [h.eq_of_owns tidy hc hc' howns howns', hx'] at hx
      exact (Option.some.inj hx).symm
    · by_contra hin
      obtain ⟨c, hc, owns, hx⟩ := follows row hrow (eq_true_of_ne_false hin)
      have howns := (h.placed c hc).owns_iff (x := row.cluster).2 owns
      rw [none _ (h.filed c hc owns.1 _ hx)] at howns
      cases howns
  · intro follows r hr hin
    have own : ∃ row ∈ w.mappings.rows, row.ownsScope (.project a q) = true := by
      by_contra none
      have gone := follows.gone (fun row hrow => Bool.eq_false_iff.2 fun howns =>
        none ⟨row, hrow, howns⟩) r hr
      exact Bool.false_ne_true (gone.symm.trans hin)
    obtain ⟨own, hown, howns⟩ := own
    obtain ⟨c, hc, hsome, heq⟩ := h.owned own hown
    rw [heq, (h.placed c hc).owns_iff] at howns
    obtain ⟨x, hx⟩ := Option.isSome_iff_exists.1 hsome
    obtain ⟨d, hd, rfl⟩ := List.mem_map.1 hc
    have hfiled : d.card.key.row x ∈ w.rowsOf d :=
      List.mem_filter.2 ⟨h.filed d.card hc howns.1 x hx, MappingKey.hasKey_row.2 rfl⟩
    rw [follows.together d hd howns _ hfiled r hr hin]
    exact ⟨d.card, hc, howns, hx⟩

end Ledger

namespace System

variable {p : ControlPlane} {ms ms' moves : List Move} {operation : Operation}
  {report : Wire.Report} {a q : String}

/-- A delete confirmation that is taken in takes a project away while its members have rows. -/
structure Abandons (p : ControlPlane) (ms : List Move) (report : Wire.Report) (ms' : List Move)
    (account project : String) : Prop where
  confirms : report.kind = .deleteConfirmation
  taken : ∃ operation, operation.report? = some report ∧ Carried p ms operation ms'
  leaves : ∃ d, (after p ms).world.Condemns p report d ∧
    d.card.key.Owns (.project account project) ∧ ∃ row ∈ (after p ms).world.mappings.rows,
      row.inScope (.project account project) = true ∧ row.hasKey d.card.key = false

/-- An operation keeps the members of a project with it, unless it abandons them. -/
theorem Carried.follows (h : Carried p ms operation ms') (served : (after p ms').Served)
    (registered : Registered p ms') (mapped : (after p ms).world.ledger.Mapped)
    (kept : ∀ report, ¬ Abandons p ms report ms' a q)
    (follows : (after p ms).world.ledger.Follows a q) :
    (after p ms').world.ledger.Follows a q := by
  have tidy := Ledger.tidy_of_documents (tidy p ms)
  rcases h.yields served registered mapped with evolves | ⟨-, relocates⟩ |
    ⟨report, hreport, hkind, c, hc, hstrike⟩
  · exact evolves.follows mapped tidy follows
  · exact relocates.follows mapped tidy follows
  · rcases h.confirms served hreport hkind with ⟨d, condemned, hledger⟩ | ⟨-, hids⟩
    · rw [hledger, follows.strike_iff mapped tidy condemned.mem]
      intro owns row hrow hkey
      by_contra hin
      exact kept report ⟨hkind, ⟨operation, hreport, h⟩, d, condemned, owns, row, hrow,
        eq_true_of_ne_false hin, hkey⟩
    · have hmem : c.id ∈ ((after p ms).world.ledger.strike c).cards.map (·.id) := by
        rw [← hstrike, hids]
        exact List.mem_map_of_mem hc
      exact absurd rfl (Ledger.mem_ids_strike.1 hmem).2

/-- What is abandoned does not follow. -/
theorem Abandons.not_follows (h : Abandons p ms report ms' a q) (served : (after p ms').Served)
    (mapped : (after p ms).world.ledger.Mapped) (follows : (after p ms).world.ledger.Follows a q) :
    ¬ (after p ms').world.ledger.Follows a q := by
  have tidy := Ledger.tidy_of_documents (tidy p ms)
  obtain ⟨operation, hreport, carried⟩ := h.taken
  obtain ⟨d, condemned, owns, row, hrow, hin, hkey⟩ := h.leaves
  rcases carried.confirms served hreport h.confirms with ⟨d', condemned', hledger⟩ | ⟨spared, -⟩
  · rw [hledger, condemned'.unique condemned, follows.strike_iff mapped tidy condemned.mem]
    intro gone
    exact Bool.false_ne_true ((gone owns row hrow hkey).symm.trans hin)
  · exact absurd condemned (spared d)

/-- While operations run one after the other and the store and the index serve them, the rows of a
project follow it whenever the system is at rest, just if no delete confirmation takes the project
away while its members have rows. -/
theorem members_follow_iff (seq : Sequential p moves) (served : (after p moves).Served)
    (registered : Registered p moves) :
    (∀ ms, ms <+: moves → (after p ms).AtRest → (after p ms).world.MembersFollow a q) ↔
      ∀ ms report ms', ms' <+: moves → ¬ Abandons p ms report ms' a q := by
  have mappedAt : ∀ ms, ms <+: moves → (after p ms).AtRest → (after p ms).world.ledger.Mapped :=
    fun ms hp rest =>
      mapped (seq.of_prefix hp) (served.of_prefix hp) (registered.of_prefix hp) rest
  have tidyAt := fun ms => Ledger.tidy_of_documents (tidy p ms)
  constructor
  · intro follow ms report ms' hp abandons
    obtain ⟨operation, -, carried⟩ := abandons.taken
    have hms : ms <+: moves := carried.prefix.trans hp
    have mapped := mappedAt ms hms carried.before
    have follows := (mapped.follows_iff (tidyAt ms)).2 (follow ms hms carried.before)
    exact abandons.not_follows (served.of_prefix hp) mapped follows
      (((mappedAt ms' hp carried.ended).follows_iff (tidyAt ms')).2 (follow ms' hp carried.ended))
  · intro kept ms hp rest
    refine ((mappedAt ms hp rest).follows_iff (tidyAt ms)).1 ?_
    have seq : Sequential p ms := seq.of_prefix hp
    refine seq.induction (P := fun ms => (after p ms).world.ledger.Follows a q)
      (fun ms₀ hno r hr => ?_) (fun ms₀ operation ms₁ hp₁ carried follows => ?_) rest
    · rw [(ledger_of_noStart hno).2] at hr
      cases hr
    · have hp₁ := hp₁.trans hp
      have hp₀ : ms₀ <+: moves := carried.prefix.trans hp₁
      exact carried.follows (served.of_prefix hp₁) (registered.of_prefix hp₁)
        (mappedAt ms₀ hp₀ carried.before) (fun report => kept ms₀ report ms₁ hp₁) follows

/-! ### A run -/

/-- The project is deleted while it has an environment. -/
def condemnedRun : List Move :=
  attachedRun ++ carryOut 2 "8a410000" (.delete .system .project shopScope "shop") 6

/-- Its agent confirms that. -/
def abandonedRun : List Move :=
  condemnedRun ++ carryOut 3 "8a410000" (.route (shopReport 1 .deleteConfirmation)) 4

/-- The project is created again, on another cluster. -/
def estrangedRun : List Move :=
  abandonedRun ++ carryOut 4 "8a410000" (.create .system shopScope movedInput) 7

theorem estrangedRun_rows : ((after .default createdRun).AtRest ∧
    (after .default attachedRun).AtRest ∧ (after .default condemnedRun).AtRest ∧
    (after .default abandonedRun).AtRest ∧ (after .default abandonedRun).Served ∧
    (after .default estrangedRun).AtRest ∧ (after .default estrangedRun).Served) ∧
    ((∀ row ∈ (after .default abandonedRun).world.mappings.rows,
      row.ownsScope shopScope = false) ∧
      ∃ row ∈ (after .default abandonedRun).world.mappings.rows, row.inScope shopScope = true) ∧
    ∃ d ∈ (after .default estrangedRun).documents, (d.kind = .project ∧
      d.card.key.account = "acme" ∧ d.card.key.project = "shop") ∧
      (∃ own ∈ (after .default estrangedRun).world.rowsOf d, own.cluster = "us-2") ∧
      ∃ row ∈ (after .default estrangedRun).world.mappings.rows,
        row.inScope shopScope = true ∧ row.cluster = "eu-1" := by
  decide +kernel

theorem sequential_abandonedRun : Sequential .default abandonedRun := by
  obtain ⟨⟨created, attached, condemned, -⟩, -⟩ := estrangedRun_rows
  have seq := (sequential_attachedRun created).carryOut attached 2 "8a410000"
    (.delete .system .project shopScope "shop") 6
  exact seq.carryOut condemned 3 "8a410000" (.route (shopReport 1 .deleteConfirmation)) 4

theorem not_follow_abandonedRun :
    ¬ (after .default abandonedRun).world.MembersFollow "acme" "shop" := by
  obtain ⟨-, ⟨none, row, hrow, hin⟩, -⟩ := estrangedRun_rows
  exact fun follow => Bool.false_ne_true ((follow.gone none row hrow).symm.trans hin)

/-- The members of a project do not always follow it: in the run the environment keeps its row when
the project is gone, and is still on the first cluster when the project is back on another one. -/
theorem members_not_follow : Sequential .default estrangedRun ∧
    (after .default estrangedRun).Served ∧
    ((after .default abandonedRun).AtRest ∧
      ¬ (after .default abandonedRun).world.MembersFollow "acme" "shop") ∧
    (after .default estrangedRun).AtRest ∧
      ¬ (after .default estrangedRun).world.MembersFollow "acme" "shop" := by
  obtain ⟨⟨-, -, -, abandoned, -, estranged, served⟩, -, d, hd, owns, ⟨own, hown, hown'⟩, row, hrow,
    hin, hcluster⟩ := estrangedRun_rows
  refine ⟨?_, served, ⟨abandoned, not_follow_abandonedRun⟩, estranged, fun follow => ?_⟩
  · exact sequential_abandonedRun.carryOut abandoned 4 "8a410000"
      (.create .system shopScope movedInput) 7
  · have same := follow.together d hd owns own hown row hrow hin
    rw [hcluster, hown'] at same
    exact absurd same (by decide)

/-- In the run a delete confirmation takes the project away while the environment has its row. -/
theorem members_follow_iff_abandoned : Sequential .default abandonedRun ∧
    (after .default abandonedRun).Served ∧ Registered .default abandonedRun ∧
    ∃ ms report ms', ms' <+: abandonedRun ∧ Abandons .default ms report ms' "acme" "shop" := by
  obtain ⟨⟨-, -, -, rest, served, -⟩, -⟩ := estrangedRun_rows
  refine ⟨sequential_abandonedRun, served, registered_default _, by_contra fun none => ?_⟩
  have follow := (members_follow_iff (a := "acme") (q := "shop") sequential_abandonedRun served
    (registered_default _)).2 fun ms report ms' hp abandons => none ⟨ms, report, ms', hp, abandons⟩
  exact not_follow_abandonedRun (follow abandonedRun (List.prefix_refl _) rest)

end System

end FleetSync
