import FleetSync.Proofs.Mapping.Attachment
import FleetSync.Proofs.Mapping.Resyncing

/-!
# Sending a project again

When a project that names a cluster is sent again with all its members, then these are on the
cluster afterwards, have a row for it and were sent there, if and only if none of them was a stray
on that cluster before (`System.resyncScope_attaches_iff`). A stray stays one: its document names
the cluster already, so its row is not filed (`System.resyncScope_not_attaches`).
-/

namespace FleetSync

open Program (Ensures)
open Ledger (Resyncing eq_singleton_of_mem)

namespace ControlPlane

variable {p : ControlPlane} {l₀ : Ledger} {a q x : String} {anchor : Card} {w : World}
  {waits : Card → Prop} (mapped₀ : l₀.Mapped) (tidy₀ : l₀.Tidy) (anchored : l₀.Anchor a q x anchor)

include mapped₀ tidy₀ anchored

theorem requeue_resyncs (mapped : w.ledger.Mapped)
    (h : Resyncing p l₀ (.project a q) x waits w.ledger) {r : Resource}
    (hr : r.card ∈ w.ledger.cards) (ready : r.card.key.environment.isSome = true →
      ∀ e, e.key.kind = .environment → ¬ waits e) :
    Ensures True (fun _ w' => w'.ledger.Mapped ∧
      Resyncing p l₀ (.project a q) x (fun c => waits c ∧ c.id ≠ r.id) w'.ledger ∧
        ∀ d ∈ w.ledger.cards, d.id ≠ r.id → d ∈ w'.ledger.cards) (fun _ _ => True)
      (p.requeue r) w := by
  refine Ensures.tidy fun ht => ?_
  have tidy := Ledger.tidy_of_documents ht
  refine (p.requeue_ensures hr fun _ _ _ => trivial).mono ?_ fun _ _ h => h
  rintro o w' ⟨-, l, hsends, hw'⟩
  rw [hw']
  refine ⟨(mapped.evolves tidy (mapped.evolves_settle tidy hr hsends)).1, ?_, fun d hd hid => ?_⟩
  · exact h.settle mapped₀ tidy₀ mapped tidy anchored hr ready hsends
  · exact Ledger.mem_settle (hsends.cards ▸ hr) (hsends.cards ▸ hd) hid

/-- Sending the members of a kind leaves nothing of that kind waiting. -/
theorem resyncMembers_resyncs (mapped : w.ledger.Mapped) (kind : Kind)
    (h : Resyncing p l₀ (.project a q) x waits w.ledger)
    (ready : kind.level = .environment → ∀ e, e.key.kind = .environment → ¬ waits e) :
    Ensures True (fun _ w' => w'.ledger.Mapped ∧
      Resyncing p l₀ (.project a q) x (fun c => waits c ∧ c.key.kind ≠ kind) w'.ledger)
      (fun _ _ => True) (p.resyncMembers (.project a q) kind) w := by
  refine (Resource.members_ensures kind (.project a q)).bind fun rs w₁ h₁ => ?_
  refine Ensures.tidy fun ht => ?_
  obtain ⟨hw₁, hcards⟩ := h₁
  have tidy := Ledger.tidy_of_documents ht
  rw [← hw₁] at mapped h hcards
  have hsub : (rs.map (·.card)).Sublist w₁.ledger.cards := hcards ▸ List.filter_sublist
  let inv : List Resource → World → Prop := fun rest w' => w'.ledger.Mapped ∧
    Resyncing p l₀ (.project a q) x
      (fun c => waits c ∧ (c.key.kind = kind → ∃ r ∈ rest, r.id = c.id)) w'.ledger ∧
    (∀ r ∈ rest, r.card ∈ w'.ledger.cards ∧ r.kind = kind) ∧ (rest.map (·.id)).Nodup
  have start : inv rs w₁ := by
    refine ⟨mapped, h.mono fun c hc htakes hwaits => ⟨hwaits, fun hk => ?_⟩, fun r hr => ?_,
      Resource.nodup_ids tidy hsub⟩
    · have hc : c ∈ rs.map (·.card) := by
        rw [hcards, List.mem_filter, Bool.and_eq_true, decide_eq_true_eq]
        exact ⟨hc, hk, htakes⟩
      obtain ⟨r, hr, rfl⟩ := List.mem_map.1 hc
      exact ⟨r, hr, rfl⟩
    · have hr : r.card ∈ rs.map (·.card) := List.mem_map_of_mem hr
      rw [hcards, List.mem_filter, Bool.and_eq_true, decide_eq_true_eq] at hr
      exact ⟨hr.1, hr.2.1⟩
  have turn : ∀ (r : Resource) (rest : List Resource) (w' : World), inv (r :: rest) w' →
      Ensures True (fun _ => inv rest) (fun _ _ => True) (do return (← p.requeue r).count) w' := by
    rintro r rest w' ⟨mapped, h, hmem, hids⟩
    obtain ⟨hr, hk⟩ := hmem r (List.mem_cons_self ..)
    obtain ⟨hnew, hids⟩ := List.nodup_cons.1 hids
    have hready : r.card.key.environment.isSome = true → ∀ e, e.key.kind = .environment →
        ¬ (waits e ∧ (e.key.kind = kind → ∃ r' ∈ r :: rest, r'.id = e.id)) := by
      intro henv e he hwaits
      have hlevel := (mapped.placed r.card hr).level.1 henv
      have hk : r.card.key.kind = kind := hk
      exact ready (hk ▸ hlevel) e he hwaits.1
    refine (requeue_resyncs mapped₀ tidy₀ anchored mapped h hr hready).bind
      fun o w'' h' => Ensures.done ?_
    obtain ⟨mapped', h', hspares⟩ := h'
    refine ⟨mapped', h'.mono fun c _ _ hc => ⟨hc.1.1, fun hk => ?_⟩, fun r' hr' => ?_, hids⟩
    · obtain ⟨r', hr', hid⟩ := hc.1.2 hk
      rcases List.mem_cons.1 hr' with rfl | hr'
      · exact absurd hid.symm hc.2
      · exact ⟨r', hr', hid⟩
    · obtain ⟨hr'', hk'⟩ := hmem r' (List.mem_cons_of_mem _ hr')
      refine ⟨hspares _ hr'' fun hid => hnew ?_, hk'⟩
      exact List.mem_map.2 ⟨r', hr', hid⟩
  refine (Ensures.total inv turn start).mono (fun _ w' hinv => ⟨hinv.1, ?_⟩) fun _ _ h => h
  exact hinv.2.1.mono fun c _ _ hc => ⟨hc.1, fun hk => by simpa using hc.2 hk⟩

/-- Sending a project again reaches its members in the order of the kinds: environments come before
what lives in them. -/
theorem resyncScope_resyncs (mapped : w.ledger.Mapped) (hw : w.ledger = l₀) (user : User)
    (all : ∀ kind, p.handles kind = true)
    (order : p.kinds.Pairwise fun k k' => k.level = .environment → k' ≠ .environment) :
    Ensures True (fun _ w' => w'.ledger.Mapped ∧
      Resyncing p l₀ (.project a q) x (fun _ => False) w'.ledger) (fun _ _ => True)
      (p.resyncScope user (.project a q)) w := by
  refine (Program.ofExcept_ensures _ fun _ _ _ => trivial).bind fun _ w₁ h₁ => ?_
  refine (Program.authorize_ensures user.id _ .resync fun _ _ _ => trivial).bind fun _ w₂ h₂ => ?_
  rw [h₁.1] at h₂
  rw [← h₂] at mapped hw
  let inv : List Kind → World → Prop := fun kinds w' => w'.ledger.Mapped ∧
    Resyncing p l₀ (.project a q) x (fun c => c.key.kind ∈ kinds) w'.ledger ∧
    kinds.Pairwise fun k k' => k.level = .environment → k' ≠ .environment
  have start : inv p.kinds w₂ :=
    ⟨mapped, hw ▸ .refl fun c _ => List.contains_iff_mem.1 (all c.key.kind), order⟩
  have turn : ∀ (kind : Kind) (rest : List Kind) (w' : World), inv (kind :: rest) w' →
      Ensures True (fun _ => inv rest) (fun _ _ => True)
        (p.resyncMembers (.project a q) kind) w' := by
    rintro kind rest w' ⟨mapped, h, order⟩
    obtain ⟨hfirst, order⟩ := List.pairwise_cons.1 order
    refine (resyncMembers_resyncs mapped₀ tidy₀ anchored mapped kind h ?_).mono ?_ fun _ _ h => h
    · rintro hlevel e he hmem
      rw [he] at hmem
      rcases List.mem_cons.1 hmem with rfl | hmem
      · cases hlevel
      · exact hfirst _ hmem hlevel rfl
    · rintro _ w'' ⟨mapped, h⟩
      refine ⟨mapped, h.mono fun c _ _ hc => ?_, order⟩
      exact (List.mem_cons.1 hc.1).resolve_left hc.2
  refine (Ensures.total inv turn start).mono (fun _ w' hinv => ⟨hinv.1, ?_⟩) fun _ _ h => h
  exact hinv.2.1.mono fun c _ _ hc => nomatch hc

end ControlPlane

namespace System

variable {p : ControlPlane} {ms ms' : List Move} {user : User} {a q x : String}

/-- Whether a document belongs to a project, and so does the document of the environment it lives
in, if it lives in one. -/
structure Housed (s : System) (a q : String) (d : StoredDocument) : Prop where
  stored : d ∈ s.documents
  account : d.card.key.account = a
  project : d.card.key.project = q
  environment : ∀ e, d.card.key.environment = some e → ∃ env ∈ s.documents,
    env.card.key.Owns (.environment a q e)

/-- Whether a document is on a cluster, has one row, which is for that cluster, and was sent there
since an earlier moment. -/
structure AttachedSince (p : ControlPlane) (s s' : System) (x : String) (d : StoredDocument) :
    Prop where
  cluster : d.card.cluster = some x
  row : ∃ row, s'.world.rowsOf d = [row] ∧ row.cluster = x
  sent : ∃ e, s.Posted s' (p.topicOf x) e ∧ e.clusterName = x ∧ e.IsOf d.card

/-- Whether every document of a project that is on a cluster has a row for it. -/
def NoStrays (s : System) (a q x : String) : Prop :=
  ∀ d, s.Housed a q d → d.card.cluster = some x → ∃ row ∈ s.world.rowsOf d, row.cluster = x

/-- The result of the operation that was started last, if it has come to its end. -/
def last? (s : System) : Option (Except OpError Outcome) :=
  s.tasks.getLast?.bind fun t => match t.rest with
    | .done r => some r
    | .call .. => none

/-- What an operation ensures if it ends without an error holds where it has ended so. -/
theorem Carried.ensures_last {operation : Operation} (h : Carried p ms operation ms')
    {good : Outcome → World → Prop} {bad : OpError → World → Prop}
    (ensures : (operation.program p).Ensures True good bad (after p ms).world) {outcome : Outcome}
    (ok : (after p ms').last? = some (.ok outcome)) : good outcome (after p ms').world := by
  obtain ⟨t, r, htasks, -, hrest, hends⟩ := h.ensures (.inl trivial) ensures
  rw [last?, htasks, List.getLast?_concat, Option.bind_some, hrest] at ok
  obtain rfl : r = .ok outcome := Option.some.inj ok
  exact hends

theorem mem_ledger {s : System} {d : StoredDocument} (hd : d ∈ s.documents) :
    d.card ∈ s.world.ledger.cards := List.mem_map_of_mem hd

/-- A document has a row for a cluster just if the row of its key and that cluster is there. -/
theorem exists_rowOf_iff {s : System} (mapped : s.world.ledger.Mapped) {d : StoredDocument} :
    (∃ row ∈ s.world.rowsOf d, row.cluster = x) ↔ d.card.key.row x ∈ s.world.ledger.rows := by
  constructor
  · rintro ⟨row, hrow, rfl⟩
    obtain ⟨hmem, hkey⟩ := List.mem_filter.1 hrow
    exact mapped.eq_row hmem hkey ▸ hmem
  · exact fun h => ⟨_, List.mem_filter.2 ⟨h, MappingKey.hasKey_row.2 rfl⟩, rfl⟩

theorem noStrays_iff (mapped : (after p ms).world.ledger.Mapped) :
    (after p ms).NoStrays a q x ↔
      ∀ d, (after p ms).Housed a q d → ¬ (after p ms).world.ledger.Stray d.card.id x := by
  have tidy := Ledger.tidy_of_documents (tidy p ms)
  refine forall_congr' fun d => forall_congr' fun housed => ?_
  rw [tidy.not_stray_iff (mem_ledger housed.stored), exists_rowOf_iff mapped]

/-- A document is reached if its environment is no stray. -/
theorem Housed.reached {s : System} {d : StoredDocument} (h : s.Housed a q d)
    (env : ∀ e ∈ s.documents, e.card.key.kind = .environment → s.Housed a q e →
      ¬ s.world.ledger.Stray e.card.id x) :
    s.world.ledger.Reached (.project a q) x d.card where
  takes := Ledger.takes_project.2 ⟨h.account, h.project⟩
  environment e he := by
    obtain ⟨d', hd', owns⟩ := h.environment e he
    refine ⟨d'.card, mem_ledger hd', by rwa [h.account, h.project], ?_⟩
    obtain ⟨hk, ha, hq, hnone, -⟩ := owns
    exact env d' hd' hk ⟨hd', ha, hq, fun e' he' => by rw [hnone] at he'; cases he'⟩

/-- When a project that names a cluster was sent again with its members, these are on the cluster,
have a row for it and were sent there, just if those that were there before had their rows. -/
theorem resyncScope_attaches_iff (kinds : p.kinds = Kind.all) (seq : Sequential p ms)
    (served : (after p ms).Served)
    (carried : Carried p ms (.resyncScope user (.project a q)) ms') {outcome : Outcome}
    (ok : (after p ms').last? = some (.ok outcome)) {d : StoredDocument}
    (housed : (after p ms).Housed a q d) (project : d.kind = .project)
    (bound : d.specCluster? = some x) :
    (∀ d, (after p ms').Housed a q d → AttachedSince p (after p ms) (after p ms') x d) ↔
      (after p ms).NoStrays a q x := by
  have all : ∀ kind, p.handles kind = true :=
    fun kind => List.contains_iff_mem.2 (kinds ▸ kind.mem_all)
  have mapped := mapped seq served (fun _ _ input _ => all input.kind) carried.before
  have tidy₀ := Ledger.tidy_of_documents (tidy p ms)
  have tidy' := Ledger.tidy_of_documents (tidy p ms')
  have anchored : (after p ms).world.ledger.Anchor a q x d.card :=
    ⟨mem_ledger housed.stored, ⟨project, housed.account, housed.project⟩,
      (if_pos project).trans bound⟩
  have order : p.kinds.Pairwise fun k k' => k.level = .environment → k' ≠ .environment := by
    rw [kinds]
    decide
  have ensures : ((Operation.resyncScope user (.project a q)).program p).Ensures True
      (fun _ w' => w'.ledger.Mapped ∧ Resyncing p (after p ms).world.ledger (.project a q) x
        (fun _ => False) w'.ledger) (fun _ _ => True) (after p ms).world :=
    (ControlPlane.resyncScope_resyncs mapped tidy₀ anchored mapped rfl user all order).map
      fun _ _ h => h
  obtain ⟨mapped', resynced⟩ := carried.ensures_last ensures ok
  have settled : ∀ c ∈ (after p ms).world.ledger.cards,
      (after p ms).world.ledger.Reached (.project a q) x c →
        Ledger.Settled p (after p ms).world.ledger x c (after p ms').world.ledger :=
    fun c hc hr => (resynced.reached c hc hr).resolve_left fun h => h.1
  rw [noStrays_iff mapped]
  constructor
  · intro attached
    -- What was sent is still there, with its row if it is attached, and then it was no stray.
    have stays : ∀ d, (after p ms).world.ledger.Reached (.project a q) x d.card →
        d ∈ (after p ms).documents → ∃ d' ∈ (after p ms').documents, d'.card = d.card.on (some x) :=
      fun d hr hd => List.mem_map.1 (settled d.card (mem_ledger hd) hr).card
    have free : ∀ d, (after p ms).Housed a q d →
        (after p ms).world.ledger.Reached (.project a q) x d.card →
        (∀ e, d.card.key.environment = some e → ∃ env ∈ (after p ms').documents,
          env.card.key.Owns (.environment a q e)) →
        ¬ (after p ms).world.ledger.Stray d.card.id x := by
      intro d housed hr env
      obtain ⟨d', hd', hcard⟩ := stays d hr housed.stored
      have hkey : d'.card.key = d.card.key := by
        rw [hcard, Card.key_on]
      have housed' : (after p ms').Housed a q d' :=
        ⟨hd', hkey ▸ housed.account, hkey ▸ housed.project, hkey ▸ env⟩
      obtain ⟨row, hrow, hcluster⟩ := (attached d' housed').row
      have hrow : d.card.key.row x ∈ (after p ms').world.ledger.rows :=
        hkey ▸ (exists_rowOf_iff mapped').1 ⟨row, hrow ▸ List.mem_singleton_self row, hcluster⟩
      exact (settled d.card (mem_ledger housed.stored) hr).row.1 hrow
    have envs : ∀ e ∈ (after p ms).documents, e.card.key.kind = .environment →
        (after p ms).Housed a q e → ¬ (after p ms).world.ledger.Stray e.card.id x := by
      intro e he hk housed
      have hnone := (mapped.placed e.card (mem_ledger he)).environment_none (by rw [hk]; rfl)
      have none : ∀ e', e.card.key.environment ≠ some e' := fun e' he' => by
        rw [hnone] at he'
        cases he'
      exact free e housed ⟨Ledger.takes_project.2 ⟨housed.account, housed.project⟩,
        fun e' he' => absurd he' (none e')⟩ fun e' he' => absurd he' (none e')
    intro d housed
    refine free d housed (housed.reached envs) fun e he => ?_
    obtain ⟨env, henv, owns⟩ := housed.environment e he
    have hnone : env.card.key.environment = none := owns.2.2.2.1
    have housed' : (after p ms).Housed a q env := ⟨henv, owns.2.1, owns.2.2.1, fun e' he' => by
      rw [hnone] at he'
      cases he'⟩
    obtain ⟨env', henv', hcard⟩ := stays env (housed'.reached envs) henv
    exact ⟨env', henv', hcard ▸ owns⟩
  · intro noStrays d' housed'
    obtain ⟨c, hc, hid, hkey⟩ := resynced.origin d'.card (mem_ledger housed'.stored)
    obtain ⟨d, hd, rfl⟩ := List.mem_map.1 hc
    have housed : (after p ms).Housed a q d := by
      refine ⟨hd, hkey ▸ housed'.account, hkey ▸ housed'.project, fun e he => ?_⟩
      obtain ⟨env', henv', owns⟩ := housed'.environment e (hkey ▸ he)
      obtain ⟨c, hc, -, hkey'⟩ := resynced.origin env'.card (mem_ledger henv')
      obtain ⟨env, henv, rfl⟩ := List.mem_map.1 hc
      exact ⟨env, henv, hkey' ▸ owns⟩
    have hsettled := settled d.card hc (housed.reached fun e _ _ he => noStrays e he)
    have hcard : d'.card = d.card.on (some x) :=
      tidy'.eq_of_id (mem_ledger housed'.stored) hsettled.card hid
    have hrow : d'.card.key.row x ∈ (after p ms').world.rowsOf d' := by
      refine List.mem_filter.2 ⟨?_, MappingKey.hasKey_row.2 rfl⟩
      rw [hcard]
      exact hsettled.row.2 (noStrays d housed)
    obtain ⟨m, hm, e, hcarries, hcluster, hof⟩ := hsettled.sent
    refine ⟨by rw [hcard]; rfl, ⟨_, eq_singleton_of_mem (mapped'.length_rows_le _) hrow, rfl⟩, ?_⟩
    exact ⟨e, ⟨m, hm, hcarries⟩, hcluster, hcard ▸ Wire.Envelope.isOf_on.2 hof⟩

/-! ### Runs -/

/-- The project without a cluster. -/
def unboundInput : ResourceInput := .new "shop" "default" (.project ⟨none, none, none⟩)

/-- The project with its environment is sent again. -/
def resyncedRun : List Move :=
  attachedRun ++ carryOut 2 "8a410000" (.resyncScope .system shopScope) 18

/-- The project is taken off its cluster. -/
def unboundRun : List Move :=
  attachedRun ++ carryOut 2 "8a410000" (.update .system shopScope unboundInput) 6

/-- Then it is put back on it. -/
def returnedRun : List Move :=
  unboundRun ++ carryOut 3 "8a410001" (.update .system shopScope shopInput) 8

/-- Then it is sent again. -/
def returnedResyncedRun : List Move :=
  returnedRun ++ carryOut 4 "8a410002" (.resyncScope .system shopScope) 18

/-- What lives directly in a project is housed there. -/
theorem housed_of_none {s : System} {d : StoredDocument} (hd : d ∈ s.documents)
    (account : d.card.key.account = a) (project : d.card.key.project = q)
    (environment : d.card.key.environment = none) : s.Housed a q d :=
  ⟨hd, account, project, fun e he => by rw [environment] at he; cases he⟩

theorem resyncedRun_documents : ((after .default createdRun).AtRest ∧
    (after .default attachedRun).AtRest ∧ (after .default attachedRun).Served ∧
    (after .default resyncedRun).AtRest ∧
    (after .default resyncedRun).last? = some (.ok (.count 2))) ∧
    (∃ d ∈ (after .default attachedRun).documents, d.card.key.account = "acme" ∧
      d.card.key.project = "shop" ∧ d.card.key.environment = none ∧ d.kind = .project ∧
      d.specCluster? = some "eu-1") ∧
    ∀ d ∈ (after .default attachedRun).documents, d.card.cluster = some "eu-1" →
      ∃ row ∈ (after .default attachedRun).world.rowsOf d, row.cluster = "eu-1" := by
  decide +kernel

/-- In the run nothing is a stray, and the project and its environment are attached. -/
theorem resyncScope_attaches_iff_attached :
    (after .default attachedRun).NoStrays "acme" "shop" "eu-1" ∧
      ∀ d, (after .default resyncedRun).Housed "acme" "shop" d →
        AttachedSince .default (after .default attachedRun) (after .default resyncedRun)
          "eu-1" d := by
  obtain ⟨⟨created, attached, served, rest, ok⟩, ⟨d, hd, ha, hq, he, hk, hbound⟩, rows⟩ :=
    resyncedRun_documents
  have carried := carried_carryOut attached 2 "8a410000" (.resyncScope .system shopScope) 18 rest
  have noStrays : (after .default attachedRun).NoStrays "acme" "shop" "eu-1" :=
    fun d housed => rows d housed.stored
  exact ⟨noStrays, (resyncScope_attaches_iff rfl (sequential_attachedRun created) served carried ok
    (housed_of_none hd ha hq he) hk hbound).2 noStrays⟩

theorem returnedResyncedRun_documents : ((after .default createdRun).AtRest ∧
    (after .default attachedRun).AtRest ∧ (after .default unboundRun).AtRest ∧
    (after .default returnedRun).AtRest ∧ (after .default returnedRun).Served ∧
    (after .default returnedResyncedRun).AtRest ∧
    (after .default returnedResyncedRun).last? = some (.ok (.count 2))) ∧
    (∃ d ∈ (after .default returnedRun).documents, d.kind = .project ∧
      d.specCluster? = some "eu-1") ∧
    ∃ d ∈ (after .default returnedResyncedRun).documents, d.card.key.account = "acme" ∧
      d.card.key.project = "shop" ∧ d.card.key.environment = none ∧
      (after .default returnedResyncedRun).world.rowsOf d = [] := by
  decide +kernel

/-- Sending a project that is bound to a cluster does not attach all its members: after the project
was off its cluster for a while, its environment has no row. -/
theorem resyncScope_not_attaches : Sequential .default returnedRun ∧
    (after .default returnedRun).Served ∧
    Carried .default returnedRun (.resyncScope .system shopScope) returnedResyncedRun ∧
    (after .default returnedResyncedRun).last? = some (.ok (.count 2)) ∧
    (∃ d ∈ (after .default returnedRun).documents, d.kind = .project ∧
      d.specCluster? = some "eu-1") ∧
    ∃ d, (after .default returnedResyncedRun).Housed "acme" "shop" d ∧
      (after .default returnedResyncedRun).world.rowsOf d = [] := by
  obtain ⟨⟨created, attached, unbound, returned, served, rest, ok⟩, project, d, hd, ha, hq, he,
    hrows⟩ := returnedResyncedRun_documents
  have seq : Sequential .default unboundRun :=
    (sequential_attachedRun created).carryOut attached 2 "8a410000"
      (.update .system shopScope unboundInput) 6
  have seq : Sequential .default returnedRun :=
    seq.carryOut unbound 3 "8a410001" (.update .system shopScope shopInput) 8
  have carried := carried_carryOut returned 4 "8a410002" (.resyncScope .system shopScope) 18 rest
  exact ⟨seq, served, carried, ok, project, d, housed_of_none hd ha hq he, hrows⟩

end System

end FleetSync
