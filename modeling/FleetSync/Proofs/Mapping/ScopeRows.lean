import FleetSync.Proofs.Mapping.Filing
import FleetSync.Proofs.Mapping.Resyncing
import FleetSync.Proofs.Mapping.Upserts
import FleetSync.Proofs.Sequence.Stores

/-!
# The rows of a scope

The rows that are listed for a scope are those that are removed with it and those that move with it
(`MappingIndex.list_eq_ok_iff`, `MappingIndex.perm_removeScope`, `MappingIndex.perm_reassign`). The
cluster of a scope is looked up in the rows of its owner, which are told by other columns than the
rows of a scope. Where rows are placed as those of resources are (`MappingRow.WellPlaced`), a row of
the owner of a scope is in that scope, and in the scope of its project, and in no other
(`MappingRow.WellPlaced.inScope_iff`). So what is done to the rows of a scope shows in the cluster
of that scope and of the scopes inside of it, and in that of no other (`MappingIndex.scope_agrees`).
-/

namespace FleetSync

/-- Whether a row is placed as that of a resource: projects and environments live in no environment,
and a project is named as the project that it is. -/
structure MappingRow.WellPlaced (r : MappingRow) : Prop where
  level : r.kind = Kind.project.name ∨ r.kind = Kind.environment.name → r.environment = none
  own : r.kind = Kind.project.name → r.name = r.project

namespace MappingRow

variable {r : MappingRow} {s t : Scope} {m : Mapping} {x : String}

/-- The row of the owner of a scope belongs to that scope and to the project that it lives in. -/
theorem WellPlaced.inScope_iff (h : r.WellPlaced) (owns : r.ownsScope t = true) :
    r.inScope s = true ↔ t = s ∨ t.ownerScope = s := by
  cases t with
  | project a p =>
    simp only [ownsScope, Bool.and_eq_true, beq_iff_eq] at owns
    obtain ⟨⟨hkind, rfl⟩, rfl⟩ := owns
    have henv := h.level (.inl hkind)
    have hne : r.kind ≠ Kind.environment.name := by
      rw [hkind]
      decide
    cases s <;> simp [inScope, Scope.ownerScope, Scope.accountName, Scope.projectName, h.own hkind,
      henv, hne]
  | environment a p e =>
    simp only [ownsScope, Bool.and_eq_true, beq_iff_eq] at owns
    obtain ⟨⟨⟨hkind, rfl⟩, rfl⟩, rfl⟩ := owns
    have henv := h.level (.inr hkind)
    cases s <;> simp [inScope, Scope.ownerScope, Scope.accountName, Scope.projectName, hkind, henv,
      and_assoc]

@[simp] theorem ownsScope_follow : (r.follow s x).ownsScope t = r.ownsScope t := by
  rw [follow]
  split
  · cases t <;> rfl
  · rfl

/-- What a row reads back as is the mapping that it is the row of. -/
theorem toMapping_eq_ok : r.toMapping = .ok m ↔ r = .ofMapping m := by
  constructor
  · intro h
    rw [toMapping] at h
    split at h
    · rename_i level hlevel
      split at h
      · rename_i kind hkind
        obtain rfl := Except.ok.inj h
        have hlevel : level.name = r.level := by
          have hmem := Fields.mem_of_get? hlevel
          simp only [Level.variants, List.mem_cons, Prod.mk.injEq, List.not_mem_nil, or_false] at hmem
          rcases hmem with ⟨hname, rfl⟩ | ⟨hname, rfl⟩ <;> exact hname.symm
        have hkind : kind.name = r.kind := by
          obtain ⟨k, -, hk⟩ := List.mem_map.1 (Fields.mem_of_get? hkind)
          rw [Prod.mk.injEq] at hk
          rw [← hk.1, hk.2]
        rw [ofMapping, hlevel, hkind]
      · cases h
    · cases h
  · rintro rfl
    exact toMapping_ofMapping

end MappingRow

namespace MappingIndex

variable {x : MappingIndex} {s t : Scope} {cluster : String} {ms : List Mapping}

/-- The rows of a scope. -/
def rowsIn (x : MappingIndex) (s : Scope) : List MappingRow := x.rows.filter (·.inScope s)

/-! ## The same rows -/

theorem mapM_toMapping {rows : List MappingRow} :
    rows.mapM (·.toMapping) = .ok ms ↔ rows = ms.map .ofMapping := by
  induction rows generalizing ms with
  | nil => cases ms <;> simp [pure, Except.pure]
  | cons r rest ih =>
    constructor
    · intro h
      obtain ⟨m, ms', hm, hrest, rfl⟩ := mapM_cons_eq_ok h
      rw [List.map_cons, ← MappingRow.toMapping_eq_ok.1 hm, ← ih.1 hrest]
    · intro h
      cases ms with
      | nil => cases h
      | cons m ms' =>
        obtain ⟨rfl, hrest⟩ := List.cons.inj h
        rw [List.mapM_cons, MappingRow.toMapping_ofMapping, ih.2 hrest]
        rfl

theorem exists_mapM_toMapping {rows : List MappingRow}
    (h : ∀ r ∈ rows, ∃ m, r.toMapping = .ok m) : ∃ ms, rows.mapM (·.toMapping) = .ok ms := by
  induction rows with
  | nil => exact ⟨[], rfl⟩
  | cons r rest ih =>
    obtain ⟨m, hm⟩ := h r (List.mem_cons_self ..)
    obtain ⟨ms, hms⟩ := ih fun r' hr' => h r' (List.mem_cons_of_mem _ hr')
    refine ⟨m :: ms, mapM_toMapping.2 ?_⟩
    rw [List.map_cons, ← MappingRow.toMapping_eq_ok.1 hm, ← mapM_toMapping.1 hms]

/-- What is listed for a scope are its rows in order. -/
theorem list_eq_ok_iff : x.list s = .ok ms ↔
    (x.rowsIn s).mergeSort (fun a b => (a.listOrder b).isLE) = ms.map .ofMapping :=
  mapM_toMapping

theorem perm_of_list (h : x.list s = .ok ms) : (ms.map .ofMapping).Perm (x.rowsIn s) :=
  list_eq_ok_iff.1 h ▸ List.mergeSort_perm _ _

/-- The rows of a scope are listed if all of them read back. -/
theorem exists_list_iff :
    (∃ ms, x.list s = .ok ms) ↔ ∀ r ∈ x.rowsIn s, ∃ m, r.toMapping = .ok m := by
  constructor
  · rintro ⟨ms, h⟩ r hr
    obtain ⟨m, -, rfl⟩ := List.mem_map.1 ((perm_of_list h).mem_iff.2 hr)
    exact ⟨m, MappingRow.toMapping_ofMapping⟩
  · intro h
    exact exists_mapM_toMapping fun r hr => h r ((List.mergeSort_perm _ _).mem_iff.1 hr)

theorem perm_removeScope (x : MappingIndex) (s : Scope) :
    x.rows.Perm (x.rowsIn s ++ (x.removeScope s).2.rows) :=
  (List.filter_append_perm _ _).symm

theorem count_removeScope : (x.removeScope s).1 = (x.rowsIn s).length :=
  List.countP_eq_length_filter

theorem rows_reassign :
    (x.reassign s cluster).2.rows = x.rows.map (·.follow s cluster) := rfl

/-- The rows of a scope move, and all others stay as they are. -/
theorem perm_reassign : (x.reassign s cluster).2.rows.Perm
    ((x.rowsIn s).map ({ · with cluster }) ++ (x.removeScope s).2.rows) := by
  have moved : (x.rowsIn s).map (·.follow s cluster) = (x.rowsIn s).map ({ · with cluster }) :=
    List.map_congr_left fun r hr => if_pos (List.mem_filter.1 hr).2
  have stays : (x.removeScope s).2.rows.map (·.follow s cluster) = (x.removeScope s).2.rows := by
    refine (List.map_congr_left fun r hr => ?_).trans (List.map_id _)
    have hout := (List.mem_filter.1 hr).2
    rw [Bool.not_eq_true'] at hout
    rw [MappingRow.follow, hout]
    rfl
  rw [rows_reassign, ← moved, ← stays, ← List.map_append]
  exact (x.perm_removeScope s).map _

/-! ## The clusters of scopes -/

/-- The cluster of a scope depends on the rows of its owner alone. -/
theorem resolve_congr {y : MappingIndex}
    (h : y.rows.filter (·.ownsScope t) = x.rows.filter (·.ownsScope t)) :
    y.resolve t = x.resolve t := by
  rw [resolve, resolve, h]

theorem resolve_eq_none_iff : x.resolve t = none ↔ ∀ r ∈ x.rows, r.ownsScope t = false := by
  rw [resolve, Option.map_eq_none_iff]
  constructor
  · intro h r hr
    by_contra howns
    have hmem : r ∈ x.rows.filter (·.ownsScope t) :=
      List.mem_filter.2 ⟨hr, eq_true_of_ne_false howns⟩
    have hsome := isSome_first? hmem
    rw [h] at hsome
    cases hsome
  · intro h
    rw [List.filter_eq_nil_iff.2 fun r hr => by simp [h r hr]]
    rfl

section Scopes

variable (placed : ∀ r ∈ x.rows, r.WellPlaced)

include placed

/-- Without its rows a scope is on no cluster, and neither are the scopes inside of it. -/
theorem resolve_removeScope (inside : t = s ∨ t.ownerScope = s) :
    (x.removeScope s).2.resolve t = none := by
  refine resolve_eq_none_iff.2 fun r hr => Bool.eq_false_iff.2 fun owns => ?_
  obtain ⟨hr, hout⟩ := List.mem_filter.1 hr
  rw [((placed r hr).inScope_iff owns).2 inside] at hout
  cases hout

/-- The cluster that a scope moves to is that of the scope and of the scopes inside of it, as far as
they were on any. -/
theorem resolve_reassign (inside : t = s ∨ t.ownerScope = s) :
    (x.reassign s cluster).2.resolve t = (x.resolve t).map fun _ => cluster := by
  cases hx : x.resolve t with
  | none =>
    have owners := resolve_eq_none_iff.1 hx
    refine resolve_eq_none_iff.2 fun r hr => ?_
    obtain ⟨r₀, hr₀, rfl⟩ := List.mem_map.1 (rows_reassign ▸ hr)
    exact MappingRow.ownsScope_follow.trans (owners r₀ hr₀)
  | some y =>
    obtain ⟨r, hfirst, -⟩ := Option.map_eq_some_iff.1 hx
    obtain ⟨hr, owns⟩ := List.mem_filter.1 (mem_of_first? hfirst)
    refine resolve_eq (r := r.follow s cluster) (List.mem_map_of_mem hr)
      (MappingRow.ownsScope_follow.trans owns) fun r' hr' owns' => ?_
    have hr' : r' ∈ x.rows.map (·.follow s cluster) := hr'
    obtain ⟨r₀, hr₀, rfl⟩ := List.mem_map.1 hr'
    rw [MappingRow.ownsScope_follow] at owns'
    rw [MappingRow.follow, if_pos (((placed r₀ hr₀).inScope_iff owns').2 inside)]

/-- The rows of the owners of other scopes are left alone. -/
theorem resolve_outside (outside : ¬ (t = s ∨ t.ownerScope = s)) :
    (x.reassign s cluster).2.resolve t = x.resolve t ∧
      (x.removeScope s).2.resolve t = x.resolve t := by
  have out : ∀ r ∈ x.rows, r.ownsScope t = true → r.inScope s = false := fun r hr owns =>
    Bool.eq_false_iff.2 fun hin => outside (((placed r hr).inScope_iff owns).1 hin)
  constructor
  · refine resolve_congr ?_
    rw [rows_reassign, List.filter_map]
    simp only [Function.comp_def, MappingRow.ownsScope_follow]
    refine (List.map_congr_left fun r hr => ?_).trans (List.map_id _)
    obtain ⟨hr, owns⟩ := List.mem_filter.1 hr
    rw [MappingRow.follow, out r hr owns]
    rfl
  · refine resolve_congr ?_
    rw [removeScope, List.filter_filter]
    refine List.filter_congr fun r hr => ?_
    cases owns : r.ownsScope t with
    | false => rfl
    | true => rw [out r hr owns]; rfl

/-- What is done with the rows of a scope agrees with how its cluster is looked up. The same rows are
listed, if all of them read back, removed and moved, and both counts are their number. The scope and
the environments in it are on the cluster then, if they were on any before, or on none if the rows
were removed; of every other scope nothing changes. -/
theorem scope_agrees (s : Scope) (cluster : String) :
    (∃ taken : List MappingRow, x.rows.Perm (taken ++ (x.removeScope s).2.rows) ∧
      (x.reassign s cluster).2.rows.Perm
        (taken.map ({ · with cluster }) ++ (x.removeScope s).2.rows) ∧
      (x.removeScope s).1 = taken.length ∧ (x.reassign s cluster).1 = taken.length ∧
      ((∃ ms, x.list s = .ok ms) ↔ ∀ r ∈ taken, ∃ m, r.toMapping = .ok m) ∧
      ∀ ms, x.list s = .ok ms → (ms.map .ofMapping).Perm taken) ∧
    ∀ t : Scope,
      ((t = s ∨ t.ownerScope = s) →
        (x.reassign s cluster).2.resolve t = (x.resolve t).map (fun _ => cluster) ∧
        (x.removeScope s).2.resolve t = none) ∧
      (¬ (t = s ∨ t.ownerScope = s) → (x.reassign s cluster).2.resolve t = x.resolve t ∧
        (x.removeScope s).2.resolve t = x.resolve t) :=
  ⟨⟨x.rowsIn s, x.perm_removeScope s, perm_reassign, count_removeScope, count_removeScope,
    exists_list_iff, fun _ => perm_of_list⟩, fun _ =>
    ⟨fun inside => ⟨resolve_reassign placed inside, resolve_removeScope placed inside⟩,
      resolve_outside placed⟩⟩

end Scopes

/-! ### An index -/

/-- Two projects with an environment of the same name, and in one of them an app and a network that
are named as the environment. -/
def namesakes : MappingIndex := ⟨[
  ⟨"project", "project", "shop", "acme-shop", "acme", "eu-1", "shop", none⟩,
  ⟨"project", "environment", "dev", "acme-shop-dev", "acme", "eu-1", "shop", none⟩,
  ⟨"environment", "app", "dev", "acme-shop-dev", "acme", "eu-1", "shop", some "dev"⟩,
  ⟨"project", "vpn_device", "dev", "acme-shop", "acme", "eu-1", "shop", none⟩,
  ⟨"project", "environment", "dev", "acme-blog-dev", "acme", "us-2", "blog", none⟩]⟩

/-- The rows of the environment are its own and that of the app in it, and only its cluster
changes. -/
theorem scope_agrees_namesakes : (∀ r ∈ namesakes.rows, r.WellPlaced) ∧
    (namesakes.removeScope (.environment "acme" "shop" "dev")).1 = 2 ∧
    (namesakes.reassign (.environment "acme" "shop" "dev") "us-2").2.resolve
      (.environment "acme" "shop" "dev") = some "us-2" ∧
    (namesakes.removeScope (.environment "acme" "shop" "dev")).2.resolve
      (.project "acme" "shop") = some "eu-1" := by
  have placed : ∀ r ∈ namesakes.rows, r.WellPlaced := by
    have checked : ∀ r ∈ namesakes.rows,
        (r.kind = Kind.project.name ∨ r.kind = Kind.environment.name → r.environment = none) ∧
          (r.kind = Kind.project.name → r.name = r.project) := by decide
    exact fun r hr => ⟨(checked r hr).1, (checked r hr).2⟩
  obtain ⟨-, clusters⟩ := scope_agrees placed (.environment "acme" "shop" "dev") "us-2"
  obtain ⟨inside, -⟩ := clusters (.environment "acme" "shop" "dev")
  obtain ⟨-, outside⟩ := clusters (.project "acme" "shop")
  exact ⟨placed, by decide, (inside (.inl rfl)).1.trans (by decide),
    (outside (by decide)).2.trans (by decide)⟩

end MappingIndex

end FleetSync
