import FleetSync.Program.World
import Mathlib.Data.List.Nodup

/-!
# Filing a mapping

A mapping is filed as a whole or not at all (`World.file_atomic`): the row of its key is replaced
and no other row is touched, or the index stays as it is. The index takes no two rows of one place
(`MappingRow.place`), and keys may share a place although they differ: where one has no environment
and the other has the empty one. A row under such a key is all that can be in the way of a mapping
(`MappingRow.Obstructs`, `MappingIndex.upsert_of_free`, `MappingIndex.upsert_of_obstructed`). So
what is filed at other places is not in the way (`MappingIndex.obstructed_refiled`), and two
mappings of different places can be filed in either order (`MappingIndex.refiled_comm`).
-/

namespace FleetSync

namespace MappingRow

/-- What no two rows of the index share: a row's identity, where a missing environment counts as the
empty one. -/
def place (r : MappingRow) : List String :=
  [r.kind, r.account, r.project, r.environment.getD "", r.name, r.namespaceName]

/-- Whether a row agrees with a key but for the environment, which one of them lacks while that of
the other is empty. -/
structure Obstructs (r : MappingRow) (k : MappingKey) : Prop where
  agrees : r.hasKey { k with environment := r.environment } = true
  differs : r.environment = none ∧ k.environment = some "" ∨
    r.environment = some "" ∧ k.environment = none

end MappingRow

/-- The place that is taken by the row of a key. -/
def MappingKey.place (k : MappingKey) : List String :=
  [k.kind.name, k.account, k.project, k.environment.getD "", k.name, k.namespaceName]

/-- Whether no two rows share a place. -/
def MappingIndex.Unique (x : MappingIndex) : Prop := (x.rows.map (·.place)).Nodup

namespace MappingRow

variable {r s : MappingRow} {k : MappingKey} {m : Mapping}

theorem clashes_iff : r.clashes s = true ↔ r.place = s.place := by
  simp [clashes, place, and_assoc]

theorem hasKey_iff : r.hasKey k = true ↔ r.place = k.place ∧ r.environment = k.environment := by
  simp only [hasKey, place, MappingKey.place, Bool.and_eq_true, beq_iff_eq, List.cons.injEq,
    and_true]
  constructor
  · rintro ⟨⟨⟨⟨⟨hkind, ha⟩, hp⟩, he⟩, hn⟩, hns⟩
    exact ⟨⟨hkind, ha, hp, congrArg (·.getD "") he, hn, hns⟩, he⟩
  · rintro ⟨⟨hkind, ha, hp, -, hn, hns⟩, he⟩
    exact ⟨⟨⟨⟨⟨hkind, ha⟩, hp⟩, he⟩, hn⟩, hns⟩

/-- Environments that count as the same are the same, or one is missing and the other is empty. -/
theorem getD_environment_eq {a b : Option String} : a.getD "" = b.getD "" ↔
    a = b ∨ a = none ∧ b = some "" ∨ a = some "" ∧ b = none := by
  cases a <;> cases b <;> simp [eq_comm]

theorem obstructs_iff : r.Obstructs k ↔ r.place = k.place ∧ r.hasKey k = false := by
  have agrees : r.hasKey { k with environment := r.environment } = true ↔
      r.place = MappingKey.place { k with environment := r.environment } := by
    rw [hasKey_iff, and_iff_left rfl]
  rw [Bool.eq_false_iff, Ne, hasKey_iff, not_and]
  constructor
  · rintro ⟨hr, hdiffers⟩
    have hplace : r.place = k.place := by
      rw [agrees.1 hr]
      simp only [MappingKey.place, getD_environment_eq.2 (.inr hdiffers)]
    refine ⟨hplace, fun _ heq => ?_⟩
    rcases hdiffers with ⟨hr, hk⟩ | ⟨hr, hk⟩ <;> rw [hr, hk] at heq <;> cases heq
  · rintro ⟨hplace, hne⟩
    have henv : r.environment.getD "" = k.environment.getD "" := by
      simp only [place, MappingKey.place, List.cons.injEq] at hplace
      exact hplace.2.2.2.1
    refine ⟨agrees.2 ?_, (getD_environment_eq.1 henv).resolve_left (hne hplace)⟩
    simp only [hplace, MappingKey.place, henv]

theorem hasKey_ofMapping : (ofMapping m).hasKey m.key = true := hasKey_iff.2 ⟨rfl, rfl⟩

/-- The row of a mapping reads back as the mapping. -/
theorem toMapping_ofMapping : (ofMapping m).toMapping = .ok m := by
  obtain ⟨level, kind, _⟩ := m
  cases level <;> cases kind <;> rfl

end MappingRow

namespace MappingIndex

variable {x : MappingIndex} {m n : Mapping}

/-- Whether a row is in the way of a mapping. -/
def Obstructed (x : MappingIndex) (m : Mapping) : Prop := ∃ r ∈ x.rows, r.Obstructs m.key

/-- The index with a mapping instead of what is filed under its key. -/
def refiled (x : MappingIndex) (m : Mapping) : MappingIndex :=
  ⟨(x.without m.key).rows ++ [.ofMapping m]⟩

theorem mem_without {r : MappingRow} {k : MappingKey} :
    r ∈ (x.without k).rows ↔ r ∈ x.rows ∧ r.hasKey k = false := by
  rw [without, List.mem_filter, Bool.not_eq_true']

/-- Nothing but a row that obstructs it clashes with a mapping. -/
theorem any_clashes_without :
    (x.without m.key).rows.any (MappingRow.ofMapping m).clashes = true ↔ x.Obstructed m := by
  rw [List.any_eq_true]
  constructor
  · rintro ⟨r, hr, hclash⟩
    obtain ⟨hr, hkey⟩ := mem_without.1 hr
    exact ⟨r, hr, MappingRow.obstructs_iff.2 ⟨(MappingRow.clashes_iff.1 hclash).symm, hkey⟩⟩
  · rintro ⟨r, hr, hobstructs⟩
    obtain ⟨hplace, hkey⟩ := MappingRow.obstructs_iff.1 hobstructs
    exact ⟨r, mem_without.2 ⟨hr, hkey⟩, MappingRow.clashes_iff.2 hplace.symm⟩

theorem upsert_of_obstructed (h : x.Obstructed m) :
    x.upsert m = .error (.database "query" "rows clash") := by
  rw [upsert, insert, if_pos (any_clashes_without.2 h)]

theorem upsert_of_free (h : ¬ x.Obstructed m) : x.upsert m = .ok (x.refiled m) := by
  rw [upsert, insert, if_neg fun hclash => h (any_clashes_without.1 hclash), refiled]

/-! ## What is filed afterwards -/

theorem own_refiled : (x.refiled m).rows.filter (·.hasKey m.key) = [.ofMapping m] := by
  have others : (x.without m.key).rows.filter (·.hasKey m.key) = [] :=
    List.filter_eq_nil_iff.2 fun r hr => by simp [(mem_without.1 hr).2]
  have own : [MappingRow.ofMapping m].filter (·.hasKey m.key) = [.ofMapping m] :=
    List.filter_eq_self.2 fun r hr => List.mem_singleton.1 hr ▸ MappingRow.hasKey_ofMapping
  rw [refiled, List.filter_append, others, own, List.nil_append]

theorem without_refiled : (x.refiled m).without m.key = x.without m.key := by
  have own : [MappingRow.ofMapping m].filter (!·.hasKey m.key) = [] :=
    List.filter_eq_nil_iff.2 fun r hr => by
      simp [List.mem_singleton.1 hr, MappingRow.hasKey_ofMapping]
  rw [without, refiled, List.filter_append, own, List.append_nil, without, List.filter_filter]
  simp only [Bool.and_self]

theorem find_refiled : (x.refiled m).find m.key = .ok (some m) := by
  rw [find, ← List.head?_filter, own_refiled, List.head?_cons]
  dsimp only
  rw [MappingRow.toMapping_ofMapping]
  rfl

/-- A mapping is not in its own way. -/
theorem obstructed_refiled_self : (x.refiled m).Obstructed m ↔ x.Obstructed m := by
  rw [← any_clashes_without, without_refiled, any_clashes_without]

theorem refiled_refiled : (x.refiled m).refiled m = x.refiled m := by
  rw [refiled, without_refiled, ← refiled]

/-- No row shares the place of a mapping that none obstructs, unless it has the key. -/
theorem unique_refiled (unique : x.Unique) (free : ¬ x.Obstructed m) : (x.refiled m).Unique := by
  rw [Unique, refiled, List.map_append, List.nodup_append']
  refine ⟨(List.filter_sublist.map _).nodup unique, List.nodup_singleton _, fun p hp hm => ?_⟩
  obtain ⟨r, hr, rfl⟩ := List.mem_map.1 hp
  obtain ⟨hr, hkey⟩ := mem_without.1 hr
  exact free ⟨r, hr, MappingRow.obstructs_iff.2 ⟨List.mem_singleton.1 hm, hkey⟩⟩

/-! ## Other places -/

/-- What is filed at another place is not in the way. -/
theorem obstructed_refiled (apart : m.key.place ≠ n.key.place) :
    (x.refiled m).Obstructed n ↔ x.Obstructed n := by
  constructor
  · rintro ⟨r, hr, hobstructs⟩
    rcases List.mem_append.1 hr with hr | hr
    · exact ⟨r, (mem_without.1 hr).1, hobstructs⟩
    · obtain rfl := List.mem_singleton.1 hr
      exact absurd (MappingRow.obstructs_iff.1 hobstructs).1 apart
  · rintro ⟨r, hr, hobstructs⟩
    have hplace := (MappingRow.obstructs_iff.1 hobstructs).1
    have hkey : r.hasKey m.key = false := Bool.eq_false_iff.2 fun hkey =>
      apart ((MappingRow.hasKey_iff.1 hkey).1.symm.trans hplace)
    exact ⟨r, List.mem_append_left _ (mem_without.2 ⟨hr, hkey⟩), hobstructs⟩

/-- Two mappings at different places are filed in either order, up to the order of the rows. -/
theorem refiled_comm (apart : m.key.place ≠ n.key.place) :
    ((x.refiled m).refiled n).rows.Perm ((x.refiled n).refiled m).rows := by
  have rows : ∀ {m n : Mapping}, m.key.place ≠ n.key.place → ((x.refiled m).refiled n).rows =
      ((x.without m.key).without n.key).rows ++ [.ofMapping m, .ofMapping n] := by
    intro m n apart
    have stays : [MappingRow.ofMapping m].filter (!·.hasKey n.key) = [.ofMapping m] :=
      List.filter_eq_self.2 fun r hr => by
        rw [List.mem_singleton.1 hr, Bool.not_eq_true']
        exact Bool.eq_false_iff.2 fun hkey => apart (MappingRow.hasKey_iff.1 hkey).1
    rw [refiled, without, refiled, List.filter_append, stays, List.append_assoc]
    rfl
  have without_comm : (x.without m.key).without n.key = (x.without n.key).without m.key := by
    simp only [without, List.filter_filter, Bool.and_comm]
  rw [rows apart, rows apart.symm, without_comm]
  exact (List.Perm.swap _ _ []).append_left _

end MappingIndex

namespace World

variable {checker : Checker} {w : World} {m n : Mapping}

/-- What comes of filing a mapping in a world. -/
def file (checker : Checker) (m : Mapping) (w : World) : Except OpError Unit × World :=
  (Program.upsert m).run (World.answer checker) w

/-- Whether a mapping was filed: one row has its key and says what it says, all other rows are as
they were, and so is everything but the rows. -/
structure Files (w : World) (m : Mapping) (w' : World) : Prop where
  own : w'.mappings.rows.filter (·.hasKey m.key) = [.ofMapping m]
  others : w'.mappings.rows.filter (!·.hasKey m.key) = w.mappings.rows.filter (!·.hasKey m.key)
  found : w'.mappings.find m.key = .ok (some m)
  rest : w' = { w with mappings := w'.mappings }

theorem file_of_obstructed (h : w.mappings.Obstructed m) :
    w.file checker m = (.error (.database "query" "rows clash"), w) := by
  simp only [file, Program.upsert, Program.run_call, Program.run_done, answer,
    MappingIndex.upsert_of_obstructed h]

theorem file_of_free (h : ¬ w.mappings.Obstructed m) :
    w.file checker m = (.ok (), { w with mappings := w.mappings.refiled m }) := by
  simp only [file, Program.upsert, Program.run_call, Program.run_done, answer,
    MappingIndex.upsert_of_free h]

/-- A mapping is filed just if no row obstructs it; otherwise nothing changes. -/
theorem file_cases (checker : Checker) (w : World) (m : Mapping) :
    (w.file checker m).1 = .ok () ∧ w.Files m (w.file checker m).2 ∧ ¬ w.mappings.Obstructed m ∨
    (∃ details, (w.file checker m).1 = .error (.database "query" details)) ∧
      (w.file checker m).2 = w ∧ w.mappings.Obstructed m := by
  by_cases h : w.mappings.Obstructed m
  · rw [file_of_obstructed h]
    exact .inr ⟨⟨_, rfl⟩, rfl, h⟩
  · rw [file_of_free h]
    refine .inl ⟨rfl, ⟨MappingIndex.own_refiled, ?_, MappingIndex.find_refiled, rfl⟩, h⟩
    exact congrArg MappingIndex.rows MappingIndex.without_refiled

theorem unique_file (unique : w.mappings.Unique) : (w.file checker m).2.mappings.Unique := by
  by_cases h : w.mappings.Obstructed m
  · rw [file_of_obstructed h]
    exact unique
  · rw [file_of_free h]
    exact MappingIndex.unique_refiled unique h

/-- To file a mapping again changes nothing and comes out the same. -/
theorem file_file : (w.file checker m).2.file checker m = w.file checker m := by
  by_cases h : w.mappings.Obstructed m
  · rw [file_of_obstructed h, file_of_obstructed h]
  · have again : ¬ (w.mappings.refiled m).Obstructed m :=
      fun hm => h (MappingIndex.obstructed_refiled_self.1 hm)
    rw [file_of_free h, file_of_free again]
    simp only [MappingIndex.refiled_refiled]

/-- Whether a mapping is filed does not depend on one with another place. -/
theorem file_apart (apart : m.key.place ≠ n.key.place) :
    ((w.file checker m).2.file checker n).1 = (w.file checker n).1 := by
  by_cases hm : w.mappings.Obstructed m
  · rw [file_of_obstructed hm]
  rw [file_of_free hm]
  by_cases hn : w.mappings.Obstructed n
  · have hn' : (w.mappings.refiled m).Obstructed n := (MappingIndex.obstructed_refiled apart).2 hn
    rw [file_of_obstructed hn, file_of_obstructed hn']
  · have hn' : ¬ (w.mappings.refiled m).Obstructed n :=
      fun h => hn ((MappingIndex.obstructed_refiled apart).1 h)
    rw [file_of_free hn, file_of_free hn']

theorem file_comm (apart : m.key.place ≠ n.key.place) :
    ((w.file checker m).2.file checker n).2.mappings.rows.Perm
      ((w.file checker n).2.file checker m).2.mappings.rows := by
  by_cases hm : w.mappings.Obstructed m <;> by_cases hn : w.mappings.Obstructed n
  · rw [file_of_obstructed hm, file_of_obstructed hn, file_of_obstructed hm]
  · have hm' : (w.mappings.refiled n).Obstructed m :=
      (MappingIndex.obstructed_refiled apart.symm).2 hm
    rw [file_of_obstructed hm, file_of_free hn, file_of_obstructed hm']
  · have hn' : (w.mappings.refiled m).Obstructed n := (MappingIndex.obstructed_refiled apart).2 hn
    rw [file_of_obstructed hn, file_of_free hm, file_of_obstructed hn']
  · have hm' : ¬ (w.mappings.refiled n).Obstructed m :=
      fun h => hm ((MappingIndex.obstructed_refiled apart.symm).1 h)
    have hn' : ¬ (w.mappings.refiled m).Obstructed n :=
      fun h => hn ((MappingIndex.obstructed_refiled apart).1 h)
    rw [file_of_free hm, file_of_free hn, file_of_free (m := n) hn', file_of_free hm']
    exact MappingIndex.refiled_comm apart

/-- A mapping is filed as a whole or not at all. Either it stands in the one row of its key and all
other rows are as they were, or the index fails and nothing has changed; that is so just if a row
has the same key but no environment where the mapping has the empty one, or the other way round. To
file it twice is to file it once. Mappings whose keys differ in more than that do not meet: both
come out the same in either order, and so do the rows, but for their order. -/
theorem file_atomic (checker : Checker) (w : World) (unique : w.mappings.Unique) (m : Mapping) :
    ((w.file checker m).1 = .ok () ∧ w.Files m (w.file checker m).2 ∧ ¬ w.mappings.Obstructed m ∨
      (∃ details, (w.file checker m).1 = .error (.database "query" details)) ∧
        (w.file checker m).2 = w ∧ w.mappings.Obstructed m) ∧
    (w.file checker m).2.mappings.Unique ∧
    (w.file checker m).2.file checker m = w.file checker m ∧
    ∀ n : Mapping, m.key.place ≠ n.key.place →
      ((w.file checker m).2.file checker n).1 = (w.file checker n).1 ∧
      ((w.file checker n).2.file checker m).1 = (w.file checker m).1 ∧
      ((w.file checker m).2.file checker n).2.mappings.rows.Perm
        ((w.file checker n).2.file checker m).2.mappings.rows :=
  ⟨file_cases checker w m, unique_file unique, file_file,
    fun _ apart => ⟨file_apart apart, file_apart apart.symm, file_comm apart⟩⟩

/-! ### A run -/

/-- An app of a project that lives in no environment, or in the one without a name. -/
def strayApp (environment : Option String) (cluster : String) : Mapping :=
  ⟨.environment, .app, "web", "acme-shop", "acme", cluster, "shop", environment⟩

/-- An index in which the app is filed without an environment. -/
def strayWorld : World := { World.empty default with
  mappings := ⟨[.ofMapping (strayApp none "eu-1")]⟩ }

/-- The app is in its own way where its environment has the empty name; it can be moved to another
cluster, and another app is filed all the same. -/
theorem file_atomic_obstructed :
    strayWorld.mappings.Unique ∧
    (∃ details, (strayWorld.file .allowAll (strayApp (some "") "us-2")).1 =
      .error (.database "query" details)) ∧
    (strayWorld.file .allowAll (strayApp (some "") "us-2")).2 = strayWorld ∧
    strayWorld.Files (strayApp none "us-2") (strayWorld.file .allowAll (strayApp none "us-2")).2 ∧
    ((strayWorld.file .allowAll (strayApp (some "") "us-2")).2.file .allowAll
      (strayApp (some "dev") "us-2")).1 =
        (strayWorld.file .allowAll (strayApp (some "dev") "us-2")).1 := by
  have unique : strayWorld.mappings.Unique := List.nodup_singleton _
  have obstructed : strayWorld.mappings.Obstructed (strayApp (some "") "us-2") :=
    ⟨_, List.mem_singleton_self _, rfl, .inl ⟨rfl, rfl⟩⟩
  have free : ¬ strayWorld.mappings.Obstructed (strayApp none "us-2") := by
    rintro ⟨r, hr, -, hdiffers⟩
    obtain rfl := List.mem_singleton.1 hr
    rcases hdiffers with ⟨-, h⟩ | ⟨h, -⟩ <;> cases h
  obtain ⟨refused, -, -, apart⟩ :=
    file_atomic .allowAll strayWorld unique (strayApp (some "") "us-2")
  obtain ⟨filed, -⟩ := file_atomic .allowAll strayWorld unique (strayApp none "us-2")
  obtain ⟨failed, same, -⟩ := refused.resolve_left fun h => h.2.2 obstructed
  obtain ⟨-, files, -⟩ := filed.resolve_right fun h => free h.2.2
  exact ⟨unique, failed, same, files, (apart (strayApp (some "dev") "us-2") (by decide)).1⟩

end World

end FleetSync
