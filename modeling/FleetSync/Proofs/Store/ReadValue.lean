import FleetSync.Proofs.Store.FieldName
import FleetSync.Proofs.Store.Rereading

/-!
# Values that were read

What is read from a text is settled (`Json.Settled`): the fields of its objects are sorted, and no
object in it holds a value as a text any more (`Json.Node.settled_of_valueWith`). So reading it once
more, as decoders do with any value they are given, gives the same value or fails
(`Json.Settled.eq_of_valueWith`), and it is its own canonical form (`Json.Settled.canonical`), as
every canonical form is (`Json.canonical_canonical`).
-/

namespace FleetSync

namespace Json

mutual

/-- Whether the fields of all objects in a value are sorted, and none of them holds a value as a
text. -/
def Settled : Json → Prop
  | .arr items => ItemsSettled items
  | .obj fields => Fields.Sorted fields ∧ fields.map (·.1) ≠ [embeddingKey] ∧ FieldsSettled fields
  | _ => True

/-- `Settled` on the items of an array. -/
def ItemsSettled : List Json → Prop
  | [] => True
  | j :: rest => j.Settled ∧ ItemsSettled rest

/-- `Settled` on the values of an object. -/
def FieldsSettled : List (String × Json) → Prop
  | [] => True
  | (_, j) :: rest => j.Settled ∧ FieldsSettled rest

end

theorem fieldsSettled_iff {fields : List (String × Json)} :
    FieldsSettled fields ↔ ∀ f ∈ fields, f.2.Settled := by
  induction fields with
  | nil => simp [FieldsSettled]
  | cons f rest ih => simp [FieldsSettled, ih]

variable {read : String → Option Json} {l : Nat}

/-! ## What is read is settled -/

namespace Node

/-- Fields that are read keep their keys. -/
theorem keys_of_fieldsWith {fields : List (Option String × Node)} {fs : List (String × Json)}
    (h : fieldsWith read l fields = some fs) : fields.map (·.1) = fs.map fun f => some f.1 := by
  induction fields generalizing fs with
  | nil =>
    obtain rfl := Option.some.inj h
    rfl
  | cons f rest ih =>
    obtain ⟨k, n⟩ := f
    simp only [fieldsWith, Option.bind_eq_bind, Option.bind_eq_some_iff, Option.pure_def,
      Option.some.injEq] at h
    obtain ⟨k, rfl, v, -, fs', hfs', rfl⟩ := h
    rw [List.map_cons, List.map_cons, ih hfs']

theorem keys_ne_of_embedded? {fields : List (Option String × Node)} {fs : List (String × Json)}
    (free : embedded? fields = none) (h : fieldsWith read l fields = some fs) :
    (Fields.ofList fs).map (·.1) ≠ [embeddingKey] := by
  intro hkeys
  have all : ∀ k ∈ fs.map (·.1), k = embeddingKey := fun k hk =>
    List.mem_singleton.1 (hkeys ▸ Fields.key_mem_ofList hk)
  have keys := keys_of_fieldsWith h
  cases fields with
  | nil =>
    obtain rfl := List.map_eq_nil_iff.1 keys.symm
    cases hkeys
  | cons f rest =>
    obtain ⟨k, n⟩ := f
    cases fs with
    | nil => cases keys
    | cons g fs =>
      obtain ⟨rfl, -⟩ := List.cons.inj keys
      have hg := all g.1 (List.mem_cons_self ..)
      simp only [embedded?, hg, if_true] at free
      split at free <;> cases free

mutual

/-- What is read of a node is settled, if what is read of texts is. -/
theorem settled_of_valueWith (texts : ∀ t v, read t = some v → v.Settled) :
    ∀ {n : Node} {l : Nat} {v : Json}, n.valueWith read l = some v → v.Settled
  | .null, _, _, h | .bool _, _, _, h => by
    obtain rfl := Option.some.inj h
    exact trivial
  | .num n, _, _, h => by
    obtain ⟨_, -, rfl⟩ := Option.map_eq_some_iff.1 h
    exact trivial
  | .str s, _, _, h => by
    obtain ⟨_, -, rfl⟩ := Option.map_eq_some_iff.1 h
    exact trivial
  | .arr _, 0, _, h | .obj _, 0, _, h => nomatch h
  | .arr items, l + 1, _, h => by
    obtain ⟨vs, hvs, rfl⟩ := Option.map_eq_some_iff.1 h
    exact settled_of_valuesWith texts hvs
  | .obj fields, l + 1, _, h => by
    rw [valueWith] at h
    split at h
    · obtain ⟨t, -, ht⟩ := Option.bind_eq_some_iff.1 h
      exact texts t _ ht
    · rename_i free
      obtain ⟨fs, hfs, rfl⟩ := Option.map_eq_some_iff.1 h
      refine ⟨Fields.sorted_ofList fs, keys_ne_of_embedded? free hfs, ?_⟩
      have settled := fieldsSettled_iff.1 (settled_of_fieldsWith texts hfs)
      exact fieldsSettled_iff.2 fun f hf => settled f (Fields.mem_ofList hf)

theorem settled_of_valuesWith (texts : ∀ t v, read t = some v → v.Settled) :
    ∀ {items : List Node} {l : Nat} {vs : List Json}, valuesWith read l items = some vs →
      ItemsSettled vs
  | [], _, _, h => by
    obtain rfl := Option.some.inj h
    exact trivial
  | n :: rest, l, _, h => by
    simp only [valuesWith, Option.bind_eq_bind, Option.bind_eq_some_iff, Option.pure_def,
      Option.some.injEq] at h
    obtain ⟨v, hv, vs, hvs, rfl⟩ := h
    exact ⟨settled_of_valueWith texts hv, settled_of_valuesWith texts hvs⟩

theorem settled_of_fieldsWith (texts : ∀ t v, read t = some v → v.Settled) :
    ∀ {fields : List (Option String × Node)} {l : Nat} {fs : List (String × Json)},
      fieldsWith read l fields = some fs → FieldsSettled fs
  | [], _, _, h => by
    obtain rfl := Option.some.inj h
    exact trivial
  | (k, n) :: rest, l, _, h => by
    simp only [fieldsWith, Option.bind_eq_bind, Option.bind_eq_some_iff, Option.pure_def,
      Option.some.injEq] at h
    obtain ⟨k, -, v, hv, fs, hfs, rfl⟩ := h
    exact ⟨settled_of_valueWith texts hv, settled_of_fieldsWith texts hfs⟩

end

end Node

/-- What is read of a text is settled. -/
theorem settled_of_ofText? {text : String} {v : Json} (h : ofText? text = some v) :
    v.Settled := by
  have within : ∀ n text v, ofTextWithin? n text = some v → v.Settled := by
    intro n
    induction n with
    | zero => exact fun _ _ h => nomatch h
    | succ n ih =>
      intro text v h
      obtain ⟨node, -, hv⟩ := Option.bind_eq_some_iff.1 h
      exact Node.settled_of_valueWith ih hv
  exact within _ text v h

theorem Node.settled_of_value? {n : Node} {v : Json} (h : n.value? l = some v) : v.Settled :=
  settled_of_valueWith (fun _ _ => settled_of_ofText?) h

/-! ## What is settled reads as itself -/

/-- A settled object does not hold a text: it would have that key alone, or it would not be read at
all. -/
theorem Settled.embedded?_eq_none {fields : List (String × Json)} {v : Json}
    (hs : (obj fields).Settled) (h : (obj fields).toNode.valueWith read (l + 1) = some v) :
    embedded? (fieldNodes fields) = none := by
  rw [toNode, Node.valueWith] at h
  split at h
  · rename_i text hembedded
    obtain ⟨t, rfl, -⟩ := Option.bind_eq_some_iff.1 h
    cases fields with
    | nil => cases hembedded
    | cons f rest =>
      obtain ⟨k, j⟩ := f
      by_cases hk : k = embeddingKey
      · cases rest with
        | nil => exact absurd (by rw [List.map_singleton, hk]) hs.2.1
        | cons g rest => simp [fieldNodes, embedded?, hk] at hembedded
      · simp [fieldNodes, embedded?, hk] at hembedded
  · assumption

mutual

/-- What a settled value reads as is that value. -/
theorem Settled.eq_of_valueWith : ∀ {j : Json} {l : Nat} {v : Json}, j.Settled →
    j.toNode.valueWith read l = some v → v = j
  | .null, _, _, _, h | .bool _, _, _, _, h | .num _, _, _, _, h | .str _, _, _, _, h =>
    (Option.some.inj h).symm
  | .arr _, 0, _, _, h | .obj _, 0, _, _, h => nomatch h
  | .arr items, l + 1, _, hs, h => by
    obtain ⟨vs, hvs, rfl⟩ := Option.map_eq_some_iff.1 h
    rw [ItemsSettled.eq_of_valuesWith hs hvs]
  | .obj fields, l + 1, _, hs, h => by
    rw [toNode, Node.valueWith, hs.embedded?_eq_none h] at h
    obtain ⟨fs, hfs, rfl⟩ := Option.map_eq_some_iff.1 h
    rw [FieldsSettled.eq_of_fieldsWith hs.2.2 hfs, Fields.ofList_of_sorted hs.1]

theorem ItemsSettled.eq_of_valuesWith : ∀ {items : List Json} {l : Nat} {vs : List Json},
    ItemsSettled items → Node.valuesWith read l (itemNodes items) = some vs → vs = items
  | [], _, _, _, h => (Option.some.inj h).symm
  | j :: rest, l, _, ⟨hj, hrest⟩, h => by
    simp only [itemNodes, Node.valuesWith, Option.bind_eq_bind, Option.bind_eq_some_iff,
      Option.pure_def, Option.some.injEq] at h
    obtain ⟨v, hv, vs, hvs, rfl⟩ := h
    rw [hj.eq_of_valueWith hv, ItemsSettled.eq_of_valuesWith hrest hvs]

theorem FieldsSettled.eq_of_fieldsWith : ∀ {fields : List (String × Json)} {l : Nat}
    {fs : List (String × Json)}, FieldsSettled fields →
    Node.fieldsWith read l (fieldNodes fields) = some fs → fs = fields
  | [], _, _, _, h => (Option.some.inj h).symm
  | (k, j) :: rest, l, _, ⟨hj, hrest⟩, h => by
    simp only [fieldNodes, Node.fieldsWith, Option.bind_eq_bind, Option.bind_some,
      Option.bind_eq_some_iff, Option.pure_def, Option.some.injEq] at h
    obtain ⟨v, hv, fs, hfs, rfl⟩ := h
    rw [hj.eq_of_valueWith hv, FieldsSettled.eq_of_fieldsWith hrest hfs]

end

mutual

/-- A settled value is its own canonical form. -/
theorem Settled.canonical : ∀ {j : Json}, j.Settled → j.canonical = j
  | .null, _ | .bool _, _ | .num _, _ | .str _, _ => rfl
  | .arr items, h => by rw [Json.canonical, ItemsSettled.canonicalItems h]
  | .obj fields, ⟨sorted, _, h⟩ => by
    rw [Json.canonical, FieldsSettled.canonicalFields h, Fields.ofList_of_sorted sorted]

theorem ItemsSettled.canonicalItems : ∀ {items : List Json}, ItemsSettled items →
    Json.canonicalItems items = items
  | [], _ => rfl
  | j :: rest, ⟨hj, hrest⟩ => by
    rw [Json.canonicalItems, hj.canonical, ItemsSettled.canonicalItems hrest]

theorem FieldsSettled.canonicalFields : ∀ {fields : List (String × Json)}, FieldsSettled fields →
    Json.canonicalFields fields = fields
  | [], _ => rfl
  | (k, j) :: rest, ⟨hj, hrest⟩ => by
    rw [Json.canonicalFields, hj.canonical, FieldsSettled.canonicalFields hrest]

end

/-! ## Canonical forms -/

mutual

@[simp] theorem canonical_canonical : ∀ j : Json, j.canonical.canonical = j.canonical
  | .null | .bool _ | .num _ | .str _ => rfl
  | .arr items => by rw [canonical, canonical, canonicalItems_canonicalItems items]
  | .obj fields => by
    have members := canonical_of_mem_canonicalFields fields
    have same : ∀ fs : List (String × Json), (∀ f ∈ fs, f.2.canonical = f.2) →
        canonicalFields fs = fs := by
      intro fs
      induction fs with
      | nil => exact fun _ => rfl
      | cons f rest ih =>
        intro h
        obtain ⟨hf, hrest⟩ := List.forall_mem_cons.1 h
        rw [canonicalFields, hf, ih hrest]
    rw [canonical, canonical, same _ fun f hf => members f (Fields.mem_ofList hf),
      Fields.ofList_of_sorted (Fields.sorted_ofList _)]

theorem canonicalItems_canonicalItems : ∀ items : List Json,
    canonicalItems (canonicalItems items) = canonicalItems items
  | [] => rfl
  | j :: rest => by
    rw [canonicalItems, canonicalItems, canonical_canonical j, canonicalItems_canonicalItems rest]

theorem canonical_of_mem_canonicalFields : ∀ (fields : List (String × Json)),
    ∀ f ∈ canonicalFields fields, f.2.canonical = f.2
  | [], _, h => nomatch h
  | (k, j) :: rest, f, h => by
    rw [canonicalFields, List.mem_cons] at h
    rcases h with rfl | h
    · exact canonical_canonical j
    · exact canonical_of_mem_canonicalFields rest f h

end

/-- The object of a map to texts is its own canonical form. -/
@[simp] theorem canonical_ofStrings (m : SortedMap String) :
    (ofStrings m).canonical = ofStrings m := by
  have texts : ∀ pairs : List (String × String),
      canonicalFields (pairs.map fun p => (p.1, .str p.2)) =
        pairs.map fun p => (p.1, .str p.2) := by
    intro pairs
    induction pairs with
    | nil => rfl
    | cons p rest ih =>
      rw [List.map_cons, canonicalFields, ih]
      rfl
  have sorted : Fields.Sorted (m.entries.map fun p => (p.1, Json.str p.2)) :=
    List.pairwise_map.2 m.sorted
  rw [ofStrings, canonical, texts, Fields.ofList_of_sorted sorted]

end Json

end FleetSync
