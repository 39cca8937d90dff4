import FleetSync.Proofs.Store.ReadValue
import FleetSync.Proofs.Store.Timestamps

/-!
# Decoding what was encoded

A value that does not nest too deep is read, as its canonical form, if none of its objects starts
with the key of those that hold a value as a text (`Json.isFree`, `Json.value?_toNode`). A decoder
takes a value for another if it makes that of it, with the fields of all objects in the order they
were written in as well as sorted (`Decoder.Takes`). A record is taken if its fields are, one level
below (`Decoder.Takes.record`), so what encodes a typed value is taken for it as soon as it does not
nest too deep.
-/

namespace FleetSync

namespace Json

mutual

/-- Whether a value nests no more than so many levels. -/
def nests (levels : Nat) : Json → Bool
  | .null | .bool _ | .num _ | .str _ => true
  | .arr items => match levels with
    | 0 => false
    | l + 1 => itemsNest l items
  | .obj fields => match levels with
    | 0 => false
    | l + 1 => fieldsNest l fields

/-- `nests` on the items of an array. -/
def itemsNest (levels : Nat) : List Json → Bool
  | [] => true
  | j :: rest => j.nests levels && itemsNest levels rest

/-- `nests` on the values of an object. -/
def fieldsNest (levels : Nat) : List (String × Json) → Bool
  | [] => true
  | (_, j) :: rest => j.nests levels && fieldsNest levels rest

end

mutual

/-- Whether no object in a value starts with the key of one that holds a value as a text. -/
def isFree : Json → Bool
  | .null | .bool _ | .num _ | .str _ => true
  | .arr items => itemsFree items
  | .obj fields => (embedded? (fieldNodes fields)).isNone && fieldsFree fields

/-- `isFree` on the items of an array. -/
def itemsFree : List Json → Bool
  | [] => true
  | j :: rest => j.isFree && itemsFree rest

/-- `isFree` on the values of an object. -/
def fieldsFree : List (String × Json) → Bool
  | [] => true
  | (_, j) :: rest => j.isFree && fieldsFree rest

end

theorem itemsNest_iff {items : List Json} {l : Nat} :
    itemsNest l items = true ↔ ∀ j ∈ items, j.nests l = true := by
  induction items with
  | nil => exact ⟨fun _ _ h => (nomatch h), fun _ => rfl⟩
  | cons j rest ih => rw [itemsNest, Bool.and_eq_true, ih, List.forall_mem_cons]

theorem fieldsNest_iff {fields : List (String × Json)} {l : Nat} :
    fieldsNest l fields = true ↔ ∀ f ∈ fields, f.2.nests l = true := by
  induction fields with
  | nil => exact ⟨fun _ _ h => (nomatch h), fun _ => rfl⟩
  | cons f rest ih =>
    obtain ⟨k, j⟩ := f
    rw [fieldsNest, Bool.and_eq_true, ih, List.forall_mem_cons]

theorem fieldsFree_iff {fields : List (String × Json)} :
    fieldsFree fields = true ↔ ∀ f ∈ fields, f.2.isFree = true := by
  induction fields with
  | nil => exact ⟨fun _ _ h => (nomatch h), fun _ => rfl⟩
  | cons f rest ih =>
    obtain ⟨k, j⟩ := f
    rw [fieldsFree, Bool.and_eq_true, ih, List.forall_mem_cons]

/-- An array nests one level more than its items. -/
theorem nests_arr {items : List Json} {l : Nat} :
    (arr items).nests l = true ↔ ∃ k, l = k + 1 ∧ ∀ j ∈ items, j.nests k = true := by
  cases l with
  | zero => simp [nests]
  | succ l => simp [nests, itemsNest_iff]

/-- An object nests one level more than its values. -/
theorem nests_obj {fields : List (String × Json)} {l : Nat} :
    (obj fields).nests l = true ↔ ∃ k, l = k + 1 ∧ ∀ f ∈ fields, f.2.nests k = true := by
  cases l with
  | zero => simp [nests]
  | succ l => simp [nests, fieldsNest_iff]

mutual

/-- A free value that does not nest too deep is read as its canonical form. -/
theorem valueWith_toNode {read : String → Option Json} : ∀ {j : Json} {l : Nat},
    j.isFree = true → j.nests l = true → j.toNode.valueWith read l = some j.canonical
  | .null, _, _, _ | .bool _, _, _, _ | .num _, _, _, _ | .str _, _, _, _ => rfl
  | .arr _, 0, _, h | .obj _, 0, _, h => nomatch h
  | .arr items, l + 1, hf, hn => by
    rw [toNode, Node.valueWith, valuesWith_itemNodes hf hn, Option.map_some, canonical]
  | .obj fields, l + 1, hf, hn => by
    obtain ⟨free, hf⟩ := Bool.and_eq_true_iff.1 hf
    rw [toNode, Node.valueWith, Option.isNone_iff_eq_none.1 free]
    simp only [fieldsWith_fieldNodes hf hn, Option.map_some, canonical]

theorem valuesWith_itemNodes {read : String → Option Json} : ∀ {items : List Json} {l : Nat},
    itemsFree items = true → itemsNest l items = true →
    Node.valuesWith read l (itemNodes items) = some (canonicalItems items)
  | [], _, _, _ => rfl
  | j :: rest, l, hf, hn => by
    obtain ⟨hfj, hfrest⟩ := Bool.and_eq_true_iff.1 hf
    obtain ⟨hnj, hnrest⟩ := Bool.and_eq_true_iff.1 hn
    rw [itemNodes, Node.valuesWith, valueWith_toNode hfj hnj, valuesWith_itemNodes hfrest hnrest,
      canonicalItems]
    rfl

theorem fieldsWith_fieldNodes {read : String → Option Json} : ∀ {fields : List (String × Json)}
    {l : Nat}, fieldsFree fields = true → fieldsNest l fields = true →
    Node.fieldsWith read l (fieldNodes fields) = some (canonicalFields fields)
  | [], _, _, _ => rfl
  | (k, j) :: rest, l, hf, hn => by
    obtain ⟨hfj, hfrest⟩ := Bool.and_eq_true_iff.1 hf
    obtain ⟨hnj, hnrest⟩ := Bool.and_eq_true_iff.1 hn
    rw [fieldNodes, Node.fieldsWith, valueWith_toNode hfj hnj, fieldsWith_fieldNodes hfrest hnrest,
      canonicalFields]
    rfl

end

theorem value?_toNode {j : Json} {l : Nat} (hf : j.isFree = true) (hn : j.nests l = true) :
    j.toNode.value? l = some j.canonical :=
  valueWith_toNode hf hn

mutual

/-- A settled value of which everything can be read is free. -/
theorem Settled.isFree_of_valueWith {read : String → Option Json} : ∀ {j : Json} {l : Nat}
    {v : Json}, j.Settled → j.toNode.valueWith read l = some v → j.isFree = true
  | .null, _, _, _, _ | .bool _, _, _, _, _ | .num _, _, _, _, _ | .str _, _, _, _, _ => rfl
  | .arr _, 0, _, _, h | .obj _, 0, _, _, h => nomatch h
  | .arr items, l + 1, _, hs, h => by
    obtain ⟨vs, hvs, -⟩ := Option.map_eq_some_iff.1 h
    exact ItemsSettled.itemsFree_of_valuesWith hs hvs
  | .obj fields, l + 1, _, hs, h => by
    have free := hs.embedded?_eq_none h
    rw [toNode, Node.valueWith, free] at h
    obtain ⟨fs, hfs, -⟩ := Option.map_eq_some_iff.1 h
    rw [isFree, free, FieldsSettled.fieldsFree_of_fieldsWith hs.2.2 hfs]
    rfl

theorem ItemsSettled.itemsFree_of_valuesWith {read : String → Option Json} :
    ∀ {items : List Json} {l : Nat} {vs : List Json}, ItemsSettled items →
    Node.valuesWith read l (itemNodes items) = some vs → itemsFree items = true
  | [], _, _, _, _ => rfl
  | j :: rest, l, _, ⟨hj, hrest⟩, h => by
    simp only [itemNodes, Node.valuesWith, Option.bind_eq_bind, Option.bind_eq_some_iff] at h
    obtain ⟨v, hv, vs, hvs, -⟩ := h
    rw [itemsFree, hj.isFree_of_valueWith hv, ItemsSettled.itemsFree_of_valuesWith hrest hvs]
    rfl

theorem FieldsSettled.fieldsFree_of_fieldsWith {read : String → Option Json} :
    ∀ {fields : List (String × Json)} {l : Nat} {fs : List (String × Json)},
    FieldsSettled fields → Node.fieldsWith read l (fieldNodes fields) = some fs →
    fieldsFree fields = true
  | [], _, _, _, _ => rfl
  | (k, j) :: rest, l, _, ⟨hj, hrest⟩, h => by
    simp only [fieldNodes, Node.fieldsWith, Option.bind_eq_bind, Option.bind_some,
      Option.bind_eq_some_iff] at h
    obtain ⟨v, hv, fs, hfs, -⟩ := h
    rw [fieldsFree, hj.isFree_of_valueWith hv, FieldsSettled.fieldsFree_of_fieldsWith hrest hfs]
    rfl

end

/-- A value that does not nest too deep is read as it is exactly if it is free. -/
theorem value?_toNode_iff {j : Json} {l : Nat} (hsorted : j.canonical = j)
    (hn : j.nests l = true) : j.toNode.value? l = some j ↔ j.isFree = true := by
  refine ⟨fun h => ?_, fun hf => ?_⟩
  · exact (Node.settled_of_value? h).isFree_of_valueWith h
  · rw [value?_toNode hf hn, hsorted]

theorem itemNodes_eq_map (items : List Json) : itemNodes items = items.map toNode := by
  induction items with
  | nil => rfl
  | cons j rest ih => rw [itemNodes, ih, List.map_cons]

theorem canonicalItems_eq_map (items : List Json) : canonicalItems items = items.map canonical := by
  induction items with
  | nil => rfl
  | cons j rest ih => rw [canonicalItems, ih, List.map_cons]

mutual

/-- Sorting the fields of a value makes it nest no deeper. -/
theorem nests_canonical : ∀ {j : Json} {l : Nat}, j.nests l = true → j.canonical.nests l = true
  | .null, _, _ | .bool _, _, _ | .num _, _, _ | .str _, _, _ => rfl
  | .arr _, 0, h | .obj _, 0, h => nomatch h
  | .arr items, l + 1, h => by
    rw [canonical]
    exact itemsNest_canonical h
  | .obj fields, l + 1, h => by
    rw [canonical, nests]
    exact fieldsNest_iff.2 fun f hf =>
      fieldsNest_iff.1 (fieldsNest_canonical h) f (Fields.mem_ofList hf)

theorem itemsNest_canonical : ∀ {items : List Json} {l : Nat}, itemsNest l items = true →
    itemsNest l (canonicalItems items) = true
  | [], _, _ => rfl
  | j :: rest, l, h => by
    obtain ⟨hj, hrest⟩ := Bool.and_eq_true_iff.1 h
    rw [canonicalItems, itemsNest, nests_canonical hj, itemsNest_canonical hrest]
    rfl

theorem fieldsNest_canonical : ∀ {fields : List (String × Json)} {l : Nat},
    fieldsNest l fields = true → fieldsNest l (canonicalFields fields) = true
  | [], _, _ => rfl
  | (k, j) :: rest, l, h => by
    obtain ⟨hj, hrest⟩ := Bool.and_eq_true_iff.1 h
    rw [canonicalFields, fieldsNest, nests_canonical hj, fieldsNest_canonical hrest]
    rfl

end

theorem canonical_ne_null {j : Json} (h : j ≠ .null) : j.canonical ≠ .null := by
  cases j with
  | null => exact absurd rfl h
  | _ => simp [canonical]

theorem toNode_ne_null {j : Json} (h : j ≠ .null) : j.toNode ≠ .null := by
  cases j with
  | null => exact absurd rfl h
  | _ => simp [toNode]

end Json

theorem Json.field?_getD {fields : List (String × Json)} {n : String} {v : Json}
    (h : Fields.get? n fields = some v) : ((obj fields).field? n).getD .null = v := by
  rw [field?, h, Option.getD_some]

/-- A free object has free fields. -/
theorem Json.isFree_field {fields : List (String × Json)} (known : List String)
    (hknown : fields.map (·.1) = known) (nodup : known.Nodup) (n : String) {v : Json}
    (hv : Fields.get? n fields = some v) (h : (obj fields).canonical.isFree = true) :
    v.canonical.isFree = true := by
  subst hknown
  rw [Json.obj_eq_record nodup, canonical_record, record, isFree, Bool.and_eq_true] at h
  have hn : n ∈ sortNames (fields.map (·.1)) :=
    mem_sortNames (List.mem_map_of_mem (Fields.mem_of_get? hv))
  have hfree := fieldsFree_iff.1 h.2 _ (List.mem_map_of_mem hn)
  rwa [field?_getD hv] at hfree

/-- What is decoded of an object is decoded of its values, one level below. -/
theorem Decoder.exists_of_obj {α : Type} {known : List String} {make : Record → Checked α}
    {fields : List (String × Json)} {a : α} {l : Nat} (hknown : fields.map (·.1) = known)
    (nodup : known.Nodup) (h : record known make (l + 1) (Json.obj fields).toNode = .ok a) :
    ∃ r : Record, make r = .ok a ∧ ∀ (name : String) {v : Json} {β : Type} {d : Decoder β}
      {absent : Checked β} {b : β}, Fields.get? name fields = some v →
      r.field name d absent = .ok b → d l v.toNode = .ok b := by
  subst hknown
  obtain ⟨r, -, hmake, hfield⟩ := exists_of_record nodup (fun _ h => h) make
    (fun n => ((Json.obj fields).field? n).getD .null) l
  rw [Json.obj_eq_record nodup] at h
  refine ⟨r, (hmake a).1 h, fun name v β d absent b hv hb => ?_⟩
  have value := (hfield name (List.mem_map_of_mem (Fields.mem_of_get? hv))).1 hb
  rwa [Json.field?_getD hv] at value

theorem Decoder.nullable_eq_ok {α : Type} {d : Decoder α} {l : Nat} {n : Json.Node} {a : α}
    (hn : n ≠ .null) : nullable d l n = .ok (some a) ↔ d l n = .ok a := by
  rw [nullable.eq_2 d l n hn]
  cases d l n <;> simp [Except.map]

theorem Decoder.json_eq_ok {l : Nat} {n : Json.Node} {j : Json} :
    json l n = .ok j ↔ n.value? l = some j := by
  rw [json]
  cases n.value? l <;> simp

/-- Whether an integer is a signed one of 64 bits. -/
def Decoder.IsInt64 (i : Int) : Prop := -(Nat.pow 2 63 : Int) ≤ i ∧ i ≤ (Nat.pow 2 63 - 1 : Nat)

instance (i : Int) : Decidable (Decoder.IsInt64 i) :=
  inferInstanceAs (Decidable (-(Nat.pow 2 63 : Int) ≤ i ∧ i ≤ (Nat.pow 2 63 - 1 : Nat)))

/-- Whether a decoder that may go so many levels deep takes a value for another, with the fields of
its objects as they were written and sorted. -/
structure Decoder.Takes {α : Type} (d : Decoder α) (levels : Nat) (j : Json) (a : α) : Prop where
  written : d levels j.toNode = .ok a
  sorted : d levels j.canonical.toNode = .ok a

namespace Decoder.Takes

variable {α β : Type} {l : Nat}

theorem of_canonical {d : Decoder α} {j : Json} {a : α} (h : j.canonical = j)
    (hd : d l j.toNode = .ok a) : Takes d l j a :=
  ⟨hd, h.symm ▸ hd⟩

/-! ## Scalars -/

theorem text (s : String) : Takes .text l (.str s) s := of_canonical rfl rfl

theorem bool (b : Bool) : Takes .bool l (.bool b) b := of_canonical rfl rfl

theorem int64 {i : Int} (h : IsInt64 i) : Takes .int64 l (.ofInt i) i :=
  of_canonical rfl (if_pos h)

theorem uint16 (n : UInt16) : Takes .uint16 l (.ofNat n.toNat) n := by
  have range : (0 : Int) ≤ n.toNat ∧ (n.toNat : Int) ≤ (Nat.pow 2 16 - 1 : Nat) :=
    ⟨Int.natCast_nonneg _, Int.ofNat_le.2 (Nat.le_sub_one_of_lt n.toNat_lt)⟩
  have read : Decoder.int 0 (Nat.pow 2 16 - 1 : Nat) l (Json.ofNat n.toNat).toNode =
      .ok (n.toNat : Int) := if_pos range
  refine of_canonical rfl ?_
  rw [Decoder.uint16, read, Except.map, Int.toNat_natCast, UInt16.ofNat_toNat]

theorem uint32 (n : UInt32) : Takes .uint32 l (.ofNat n.toNat) n := by
  have range : (0 : Int) ≤ n.toNat ∧ (n.toNat : Int) ≤ (Nat.pow 2 32 - 1 : Nat) :=
    ⟨Int.natCast_nonneg _, Int.ofNat_le.2 (Nat.le_sub_one_of_lt n.toNat_lt)⟩
  have read : Decoder.int 0 (Nat.pow 2 32 - 1 : Nat) l (Json.ofNat n.toNat).toNode =
      .ok (n.toNat : Int) := if_pos range
  refine of_canonical rfl ?_
  rw [Decoder.uint32, read, Except.map, Int.toNat_natCast, UInt32.ofNat_toNat]

theorem instant (t : Instant) : Takes .instant l (.ofInstant t) t := by
  refine of_canonical rfl ?_
  rw [Json.ofInstant, Json.toNode, Decoder.instant, t.ofText?_text]
  rfl

theorem choice {variants : List (String × α)} {s : String} {a : α}
    (h : Fields.get? s variants = some a) : Takes (.choice variants) l (.str s) a := by
  refine of_canonical rfl ?_
  rw [Json.toNode, Decoder.choice, Decoder.variant, h]

/-! ## Compounds -/

theorem json {j : Json} (hsorted : j.canonical = j) (hf : j.isFree = true)
    (hn : j.canonical.nests l = true) : Takes .json l j j :=
  of_canonical hsorted (json_eq_ok.2 ((Json.value?_toNode_iff hsorted (hsorted ▸ hn)).2 hf))

theorem nullable {d : Decoder α} {encode : α → Json} {o : Option α}
    (hn : ∀ a ∈ o, encode a ≠ .null) (h : ∀ a ∈ o, Takes d l (encode a) a) :
    Takes (.nullable d) l (.ofOption encode o) o := by
  cases o with
  | none => exact of_canonical rfl rfl
  | some a =>
    obtain ⟨hwritten, hsorted⟩ := h a rfl
    have nonnull := hn a rfl
    exact ⟨(nullable_eq_ok (Json.toNode_ne_null nonnull)).2 hwritten,
      (nullable_eq_ok (Json.toNode_ne_null (Json.canonical_ne_null nonnull))).2 hsorted⟩

theorem nullableText (o : Option String) : Takes (.nullable .text) l (.ofOption .str o) o :=
  nullable (fun _ _ h => by cases h) fun s _ => text s

theorem nullableInstant (o : Option Instant) :
    Takes (.nullable .instant) l (.ofOption .ofInstant o) o :=
  nullable (fun _ _ h => by cases h) fun t _ => instant t

theorem list {d : Decoder α} {encode : α → Json} {as : List α}
    (h : ∀ a ∈ as, ∀ k, (encode a).canonical.nests k = true → Takes d k (encode a) a)
    (hn : (Json.arr (as.map encode)).canonical.nests l = true) :
    Takes (.list d) l (.arr (as.map encode)) as := by
  rw [Json.canonical, Json.canonicalItems_eq_map, List.map_map] at hn
  obtain ⟨k, rfl, items⟩ := Json.nests_arr.1 hn
  have taken : ∀ a ∈ as, Takes d k (encode a) a :=
    fun a ha => h a ha k (items _ (List.mem_map_of_mem ha))
  have all : ∀ node : α → Json.Node, (∀ a ∈ as, d k (node a) = .ok a) →
      (as.map node).mapM (d k) = .ok as := by
    clear h hn items taken
    intro node h
    induction as with
    | nil => rfl
    | cons a as ih =>
      obtain ⟨ha, has⟩ := List.forall_mem_cons.1 h
      rw [List.map_cons, List.mapM_cons, ha, ih has]
      rfl
  refine ⟨?_, ?_⟩
  · rw [Json.toNode, Decoder.list, Json.itemNodes_eq_map, List.map_map]
    exact all _ fun a ha => (taken a ha).written
  · rw [Json.canonical, Json.toNode, Decoder.list, Json.itemNodes_eq_map,
      Json.canonicalItems_eq_map, List.map_map, List.map_map]
    exact all _ fun a ha => (taken a ha).sorted

theorem strings {m : SortedMap String} (hn : (Json.ofStrings m).canonical.nests l = true) :
    Takes .strings l (.ofStrings m) m := by
  rw [Json.canonical_ofStrings] at hn
  obtain ⟨k, rfl, -⟩ := Json.nests_obj.1 hn
  have pairs : ∀ ps : List (String × String),
      (Json.fieldNodes (ps.map fun p => (p.1, .str p.2))).mapM (fun f => do
        return ((← f.1.elim (.error .malformed) .ok), ← Decoder.text k f.2)) =
      (.ok ps : Except DecodeError _) := by
    intro ps
    induction ps with
    | nil => rfl
    | cons p ps ih =>
      rw [List.map_cons, Json.fieldNodes, List.mapM_cons, ih]
      rfl
  refine of_canonical (Json.canonical_ofStrings m) ?_
  have read : Decoder.strings (k + 1) (Json.ofStrings m).toNode =
      (.ok (.ofList m.entries) : Except DecodeError _) := by
    rw [Json.ofStrings, Json.toNode, Decoder.strings]
    exact congrArg (Except.map SortedMap.ofList) (pairs m.entries)
  rw [read]
  obtain ⟨entries, sorted⟩ := m
  simp only [SortedMap.ofList, Fields.ofList_of_sorted sorted]

/-- A record is taken if its fields are. -/
theorem record {known : List String} {make : Record → Checked α} {fields : List (String × Json)}
    {a : α} (hknown : fields.map (·.1) = known) (nodup : known.Nodup)
    (hn : (Json.obj fields).canonical.nests l = true)
    (hmake : ∀ r : Record, (∀ (name : String) {v : Json} {β : Type} {d : Decoder β}
        {absent : Checked β} {b : β}, Fields.get? name fields = some v →
        (v.canonical.nests r.levels = true → Takes d r.levels v b) →
          r.field name d absent = .ok b) → make r = .ok a) :
    Takes (.record known make) l (.obj fields) a := by
  subst hknown
  let f := fun n => ((Json.obj fields).field? n).getD .null
  have hrecord : Json.obj fields = .record (fields.map (·.1)) f := Json.obj_eq_record nodup
  rw [hrecord, Json.canonical_record] at hn
  obtain ⟨k, rfl, values⟩ := Json.nests_obj.1 hn
  have hget : ∀ {n v}, Fields.get? n fields = some v →
      n ∈ fields.map (·.1) ∧ f n = v ∧ v.canonical.nests k = true := by
    intro n v h
    have hmem : n ∈ fields.map (·.1) := List.mem_map_of_mem (Fields.mem_of_get? h)
    have hf : f n = v := Json.field?_getD h
    exact ⟨hmem, hf, hf ▸ values _ (List.mem_map_of_mem (Json.mem_sortNames hmem))⟩
  -- The order of the fields does not matter, nor in which of the two ways they are taken.
  have taken : ∀ (names : List String) (g : Json → Json), names.Nodup →
      (∀ n ∈ fields.map (·.1), n ∈ names) →
      (∀ {β : Type} {d : Decoder β} {v : Json} {b : β}, Takes d k v b →
        d k (g v).toNode = .ok b) →
      Decoder.record (fields.map (·.1)) make (k + 1)
        (Json.record names fun n => g (f n)).toNode = .ok a := by
    intro names g hd hall hg
    obtain ⟨r, rfl, hr, hfield⟩ := exists_of_record hd hall make (fun n => g (f n)) k
    refine (hr a).2 (hmake r fun n v β d absent b hv htakes => ?_)
    obtain ⟨hmem, rfl, hnests⟩ := hget hv
    exact (hfield n hmem).2 (hg (htakes hnests))
  refine ⟨?_, ?_⟩
  · rw [hrecord]
    exact taken _ id nodup (fun _ h => h) fun h => h.written
  · rw [hrecord, Json.canonical_record]
    refine taken _ Json.canonical ?_ (fun n hn => Json.mem_sortNames hn) fun h => h.sorted
    have sorted : (Json.sortNames (fields.map (·.1))).Pairwise (· < ·) :=
      List.pairwise_map.2 (Fields.sorted_ofList _)
    exact sorted.imp fun {m n} hlt (e : m = n) => absurd hlt (e ▸ String.lt_irrefl _)

end Decoder.Takes

end FleetSync
