import FleetSync.Proofs.Interleaving.Edit
import FleetSync.Proofs.Store.Card
import FleetSync.Proofs.Store.Keeping

/-!
# What documents say

A field of a stored document says the value that it was written from. If that value has a binary64
number in it, or an object that holds a value as a text, it may read as another one, and then the
field says that one as well (`Body.Says`); a plain field says one value only
(`Body.says_iff_of_isPlain`).

A document shows a resource if it has its card and says what it asks for (`StoredDocument.Shows`).
It shows the resource that was stored (`Resource.shows_stored`) as well as the one that is read
(`Resource.shows_of_read`), and an edit of both keeps it so (`StoredDocument.Shows.apply`).
-/

namespace FleetSync

/-! ## Plain bodies -/

namespace Body

mutual

/-- Whether a body reads as the value that it is written from: it has no binary64 numbers, and its
objects hold no values as texts. -/
def isPlain : Body → Bool
  | .null | .bool _ | .str _ | .num (.int _) => true
  | .num (.float _) => false
  | .arr items => itemsPlain items
  | .obj fields => (Json.embedded? (fieldNodes fields)).isNone && fieldsPlain fields

/-- `isPlain` on the items of an array. -/
def itemsPlain : List Body → Bool
  | [] => true
  | b :: rest => b.isPlain && itemsPlain rest

/-- `isPlain` on the fields of an object. -/
def fieldsPlain : List (Label × Body) → Bool
  | [] => true
  | (_, b) :: rest => b.isPlain && fieldsPlain rest

end

variable {read : String → Option Json}

mutual

/-- A plain body reads as the value that it is of, or not at all. -/
theorem eq_of_isPlain : ∀ {j : Json} {l : Nat} {v : Json}, (ofJson j).isPlain = true →
    (ofJson j).toNode.valueWith read l = some v → v = j.canonical
  | .null, _, _, _, h | .bool _, _, _, _, h | .str _, _, _, _, h | .num (.int _), _, _, _, h =>
    (Option.some.inj h).symm
  | .num (.float _), _, _, hp, _ => nomatch hp
  | .arr _, 0, _, _, h | .obj _, 0, _, _, h => nomatch h
  | .arr items, l + 1, _, hp, h => by
    obtain ⟨vs, hvs, rfl⟩ := Option.map_eq_some_iff.1 h
    rw [eq_of_itemsPlain hp hvs, Json.canonical]
  | .obj fields, l + 1, _, hp, h => by
    obtain ⟨free, hp⟩ := Bool.and_eq_true_iff.1 hp
    rw [ofJson, toNode, Json.Node.valueWith, Option.isNone_iff_eq_none.1 free] at h
    obtain ⟨fs, hfs, rfl⟩ := Option.map_eq_some_iff.1 h
    rw [eq_of_fieldsPlain hp hfs, Json.canonical]

theorem eq_of_itemsPlain : ∀ {items : List Json} {l : Nat} {vs : List Json},
    itemsPlain (ofItems items) = true →
    Json.Node.valuesWith read l (itemNodes (ofItems items)) = some vs →
    vs = Json.canonicalItems items
  | [], _, _, _, h => (Option.some.inj h).symm
  | j :: rest, l, _, hp, h => by
    obtain ⟨hj, hrest⟩ := Bool.and_eq_true_iff.1 hp
    simp only [ofItems, itemNodes, Json.Node.valuesWith, Option.bind_eq_bind,
      Option.bind_eq_some_iff, Option.pure_def, Option.some.injEq] at h
    obtain ⟨v, hv, vs, hvs, rfl⟩ := h
    rw [eq_of_isPlain hj hv, eq_of_itemsPlain hrest hvs, Json.canonicalItems]

theorem eq_of_fieldsPlain : ∀ {fields : List (String × Json)} {l : Nat}
    {fs : List (String × Json)}, fieldsPlain (ofFields fields) = true →
    Json.Node.fieldsWith read l (fieldNodes (ofFields fields)) = some fs →
    fs = Json.canonicalFields fields
  | [], _, _, _, h => (Option.some.inj h).symm
  | (k, j) :: rest, l, _, hp, h => by
    obtain ⟨hj, hrest⟩ := Bool.and_eq_true_iff.1 hp
    simp only [ofFields, fieldNodes, Label.name?_ofName, Json.Node.fieldsWith, Option.bind_eq_bind,
      Option.bind_some, Option.bind_eq_some_iff, Option.pure_def, Option.some.injEq] at h
    obtain ⟨v, hv, fs, hfs, rfl⟩ := h
    rw [eq_of_isPlain hj hv, eq_of_fieldsPlain hrest hfs, Json.canonicalFields]

end

/-- Whether a body of a field says a value: it is written from it, or it is not plain and reads as
it. -/
def Says (b : Body) (v : Json) : Prop :=
  b = .ofJson v ∨ b.isPlain = false ∧ b.toNode.value? (Json.maxNesting - 1) = some v

/-- A plain body says one value only. -/
theorem says_iff_of_isPlain {b : Body} {v : Json} (h : b.isPlain = true) :
    b.Says v ↔ b = .ofJson v := by
  rw [Says, h]
  simp

/-- A body says what it reads as. -/
theorem says_of_value? {j v : Json}
    (h : (ofJson j.canonical).toNode.value? (Json.maxNesting - 1) = some v) :
    (ofJson j.canonical).Says v := by
  cases hp : (ofJson j.canonical).isPlain with
  | false => exact .inr ⟨hp, h⟩
  | true => exact .inl (by rw [eq_of_isPlain hp h, Json.canonical_canonical])

end Body

/-! ## Documents -/

namespace StoredDocument

/-- Whether a field of a stored document says a value. -/
def Says (d : StoredDocument) (name : String) (v : Json) : Prop :=
  ∃ b, d.field name = .place b ∧ b.Says v

/-- Whether a stored document is about a resource: it has its card, and says what it asks for. -/
structure Shows (d : StoredDocument) (r : Resource) : Prop where
  card : d.card = r.card
  labels : d.Says "labels" (.ofStrings r.labels)
  annotations : d.Says "annotations" (.ofStrings r.annotations)
  spec : d.Says "spec" r.spec.value

end StoredDocument

namespace Resource

theorem says_stored (r : Resource) {n : String} (hn : n ∈ storedNames) :
    r.stored.Says n (r.field n).canonical :=
  ⟨_, r.field_stored hn, .inl rfl⟩

/-- A stored resource is shown by its document. -/
theorem shows_stored (r : Resource) : r.stored.Shows r where
  card := r.card_stored
  labels := Json.canonical_ofStrings r.labels ▸ r.says_stored (n := "labels") (by decide)
  annotations :=
    Json.canonical_ofStrings r.annotations ▸ r.says_stored (n := "annotations") (by decide)
  spec := r.says_stored (n := "spec") (by decide)

/-- What is read of a stored resource is shown by its document. -/
theorem shows_of_read {r read : Resource} {kind : Kind} {j : Json} (hkind : r.kind = kind)
    (hj : r.stored.read = .ok j) (hd : ofDocument kind j = .ok read) : r.stored.Shows read := by
  have hcard := (resembles_of_read hkind hj hd).card
  obtain ⟨rec, hmake, hfield⟩ := (rereads_of_read hj hd).field fieldNames_stored (by decide)
  clear hj hd
  simp only [Checked.seq_eq_ok, Checked.map_eq_ok] at hmake
  obtain ⟨_, _, ⟨_, _, ⟨_, _, ⟨_, _, hmake, -, rfl⟩, -, rfl⟩, -, rfl⟩, -, rfl⟩ := hmake
  obtain ⟨_, _, ⟨_, _, ⟨_, _, ⟨_, _, hmake, -, rfl⟩, -, rfl⟩, -, rfl⟩, -, rfl⟩ := hmake
  obtain ⟨_, _, ⟨_, _, ⟨_, _, ⟨_, _, hmake, ha, rfl⟩, hspec, rfl⟩, -, rfl⟩, -, rfl⟩ := hmake
  obtain ⟨_, _, ⟨_, _, ⟨_, _, ⟨_, _, hmake, -, rfl⟩, -, rfl⟩, -, rfl⟩, hl, rfl⟩ := hmake
  obtain ⟨_, _, ⟨_, _, ⟨_, _, ⟨_, _, rfl⟩, -, rfl⟩, -, rfl⟩, -, rfl⟩ := hmake
  have hl := Decoder.Keeps.strings (s := r.labels) (hfield "labels" (by decide) hl)
  have ha := Decoder.Keeps.strings (s := r.annotations) (hfield "annotations" (by decide) ha)
  have hspec := Spec.decode_keeps (s := r.spec) (hkind ▸ hfield "spec" (by decide) hspec)
  refine ⟨r.card_stored.trans hcard.symm, ⟨_, r.field_stored (by decide), ?_⟩,
    ⟨_, r.field_stored (by decide), ?_⟩, ⟨_, r.field_stored (by decide), Body.says_of_value? hspec⟩⟩
  · exact Json.canonical_ofStrings _ ▸ Body.says_of_value? hl
  · exact Json.canonical_ofStrings _ ▸ Body.says_of_value? ha

end Resource

namespace StoredDocument.Shows

/-- An edit of a resource that is shown shows the edited one. -/
theorem apply {e : Edit} {r : Resource} (h : r.stored.Shows e.current)
    (hcard : (e.apply r).card = (e.apply e.current).card) :
    (e.apply r).stored.Shows (e.apply e.current) := by
  have said : ∀ {n : String}, n ∈ Resource.storedNames →
      r.stored.Says n (e.current.field n).canonical →
      (e.apply r).stored.Says n ((e.apply e.current).field n).canonical := by
    intro n hn hs
    refine ⟨_, (e.apply r).field_stored hn, ?_⟩
    rw [e.field_apply r, e.field_apply e.current]
    split
    · exact .inl rfl
    · obtain ⟨b, hb, hs⟩ := hs
      rw [r.field_stored hn] at hb
      exact Reached.place.inj hb ▸ hs
  have texts : ∀ {n : String} {m m' : SortedMap String}, n ∈ Resource.storedNames →
      e.current.field n = .ofStrings m → (e.apply e.current).field n = .ofStrings m' →
      r.stored.Says n (.ofStrings m) → (e.apply r).stored.Says n (.ofStrings m') := by
    intro n m m' hn hm hm' hs
    have hs' := said hn (by rw [hm, Json.canonical_ofStrings]; exact hs)
    rwa [hm', Json.canonical_ofStrings] at hs'
  exact ⟨by rw [Resource.card_stored, hcard], texts (by decide) rfl rfl h.labels,
    texts (by decide) rfl rfl h.annotations, said (n := "spec") (by decide) h.spec⟩

end StoredDocument.Shows

end FleetSync
