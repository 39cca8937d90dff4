import FleetSync.Proofs.Store.StoredResource

/-!
# Desired states

What a resource is to be is stored and sent as one value, the canonical one of its spec
(`Spec.value`). A stored document tells which value that is (`StoredDocument.Asks`), since no two
values have the same body (`Body.ofJson_inj`). Clearing the cluster that a spec is bound to clears
one field of the value (`Spec.value_clearBinding`), and the value of a project's spec reads back as
it was (`Spec.value_of_rereads`).
-/

namespace FleetSync

namespace Body

mutual

/-- A value is told from its body. -/
theorem ofJson_inj : ∀ {j j' : Json}, ofJson j = ofJson j' → j = j'
  | .null, j', h | .bool _, j', h | .num _, j', h | .str _, j', h => by
    cases j' <;> simp_all [ofJson]
  | .arr items, j', h => by
    cases j' <;> simp only [ofJson, reduceCtorEq, Body.arr.injEq] at h
    rw [ofItems_inj h]
  | .obj fields, j', h => by
    cases j' <;> simp only [ofJson, reduceCtorEq, Body.obj.injEq] at h
    rw [ofFields_inj h]

theorem ofItems_inj : ∀ {items items' : List Json}, ofItems items = ofItems items' → items = items'
  | [], [], _ => rfl
  | [], _ :: _, h | _ :: _, [], h => nomatch h
  | j :: rest, j' :: rest', h => by
    obtain ⟨hj, hrest⟩ := List.cons.inj h
    rw [ofJson_inj hj, ofItems_inj hrest]

theorem ofFields_inj : ∀ {fields fields' : List (String × Json)},
    ofFields fields = ofFields fields' → fields = fields'
  | [], [], _ => rfl
  | [], _ :: _, h | _ :: _, [], h => nomatch h
  | (k, j) :: rest, (k', j') :: rest', h => by
    obtain ⟨hhead, hrest⟩ := List.cons.inj h
    obtain ⟨hk, hj⟩ := Prod.mk.inj hhead
    rw [Label.ofName_inj hk, ofJson_inj hj, ofFields_inj hrest]

end

end Body

namespace Body

mutual

/-- Decides whether two bodies are equal. -/
protected def decEq : (a b : Body) → Decidable (a = b)
  | .null, .null => isTrue rfl
  | .null, .bool _ | .null, .num _ | .null, .str _ | .null, .arr _ | .null, .obj _ => isFalse nofun
  | .bool a, .bool b => decidable_of_iff (a = b) (by simp)
  | .bool _, .null | .bool _, .num _ | .bool _, .str _ | .bool _, .arr _ | .bool _, .obj _ =>
    isFalse nofun
  | .num a, .num b => decidable_of_iff (a = b) (by simp)
  | .num _, .null | .num _, .bool _ | .num _, .str _ | .num _, .arr _ | .num _, .obj _ =>
    isFalse nofun
  | .str a, .str b => decidable_of_iff (a = b) (by simp)
  | .str _, .null | .str _, .bool _ | .str _, .num _ | .str _, .arr _ | .str _, .obj _ =>
    isFalse nofun
  | .arr a, .arr b => match Body.decEqItems a b with
    | isTrue h => isTrue (by rw [h])
    | isFalse h => isFalse (by simpa using h)
  | .arr _, .null | .arr _, .bool _ | .arr _, .num _ | .arr _, .str _ | .arr _, .obj _ =>
    isFalse nofun
  | .obj a, .obj b => match Body.decEqFields a b with
    | isTrue h => isTrue (by rw [h])
    | isFalse h => isFalse (by simpa using h)
  | .obj _, .null | .obj _, .bool _ | .obj _, .num _ | .obj _, .str _ | .obj _, .arr _ =>
    isFalse nofun

/-- Decides whether two lists of bodies are equal. -/
protected def decEqItems : (a b : List Body) → Decidable (a = b)
  | [], [] => isTrue rfl
  | [], _ :: _ | _ :: _, [] => isFalse nofun
  | a :: as, b :: bs => match Body.decEq a b, Body.decEqItems as bs with
    | isTrue h, isTrue hs => isTrue (by rw [h, hs])
    | isFalse h, _ => isFalse (by simp [h])
    | _, isFalse h => isFalse (by simp [h])

/-- Decides whether two lists of fields are equal. -/
protected def decEqFields : (a b : List (Label × Body)) → Decidable (a = b)
  | [], [] => isTrue rfl
  | [], _ :: _ | _ :: _, [] => isFalse nofun
  | (k, a) :: as, (l, b) :: bs => match decEq k l, Body.decEq a b, Body.decEqFields as bs with
    | isTrue hk, isTrue h, isTrue hs => isTrue (by rw [hk, h, hs])
    | isFalse h, _, _ => isFalse (by simp [h])
    | _, isFalse h, _ => isFalse (by simp [h])
    | _, _, isFalse h => isFalse (by simp [h])

end

instance : DecidableEq Body := Body.decEq

end Body

/-- The value with nothing for its cluster, if it has a field for that. -/
def Json.unbound : Json → Json
  | .obj fields => .obj (fields.map fun f => if f.1 = "cluster_name" then (f.1, .null) else f)
  | j => j

@[simp] theorem Json.unbound_unbound (j : Json) : j.unbound.unbound = j.unbound := by
  cases j with
  | obj fields =>
    rw [unbound, unbound, List.map_map]
    refine congrArg Json.obj (List.map_congr_left fun f _ => ?_)
    simp only [Function.comp_apply]
    split <;> simp_all
  | _ => rfl

/-- A record without that field stays as it is. -/
theorem Json.unbound_record {names : List String} (h : "cluster_name" ∉ names)
    (f : String → Json) : (record names f).unbound = record names f := by
  rw [record, unbound, List.map_map]
  refine congrArg Json.obj (List.map_congr_left fun n hn => ?_)
  rw [Function.comp_apply, if_neg]
  rintro rfl
  exact h hn

namespace Spec

/-- The value that a spec is stored and sent as. -/
def value (s : Spec) : Json := s.encode.canonical

/-- The value of a spec of another kind than a project's has no field for a cluster. -/
theorem unbound_value_of_kind_ne {s : Spec} (h : s.kind ≠ .project) :
    s.value.unbound = s.value := by
  have free : ∀ fields : List (String × Json), s.encode = .obj fields → (fields.map (·.1)).Nodup →
      "cluster_name" ∉ fields.map (·.1) → s.value.unbound = s.value := by
    intro fields hs hd hn
    rw [value, hs, Json.obj_eq_record hd, Json.canonical_record,
      Json.unbound_record (mt Json.mem_of_mem_sortNames hn)]
  cases s with
  | project s => exact absurd rfl h
  | _ => exact free _ rfl (by simp) (by simp)

/-- Clearing the cluster of a spec clears it in the value. -/
theorem value_clearBinding (s : Spec) : s.clearBinding.value = s.value.unbound := by
  cases s with
  | project s =>
    rw [value, value, clearBinding, encode, encode, ProjectSpec.canonical_encode,
      ProjectSpec.canonical_encode]
    rfl
  | _ => exact (unbound_value_of_kind_ne fun h => by cases h).symm

end Spec

/-- The spec of a project reads back as it was. -/
theorem ProjectSpec.eq_of_rereads {s read : ProjectSpec} {l : Nat}
    (h : ProjectSpec.decode.Rereads (l + 1) s.encode.canonical read) : read = s := by
  rw [canonical_encode] at h
  obtain ⟨rec, hmake, hfield⟩ := h.field fieldNames_stored (by decide)
  simp only [Checked.seq_eq_ok, Checked.map_eq_ok] at hmake
  obtain ⟨_, display, ⟨_, target, ⟨cluster, hcluster, rfl⟩, htarget, rfl⟩, hdisplay, rfl⟩ := hmake
  have hcluster := hfield "cluster_name" (by decide) hcluster
  have htarget := hfield "target_namespace" (by decide) htarget
  have hdisplay := hfield "display_name" (by decide) hdisplay
  have field : ∀ {n : String} {o a : Option String}, s.field n = .ofOption .str o →
      Decoder.Rereads (.nullable .text) l (s.field n).canonical a → a = o := by
    intro n o a hn ha
    rw [hn, Resource.canonical_ofText] at ha
    exact ha.nullableText
  rw [field rfl hcluster, field rfl htarget, field rfl hdisplay]

namespace Resource

variable {r read : Resource} {kind : Kind} {j : Json}

/-- What is read of the spec of a stored resource. -/
theorem spec_rereads (hj : r.stored.read = .ok j) (hd : ofDocument kind j = .ok read) :
    ∃ l, (Spec.decode kind).Rereads (l + 1) r.spec.value read.spec := by
  obtain ⟨rec, hmake, hfield⟩ := (rereads_of_read hj hd).field fieldNames_stored (by decide)
  clear hj hd
  simp only [Checked.seq_eq_ok, Checked.map_eq_ok] at hmake
  obtain ⟨_, _, ⟨_, _, ⟨_, _, ⟨_, _, hmake, -, rfl⟩, -, rfl⟩, -, rfl⟩, -, rfl⟩ := hmake
  obtain ⟨_, _, ⟨_, _, ⟨_, _, ⟨_, _, hmake, -, rfl⟩, -, rfl⟩, -, rfl⟩, -, rfl⟩ := hmake
  obtain ⟨_, _, ⟨_, _, ⟨_, _, ⟨_, _, hmake, -, rfl⟩, hspec, rfl⟩, -, rfl⟩, -, rfl⟩ := hmake
  obtain ⟨_, _, ⟨_, _, ⟨_, _, ⟨_, _, hmake, -, rfl⟩, -, rfl⟩, -, rfl⟩, -, rfl⟩ := hmake
  obtain ⟨_, _, ⟨_, _, ⟨_, _, ⟨_, _, rfl⟩, -, rfl⟩, -, rfl⟩, -, rfl⟩ := hmake
  exact ⟨_, hfield "spec" (by decide) hspec⟩

/-- The spec of a project reads back as it was. -/
theorem spec_of_read (hkind : r.kind = .project) (hj : r.stored.read = .ok j)
    (hd : ofDocument .project j = .ok read) : read.spec = r.spec := by
  obtain ⟨l, v, hv, hd⟩ := spec_rereads hj hd
  obtain ⟨s, hs⟩ : ∃ s, r.spec = .project s := by
    cases hs : r.spec with
    | project s => exact ⟨s, rfl⟩
    | _ => rw [kind, hs] at hkind; cases hkind
  have hd : (ProjectSpec.decode (l + 1) v.toNode).map Spec.project = .ok read.spec := hd
  cases hx : ProjectSpec.decode (l + 1) v.toNode with
  | error e => rw [hx] at hd; cases hd
  | ok x =>
    rw [hx] at hd
    rw [hs] at hv ⊢
    rw [← Except.ok.inj hd, ProjectSpec.eq_of_rereads ⟨v, hv, hx⟩]

end Resource

/-- Whether a stored document asks for a spec of some value. -/
def StoredDocument.Asks (d : StoredDocument) (j : Json) : Prop :=
  d.field "spec" = .place (.ofJson j)

instance (d : StoredDocument) (j : Json) : Decidable (d.Asks j) :=
  inferInstanceAs (Decidable (d.field "spec" = .place (.ofJson j)))

theorem StoredDocument.Asks.unique {d : StoredDocument} {j j' : Json} (h : d.Asks j)
    (h' : d.Asks j') : j = j' :=
  Body.ofJson_inj (Reached.place.inj (h.symm.trans h'))

/-- A stored resource asks for the value of its spec. -/
theorem Resource.asks_stored (r : Resource) : r.stored.Asks r.spec.value :=
  r.field_stored (by decide)

end FleetSync
