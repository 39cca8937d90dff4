import FleetSync.Proofs.Store.DesiredState
import FleetSync.Proofs.Store.ReadValue

/-!
# What decoding keeps

A resource that is read from the store and written again says what it said before. A decoder keeps
what an encoder wrote (`Decoder.Keeps`) if what it makes of a stored value is written as the value
that the stored one reads as. Texts, truth values, integers, maps of texts and free values are kept,
and so are lists and records of what is kept (`Decoder.Keeps.list`, `Decoder.Keeps.record`), and so
is a spec of any kind (`Spec.decode_keeps`).
-/

namespace FleetSync

/-- Whether what a decoder makes of a stored value is written as what that value reads as. -/
def Decoder.Keeps {α : Type} (d : Decoder α) (encode : α → Json) : Prop :=
  ∀ ⦃l : Nat⦄ ⦃s a : α⦄, d.Rereads l (encode s).canonical a →
    (Body.ofJson (encode s).canonical).toNode.value? l = some (encode a).canonical

/-- The value of a field of a record, by name. -/
def Json.ofField (fields : List (String × Json)) (name : String) : Json :=
  ((Json.obj fields).field? name).getD .null

theorem Json.canonical_obj {fields : List (String × Json)} {names : List String}
    (hnames : fields.map (·.1) = names) (hd : names.Nodup) :
    (Json.obj fields).canonical =
      .record (sortNames names) fun n => (ofField fields n).canonical := by
  subst hnames
  rw [Json.obj_eq_record hd, Json.canonical_record]
  rfl

namespace Decoder

variable {α : Type}

namespace Rereads

variable {l : Nat}

/-- What a record is made of comes from its fields. -/
theorem value_record {names stored : List String} (h : FieldNames stored)
    {f g : String → Json} {a : α} {make : Record → Checked α} (hk : ∀ n ∈ names, n ∈ stored)
    (hr : Rereads (.record names make) (l + 1) (.record stored f) a)
    (keeps : ∀ r : Record, make r = .ok a →
      (∀ n ∈ names, ∀ {β : Type} {d : Decoder β} {absent : Checked β} {b : β},
        r.field n d absent = .ok b → Rereads d l (f n) b) →
      ∀ n ∈ stored, (Body.ofJson (f n)).toNode.value? l = some (g n)) :
    (Body.ofJson (.record stored f)).toNode.value? (l + 1) = some (.record stored g) := by
  obtain ⟨r, hmake, hfield⟩ := hr.field h hk
  obtain ⟨v, hv, -⟩ := hr
  obtain ⟨g', rfl, hg'⟩ := h.valueWith_record hv
  have hg := keeps r hmake hfield
  refine hv.trans (congrArg some ?_)
  rw [Json.record, Json.record]
  refine congrArg Json.obj (List.map_congr_left fun n hn => ?_)
  rw [Option.some.inj ((hg' n hn).symm.trans (hg n hn))]

end Rereads

/-- A map of texts is written as it was read. -/
theorem ofStrings_of_strings {l : Nat} {v : Json} {m : SortedMap String} (settled : v.Settled)
    (hd : strings l v.toNode = .ok m) : Json.ofStrings m = v := by
  have texts : ∀ {l : Nat} {fields : List (String × Json)} {pairs : List (String × String)},
      ((Json.fieldNodes fields).mapM fun p => (do
        return ((← p.1.elim (.error .malformed) .ok), ← text l p.2) :
          Except DecodeError (String × String))) = .ok pairs →
      fields = pairs.map fun p => (p.1, .str p.2) := by
    intro l fields
    induction fields with
    | nil =>
      intro pairs h
      obtain rfl := Except.ok.inj h
      rfl
    | cons f rest ih =>
      intro pairs h
      obtain ⟨k, j⟩ := f
      rw [Json.fieldNodes, List.mapM_cons] at h
      cases j with
      | str s =>
        cases hrest : (Json.fieldNodes rest).mapM fun p => (do
            return ((← p.1.elim (.error .malformed) .ok), ← text l p.2) :
              Except DecodeError (String × String)) with
        | error e => rw [hrest] at h; cases h
        | ok pairs =>
          rw [hrest] at h
          obtain rfl := Except.ok.inj h
          rw [List.map_cons, ← ih hrest]
      | _ => cases h
  cases v with
  | obj fields =>
    cases l with
    | zero => cases hd
    | succ l =>
      rw [Json.toNode, strings] at hd
      cases hp : (Json.fieldNodes fields).mapM fun p => (do
          return ((← p.1.elim (.error .malformed) .ok), ← text l p.2) :
            Except DecodeError (String × String)) with
      | error e => rw [hp] at hd; cases hd
      | ok pairs =>
        rw [hp] at hd
        obtain rfl := Except.ok.inj hd
        have hfields := texts hp
        have sorted : Fields.Sorted pairs := by
          have h := settled.1
          rwa [hfields, Fields.Sorted, List.pairwise_map] at h
        have hentries : (SortedMap.ofList pairs).entries = pairs := Fields.ofList_of_sorted sorted
        rw [Json.ofStrings, hfields, hentries]
  | _ => cases l <;> cases hd

namespace Keeps

/-! ## Scalars -/

theorem text : Decoder.text.Keeps .str := by
  intro l s a h
  rw [h.text]
  rfl

theorem bool : Decoder.bool.Keeps .bool := by
  intro l s a h
  rw [h.bool]
  rfl

theorem nullableText : (Decoder.nullable .text).Keeps (.ofOption .str) := by
  intro l s a h
  rw [Resource.canonical_ofText] at h ⊢
  rw [h.nullableText, Resource.canonical_ofText]
  cases s <;> rfl

/-- An integer of a machine word is kept. -/
theorem word {d : Decoder α} {high : Int} {make : Nat → α} {toNat : α → Nat}
    (hd : ∀ l n, d l n = (int 0 high l n).map fun i => make i.toNat)
    (hmake : ∀ a, make (toNat a) = a) : d.Keeps fun a => .ofNat (toNat a) := by
  intro l s a h
  obtain ⟨v, hv, hdv⟩ := h
  obtain rfl := Option.some.inj hv
  have hi : (int 0 high l (.num (some (.int (toNat s))))).map (fun i => make i.toNat) = .ok a :=
    (hd _ _).symm.trans hdv
  rw [int] at hi
  split at hi
  · have ha : make (toNat s) = a := Except.ok.inj hi
    rw [← ha, hmake]
    rfl
  · cases hi

theorem uint16 : Decoder.uint16.Keeps fun p => .ofNat p.toNat :=
  word (fun _ _ => rfl) fun _ => UInt16.ofNat_toNat

theorem uint32 : Decoder.uint32.Keeps fun p => .ofNat p.toNat :=
  word (fun _ _ => rfl) fun _ => UInt32.ofNat_toNat

/-- A free value is kept as it reads. -/
theorem json : Decoder.json.Keeps fun j => j := by
  rintro l s a ⟨v, hv, hd⟩
  have settled := Json.Node.settled_of_value? hv
  rw [Decoder.json] at hd
  cases hw : v.toNode.value? l with
  | none => rw [hw] at hd; cases hd
  | some w =>
    rw [hw] at hd
    obtain rfl := Except.ok.inj hd
    obtain rfl := settled.eq_of_valueWith hw
    rw [settled.canonical]
    exact hv

/-! ## Maps, lists and records -/

theorem strings : Decoder.strings.Keeps .ofStrings := by
  rintro l s a ⟨v, hv, hd⟩
  have settled := Json.Node.settled_of_value? hv
  obtain rfl := ofStrings_of_strings settled hd
  rw [settled.canonical]
  exact hv

theorem list {d : Decoder α} {encode : α → Json} (h : d.Keeps encode) :
    (Decoder.list d).Keeps fun s => .arr (s.map encode) := by
  have items : ∀ {l : Nat} (s : List α) {vs : List Json} {a : List α},
      Json.Node.valuesWith Json.ofText? l
        (Body.itemNodes (Body.ofItems (Json.canonicalItems (s.map encode)))) = some vs →
      (Json.itemNodes vs).mapM (d l) = .ok a → vs = Json.canonicalItems (a.map encode) := by
    intro l s
    induction s with
    | nil =>
      intro vs a hvs ha
      obtain rfl := Option.some.inj hvs
      obtain rfl := Except.ok.inj ha
      rfl
    | cons x rest ih =>
      intro vs a hvs ha
      simp only [List.map_cons, Json.canonicalItems, Body.ofItems, Body.itemNodes,
        Json.Node.valuesWith, Option.bind_eq_bind, Option.bind_eq_some_iff, Option.pure_def,
        Option.some.injEq] at hvs
      obtain ⟨v, hv, vs', hvs', rfl⟩ := hvs
      rw [Json.itemNodes, List.mapM_cons] at ha
      cases hy : d l v.toNode with
      | error e => rw [hy] at ha; cases ha
      | ok y =>
        cases hrest : (Json.itemNodes vs').mapM (d l) with
        | error e => rw [hy, hrest] at ha; cases ha
        | ok ys =>
          rw [hy, hrest] at ha
          obtain rfl := Except.ok.inj ha
          have hv' := Option.some.inj (hv.symm.trans (h ⟨v, hv, hy⟩))
          rw [List.map_cons, Json.canonicalItems, hv', ih hvs' hrest]
  rintro l s a ⟨v, hv, hd⟩
  cases l with
  | zero => cases hv
  | succ l =>
    obtain ⟨vs, hvs, rfl⟩ := Option.map_eq_some_iff.1 hv
    rw [Json.toNode, Decoder.list] at hd
    obtain rfl := items s hvs hd
    exact hv

/-- A record keeps what its fields keep. -/
theorem record {names : List String} {make : Record → Checked α}
    {fields : α → List (String × Json)} (hd : names.Nodup) (h : FieldNames (Json.sortNames names))
    (hnames : ∀ a, (fields a).map (·.1) = names)
    (keeps : ∀ {l : Nat} {s a : α} {r : Record}, make r = .ok a →
      (∀ n ∈ names, ∀ {β : Type} {d : Decoder β} {absent : Checked β} {b : β},
        r.field n d absent = .ok b → d.Rereads l (Json.ofField (fields s) n).canonical b) →
      ∀ n ∈ names, (Body.ofJson (Json.ofField (fields s) n).canonical).toNode.value? l =
        some (Json.ofField (fields a) n).canonical) :
    (Decoder.record names make).Keeps fun a => .obj (fields a) := by
  intro l s a hr
  rw [Json.canonical_obj (hnames s) hd] at hr ⊢
  rw [Json.canonical_obj (hnames a) hd]
  cases l with
  | zero =>
    obtain ⟨v, hv, -⟩ := hr
    cases hv
  | succ l =>
    refine hr.value_record h (fun n => Json.mem_sortNames) fun r hmake hfield n hn => ?_
    exact keeps hmake hfield n (Json.mem_of_mem_sortNames hn)

/-- What a decoder makes may be wrapped. -/
theorem wrapped {wrap : α → Spec} {d : Decoder α} {encode : α → Json} {l : Nat} {s : α}
    {read : Spec} (h : d.Keeps encode) (hwrap : ∀ a, (wrap a).encode = encode a)
    (hr : (Spec.via wrap d).Rereads l (wrap s).value read) :
    (Body.ofJson (wrap s).value).toNode.value? l = some read.value := by
  obtain ⟨v, hv, hd⟩ := hr
  rw [Spec.value, hwrap] at hv ⊢
  rw [Spec.via] at hd
  cases hx : d l v.toNode with
  | error e => rw [hx] at hd; cases hd
  | ok x =>
    rw [hx] at hd
    obtain rfl := Except.ok.inj hd
    rw [Spec.value, hwrap]
    exact h ⟨v, hv, hx⟩

end Keeps

end Decoder

/-! ## Specs -/

section Specs

open Decoder.Keeps

theorem ProjectSpec.decode_keeps : ProjectSpec.decode.Keeps encode := by
  refine record (by decide) (.sortNames (by decide)) (fun _ => rfl) ?_
  intro l s a r hmake hfield
  simp only [Checked.seq_eq_ok, Checked.map_eq_ok] at hmake
  obtain ⟨_, _, ⟨_, _, ⟨_, hcluster, rfl⟩, htarget, rfl⟩, hdisplay, rfl⟩ := hmake
  simp only [List.forall_mem_cons]
  exact ⟨nullableText (hfield _ (by decide) hcluster), nullableText (hfield _ (by decide) htarget),
    nullableText (hfield _ (by decide) hdisplay), nofun⟩

theorem EnvironmentSpec.decode_keeps : EnvironmentSpec.decode.Keeps encode := by
  refine record (by decide) (.sortNames (by decide)) (fun _ => rfl) ?_
  intro l s a r hmake hfield
  simp only [Checked.seq_eq_ok, Checked.map_eq_ok] at hmake
  obtain ⟨_, _, ⟨_, htarget, rfl⟩, hrouting, rfl⟩ := hmake
  simp only [List.forall_mem_cons]
  exact ⟨nullableText (hfield _ (by decide) htarget), nullableText (hfield _ (by decide) hrouting),
    nofun⟩

theorem Container.decode_keeps : Container.decode.Keeps encode := by
  refine record (by decide) (.sortNames (by decide)) (fun _ => rfl) ?_
  intro l s a r hmake hfield
  simp only [Checked.seq_eq_ok, Checked.map_eq_ok] at hmake
  obtain ⟨_, _, ⟨_, _, ⟨_, _, ⟨_, hname, rfl⟩, himage, rfl⟩, henv, rfl⟩, hports, rfl⟩ := hmake
  simp only [List.forall_mem_cons]
  exact ⟨text (hfield _ (by decide) hname), text (hfield _ (by decide) himage),
    strings (hfield _ (by decide) henv), list uint16 (hfield _ (by decide) hports), nofun⟩

theorem AppSpec.decode_keeps : AppSpec.decode.Keeps encode := by
  refine record (by decide) (.sortNames (by decide)) (fun _ => rfl) ?_
  intro l s a r hmake hfield
  simp only [Checked.seq_eq_ok, Checked.map_eq_ok] at hmake
  obtain ⟨_, _, ⟨_, hreplicas, rfl⟩, hcontainers, rfl⟩ := hmake
  simp only [List.forall_mem_cons]
  exact ⟨uint32 (hfield _ (by decide) hreplicas),
    list Container.decode_keeps (hfield _ (by decide) hcontainers), nofun⟩

theorem ConfigSpec.decode_keeps : ConfigSpec.decode.Keeps encode := by
  refine record (by decide) (.sortNames (by decide)) (fun _ => rfl) ?_
  intro l s a r hmake hfield
  simp only [Checked.map_eq_ok] at hmake
  obtain ⟨_, hdata, rfl⟩ := hmake
  simp only [List.forall_mem_cons]
  exact ⟨strings (hfield _ (by decide) hdata), nofun⟩

theorem SecretSpec.decode_keeps : SecretSpec.decode.Keeps encode := by
  refine record (by decide) (.sortNames (by decide)) (fun _ => rfl) ?_
  intro l s a r hmake hfield
  simp only [Checked.seq_eq_ok, Checked.map_eq_ok] at hmake
  obtain ⟨_, _, ⟨_, hdata, rfl⟩, htype, rfl⟩ := hmake
  simp only [List.forall_mem_cons]
  exact ⟨strings (hfield _ (by decide) hdata), nullableText (hfield _ (by decide) htype), nofun⟩

theorem Route.decode_keeps : Route.decode.Keeps encode := by
  refine record (by decide) (.sortNames (by decide)) (fun _ => rfl) ?_
  intro l s a r hmake hfield
  simp only [Checked.seq_eq_ok, Checked.map_eq_ok] at hmake
  obtain ⟨_, _, ⟨_, _, ⟨_, hpath, rfl⟩, happ, rfl⟩, hport, rfl⟩ := hmake
  simp only [List.forall_mem_cons]
  exact ⟨text (hfield _ (by decide) hpath), text (hfield _ (by decide) happ),
    uint16 (hfield _ (by decide) hport), nofun⟩

theorem RouterSpec.decode_keeps : RouterSpec.decode.Keeps encode := by
  refine record (by decide) (.sortNames (by decide)) (fun _ => rfl) ?_
  intro l s a r hmake hfield
  simp only [Checked.seq_eq_ok, Checked.map_eq_ok] at hmake
  obtain ⟨_, _, ⟨_, _, ⟨_, hdomains, rfl⟩, hroutes, rfl⟩, hhttps, rfl⟩ := hmake
  simp only [List.forall_mem_cons]
  exact ⟨list text (hfield _ (by decide) hdomains),
    list Route.decode_keeps (hfield _ (by decide) hroutes), bool (hfield _ (by decide) hhttps),
    nofun⟩

theorem ManagedResourceSpec.decode_keeps : ManagedResourceSpec.decode.Keeps encode := by
  refine record (by decide) (.sortNames (by decide)) (fun _ => rfl) ?_
  intro l s a r hmake hfield
  simp only [Checked.seq_eq_ok, Checked.map_eq_ok] at hmake
  obtain ⟨_, _, ⟨_, hservice, rfl⟩, htemplate, rfl⟩ := hmake
  simp only [List.forall_mem_cons]
  exact ⟨text (hfield _ (by decide) hservice), json (hfield _ (by decide) htemplate), nofun⟩

theorem VpnPort.decode_keeps : VpnPort.decode.Keeps encode := by
  refine record (by decide) (.sortNames (by decide)) (fun _ => rfl) ?_
  intro l s a r hmake hfield
  simp only [Checked.seq_eq_ok, Checked.map_eq_ok] at hmake
  obtain ⟨_, _, ⟨_, hport, rfl⟩, hprotocol, rfl⟩ := hmake
  simp only [List.forall_mem_cons]
  exact ⟨uint16 (hfield _ (by decide) hport), text (hfield _ (by decide) hprotocol), nofun⟩

theorem VpnDeviceSpec.decode_keeps : VpnDeviceSpec.decode.Keeps encode := by
  refine record (by decide) (.sortNames (by decide)) (fun _ => rfl) ?_
  intro l s a r hmake hfield
  simp only [Checked.seq_eq_ok, Checked.map_eq_ok] at hmake
  obtain ⟨_, _, ⟨_, hnamespace, rfl⟩, hports, rfl⟩ := hmake
  simp only [List.forall_mem_cons]
  exact ⟨nullableText (hfield _ (by decide) hnamespace),
    list VpnPort.decode_keeps (hfield _ (by decide) hports), nofun⟩

/-- A spec of any kind is written as what the stored one reads as. -/
theorem Spec.decode_keeps {s read : Spec} {l : Nat}
    (h : (Spec.decode s.kind).Rereads l s.value read) :
    (Body.ofJson s.value).toNode.value? l = some read.value := by
  cases s with
  | project s => exact wrapped ProjectSpec.decode_keeps (fun _ => rfl) h
  | environment s => exact wrapped EnvironmentSpec.decode_keeps (fun _ => rfl) h
  | app s => exact wrapped AppSpec.decode_keeps (fun _ => rfl) h
  | config s => exact wrapped ConfigSpec.decode_keeps (fun _ => rfl) h
  | secret s => exact wrapped SecretSpec.decode_keeps (fun _ => rfl) h
  | router s => exact wrapped RouterSpec.decode_keeps (fun _ => rfl) h
  | managedResource s => exact wrapped ManagedResourceSpec.decode_keeps (fun _ => rfl) h
  | vpnDevice s => exact wrapped VpnDeviceSpec.decode_keeps (fun _ => rfl) h

end Specs

end FleetSync
