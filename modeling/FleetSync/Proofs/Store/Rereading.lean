import FleetSync.Json.Decode
import FleetSync.Proofs.Store.Record

/-!
# Reading records back

A stored value is read back in two steps: its text is read as a value again, and a decoder makes
something of that (`Decoder.Rereads`). Of a record that is the record of what its fields read as
(`FieldNames.valueWith_record`), so a record that decodes has fields that decode
(`Decoder.Rereads.field`). Strings, truth values, integers and names of variants read back as what
they were.
-/

namespace FleetSync

namespace Checked

variable {α β : Type}

theorem seq_eq_ok {f : Checked (α → β)} {a : Checked α} {b : β} :
    f <*> a = .ok b ↔ ∃ g x, f = .ok g ∧ a = .ok x ∧ g x = b := by
  cases f <;> cases a <;> simp [Seq.seq, ap]

theorem map_eq_ok {f : α → β} {a : Checked α} {b : β} :
    f <$> a = .ok b ↔ ∃ x, a = .ok x ∧ f x = b := by
  cases a <;> simp [Functor.map, map]

theorem toExcept_eq_ok {a : Checked α} {x : α} : a.toExcept = .ok x ↔ a = .ok x := by
  cases a <;> simp [toExcept]

end Checked

namespace Record

theorem ofFields?_map (known : List String) (node : String → Json.Node) {names : List String}
    (hd : names.Nodup) (place : Nat) :
    ∃ fields, ofFields? known (names.map fun n => (some n, node n)) place = some fields ∧
      (∀ n, (Fields.get? n fields).isSome → n ∈ names) ∧
      ∀ n ∈ names, n ∈ known → ∃ i, Fields.get? n fields = some (i, node n) := by
  induction names generalizing place with
  | nil => exact ⟨[], rfl, fun _ h => by simp [Fields.get?] at h, fun _ h => nomatch h⟩
  | cons m rest ih =>
    obtain ⟨hm, hd⟩ := List.nodup_cons.1 hd
    obtain ⟨fields, hf, hnew, hget⟩ := ih hd (place + 1)
    have hnone : (Fields.get? m fields).isSome = false := by
      rw [Bool.eq_false_iff]
      exact fun h => hm (hnew m h)
    rw [List.map_cons, ofFields?, hf]
    simp only [Option.bind_eq_bind, Option.bind_some, hnone, Bool.false_eq_true, if_false]
    split
    · refine ⟨(m, (place, node m)) :: fields, rfl, fun n hn => ?_, fun n hn hk => ?_⟩
      · by_cases e : m = n
        · exact e ▸ List.mem_cons_self ..
        · rw [Fields.get?, if_neg e] at hn
          exact List.mem_cons_of_mem _ (hnew n hn)
      · by_cases e : m = n
        · exact ⟨place, by rw [Fields.get?, if_pos e, e]⟩
        · obtain ⟨i, hi⟩ := hget n ((List.mem_cons.1 hn).resolve_left (Ne.symm e)) hk
          exact ⟨i, by rw [Fields.get?, if_neg e, hi]⟩
    · rename_i hk
      refine ⟨fields, rfl, fun n hn => List.mem_cons_of_mem _ (hnew n hn), fun n hn hk' => ?_⟩
      refine hget n ((List.mem_cons.1 hn).resolve_left fun e => hk ?_) hk'
      rw [List.contains_iff_mem, ← e]
      exact hk'

end Record

/-! ## Reading records back -/

namespace FieldNames

variable {names : List String}

/-- The text of a stored record says what the texts of its fields say. -/
theorem toNode_record (h : FieldNames names) (f : String → Json) :
    (Body.ofJson (.record names f)).toNode =
      .obj (names.map fun n => (some n, (Body.ofJson (f n)).toNode)) := by
  have nodes : ∀ ns : List String, (∀ n ∈ ns, n ∈ names) →
      Body.fieldNodes (ns.map fun n => (.ofName n, Body.ofJson (f n))) =
        ns.map fun n => (some n, (Body.ofJson (f n)).toNode) := by
    intro ns hns
    induction ns with
    | nil => rfl
    | cons n rest ih =>
      rw [List.map_cons, Body.fieldNodes, h.name n (hns n (List.mem_cons_self ..)),
        ih fun m hm => hns m (List.mem_cons_of_mem _ hm), List.map_cons]
  rw [Body.ofJson_record, Body.toNode, nodes names fun _ hn => hn]

theorem embedded?_record (h : FieldNames names) (node : String → Json.Node) :
    Json.embedded? (names.map fun n => (some n, node n)) = none := by
  cases names with
  | nil => rfl
  | cons n rest => simp [Json.embedded?, h.plain n (List.mem_cons_self ..)]

theorem ofList_record (h : FieldNames names) (g : String → Json) :
    Fields.ofList (names.map fun n => (n, g n)) = names.map fun n => (n, g n) := by
  have hs : (Fields.ofList (names.map fun n => (n, ()))).map (·.1) = names := h.sorted
  rw [Fields.ofList_map]
  calc (Fields.ofList (names.map fun n => (n, ()))).map (fun p => (p.1, g p.1))
      = ((Fields.ofList (names.map fun n => (n, ()))).map (·.1)).map fun n => (n, g n) := by
        rw [List.map_map]; rfl
    _ = names.map fun n => (n, g n) := by rw [hs]

variable {read : String → Option Json} {l : Nat} {f : String → Json}

/-- A stored record reads as the record of what its fields read as. -/
theorem valueWith_record (h : FieldNames names) {j : Json}
    (hj : (Body.ofJson (.record names f)).toNode.valueWith read (l + 1) = some j) :
    ∃ g, j = .record names g ∧
      ∀ n ∈ names, (Body.ofJson (f n)).toNode.valueWith read l = some (g n) := by
  let node := fun n => (Body.ofJson (f n)).toNode
  let g := fun n => ((node n).valueWith read l).getD .null
  have fields : ∀ (ns : List String) {fs : List (String × Json)},
      Json.Node.fieldsWith read l (ns.map fun n => (some n, node n)) = some fs →
      fs = ns.map (fun n => (n, g n)) ∧ ∀ n ∈ ns, (node n).valueWith read l = some (g n) := by
    intro ns
    induction ns with
    | nil => exact fun hfs => ⟨(Option.some.inj hfs).symm, fun _ hn => nomatch hn⟩
    | cons n rest ih =>
      intro fs hfs
      simp only [List.map_cons, Json.Node.fieldsWith, Option.bind_eq_bind, Option.bind_some,
        Option.bind_eq_some_iff, Option.pure_def, Option.some.injEq] at hfs
      obtain ⟨v, hv, fs', hfs', rfl⟩ := hfs
      obtain ⟨rfl, hrest⟩ := ih hfs'
      have hg : g n = v := by simp only [g, hv, Option.getD_some]
      refine ⟨by rw [List.map_cons, hg], fun m hm => ?_⟩
      rcases List.mem_cons.1 hm with rfl | hm
      · rw [hg, hv]
      · exact hrest m hm
  rw [h.toNode_record, Json.Node.valueWith] at hj
  simp only [h.embedded?_record, Option.map_eq_some_iff] at hj
  obtain ⟨fs, hfs, rfl⟩ := hj
  obtain ⟨rfl, hg⟩ := fields names hfs
  exact ⟨g, congrArg Json.obj (h.ofList_record g), hg⟩

/-- A stored record can be read if its fields can. -/
theorem valueWith_record_of (h : FieldNames names) {g : String → Json}
    (hg : ∀ n ∈ names, (Body.ofJson (f n)).toNode.valueWith read l = some (g n)) :
    (Body.ofJson (.record names f)).toNode.valueWith read (l + 1) = some (.record names g) := by
  have fields : ∀ ns : List String, (∀ n ∈ ns, n ∈ names) →
      Json.Node.fieldsWith read l (ns.map fun n => (some n, (Body.ofJson (f n)).toNode)) =
        some (ns.map fun n => (n, g n)) := by
    intro ns hns
    induction ns with
    | nil => rfl
    | cons n rest ih =>
      rw [List.map_cons, Json.Node.fieldsWith, hg n (hns n (List.mem_cons_self ..)),
        ih fun m hm => hns m (List.mem_cons_of_mem _ hm)]
      rfl
  rw [h.toNode_record, Json.Node.valueWith]
  simp only [h.embedded?_record, fields names fun _ hn => hn, Option.map_some]
  rw [h.ofList_record, Json.record]

end FieldNames

theorem Json.fieldNodes_eq_map (fields : List (String × Json)) :
    fieldNodes fields = fields.map fun f => (some f.1, f.2.toNode) := by
  induction fields with
  | nil => rfl
  | cons f rest ih => rw [fieldNodes, ih, List.map_cons]

/-- What a decoder makes of a record it makes of what it reads of the fields, one level below. -/
theorem Decoder.exists_of_record {α : Type} {names known : List String} (hd : names.Nodup)
    (hk : ∀ n ∈ known, n ∈ names) (make : Record → Checked α) (f : String → Json) (l : Nat) :
    ∃ r : Record, r.levels = l ∧
      (∀ a, record known make (l + 1) (Json.record names f).toNode = .ok a ↔ make r = .ok a) ∧
      ∀ n ∈ known, ∀ {β : Type} {d : Decoder β} {absent : Checked β} {b : β},
        r.field n d absent = .ok b ↔ d l (f n).toNode = .ok b := by
  obtain ⟨fields, hf, -, hget⟩ := Record.ofFields?_map known (fun n => (f n).toNode) hd 0
  refine ⟨⟨true, fields, names.length, l⟩, rfl, fun a => ?_, fun n hn β d absent b => ?_⟩
  · rw [Json.record, Json.toNode, Json.fieldNodes_eq_map, List.map_map, Decoder.record]
    simp only [Function.comp_def, hf, List.length_map, Checked.toExcept_eq_ok]
  · obtain ⟨i, hi⟩ := hget n (hk n hn) hn
    rw [Record.field, hi]
    cases hx : d l (f n).toNode <;> simp [hx]

/-- What a decoder makes of a stored value that may nest so many levels when it is read back. -/
def Decoder.Rereads {α : Type} (d : Decoder α) (levels : Nat) (j : Json) (a : α) : Prop :=
  ∃ v, (Body.ofJson j).toNode.valueWith Json.ofText? levels = some v ∧ d levels v.toNode = .ok a

namespace Decoder.Rereads

variable {α : Type} {l : Nat}

theorem field {names known : List String} (h : FieldNames names)
    (hk : ∀ n ∈ known, n ∈ names) {make : Record → Checked α} {f : String → Json} {a : α}
    (hr : Rereads (.record known make) (l + 1) (.record names f) a) :
    ∃ r : Record, make r = .ok a ∧ ∀ n ∈ known, ∀ {β : Type} {d : Decoder β} {absent : Checked β}
      {b : β}, r.field n d absent = .ok b → Rereads d l (f n) b := by
  obtain ⟨v, hv, hd⟩ := hr
  obtain ⟨g, rfl, hg⟩ := h.valueWith_record hv
  obtain ⟨r, -, hmake, hfield⟩ := exists_of_record h.nodup hk make g l
  exact ⟨r, (hmake a).1 hd, fun n hn β d absent b hb => ⟨g n, hg n (hk n hn), (hfield n hn).1 hb⟩⟩

/-! ### Scalars -/

theorem text {s t : String} (h : Rereads Decoder.text l (.str s) t) : t = s := by
  obtain ⟨v, hv, hd⟩ := h
  obtain rfl := Option.some.inj hv
  exact (Except.ok.inj hd).symm

theorem bool {b c : Bool} (h : Rereads Decoder.bool l (.bool b) c) : c = b := by
  obtain ⟨v, hv, hd⟩ := h
  obtain rfl := Option.some.inj hv
  exact (Except.ok.inj hd).symm

theorem int64 {i k : Int} (h : Rereads Decoder.int64 l (.ofInt i) k) :
    k = i ∧ -(Nat.pow 2 63 : Int) ≤ i ∧ i ≤ (Nat.pow 2 63 - 1 : Nat) := by
  obtain ⟨v, hv, hd⟩ := h
  obtain rfl := Option.some.inj hv
  simp only [Json.toNode, Decoder.int64, Decoder.int] at hd
  split at hd
  · rename_i hi
    exact ⟨(Except.ok.inj hd).symm, hi⟩
  · cases hd

theorem choice {variants : List (String × α)} {s : String} {a : α}
    (h : Rereads (.choice variants) l (.str s) a) : Fields.get? s variants = some a := by
  obtain ⟨v, hv, hd⟩ := h
  obtain rfl := Option.some.inj hv
  simp only [Json.toNode, Decoder.choice, Decoder.variant] at hd
  split at hd
  · rename_i b hb
    rw [hb, Except.ok.inj hd]
  · cases hd

/-- What is stored of an optional value reads as a value if there is one. -/
theorem nullable {β : Type} {d : Decoder α} {encode : β → Json} {o : Option β} {a : Option α}
    (hn : ∀ b, ∃ s, encode b = .str s) (h : Rereads (.nullable d) l (.ofOption encode o) a) :
    (o = none ∧ a = none) ∨ ∃ b x, o = some b ∧ a = some x ∧ Rereads d l (encode b) x := by
  obtain ⟨v, hv, hd⟩ := h
  cases o with
  | none =>
    obtain rfl := Option.some.inj hv
    exact .inl ⟨rfl, (Except.ok.inj hd).symm⟩
  | some b =>
    obtain ⟨s, hs⟩ := hn b
    rw [Json.ofOption, hs] at hv
    obtain rfl := Option.some.inj hv
    simp only [Json.toNode, Decoder.nullable] at hd
    cases hx : d l (.str (some s)) with
    | error e => simp [hx, Except.map] at hd
    | ok x =>
      rw [hx] at hd
      refine .inr ⟨b, x, rfl, (Except.ok.inj hd).symm, .str s, ?_, hx⟩
      rw [hs]
      rfl

/-- An optional text reads back as it was. -/
theorem nullableText {o a : Option String}
    (h : Rereads (.nullable .text) l (.ofOption .str o) a) : a = o := by
  rcases h.nullable fun s => ⟨s, rfl⟩ with ⟨rfl, rfl⟩ | ⟨s, x, rfl, rfl, hx⟩
  · rfl
  · rw [hx.text]

end Decoder.Rereads

end FleetSync
