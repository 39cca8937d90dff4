import FleetSync.Proofs.Store.StoredResource

/-!
# What is written

Whether a value can be read is looked at before it is put into a document. Whether the document can
be read with it is not, if the text of the document is long enough to be remembered, as that of a
resource always is (`Resource.forgottenSize_lt`). So a patch of values that can be read is applied,
whatever becomes of the document (`Patch.applyTo?_eq`). A document nests one level deeper than its
fields (`Body.readableAt_record`), so it may be that the store cannot read it after that.
-/

namespace FleetSync

theorem String.length_le_utf8ByteSize (cs : List Char) :
    cs.length ≤ (String.ofList cs).utf8ByteSize := by
  rw [String.utf8ByteSize, String.toByteArray_ofList, List.utf8Encode, List.size_toByteArray]
  induction cs with
  | nil => exact Nat.le_refl _
  | cons c cs ih =>
    have hc := c.utf8Size_pos
    rw [List.flatMap_cons, List.length_append, List.length_cons, String.length_utf8EncodeChar]
    omega

namespace Body

mutual

/-- A body is written before what follows it. -/
theorem length_le_write : ∀ (b : Body) (rest : List Char), rest.length ≤ (b.write rest).length
  | .null, rest | .bool true, rest | .bool false, rest => by
    simp only [write, Json.write, List.length_cons]
    omega
  | .num n, rest => by
    rw [write, Json.write, List.length_append]
    omega
  | .str s, rest => by
    have chars : ∀ cs : List Char, rest.length ≤
        (cs.foldr (fun c r => Json.escapeChar c ++ r) ('"' :: rest)).length := by
      intro cs
      induction cs with
      | nil => exact Nat.le_succ _
      | cons c cs ih =>
        rw [List.foldr_cons, List.length_append]
        omega
    exact Nat.le_trans (chars s.toList) (Nat.le_succ _)
  | .arr [], rest => Nat.le_trans (Nat.le_succ _) (Nat.le_succ _)
  | .arr (b :: items), rest => by
    have hitems := length_le_writeItems items rest
    have hb := length_le_write b (writeItems items rest)
    rw [write, List.length_cons]
    omega
  | .obj [], rest => Nat.le_trans (Nat.le_succ _) (Nat.le_succ _)
  | .obj ((l, b) :: fields), rest => by
    have hfields := length_le_writeFields fields rest
    have hb := length_le_write b (writeFields fields rest)
    simp only [write, writeLabel, List.length_cons, List.length_append]
    omega

theorem length_le_writeItems : ∀ (items : List Body) (rest : List Char),
    rest.length ≤ (writeItems items rest).length
  | [], rest => Nat.le_succ _
  | b :: items, rest => by
    have hitems := length_le_writeItems items rest
    have hb := length_le_write b (writeItems items rest)
    rw [writeItems, List.length_cons]
    omega

/-- Fields are written with their labels. -/
theorem length_le_writeFields : ∀ (fields : List (Label × Body)) (rest : List Char),
    (fields.flatMap (·.1.written)).length + rest.length ≤ (writeFields fields rest).length
  | [], rest => by
    rw [List.flatMap_nil, List.length_nil, writeFields, List.length_cons]
    omega
  | (l, b) :: fields, rest => by
    have hfields := length_le_writeFields fields rest
    have hb := length_le_write b (writeFields fields rest)
    simp only [writeFields, writeLabel, List.length_cons, List.length_append, List.flatMap_cons]
    omega

end

/-- The text of an object holds all its labels. -/
theorem length_le_text (fields : List (Label × Body)) :
    (fields.flatMap (·.1.written)).length ≤ (Body.obj fields).text.utf8ByteSize := by
  refine Nat.le_trans ?_ (String.length_le_utf8ByteSize _)
  cases fields with
  | nil => exact Nat.zero_le _
  | cons p fields =>
    have hfields := length_le_writeFields fields []
    have hb := length_le_write p.2 (writeFields fields [])
    simp only [write, writeLabel, List.length_cons, List.length_append, List.flatMap_cons]
    omega

/-- A record can be read if its labels and its fields can, one level below. -/
theorem readableAt_record (names : List String) (f : String → Json) (l : Nat) :
    (ofJson (.record names f)).readableAt (l + 1) = names.all fun n =>
      (Label.ofName n).isSound && (ofJson (f n)).readableAt l := by
  rw [ofJson_record, readableAt]
  induction names with
  | nil => rfl
  | cons n rest ih => rw [List.map_cons, fieldsReadable, ih, List.all_cons]

end Body

namespace Patch

variable {names : List String} {changes : List (String × Json)} {f : String → Json}

/-- Values that can be read can be set. -/
theorem applySets?_eq (h : FieldNames names) (hc : ∀ c ∈ changes, c.1 ∈ names)
    (hv : ∀ c ∈ changes, (Body.ofJson c.2.canonical).isReadable = true) :
    (ofFields changes).applySets? (.ofJson (.record names f)) =
      some (.ofJson (.record names (setFields f changes))) := by
  induction changes generalizing f with
  | nil => rfl
  | cons c rest ih =>
    have ih := fun f => ih (f := f) (fun d hd => hc d (List.mem_cons_of_mem _ hd))
      fun d hd => hv d (List.mem_cons_of_mem _ hd)
    have hput : PatchOp.applySet? (.ofJson (.record names f))
        (.set [.field ⟨c.1.toList⟩] c.2) =
          some (.ofJson (.record names (Function.update f c.1 c.2.canonical))) := by
      simp only [PatchOp.applySet?, if_pos (hv c (List.mem_cons_self ..)),
        h.put_record (hc c (List.mem_cons_self ..))]
      rfl
    rw [ofFields, List.map_cons, applySets?, List.foldlM_cons, hput]
    exact ih _

/-- A patch of some fields of a record is made if the values and the record before can be read, and
the labels are long enough for the text to be remembered. -/
theorem applyTo?_eq (h : FieldNames names) (hc : ∀ c ∈ changes, c.1 ∈ names) (hne : changes ≠ [])
    (hv : ∀ c ∈ changes, (Body.ofJson c.2.canonical).isReadable = true)
    (hb : (Body.ofJson (.record names f)).isReadable = true)
    (long : Draft.forgottenSize < (names.flatMap fun n => (Label.ofName n).written).length) :
    (ofFields changes).applyTo? (.ofJson (.record names f)) =
      some (.ofJson (.record names (setFields f changes))) := by
  have remembered : ∀ g : String → Json,
      (Draft.mk (.ofJson (.record names g)) (.ofJson (.record names g))).isRemembered = true := by
    intro g
    refine decide_eq_true (Nat.lt_of_lt_of_le long ?_)
    have htext := Body.length_le_text (names.map fun n => (.ofName n, Body.ofJson (g n)))
    rw [List.flatMap_map] at htext
    rw [Body.ofJson_record]
    exact htext
  have sets : (ofFields changes).all (·.isSet) = true := by
    simp [ofFields, PatchOp.isSet]
  have notUnsets : ¬ (ofFields changes).all (!·.isSet) = true := by
    cases changes with
    | nil => exact absurd rfl hne
    | cons c rest => simp [ofFields, PatchOp.isSet]
  rw [applyTo?, if_neg (by rw [hb]; decide), if_neg notUnsets, applySets?_eq h hc hv]
  simp only [Option.bind_eq_bind, Option.bind_some, Draft.ofBody?, Body.rewritten?_ofJson,
    Option.map_some, sets, if_true, Draft.stored?, remembered, Bool.or_true]

end Patch

/-- The labels of a resource alone are long enough for its text to be remembered. -/
theorem Resource.forgottenSize_lt :
    Draft.forgottenSize < (storedNames.flatMap fun n => (Label.ofName n).written).length := by
  decide +kernel

/-- What can be asked for a condition can be read. -/
theorem Filter.isReadable_of_isSome {c : Condition} {rest : Filter} {b : Body}
    (h : (Filter.holds? (c :: rest) b).isSome = true) : b.isReadable = true := by
  rw [holds?] at h
  cases hc : c.holds? b with
  | none => rw [hc] at h; cases h
  | some x =>
    rw [Condition.holds?] at hc
    split at hc
    · rename_i hread
      exact (Bool.and_eq_true_iff.1 hread).1
    · cases hc

/-- What meets a condition can be read. -/
theorem Filter.isReadable_of_holds? {c : Condition} {rest : Filter} {b : Body}
    (h : Filter.holds? (c :: rest) b = some true) : b.isReadable = true :=
  isReadable_of_isSome (Option.isSome_of_eq_some h)

end FleetSync
