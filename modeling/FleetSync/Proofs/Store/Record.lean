import FleetSync.Store.Documents
import Mathlib.Logic.Function.Basic
import Mathlib.Tactic.SplitIfs

/-!
# Documents as records

A document is an object with fields of fixed names, and the store keeps it that way: what it writes
is what was there, field by field.

* `Body.rewritten?_ofJson`: the body of a value is written for JSON already, so that changing it
  does not change its labels;
* `FieldNames`: names that are stored in their order and told apart by their labels. Those of a
  `Json.record` can be looked up (`FieldNames.at?_record`) and set (`FieldNames.put_record`) one by
  one;
* `Patch.applyTo?_record`: a patch that sets fields of a record gives the record with these fields
  set, and nothing else.
-/

namespace FleetSync

namespace Label

/-- A character that is written as itself stays as it is. -/
theorem rewrittenText?_cons {c : Char} (h : 32 ≤ c.toNat) (hc : c ≠ '\\') (rest : List Char) :
    rewrittenText? (c :: rest) = (rewrittenText? rest).map (c :: ·) := by
  rw [rewrittenText?.eq_11 c rest] <;>
    simp only [hc, Nat.not_lt.2 h, if_false, List.singleton_append, false_implies, implies_true]

/-- So does an escape of one letter that JSON has. -/
theorem rewrittenText?_letter {c : Char} (h : c ∈ ['"', '\\', 'n', 'r', 't', 'b', 'f', 'u'])
    (rest : List Char) :
    rewrittenText? ('\\' :: c :: rest) = (rewrittenText? rest).map ('\\' :: c :: ·) := by
  have hc : c ≠ '\'' ∧ c ≠ 'v' ∧ c ≠ '0' ∧ c ≠ 'x' ∧ c ≠ '\r' ∧ isLineBreak c = false ∧
      isNearLineBreak c = false := by
    simp only [List.mem_cons, List.not_mem_nil, or_false] at h
    rcases h with rfl | rfl | rfl | rfl | rfl | rfl | rfl | rfl <;> decide
  obtain ⟨h1, h2, h3, h4, h5, h6, h7⟩ := hc
  rw [rewrittenText?.eq_9 c rest] <;>
    simp only [h1, h2, h3, h4, h5, h6, h7, if_false, Bool.false_eq_true, false_implies,
      implies_true]

theorem hexDigit_plain (n : Nat) : 32 ≤ (Json.hexDigit n).toNat ∧ Json.hexDigit n ≠ '\\' := by
  have h : ∀ m < 16, 32 ≤ (Nat.digitChar m).toNat ∧ Nat.digitChar m ≠ '\\' := by decide
  exact h _ (Nat.mod_lt n (by decide))

/-- An escaped character stays as it is. -/
theorem rewrittenText?_escapeChar (c : Char) (rest : List Char) :
    rewrittenText? (Json.escapeChar c ++ rest) =
      (rewrittenText? rest).map (Json.escapeChar c ++ ·) := by
  unfold Json.escapeChar
  split_ifs with h1 h2 h3 h4 h5 h6 h7 h8
  iterate 7 exact rewrittenText?_letter (by decide) rest
  · obtain ⟨ha, hb⟩ := hexDigit_plain (c.toNat / 16)
    obtain ⟨hc, hd⟩ := hexDigit_plain c.toNat
    simp only [List.cons_append, List.nil_append]
    rw [rewrittenText?_letter (by decide), rewrittenText?_cons (by decide) (by decide),
      rewrittenText?_cons (by decide) (by decide), rewrittenText?_cons ha hb,
      rewrittenText?_cons hc hd]
    simp only [Option.map_map, Function.comp_def]
  · exact rewrittenText?_cons (Nat.not_lt.1 h8) h2 rest

/-- The label of a name is written for JSON already. -/
theorem rewritten?_ofName (s : String) : (ofName s).rewritten? = some (ofName s) := by
  have h : ∀ cs : List Char, rewrittenText? (cs.flatMap Json.escapeChar) =
      some (cs.flatMap Json.escapeChar) := by
    intro cs
    induction cs with
    | nil => rfl
    | cons c cs ih => rw [List.flatMap_cons, rewrittenText?_escapeChar, ih, Option.map_some]
  simp only [rewritten?, ofName, h, Option.map_some]

end Label

namespace Body

mutual

/-- The body of a value is written for JSON already. -/
theorem rewritten?_ofJson : ∀ j : Json, (ofJson j).rewritten? = some (ofJson j)
  | .null | .bool _ | .num _ | .str _ => rfl
  | .arr items => by rw [ofJson, rewritten?, rewrittenItems?_ofItems, Option.map_some]
  | .obj fields => by rw [ofJson, rewritten?, rewrittenFields?_ofFields, Option.map_some]

theorem rewrittenItems?_ofItems : ∀ items : List Json,
    rewrittenItems? (ofItems items) = some (ofItems items)
  | [] => rfl
  | j :: rest => by
    simp only [ofItems, rewrittenItems?, rewritten?_ofJson j, rewrittenItems?_ofItems rest,
      Option.bind_eq_bind, Option.bind_some, Option.pure_def]

theorem rewrittenFields?_ofFields : ∀ fields : List (String × Json),
    rewrittenFields? (ofFields fields) = some (ofFields fields)
  | [] => rfl
  | (k, j) :: rest => by
    simp only [ofFields, rewrittenFields?, Label.rewritten?_ofName, rewritten?_ofJson j,
      rewrittenFields?_ofFields rest, Option.bind_eq_bind, Option.bind_some, Option.pure_def]

end

end Body

namespace Fields

variable {α : Type}

theorem find?_map {names : List String} {label : String → Label} {codes : List Nat} {n : String}
    (h : ∀ m ∈ names, (label m).codes = codes ↔ m = n) (hn : n ∈ names) (f : String → α) :
    find? codes (names.map fun m => (label m, f m)) = some (f n) := by
  induction names with
  | nil => cases hn
  | cons m rest ih =>
    have hm := h m (List.mem_cons_self ..)
    rw [List.map_cons, find?]
    split
    · rename_i hc
      rw [hm.1 hc]
    · rename_i hc
      refine ih (fun k hk => h k (List.mem_cons_of_mem _ hk)) ?_
      exact (List.mem_cons.1 hn).resolve_left fun e => hc (hm.2 e.symm)

theorem replace_map (label : String → Label) {names : List String} {codes : List Nat} {n : String}
    (h : ∀ m ∈ names, (label m).codes = codes ↔ m = n) (hd : names.Nodup) (f : String → α)
    (a : α) : replace codes a (names.map fun m => (label m, f m)) =
      names.map fun m => (label m, Function.update f n a m) := by
  induction names with
  | nil => rfl
  | cons m rest ih =>
    have hm := h m (List.mem_cons_self ..)
    obtain ⟨hnot, hd⟩ := List.nodup_cons.1 hd
    rw [List.map_cons, List.map_cons, replace]
    split
    · rename_i hc
      obtain rfl := hm.1 hc
      rw [Function.update_self]
      refine congrArg _ (List.map_congr_left fun k hk => ?_)
      rw [Function.update_of_ne fun e : k = m => hnot (e ▸ hk)]
    · rename_i hc
      rw [ih (fun k hk => h k (List.mem_cons_of_mem _ hk)) hd,
        Function.update_of_ne fun e => hc (hm.2 e)]

/-- Sorting fields goes by their names alone. -/
theorem ofList_map (f : String → α) (names : List String) :
    ofList (names.map fun n => (n, f n)) =
      (ofList (names.map fun n => (n, ()))).map fun p => (p.1, f p.1) := by
  have insert_map : ∀ (k : String) (fields : List (String × Unit)),
      insert k (f k) (fields.map fun p => (p.1, f p.1)) =
        (insert k () fields).map fun p => (p.1, f p.1) := by
    intro k fields
    induction fields with
    | nil => rfl
    | cons p rest ih =>
      simp only [List.map_cons, insert]
      split_ifs
      · rfl
      · rfl
      · rw [ih, List.map_cons]
  have foldl_map : ∀ acc : List (String × Unit),
      (names.map fun n => (n, f n)).foldl (fun acc p => insert p.1 p.2 acc)
        (acc.map fun p => (p.1, f p.1)) =
      ((names.map fun n => (n, ())).foldl (fun acc p => insert p.1 p.2 acc) acc).map
        fun p => (p.1, f p.1) := by
    induction names with
    | nil => exact fun _ => rfl
    | cons n rest ih =>
      intro acc
      simp only [List.map_cons, List.foldl_cons, insert_map]
      exact ih _
  exact foldl_map []

end Fields

namespace Json

/-- The object with fields of some names. -/
def record (names : List String) (f : String → Json) : Json := .obj (names.map fun n => (n, f n))

/-- Names in the order they are stored in. -/
def sortNames (names : List String) : List String :=
  (Fields.ofList (names.map fun n => (n, ()))).map (·.1)

theorem canonical_record (names : List String) (f : String → Json) :
    (record names f).canonical = record (sortNames names) fun n => (f n).canonical := by
  have h : ∀ names : List String, canonicalFields (names.map fun n => (n, f n)) =
      names.map fun n => (n, (f n).canonical) := by
    intro names
    induction names with
    | nil => rfl
    | cons n rest ih => rw [List.map_cons, canonicalFields, ih, List.map_cons]
  rw [record, canonical, h, Fields.ofList_map, record, sortNames, List.map_map]
  rfl

end Json

namespace Body

theorem ofFields_eq_map (fields : List (String × Json)) :
    ofFields fields = fields.map fun p => (.ofName p.1, ofJson p.2) := by
  induction fields with
  | nil => rfl
  | cons p rest ih => rw [ofFields, ih, List.map_cons]

theorem ofJson_record (names : List String) (f : String → Json) :
    ofJson (.record names f) = .obj (names.map fun n => (.ofName n, ofJson (f n))) := by
  rw [Json.record, ofJson, ofFields_eq_map, List.map_map]
  rfl

end Body

/-- Names of fields that are stored in their order, told apart by their labels and read back as
they are. -/
structure FieldNames (names : List String) : Prop where
  sorted : Json.sortNames names = names
  nodup : names.Nodup
  codes : ∀ m ∈ names, ∀ n ∈ names, (Label.ofName m).codes = (⟨n.toList⟩ : Label).codes ↔ m = n
  name : ∀ n ∈ names, (Label.ofName n).name? = some n
  plain : ∀ n ∈ names, n ≠ Json.embeddingKey

namespace FieldNames

variable {names : List String} {n : String}

theorem at?_record (h : FieldNames names) (hn : n ∈ names) (f : String → Json) (rest : Path) :
    (Body.ofJson (.record names f)).at? (.field ⟨n.toList⟩ :: rest) =
      (Body.ofJson (f n)).at? rest := by
  rw [Body.ofJson_record, Body.at?, Fields.find?_map (fun m hm => h.codes m hm n hn) hn]

theorem put_record (h : FieldNames names) (hn : n ∈ names) (f : String → Json) (v : Json) :
    (Body.ofJson (.record names f)).put [.field ⟨n.toList⟩] (.ofJson v) =
      .place (.ofJson (.record names (Function.update f n v))) := by
  have hc := fun m hm => h.codes m hm n hn
  rw [Body.ofJson_record, Body.put, Fields.find?_map hc hn]
  simp only [Body.put, Reached.map]
  rw [Fields.replace_map Label.ofName hc h.nodup, Body.ofJson_record]
  simp only [Function.update_apply]
  congr
  funext m
  split_ifs <;> rfl

end FieldNames

/-! ## Patches -/

namespace Patch

/-- The patch that sets some fields. -/
def ofFields (changes : List (String × Json)) : Patch :=
  changes.map fun c => .set [.field ⟨c.1.toList⟩] c.2

/-- Fields after some of them are set. -/
def setFields (f : String → Json) (changes : List (String × Json)) : String → Json :=
  changes.foldl (fun g c => Function.update g c.1 c.2.canonical) f

variable {names : List String} {changes : List (String × Json)}

theorem applySets?_record (h : FieldNames names) (hc : ∀ c ∈ changes, c.1 ∈ names)
    {f : String → Json} {b : Body}
    (hb : (ofFields changes).applySets? (.ofJson (.record names f)) = some b) :
    b = .ofJson (.record names (setFields f changes)) := by
  induction changes generalizing f with
  | nil => exact (Option.some.inj hb).symm
  | cons c rest ih =>
    simp only [ofFields, applySets?, List.map_cons, List.foldlM_cons, PatchOp.applySet?,
      Option.bind_eq_bind, Option.bind_eq_some_iff] at hb
    obtain ⟨b', hput, hrest⟩ := hb
    split at hput
    · rw [h.put_record (hc c (List.mem_cons_self ..))] at hput
      obtain rfl := Option.some.inj hput
      exact ih (fun d hd => hc d (List.mem_cons_of_mem _ hd)) hrest
    · cases hput

/-- A patch that sets fields of a record gives the record with these fields set. -/
theorem applyTo?_record (h : FieldNames names) (hc : ∀ c ∈ changes, c.1 ∈ names)
    {f : String → Json} {b : Body}
    (hb : (ofFields changes).applyTo? (.ofJson (.record names f)) = some b) :
    b = .ofJson (.record names (setFields f changes)) := by
  have stored : ∀ {j : Json} {b : Body},
      (Draft.ofBody? (.ofJson j)).bind Draft.stored? = some b → b = .ofJson j := by
    intro j b hb
    rw [Draft.ofBody?, Body.rewritten?_ofJson, Option.map_some, Option.bind_some,
      Draft.stored?] at hb
    split at hb
    · exact (Option.some.inj hb).symm
    · cases hb
  rw [applyTo?] at hb
  split at hb
  · cases hb
  split at hb
  · rename_i hnone
    have hnil : changes = [] := by
      cases changes with
      | nil => rfl
      | cons c rest => simp [ofFields, PatchOp.isSet] at hnone
    subst hnil
    exact stored hb
  · simp only [Option.bind_eq_bind, Option.bind_eq_some_iff] at hb
    obtain ⟨b', hb', d, hd, hs⟩ := hb
    obtain rfl := applySets?_record h hc hb'
    rw [if_pos (by simp [ofFields, PatchOp.isSet])] at hs
    exact stored (by rw [hd]; exact hs)

end Patch

end FleetSync
