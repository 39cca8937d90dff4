import FleetSync.Proofs.Store.FieldName
import FleetSync.Proofs.Store.Placing

/-!
# Bodies alike but for the order of fields

What is put into an object that does not have it yet comes last, so the order of changes shows in
the order of fields. Bodies are alike if they are the same but for the order of fields whose labels
are words (`Body.Alike`). A change of bodies that are alike leaves them alike
(`Body.Alike.adjust`), changes at paths apart from each other can be made in either order
(`Body.adjust_adjust`), and bodies that are alike read as the same value (`Body.Alike.valueWith`).
-/

namespace FleetSync

namespace Fields

variable {α : Type} {l m : Label} {g h : Option α → Option α} {fields : List (Label × α)}

theorem adjust_append (xs ys : List (Label × α)) :
    adjust l g (xs ++ ys) =
      if (find? l.codes xs).isSome then adjust l g xs ++ ys else xs ++ adjust l g ys := by
  induction xs with
  | nil => rfl
  | cons x rest ih =>
    obtain ⟨k, a⟩ := x
    by_cases hk : k.codes = l.codes
    · simp only [List.cons_append, adjust, find?, if_pos hk, Option.isSome_some, if_true]
      split <;> rfl
    · simp only [List.cons_append, adjust, find?, if_neg hk, ih]
      split <;> rfl

/-- A field that is found has others of another label before it. -/
theorem exists_of_find? {a : α} (hf : find? l.codes fields = some a) :
    ∃ xs k ys, fields = xs ++ (k, a) :: ys ∧ find? l.codes xs = none ∧ k.codes = l.codes := by
  induction fields with
  | nil => cases hf
  | cons f rest ih =>
    obtain ⟨k, b⟩ := f
    rw [find?] at hf
    split at hf
    · rename_i hk
      obtain rfl := Option.some.inj hf
      exact ⟨[], k, rest, rfl, rfl, hk⟩
    · rename_i hk
      obtain ⟨xs, k', ys, rfl, hxs, hk'⟩ := ih hf
      exact ⟨(k, b) :: xs, k', ys, rfl, by rw [find?, if_neg hk, hxs], hk'⟩

/-- Fields of different labels can be changed in either order, but that new ones change places. -/
theorem adjust_comm (hne : l.codes ≠ m.codes) :
    adjust l g (adjust m h fields) = adjust m h (adjust l g fields) ∨
      ∃ a b, adjust l g (adjust m h fields) = fields ++ [(m, b), (l, a)] ∧
        adjust m h (adjust l g fields) = fields ++ [(l, a), (m, b)] := by
  induction fields with
  | nil =>
    cases hg : g none <;> cases hh : h none <;>
      simp [adjust, hg, hh, hne, Ne.symm hne]
  | cons f rest ih =>
    obtain ⟨k, c⟩ := f
    by_cases hl : k.codes = l.codes
    · have hm : k.codes ≠ m.codes := fun e => hne (hl.symm.trans e)
      cases hg : g (some c) <;> exact .inl (by simp only [adjust, if_pos hl, if_neg hm, hg])
    · by_cases hm : k.codes = m.codes
      · cases hh : h (some c) <;> exact .inl (by simp only [adjust, if_neg hl, if_pos hm, hh])
      · simp only [adjust, if_neg hl, if_neg hm, List.cons_append]
        rcases ih with ih | ⟨a, b, h₁, h₂⟩
        · exact .inl (by rw [ih])
        · exact .inr ⟨a, b, by rw [h₁], by rw [h₂]⟩

/-- Two changes of a field are one. -/
theorem adjust_adjust (hh : ∀ a, (h (some a)).isSome = true) :
    adjust l g (adjust l h fields) = adjust l (fun o => g (h o)) fields := by
  induction fields with
  | nil =>
    cases hn : h none with
    | none => simp only [adjust, hn]
    | some a => simp only [adjust, hn, if_true]
  | cons f rest ih =>
    obtain ⟨k, c⟩ := f
    by_cases hk : k.codes = l.codes
    · obtain ⟨d, hd⟩ := Option.isSome_iff_exists.1 (hh c)
      simp only [adjust, if_pos hk, hd]
    · simp only [adjust, if_neg hk, ih]

end Fields

namespace Body

/-- Whether two bodies are the same but for the order of fields that are words. -/
inductive Alike : Body → Body → Prop
  | refl (b : Body) : Alike b b
  | trans {a b c : Body} : Alike a b → Alike b c → Alike a c
  | swap (xs ys : List (Label × Body)) {l m : Label} (a b : Body) (hl : l.isWord = true)
    (hm : m.isWord = true) (hne : l ≠ m) :
    Alike (.obj (xs ++ (l, a) :: (m, b) :: ys)) (.obj (xs ++ (m, b) :: (l, a) :: ys))
  | field (xs ys : List (Label × Body)) (l : Label) {a b : Body} : Alike a b →
    Alike (.obj (xs ++ (l, a) :: ys)) (.obj (xs ++ (l, b) :: ys))

/-- Whether two bodies are alike or both missing. -/
abbrev SameBut (o o' : Option Body) : Prop := Option.Rel Alike o o'

namespace SameBut

theorem refl : ∀ o : Option Body, SameBut o o
  | none => .none
  | some b => .some (.refl b)

theorem trans {o o' o'' : Option Body} (h : SameBut o o') (h' : SameBut o' o'') :
    SameBut o o'' := by
  cases h with
  | none => exact h'
  | some h =>
    cases h' with
    | some h' => exact .some (h.trans h')

end SameBut

variable {c d : Option Body} {l m : Label} {ls ms : List Label}

/-! ## Changes -/

/-- A change of a field by functions that give alike ones. -/
theorem Alike.of_adjust {g h : Option Body → Option Body} (hgh : ∀ o, SameBut (g o) (h o))
    (l : Label) (fields : List (Label × Body)) :
    Alike (.obj (Fields.adjust l g fields)) (.obj (Fields.adjust l h fields)) := by
  cases hf : Fields.find? l.codes fields with
  | none =>
    rw [Fields.adjust_of_find?_none hf, Fields.adjust_of_find?_none hf]
    cases hn : g none <;> cases hn' : h none <;> have rel := hgh none <;> rw [hn, hn'] at rel <;>
      cases rel
    · exact .refl _
    · rename_i hab
      exact .field fields [] l hab
  | some a =>
    obtain ⟨xs, k, ys, rfl, hxs, hk⟩ := Fields.exists_of_find? hf
    simp only [Fields.adjust_append, hxs, Option.isSome_none, Bool.false_eq_true, if_false,
      Fields.adjust, if_pos hk]
    cases hn : g (some a) <;> cases hn' : h (some a) <;> have rel := hgh (some a) <;>
      rw [hn, hn'] at rel <;> cases rel
    · exact .refl _
    · rename_i hab
      exact .field xs ys k hab

/-- A change of a field that is a word, where a later one that is one too may change places with
it. -/
theorem Alike.swap_adjust {g : Option Body → Option Body} (l : Label)
    (xs ys : List (Label × Body)) {k m : Label} (a b : Body) (hk : k.isWord = true)
    (hm : m.isWord = true) (hne : k ≠ m) :
    Alike (.obj (Fields.adjust l g (xs ++ (k, a) :: (m, b) :: ys)))
      (.obj (Fields.adjust l g (xs ++ (m, b) :: (k, a) :: ys))) := by
  rw [Fields.adjust_append, Fields.adjust_append]
  split
  · exact .swap _ ys a b hk hm hne
  have apart : k.codes ≠ m.codes := fun e => hne (Label.codes_inj hk hm e)
  by_cases hkl : k.codes = l.codes
  · have hml : m.codes ≠ l.codes := fun e => apart (hkl.trans e.symm)
    cases hg : g (some a) <;> simp only [Fields.adjust, if_pos hkl, if_neg hml, hg]
    · exact .refl _
    · exact .swap xs ys _ b hk hm hne
  · by_cases hml : m.codes = l.codes
    · cases hg : g (some b) <;> simp only [Fields.adjust, if_neg hkl, if_pos hml, hg]
      · exact .refl _
      · exact .swap xs ys a _ hk hm hne
    · simp only [Fields.adjust, if_neg hkl, if_neg hml]
      exact .swap xs _ a b hk hm hne

theorem Alike.field_adjust {g : Option Body → Option Body} (l : Label)
    (xs ys : List (Label × Body)) (k : Label) {a b : Body} (hab : Alike a b)
    (hg : SameBut (g (some a)) (g (some b))) :
    Alike (.obj (Fields.adjust l g (xs ++ (k, a) :: ys)))
      (.obj (Fields.adjust l g (xs ++ (k, b) :: ys))) := by
  rw [Fields.adjust_append, Fields.adjust_append]
  split
  · exact .field _ ys k hab
  by_cases hk : k.codes = l.codes
  · simp only [Fields.adjust, if_pos hk]
    cases ha : g (some a) <;> cases hb : g (some b) <;> rw [ha, hb] at hg <;> cases hg
    · exact .refl _
    · rename_i hab
      exact .field xs ys k hab
  · simp only [Fields.adjust, if_neg hk]
    exact .field xs _ k hab

/-- The same change of bodies that are alike leaves them alike. -/
theorem Alike.adjust (c : Option Body) (ls : List Label) {a b : Body} (h : Alike a b) :
    SameBut (Body.adjust c ls (some a)) (Body.adjust c ls (some b)) := by
  induction ls generalizing a b with
  | nil => exact .refl c
  | cons l ls ih =>
    induction h with
    | refl b => exact .refl _
    | trans _ _ ih₁ ih₂ => exact ih₁.trans ih₂
    | swap xs ys a b hl hm hne => exact .some (.swap_adjust l xs ys a b hl hm hne)
    | field xs ys k hab => exact .some (.field_adjust l xs ys k hab (ih hab))

theorem SameBut.adjust (c : Option Body) (ls : List Label) {o o' : Option Body}
    (h : SameBut o o') : SameBut (Body.adjust c ls o) (Body.adjust c ls o') := by
  cases h with
  | none => exact .refl _
  | some h => exact h.adjust c ls

theorem SameBut.map {o o' : Option Body} (h : SameBut o o') (l : Label) :
    SameBut (o.map fun b => .obj [(l, b)]) (o'.map fun b => .obj [(l, b)]) := by
  cases h with
  | none => exact .none
  | some h => exact .some (.field [] [] l h)

theorem adjust_cons_none (c : Option Body) (l : Label) (ls : List Label) :
    adjust c (l :: ls) none = (adjust c ls none).map fun b => .obj [(l, b)] := by
  rw [adjust]

/-- Below a field that is the only one a change is one of what the field has. -/
theorem adjust_cons_map (l : Label) (h : ls ≠ []) (o : Option Body) :
    adjust c (l :: ls) (o.map fun b => .obj [(l, b)]) =
      (adjust c ls o).map fun b => .obj [(l, b)] := by
  cases o with
  | none => rw [Option.map_none, adjust_cons_none]
  | some a =>
    obtain ⟨b, hb⟩ : ∃ b, adjust c ls (some a) = some b :=
      Option.isSome_iff_exists.1 (isSome_adjust a h)
    simp only [Option.map_some, adjust, Fields.adjust, if_true, hb]

/-- Changes at paths apart from each other can be made in either order. -/
theorem adjust_adjust (hl : ∀ l ∈ ls, l.isWord = true) (hm : ∀ m ∈ ms, m.isWord = true)
    (apart : Path.Apart (.ofLabels ls) (.ofLabels ms)) (o : Option Body) :
    SameBut (adjust c ls (adjust d ms o)) (adjust d ms (adjust c ls o)) := by
  induction ls generalizing ms o with
  | nil => exact absurd apart Path.not_apart_nil
  | cons l ls ih =>
    cases ms with
    | nil => exact absurd apart.symm Path.not_apart_nil
    | cons m ms =>
      obtain ⟨hl, hls⟩ := List.forall_mem_cons.1 hl
      obtain ⟨hm, hms⟩ := List.forall_mem_cons.1 hm
      match o with
      | none =>
        rcases apart.cons with hne | ⟨rfl, tails⟩
        · have hcodes : l.codes ≠ m.codes := fun e => hne (Label.codes_inj hl hm e)
          cases hc : adjust c ls none <;> cases hd : adjust d ms none <;>
            simp only [adjust, hc, hd, Option.map_none, Option.map_some, Fields.adjust,
              if_neg hcodes, if_neg hcodes.symm]
          · exact .none
          · exact .some (.refl _)
          · exact .some (.refl _)
          · exact .some (.swap [] [] _ _ hm hl hne.symm)
        · rw [adjust_cons_none, adjust_cons_none, adjust_cons_map l tails.ne_nil,
            adjust_cons_map l tails.symm.ne_nil]
          exact (ih hls hms tails none).map l
      | some (.obj fields) =>
        rw [adjust, adjust, adjust, adjust]
        rcases apart.cons with hne | ⟨rfl, tails⟩
        · have hcodes : l.codes ≠ m.codes := fun e => hne (Label.codes_inj hl hm e)
          have either := @Fields.adjust_comm _ l m (adjust c ls) (adjust d ms) fields hcodes
          rcases either with heq | ⟨a, b, h₁, h₂⟩
          · rw [heq]
            exact .refl _
          · rw [h₁, h₂]
            exact .some (.swap fields [] b a hm hl hne.symm)
        · rw [Fields.adjust_adjust fun a => isSome_adjust a tails.symm.ne_nil,
            Fields.adjust_adjust fun a => isSome_adjust a tails.ne_nil]
          exact .some (.of_adjust (ih hls hms tails) l fields)
      | some .null | some (.bool _) | some (.num _) | some (.str _) | some (.arr _) =>
        exact .refl _

/-! ## Reading -/

/-- Bodies that are alike are the same one or both objects. -/
theorem Alike.eq_or_obj {a b : Body} (h : Alike a b) :
    a = b ∨ ∃ fs gs, a = .obj fs ∧ b = .obj gs := by
  induction h with
  | refl b => exact .inl rfl
  | trans _ _ ih₁ ih₂ =>
    rcases ih₁ with rfl | ⟨fs, gs, rfl, rfl⟩
    · exact ih₂
    · rcases ih₂ with rfl | ⟨_, hs, -, rfl⟩
      · exact .inr ⟨fs, gs, rfl, rfl⟩
      · exact .inr ⟨fs, hs, rfl, rfl⟩
  | swap xs ys a b hl hm hne => exact .inr ⟨_, _, rfl, rfl⟩
  | field xs ys l h ih => exact .inr ⟨_, _, rfl, rfl⟩

theorem fieldNodes_append (xs ys : List (Label × Body)) :
    fieldNodes (xs ++ ys) = fieldNodes xs ++ fieldNodes ys := by
  induction xs with
  | nil => rfl
  | cons x rest ih =>
    rw [List.cons_append, fieldNodes, ih]
    rfl

end Body

namespace Label

theorem escapeChar_of_isWordChar {c : Char} (h : isWordChar c = true) :
    Json.escapeChar c = [c] := by
  obtain ⟨hslash, hquote, hcontrol⟩ := isWordChar_plain h
  have other : ∀ d : Char, d.toNat < 32 → c ≠ d := by
    rintro d hd rfl
    omega
  unfold Json.escapeChar
  rw [if_neg hquote, if_neg hslash, if_neg (other _ (by decide)), if_neg (other _ (by decide)),
    if_neg (other _ (by decide)), if_neg (other _ (by decide)), if_neg (other _ (by decide)),
    if_neg (Nat.not_lt.2 hcontrol)]

/-- A word reads as what is written. -/
theorem name?_of_isWord {l : Label} (h : l.isWord = true) :
    l.name? = some (String.ofList l.written) := by
  have chars := List.all_eq_true.1 (Bool.and_eq_true_iff.1 h).2
  have written : ∀ cs : List Char, (∀ c ∈ cs, isWordChar c = true) →
      cs.flatMap Json.escapeChar = cs := by
    intro cs
    induction cs with
    | nil => exact fun _ => rfl
    | cons c rest ih =>
      intro h
      obtain ⟨hc, hrest⟩ := List.forall_mem_cons.1 h
      rw [List.flatMap_cons, escapeChar_of_isWordChar hc, ih hrest, List.singleton_append]
  have hname : ofName (String.ofList l.written) = l := by
    rw [ofName, String.toList_ofList, written _ chars]
  rw [← name?_ofName, hname]

/-- No word is the name of a value that is held as a text. -/
theorem name?_ne_embeddingKey {l : Label} (h : l.isWord = true) :
    l.name? ≠ some Json.embeddingKey := by
  rw [name?_of_isWord h]
  intro e
  have hl : l.written = Json.embeddingKey.toList := by
    rw [← Option.some.inj e, String.toList_ofList]
  rw [isWord, hl] at h
  exact absurd h (by decide)

end Label

namespace Json.Node

variable {read : String → Option Json} {n : Nat}

theorem fieldsWith_append (xs ys : List (Option String × Node)) :
    fieldsWith read n (xs ++ ys) = (fieldsWith read n xs).bind fun vs =>
      (fieldsWith read n ys).map (vs ++ ·) := by
  induction xs with
  | nil => simp [fieldsWith]
  | cons x rest ih =>
    obtain ⟨k, v⟩ := x
    simp only [List.cons_append, fieldsWith, ih, Option.bind_eq_bind]
    cases k <;> cases valueWith read n v <;> cases fieldsWith read n rest <;>
      cases fieldsWith read n ys <;> rfl

end Json.Node

namespace Fields

variable {α : Type}

theorem insert_comm_of_lt {k k' : String} (hlt : k < k') (v v' : α) (fields : List (String × α)) :
    insert k v (insert k' v' fields) = insert k' v' (insert k v fields) := by
  have hnot : ¬ k' < k := fun h => String.lt_irrefl _ (String.lt_trans hlt h)
  have hne : k' ≠ k := fun e => String.lt_irrefl _ (e ▸ hlt)
  induction fields with
  | nil => simp only [insert, if_pos hlt, if_neg hnot, if_neg hne]
  | cons f rest ih =>
    obtain ⟨k₀, v₀⟩ := f
    by_cases h' : k' < k₀
    · have h := String.lt_trans hlt h'
      simp only [insert, if_pos h', if_pos hlt, if_pos h, if_neg hnot, if_neg hne]
    by_cases e' : k' = k₀
    · subst e'
      simp only [insert, if_neg h', if_true, if_pos hlt, if_neg hnot, if_neg hne]
    by_cases h : k < k₀
    · simp only [insert, if_neg h', if_neg e', if_pos h, if_neg hnot, if_neg hne]
    by_cases e : k = k₀
    · simp only [insert, if_neg h', if_neg e', if_neg h, if_pos e, if_neg hnot, if_neg hne]
    · simp only [insert, if_neg h', if_neg e', if_neg h, if_neg e, ih]

/-- Fields with different keys can be sorted in in either order. -/
theorem insert_comm {k k' : String} (hne : k ≠ k') (v v' : α) (fields : List (String × α)) :
    insert k v (insert k' v' fields) = insert k' v' (insert k v fields) := by
  by_cases hlt : k < k'
  · exact insert_comm_of_lt hlt v v' fields
  · refine (insert_comm_of_lt (Decidable.byContradiction fun hlt' => hne ?_) v' v fields).symm
    exact String.le_antisymm (String.not_lt.1 hlt') (String.not_lt.1 hlt)

theorem ofList_swap {k k' : String} (hne : k ≠ k') (v v' : α) (xs ys : List (String × α)) :
    ofList (xs ++ (k, v) :: (k', v') :: ys) = ofList (xs ++ (k', v') :: (k, v) :: ys) := by
  rw [ofList, ofList, List.foldl_append, List.foldl_append]
  exact congrArg (List.foldl _ · ys) (insert_comm hne.symm v' v _)

end Fields

namespace Body

variable {read : String → Option Json}

/-- Whether an object holds a value as a text is told by its first field, and by whether there are
others. -/
theorem embedded?_append (x : Label × Body) (xs ys zs : List (Label × Body))
    (h : ys.isEmpty = zs.isEmpty) :
    Json.embedded? (fieldNodes (x :: xs ++ ys)) = Json.embedded? (fieldNodes (x :: xs ++ zs)) := by
  have rest : (fieldNodes (xs ++ ys)).isEmpty = (fieldNodes (xs ++ zs)).isEmpty := by
    cases xs with
    | nil => cases ys <;> cases zs <;> first | rfl | cases h
    | cons => rfl
  obtain ⟨l, b⟩ := x
  rw [List.cons_append, List.cons_append, fieldNodes, fieldNodes]
  cases l.name? with
  | none => rfl
  | some key =>
    simp only [Json.embedded?]
    revert rest
    generalize fieldNodes (xs ++ ys) = as
    generalize fieldNodes (xs ++ zs) = bs
    intro rest
    cases as <;> cases bs
    · rfl
    · cases rest
    · cases rest
    · split
      · cases b.toNode <;> rfl
      · rfl

theorem embedded?_word {l : Label} (h : l.isWord = true) (b : Body) (xs : List (Label × Body)) :
    Json.embedded? (fieldNodes ((l, b) :: xs)) = none := by
  have hkey := Label.name?_ne_embeddingKey h
  rw [Label.name?_of_isWord h] at hkey
  rw [fieldNodes, Label.name?_of_isWord h]
  simp only [Json.embedded?, if_neg fun e => hkey (congrArg some e)]

/-- Bodies that are alike read as the same value, or as none. -/
theorem Alike.valueWith {a b : Body} (h : Alike a b) (n : Nat) :
    a.toNode.valueWith read n = b.toNode.valueWith read n := by
  induction h generalizing n with
  | refl b => rfl
  | trans _ _ ih₁ ih₂ => exact (ih₁ n).trans (ih₂ n)
  | swap xs ys a b hl hm hne =>
    rename_i l m
    cases n with
    | zero => rfl
    | succ n =>
      have held : Json.embedded? (fieldNodes (xs ++ (l, a) :: (m, b) :: ys)) =
          Json.embedded? (fieldNodes (xs ++ (m, b) :: (l, a) :: ys)) := by
        cases xs with
        | nil => exact (embedded?_word hl a _).trans (embedded?_word hm b _).symm
        | cons x xs => exact embedded?_append x xs _ _ rfl
      have names : String.ofList l.written ≠ String.ofList m.written := by
        intro e
        refine hne ?_
        cases l
        cases m
        exact congrArg Label.mk (String.ofList_injective e)
      have fields :
          ((Json.Node.fieldsWith read n (fieldNodes (xs ++ (l, a) :: (m, b) :: ys))).map
            fun fs => Json.obj (Fields.ofList fs)) =
          (Json.Node.fieldsWith read n (fieldNodes (xs ++ (m, b) :: (l, a) :: ys))).map
            fun fs => Json.obj (Fields.ofList fs) := by
        simp only [fieldNodes_append, Json.Node.fieldsWith_append, fieldNodes,
          Json.Node.fieldsWith, Label.name?_of_isWord hl, Label.name?_of_isWord hm]
        cases Json.Node.fieldsWith read n (fieldNodes xs) <;> cases a.toNode.valueWith read n <;>
          cases b.toNode.valueWith read n <;>
          cases Json.Node.fieldsWith read n (fieldNodes ys) <;> try rfl
        exact congrArg (some <| Json.obj ·) (Fields.ofList_swap names _ _ _ _)
      rw [toNode, toNode, Json.Node.valueWith, Json.Node.valueWith, held, fields]
  | field xs ys l h ih =>
    rename_i a b
    cases n with
    | zero => rfl
    | succ n =>
      have held : Json.embedded? (fieldNodes (xs ++ (l, a) :: ys)) =
          Json.embedded? (fieldNodes (xs ++ (l, b) :: ys)) := by
        cases xs with
        | nil =>
          rcases h.eq_or_obj with rfl | ⟨fs, gs, rfl, rfl⟩
          · rfl
          · simp only [List.nil_append, fieldNodes, toNode]
            cases l.name? <;> rfl
        | cons x xs => exact embedded?_append x xs _ _ rfl
      rw [toNode, toNode, Json.Node.valueWith, Json.Node.valueWith, held]
      simp only [fieldNodes_append, Json.Node.fieldsWith_append, fieldNodes,
        Json.Node.fieldsWith, ih n]

end Body

end FleetSync
