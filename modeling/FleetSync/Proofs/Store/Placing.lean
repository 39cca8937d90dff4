import Mathlib.Data.List.TakeWhile
import FleetSync.Proofs.Store.Legible

/-!
# Changes along a path of labels

A dotted text of words names a path of labels (`Path.ofText_of_isWord`). Putting a value at such a
path and taking one away are the same change but for what is at the path after it (`Body.adjust`):
on the way there objects are made where something is put, and nothing is done below what is no
object. So a change of a document by a patch is one of these (`Body.change?_put`,
`Body.change?_cut`), and

* what is looked up at a path apart from that of a change is as it was (`Body.lookup_adjust`);
* labels that the store can read stay so (`Body.Sound.adjust`).
-/

namespace FleetSync

namespace Path

/-- The path along some labels. -/
def ofLabels (ls : List Label) : Path := ls.map .field

end Path

namespace Fields

variable {α : Type}

/-- Changes the first field of a label's code points, which may be missing before or after it. -/
def adjust (l : Label) (g : Option α → Option α) : List (Label × α) → List (Label × α)
  | [] => match g none with
    | some a => [(l, a)]
    | none => []
  | (k, a) :: rest =>
    if k.codes = l.codes then match g (some a) with
      | some b => (k, b) :: rest
      | none => rest
    else (k, a) :: adjust l g rest

variable {l m : Label} {g : Option α → Option α} {fields : List (Label × α)}

theorem adjust_of_find? {a : α} (h : find? l.codes fields = some a) :
    adjust l g fields = match g (some a) with
      | some b => replace l.codes b fields
      | none => erase l.codes fields := by
  induction fields with
  | nil => cases h
  | cons f rest ih =>
    obtain ⟨k, b⟩ := f
    rw [find?] at h
    by_cases hk : k.codes = l.codes
    · rw [if_pos hk] at h
      obtain rfl := Option.some.inj h
      simp only [adjust, replace, erase, if_pos hk]
    · rw [if_neg hk] at h
      simp only [adjust, replace, erase, if_neg hk, ih h]
      split <;> rfl

theorem adjust_of_find?_none (h : find? l.codes fields = none) :
    adjust l g fields = fields ++ match g none with
      | some a => [(l, a)]
      | none => [] := by
  induction fields with
  | nil => rfl
  | cons f rest ih =>
    obtain ⟨k, b⟩ := f
    rw [find?] at h
    split at h
    · cases h
    · rename_i hk
      rw [adjust, if_neg hk, ih h, List.cons_append]

/-- A field that is changed into itself is not changed. -/
theorem adjust_self {a : α} (h : find? l.codes fields = some a) (hg : g (some a) = some a) :
    adjust l g fields = fields := by
  induction fields with
  | nil => cases h
  | cons f rest ih =>
    obtain ⟨k, b⟩ := f
    rw [find?] at h
    split at h
    · rename_i hk
      obtain rfl := Option.some.inj h
      rw [adjust, if_pos hk, hg]
    · rename_i hk
      rw [adjust, if_neg hk, ih h]

theorem find?_adjust_of_ne (h : m.codes ≠ l.codes) :
    find? m.codes (adjust l g fields) = find? m.codes fields := by
  induction fields with
  | nil =>
    rw [adjust]
    split
    · simp only [find?, if_neg (Ne.symm h)]
    · rfl
  | cons f rest ih =>
    obtain ⟨k, b⟩ := f
    rw [adjust]
    split
    · rename_i hk
      have hm : k.codes ≠ m.codes := fun e => h (e.symm.trans hk)
      split
      · rw [find?, if_neg hm, find?, if_neg hm]
      · rw [find?, if_neg hm]
    · rw [find?, find?, ih]

/-- What stays there is found as it was changed. -/
theorem find?_adjust (h : ∀ a, (g (some a)).isSome = true) :
    find? l.codes (adjust l g fields) = g (find? l.codes fields) := by
  induction fields with
  | nil =>
    rw [adjust, find?]
    split
    · rename_i a ha
      rw [find?, if_pos rfl, ha]
    · rename_i hnone
      rw [find?, hnone]
  | cons f rest ih =>
    obtain ⟨k, b⟩ := f
    by_cases hk : k.codes = l.codes
    · obtain ⟨c, hc⟩ := Option.isSome_iff_exists.1 (h b)
      rw [adjust, if_pos hk, hc, find?, if_pos hk, find?, if_pos hk, hc]
    · rw [adjust, if_neg hk, find?, if_neg hk, find?, if_neg hk, ih]

/-- The fields after a change are those before it but for the one that was changed or made. -/
theorem mem_adjust {f : Label × α} (h : f ∈ adjust l g fields) :
    f ∈ fields ∨ (f.1 = l ∧ g none = some f.2) ∨
      ∃ a, (f.1, a) ∈ fields ∧ g (some a) = some f.2 := by
  induction fields with
  | nil =>
    rw [adjust] at h
    split at h
    · rename_i a ha
      obtain rfl := List.mem_singleton.1 h
      exact .inr (.inl ⟨rfl, ha⟩)
    · cases h
  | cons e rest ih =>
    obtain ⟨k, a⟩ := e
    rw [adjust] at h
    split at h
    · split at h
      · rename_i b hb
        rcases List.mem_cons.1 h with rfl | h
        · exact .inr (.inr ⟨a, List.mem_cons_self .., hb⟩)
        · exact .inl (List.mem_cons_of_mem _ h)
      · exact .inl (List.mem_cons_of_mem _ h)
    · rcases List.mem_cons.1 h with rfl | h
      · exact .inl (List.mem_cons_self ..)
      · rcases ih h with h | h | ⟨b, hb, hf⟩
        · exact .inl (List.mem_cons_of_mem _ h)
        · exact .inr (.inl h)
        · exact .inr (.inr ⟨b, List.mem_cons_of_mem _ hb, hf⟩)

end Fields

namespace Body

/-- What is where a path of labels starts after the content of the place that it leads to became
another one, if the path leads to a place. -/
def adjust (content : Option Body) : List Label → Option Body → Option Body
  | [], _ => content
  | l :: rest, none => (adjust content rest none).map fun b => .obj [(l, b)]
  | l :: rest, some (.obj fields) => some (.obj (Fields.adjust l (adjust content rest) fields))
  | _ :: _, some b => some b

variable {content : Option Body} {l : Label} {ls ms : List Label} {b v : Body}

@[simp] theorem adjust_none : ∀ ls : List Label, adjust none ls none = none
  | [] => rfl
  | _ :: rest => by rw [adjust, adjust_none rest, Option.map_none]

theorem isSome_adjust (b : Body) (h : ls ≠ []) : (adjust content ls (some b)).isSome = true := by
  cases ls with
  | nil => exact absurd rfl h
  | cons l rest => cases b <;> rfl

/-! ## Putting and taking away -/

theorem put_blank (v : Body) : ∀ ls : List Label, ∃ b,
    (blank (.ofLabels ls)).put (.ofLabels ls) v = .place b ∧ adjust (some v) ls none = some b
  | [] => ⟨v, rfl, rfl⟩
  | l :: rest => by
    obtain ⟨b, hput, hb⟩ := put_blank v rest
    refine ⟨.obj [(l, b)], ?_, by rw [adjust, hb, Option.map_some]⟩
    rw [Path.ofLabels, List.map_cons, blank, put, Fields.find?]
    exact congrArg (Reached.map _) hput

/-- What is put into an empty object is all that is there. -/
theorem adjust_empty (v : Body) (h : ls ≠ []) :
    adjust (some v) ls (some (.obj [])) = adjust (some v) ls none := by
  cases ls with
  | nil => exact absurd rfl h
  | cons l rest =>
    obtain ⟨b, -, hb⟩ := put_blank v rest
    rw [adjust, adjust, Fields.adjust, hb]
    rfl

/-- Putting reaches the place or nothing; if it does, the place has that value. -/
theorem put_eq (v : Body) : ∀ (ls : List Label) (b : Body), ∃ o : Option Body,
    b.put (.ofLabels ls) v = o.elim .nowhere .place ∧
      adjust (some v) ls (some b) = some (o.getD b)
  | [], b => ⟨some v, by cases b <;> rfl, rfl⟩
  | l :: rest, .obj fields => by
    rw [Path.ofLabels, List.map_cons, put, adjust]
    cases hf : Fields.find? l.codes fields with
    | some a =>
      obtain ⟨o, hput, ha⟩ := put_eq v rest a
      simp only [Path.ofLabels] at hput
      cases o with
      | some a' =>
        refine ⟨some (.obj (Fields.replace l.codes a' fields)), ?_, ?_⟩
        · simp only [hput, Option.elim_some, Reached.map]
        · rw [Fields.adjust_of_find? hf, ha]
          rfl
      | none =>
        refine ⟨none, ?_, ?_⟩
        · simp only [hput, Option.elim_none, Reached.map]
        · rw [Fields.adjust_self hf ha]
          rfl
    | none =>
      obtain ⟨a, hput, ha⟩ := put_blank v rest
      refine ⟨some (.obj (fields ++ [(l, a)])), ?_, ?_⟩
      · simp only [Path.ofLabels] at hput
        simp only [hput, Option.elim_some, Reached.map]
      · rw [Fields.adjust_of_find?_none hf, ha]
        rfl
  | _ :: _, .null | _ :: _, .bool _ | _ :: _, .num _ | _ :: _, .str _ => ⟨none, rfl, rfl⟩
  | _ :: _, .arr items => ⟨none, rfl, rfl⟩

/-- Taking away reaches the place or nothing; if it does, nothing is left there. -/
theorem cut_eq : ∀ (ls : List Label) (b : Body), ∃ o : Option (Option Body),
    b.cut (.ofLabels ls) = o.elim .nowhere .place ∧ adjust none ls (some b) = o.getD (some b)
  | [], b => ⟨some none, by cases b <;> rfl, rfl⟩
  | l :: rest, .obj fields => by
    rw [Path.ofLabels, List.map_cons, cut, adjust]
    cases hf : Fields.find? l.codes fields with
    | some a =>
      obtain ⟨o, hcut, ha⟩ := cut_eq rest a
      simp only [Path.ofLabels] at hcut
      rcases o with _ | _ | a'
      · refine ⟨none, ?_, ?_⟩
        · simp only [hcut, Option.elim_none, Reached.map]
        · rw [Fields.adjust_self hf ha]
          rfl
      · refine ⟨some (some (.obj (Fields.erase l.codes fields))), ?_, ?_⟩
        · simp only [hcut, Option.elim_some, Reached.map]
        · rw [Fields.adjust_of_find? hf, ha]
          rfl
      · refine ⟨some (some (.obj (Fields.replace l.codes a' fields))), ?_, ?_⟩
        · simp only [hcut, Option.elim_some, Reached.map]
        · rw [Fields.adjust_of_find? hf, ha]
          rfl
    | none =>
      refine ⟨none, rfl, ?_⟩
      rw [Fields.adjust_of_find?_none hf, adjust_none]
      simp
  | _ :: _, .null | _ :: _, .bool _ | _ :: _, .num _ | _ :: _, .str _ => ⟨none, rfl, rfl⟩
  | _ :: _, .arr items => ⟨none, rfl, rfl⟩

theorem change?_put (b v : Body) (ls : List Label) :
    (b.put (.ofLabels ls) v).change? b = adjust (some v) ls (some b) := by
  obtain ⟨o, hput, ha⟩ := put_eq v ls b
  rw [hput, ha]
  cases o <;> rfl

theorem change?_cut (b : Body) (h : ls ≠ []) :
    ((b.cut (.ofLabels ls)).map (·.getD .null)).change? b = adjust none ls (some b) := by
  obtain ⟨o, hcut, ha⟩ := cut_eq ls b
  have left : (adjust none ls (some b)).isSome = true := isSome_adjust b h
  rw [ha] at left
  rw [hcut, ha]
  rcases o with _ | _ | b'
  · rfl
  · cases left
  · rfl

end Body

/-! ## Words -/

namespace Label

/-- Whether a character is a letter or a digit of any script, an underscore or a hyphen. Whatever is
not ASCII counts. -/
def isWordChar (c : Char) : Bool := c.isAlphanum || c == '_' || c == '-' || decide (128 ≤ c.toNat)

/-- Whether a label is a word: letters, digits, underscores and hyphens, and at least one. -/
def isWord (l : Label) : Bool := !l.written.isEmpty && l.written.all isWordChar

/-- The characters of a word are written as they are. -/
theorem isWordChar_plain {c : Char} (h : isWordChar c = true) :
    c ≠ '\\' ∧ c ≠ '"' ∧ 32 ≤ c.toNat := by
  refine ⟨?_, ?_, Nat.not_lt.1 fun hlt => ?_⟩
  · rintro rfl
    exact absurd h (by decide)
  · rintro rfl
    exact absurd h (by decide)
  · have control : ∀ n < 32, isWordChar (Char.ofNat n) = false := by decide
    rw [← Char.ofNat_toNat c, control _ hlt] at h
    cases h

theorem codes_of_isWord {l : Label} (h : l.isWord = true) : l.codes = l.written.map Char.toNat := by
  have chars := List.all_eq_true.1 (Bool.and_eq_true_iff.1 h).2
  have unescaped : l.written.contains '\\' = false := by
    rw [Bool.eq_false_iff, Ne, List.contains_iff_mem]
    exact fun hc => (isWordChar_plain (chars _ hc)).1 rfl
  rw [codes, unescaped]
  rfl

/-- Words are told apart by how they are written. -/
theorem codes_inj {l m : Label} (hl : l.isWord = true) (hm : m.isWord = true)
    (h : l.codes = m.codes) : l = m := by
  rw [codes_of_isWord hl, codes_of_isWord hm] at h
  have written := (List.map_inj_right fun _ _ h => Char.toNat_inj.1 h).1 h
  cases l
  cases m
  exact congrArg mk written

theorem isSound_of_isWord {l : Label} (h : l.isWord = true) : l.isSound = true := by
  have chars := List.all_eq_true.1 (Bool.and_eq_true_iff.1 h).2
  have sound : ∀ cs : List Char, (∀ c ∈ cs, isWordChar c = true) → isSoundText cs = true := by
    intro cs
    induction cs with
    | nil => exact fun _ => rfl
    | cons c rest ih =>
      intro h
      obtain ⟨hc, hrest⟩ := List.forall_mem_cons.1 h
      obtain ⟨hslash, hquote, hcontrol⟩ := isWordChar_plain hc
      rw [isSoundText.eq_4 c rest (fun _ _ _ _ _ e => absurd e hslash)
        fun _ _ e => absurd e hslash]
      simp only [ih hrest, decide_eq_true hcontrol, bne_iff_ne.2 hslash, bne_iff_ne.2 hquote,
        Bool.and_self]
  exact sound _ chars

end Label

namespace Path

/-- Whether a path leads along words, and somewhere. -/
def isWords (p : Path) : Bool := !p.isEmpty && p.all fun
  | .field l => l.isWord
  | _ => false

/-- Paths of which neither leads through the other, or to the same place. -/
def Apart (p q : Path) : Prop := ¬ p <+: q ∧ ¬ q <+: p

theorem Apart.symm {p q : Path} (h : Apart p q) : Apart q p := ⟨h.2, h.1⟩

theorem isWords_ofLabels {ls : List Label} (hne : ls ≠ []) (hls : ∀ l ∈ ls, l.isWord = true) :
    (ofLabels ls).isWords = true := by
  refine Bool.and_eq_true_iff.2 ⟨?_, List.all_eq_true.2 fun s hs => ?_⟩
  · rw [ofLabels, List.isEmpty_map, Bool.not_eq_true', List.isEmpty_eq_false_iff]
    exact hne
  · obtain ⟨l, hl, rfl⟩ := List.mem_map.1 hs
    exact hls l hl

/-- A dotted text of words names the path along them. -/
theorem ofText_of_isWord {s : String}
    (h : ∀ w ∈ s.splitOn ".", Label.isWord ⟨w.toList⟩ = true) :
    ofText s = ofLabels ((s.splitOn ".").map fun w => ⟨w.toList⟩) := by
  have segments : ∀ ws : List String, (∀ w ∈ ws, Label.isWord ⟨w.toList⟩ = true) →
      ofSegments (ws.map String.toList) = ofLabels (ws.map fun w => ⟨w.toList⟩) := by
    intro ws
    induction ws with
    | nil => exact fun _ => rfl
    | cons w rest ih =>
      intro h
      obtain ⟨hw, hrest⟩ := List.forall_mem_cons.1 h
      have chars := List.all_eq_true.1 (Bool.and_eq_true_iff.1 hw).2
      have inside : ∀ c ∈ w.toList, (!endsLabel c) = true := fun c hc => by
        obtain ⟨-, hquote, hcontrol⟩ := Label.isWordChar_plain (chars c hc)
        have hnull : c ≠ '\x00' := fun e => absurd (e ▸ hcontrol) (by decide)
        rw [endsLabel, beq_eq_false_iff_ne.2 hquote, beq_eq_false_iff_ne.2 hnull]
        rfl
      have hdrop : w.toList.dropWhile (!endsLabel ·) = [] := List.dropWhile_eq_nil_iff.2 inside
      have htake : w.toList.takeWhile (!endsLabel ·) = w.toList :=
        List.takeWhile_eq_self_iff.2 inside
      rw [List.map_cons, ofSegments, hdrop, htake, ih hrest]
      rfl
  exact segments _ h

/-- A path along words is one of labels that are words. -/
theorem exists_labels {p : Path} (h : p.isWords = true) :
    ∃ ls, ls ≠ [] ∧ p = ofLabels ls ∧ ∀ l ∈ ls, l.isWord = true := by
  obtain ⟨hne, hall⟩ := Bool.and_eq_true_iff.1 h
  have labels : ∀ p : Path, (∀ s ∈ p, (match s with
      | .field l => l.isWord
      | _ => false) = true) → ∃ ls, p = ofLabels ls ∧ ∀ l ∈ ls, l.isWord = true := by
    intro p
    induction p with
    | nil => exact fun _ => ⟨[], rfl, fun _ h => nomatch h⟩
    | cons s rest ih =>
      intro h
      obtain ⟨hs, hrest⟩ := List.forall_mem_cons.1 h
      obtain ⟨ls, rfl, hls⟩ := ih hrest
      cases s with
      | field l => exact ⟨l :: ls, rfl, List.forall_mem_cons.2 ⟨hs, hls⟩⟩
      | item | itemFromEnd | badItem | malformed => cases hs
  obtain ⟨ls, rfl, hls⟩ := labels p (List.all_eq_true.1 hall)
  refine ⟨ls, ?_, rfl, hls⟩
  rintro rfl
  cases hne

variable {l m : Label} {ls ms : List Label}

theorem not_apart_nil : ¬ Apart (ofLabels []) (ofLabels ms) := fun h => h.1 List.nil_prefix

theorem Apart.ne_nil (h : Apart (ofLabels ls) (ofLabels ms)) : ls ≠ [] := by
  rintro rfl
  exact not_apart_nil h

/-- Paths are apart from where they part. -/
theorem Apart.cons (h : Apart (ofLabels (l :: ls)) (ofLabels (m :: ms))) :
    l ≠ m ∨ l = m ∧ Apart (ofLabels ls) (ofLabels ms) := by
  by_cases e : l = m
  · subst e
    refine .inr ⟨rfl, fun hp => h.1 ?_, fun hp => h.2 ?_⟩ <;>
      exact List.cons_prefix_cons.2 ⟨rfl, hp⟩
  · exact .inl e

end Path

/-! ## Looking up -/

namespace Body

variable {content : Option Body} {l m : Label} {ls ms : List Label} {b : Body}

/-- What is looked up along a path of labels from something that may be missing. -/
def lookup (o : Option Body) (ls : List Label) : Reached Body :=
  o.elim .nowhere (·.at? (.ofLabels ls))

theorem lookup_obj (fields : List (Label × Body)) (l : Label) (ls : List Label) :
    lookup (some (.obj fields)) (l :: ls) = lookup (Fields.find? l.codes fields) ls := by
  rw [lookup, Option.elim_some, Path.ofLabels, List.map_cons, at?]
  cases Fields.find? l.codes fields <;> rfl

/-- What is at a path apart from that of a change is as it was. -/
theorem lookup_adjust (hl : ∀ l ∈ ls, l.isWord = true) (hm : ∀ m ∈ ms, m.isWord = true)
    (apart : Path.Apart (.ofLabels ls) (.ofLabels ms)) (o : Option Body) :
    lookup (adjust content ls o) ms = lookup o ms := by
  induction ls generalizing ms o with
  | nil => exact absurd apart Path.not_apart_nil
  | cons l ls ih =>
    cases ms with
    | nil => exact absurd apart.symm Path.not_apart_nil
    | cons m ms =>
      obtain ⟨hl, hls⟩ := List.forall_mem_cons.1 hl
      obtain ⟨hm, hms⟩ := List.forall_mem_cons.1 hm
      match o with
      | none =>
        rw [adjust]
        cases hc : adjust content ls none with
        | none => rfl
        | some a =>
          rw [Option.map_some, lookup_obj, Fields.find?, Fields.find?]
          split
          · rename_i heq
            have tails := (apart.cons.resolve_left fun hne => hne (Label.codes_inj hl hm heq)).2
            rw [← hc, ih hls hms tails]
            rfl
          · rfl
      | some (.obj fields) =>
        rw [adjust, lookup_obj, lookup_obj]
        rcases apart.cons with hne | ⟨rfl, tails⟩
        · rw [Fields.find?_adjust_of_ne fun h => hne (Label.codes_inj hl hm h.symm)]
        · rw [Fields.find?_adjust fun a => isSome_adjust a tails.ne_nil, ih hls hms tails]
      | some .null | some (.bool _) | some (.num _) | some (.str _) | some (.arr _) => rfl

/-! ## Labels that can be read -/

/-- What is put at the end of a path into nothing nests as deep as the path is long. -/
theorem readableAt_nested {v : Body} (hv : ∀ n, v.readableAt n = true)
    (hl : ∀ l ∈ ls, l.isSound = true) (h : Body.adjust (some v) ls none = some b) (n : Nat) :
    b.readableAt n = decide (ls.length ≤ n) := by
  induction ls generalizing b n with
  | nil =>
    obtain rfl := Option.some.inj h
    exact (hv n).trans (decide_eq_true (Nat.zero_le n)).symm
  | cons l ls ih =>
    obtain ⟨hl, hls⟩ := List.forall_mem_cons.1 hl
    rw [Body.adjust, Option.map_eq_some_iff] at h
    obtain ⟨a, ha, rfl⟩ := h
    cases n with
    | zero => rfl
    | succ n =>
      rw [readableAt, fieldsReadable, fieldsReadable, hl, ih hls ha n, Bool.true_and, Bool.and_true,
        List.length_cons]
      exact decide_eq_decide.2 Nat.succ_le_succ_iff.symm

/-- A change of sound bodies along sound labels leaves a sound one. -/
theorem Sound.adjust (hl : ∀ l ∈ ls, l.isSound = true) (hc : ∀ v, content = some v → v.Sound)
    {o : Option Body} (ho : ∀ a, o = some a → a.Sound) (h : Body.adjust content ls o = some b) :
    b.Sound := by
  induction ls generalizing o b with
  | nil => exact hc b h
  | cons l ls ih =>
    obtain ⟨hl, hls⟩ := List.forall_mem_cons.1 hl
    match o with
    | none =>
      rw [Body.adjust, Option.map_eq_some_iff] at h
      obtain ⟨a, ha, rfl⟩ := h
      refine sound_obj.2 fun f hf => ?_
      obtain rfl := List.mem_singleton.1 hf
      exact ⟨hl, ih hls ho ha⟩
    | some (.obj fields) =>
      rw [Body.adjust, Option.some.injEq] at h
      subst h
      have members := sound_obj.1 (ho _ rfl)
      refine sound_obj.2 fun f hf => ?_
      rcases Fields.mem_adjust hf with hf | ⟨hname, hf⟩ | ⟨a, ha, hf⟩
      · exact members f hf
      · exact ⟨hname ▸ hl, ih (o := none) hls (fun _ h => nomatch h) hf⟩
      · refine ⟨(members _ ha).1, ih hls (fun a' h => ?_) hf⟩
        obtain rfl := Option.some.inj h
        exact (members _ ha).2
    | some .null | some (.bool _) | some (.num _) | some (.str _) | some (.arr _) =>
      exact ho b h

end Body

end FleetSync
