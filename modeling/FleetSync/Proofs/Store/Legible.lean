import FleetSync.Proofs.Store.Writing

/-!
# What the store could read

A body is sound if its labels are ones of JSON, so that the store can read it if only it does not
nest too deep (`Body.Sound`). A sound body is written for JSON already (`Body.Sound.rewritten?`),
and if it nests deeper than some levels its text has more characters than these
(`Body.Sound.lt_size_text`).
-/

namespace FleetSync

namespace Label

theorem hexValue?_plain {c : Char} (h : (Json.hexValue? c).isSome = true) :
    32 ≤ c.toNat ∧ c ≠ '\\' := by
  have small : ∀ n < 32, Json.hexValue? (Char.ofNat n) = none := by decide
  refine ⟨Nat.not_lt.1 fun hlt => ?_, ?_⟩
  · rw [← Char.ofNat_toNat c, small _ hlt] at h
    cases h
  · rintro rfl
    exact absurd h (by decide)

/-- The digits of a code unit are characters that are written as themselves. -/
theorem codeUnit?_plain {a b c d : Char} (h : (Json.codeUnit? a b c d).isSome = true) :
    ∀ x ∈ [a, b, c, d], 32 ≤ x.toNat ∧ x ≠ '\\' := by
  obtain ⟨n, hn⟩ := Option.isSome_iff_exists.1 h
  simp only [Json.codeUnit?, Option.bind_eq_bind, Option.bind_eq_some_iff] at hn
  obtain ⟨_, ha, _, hb, _, hc, _, hd, -⟩ := hn
  intro x hx
  simp only [List.mem_cons, List.not_mem_nil, or_false] at hx
  rcases hx with rfl | rfl | rfl | rfl
  all_goals exact hexValue?_plain (Option.isSome_iff_exists.2 ⟨_, ‹_›⟩)

theorem simpleEscape?_letter {c : Char} (h : (Json.simpleEscape? c).isSome = true) :
    c = '/' ∨ c ∈ ['"', '\\', 'n', 'r', 't', 'b', 'f', 'u'] := by
  unfold Json.simpleEscape? at h
  split at h
  all_goals first | exact .inr (by decide) | exact .inl rfl | cases h

theorem rewrittenText?_slash (rest : List Char) :
    rewrittenText? ('\\' :: '/' :: rest) = (rewrittenText? rest).map ('\\' :: '/' :: ·) := by
  have hline : isLineBreak '/' = false ∧ isNearLineBreak '/' = false := by decide
  rw [rewrittenText?.eq_9 '/' rest] <;>
    simp only [hline.1, hline.2, Bool.false_eq_true, if_false, Char.reduceEq, false_implies,
      implies_true]

/-- What is the inside of a string of JSON stays as it is. -/
theorem rewrittenText?_of_isSoundText {cs : List Char} (h : isSoundText cs = true) :
    rewrittenText? cs = some cs := by
  fun_induction isSoundText cs with
  | case1 => rfl
  | case2 a b c d rest ih =>
    obtain ⟨hunit, hrest⟩ := Bool.and_eq_true_iff.1 h
    have plain := codeUnit?_plain hunit
    rw [rewrittenText?_letter (by decide)]
    have char : ∀ x ∈ [a, b, c, d], ∀ cs, rewrittenText? (x :: cs) =
        (rewrittenText? cs).map (x :: ·) :=
      fun x hx cs => rewrittenText?_cons (plain x hx).1 (plain x hx).2 cs
    rw [char a (by simp), char b (by simp), char c (by simp), char d (by simp), ih hrest]
    rfl
  | case3 c rest _ ih =>
    obtain ⟨hescape, hrest⟩ := Bool.and_eq_true_iff.1 h
    rcases simpleEscape?_letter hescape with rfl | hc
    · rw [rewrittenText?_slash, ih hrest, Option.map_some]
    · rw [rewrittenText?_letter hc, ih hrest, Option.map_some]
  | case4 c rest _ _ ih =>
    simp only [Bool.and_eq_true, bne_iff_ne, ne_eq, decide_eq_true_eq] at h
    rw [rewrittenText?_cons h.1.2 h.1.1.1, ih h.2, Option.map_some]

theorem rewritten?_of_isSound {l : Label} (h : l.isSound = true) : l.rewritten? = some l := by
  rw [rewritten?, rewrittenText?_of_isSoundText h]
  rfl

end Label

namespace Body

/-- Whether a body could be read by a store that reads enough levels. -/
def Sound (b : Body) : Prop := ∃ levels, b.readableAt levels = true

mutual

/-- What can be read within some levels can be read within more. -/
theorem readableAt_mono : ∀ {b : Body} {n k : Nat}, n ≤ k → b.readableAt n = true →
    b.readableAt k = true
  | .null, _, _, _, _ | .bool _, _, _, _, _ | .num _, _, _, _, _ | .str _, _, _, _, _ => by
    rw [readableAt]
  | .arr _, 0, _, _, h | .obj _, 0, _, _, h => nomatch h
  | .arr items, n + 1, k + 1, hle, h => itemsReadable_mono (Nat.le_of_succ_le_succ hle) h
  | .obj fields, n + 1, k + 1, hle, h => fieldsReadable_mono (Nat.le_of_succ_le_succ hle) h

theorem itemsReadable_mono : ∀ {items : List Body} {n k : Nat}, n ≤ k →
    itemsReadable n items = true → itemsReadable k items = true
  | [], _, _, _, _ => rfl
  | b :: rest, _, _, hle, h => by
    obtain ⟨hb, hrest⟩ := Bool.and_eq_true_iff.1 h
    exact Bool.and_eq_true_iff.2 ⟨readableAt_mono hle hb, itemsReadable_mono hle hrest⟩

theorem fieldsReadable_mono : ∀ {fields : List (Label × Body)} {n k : Nat}, n ≤ k →
    fieldsReadable n fields = true → fieldsReadable k fields = true
  | [], _, _, _, _ => rfl
  | (l, b) :: rest, _, _, hle, h => by
    obtain ⟨hb, hrest⟩ := Bool.and_eq_true_iff.1 h
    obtain ⟨hl, hb⟩ := Bool.and_eq_true_iff.1 hb
    rw [fieldsReadable, hl, readableAt_mono hle hb, fieldsReadable_mono hle hrest]
    rfl

end

theorem fieldsReadable_iff {fields : List (Label × Body)} {n : Nat} :
    fieldsReadable n fields = true ↔
      ∀ f ∈ fields, f.1.isSound = true ∧ f.2.readableAt n = true := by
  induction fields with
  | nil => exact ⟨fun _ _ h => (nomatch h), fun _ => rfl⟩
  | cons f rest ih =>
    obtain ⟨l, b⟩ := f
    rw [fieldsReadable, Bool.and_eq_true, Bool.and_eq_true, ih, List.forall_mem_cons]

/-- An object is sound if its labels and its values are. -/
theorem sound_obj {fields : List (Label × Body)} :
    (obj fields).Sound ↔ ∀ f ∈ fields, f.1.isSound = true ∧ f.2.Sound := by
  constructor
  · rintro ⟨n, h⟩
    cases n with
    | zero => cases h
    | succ n => exact fun f hf => ((fieldsReadable_iff.1 h) f hf).imp_right fun hb => ⟨n, hb⟩
  · intro h
    have levels : ∃ n, ∀ f ∈ fields, f.1.isSound = true ∧ f.2.readableAt n = true := by
      induction fields with
      | nil => exact ⟨0, fun _ h => nomatch h⟩
      | cons f rest ih =>
        obtain ⟨⟨hl, n, hb⟩, hrest⟩ := List.forall_mem_cons.1 h
        obtain ⟨k, hk⟩ := ih hrest
        refine ⟨n + k, List.forall_mem_cons.2 ⟨⟨hl, ?_⟩, fun g hg => ?_⟩⟩
        · exact readableAt_mono (Nat.le_add_right ..) hb
        · exact (hk g hg).imp_right (readableAt_mono (Nat.le_add_left ..))
    obtain ⟨n, hn⟩ := levels
    exact ⟨n + 1, fieldsReadable_iff.2 hn⟩

/-! ## Writing sound bodies -/

mutual

/-- What can be read is written for JSON already. -/
theorem rewritten?_of_readableAt : ∀ {b : Body} {n : Nat}, b.readableAt n = true →
    b.rewritten? = some b
  | .null, _, _ | .bool _, _, _ | .num _, _, _ | .str _, _, _ => rfl
  | .arr _, 0, h | .obj _, 0, h => nomatch h
  | .arr items, n + 1, h => by rw [rewritten?, rewrittenItems?_of_readable h, Option.map_some]
  | .obj fields, n + 1, h => by rw [rewritten?, rewrittenFields?_of_readable h, Option.map_some]

theorem rewrittenItems?_of_readable : ∀ {items : List Body} {n : Nat},
    itemsReadable n items = true → rewrittenItems? items = some items
  | [], _, _ => rfl
  | b :: rest, _, h => by
    obtain ⟨hb, hrest⟩ := Bool.and_eq_true_iff.1 h
    rw [rewrittenItems?, rewritten?_of_readableAt hb, rewrittenItems?_of_readable hrest]
    rfl

theorem rewrittenFields?_of_readable : ∀ {fields : List (Label × Body)} {n : Nat},
    fieldsReadable n fields = true → rewrittenFields? fields = some fields
  | [], _, _ => rfl
  | (l, b) :: rest, _, h => by
    obtain ⟨hb, hrest⟩ := Bool.and_eq_true_iff.1 h
    obtain ⟨hl, hb⟩ := Bool.and_eq_true_iff.1 hb
    rw [rewrittenFields?, Label.rewritten?_of_isSound hl, rewritten?_of_readableAt hb,
      rewrittenFields?_of_readable hrest]
    rfl

end

theorem Sound.rewritten? {b : Body} (h : b.Sound) : b.rewritten? = some b :=
  h.elim fun _ => rewritten?_of_readableAt

theorem length_le_writeLabel (l : Label) (rest : List Char) :
    rest.length ≤ (writeLabel l rest).length := by
  simp only [writeLabel, List.length_cons, List.length_append]
  omega

mutual

/-- A body that nests deeper than some levels is written in more characters than these. -/
theorem lt_length_write : ∀ {b : Body} {n k : Nat} (rest : List Char), b.readableAt k = true →
    b.readableAt n = false → n < (b.write rest).length
  | .null, _, _, _, _, h | .bool _, _, _, _, _, h | .num _, _, _, _, _, h
  | .str _, _, _, _, _, h => nomatch h
  | .arr [], 0, _, _, _, _ => Nat.succ_pos _
  | .arr [], _ + 1, _, _, _, h => nomatch h
  | .arr (b :: items), 0, _, _, _, _ => Nat.succ_pos _
  | .arr (b :: items), n + 1, k + 1, rest, hk, h => by
    rw [write, List.length_cons]
    refine Nat.succ_lt_succ ?_
    obtain ⟨hkb, hkitems⟩ := Bool.and_eq_true_iff.1 hk
    rcases Bool.and_eq_false_iff.1 h with h | h
    · exact lt_length_write _ hkb h
    · exact Nat.lt_of_lt_of_le (lt_length_writeItems rest hkitems h) (length_le_write b _)
  | .obj [], 0, _, _, _, _ => Nat.succ_pos _
  | .obj [], _ + 1, _, _, _, h => nomatch h
  | .obj ((l, b) :: fields), 0, _, _, _, _ => Nat.succ_pos _
  | .obj ((l, b) :: fields), n + 1, k + 1, rest, hk, h => by
    rw [write, List.length_cons]
    refine Nat.succ_lt_succ ?_
    have hlabel := length_le_writeLabel l (':' :: b.write (writeFields fields rest))
    rw [List.length_cons] at hlabel
    obtain ⟨hkb, hkfields⟩ := Bool.and_eq_true_iff.1 hk
    obtain ⟨hkl, hkb⟩ := Bool.and_eq_true_iff.1 hkb
    have deeper : b.readableAt n = false ∨ fieldsReadable n fields = false := by
      rw [readableAt, fieldsReadable, hkl, Bool.true_and] at h
      exact Bool.and_eq_false_iff.1 h
    have hwrite := length_le_write b (writeFields fields rest)
    rcases deeper with h | h
    · have := lt_length_write (writeFields fields rest) hkb h
      omega
    · have := lt_length_writeFields rest hkfields h
      omega

theorem lt_length_writeItems : ∀ {items : List Body} {n k : Nat} (rest : List Char),
    itemsReadable k items = true → itemsReadable n items = false →
      n < (writeItems items rest).length
  | [], _, _, _, _, h => nomatch h
  | b :: items, n, k, rest, hk, h => by
    rw [writeItems, List.length_cons]
    obtain ⟨hkb, hkitems⟩ := Bool.and_eq_true_iff.1 hk
    have hwrite := length_le_write b (writeItems items rest)
    rcases Bool.and_eq_false_iff.1 h with h | h
    · have := lt_length_write (writeItems items rest) hkb h
      omega
    · have := lt_length_writeItems rest hkitems h
      omega

theorem lt_length_writeFields : ∀ {fields : List (Label × Body)} {n k : Nat} (rest : List Char),
    fieldsReadable k fields = true → fieldsReadable n fields = false →
      n < (writeFields fields rest).length
  | [], _, _, _, _, h => nomatch h
  | (l, b) :: fields, n, k, rest, hk, h => by
    rw [writeFields, List.length_cons]
    have hlabel := length_le_writeLabel l (':' :: b.write (writeFields fields rest))
    rw [List.length_cons] at hlabel
    obtain ⟨hkb, hkfields⟩ := Bool.and_eq_true_iff.1 hk
    obtain ⟨hkl, hkb⟩ := Bool.and_eq_true_iff.1 hkb
    have hwrite := length_le_write b (writeFields fields rest)
    rw [fieldsReadable, hkl, Bool.true_and] at h
    rcases Bool.and_eq_false_iff.1 h with h | h
    · have := lt_length_write (writeFields fields rest) hkb h
      omega
    · have := lt_length_writeFields rest hkfields h
      omega

end

theorem Sound.lt_size_text {b : Body} (h : b.Sound) {n : Nat} (deep : b.readableAt n = false) :
    n < b.text.utf8ByteSize := by
  obtain ⟨k, hk⟩ := h
  exact Nat.lt_of_lt_of_le (Body.lt_length_write [] hk deep) (String.length_le_utf8ByteSize _)

end Body

end FleetSync
