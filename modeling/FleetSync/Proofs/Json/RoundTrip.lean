import FleetSync.Proofs.Store.FieldName

/-!
# Reading what was written

The text of a value says that value if all numbers in it are integers of the 64-bit ranges
(`Json.Node.ofText?_text`), and so do its bytes (`Json.Node.ofBytes?_bytes`). In between are the
tokens of the value (`Json.tokens`): its text is split into these (`Json.lexes_write`), and these
are assembled to the value again (`Json.build_tokens`).
-/

namespace FleetSync.Json

mutual

/-- Whether all numbers in a value are integers of the 64-bit ranges. -/
def isIntegral : Json → Bool
  | .null | .bool _ | .str _ => true
  | .num (.int i) => decide (-(Nat.pow 2 63 : Int) ≤ i ∧ i < (Nat.pow 2 64 : Int))
  | .num (.float _) => false
  | .arr items => itemsIntegral items
  | .obj fields => fieldsIntegral fields

/-- `isIntegral` on the items of an array. -/
def itemsIntegral : List Json → Bool
  | [] => true
  | j :: rest => j.isIntegral && itemsIntegral rest

/-- `isIntegral` on the values of an object. -/
def fieldsIntegral : List (String × Json) → Bool
  | [] => true
  | (_, j) :: rest => j.isIntegral && fieldsIntegral rest

end

mutual

/-- Puts the tokens of a value before others. -/
def tokens : Json → List Token → List Token
  | .null, rest => .scalar .null :: rest
  | .bool b, rest => .scalar (.bool b) :: rest
  | .num n, rest => .scalar (.num (some n)) :: rest
  | .str s, rest => .scalar (.str (some s)) :: rest
  | .arr [], rest => .openArray :: .closeArray :: rest
  | .arr (j :: items), rest => .openArray :: j.tokens (itemTokens items rest)
  | .obj [], rest => .openObject :: .closeObject :: rest
  | .obj ((k, j) :: fields), rest =>
    .openObject :: .scalar (.str (some k)) :: .colon :: j.tokens (fieldTokens fields rest)

/-- The tokens of the further items of an array, of its end and `rest`. -/
def itemTokens : List Json → List Token → List Token
  | [], rest => .closeArray :: rest
  | j :: items, rest => .comma :: j.tokens (itemTokens items rest)

/-- The tokens of the further fields of an object, of its end and `rest`. -/
def fieldTokens : List (String × Json) → List Token → List Token
  | [], rest => .closeObject :: rest
  | (k, j) :: fields, rest =>
    .comma :: .scalar (.str (some k)) :: .colon :: j.tokens (fieldTokens fields rest)

end

/-! ## Splitting -/

/-- Whether a text is split into some tokens. -/
def Lexes (input : List Glyph) (ts : List Token) : Prop :=
  ∀ fuel acc, input.length ≤ fuel → lexAll fuel input acc = some (ts.reverse ++ acc)

variable {input rest : List Glyph} {ts : List Token} {c : Char} {n : Node}

theorem Lexes.nil : Lexes [] [] := fun fuel _ _ => by cases fuel <;> rfl

theorem isBlank_of_mark? {t : Token} (h : mark? c = some t) : isBlank c = false := by
  unfold mark? at h
  split at h
  all_goals first | rfl | cases h

theorem Lexes.mark {t : Token} (hm : mark? c = some t) (h : Lexes rest ts) :
    Lexes (some c :: rest) (t :: ts) := by
  intro fuel acc hf
  cases fuel with
  | zero => cases hf
  | succ fuel =>
    have blank : ¬ isBlank c = true := by rw [isBlank_of_mark? hm]; decide
    rw [lexAll, if_neg blank, hm]
    refine (h fuel (t :: acc) (Nat.le_of_succ_le_succ hf)).trans ?_
    rw [List.reverse_cons, List.append_assoc, List.singleton_append]

theorem Lexes.scalar (hb : isBlank c = false) (hm : mark? c = none)
    (hs : lexScalar (some c :: input) = some (n, rest)) (hlen : rest.length ≤ input.length)
    (h : Lexes rest ts) : Lexes (some c :: input) (.scalar n :: ts) := by
  intro fuel acc hf
  cases fuel with
  | zero => cases hf
  | succ fuel =>
    rw [lexAll, if_neg (by rw [hb]; decide), hm]
    simp only [hs]
    rw [h fuel _ (Nat.le_trans hlen (Nat.le_of_succ_le_succ hf)), List.reverse_cons,
      List.append_assoc, List.singleton_append]

/-! ### Strings -/

theorem writeString_eq (s : String) (rest : List Char) :
    writeString s rest = '"' :: (s.toList.flatMap escapeChar ++ '"' :: rest) := by
  have chars : ∀ cs : List Char, cs.foldr (fun c r => escapeChar c ++ r) ('"' :: rest) =
      cs.flatMap escapeChar ++ '"' :: rest := by
    intro cs
    induction cs with
    | nil => rfl
    | cons c cs ih => rw [List.foldr_cons, ih, List.flatMap_cons, List.append_assoc]
  rw [writeString, chars]

theorem Lexes.string (s : String) {rest : List Char} (h : Lexes (rest.map some) ts) :
    Lexes ((writeString s rest).map some) (.scalar (.str (some s)) :: ts) := by
  rw [writeString_eq, List.map_cons]
  refine Lexes.scalar rfl rfl ?_ ?_ h
  · rw [lexScalar, List.map_append, List.map_cons, Label.lexPieces_flatMap]
    simp only [Option.bind_eq_bind, Option.bind_some, List.append_nil, Label.piecesText?_reverse,
      Option.map_some, String.ofList_toList, Option.pure_def]
  · simp only [List.length_map, List.length_append, List.length_cons]
    omega

theorem Lexes.field (k : String) {rest : List Char} (h : Lexes (rest.map some) ts) :
    Lexes ((writeString k (':' :: rest)).map some) (.scalar (.str (some k)) :: .colon :: ts) :=
  have value : Lexes ((':' :: rest).map some) (.colon :: ts) := h.mark rfl
  Lexes.string k value

/-! ### Integers -/

/-- Whether a text goes on as one does after an item or a field. -/
def Ends (rest : List Char) : Prop := ∀ c ∈ rest.head?, c = ',' ∨ c = ']' ∨ c = '}'

theorem lexDigits_append {ds rest : List Char} (digits : ∀ c ∈ ds, c.isDigit = true)
    (ends : Ends rest) (acc : List Char) :
    lexDigits ((ds ++ rest).map some) acc = (acc.reverse ++ ds, rest.map some) := by
  induction ds generalizing acc with
  | nil =>
    rw [List.nil_append, List.append_nil]
    cases rest with
    | nil => rfl
    | cons c rest =>
      have hc : ¬ c.isDigit = true := by
        rcases ends c rfl with rfl | rfl | rfl <;> decide
      rw [List.map_cons, lexDigits, if_neg hc]
  | cons c ds ih =>
    obtain ⟨hc, hds⟩ := List.forall_mem_cons.1 digits
    rw [List.cons_append, List.map_cons, lexDigits, if_pos hc, ih hds, List.reverse_cons,
      List.append_assoc, List.singleton_append]

/-- Only zero starts with a zero. -/
theorem head?_toDigits_ne {n : Nat} (h : 0 < n) : (Nat.toDigits 10 n).head? ≠ some '0' := by
  induction n using Nat.strongRecOn with
  | ind n ih =>
    rw [Nat.toDigits_eq_if (by decide)]
    split
    · rename_i hn
      have digits : ∀ n < 10, 0 < n → [n.digitChar].head? ≠ some '0' := by decide
      exact digits n hn h
    · obtain ⟨d, ds, hd⟩ := List.exists_cons_of_ne_nil (Nat.toDigits_ne_nil (n := n / 10) (b := 10))
      have head := ih (n / 10) (by omega) (by omega)
      rw [hd] at head ⊢
      exact head

theorem lexMagnitude_toDigits (negative : Bool) (n : Nat) {rest : List Char} (ends : Ends rest) :
    lexMagnitude negative ((Nat.toDigits 10 n ++ rest).map some) =
      some (⟨negative, Nat.toDigits 10 n, [], none⟩, rest.map some) := by
  have digits := lexDigits_append
    (fun c hc => Nat.isDigit_of_mem_toDigits (b := 10) (n := n) (by decide) (by decide) hc) ends []
  have some : lexSomeDigits ((Nat.toDigits 10 n ++ rest).map some) =
      some (Nat.toDigits 10 n, rest.map .some) := by
    rw [lexSomeDigits, digits, List.reverse_nil, List.nil_append]
    exact if_neg (by rw [List.isEmpty_iff]; exact Nat.toDigits_ne_nil)
  have alone : ¬ ((Nat.toDigits 10 n).head? == .some '0' && (Nat.toDigits 10 n).length != 1) =
      true := by
    rcases Nat.eq_zero_or_pos n with rfl | hn
    · decide
    · rw [beq_eq_false_iff_ne.2 (head?_toDigits_ne hn)]
      exact Bool.false_ne_true
  have fraction : lexFraction (rest.map .some) = .some ([], rest.map .some) := by
    cases rest with
    | nil => rfl
    | cons c rest => rcases ends c rfl with rfl | rfl | rfl <;> rfl
  have exponent : lexExponent (rest.map .some) = .some (none, rest.map .some) := by
    cases rest with
    | nil => rfl
    | cons c rest => rcases ends c rfl with rfl | rfl | rfl <;> rfl
  rw [lexMagnitude, some]
  simp only [Option.bind_eq_bind, Option.bind_some, if_neg alone, fraction, exponent,
    Option.pure_def]

theorem takeDigits_eq {ds : List Char} {m : Nat}
    (h : Nat.ofDigitChars 10 ds m < significandBound) :
    takeDigits m ds = (Nat.ofDigitChars 10 ds m, []) := by
  induction ds generalizing m with
  | nil => rfl
  | cons c ds ih =>
    rw [Nat.ofDigitChars_cons] at h ⊢
    have grows : 10 * m + (c.toNat - '0'.toNat) ≤
        Nat.ofDigitChars 10 ds (10 * m + (c.toNat - '0'.toNat)) := by
      rw [Nat.ofDigitChars_eq_ofDigitChars_zero]
      exact Nat.le_add_right_of_le (Nat.le_mul_of_pos_left _ (Nat.pow_pos (by decide)))
    rw [takeDigits, Nat.mul_comm m 10, if_pos (Nat.lt_of_le_of_lt grows h), ih h]

theorem takeDigits_toDigits {n : Nat} (h : n < significandBound) :
    takeDigits 0 (Nat.toDigits 10 n) = (n, []) := by
  have hn := Nat.ofDigitChars_ten_toDigits (n := n)
  rw [takeDigits_eq (hn.symm ▸ h), hn]

/-- An integer of the 64-bit ranges is read from its digits. -/
theorem lexLiteral_intText {i : Int}
    (hi : -(Nat.pow 2 63 : Int) ≤ i ∧ i < (Nat.pow 2 64 : Int)) {rest : List Char}
    (ends : Ends rest) : ∃ l : Literal,
      lexLiteral ((intText i ++ rest).map some) = some (l, rest.map some) ∧
        l.number? = some (.int i) := by
  have h63 : Nat.pow 2 63 = 9223372036854775808 := rfl
  have h64 : Nat.pow 2 64 = 18446744073709551616 := rfl
  rw [h63, h64] at hi
  have bound : i.natAbs < significandBound := by
    rw [significandBound, h64]
    omega
  have taken := takeDigits_toDigits bound
  rw [intText]
  split
  · rename_i neg
    refine ⟨⟨true, Nat.toDigits 10 i.natAbs, [], none⟩, lexMagnitude_toDigits true _ ends, ?_⟩
    have small : ¬ (i.natAbs = 0 ∨ Nat.pow 2 63 < i.natAbs) := by
      rw [h63]
      omega
    have hneg : -(i.natAbs : Int) = i := by omega
    simp only [Literal.number?, taken, List.isEmpty_nil, Option.isNone_none, and_self, if_true,
      Bool.not_true, Bool.false_eq_true, if_false, if_neg small, hneg]
  · rename_i pos
    have unsigned : lexLiteral ((Nat.toDigits 10 i.natAbs ++ rest).map some) =
        lexMagnitude false ((Nat.toDigits 10 i.natAbs ++ rest).map some) := by
      refine lexLiteral.eq_2 _ fun cs hcs => ?_
      obtain ⟨d, ds, hd⟩ :=
        List.exists_cons_of_ne_nil (Nat.toDigits_ne_nil (n := i.natAbs) (b := 10))
      have digit := Nat.isDigit_of_mem_toDigits (b := 10) (n := i.natAbs) (by decide) (by decide)
        (hd ▸ List.mem_cons_self ..)
      rw [hd] at hcs
      obtain rfl := Option.some.inj (List.cons.inj hcs).1
      exact absurd digit (by decide)
    refine ⟨⟨false, Nat.toDigits 10 i.natAbs, [], none⟩,
      unsigned.trans (lexMagnitude_toDigits false _ ends), ?_⟩
    have hpos : (i.natAbs : Int) = i := by omega
    simp only [Literal.number?, taken, List.isEmpty_nil, Option.isNone_none, and_self, if_true,
      Bool.not_false, hpos]

/-! ### Values -/

theorem plain_of_isDigit (h : c.isDigit = true) :
    isBlank c = false ∧ (mark? c).isNone = true ∧ c ≠ '"' ∧ c ≠ 'n' ∧ c ≠ 't' ∧ c ≠ 'f' := by
  have digits : ∀ n < 58, (Char.ofNat n).isDigit = true → isBlank (Char.ofNat n) = false ∧
      (mark? (Char.ofNat n)).isNone = true ∧ Char.ofNat n ≠ '"' ∧ Char.ofNat n ≠ 'n' ∧
      Char.ofNat n ≠ 't' ∧ Char.ofNat n ≠ 'f' := by
    decide
  have hle : c.val ≤ '9'.val := of_decide_eq_true (Bool.and_eq_true_iff.1 h).2
  have hlt : c.toNat < 58 := Nat.lt_succ_of_le (UInt32.le_iff_toNat_le.1 hle)
  have hc := digits c.toNat hlt
  rw [Char.ofNat_toNat] at hc
  exact hc h

theorem Lexes.int {i : Int} (hi : -(Nat.pow 2 63 : Int) ≤ i ∧ i < (Nat.pow 2 64 : Int))
    {rest : List Char} (ends : Ends rest) (h : Lexes (rest.map some) ts) :
    Lexes ((intText i ++ rest).map some) (.scalar (.num (some (.int i))) :: ts) := by
  obtain ⟨l, hl, hnumber⟩ := lexLiteral_intText hi ends
  obtain ⟨d, ds, hd, hstart⟩ : ∃ d ds, intText i = d :: ds ∧ (d = '-' ∨ d.isDigit = true) := by
    rw [intText]
    split
    · exact ⟨_, _, rfl, .inl rfl⟩
    · obtain ⟨d, ds, hd⟩ :=
        List.exists_cons_of_ne_nil (Nat.toDigits_ne_nil (n := i.natAbs) (b := 10))
      refine ⟨d, ds, hd, .inr ?_⟩
      exact Nat.isDigit_of_mem_toDigits (b := 10) (n := i.natAbs) (by decide) (by decide)
        (hd ▸ List.mem_cons_self ..)
  have plain : isBlank d = false ∧ (mark? d).isNone = true ∧
      d ≠ '"' ∧ d ≠ 'n' ∧ d ≠ 't' ∧ d ≠ 'f' := by
    rcases hstart with rfl | hdigit
    · decide
    · exact plain_of_isDigit hdigit
  obtain ⟨hblank, hmark, hquote, hn, ht, hf⟩ := plain
  rw [hd, List.cons_append, List.map_cons] at hl ⊢
  refine Lexes.scalar hblank (Option.isNone_iff_eq_none.1 hmark) ?_ ?_ h
  · rw [lexScalar.eq_5]
    · simp only [hl, Option.bind_eq_bind, Option.bind_some, hnumber, Option.pure_def]
    · exact fun _ e => hquote (Option.some.inj (List.cons.inj e).1)
    · exact fun _ e => hn (Option.some.inj (List.cons.inj e).1)
    · exact fun _ e => ht (Option.some.inj (List.cons.inj e).1)
    · exact fun _ e => hf (Option.some.inj (List.cons.inj e).1)
  · simp only [List.length_map, List.length_append]
    omega

/-! ### Values -/

theorem ends_writeItems : ∀ (items : List Json) (rest : List Char), Ends (writeItems items rest)
  | [], _ | _ :: _, _ => by simp [Ends, writeItems]

theorem ends_writeFields : ∀ (fields : List (String × Json)) (rest : List Char),
    Ends (writeFields fields rest)
  | [], _ | (_, _) :: _, _ => by simp [Ends, writeFields]

mutual

/-- The text of a value is split into its tokens. -/
theorem lexes_write : ∀ {j : Json} {rest : List Char} {ts : List Token}, j.isIntegral = true →
    Ends rest → Lexes (rest.map some) ts → Lexes ((j.write rest).map some) (j.tokens ts)
  | .null, rest, _, _, _, h => by
    have scalar : lexScalar (('n' :: 'u' :: 'l' :: 'l' :: rest).map some) =
        some (.null, rest.map some) := rfl
    refine Lexes.scalar (c := 'n') rfl rfl scalar ?_ h
    simp only [List.length_map, List.length_cons]
    omega
  | .bool true, rest, _, _, _, h => by
    have scalar : lexScalar (('t' :: 'r' :: 'u' :: 'e' :: rest).map some) =
        some (.bool true, rest.map some) := rfl
    refine Lexes.scalar (c := 't') rfl rfl scalar ?_ h
    simp only [List.length_map, List.length_cons]
    omega
  | .bool false, rest, _, _, _, h => by
    have scalar : lexScalar (('f' :: 'a' :: 'l' :: 's' :: 'e' :: rest).map some) =
        some (.bool false, rest.map some) := rfl
    refine Lexes.scalar (c := 'f') rfl rfl scalar ?_ h
    simp only [List.length_map, List.length_cons]
    omega
  | .num (.int i), _, _, hi, ends, h => Lexes.int (of_decide_eq_true hi) ends h
  | .str s, _, _, _, _, h => Lexes.string s h
  | .arr [], _, _, _, _, h => (h.mark rfl).mark rfl
  | .arr (j :: items), rest, _, hj, ends, h => by
    obtain ⟨hj, hitems⟩ := Bool.and_eq_true_iff.1 hj
    exact (lexes_write hj (ends_writeItems items rest) (lexes_writeItems hitems h)).mark rfl
  | .obj [], _, _, _, _, h => (h.mark rfl).mark rfl
  | .obj ((k, j) :: fields), rest, _, hj, ends, h => by
    obtain ⟨hj, hfields⟩ := Bool.and_eq_true_iff.1 hj
    have value := lexes_write hj (ends_writeFields fields rest) (lexes_writeFields hfields h)
    exact (value.field k).mark rfl

theorem lexes_writeItems : ∀ {items : List Json} {rest : List Char} {ts : List Token},
    itemsIntegral items = true → Lexes (rest.map some) ts →
    Lexes ((writeItems items rest).map some) (itemTokens items ts)
  | [], _, _, _, h => h.mark rfl
  | j :: items, rest, _, hj, h => by
    obtain ⟨hj, hitems⟩ := Bool.and_eq_true_iff.1 hj
    exact (lexes_write hj (ends_writeItems items rest) (lexes_writeItems hitems h)).mark rfl

theorem lexes_writeFields : ∀ {fields : List (String × Json)} {rest : List Char} {ts : List Token},
    fieldsIntegral fields = true → Lexes (rest.map some) ts →
    Lexes ((writeFields fields rest).map some) (fieldTokens fields ts)
  | [], _, _, _, h => h.mark rfl
  | (k, j) :: fields, rest, _, hj, h => by
    obtain ⟨hj, hfields⟩ := Bool.and_eq_true_iff.1 hj
    have value := lexes_write hj (ends_writeFields fields rest) (lexes_writeFields hfields h)
    exact (value.field k).mark rfl

end

theorem lex_write {j : Json} (h : j.isIntegral = true) :
    lex ((j.write []).map some) = some (j.tokens []) := by
  have ends : Ends [] := fun _ h => nomatch h
  have all := lexes_write h ends Lexes.nil _ [] (Nat.le_refl _)
  rw [lex, all, Option.map_some, List.append_nil, List.reverse_reverse]

/-! ## Assembling -/

theorem build_cons {t : Token} {state state' : List Open × Expect}
    (h : advance state t = some state') (ts : List Token) :
    build (t :: ts) state = build ts state' := by
  rw [build, h]

/-- A token that does not close an array starts a value wherever one may start. -/
theorem advance_start {t : Token} {e : Expect} (he : e = .value ∨ e = .valueOrClose)
    (ht : t ≠ .closeArray) (stack : List Open) : advance (stack, e) t = startValue stack t := by
  rcases he with rfl | rfl
  · rfl
  · cases stack with
    | nil => rfl
    | cons o stack =>
      cases o with
      | object => rfl
      | array =>
        cases t with
        | closeArray => exact absurd rfl ht
        | _ => rfl

mutual

/-- The tokens of a value are assembled to it. -/
theorem build_tokens : ∀ (j : Json) (ts : List Token) (stack : List Open) {e : Expect},
    e = .value ∨ e = .valueOrClose →
    build (j.tokens ts) (stack, e) = build ts (complete j.toNode stack)
  | .null, ts, stack, _, he => build_cons (advance_start he (by simp) stack) ts
  | .bool _, ts, stack, _, he => build_cons (advance_start he (by simp) stack) ts
  | .num _, ts, stack, _, he => build_cons (advance_start he (by simp) stack) ts
  | .str _, ts, stack, _, he => build_cons (advance_start he (by simp) stack) ts
  | .arr [], ts, stack, _, he => by
    refine (build_cons (advance_start he (by simp) stack) _).trans ?_
    rfl
  | .arr (j :: items), ts, stack, _, he => by
    refine (build_cons (advance_start he (by simp) stack) _).trans ?_
    rw [build_tokens j _ _ (.inr rfl)]
    exact build_itemTokens items ts stack [j.toNode]
  | .obj [], ts, stack, _, he => by
    refine (build_cons (advance_start he (by simp) stack) _).trans ?_
    rfl
  | .obj ((k, j) :: fields), ts, stack, _, he => by
    refine (build_cons (advance_start he (by simp) stack) _).trans ?_
    refine (build_tokens j (fieldTokens fields ts) (.object [] (some k) :: stack)
      (.inl rfl)).trans ?_
    exact build_fieldTokens fields ts stack [(some k, j.toNode)]

theorem build_itemTokens : ∀ (items : List Json) (ts : List Token) (stack : List Open)
    (done : List Node), build (itemTokens items ts) (.array done :: stack, .commaOrClose) =
      build ts (complete (.arr (done.reverse ++ itemNodes items)) stack)
  | [], ts, stack, done => by
    rw [itemNodes, List.append_nil]
    rfl
  | j :: items, ts, stack, done => by
    refine (build_tokens j (itemTokens items ts) (.array done :: stack) (.inl rfl)).trans ?_
    refine (build_itemTokens items ts stack (j.toNode :: done)).trans ?_
    rw [List.reverse_cons, List.append_assoc, List.singleton_append, itemNodes]

theorem build_fieldTokens : ∀ (fields : List (String × Json)) (ts : List Token)
    (stack : List Open) (done : List (Option String × Node)),
    build (fieldTokens fields ts) (.object done none :: stack, .commaOrClose) =
      build ts (complete (.obj (done.reverse ++ fieldNodes fields)) stack)
  | [], ts, stack, done => by
    rw [fieldNodes, List.append_nil]
    rfl
  | (k, j) :: fields, ts, stack, done => by
    refine (build_tokens j (fieldTokens fields ts) (.object done (some k) :: stack)
      (.inl rfl)).trans ?_
    refine (build_fieldTokens fields ts stack ((some k, j.toNode) :: done)).trans ?_
    rw [List.reverse_cons, List.append_assoc, List.singleton_append, fieldNodes]

end

/-! ## Reading -/

variable {j : Json}

theorem read_write (h : j.isIntegral = true) : read ((j.write []).map some) = some j.toNode := by
  rw [read, lex_write h, Option.bind_eq_bind, Option.bind_some, build_tokens j [] [] (.inl rfl)]
  rfl

/-- The text of a value says that value. -/
theorem Node.ofText?_text (h : j.isIntegral = true) : Node.ofText? j.text = some j.toNode := by
  rw [ofText?, text, String.toList_ofList, read_write h]

/-- The bytes of a value say that value. -/
theorem Node.ofBytes?_bytes (h : j.isIntegral = true) : Node.ofBytes? j.bytes = some j.toNode := by
  have valid : String.fromUTF8? j.bytes = some j.text := by
    rw [bytes_eq, String.fromUTF8?]
    exact dif_pos j.text.isValidUTF8
  rw [ofBytes?, valid]
  exact ofText?_text h

end FleetSync.Json
