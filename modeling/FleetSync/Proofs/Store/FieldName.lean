import FleetSync.Proofs.Store.Record

/-!
# Names of fields

The label of a name reads as that name (`Label.name?_ofName`), so labels tell names apart
(`Label.ofName_inj`). A name of small letters and underscores is written as it is; sorted names of
that form are stored in their order and told apart (`FieldNames.of_sorted`), and so are such names
once they are sorted (`FieldNames.sortNames`).
-/

namespace FleetSync

namespace Fields

variable {α : Type}

theorem insert_of_last {fields : List (String × α)} {k : String} {v : α}
    (h : ∀ p ∈ fields, p.1 < k) : insert k v fields = fields ++ [(k, v)] := by
  induction fields with
  | nil => rfl
  | cons p rest ih =>
    obtain ⟨k', v'⟩ := p
    have hlt : k' < k := h (k', v') (List.mem_cons_self ..)
    have hnot : ¬ k < k' := fun h' => String.lt_irrefl _ (String.lt_trans hlt h')
    have hne : ¬ k = k' := fun e => String.lt_irrefl _ (e ▸ hlt)
    rw [insert, if_neg hnot, if_neg hne, ih fun q hq => h q (List.mem_cons_of_mem _ hq),
      List.cons_append]

/-- Sorted fields stay in their order. -/
theorem ofList_of_sorted {fields : List (String × α)} (h : Sorted fields) :
    ofList fields = fields := by
  have foldl : ∀ (fields acc : List (String × α)), Sorted (acc ++ fields) →
      fields.foldl (fun acc p => insert p.1 p.2 acc) acc = acc ++ fields := by
    intro fields
    induction fields with
    | nil => exact fun acc _ => (List.append_nil acc).symm
    | cons p rest ih =>
      intro acc h
      have hlast : ∀ q ∈ acc, q.1 < p.1 := fun q hq =>
        (List.pairwise_append.1 h).2.2 q hq p (List.mem_cons_self ..)
      rw [List.foldl_cons, insert_of_last hlast, ih]
      · rw [List.append_assoc, List.singleton_append]
      · rwa [List.append_assoc, List.singleton_append]
  exact foldl fields [] h

theorem mem_ofList {fields : List (String × α)} {p : String × α} (h : p ∈ ofList fields) :
    p ∈ fields := by
  have foldl : ∀ (fields acc : List (String × α)),
      p ∈ fields.foldl (fun acc p => insert p.1 p.2 acc) acc → p ∈ fields ∨ p ∈ acc := by
    intro fields
    induction fields with
    | nil => exact fun _ h => .inr h
    | cons q rest ih =>
      intro acc hp
      rcases ih _ hp with hp | hp
      · exact .inl (List.mem_cons_of_mem _ hp)
      · exact (mem_insert hp).imp_left fun e => List.mem_cons.2 (.inl e)
  exact (foldl fields [] h).resolve_right List.not_mem_nil

theorem key_mem_insert {k : String} {v : α} {fields : List (String × α)} {n : String}
    (h : n = k ∨ n ∈ fields.map (·.1)) : n ∈ (insert k v fields).map (·.1) := by
  induction fields with
  | nil => simpa [insert] using h
  | cons q rest ih =>
    obtain ⟨k', v'⟩ := q
    rw [insert]
    split
    · simpa using h
    split
    · rename_i heq
      simpa [heq] using h
    · rw [List.map_cons, List.mem_cons] at h ⊢
      rcases h with h | h | h
      · exact .inr (ih (.inl h))
      · exact .inl h
      · exact .inr (ih (.inr h))

/-- No key gets lost. -/
theorem key_mem_ofList {fields : List (String × α)} {n : String} (h : n ∈ fields.map (·.1)) :
    n ∈ (ofList fields).map (·.1) := by
  have foldl : ∀ (fields acc : List (String × α)), n ∈ fields.map (·.1) ∨ n ∈ acc.map (·.1) →
      n ∈ (fields.foldl (fun acc p => insert p.1 p.2 acc) acc).map (·.1) := by
    intro fields
    induction fields with
    | nil => exact fun acc h => h.resolve_left List.not_mem_nil
    | cons q rest ih =>
      intro acc h
      rw [List.map_cons, List.mem_cons] at h
      refine ih _ ?_
      rcases h with (h | h) | h
      · exact .inr (key_mem_insert (.inl h))
      · exact .inl h
      · exact .inr (key_mem_insert (.inr h))
  exact foldl fields [] (.inl h)

end Fields

namespace Label

open Json

theorem codeUnit?_control : ∀ n < 32, codeUnit? '0' '0' (hexDigit (n / 16)) (hexDigit n) = some n ∧
    Piece.ofUnit n = .char (Char.ofNat n) := by
  decide

/-- An escaped character reads as that character. -/
theorem lexPieces_escapeChar (c : Char) (rest : List Glyph) (acc : List Piece) :
    lexPieces ((escapeChar c).map some ++ rest) acc = lexPieces rest (.char c :: acc) := by
  unfold escapeChar
  split_ifs with h1 h2 h3 h4 h5 h6 h7 h8
  · rw [h1]; rfl
  · rw [h2]; rfl
  · rw [h3]; rfl
  · rw [h4]; rfl
  · rw [h5]; rfl
  · rw [h6]; rfl
  · rw [h7]; rfl
  · obtain ⟨hunit, hchar⟩ := codeUnit?_control _ h8
    rw [Char.ofNat_toNat] at hchar
    simp only [List.map_cons, List.map_nil, List.cons_append, List.nil_append, lexPieces, hunit,
      hchar]
  · rw [List.map_cons, List.map_nil, List.singleton_append, lexPieces.eq_6]
    · exact if_neg (not_or.2 ⟨h2, h8⟩)
    · exact h1
    · exact fun _ _ _ _ _ _ => h2
    · exact fun _ _ _ => h2

/-- A quoted text reads as its characters. -/
theorem lexPieces_flatMap (cs : List Char) (rest : List Glyph) (acc : List Piece) :
    lexPieces ((cs.flatMap escapeChar).map some ++ some '"' :: rest) acc =
      some ((cs.map Piece.char).reverse ++ acc, rest) := by
  induction cs generalizing acc with
  | nil => rfl
  | cons c cs ih =>
    rw [List.flatMap_cons, List.map_append, List.append_assoc, lexPieces_escapeChar, ih]
    simp

/-- Pieces that are characters are the text of these. -/
theorem piecesText?_reverse (cs : List Char) :
    piecesText? (cs.map Piece.char).reverse [] = some cs := by
  have texts : ∀ cs acc : List Char,
      piecesText? (cs.map Piece.char) acc = some (cs.reverse ++ acc) := by
    intro cs
    induction cs with
    | nil => exact fun _ => rfl
    | cons c rest ih =>
      intro acc
      rw [List.map_cons, piecesText?, ih, List.reverse_cons, List.append_assoc,
        List.singleton_append]
  rw [← List.map_reverse, texts, List.reverse_reverse, List.append_nil]

/-- A name is told from its label. -/
theorem ofName_inj {s t : String} (h : ofName s = ofName t) : s = t := by
  have hs := lexPieces_flatMap s.toList [] []
  have ht := lexPieces_flatMap t.toList [] []
  rw [ofName, ofName, Label.mk.injEq] at h
  rw [h, ht] at hs
  simp only [List.append_nil, Option.some.injEq, Prod.mk.injEq, and_true,
    List.reverse_inj] at hs
  exact String.toList_inj.1 ((List.map_inj_right fun _ _ h => Piece.char.inj h).1 hs).symm

/-- A label reads as its name. -/
theorem name?_ofName (s : String) : (ofName s).name? = some s := by
  rw [name?, ofName, lexPieces_flatMap, List.append_nil]
  simp only [Option.bind_eq_bind, Option.bind_some, piecesText?_reverse, Option.pure_def,
    String.ofList_toList]

/-- Whether a name is made of small letters and underscores. -/
def isPlainName (s : String) : Bool := s.toList.all fun c => c.isLower || c == '_'

theorem escapeChar_of_plain {c : Char} (h : (c.isLower || c == '_') = true) :
    escapeChar c = [c] ∧ c ≠ '\\' := by
  have hle : 95 ≤ c.toNat := by
    rw [Bool.or_eq_true, beq_iff_eq] at h
    rcases h with h | rfl
    · have small : 'a'.val ≤ c.val := of_decide_eq_true (Bool.and_eq_true_iff.1 h).1
      exact Nat.le_trans (by decide) (UInt32.le_iff_toNat_le.1 small)
    · decide
  have other : ∀ d : Char, d.toNat < 95 → c ≠ d := by
    rintro d hd rfl
    omega
  refine ⟨?_, other _ (by decide)⟩
  unfold escapeChar
  split_ifs with h₁ h₂ h₃ h₄ h₅ h₆ h₇ h₈
  · exact absurd h₁ (other _ (by decide))
  · exact absurd h₂ (other _ (by decide))
  · exact absurd h₃ (other _ (by decide))
  · exact absurd h₄ (other _ (by decide))
  · exact absurd h₅ (other _ (by decide))
  · exact absurd h₆ (other _ (by decide))
  · exact absurd h₇ (other _ (by decide))
  · omega
  · rfl

/-- A plain name is written as it is, and its characters are its code points. -/
theorem ofName_of_isPlainName {s : String} (h : isPlainName s = true) :
    ofName s = ⟨s.toList⟩ ∧ codes ⟨s.toList⟩ = s.toList.map Char.toNat := by
  have plain : ∀ c ∈ s.toList, escapeChar c = [c] ∧ c ≠ '\\' :=
    fun c hc => escapeChar_of_plain (List.all_eq_true.1 h c hc)
  have written : ∀ cs : List Char, (∀ c ∈ cs, escapeChar c = [c]) → cs.flatMap escapeChar = cs := by
    intro cs
    induction cs with
    | nil => exact fun _ => rfl
    | cons c rest ih =>
      intro h
      rw [List.flatMap_cons, h c (List.mem_cons_self ..),
        ih fun d hd => h d (List.mem_cons_of_mem _ hd), List.singleton_append]
  have unescaped : s.toList.contains '\\' = false := by
    rw [Bool.eq_false_iff, Ne, List.contains_iff_mem]
    exact fun hc => (plain _ hc).2 rfl
  refine ⟨congrArg mk (written _ fun c hc => (plain c hc).1), ?_⟩
  rw [codes, unescaped]
  rfl

end Label

namespace Json

theorem mem_of_mem_sortNames {names : List String} {n : String} (h : n ∈ sortNames names) :
    n ∈ names := by
  obtain ⟨p, hp, rfl⟩ := List.mem_map.1 h
  obtain ⟨m, hm, rfl⟩ := List.mem_map.1 (Fields.mem_ofList hp)
  exact hm

theorem mem_sortNames {names : List String} {n : String} (h : n ∈ names) : n ∈ sortNames names :=
  Fields.key_mem_ofList (List.mem_map.2 ⟨(n, ()), List.mem_map_of_mem h, rfl⟩)

end Json

namespace FieldNames

variable {names : List String}

theorem of_sorted (sorted : names.Pairwise (· < ·))
    (plain : ∀ n ∈ names, Label.isPlainName n = true) : FieldNames names := by
  refine ⟨?_, sorted.imp fun hlt he => ?_, fun m hm n hn => ?_, fun n _ => Label.name?_ofName n,
    fun n hn he => ?_⟩
  · have hfields : Fields.Sorted (names.map fun n => (n, ())) := List.pairwise_map.2 sorted
    rw [Json.sortNames, Fields.ofList_of_sorted hfields, List.map_map]
    exact List.map_id _
  · exact absurd hlt (he ▸ String.lt_irrefl _)
  · rw [(Label.ofName_of_isPlainName (plain m hm)).1, (Label.ofName_of_isPlainName (plain m hm)).2,
      (Label.ofName_of_isPlainName (plain n hn)).2,
      List.map_inj_right fun _ _ h => Char.toNat_inj.1 h, String.toList_inj]
  · have hplain := he ▸ plain n hn
    exact absurd hplain (by decide)

theorem sortNames (plain : ∀ n ∈ names, Label.isPlainName n = true) :
    FieldNames (Json.sortNames names) :=
  of_sorted (List.pairwise_map.2 (Fields.sorted_ofList _)) fun n hn =>
    plain n (Json.mem_of_mem_sortNames hn)

end FieldNames

end FleetSync
