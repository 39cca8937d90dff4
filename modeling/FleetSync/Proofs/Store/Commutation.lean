import FleetSync.Proofs.Store.Rearrangement

/-!
# Patches of different places

A patch that the store takes makes one change after the other, all those that set something first
(`Patch.after_eq`), whatever the document is: whether it takes the patch does not depend on the
document as long as it can read that. So patches of places apart from each other can be applied in
either order if the store can read what the first one leaves, and what is at a place apart from
those of a patch is not changed (`Patch.patches_commute`).

A document may nest deeper after a patch than the store reads. Then no other patch is taken, so it
matters which one comes first (`Patch.patches_not_commute`).
-/

namespace FleetSync

open Body (adjust SameBut Alike)

namespace PatchOp

/-- The place that is changed. -/
def path : PatchOp → Path
  | .set path _ => path
  | .unset path => path

/-- What is there after a change. -/
def content : PatchOp → Option Body
  | .set _ value => some (.ofJson value.canonical)
  | .unset _ => none

/-- The labels on the way to the place. -/
def labels (o : PatchOp) : List Label := o.path.filterMap fun
  | .field l => some l
  | _ => none

/-- What a change makes of a body. -/
def act (b : Option Body) (o : PatchOp) : Option Body := adjust o.content o.labels b

variable {o : PatchOp}

theorem labels_of_path {ls : List Label} (h : o.path = .ofLabels ls) : o.labels = ls := by
  rw [labels, h, Path.ofLabels, List.filterMap_map]
  exact List.filterMap_some

theorem labels_of_isWords (h : o.path.isWords = true) :
    o.path = .ofLabels o.labels ∧ o.labels ≠ [] ∧ ∀ l ∈ o.labels, l.isWord = true := by
  obtain ⟨ls, hne, hpath, hls⟩ := Path.exists_labels h
  rw [labels_of_path hpath]
  exact ⟨hpath, hne, hls⟩

/-- Whether the store can read what a change sets. -/
def isLegible (o : PatchOp) : Bool := o.content.all Body.isReadable

theorem applySet?_eq (b : Body) (h : o.path.isWords = true) (hset : o.isSet = true) :
    o.applySet? b = if o.isLegible then act (some b) o else none := by
  obtain ⟨hpath, -, -⟩ := labels_of_isWords h
  cases o with
  | unset => cases hset
  | set path value =>
    have hpath : path = _ := hpath
    rw [applySet?, isLegible, content, Option.all_some]
    split
    · rw [hpath, Body.change?_put, ← hpath]
      rfl
    · rfl

theorem applyUnset?_eq (b : Body) (h : o.path.isWords = true) (hset : o.isSet = false) :
    o.applyUnset? b = act (some b) o := by
  obtain ⟨hpath, hne, -⟩ := labels_of_isWords h
  cases o with
  | set => cases hset
  | unset path =>
    have hpath : path = _ := hpath
    rw [applyUnset?, hpath, Body.change?_cut _ hne, ← hpath]
    rfl

/-- A change at a place leaves a document. -/
theorem isSome_act (b : Body) (h : o.path.isWords = true) : ∃ b', act (some b) o = some b' :=
  Option.isSome_iff_exists.1 (Body.isSome_adjust b (labels_of_isWords h).2.1)

end PatchOp

namespace Patch

variable {p q : Patch} {b : Body}

/-- The changes of a patch in the order they are made in. -/
def inOrder (p : Patch) : Patch := p.filter (·.isSet) ++ p.filter (!·.isSet)

/-- What some changes make of a body, one after the other. -/
def run (p : Patch) (b : Option Body) : Option Body := p.foldl PatchOp.act b

/-- Whether the store takes a patch for a document that it can read. -/
def isTaken (p : Patch) : Bool := p.isAskable && p.all (·.isLegible)

/-- The document after the store was asked for a patch: as it was if the store does not take it. -/
def after (p : Patch) (b : Body) : Body :=
  if p.isAskable then (p.applyTo? b).getD b else b

/-- Whether all places of a patch are named by words. -/
def InWords (p : Patch) : Prop := ∀ o ∈ p, o.path.isWords = true

/-- Whether all places of a patch are apart from those of another one. -/
def Apart (p q : Patch) : Prop := ∀ o ∈ p, ∀ o' ∈ q, o.path.Apart o'.path

theorem Apart.symm (h : p.Apart q) : q.Apart p := fun o ho o' ho' => (h o' ho' o ho).symm

theorem mem_inOrder {o : PatchOp} : o ∈ p.inOrder ↔ o ∈ p := by
  rw [inOrder, List.mem_append, List.mem_filter, List.mem_filter, ← and_or_left]
  cases o.isSet <;> simp

/-! ## One change after the other -/

theorem run_congr (p : Patch) {o o' : Option Body} (h : SameBut o o') :
    SameBut (p.run o) (p.run o') := by
  induction p generalizing o o' with
  | nil => exact h
  | cons op rest ih => exact ih (h.adjust op.content op.labels)

/-- A change can be made before some or after them if they are apart. -/
theorem run_act {op : PatchOp} (hop : op.path.isWords = true) (hq : q.InWords)
    (apart : ∀ o ∈ q, op.path.Apart o.path) (b : Option Body) :
    SameBut (q.run (op.act b)) (op.act (q.run b)) := by
  induction q generalizing b with
  | nil => exact .refl _
  | cons o rest ih =>
    obtain ⟨ho, hrest⟩ := List.forall_mem_cons.1 hq
    obtain ⟨hapart, aparts⟩ := List.forall_mem_cons.1 apart
    obtain ⟨hpath, -, hwords⟩ := PatchOp.labels_of_isWords hop
    obtain ⟨hpath', -, hwords'⟩ := PatchOp.labels_of_isWords ho
    rw [hpath, hpath'] at hapart
    have swapped : SameBut (o.act (op.act b)) (op.act (o.act b)) :=
      Body.adjust_adjust hwords' hwords hapart.symm b
    exact (run_congr rest swapped).trans (ih hrest aparts _)

/-- Changes that are apart can be made in either order. -/
theorem run_comm (hp : p.InWords) (hq : q.InWords) (apart : p.Apart q) (b : Option Body) :
    SameBut (q.run (p.run b)) (p.run (q.run b)) := by
  induction p generalizing b with
  | nil => exact .refl _
  | cons op rest ih =>
    obtain ⟨hop, hrest⟩ := List.forall_mem_cons.1 hp
    obtain ⟨hapart, aparts⟩ := List.forall_mem_cons.1 apart
    exact (ih hrest aparts _).trans (run_congr rest (run_act hop hq hapart b))

/-- What is looked up apart from some changes is as it was. -/
theorem lookup_run {ls : List Label} (hp : p.InWords) (hls : ∀ l ∈ ls, l.isWord = true)
    (apart : ∀ o ∈ p, o.path.Apart (.ofLabels ls)) (b : Option Body) :
    Body.lookup (p.run b) ls = Body.lookup b ls := by
  induction p generalizing b with
  | nil => rfl
  | cons op rest ih =>
    obtain ⟨hop, hrest⟩ := List.forall_mem_cons.1 hp
    obtain ⟨hapart, aparts⟩ := List.forall_mem_cons.1 apart
    obtain ⟨hpath, -, hwords⟩ := PatchOp.labels_of_isWords hop
    rw [hpath] at hapart
    exact (ih hrest aparts _).trans (Body.lookup_adjust hwords hls hapart b)

/-- Changes that set what can be read leave a sound document sound. -/
theorem exists_run (hp : p.InWords) (legible : p.all (·.isLegible) = true) (hb : b.Sound) :
    ∃ b', p.run (some b) = some b' ∧ b'.Sound := by
  induction p generalizing b with
  | nil => exact ⟨b, rfl, hb⟩
  | cons op rest ih =>
    obtain ⟨hop, hrest⟩ := List.forall_mem_cons.1 hp
    rw [List.all_cons, Bool.and_eq_true] at legible
    obtain ⟨b', hb'⟩ := PatchOp.isSome_act b hop
    obtain ⟨-, -, hwords⟩ := PatchOp.labels_of_isWords hop
    have sound : b'.Sound := by
      refine Body.Sound.adjust (fun l hl => Label.isSound_of_isWord (hwords l hl))
        (fun v hv => ?_) (fun a ha => ?_) hb'
      · have hlegible := legible.1
        rw [PatchOp.isLegible, hv, Option.all_some] at hlegible
        exact ⟨_, hlegible⟩
      · exact Option.some.inj ha ▸ hb
    have hrun : Patch.run (op :: rest) (some b) = run rest (some b') := congrArg (run rest) hb'
    rw [hrun]
    exact ih hrest legible.2 sound

/-! ## Patches -/

theorem isLegible_of_not_isSet {o : PatchOp} (h : o.isSet = false) : o.isLegible = true := by
  cases o with
  | set => cases h
  | unset => rfl

/-- The store sets what a patch sets if it can read all of it. -/
theorem applySets?_eq_run (hp : p.InWords) (b : Body) :
    p.applySets? b = if p.all (·.isLegible) then run (p.filter (·.isSet)) (some b) else none := by
  induction p generalizing b with
  | nil => rfl
  | cons op rest ih =>
    obtain ⟨hop, hrest⟩ := List.forall_mem_cons.1 hp
    have ih := ih hrest
    rw [applySets?, List.foldlM_cons, List.all_cons, List.filter_cons]
    cases hset : op.isSet with
    | true =>
      rw [PatchOp.applySet?_eq b hop hset, if_pos rfl]
      cases hlegible : op.isLegible with
      | true =>
        obtain ⟨b', hb'⟩ := PatchOp.isSome_act b hop
        rw [if_pos rfl, hb', Bool.true_and]
        refine (ih b').trans ?_
        rw [← hb']
        rfl
      | false => rfl
    | false =>
      have hsame : op.applySet? b = some b := by
        cases op with
        | set => cases hset
        | unset => rfl
      rw [hsame, isLegible_of_not_isSet hset, if_neg Bool.false_ne_true, Bool.true_and]
      exact ih b

/-- The store takes away what a patch takes away. -/
theorem applyUnsets?_eq_run (hp : p.InWords) (b : Body) :
    p.applyUnsets? b = run (p.filter (!·.isSet)) (some b) := by
  induction p generalizing b with
  | nil => rfl
  | cons op rest ih =>
    obtain ⟨hop, hrest⟩ := List.forall_mem_cons.1 hp
    have ih := ih hrest
    rw [applyUnsets?, List.foldlM_cons, List.filter_cons]
    cases hset : op.isSet with
    | true =>
      have hsame : op.applyUnset? b = some b := by
        cases op with
        | set => rfl
        | unset => cases hset
      rw [hsame]
      exact ih b
    | false =>
      obtain ⟨b', hb'⟩ := PatchOp.isSome_act b hop
      rw [PatchOp.applyUnset?_eq b hop hset, hb']
      refine (ih b').trans ?_
      rw [← hb']
      rfl

end Patch

namespace Draft

/-- What can be read, or has too many levels for that, is kept. -/
theorem kept_of_sound {b : Body} (h : b.Sound) :
    ofBody? b = some ⟨b, b⟩ ∧ handedOn? ⟨b, b⟩ = some b ∧ stored? ⟨b, b⟩ = some b := by
  have either : b.isReadable = true ∨ (mk b b).isRemembered = true := by
    cases hread : b.isReadable with
    | true => exact .inl rfl
    | false => exact .inr (decide_eq_true (Nat.lt_trans (by decide) (h.lt_size_text hread)))
  refine ⟨by rw [ofBody?, h.rewritten?, Option.map_some], ?_, ?_⟩
  · rw [handedOn?]
    split
    · rfl
    · rename_i hforgotten
      rw [if_pos (either.resolve_right hforgotten)]
  · rw [stored?, if_pos (Bool.or_eq_true_iff.2 either)]

end Draft

namespace Patch

variable {p q : Patch} {b : Body}

/-- The store makes the changes of a patch one after the other if it can read the document and what
is set. -/
theorem applyTo?_eq_run (hp : p.InWords) (hb : b.isReadable = true) :
    p.applyTo? b = if p.all (·.isLegible) then p.inOrder.run (some b) else none := by
  have hsound : b.Sound := ⟨_, hb⟩
  have inWords : ∀ f : PatchOp → Bool, InWords (p.filter f) := fun f o ho =>
    hp o (List.mem_filter.1 ho).1
  have hrun : p.inOrder.run (some b) =
      run (p.filter (!·.isSet)) (run (p.filter (·.isSet)) (some b)) := List.foldl_append
  rw [applyTo?, if_neg (by rw [hb]; decide), applySets?_eq_run hp]
  cases legible : p.all (·.isLegible) with
  | false =>
    have notUnsets : ¬ p.all (!·.isSet) = true := by
      intro h
      rw [← Bool.not_eq_true, List.all_eq_true] at legible
      refine legible fun o ho => isLegible_of_not_isSet ?_
      simpa using List.all_eq_true.1 h o ho
    rw [if_neg notUnsets]
    rfl
  | true =>
    have filtered : ∀ f : PatchOp → Bool, (p.filter f).all (·.isLegible) = true := fun f =>
      List.all_eq_true.2 fun o ho => List.all_eq_true.1 legible o (List.mem_filter.1 ho).1
    rw [if_pos rfl, if_pos rfl, hrun]
    split
    · rename_i unsets
      have none : p.filter (·.isSet) = [] := List.filter_eq_nil_iff.2 fun o ho hset => by
        simpa [hset] using List.all_eq_true.1 unsets o ho
      obtain ⟨b', hb', sound⟩ := exists_run (inWords _) (filtered (!·.isSet)) hsound
      obtain ⟨hdraft, -, hstored⟩ := Draft.kept_of_sound sound
      rw [applyUnsets?_eq_run hp, none]
      simp only [run, List.foldl_nil] at hb' ⊢
      rw [hb']
      simp only [Option.bind_eq_bind, Option.bind_some, hdraft, hstored]
    · obtain ⟨b', hb', sound⟩ := exists_run (inWords _) (filtered (·.isSet)) hsound
      obtain ⟨hdraft, hhanded, hstored⟩ := Draft.kept_of_sound sound
      rw [hb']
      simp only [Option.bind_eq_bind, Option.bind_some, hdraft]
      split
      · rename_i sets
        have none : p.filter (!·.isSet) = [] := List.filter_eq_nil_iff.2 fun o ho hset => by
          simp [List.all_eq_true.1 sets o ho] at hset
        rw [none, hstored]
        rfl
      · obtain ⟨b'', hb'', sound'⟩ := exists_run (inWords _) (filtered (!·.isSet)) sound
        obtain ⟨hdraft', -, hstored'⟩ := Draft.kept_of_sound sound'
        simp only [hhanded, Option.bind_some, applyUnsets?_eq_run hp, hb'', hdraft', hstored']

/-- The document after the store was asked for a patch. -/
theorem after_eq (hp : p.InWords) (hb : b.isReadable = true) :
    some (p.after b) = if p.isTaken then p.inOrder.run (some b) else some b := by
  rw [after, isTaken, applyTo?_eq_run hp hb]
  cases p.isAskable with
  | false => rfl
  | true =>
    cases legible : p.all (·.isLegible) with
    | false => rfl
    | true =>
      have legible : p.inOrder.all (·.isLegible) = true := List.all_eq_true.2 fun o ho =>
        List.all_eq_true.1 legible o (mem_inOrder.1 ho)
      obtain ⟨b', hb', -⟩ := exists_run (fun o ho => hp o (mem_inOrder.1 ho)) legible ⟨_, hb⟩
      rw [if_pos rfl, if_pos rfl, hb']
      rfl

/-- A document that the store cannot read stays as it is. -/
theorem after_of_not_isReadable (p : Patch) (hb : b.isReadable = false) : p.after b = b := by
  have none : p.applyTo? b = none := by rw [applyTo?, if_pos (by rw [hb]; rfl)]
  rw [after, none]
  split <;> rfl

/-- A patch that the store takes is applied to a document that it can read. -/
theorem applyTo?_eq_after (hp : p.InWords) (hb : b.isReadable = true) (taken : p.isTaken = true) :
    p.applyTo? b = some (p.after b) := by
  rw [after_eq hp hb, if_pos taken, applyTo?_eq_run hp hb, if_pos (Bool.and_eq_true_iff.1 taken).2]

/-- What is at a place apart from those of a patch is not changed. -/
theorem at?_after {r : Path} (hp : p.InWords) (hr : r.isWords = true)
    (apart : ∀ o ∈ p, o.path.Apart r) (b : Body) : (p.after b).at? r = b.at? r := by
  cases hb : b.isReadable with
  | false => rw [p.after_of_not_isReadable hb]
  | true =>
    obtain ⟨ls, -, rfl, hls⟩ := Path.exists_labels hr
    have hafter := after_eq hp hb
    split at hafter
    · have kept := lookup_run (p := p.inOrder) (fun o ho => hp o (mem_inOrder.1 ho)) hls
        (fun o ho => apart o (mem_inOrder.1 ho)) (some b)
      rw [← hafter] at kept
      exact kept
    · rw [Option.some.inj hafter]

/-- Patches of places apart from each other leave documents that are alike, in either order, if the
store can read what each of them leaves alone. -/
theorem after_comm (hp : p.InWords) (hq : q.InWords) (apart : p.Apart q)
    (hb : (p.after b).isReadable = true) (hb' : (q.after b).isReadable = true) :
    Alike (q.after (p.after b)) (p.after (q.after b)) := by
  have hread : b.isReadable = true := by
    cases h : b.isReadable with
    | true => rfl
    | false => rwa [p.after_of_not_isReadable h, h] at hb
  have before := after_eq hp hread
  have before' := after_eq hq hread
  have later := after_eq hq hb
  have later' := after_eq hp hb'
  have inOrder : ∀ {r : Patch}, r.InWords → InWords r.inOrder :=
    fun h o ho => h o (mem_inOrder.1 ho)
  have comm := run_comm (inOrder hp) (inOrder hq)
    (fun o ho o' ho' => apart o (mem_inOrder.1 ho) o' (mem_inOrder.1 ho')) (some b)
  have same : SameBut (some (q.after (p.after b))) (some (p.after (q.after b))) := by
    rw [later, later', before, before']
    cases p.isTaken <;> cases q.isTaken
    · exact .refl _
    · exact .refl _
    · exact .refl _
    · exact comm
  cases same with
  | some h => exact h

/-- Patches of places apart from each other can be applied in either order: the documents are the
same but for the order of fields, and have the same value however many levels are read, if the store
can read what each of the patches leaves alone. A patch that the store takes is applied to any
document that it can read, and what is at a place apart from its own is not changed. -/
theorem patches_commute (hp : p.InWords) (hq : q.InWords) (apart : p.Apart q) (b : Body) :
    (b.isReadable = true → p.isTaken = true → p.applyTo? b = some (p.after b)) ∧
      (∀ r : Path, r.isWords = true → (∀ o ∈ p, o.path.Apart r) → (p.after b).at? r = b.at? r) ∧
      ((p.after b).isReadable = true → (q.after b).isReadable = true →
        Alike (q.after (p.after b)) (p.after (q.after b)) ∧
        ∀ levels, (q.after (p.after b)).toNode.value? levels =
          (p.after (q.after b)).toNode.value? levels) := by
  refine ⟨applyTo?_eq_after hp, fun r hr hapart => at?_after hp hr hapart b, fun hb hb' => ?_⟩
  have alike := after_comm hp hq apart hb hb'
  exact ⟨alike, fun levels => alike.valueWith levels⟩

/-- Two labels are set, and a field below an array is not there to be removed. -/
theorem patches_commute_labels :
    let p : Patch := [.set ["labels", "tier"] (.str "web"), .unset ["spec", "old"]]
    let q : Patch := [.set ["labels", "owner-id"] (.ofInt 7)]
    let b : Body := .ofJson (.obj [("name", .str "shop"), ("spec", .arr [.null])])
    Alike (q.after (p.after b)) (p.after (q.after b)) ∧
      (p.after b).at? ["name"] = b.at? ["name"] := by
  intro p q b
  have hp : p.InWords := by
    simp only [InWords, p, List.forall_mem_cons, List.not_mem_nil, false_implies, implies_true]
    decide
  have hq : q.InWords := by
    simp only [InWords, q, List.forall_mem_cons, List.not_mem_nil, false_implies, implies_true]
    decide
  have apart : p.Apart q := by
    simp only [Apart, Path.Apart, p, q, List.forall_mem_cons, List.not_mem_nil, false_implies,
      implies_true]
    decide
  have aside : ∀ o ∈ p, o.path.Apart ["name"] := by
    simp only [Path.Apart, p, List.forall_mem_cons, List.not_mem_nil, false_implies, implies_true]
    decide
  obtain ⟨-, kept, comm⟩ := patches_commute hp hq apart b
  exact ⟨(comm (by decide +kernel) (by decide +kernel)).1, kept _ (by decide) aside⟩

/-! ## Documents that nest too deep -/

/-- A patch that sets a field so many levels deep. -/
def deep (levels : Nat) : Patch := [.set (.ofLabels (.replicate levels ⟨['a']⟩)) (.ofInt 1)]

/-- A patch that sets a field beside it. -/
def beside : Patch := [.set ["b"] (.ofInt 1)]

theorem inWords_deep (n : Nat) : (deep (n + 1)).InWords := by
  refine List.forall_mem_singleton.2 (Path.isWords_ofLabels (List.cons_ne_nil _ _) fun l hl => ?_)
  rw [List.eq_of_mem_replicate hl]
  decide

theorem apart_deep (n : Nat) : (deep (n + 1)).Apart beside := by
  refine List.forall_mem_singleton.2 (List.forall_mem_singleton.2 ⟨fun h => ?_, fun h => ?_⟩) <;>
    exact absurd (List.cons_prefix_cons.1 h).1 (by decide)

/-- A field that is set in an empty document makes it nest as deep as the field is. -/
theorem readableAt_after_deep (n k : Nat) :
    ((deep (n + 1)).after (.obj [])).readableAt k = decide (n + 1 ≤ k) := by
  have hlabels : PatchOp.labels (.set (.ofLabels (.replicate (n + 1) ⟨['a']⟩)) (.ofInt 1)) =
      .replicate (n + 1) ⟨['a']⟩ := PatchOp.labels_of_path rfl
  have set : some ((deep (n + 1)).after (.obj [])) = Body.adjust (some (.ofJson (.ofInt 1)))
      (.replicate (n + 1) ⟨['a']⟩) (some (.obj [])) := by
    rw [after_eq (inWords_deep n) rfl]
    exact congrArg (Body.adjust _ · _) hlabels
  rw [List.replicate_succ, Body.adjust_empty _ (List.cons_ne_nil _ _), ← List.replicate_succ] at set
  rw [Body.readableAt_nested (fun _ => rfl) (fun l hl => ?_) set.symm, List.length_replicate]
  rw [List.eq_of_mem_replicate hl]
  decide

/-- A field is set 1001 levels deep, which the store does not read, so another field beside it can
only be set before. -/
theorem patches_not_commute :
    let p := deep 1001
    let q := beside
    let b : Body := .obj []
    p.InWords ∧ q.InWords ∧ p.Apart q ∧ b.isReadable = true ∧
      p.applyTo? b = some (p.after b) ∧ q.applyTo? (p.after b) = none ∧
      (q.after (p.after b)).at? ["b"] = .nowhere ∧
      (p.after (q.after b)).at? ["b"] = .place (.num (.int 1)) := by
  intro p q b
  have hp : p.InWords := inWords_deep 1000
  have hq : q.InWords := List.forall_mem_singleton.2 (by decide)
  have apart : p.Apart q := apart_deep 1000
  have aside : ∀ o ∈ p, o.path.Apart ["b"] := fun o ho => apart o ho _ (List.mem_singleton_self _)
  have unread : (p.after b).isReadable = false := readableAt_after_deep 1000 1000
  have refused : q.applyTo? (p.after b) = none := by rw [applyTo?, unread]; rfl
  refine ⟨hp, hq, apart, rfl, applyTo?_eq_after hp rfl rfl, refused, ?_, ?_⟩
  · rw [q.after_of_not_isReadable unread, at?_after hp (by decide) aside]
    rfl
  · rw [at?_after hp (by decide) aside]
    rfl

end Patch

end FleetSync
