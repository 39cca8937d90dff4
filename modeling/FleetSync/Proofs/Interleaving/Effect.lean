import FleetSync.Proofs.Interleaving.System
import FleetSync.Proofs.Store.Contents

/-!
# What a call does to the documents

A call and its answer say what became of the documents (`Exchange.Effect`): a new one was inserted,
one was patched, or at most some were taken away. They also say what was read (`Exchange.Finds`).
`World.reply_effect` and `World.reply_finds` say that the world keeps to this.
-/

namespace FleetSync

namespace Exchange

/-- Whether a document was inserted or changed. -/
def isWrite : Exchange → Bool
  | ⟨.insert _, .ok _⟩ => true
  | ⟨.patchOne _ _ patch, .ok true⟩ => !patch.isEmpty
  | _ => false

/-- What a call did to the documents. -/
inductive Effect : Exchange → List StoredDocument → List StoredDocument → Prop
  | insert {d : Document} {docs : List StoredDocument}
    (new : ∀ e ∈ docs, e.collection = d.collection → e.id ≠ d.id) :
    Effect ⟨.insert d, .ok ()⟩ docs (docs ++ [.of d])
  | patch {collection : String} {filter : Filter} {patch : Patch} {l l' : List StoredDocument}
    {d : StoredDocument} {body : Body} (hit : d.matches? collection filter = true)
    (done : patch.applyTo? d.body = some body) :
    Effect ⟨.patchOne collection filter patch, .ok true⟩ (l ++ d :: l') (l ++ { d with body } :: l')
  | remove {x : Exchange} {docs docs' : List StoredDocument} (keep : x.isWrite = false)
    (less : docs'.Sublist docs) : Effect x docs docs'

/-- Whether a value was read in a collection. -/
def Finds (x : Exchange) (collection : String) (j : Json) : Prop :=
  (∃ filter, x = ⟨.findOne collection filter, .ok (some j)⟩) ∨
    ∃ filter js, x = ⟨.find collection filter, .ok js⟩ ∧ j ∈ js

theorem isWrite_of_failed {x : Exchange} (h : x.Failed) : x.isWrite = false := by
  obtain ⟨c, a⟩ := x
  obtain ⟨e, he⟩ := h
  cases c <;> first | rfl | (cases he; rfl)

theorem not_finds_of_failed {x : Exchange} (h : x.Failed) (collection : String) (j : Json) :
    ¬ x.Finds collection j := by
  obtain ⟨e, he⟩ := h
  rintro (⟨filter, rfl⟩ | ⟨filter, js, rfl, -⟩) <;> cases he

end Exchange

/-- Whether a call asks for documents to be deleted. -/
def Call.isDeletion : Call → Bool
  | deleteOne .. | deleteMany .. => true
  | _ => false

namespace World

variable (checker : Checker) (w : World)

theorem answer_effect (c : Call) :
    Exchange.Effect ⟨c, (w.answer checker c).1⟩ w.documents.documents
      (w.answer checker c).2.documents.documents := by
  cases c with
  | insert d =>
    rw [answer]
    cases h : w.documents.insert d with
    | error e => exact .remove rfl (.refl _)
    | ok s =>
      obtain ⟨hs, hnew⟩ := DocumentStore.insert_eq_ok h
      simp only [hs]
      exact .insert hnew
  | patchOne collection filter patch =>
    rw [answer]
    cases h : w.documents.patchOne collection filter patch with
    | error e => exact .remove rfl (.refl _)
    | ok r =>
      obtain ⟨hit, s⟩ := r
      rcases DocumentStore.patchOne_eq_ok h with
        ⟨hkeep, rfl⟩ | ⟨l, d, l', body, hd, hm, hb, rfl, hs⟩
      · refine .remove ?_ (.refl _)
        rcases hkeep with he | rfl
        · cases hit <;> simp [Exchange.isWrite, he]
        · rfl
      · simp only [hd, hs]
        exact .patch hm hb
  | deleteOne collection filter =>
    rw [answer]
    cases h : w.documents.deleteOne collection filter with
    | error e => exact .remove rfl (.refl _)
    | ok r => exact .remove rfl (DocumentStore.deleteOne_sublist h)
  | deleteMany collection filter =>
    rw [answer]
    cases h : w.documents.deleteMany collection filter with
    | error e => exact .remove rfl (.refl _)
    | ok r => exact .remove rfl (DocumentStore.deleteMany_sublist h)
  | upsert m =>
    rw [answer]
    cases h : w.mappings.upsert m <;> exact .remove rfl (.refl _)
  | _ => exact .remove rfl (.refl _)

/-- A document goes only with a deletion, and one that is to delete a single document takes none
away that does not meet its filter. -/
theorem answer_gone {c : Call} {d : StoredDocument} (hd : d ∈ w.documents.documents)
    (gone : ∀ d' ∈ (w.answer checker c).2.documents.documents, d'.id ≠ d.id) :
    c.isDeletion = true ∧
      ∀ collection filter, c = .deleteOne collection filter →
        d.matches? collection filter = true := by
  cases c with
  | insert new =>
    rw [answer] at gone
    cases h : w.documents.insert new with
    | error e => rw [h] at gone; exact absurd rfl (gone d hd)
    | ok s =>
      rw [h] at gone
      refine absurd rfl (gone d ?_)
      rw [(DocumentStore.insert_eq_ok h).1]
      exact List.mem_append_left _ hd
  | patchOne collection filter patch =>
    rw [answer] at gone
    cases h : w.documents.patchOne collection filter patch with
    | error e => rw [h] at gone; exact absurd rfl (gone d hd)
    | ok r =>
      obtain ⟨hit, s⟩ := r
      rw [h] at gone
      rcases DocumentStore.patchOne_eq_ok h with
        ⟨-, rfl⟩ | ⟨l, e, l', body, hdocs, -, -, -, hs⟩
      · exact absurd rfl (gone d hd)
      · simp only [hs, List.mem_append, List.mem_cons] at gone
        rw [hdocs] at hd
        simp only [List.mem_append, List.mem_cons] at hd
        rcases hd with hd | rfl | hd
        · exact absurd rfl (gone d (.inl hd))
        · exact absurd rfl (gone { d with body } (.inr (.inl rfl)))
        · exact absurd rfl (gone d (.inr (.inr hd)))
  | deleteOne collection filter =>
    refine ⟨rfl, fun collection' filter' hc => ?_⟩
    cases hc
    rw [answer] at gone
    cases h : w.documents.deleteOne collection filter with
    | error e => rw [h] at gone; exact absurd rfl (gone d hd)
    | ok r =>
      obtain ⟨hit, s⟩ := r
      rw [h] at gone
      exact DocumentStore.matches?_of_deleteOne h hd fun hd' => gone d hd' rfl
  | deleteMany collection filter => exact ⟨rfl, fun _ _ hc => nomatch hc⟩
  | upsert m =>
    rw [answer] at gone
    cases h : w.mappings.upsert m with
    | error e => rw [h] at gone; exact absurd rfl (gone d hd)
    | ok mappings => rw [h] at gone; exact absurd rfl (gone d hd)
  | _ => exact absurd rfl (gone d hd)

/-- What is read is a document that meets the filter that was asked with. -/
theorem answer_matches {c : Call} {collection : String} {j : Json}
    (h : Exchange.Finds ⟨c, (w.answer checker c).1⟩ collection j) :
    ∃ filter, (c = .findOne collection filter ∨ c = .find collection filter) ∧
      ∃ d ∈ w.documents.documents, d.matches? collection filter = true ∧ d.read = .ok j := by
  rcases h with ⟨filter, h⟩ | ⟨filter, js, h, hj⟩
  · obtain ⟨rfl, h⟩ := (Exchange.mk.injEq ..).mp h
    exact ⟨filter, .inl rfl, DocumentStore.match_of_findOne (eq_of_heq h)⟩
  · obtain ⟨rfl, h⟩ := (Exchange.mk.injEq ..).mp h
    exact ⟨filter, .inr rfl, DocumentStore.match_of_find (eq_of_heq h) hj⟩

variable (x : Circumstances)

/-- A call is answered by the world at some time, or it fails, or it makes an id. -/
theorem reply_cases (c : Call) :
    (w.reply x c = World.answer (fun _ _ _ => x.permission) c { w with clock := x.time }) ∨
      (Exchange.Failed ⟨c, (w.reply x c).1⟩ ∧ (w.reply x c).2 = w) ∨
      (c = .freshId ∧ (w.reply x c).2 = w) := by
  unfold reply
  split
  · exact .inr (.inr ⟨rfl, rfl⟩)
  · split
    · rename_i a ha
      obtain ⟨e, -, he⟩ := Option.bind_eq_some_iff.1 ha
      exact .inr (.inl ⟨⟨e, he⟩, rfl⟩)
    · exact .inl rfl

theorem reply_effect (c : Call) :
    Exchange.Effect ⟨c, (w.reply x c).1⟩ w.documents.documents
      (w.reply x c).2.documents.documents := by
  rcases w.reply_cases x c with h | ⟨hf, h⟩ | ⟨rfl, h⟩
  · rw [h]
    exact answer_effect _ { w with clock := x.time } c
  · rw [h]
    exact .remove (Exchange.isWrite_of_failed hf) (.refl _)
  · rw [h]
    exact .remove rfl (.refl _)

theorem reply_gone {c : Call} {d : StoredDocument} (hd : d ∈ w.documents.documents)
    (gone : ∀ d' ∈ (w.reply x c).2.documents.documents, d'.id ≠ d.id) :
    c.isDeletion = true ∧
      ∀ collection filter, c = .deleteOne collection filter →
        d.matches? collection filter = true := by
  rcases w.reply_cases x c with h | ⟨-, h⟩ | ⟨-, h⟩
  · rw [h] at gone
    exact answer_gone _ { w with clock := x.time } hd gone
  · rw [h] at gone
    exact absurd rfl (gone d hd)
  · rw [h] at gone
    exact absurd rfl (gone d hd)

theorem reply_matches {c : Call} {collection : String} {j : Json}
    (hj : Exchange.Finds ⟨c, (w.reply x c).1⟩ collection j) :
    ∃ filter, (c = .findOne collection filter ∨ c = .find collection filter) ∧
      ∃ d ∈ w.documents.documents, d.matches? collection filter = true ∧ d.read = .ok j := by
  rcases w.reply_cases x c with h | ⟨hf, -⟩ | ⟨rfl, -⟩
  · rw [h] at hj
    exact answer_matches _ { w with clock := x.time } hj
  · exact absurd hj (Exchange.not_finds_of_failed hf _ _)
  · rcases hj with ⟨_, h⟩ | ⟨_, _, h, -⟩ <;> cases h

theorem reply_finds {c : Call} {collection : String} {j : Json}
    (hj : Exchange.Finds ⟨c, (w.reply x c).1⟩ collection j) :
    ∃ d ∈ w.documents.documents, d.collection = collection ∧ d.read = .ok j := by
  obtain ⟨filter, -, d, hd, hm, hr⟩ := w.reply_matches x hj
  exact ⟨d, hd, DocumentStore.collection_of_matches? hm, hr⟩

theorem reply_findOne {collection : String} {filter : Filter} {j : Json}
    (h : (w.reply x (.findOne collection filter)).1 = .ok (some j)) :
    w.documents.findOne collection filter = .ok (some j) := by
  rcases w.reply_cases x (.findOne collection filter) with hw | ⟨hf, -⟩ | ⟨hc, -⟩
  · rwa [hw] at h
  · rw [h] at hf
    exact absurd (.inl ⟨filter, rfl⟩) (Exchange.not_finds_of_failed hf collection j)
  · cases hc

end World

end FleetSync
