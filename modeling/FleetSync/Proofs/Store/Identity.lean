import FleetSync.Control.Change
import FleetSync.Proofs.Store.Card

/-!
# Identities and their keys

An identity is filed under the key that its names make with slashes between them, and with a dash
for an environment that is none. Names that pass their check hold no slash and are not a dash
(`Name.IsName.not_slash`, `Name.IsName.ne_dash`), so the key tells the identities of such names
apart (`Identity.file_inj`).
-/

namespace FleetSync

/-- What stands before the first occurrence of a value, and after it, is told from the whole. -/
theorem append_cons_inj_left {α : Type} {c : α} {a a' b b' : List α} (h : c ∉ a) (h' : c ∉ a')
    (heq : a ++ c :: b = a' ++ c :: b') : a = a' ∧ b = b' := by
  induction a generalizing a' with
  | nil =>
    cases a' with
    | nil => exact ⟨rfl, (List.cons.inj heq).2⟩
    | cons x a' => exact absurd (List.cons.inj heq).1 (List.ne_of_not_mem_cons h')
  | cons x a ih =>
    cases a' with
    | nil => exact absurd (List.cons.inj heq).1.symm (List.ne_of_not_mem_cons h)
    | cons y a' =>
      obtain ⟨rfl, hrest⟩ := List.cons.inj heq
      have rest := ih (List.not_mem_of_not_mem_cons h) (List.not_mem_of_not_mem_cons h') hrest
      exact ⟨congrArg (x :: ·) rest.1, rest.2⟩

namespace Name

/-- Whether a text passes the check of names, whatever it is given for. -/
def IsName (s : String) : Prop := ∀ field, check field s = .ok ()

variable {field s : String}

theorem check_eq_ok : check field s = .ok () ↔ s.isEmpty = false ∧ ¬ maxLength < s.utf8ByteSize ∧
    s.toList.all isNameChar = true ∧ s.toList.head? ≠ some '-' ∧ s.toList.getLast? ≠ some '-' := by
  have refused : ∀ e : OpError, (.error e : Except OpError Unit) ≠ .ok () := nofun
  unfold check
  split
  · rename_i h
    exact iff_of_false (refused _) fun hs => Bool.false_ne_true (hs.1.symm.trans h)
  split
  · rename_i h
    exact iff_of_false (refused _) fun hs => hs.2.1 h
  split
  · rename_i h
    exact iff_of_false (refused _) fun hs => by simp [hs.2.2.1] at h
  split
  · rename_i h
    rw [Bool.or_eq_true, beq_iff_eq, beq_iff_eq] at h
    exact iff_of_false (refused _) fun hs => h.elim hs.2.2.2.1 hs.2.2.2.2
  · rename_i hempty hlength hchars hends
    rw [Bool.or_eq_true, beq_iff_eq, beq_iff_eq, not_or] at hends
    rw [Bool.not_eq_true, Bool.not_eq_false'] at hchars
    exact iff_of_true rfl ⟨Bool.not_eq_true _ ▸ hempty, hlength, hchars, hends⟩

/-- Whether a text passes the check does not depend on what it is given for. -/
theorem IsName.of_check (h : check field s = .ok ()) : IsName s :=
  fun _ => check_eq_ok.2 (check_eq_ok.1 h)

theorem IsName.not_slash (h : IsName s) : '/' ∉ s.toList := by
  obtain ⟨-, -, hall, -⟩ := check_eq_ok.1 (h "")
  intro hmem
  exact absurd (List.all_eq_true.1 hall _ hmem) (by decide)

theorem IsName.ne_dash (h : IsName s) : s ≠ "-" := by
  obtain ⟨-, -, -, hhead, -⟩ := check_eq_ok.1 (h "")
  rintro rfl
  exact hhead rfl

end Name

namespace Identity

variable (i : Identity)

/-- What an identity is filed under: the collection of its kind and its key there. -/
def file : String × String :=
  (i.kind.collection, identityKey i.account i.project i.environment i.name)

/-- An identity whose names pass their checks. -/
structure Admitted : Prop where
  account : Name.IsName i.account
  project : Name.IsName i.project
  environment : ∀ e, i.environment = some e → Name.IsName e
  name : Name.IsName i.name

/-- What stands for the environment in a key. -/
def place : String := i.environment.getD "-"

variable {i} {i' : Identity}

theorem toList_key : (identityKey i.account i.project i.environment i.name).toList =
    i.account.toList ++ '/' :: (i.project.toList ++ '/' :: (i.place.toList ++ '/' ::
      i.name.toList)) := by
  simp [identityKey, place, toString]

theorem Admitted.place_not_slash (h : i.Admitted) : '/' ∉ i.place.toList := by
  rw [place]
  cases he : i.environment with
  | none => decide
  | some e => exact (h.environment e he).not_slash

/-- A dash stands for no environment only. -/
theorem Admitted.environment_eq (h : i.Admitted) (h' : i'.Admitted) (heq : i.place = i'.place) :
    i.environment = i'.environment := by
  rw [place, place] at heq
  cases he : i.environment with
  | none =>
    cases he' : i'.environment with
    | none => rfl
    | some e' =>
      rw [he, he'] at heq
      exact absurd heq.symm (h'.environment e' he').ne_dash
  | some e =>
    cases he' : i'.environment with
    | none =>
      rw [he, he'] at heq
      exact absurd heq (h.environment e he).ne_dash
    | some e' =>
      rw [he, he'] at heq
      exact congrArg some heq

/-- Identities whose names pass their checks are filed apart. -/
theorem file_inj (h : i.Admitted) (h' : i'.Admitted) (heq : i.file = i'.file) : i = i' := by
  obtain ⟨hcollection, hkey⟩ := Prod.mk.inj heq
  have hkey := congrArg String.toList hkey
  rw [toList_key, toList_key] at hkey
  obtain ⟨haccount, hkey⟩ := append_cons_inj_left h.account.not_slash h'.account.not_slash hkey
  obtain ⟨hproject, hkey⟩ := append_cons_inj_left h.project.not_slash h'.project.not_slash hkey
  obtain ⟨hplace, hname⟩ := append_cons_inj_left h.place_not_slash h'.place_not_slash hkey
  have henvironment := h.environment_eq h' (String.toList_inj.1 hplace)
  obtain ⟨kind, account, project, environment, name⟩ := i
  rw [Identity.mk.injEq]
  exact ⟨Kind.collection_inj hcollection, String.toList_inj.1 haccount,
    String.toList_inj.1 hproject, henvironment, String.toList_inj.1 hname⟩

end Identity

/-- The identity of a stored document. -/
def StoredDocument.identity (d : StoredDocument) : Identity := d.card.key.identity

@[simp] theorem Resource.identity_stored (r : Resource) :
    r.stored.identity = r.mappingKey.identity := by
  rw [StoredDocument.identity, Resource.card_stored]
  rfl

/-- A resource is filed under its identity. -/
theorem Resource.file_stored (r : Resource) :
    r.stored.identity.file = (r.stored.collection, r.stored.key) := by
  rw [identity_stored]
  rfl

/-- The identity of the resource that an input asks for in a scope. -/
def ResourceInput.identity (i : ResourceInput) (s : Scope) : Identity :=
  ⟨i.kind, s.accountName, s.projectName, s.environmentName?, i.name⟩

/-- What passes the checks of a create has an identity that they admit. -/
theorem ResourceInput.admitted {i : ResourceInput} {s : Scope} (hnames : i.checkNames = .ok ())
    (hplace : i.checkPlace s = .ok ()) : (i.identity s).Admitted := by
  have checked : ∀ {a b : Except OpError Unit}, (do a; b) = .ok () → a = .ok () ∧ b = .ok () := by
    rintro (_ | _) b h
    · cases h
    · exact ⟨rfl, h⟩
  obtain ⟨hname, -⟩ := checked hnames
  obtain ⟨hscope, -⟩ := checked hplace
  obtain ⟨haccount, hscope⟩ := checked hscope
  obtain ⟨hproject, henvironment⟩ := checked hscope
  refine ⟨.of_check haccount, .of_check hproject, fun e he => ?_, .of_check hname⟩
  have he : s.environmentName? = some e := he
  rw [he] at henvironment
  exact .of_check henvironment

end FleetSync
