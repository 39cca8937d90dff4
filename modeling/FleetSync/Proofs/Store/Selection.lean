import FleetSync.Control.Sweep
import FleetSync.Proofs.Store.Card
import FleetSync.Proofs.Store.Contents

/-!
# What filters pick

A filter on texts tells of every resource of a kind whether its card meets a test (`Filter.Picks`):
no resource that meets the test is missed, and none is picked that does not. The filters of a scope
pick its members (`Filter.Picks.members`), and those that are deleted along with it
(`Filter.Picks.purged`).
-/

namespace FleetSync

namespace Scope

/-- Whether what is filed under a key is a member of a scope. -/
def takes (s : Scope) (k : MappingKey) : Bool :=
  k.account == s.accountName && k.project == s.projectName &&
    match s.environmentName? with
    | none => true
    | some e =>
      if k.kind = .environment then k.name == e
      else k.kind.level == .environment && k.environment == some e

/-- Whether a member of a scope is the owner of it. -/
def isOwner (s : Scope) (k : MappingKey) : Bool := s.isOwnedBy k.kind && k.name == s.ownerName

theorem purges_eq (s : Scope) (r : Resource) : s.purges r = !s.isOwner r.card.key := rfl

/-- If anything is purged then a purge was asked for. -/
theorem purge_of_purged {s : Scope} {purge : Bool} {rs purged : List Resource}
    (h : rs.filter (fun r => purge && s.purges r) = purged) (some : (!purged.isEmpty) = true) :
    purge = true := by
  obtain ⟨r, hr⟩ := List.exists_mem_of_ne_nil purged (by simpa using some)
  rw [← h, List.mem_filter, Bool.and_eq_true] at hr
  exact hr.2.1

end Scope

/-- A condition on a text holds if the text is the one that is asked for, unless the document cannot
be read. -/
theorem Condition.holds?_text {r : Resource} {n : String} {o : Option String} (v : Option String)
    (hn : n ∈ Resource.storedNames) (hf : r.field n = .ofOption .str o) :
    (Condition.eq [.field ⟨n.toList⟩] (.ofOption .str v)).holds? r.stored.body =
      if r.stored.body.isReadable then some (o == v) else none := by
  have hat := r.at?_stored hn []
  rw [hf, Resource.canonical_ofText] at hat
  have hv : (Condition.eq [.field ⟨n.toList⟩] (.ofOption .str v)).operand.isReadable = true := by
    cases v <;> rfl
  rw [holds?, hv, Bool.and_true, path, hat]
  split
  · cases o <;> cases v <;> rfl
  · rfl

/-- A condition on a text tells whether the text is the one that is asked for. -/
theorem Condition.eq_text {r : Resource} {n : String} {o v : Option String} {b : Bool}
    (hn : n ∈ Resource.storedNames) (hf : r.field n = .ofOption .str o)
    (h : (Condition.eq [.field ⟨n.toList⟩] (.ofOption .str v)).holds? r.stored.body = some b) :
    b = (o == v) := by
  rw [Condition.holds?_text v hn hf] at h
  split at h
  · exact (Option.some.inj h).symm
  · cases h

theorem Condition.ne_text {r : Resource} {n : String} {o v : Option String} {b : Bool}
    (hn : n ∈ Resource.storedNames) (hf : r.field n = .ofOption .str o)
    (h : (Condition.ne [.field ⟨n.toList⟩] (.ofOption .str v)).holds? r.stored.body = some b) :
    b = !(o == v) := by
  have hat := r.at?_stored hn []
  rw [hf, Resource.canonical_ofText] at hat
  rw [holds?] at h
  split at h
  · rw [path, hat] at h
    have hb := (Option.some.inj h).symm
    rw [hb]
    cases o <;> cases v <;> rfl
  · cases h

namespace Filter

/-- Whether a filter tells of the resources of a kind whether their cards meet a test. -/
def Picks (f : Filter) (kind : Kind) (test : Card → Bool) : Prop :=
  ∀ (r : Resource) (b : Bool), r.kind = kind → f.holds? r.stored.body = some b → b = test r.card

namespace Picks

variable {kind : Kind} {f g : Filter} {test test' : Card → Bool}

theorem nil : Picks [] kind fun _ => true := fun _ _ _ h => (Option.some.inj h).symm

theorem cons {c : Condition} {test : Card → Bool}
    (hc : ∀ (r : Resource) (b : Bool), r.kind = kind → c.holds? r.stored.body = some b →
      b = test r.card) (h : Picks f kind test') :
    Picks (c :: f) kind fun card => test card && test' card := by
  intro r b hk hb
  rw [holds?] at hb
  cases hx : c.holds? r.stored.body with
  | none => rw [hx] at hb; cases hb
  | some x =>
    rw [hx] at hb
    have htest := hc r x hk hx
    cases x with
    | true => simpa [← htest] using h r b hk hb
    | false =>
      have hb : b = false := (Option.some.inj hb).symm
      simp [hb, ← htest]

theorem append (hf : Picks f kind test) (hg : Picks g kind test') :
    Picks (f ++ g) kind fun card => test card && test' card := by
  intro r b hk hb
  have append : ∀ f : Filter, (f ++ g).holds? r.stored.body = some b →
      ∃ x, f.holds? r.stored.body = some x ∧
        (x = false ∧ b = false ∨ x = true ∧ g.holds? r.stored.body = some b) := by
    intro f
    induction f with
    | nil => exact fun h => ⟨true, rfl, .inr ⟨rfl, h⟩⟩
    | cons c rest ih =>
      intro h
      rw [List.cons_append, holds?] at h
      cases hx : c.holds? r.stored.body with
      | none => rw [hx] at h; cases h
      | some x =>
        rw [hx] at h
        cases x with
        | true => simpa [holds?, hx] using ih h
        | false =>
          have hb : b = false := (Option.some.inj h).symm
          exact ⟨false, by simp [holds?, hx], .inl ⟨rfl, hb⟩⟩
  obtain ⟨x, hx, ⟨rfl, rfl⟩ | ⟨rfl, hb⟩⟩ := append f hb
  · have htest := hf r _ hk hx
    simp [← htest]
  · have htest := hf r _ hk hx
    have htest' := hg r b hk hb
    simp [← htest, ← htest']

theorem congr (h : Picks f kind test) (ht : ∀ card : Card, card.key.kind = kind →
    test card = test' card) : Picks f kind test' :=
  fun r b hk hb => (h r b hk hb).trans (ht r.card hk)

/-- A condition on a text picks by the text on the card. -/
theorem text (n : String) (v : Option String) (view : Card → Option String)
    (hn : n ∈ Resource.storedNames)
    (hv : ∀ r : Resource, r.field n = .ofOption .str (view r.card)) :
    Picks [.eq [.field ⟨n.toList⟩] (.ofOption .str v)] kind fun card => view card == v := by
  have h : Picks [.eq [.field ⟨n.toList⟩] (.ofOption .str v)] kind fun card =>
      view card == v && true := cons (fun r _ _ hb => Condition.eq_text hn (hv r) hb) nil
  exact h.congr fun card _ => Bool.and_true _

theorem id (i : String) : Picks (.byId i) kind fun card => card.id == i := by
  have h : Picks (.byId i) kind fun card => some card.id == some i :=
    text "id" (some i) (some ·.id) (by decide) fun _ => rfl
  exact h.congr fun card _ => by simp

theorem inProject (a p : String) :
    Picks (.inProject a p) kind fun card => card.key.account == a && card.key.project == p := by
  have ha : Picks [.eq ["account_name"] (.str a)] kind fun card =>
      some card.key.account == some a :=
    text "account_name" (some a) (some ·.key.account) (by decide) fun _ => rfl
  have hp : Picks [.eq ["project_name"] (.str p)] kind fun card =>
      some card.key.project == some p :=
    text "project_name" (some p) (some ·.key.project) (by decide) fun _ => rfl
  exact (ha.append hp).congr fun card _ => by simp

theorem hasName (n : String) : Picks (.hasName n) kind fun card => card.key.name == n := by
  have h : Picks (.hasName n) kind fun card => some card.key.name == some n :=
    text "name" (some n) (some ·.key.name) (by decide) fun _ => rfl
  exact h.congr fun card _ => by simp

theorem hasNotName (n : String) :
    Picks [.ne ["name"] (.str n)] kind fun card => card.key.name != n := by
  have h : Picks [.ne ["name"] (.str n)] kind fun card =>
      (!(some card.key.name == some n)) && true :=
    cons (fun r b _ hb => Condition.ne_text (n := "name") (o := some r.name) (v := some n)
      (by decide) rfl hb) nil
  exact h.congr fun card _ => by simp [bne]

theorem inEnvironment (e : String) : Picks [.eq ["environment_name"] (.str e)] kind fun card =>
    card.key.environment == some e :=
  text "environment_name" (some e) (·.key.environment) (by decide) fun _ => rfl

/-- The filter of a name in a scope picks by all that tells a resource from others of its kind. -/
theorem named (s : Scope) (n : String) : Picks (.named s n) kind fun card =>
    card.key.account == s.accountName && card.key.project == s.projectName &&
      card.key.environment == s.environmentName? && card.key.name == n := by
  have environment : Picks [.eq ["environment_name"] (.ofOption .str s.environmentName?)] kind
      fun card => card.key.environment == s.environmentName? :=
    text "environment_name" _ (·.key.environment) (by decide) fun _ => rfl
  exact ((inProject _ _).append environment).append (hasName n)

/-- The filter of a scope picks its members. -/
theorem members {s : Scope} (h : Filter.members? s kind = some f) :
    Picks f kind fun card => s.takes card.key := by
  rw [members?] at h
  have project : Picks (.inProject s.accountName s.projectName) kind fun card =>
      card.key.account == s.accountName && card.key.project == s.projectName := inProject _ _
  cases he : s.environmentName? with
  | none =>
    rw [he] at h
    obtain rfl := Option.some.inj h
    exact project.congr fun card _ => by simp [Scope.takes, he]
  | some e =>
    rw [he] at h
    dsimp only at h
    split at h
    · rename_i hk
      obtain rfl := Option.some.inj h
      exact (project.append (hasName e)).congr fun card hc => by simp [Scope.takes, he, hc, hk]
    · rename_i hk
      split at h
      · cases h
      · rename_i hlevel
        obtain rfl := Option.some.inj h
        have hlevel : kind.level = .environment := by
          cases hl : kind.level with
          | project => exact absurd hl hlevel
          | environment => rfl
        exact (project.append (inEnvironment e)).congr fun card hc => by
          simp [Scope.takes, he, hc, hk, hlevel]

/-- The filter of what is deleted along with a scope picks all members but the owner. -/
theorem purged {s : Scope} (h : Filter.members? s kind = some f) :
    Picks (if s.isOwnedBy kind then f ++ [.ne ["name"] (.str s.ownerName)] else f) kind fun card =>
      s.takes card.key && !s.isOwner card.key := by
  split
  · rename_i ho
    exact ((members h).append (hasNotName s.ownerName)).congr fun card hc => by
      simp [Scope.isOwner, hc, ho, bne]
  · rename_i ho
    exact (members h).congr fun card hc => by simp [Scope.isOwner, hc, ho]

/-- A stored resource that is found under a name in a scope is the one of that name there. -/
theorem named_of_matches {r : Resource} {s : Scope} {n : String}
    (h : r.stored.matches? kind.collection (.named s n) = true) :
    r.kind = kind ∧ r.accountName = s.accountName ∧ r.projectName = s.projectName ∧
      r.environmentName = s.environmentName? ∧ r.name = n := by
  have hkind : r.kind = kind := Kind.collection_inj (DocumentStore.collection_of_matches? h)
  have holds : Filter.holds? (.named s n) r.stored.body = some true :=
    eq_of_beq (Bool.and_eq_true_iff.1 h).2
  have named := (Picks.named s n r true hkind holds).symm
  simp only [Bool.and_eq_true, beq_iff_eq] at named
  obtain ⟨⟨⟨account, project⟩, environment⟩, hname⟩ := named
  exact ⟨hkind, account, project, environment, hname⟩

end Picks

/-- Of a kind that has no members in a scope nothing is a member. -/
theorem not_takes_of_members? {s : Scope} {k : MappingKey} (h : members? s k.kind = none) :
    s.takes k = false := by
  rw [members?] at h
  cases he : s.environmentName? with
  | none => rw [he] at h; cases h
  | some e =>
    rw [he] at h
    dsimp only at h
    split at h
    · cases h
    · rename_i hk
      split at h
      · rename_i hlevel
        simp [Scope.takes, he, hk, hlevel]
      · cases h

end Filter

/-- A report is taken to be about the resources at its address that can be read. -/
theorem Resource.matches_reported {r : Resource} {report : Wire.Report} :
    r.stored.matches? report.resourceKind.collection (.reported report) = true ↔
      r.card.address? = some report.address ∧ r.stored.body.isReadable = true := by
  have text : ∀ {n : String} {o : Option String} (v : Option String), n ∈ storedNames →
      r.field n = .ofOption .str o →
      ((Condition.eq [.field ⟨n.toList⟩] (.ofOption .str v)).holds? r.stored.body = some true ↔
        r.stored.body.isReadable = true ∧ o = v) := by
    intro n o v hn hf
    rw [Condition.holds?_text v hn hf]
    split <;> simp [*]
  have account := text (n := "account_name") (o := some r.accountName) (some report.accountName)
    (by decide) rfl
  have cluster := text (n := "cluster_name") (o := r.clusterName) (some report.clusterName)
    (by decide) rfl
  have namespaceName := text (n := "namespace") (o := some r.namespaceName)
    (some report.object.namespaceName) (by decide) rfl
  have name := text (n := "name") (o := some r.name) (some report.object.name) (by decide) rfl
  rw [StoredDocument.matches?, Bool.and_eq_true, beq_iff_eq, beq_iff_eq, Filter.reported,
    Filter.holds?_cons, Filter.holds?_cons, Filter.holds?_cons, Filter.holds?_cons]
  refine Iff.trans (and_congr_right fun _ => and_congr account (and_congr cluster
    (and_congr namespaceName (and_congr_left fun _ => name)))) ?_
  have hcol : r.stored.collection = report.resourceKind.collection ↔
      r.kind = report.resourceKind :=
    ⟨Kind.collection_inj, congrArg Kind.collection⟩
  rw [hcol]
  cases hx : r.clusterName with
  | none => simp [Card.address?, Resource.card, hx]
  | some x =>
    simp only [Card.address?, Card.addressOn, Resource.card, Resource.mappingKey, hx,
      Wire.Report.address, Option.map_some, Option.some.injEq, Wire.Address.mk.injEq, Filter.holds?]
    constructor
    · rintro ⟨hk, ⟨hb, ha⟩, ⟨-, hc⟩, ⟨-, hns⟩, ⟨-, hn⟩, -⟩
      exact ⟨⟨hk, ha, hc, hns, hn⟩, hb⟩
    · rintro ⟨⟨hk, ha, hc, hns, hn⟩, hb⟩
      exact ⟨hk, ⟨hb, ha⟩, ⟨hb, hc⟩, ⟨hb, hns⟩, ⟨hb, hn⟩, trivial⟩

end FleetSync
