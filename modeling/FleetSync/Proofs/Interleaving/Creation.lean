import FleetSync.Proofs.Sequence.Tidy
import FleetSync.Proofs.Store.Identity

/-!
# Creates that race

A create checks names first, and until it inserts its document it only looks (`Files`). The store
refuses a document whose identity is taken, and no other that it can read, for the keys of admitted
identities tell them apart (`System.inserts`). A create that is refused ends with that, and nothing
it did left a trace (`System.refused_unwritten`). No edit touches an identity
(`System.identity_kept`), so identities stay unique and admitted in every run
(`System.identities_unique`).
-/

namespace FleetSync

open Program (Follows)

/-- Whether a call only looks, or makes an id. -/
def Call.isLook : Call → Bool
  | .now | .freshId | .authorize .. | .findOne .. | .find .. | .resolve _ => true
  | _ => false

/-- Whether all calls before only looked. -/
def Looked (past : List Exchange) : Prop := ∀ x ∈ past, x.call.isLook = true

/-- Whether a document was inserted before. -/
def Filed (past : List Exchange) : Prop := ∃ d, ⟨.insert d, .ok ()⟩ ∈ past

/-- What a create may do: names are checked before all, and there is nothing but looking before an
insert, and nothing after one that was refused. -/
def Files (s : Scope) (input : ResourceInput) (past : List Exchange) (c : Call) : Prop :=
  input.checkNames = .ok () ∧ input.checkPlace s = .ok () ∧
    (Filed past ∨ Looked past ∧ (c.isLook = true ∨ ∃ d, c = .insert d))

/-- How a create ends: after an insert, without one, or with its refusal. -/
def FilingEnds {α : Type} (input : ResourceInput) (past : List Exchange) (r : Except OpError α) :
    Prop :=
  Filed past ∨ Looked past ∨ ∃ before d e, past = before ++ [⟨.insert d, .error e⟩] ∧
    ∀ collection key, e = .alreadyExists collection key →
      r = .error (.alreadyExists input.kind.name input.name)

section

variable {α β : Type} {past : List Exchange} {s : Scope} {input : ResourceInput} {c : Call}

theorem Looked.nil : Looked [] := fun _ hx => nomatch hx

theorem Looked.concat {x : Exchange} (h : Looked past) (hx : x.call.isLook = true) :
    Looked (past ++ [x]) := by
  intro y hy
  rcases List.mem_append.1 hy with hy | hy
  · exact h y hy
  · exact List.mem_singleton.1 hy ▸ hx

theorem Looked.not_filed (h : Looked past) : ¬ Filed past :=
  fun ⟨_, hd⟩ => Bool.false_ne_true (h _ hd)

theorem FilingEnds.refused {d : Document} {e : OpError} {r : Except OpError α}
    (h : ∀ collection key, e = .alreadyExists collection key →
      r = .error (.alreadyExists input.kind.name input.name)) :
    FilingEnds input (past ++ [⟨.insert d, .error e⟩]) r := .inr (.inr ⟨past, d, e, rfl, h⟩)

theorem Filed.mono {past' : List Exchange} (h : Filed past) (hp : past <+: past') : Filed past' :=
  h.imp fun _ hd => hp.subset hd

variable (hnames : input.checkNames = .ok ()) (hplace : input.checkPlace s = .ok ())

include hnames hplace

/-- Once a document is inserted, everything may be done. -/
theorem Filed.follows (h : Filed past) (q : Program α) :
    Follows (Files s input) (fun past' _ => Filed past') past q := by
  induction q generalizing past with
  | done r => exact h
  | call c next ih =>
    exact ⟨⟨hnames, hplace, .inl h⟩, fun a => ih a (h.mono (List.prefix_append past _))⟩

theorem Looked.ask {k : c.Answer → Except OpError α} (h : Looked past) (hc : c.isLook = true) :
    Follows (Files s input) (fun past' _ => Looked past') past (.call c fun a => .done (k a)) :=
  Follows.single ⟨hnames, hplace, .inr ⟨h, .inl hc⟩⟩ fun _ => h.concat hc

omit hnames hplace

/-- A create may go on after it looked. -/
theorem Program.Follows.thenFile {q : Program β} {f : β → Program α}
    (h : Follows (Files s input) (fun past' _ => Looked past') past q)
    (ok : ∀ past' b, Looked past' → Follows (Files s input) (FilingEnds input) past' (f b)) :
    Follows (Files s input) (FilingEnds input) past (q >>= f) :=
  h.bind (fun past' b _ hl => ok past' b hl) fun _ _ _ hl => .inr (.inl hl)

include hnames hplace

theorem Scope.requireOwner_looks (h : Looked past) (kind : Kind) :
    Follows (Files s input) (fun past' _ => Looked past') past (s.requireOwner kind) := by
  unfold requireOwner
  split
  · exact h
  · refine Follows.bind (h.ask hnames hplace rfl) (fun past' o _ hl => ?_) fun _ _ _ hl => hl
    cases o with
    | none => exact hl
    | some doc =>
      dsimp only
      split <;> exact hl

theorem Resource.cluster_looks (h : Looked past) (r : Resource) :
    Follows (Files s input) (fun past' _ => Looked past') past r.cluster := by
  unfold cluster
  split
  · exact h
  · exact h.ask hnames hplace rfl

/-- An insert is done, or it ends with its refusal. -/
theorem Resource.insert_files (h : Looked past) {r : Resource} (hkind : r.kind = input.kind)
    (hname : r.name = input.name) {f : Unit → Program α} :
    Follows (Files s input) (FilingEnds input) past (r.insert >>= f) := by
  refine ⟨⟨hnames, hplace, .inr ⟨h, .inr ⟨_, rfl⟩⟩⟩, fun a => ?_⟩
  cases a with
  | ok _ => exact (Filed.follows hnames hplace ⟨_, List.mem_concat_self⟩ _).mono fun _ _ _ => .inl
  | error e =>
    cases e with
    | alreadyExists collection key =>
      exact FilingEnds.refused fun _ _ _ => by rw [hkind, hname]
    | _ => exact FilingEnds.refused nofun

end

namespace ControlPlane

variable (p : ControlPlane)

theorem create_files (user : User) (s : Scope) (input : ResourceInput) :
    Follows (Files s input) (FilingEnds input) [] (p.create user s input) := by
  unfold create
  cases hnames : input.checkNames with
  | error e => exact .inr (.inl .nil)
  | ok _ =>
  cases hplace : input.checkPlace s with
  | error e => exact .inr (.inl .nil)
  | ok _ =>
  change Follows _ _ [] (Program.authorize user.id (.of input.kind s input.name) .create >>= _)
  refine Follows.thenFile (Looked.nil.ask hnames hplace rfl) fun _ _ hl => ?_
  refine (Scope.requireOwner_looks hnames hplace hl input.kind).thenFile fun _ _ hl => ?_
  refine Follows.thenFile (hl.ask hnames hplace rfl) fun _ time hl => ?_
  refine Follows.thenFile (hl.ask hnames hplace rfl) fun _ id hl => ?_
  refine (Resource.cluster_looks hnames hplace hl _).thenFile fun _ cluster hl => ?_
  exact Resource.insert_files hnames hplace hl rfl rfl

end ControlPlane

theorem Operation.create_files (p : ControlPlane) (user : User) (s : Scope)
    (input : ResourceInput) : Follows (Files s input) (FilingEnds input) []
      ((Operation.create user s input).program p) := by
  refine (p.create_files user s input).map (fun _ r _ h => ?_) fun _ e _ h => ?_
  · refine h.imp_right (.imp_right ?_)
    rintro ⟨before, d, e, hpast, hr⟩
    exact ⟨before, d, e, hpast, fun collection key he => nomatch hr collection key he⟩
  · refine h.imp_right (.imp_right ?_)
    rintro ⟨before, d, e', hpast, hr⟩
    refine ⟨before, d, e', hpast, fun collection key he => ?_⟩
    rw [Except.error.inj (hr collection key he)]

/-- Whether two worlds have the same documents, mappings, messages and events. -/
structure World.SameStores (w w' : World) : Prop where
  documents : w'.documents = w.documents
  mappings : w'.mappings = w.mappings
  bus : w'.bus = w.bus
  events : w'.events = w.events

namespace World

theorem SameStores.refl (w : World) : w.SameStores w := ⟨rfl, rfl, rfl, rfl⟩

variable (x : Circumstances) (w : World)

/-- A call is answered by the world, or it leaves the world as it is. -/
theorem reply_answered (c : Call) :
    w.reply x c = answer (fun _ _ _ => x.permission) c { w with clock := x.time } ∨
      w.SameStores (w.reply x c).2 := by
  rcases w.reply_cases x c with hw | ⟨-, hw⟩ | ⟨-, hw⟩
  · exact .inl hw
  · rw [hw]
    exact .inr (.refl w)
  · rw [hw]
    exact .inr (.refl w)

theorem reply_look {c : Call} (h : c.isLook = true) : w.SameStores (w.reply x c).2 := by
  rcases w.reply_answered x c with hw | same
  · rw [hw]
    cases c <;> first | exact ⟨rfl, rfl, rfl, rfl⟩ | cases h
  · exact same

/-- A call that fails changes nothing. -/
theorem reply_failed {c : Call} {e : OpError} (h : c.failure? e = some (w.reply x c).1) :
    w.SameStores (w.reply x c).2 := by
  rcases w.reply_answered x c with hw | same
  · rw [hw] at h ⊢
    cases c with
    | insert | patchOne | deleteOne | deleteMany | upsert =>
      simp only [answer] at h ⊢
      split at h
      · cases h
      · exact ⟨rfl, rfl, rfl, rfl⟩
    | _ => first | exact ⟨rfl, rfl, rfl, rfl⟩ | cases h
  · exact same

theorem reply_refused {d : Document} {e : OpError} (h : (w.reply x (.insert d)).1 = .error e) :
    w.SameStores (w.reply x (.insert d)).2 := w.reply_failed x (congrArg some h.symm)

/-- An insert that does not fail is refused if the store cannot read the document or it collides. -/
theorem reply_insert {d : Document} (served : x.failure = none) : (w.reply x (.insert d)).1 =
    if (StoredDocument.of d).body.isReadable = false then .error DocumentStore.failed
    else if w.documents.collides d = true then .error (.alreadyExists d.collection d.key)
    else .ok () := by
  have hw : w.reply x (.insert d) =
      answer (fun _ _ _ => x.permission) (.insert d) { w with clock := x.time } := by
    simp [reply, served]
  rw [hw, answer, DocumentStore.insert]
  cases (StoredDocument.of d).body.isReadable <;> cases w.documents.collides d <;> rfl

end World

/-- Whether an identity is taken by a document. -/
def Identity.Taken (i : Identity) (docs : List StoredDocument) : Prop :=
  ∃ d ∈ docs, d.identity = i

/-- Whether the store refused a document of a task since its identity is taken. -/
def Task.Refused (t : Task) : Prop :=
  ∃ d collection key, ⟨.insert d, .error (.alreadyExists collection key)⟩ ∈ t.past

/-- Whether an insert was refused since an identity is taken. -/
def Exchange.isRefusal : Exchange → Bool
  | ⟨.insert _, .error (.alreadyExists ..)⟩ => true
  | _ => false

theorem Task.refused_of_any {t : Task} (h : t.past.any Exchange.isRefusal = true) : t.Refused := by
  obtain ⟨x, hx, h⟩ := List.any_eq_true.1 h
  revert hx h
  unfold Exchange.isRefusal
  split
  · exact fun hx _ => ⟨_, _, _, hx⟩
  · exact fun _ h => absurd h Bool.false_ne_true

/-- What an insert for an identity is answered, if the call does not fail. -/
structure Decides (docs : List StoredDocument) (i : Identity) (d : Document)
    (a : Except OpError Unit) : Prop where
  won : a = .ok () ↔ (StoredDocument.of d).body.isReadable = true ∧ ¬ i.Taken docs
  lost : a = .error (.alreadyExists d.collection d.key) ↔
    (StoredDocument.of d).body.isReadable = true ∧ i.Taken docs

namespace System

variable {p : ControlPlane} {moves : List Move} {i : Nat} {t : Task} {user : User} {s : Scope}
  {input : ResourceInput} {past : List Exchange}

/-! ### Identities -/

/-- The identity of what a create inserts is the one that is asked for. -/
theorem identity_of_draft {r : Resource} {id : String} {time : Instant} {cluster : Option String}
    (draft : r = { input.toResource user s id time with clusterName := cluster }) :
    r.stored.identity = input.identity s := by
  rw [Resource.identity_stored, draft]
  rfl

/-- An edit keeps what a document is filed under. -/
theorem Edited.key {s s' : System} {d d' : StoredDocument} (h : Edited s s' d d') :
    d'.card.key = d.card.key := by
  cases h with
  | intro _ _ _ _ _ kind =>
    rw [Resource.card_stored, Edit.card_apply kind, Edit.key_cardOf, Resource.card_stored]

theorem Edited.identity {s s' : System} {d d' : StoredDocument} (h : Edited s s' d d') :
    d'.identity = d.identity := congrArg MappingKey.identity h.key

/-- What a document is filed under stays for as long as it is stored. -/
theorem key_kept (p : ControlPlane) {ms : List Move} (hp : ms <+: moves)
    {d d' : StoredDocument} (hd : d ∈ (after p ms).documents) (hd' : d' ∈ (after p moves).documents)
    (hid : d.id = d'.id) : d'.card.key = d.card.key := by
  refine descent p (R := fun d d' => d'.card.key = d.card.key) (fun _ => rfl)
    (fun h h' => h'.trans h) hp (fun ms m _ _ d hd d' hd' hid => ?_) hd hd' hid
  rcases (sound p ms).change m hd hd' hid with rfl | hedit
  · rfl
  · exact hedit.key

/-- A document keeps its identity for as long as it is stored. -/
theorem identity_kept (p : ControlPlane) {ms : List Move} (hp : ms <+: moves)
    {d d' : StoredDocument} (hd : d ∈ (after p ms).documents) (hd' : d' ∈ (after p moves).documents)
    (hid : d.id = d'.id) : d'.identity = d.identity :=
  congrArg MappingKey.identity (key_kept p hp hd hd' hid)

/-- Only admitted identities are created. -/
theorem admitted (p : ControlPlane) (moves : List Move) :
    ∀ d ∈ (after p moves).documents, d.identity.Admitted := by
  refine always p (P := fun _ d => d.identity.Admitted) (fun moves m ih d' hd' => ?_) moves
  rcases (sound p moves).came m hd' with hd' | hnew | ⟨d, hd, hedit⟩
  · exact ih moves (List.prefix_refl _) d' hd'
  · cases hnew with
    | @intro i past user s input id time cluster r makes draft _ =>
      obtain ⟨hnames, hplace, -⟩ := follows_of_makes makes (Operation.create_files p user s input)
      rw [identity_of_draft draft]
      exact input.admitted hnames hplace
  · exact hedit.identity ▸ ih moves (List.prefix_refl _) d hd

/-- No two documents have the same identity. -/
theorem eq_of_identity_eq (p : ControlPlane) (moves : List Move) {d d' : StoredDocument}
    (hd : d ∈ (after p moves).documents) (hd' : d' ∈ (after p moves).documents)
    (h : d.identity = d'.identity) : d = d' := by
  have identities := (tidy p moves).identities
  rw [DocumentStore.cards, List.map_map] at identities
  exact List.inj_on_of_nodup_map identities hd hd' h

/-! ### Inserts -/

/-- A turn answers by its circumstances. -/
theorem reply_of_turn {operation : Operation} {x : Exchange} {j : Nat} {y : Circumstances}
    (makes : (after p moves).Makes i operation past x (after p (moves ++ [.turn j y]))) :
    x.answer = ((after p moves).world.reply y x.call).1 := by
  rw [after_concat] at makes
  rcases (after p moves).turn_cases j y with hturn | ⟨operation', past', c, next, htask, hturn⟩
  · exact absurd (congrArg (·.tasks[i]?) hturn) makes.changes
  · obtain ⟨-, -, -, rfl⟩ := makes.unique ⟨_, _, htask, congrArg System.tasks hturn⟩
    rfl

/-- A new id left aside, a document collides just if its identity is taken. -/
theorem collides_iff_taken {r : Resource} (hadmitted : r.stored.identity.Admitted)
    (new : r.id ∉ (after p moves).documentIds) :
    (after p moves).world.documents.collides r.document = true ↔
      r.stored.identity.Taken (after p moves).documents := by
  rw [DocumentStore.collides, List.any_eq_true]
  constructor
  · rintro ⟨d, hd, h⟩
    rw [Bool.and_eq_true, Bool.or_eq_true, beq_iff_eq, beq_iff_eq, beq_iff_eq] at h
    obtain ⟨hcol, hid | hkey⟩ := h
    · exact absurd (List.mem_map.2 ⟨d, hd, hid⟩) new
    · refine ⟨d, hd, Identity.file_inj (admitted p moves d hd) hadmitted ?_⟩
      obtain ⟨r', -, rfl⟩ := sound p moves moves (List.prefix_refl _) d hd
      rw [Resource.file_stored, Resource.file_stored]
      exact Prod.ext hcol hkey
  · rintro ⟨d, hd, h⟩
    obtain ⟨r', -, rfl⟩ := sound p moves moves (List.prefix_refl _) d hd
    have hfile := congrArg Identity.file h
    rw [Resource.file_stored, Resource.file_stored] at hfile
    obtain ⟨hcol, hkey⟩ := Prod.mk.inj hfile
    refine ⟨_, hd, ?_⟩
    rw [Bool.and_eq_true, Bool.or_eq_true, beq_iff_eq, beq_iff_eq, beq_iff_eq]
    exact ⟨hcol, .inr hkey⟩

/-- What a create inserts has the identity that is asked for, which is admitted, and an id that no
document has. -/
theorem draft_of_makes {m : Move} {d : Document} {a : Except OpError Unit}
    (makes : (after p moves).Makes i (.create user s input) past ⟨.insert d, a⟩
      (after p (moves ++ [m]))) :
    ∃ r : Resource, d = r.document ∧ r.stored.identity = input.identity s ∧
      (input.identity s).Admitted ∧ r.id ∉ (after p moves).documentIds := by
  obtain ⟨hnames, hplace, -⟩ := follows_of_makes makes (Operation.create_files p user s input)
  obtain ⟨user', s', input', id, time, cluster, hop, hd, given, once⟩ :=
    follows_of_makes makes ((Operation.create user s input).follows p)
  cases hop
  have new := not_inserted p moves id makes given once
  exact ⟨_, hd, identity_of_draft rfl, input.admitted hnames hplace, fun hmem =>
    new (inserted_of_mem p moves id hmem)⟩

/-- The insert of a create is refused just if the identity is taken, or the store cannot read the
document. -/
theorem inserts {j : Nat} {y : Circumstances} {d : Document} {a : Except OpError Unit}
    (makes : (after p moves).Makes i (.create user s input) past ⟨.insert d, a⟩
      (after p (moves ++ [.turn j y]))) (served : y.failure = none) :
    Decides (after p moves).documents (input.identity s) d a := by
  obtain ⟨r, rfl, hidentity, hadmitted, new⟩ := draft_of_makes makes
  have hcollides := collides_iff_taken (hidentity ▸ hadmitted) new
  rw [hidentity] at hcollides
  have ha : a = ((after p moves).world.reply y (.insert r.document)).1 := reply_of_turn makes
  rw [World.reply_insert y _ served] at ha
  have failed : DocumentStore.failed ≠ .alreadyExists r.document.collection r.document.key := nofun
  cases hread : (StoredDocument.of r.document).body.isReadable with
  | false =>
    rw [hread, if_pos rfl] at ha
    subst ha
    constructor <;> simp [hread, failed]
  | true =>
    rw [hread, if_neg (by decide)] at ha
    cases hc : (after p moves).world.documents.collides r.document with
    | false =>
      have free := mt hcollides.2 (by rw [hc]; decide)
      rw [hc, if_neg (by decide)] at ha
      subst ha
      constructor <;> simp [hread, free]
    | true =>
      have taken := hcollides.1 hc
      rw [hc, if_pos rfl] at ha
      subst ha
      constructor <;> simp [hread, taken]

/-- A document is inserted only if its identity is free. -/
theorem free_of_inserted {m : Move} {d : Document}
    (makes : (after p moves).Makes i (.create user s input) past ⟨.insert d, .ok ()⟩
      (after p (moves ++ [m]))) : ¬ (input.identity s).Taken (after p moves).documents := by
  obtain ⟨r, rfl, hidentity, -, new⟩ := draft_of_makes makes
  have hdocs := documents_of_inserted makes
  rintro ⟨d, hd, h⟩
  have hold : d ∈ (after p (moves ++ [m])).documents := by
    rw [hdocs]
    exact List.mem_append_left _ hd
  have hnew : r.stored ∈ (after p (moves ++ [m])).documents := by
    rw [hdocs]
    exact List.mem_concat_self
  obtain rfl := eq_of_identity_eq p _ hold hnew (h.trans hidentity.symm)
  exact new (List.mem_map_of_mem hd)

/-! ### Refusals -/

/-- A create that was refused ends with that, and has only looked before. -/
theorem refused_ends (ht : (after p moves).tasks[i]? = some t)
    (hop : t.operation = .create user s input) (h : t.Refused) :
    t.rest = .done (.error (.alreadyExists input.kind.name input.name)) ∧
      ∃ before d e, t.past = before ++ [⟨.insert d, .error e⟩] ∧ Looked before := by
  obtain ⟨d, collection, key, hmem⟩ := h
  obtain ⟨before, later, hpast⟩ := List.append_of_mem hmem
  have law : ∀ past x later, t.past = past ++ x :: later → Files s input past x.call := by
    intro past x later hpast
    obtain ⟨ms, m, -, makes⟩ := made p moves ht hpast
    rw [hop] at makes
    exact follows_of_makes makes (Operation.create_files p user s input)
  have looked : Looked before := by
    obtain ⟨-, -, hfiled | ⟨hl, -⟩⟩ := law before _ later hpast
    · obtain ⟨user', s', input', id, time, cluster, -, -, -, once⟩ :=
        (lawful p moves t (List.mem_of_getElem? ht)).behind before _ later hpast
      obtain ⟨d', hd'⟩ := hfiled
      exact absurd ⟨.inl ⟨d', rfl⟩, rfl⟩ (once _ hd')
    · exact hl
  have stops : ∀ c, ¬ Files s input
      (before ++ [⟨.insert d, .error (.alreadyExists collection key)⟩]) c := by
    rintro c ⟨-, -, ⟨d', hd'⟩ | ⟨hl, -⟩⟩
    · rcases List.mem_append.1 hd' with hd' | hd'
      · exact looked.not_filed ⟨d', hd'⟩
      · cases List.mem_singleton.1 hd'
    · exact Bool.false_ne_true (hl _ List.mem_concat_self)
  obtain rfl : later = [] := by
    cases later with
    | nil => rfl
    | cons y later =>
      refine absurd (law (before ++ [_]) y later ?_) (stops y.call)
      rw [hpast, List.append_assoc, List.singleton_append]
  refine ⟨?_, before, d, _, hpast, looked⟩
  have ahead := follows_after p (Operation.create_files p user s input) moves t
    (List.mem_of_getElem? ht) hop
  rw [hpast] at ahead
  cases hrest : t.rest with
  | call c next =>
    rw [hrest] at ahead
    exact absurd ahead.1 (stops c)
  | done r =>
    rw [hrest] at ahead
    rcases ahead with ⟨d', hd'⟩ | hl | ⟨before', d', e', heq, hr⟩
    · rcases List.mem_append.1 hd' with hd' | hd'
      · exact absurd ⟨d', hd'⟩ looked.not_filed
      · cases List.mem_singleton.1 hd'
    · exact absurd (hl _ List.mem_concat_self) Bool.false_ne_true
    · cases (List.append_inj' heq rfl).2
      rw [hr collection key rfl]

/-- Nothing that a create does before it is refused, and not the refusal, changes the stores. -/
theorem refused_unwritten (ht : (after p moves).tasks[i]? = some t)
    (hop : t.operation = .create user s input) (h : t.Refused) {ms : List Move} {m : Move}
    {past : List Exchange} {x : Exchange} (hp : ms ++ [m] <+: moves)
    (makes : (after p ms).Makes i t.operation past x (after p (ms ++ [m]))) :
    (after p ms).world.SameStores (after p (ms ++ [m])).world := by
  obtain ⟨-, before, d, e, hpast, looked⟩ := refused_ends ht hop h
  obtain ⟨rest, hafter⟩ := makes.after
  obtain ⟨t', ht', -, hlater⟩ := task_later p hp hafter
  obtain rfl := Option.some.inj (ht.symm.trans ht')
  obtain ⟨next, y, -, ha, hw⟩ := reply_of_makes makes
  rw [hw]
  have hx : x ∈ t.past := hlater.subset List.mem_concat_self
  rw [hpast] at hx
  rcases List.mem_append.1 hx with hx | hx
  · exact World.reply_look y _ (looked x hx)
  · obtain rfl := List.mem_singleton.1 hx
    exact World.reply_refused y _ ha.symm

/-- Identities are unique, and who comes too late for one does nothing. -/
structure IdentitiesUnique (p : ControlPlane) (moves : List Move) : Prop where
  /-- At most one document of a kind has an account, project, environment or none, and name. -/
  unique : ∀ d ∈ (after p moves).documents, ∀ d' ∈ (after p moves).documents,
    d.identity = d'.identity → d = d'
  /-- The identity of a document consists of the fields of the resource in it, and all its names
  passed their checks. -/
  admitted : ∀ d ∈ (after p moves).documents, ∃ r : Resource, d = r.stored ∧ d.identity =
    ⟨r.kind, r.accountName, r.projectName, r.environmentName, r.name⟩ ∧ d.identity.Admitted
  /-- A document keeps its identity for as long as it is stored. -/
  kept : ∀ ms, ms <+: moves → ∀ d ∈ (after p ms).documents, ∀ d' ∈ (after p moves).documents,
    d.id = d'.id → d'.identity = d.identity
  /-- Such identities have keys of their own. -/
  keys : ∀ i i' : Identity, i.Admitted → i'.Admitted → i.file = i'.file → i = i'
  /-- A document is inserted only if its identity is free. -/
  free : ∀ m i user s input past d, (after p moves).Makes i (.create user s input) past
    ⟨.insert d, .ok ()⟩ (after p (moves ++ [m])) →
    ¬ (input.identity s).Taken (after p moves).documents
  /-- If the insert of a create does not fail, it is answered by whether the identity is taken. -/
  decided : ∀ j y i user s input past d a, (after p moves).Makes i (.create user s input) past
    ⟨.insert d, a⟩ (after p (moves ++ [.turn j y])) → y.failure = none →
    Decides (after p moves).documents (input.identity s) d a
  /-- A create that was refused ends with an error that names the resource. -/
  refused : ∀ (i : Nat) t user s input, (after p moves).tasks[i]? = some t →
    t.operation = .create user s input → t.Refused →
    t.rest = .done (.error (.alreadyExists input.kind.name input.name))
  /-- No call of it writes a document, a mapping, a message or an event. -/
  unwritten : ∀ (i : Nat) t user s input, (after p moves).tasks[i]? = some t →
    t.operation = .create user s input → t.Refused → ∀ ms m past x, ms ++ [m] <+: moves →
    (after p ms).Makes i t.operation past x (after p (ms ++ [m])) →
    (after p ms).world.SameStores (after p (ms ++ [m])).world

/-- However operations interleave, identities are unique, and who comes too late for one does
nothing. -/
theorem identities_unique (p : ControlPlane) (moves : List Move) : IdentitiesUnique p moves where
  unique _ hd _ hd' h := eq_of_identity_eq p moves hd hd' h
  admitted d hd := by
    obtain ⟨r, -, rfl⟩ := sound p moves moves (List.prefix_refl _) d hd
    exact ⟨r, rfl, r.identity_stored, admitted p moves _ hd⟩
  kept _ hp _ hd _ hd' hid := identity_kept p hp hd hd' hid
  keys _ _ := Identity.file_inj
  free _ _ _ _ _ _ _ := free_of_inserted
  decided _ _ _ _ _ _ _ _ _ := inserts
  refused _ _ _ _ _ ht hop h := (refused_ends ht hop h).1
  unwritten _ _ _ _ _ ht hop h _ _ _ _ := refused_unwritten ht hop h

/-! ### A run -/

/-- Turns of a second task in which nothing fails. -/
def rivalTurns (count : Nat) : List Move :=
  List.replicate count (.turn 1 ⟨default, "7d1c52a1", .ok true, none⟩)

/-- Two creates ask for the same project, and the second one inserts it last. -/
def racedRun : List Move :=
  [.start (.create .system shopScope shopInput), .start (.create .system shopScope shopInput)] ++
    rivalTurns 3 ++ turns 0 7 ++ rivalTurns 1

theorem racedRun_tasks : ∃ t ∈ (after .default racedRun).tasks[1]?,
    t.operation = .create .system shopScope shopInput ∧ t.past.any Exchange.isRefusal = true := by
  decide +kernel

/-- In the run the second create is refused, and it ends with that. -/
theorem identities_unique_raced : ∃ t, (after .default racedRun).tasks[1]? = some t ∧ t.Refused ∧
    t.rest = .done (.error (.alreadyExists "project" "shop")) := by
  obtain ⟨t, ht, hop, hany⟩ := racedRun_tasks
  have refused := Task.refused_of_any hany
  exact ⟨t, ht, refused, (identities_unique .default racedRun).refused 1 t _ _ _ ht hop refused⟩

end System

end FleetSync
