import FleetSync.Proofs.Interleaving.Sound

/-!
# How versions are given out

The version of a document goes up by one at a time, and each time it is one update that raises it
(`System.Makes.raised`). For a version to be raised to the same one twice the document would have
to go back, so no two updates raise a document to the same version (`System.raised_unique`), and an
update does so only once (`Task.Lawful.raised_once`). What an update returns is what it raised the
document to (`Task.Lawful.raised_of_returned`), and if nothing fails it does return it. So the
updates of a document share its versions from the second one on among them
(`System.VersionsAllocated`).
-/

namespace FleetSync

namespace Task

/-- Whether a task is an update that raised the version of a document. -/
def Raised (t : Task) (id : String) (v : Version) : Prop :=
  t.operation.isUpdate = true ∧ ∃ x ∈ t.past, ∃ w, x.Claims id w ∧ v = Version.next w

/-- Whether a task is an update that returned a resource. -/
def Returned (t : Task) (r : Resource) : Prop :=
  t.operation.isUpdate = true ∧ t.rest = .done (.ok (.resource r))

/-- Whether a task has not come to its end. -/
def Unfinished (t : Task) : Prop := ∃ c next, t.rest = .call c next

variable {t : Task} {id id' : String} {v v' : Version}

theorem Raised.mono {t' : Task} (h : t.Raised id v) (hop : t'.operation = t.operation)
    (hp : t.past <+: t'.past) : t'.Raised id v := by
  obtain ⟨hu, x, hx, h⟩ := h
  exact ⟨hop ▸ hu, x, hp.subset hx, h⟩

/-- An update claims a version only before it has committed itself. -/
theorem Lawful.uncommitted {x : Exchange} {past later : List Exchange} (ht : t.Lawful)
    (hu : t.operation.isUpdate = true) (hx : x.Claims id v) (hp : t.past = past ++ x :: later) :
    Uncommitted past := by
  obtain ⟨⟨collection, patch, hc⟩, -⟩ := hx
  have permits := ht.behind past x later hp
  rw [hc] at permits
  obtain ⟨e, he, -, allowed⟩ := permits
  exact (allowed.of_update hu (Edit.guarded_of_call he).1).2

/-- An update raises a version at most once. -/
theorem Lawful.raised_once (ht : t.Lawful) (h : t.Raised id v) (h' : t.Raised id' v') :
    id = id' ∧ v = v' := by
  obtain ⟨hu, x, hx, w, hclaim, rfl⟩ := h
  obtain ⟨-, y, hy, w', hclaim', rfl⟩ := h'
  have hxy : x = y := by
    obtain ⟨a, b, hp⟩ := List.append_of_mem hx
    rw [hp] at hy
    rcases List.mem_append.1 hy with hy | hy
    · exact absurd hclaim'.commits (ht.uncommitted hu hclaim hp y hy)
    rcases List.mem_cons.1 hy with rfl | hy
    · rfl
    · obtain ⟨c, d, rfl⟩ := List.append_of_mem hy
      have hp' : t.past = (a ++ x :: c) ++ y :: d := by
        rw [hp, List.append_assoc, List.cons_append]
      have hx' : x ∈ a ++ x :: c := List.mem_append_right _ (List.mem_cons_self ..)
      exact absurd hclaim.commits (ht.uncommitted hu hclaim' hp' x hx')
  subst hxy
  obtain ⟨⟨c, patch, hc⟩, -⟩ := hclaim
  obtain ⟨⟨c', patch', hc'⟩, -⟩ := hclaim'
  rw [hc] at hc'
  cases hc'
  exact ⟨rfl, rfl⟩

/-- An update returns the version it raised the document to. -/
theorem Lawful.raised_of_returned {r : Resource} (ht : t.Lawful) (h : t.Returned r) :
    t.Raised r.id r.recordVersion := by
  obtain ⟨hu, hrest⟩ := h
  have ends := ht.ahead
  rw [hrest] at ends
  obtain ⟨r', hr', hupdated⟩ := ends hu
  cases r' with
  | error e => cases hr'
  | ok r' =>
    cases hr'
    exact ⟨hu, hupdated⟩

/-- An update that raised a version goes on, or returns it, or was stopped by what failed. -/
theorem Lawful.ends_of_raised (ht : t.Lawful) (h : t.Raised id v) :
    t.Unfinished ∨ (∃ r, t.Returned r ∧ r.id = id ∧ r.recordVersion = v) ∨
      (∃ x ∈ t.past, x.Failed) ∨ ∃ details, t.rest = .done (.error (.frame details)) := by
  have ends := ht.ahead
  cases hrest : t.rest with
  | call c next => exact .inl ⟨c, next, hrest⟩
  | done o =>
    rw [hrest] at ends
    obtain ⟨r', rfl, hupdated⟩ := ends h.1
    cases r' with
    | ok r =>
      have hreturned : t.Returned r := ⟨h.1, hrest⟩
      obtain ⟨hid, hv⟩ := ht.raised_once (ht.raised_of_returned hreturned) h
      exact .inr (.inl ⟨r, hreturned, hid, hv⟩)
    | error e =>
      rcases hupdated with hu | hfailed | ⟨details, rfl⟩
      · obtain ⟨-, x, hx, w, hclaim, -⟩ := h
        exact absurd hclaim.commits (hu x hx)
      · exact .inr (.inr (.inl hfailed))
      · exact .inr (.inr (.inr ⟨details, rfl⟩))

/-- If nothing stopped it, an update that raised a version returned it, or owns it still. -/
theorem Lawful.owns_of_raised (ht : t.Lawful) (h : t.Raised id v)
    (hcalls : ∀ x ∈ t.past, ¬ x.Failed)
    (hframe : ∀ details, t.rest ≠ .done (.error (.frame details))) :
    (∃ r, t.Returned r ∧ r.id = id ∧ r.recordVersion = v) ∨ t.Unfinished ∧ t.Raised id v := by
  rcases ht.ends_of_raised h with hu | hr | ⟨x, hx, hf⟩ | ⟨details, hf⟩
  · exact .inr ⟨hu, h⟩
  · exact .inl hr
  · exact absurd hf (hcalls x hx)
  · exact absurd hf (hframe details)

/-- What an update returned or owns, it raised the document to. -/
theorem Lawful.raised_of_owns (ht : t.Lawful)
    (h : (∃ r, t.Returned r ∧ r.id = id ∧ r.recordVersion = v) ∨
      t.Unfinished ∧ t.Raised id v) : t.Raised id v := by
  rcases h with ⟨r, hr, rfl, rfl⟩ | ⟨-, h⟩
  · exact ht.raised_of_returned hr
  · exact h

end Task

namespace System

variable {p : ControlPlane} {moves : List Move} {i j : Nat} {t t' : Task} {id : String}
  {v : Version}

/-- A task raises the version of a document in a move. -/
def Raises (s : System) (i : Nat) (id : String) (v : Version) (s' : System) : Prop :=
  (∃ operation past x, s.Makes i operation past x s') ∧
    (∃ d ∈ s.documents, d.id = id ∧ v = d.version.next) ∧
      ∃ d ∈ s'.documents, d.id = id ∧ d.version = v

theorem raises_of_makes {m : Move} {operation : Operation} {past : List Exchange} {x : Exchange}
    (makes : (after p moves).Makes i operation past x (after p (moves ++ [m])))
    (hu : operation.isUpdate = true) (hx : x.Claims id v) :
    (after p moves).Raises i id v.next (after p (moves ++ [m])) := by
  obtain ⟨⟨collection, patch, hc⟩, hw⟩ := hx
  have deed := (sound p moves).deed makes ((advance p moves m).of_makes makes).1
  refine ⟨⟨operation, past, x, makes⟩, ?_⟩
  revert deed
  generalize (after p moves).documents = docs
  generalize (after p (moves ++ [m])).documents = docs'
  rintro (⟨keep, -⟩ | _ | ⟨read, allowed, sound, fits, kind⟩)
  · rw [keep] at hw
    cases hw
  · cases hc
  · obtain ⟨hg, rfl, rfl⟩ := Edit.guarded_of_call hc.symm
    obtain ⟨⟨input, user, time, cluster, he⟩, -⟩ := allowed.of_update hu hg
    refine ⟨⟨_, List.mem_append_right _ (List.mem_cons_self ..), fits.id, ?_⟩,
      _, List.mem_append_right _ (List.mem_cons_self ..), (Edit.id_apply ..).trans fits.id, ?_⟩
    · rw [Resource.version_stored, fits.version hg]
    · rw [Resource.version_stored, Edit.apply, he]

/-- What an update raised, it raised at some moment. -/
theorem raises_of_raised (ht : (after p moves).tasks[i]? = some t) (h : t.Raised id v) :
    ∃ ms m, ms ++ [m] <+: moves ∧ (after p ms).Raises i id v (after p (ms ++ [m])) := by
  induction moves using List.reverseRecOn generalizing t with
  | nil => cases ht
  | append_singleton moves m ih =>
    have earlier : ∀ {t}, (after p moves).tasks[i]? = some t → t.Raised id v →
        ∃ ms m', ms ++ [m'] <+: moves ++ [m] ∧
          (after p ms).Raises i id v (after p (ms ++ [m'])) := by
      intro t ht h
      obtain ⟨ms, m', hms, h⟩ := ih ht h
      exact ⟨ms, m', hms.trans (List.prefix_append _ _), h⟩
    rcases (advance p moves m).task_before ht with ht | hpast | ⟨past, x, rest, makes, hpast, hs⟩
    · exact earlier ht h
    · obtain ⟨-, x, hx, -⟩ := h
      rw [hpast] at hx
      cases hx
    · obtain ⟨hu, y, hy, w, hclaim, rfl⟩ := h
      rw [hpast] at hy
      rcases List.mem_append.1 hy with hy | hy
      · exact earlier hs ⟨hu, y, hy, w, hclaim, rfl⟩
      · obtain rfl := List.mem_singleton.1 hy
        exact ⟨moves, m, List.prefix_refl _, raises_of_makes makes hu hclaim⟩

/-- What an update raised a version to is between the second one and the one that is stored. -/
theorem le_of_raised (ht : (after p moves).tasks[i]? = some t) (h : t.Raised id v) :
    2 ≤ v ∧ ∀ d ∈ (after p moves).documents, d.id = id → v ≤ d.version := by
  obtain ⟨ms, m, hms, -, ⟨d₀, hd₀, hid₀, rfl⟩, d₁, hd₁, hid₁, hv⟩ := raises_of_raised ht h
  refine ⟨?_, fun d hd hid => ?_⟩
  · obtain ⟨r, hr, rfl⟩ := sound p ms ms (List.prefix_refl _) d₀ hd₀
    rw [Resource.version_stored]
    exact Int.add_le_add_right hr.version_pos 1
  · exact hv ▸ (sound p moves).version_le hms hd₁ hd (hid₁.trans hid.symm)

/-- No two updates raise a document to the same version. -/
theorem raised_unique (ht : (after p moves).tasks[i]? = some t)
    (ht' : (after p moves).tasks[j]? = some t') (h : t.Raised id v) (h' : t'.Raised id v) :
    i = j := by
  -- A document that was at a version is not below it later on.
  have later : ∀ {ms₁ ms₂ : List Move} {m₁ m₂ : Move} {i j : Nat}, ms₁ ++ [m₁] <+: ms₂ →
      (after p ms₁).Raises i id v (after p (ms₁ ++ [m₁])) →
      ¬ (after p ms₂).Raises j id v (after p (ms₂ ++ [m₂])) := by
    rintro ms₁ ms₂ m₁ m₂ i j hp ⟨-, -, d₁, hd₁, hid₁, hv₁⟩ ⟨-, ⟨d₂, hd₂, hid₂, hv₂⟩, -⟩
    have hle := (sound p ms₂).version_le hp hd₁ hd₂ (hid₁.trans hid₂.symm)
    rw [hv₁, hv₂] at hle
    exact absurd hle (Int.not_le.2 (Int.lt_succ d₂.version))
  have now : ∀ {s s' : System} {i j : Nat}, s.Raises i id v s' → s.Raises j id v s' → i = j := by
    rintro s s' i j ⟨⟨_, _, _, h⟩, -⟩ ⟨⟨_, _, _, h'⟩, -⟩
    exact (h.unique h').1
  obtain ⟨ms₁, m₁, hp₁, h₁⟩ := raises_of_raised ht h
  obtain ⟨ms₂, m₂, hp₂, h₂⟩ := raises_of_raised ht' h'
  rcases List.prefix_or_prefix_of_prefix hp₁ hp₂ with hp | hp <;>
    rcases List.prefix_concat_iff.1 hp with heq | hp
  · obtain ⟨rfl, -⟩ := List.append_inj' heq rfl
    exact now (heq ▸ h₁) h₂
  · exact absurd h₂ (later hp h₁)
  · obtain ⟨rfl, -⟩ := List.append_inj' heq rfl
    exact now h₁ (heq ▸ h₂)
  · exact absurd h₁ (later hp h₂)

theorem Makes.raised {s s' : System} {operation : Operation} {past : List Exchange} {e : Edit}
    {r : Resource} {input : ResourceInput} {user : User} {time : Instant} {cluster : Option String}
    (makes : s.Makes i operation past ⟨e.call, .ok true⟩ s') (fits : e.Fits r)
    (allowed : e.Allowed operation past) (he : e.change = .revise input user time cluster) :
    ∃ t, s'.tasks[i]? = some t ∧ t.Raised r.id r.recordVersion.next := by
  obtain ⟨rest, hs⟩ := makes.after
  have hg : e.isGuarded = true := by rw [Edit.isGuarded, he]
  rw [Edit.Allowed, he] at allowed
  obtain ⟨⟨scope, hop⟩, -⟩ := allowed
  refine ⟨_, hs, congrArg Operation.isUpdate hop, _, List.mem_concat_self,
    e.current.recordVersion, fits.id ▸ Edit.claims hg, ?_⟩
  rw [fits.version hg]

/-- Every version of a document from the second one on is one that an update raised it to. -/
theorem raised_of_le {d : StoredDocument} (hd : d ∈ (after p moves).documents) (h2 : 2 ≤ v)
    (hv : v ≤ d.version) : ∃ t ∈ (after p moves).tasks, t.Raised d.id v := by
  induction moves using List.reverseRecOn generalizing d with
  | nil => cases hd
  | append_singleton moves m ih =>
    have hadv := advance p moves m
    have old : ∀ {d}, d ∈ (after p moves).documents → v ≤ d.version →
        ∃ t ∈ (after p (moves ++ [m])).tasks, t.Raised d.id v := by
      intro d hd hv
      obtain ⟨t, ht, hraised⟩ := ih hd hv
      obtain ⟨j, hj⟩ := List.mem_iff_getElem?.1 ht
      obtain ⟨t', ht', hop, hp⟩ := hadv.task_after hj
      exact ⟨t', List.mem_of_getElem? ht', hraised.mono hop hp⟩
    rcases (sound p moves).came m hd with hd | hnew | ⟨d₀, hd₀, hedit⟩
    · exact old hd hv
    · cases hnew with
      | intro _ draft _ =>
        rw [Resource.version_stored, draft] at hv
        have h21 : (2 : Int) ≤ 1 := Int.le_trans h2 hv
        exact absurd h21 (by decide)
    · cases hedit with
      | @intro i operation past e r makes _ allowed _ fits _ =>
        rw [Resource.version_stored] at hv
        rcases Edit.version_apply fits with hsame | ⟨⟨input, user, time, cluster, he⟩, hnext⟩
        · rw [Resource.stored_id, Edit.id_apply]
          exact old hd₀ (by rw [Resource.version_stored, ← hsame]; exact hv)
        · rw [hnext] at hv
          rcases Int.lt_or_eq_of_le hv with hlt | rfl
          · rw [Resource.stored_id, Edit.id_apply]
            exact old hd₀ (by rw [Resource.version_stored]; exact Int.lt_add_one_iff.1 hlt)
          · obtain ⟨t, ht, hraised⟩ := makes.raised fits allowed he
            rw [Resource.stored_id, Edit.id_apply]
            exact ⟨t, List.mem_of_getElem? ht, hraised⟩

/-- In a move a version stays, or it is raised by the one update that ever raises it to that. -/
theorem version_step (m : Move) {d d' : StoredDocument} (hd : d ∈ (after p moves).documents)
    (hd' : d' ∈ (after p (moves ++ [m])).documents) (hid : d.id = d'.id) :
    d'.version = d.version ∨ d'.version = d.version.next ∧
      ∃ i operation past x, (after p moves).Makes i operation past x (after p (moves ++ [m])) ∧
        operation.isUpdate = true ∧ x.Claims d.id d.version ∧
        ∀ (j : Nat) t, (after p (moves ++ [m])).tasks[j]? = some t → t.Raised d.id d'.version →
          j = i := by
  rcases (sound p moves).change m hd hd' hid with rfl | hedit
  · exact .inl rfl
  · cases hedit with
    | @intro i operation past e r makes _ allowed _ fits _ =>
      rw [Resource.version_stored, Resource.version_stored]
      rcases Edit.version_apply fits with hsame | ⟨⟨input, user, time, cluster, he⟩, hnext⟩
      · exact .inl hsame
      · have hg : e.isGuarded = true := by rw [Edit.isGuarded, he]
        obtain ⟨t, ht, hraised⟩ := makes.raised fits allowed he
        have hclaims := Edit.claims hg
        rw [← fits.id, ← fits.version hg] at hclaims
        rw [Edit.Allowed, he] at allowed
        obtain ⟨⟨scope, hop⟩, -⟩ := allowed
        refine .inr ⟨hnext, i, operation, past, _, makes, congrArg Operation.isUpdate hop,
          hclaims, fun j t' ht' hraised' => ?_⟩
        rw [hnext] at hraised'
        exact raised_unique ht' ht hraised' hraised

/-- The versions of documents are given out to updates one by one. -/
structure VersionsAllocated (p : ControlPlane) (moves : List Move) : Prop where
  /-- A document starts at version 1. -/
  first : ∀ m, ∀ d ∈ (after p (moves ++ [m])).documents,
    (∀ d₀ ∈ (after p moves).documents, d₀.id ≠ d.id) → d.version = 1
  /-- Its version never goes down. -/
  mono : ∀ ms, ms <+: moves → ∀ d ∈ (after p ms).documents, ∀ d' ∈ (after p moves).documents,
    d.id = d'.id → d.version ≤ d'.version
  /-- In a move the version stays or goes up by one, by a call of an update, and no other update
  ever raised it to the same. -/
  step : ∀ m, ∀ d ∈ (after p moves).documents, ∀ d' ∈ (after p (moves ++ [m])).documents,
    d.id = d'.id → d'.version = d.version ∨ d'.version = d.version.next ∧
      ∃ i operation past x, (after p moves).Makes i operation past x (after p (moves ++ [m])) ∧
        operation.isUpdate = true ∧ x.Claims d.id d.version ∧
        ∀ (j : Nat) t, (after p (moves ++ [m])).tasks[j]? = some t → t.Raised d.id d'.version →
          j = i
  /-- Updates of one document return different versions. -/
  distinct : ∀ (i j : Nat) t t' r r', (after p moves).tasks[i]? = some t →
    (after p moves).tasks[j]? = some t' → i ≠ j → t.Returned r → t'.Returned r' → r.id = r'.id →
    r.recordVersion ≠ r'.recordVersion
  /-- If no call and no frame of an update fails, the versions that were returned, or are still
  owned by an update that has not ended, are those from 2 to the one that is stored. -/
  complete : (∀ t ∈ (after p moves).tasks, t.operation.isUpdate = true →
      (∀ x ∈ t.past, ¬ x.Failed) ∧ ∀ details, t.rest ≠ .done (.error (.frame details))) →
    ∀ d ∈ (after p moves).documents, ∀ v, 2 ≤ v ∧ v ≤ d.version ↔
      ∃ t ∈ (after p moves).tasks, (∃ r, t.Returned r ∧ r.id = d.id ∧ r.recordVersion = v) ∨
        t.Unfinished ∧ t.Raised d.id v

/-- However operations interleave, the versions of documents are given out to updates one by one. -/
theorem versions_allocated (p : ControlPlane) (moves : List Move) : VersionsAllocated p moves where
  first m d hd hnew := by
    rcases (sound p moves).came m hd with hd | hcreated | ⟨d₀, hd₀, hedit⟩
    · exact absurd rfl (hnew d hd)
    · cases hcreated with
      | intro _ draft _ => rw [Resource.version_stored, draft]; rfl
    · cases hedit
      exact absurd (Edit.id_apply ..).symm (hnew _ hd₀)
  mono ms hp d hd d' hd' hid := (sound p moves).version_le hp hd hd' hid
  step m _ hd _ hd' hid := version_step m hd hd' hid
  distinct i j t t' r r' ht ht' hij hr hr' hid hv := by
    have h := (lawful p moves t (List.mem_of_getElem? ht)).raised_of_returned hr
    have h' := (lawful p moves t' (List.mem_of_getElem? ht')).raised_of_returned hr'
    rw [hid, hv] at h
    exact hij (raised_unique ht ht' h h')
  complete hfail d hd v := by
    constructor
    · rintro ⟨h2, hv⟩
      obtain ⟨t, ht, hraised⟩ := raised_of_le hd h2 hv
      obtain ⟨hcalls, hframe⟩ := hfail t ht hraised.1
      exact ⟨t, ht, (lawful p moves t ht).owns_of_raised hraised hcalls hframe⟩
    · rintro ⟨t, ht, h⟩
      obtain ⟨j, hj⟩ := List.mem_iff_getElem?.1 ht
      obtain ⟨h2, hle⟩ := le_of_raised hj ((lawful p moves t ht).raised_of_owns h)
      exact ⟨h2, hle d hd rfl⟩

end System

end FleetSync
