import FleetSync.Proofs.Interleaving.Forgetting
import FleetSync.Proofs.Interleaving.Handling
import FleetSync.Proofs.Store.DesiredState

/-!
# Specs that are overwritten

Agents tell what a resource is to be by its version alone, so a version is to name one spec: all
that is ever stored under it, and all that is sent with it (`System.Shown`), up to the cluster that
a detachment clears. Only an update and a detachment write specs. An update raises the version with
that, by a guard, but a detachment writes back the spec as it was read, whatever is stored by then,
and so it can put the spec of an earlier version in the place of a later one
(`System.state_overwritten`). That, or a spec that does not read back as it was stored, is all that
can go wrong (`System.states_named_iff`).
-/

namespace FleetSync

/-- Whether a task published an envelope of a resource that it handled. -/
def Task.Published (t : Task) (r : Resource) (e : Wire.Envelope) : Prop :=
  ∃ past topic frame offset, Handled past r ∧ (∃ cluster action, e = r.envelope cluster action) ∧
    Wire.Frame.ofEnvelope e = .ok frame ∧
    past ++ [⟨.publish topic r.namespaceName frame.toBytes, .ok offset⟩] <+: t.past

namespace Edit

variable {e : Edit} {r : Resource}

/-- An edit that neither revises nor detaches keeps the spec and the version. -/
theorem spec_apply (hrevise : ∀ input user time cluster, e.change ≠ .revise input user time cluster)
    (hdetach : ∀ time, e.change ≠ .detach time) :
    (e.apply r).spec = r.spec ∧ (e.apply r).recordVersion = r.recordVersion := by
  rcases e with ⟨current, change⟩
  cases change with
  | revise input user time cluster => exact absurd rfl (hrevise input user time cluster)
  | detach time => exact absurd rfl (hdetach time)
  | _ => exact ⟨rfl, rfl⟩

end Edit

/-- Whether a document is no older than another one, and of the same version only if it asks for the
same spec, or for the same one without its cluster, where that may be. -/
structure StoredDocument.Succeeds (detached : Prop) (d d' : StoredDocument) : Prop where
  version : d.version ≤ d'.version
  state : d.version = d'.version →
    d'.field "spec" = d.field "spec" ∨ detached ∧ ∀ j, d.Asks j → d'.Asks j.unbound

namespace StoredDocument.Succeeds

variable {detached : Prop} {d d' d'' : StoredDocument}

theorem refl (d : StoredDocument) : d.Succeeds detached d := ⟨Int.le_refl _, fun _ => .inl rfl⟩

theorem trans (h : d.Succeeds detached d') (h' : d'.Succeeds detached d'') :
    d.Succeeds detached d'' := by
  refine ⟨Int.le_trans h.version h'.version, fun hv => ?_⟩
  have hle := h.version
  have hle' := h'.version
  have heq : d.version = d'.version := Int.le_antisymm hle (hv ▸ hle')
  rcases h.state heq, h'.state (heq.symm.trans hv) with ⟨hs | ⟨hd, hs⟩, hs' | ⟨hd', hs'⟩⟩
  · exact .inl (hs'.trans hs)
  · exact .inr ⟨hd', fun j hj => hs' j (hs.trans hj)⟩
  · exact .inr ⟨hd, fun j hj => hs'.trans (hs j hj)⟩
  · exact .inr ⟨hd, fun j hj => j.unbound_unbound ▸ hs' _ (hs j hj)⟩

theorem mono {detached' : Prop} (h : d.Succeeds detached d') (hd : detached → detached') :
    d.Succeeds detached' d' :=
  ⟨h.version, fun hv => (h.state hv).imp_right fun h => ⟨hd h.1, h.2⟩⟩

/-- What the later document of a version asks for. -/
theorem asks (h : d.Succeeds detached d') (hv : d.version = d'.version) {j j' : Json}
    (hj : d.Asks j) (hj' : d'.Asks j') : j' = j ∨ detached ∧ j' = j.unbound :=
  (h.state hv).imp (fun hs => hj'.unique (hs.trans hj)) fun hs => ⟨hs.1, hj'.unique (hs.2 j hj)⟩

end StoredDocument.Succeeds

namespace System

variable {p : ControlPlane} {ms moves : List Move} {m : Move} {i : Nat} {t : Task}
  {e : Edit} {r : Resource} {id : String}

/-- In a move a detachment writes the spec of a stored resource. -/
inductive Detaches (p : ControlPlane) (ms : List Move) (m : Move) (i : Nat) (e : Edit) :
    Resource → Prop
  | intro {operation : Operation} {past : List Exchange} {r : Resource} {time : Instant}
    (makes : (after p ms).Makes i operation past ⟨e.call, .ok true⟩ (after p (ms ++ [m])))
    (change : e.change = .detach time) (read : ∃ kind, Reads past kind e.current)
    (fits : e.Fits r) (mem : r.stored ∈ (after p ms).documents)
    (mem' : (e.apply r).stored ∈ (after p (ms ++ [m])).documents) : Detaches p ms m i e r

/-- Whether a document was detached in a run. -/
def Detached (p : ControlPlane) (moves : List Move) (id : String) : Prop :=
  ∃ ms m i e r, ms ++ [m] <+: moves ∧ Detaches p ms m i e r ∧ r.id = id

/-- Whether a task read a resource with another spec than was stored then. -/
def Misread (p : ControlPlane) (moves : List Move) (i : Nat) (r : Resource) : Prop :=
  ∃ ms m operation past x kind, ms ++ [m] <+: moves ∧
    (after p ms).Makes i operation past x (after p (ms ++ [m])) ∧ Reads [x] kind r ∧
    ∃ d ∈ (after p ms).documents, d.id = r.id ∧ ¬ d.Asks r.spec.value

/-- What is stored or sent in a run as the spec of a document at a version. -/
inductive Shown (p : ControlPlane) (moves : List Move) (id : String) (v : Version) : Json → Prop
  | stored {ms : List Move} {d : StoredDocument} {j : Json} (before : ms <+: moves)
    (mem : d ∈ (after p ms).documents) (hid : d.id = id) (version : d.version = v)
    (asks : d.Asks j) : Shown p moves id v j
  | sent {t : Task} {r : Resource} {e : Wire.Envelope} (mem : t ∈ (after p moves).tasks)
    (published : t.Published r e) (hid : r.id = id) (version : e.recordVersion = v) :
    Shown p moves id v e.object.spec

/-- Whether every version of a document names one spec, up to the cluster that detachments
clear. -/
def NamesOneState (p : ControlPlane) (moves : List Move) (id : String) : Prop :=
  ∀ v j j', Shown p moves id v j → Shown p moves id v j' →
    j = j' ∨ Detached p moves id ∧ (j' = j.unbound ∨ j = j'.unbound)

/-- Whether every detachment that goes by another version of a document than the stored one, or has
misread it, writes the stored spec all the same. -/
def NeverOverwritten (p : ControlPlane) (moves : List Move) (id : String) : Prop :=
  ∀ ms m i e r, ms ++ [m] <+: moves → Detaches p ms m i e r → r.id = id →
    e.current.recordVersion ≠ r.recordVersion ∨ Misread p ms i e.current →
    e.current.spec.value.unbound = r.spec.value.unbound

/-- Whether no task sends a spec of a document that it has misread. -/
def NeverMissent (p : ControlPlane) (moves : List Move) (id : String) : Prop :=
  ∀ i t r r' e, (after p moves).tasks[i]? = some t → Misread p moves i r → r.Keeps r' →
    r'.id = id → ¬ t.Published r' e

theorem Detached.mono {moves' : List Move} (h : Detached p moves id) (hp : moves <+: moves') :
    Detached p moves' id := by
  obtain ⟨ms, m, i, e, r, hms, h⟩ := h
  exact ⟨ms, m, i, e, r, hms.trans hp, h⟩

theorem NeverOverwritten.mono {moves' : List Move} (h : NeverOverwritten p moves' id)
    (hp : moves <+: moves') : NeverOverwritten p moves id :=
  fun ms m i e r hms => h ms m i e r (hms.trans hp)

/-- Whatever is published is an envelope of a resource that the task handled. -/
theorem published_of_publish {topic key : String} {payload : ByteArray} {offset : Nat}
    (ht : (after p moves).tasks[i]? = some t)
    (h : ⟨.publish topic key payload, .ok offset⟩ ∈ t.past) :
    ∃ r e frame, t.Published r e ∧ Wire.Frame.ofEnvelope e = .ok frame ∧
      payload = frame.toBytes := by
  obtain ⟨past, later, hpast⟩ := List.append_of_mem h
  obtain ⟨ms, m, -, makes⟩ := made p moves ht hpast
  obtain ⟨r, cluster, action, frame, hr, -, rfl, hframe, rfl⟩ :=
    follows_of_makes makes (t.operation.targets p)
  refine ⟨r, _, frame, ⟨past, topic, frame, offset, hr, ⟨cluster, action, rfl⟩, hframe, ?_⟩,
    hframe, rfl⟩
  exact hpast ▸ (List.prefix_append_right_inj past).2 ⟨later, rfl⟩

/-! ### What is stored -/

/-- A document that was misread, or not, was stored with the id and the version that were read. -/
theorem stored_of_reading {operation : Operation} {past : List Exchange} {x : Exchange}
    {kind : Kind} (asked : (after p ms).Makes i operation past x (after p (ms ++ [m])))
    (read : Reads [x] kind r) : ∃ d ∈ (after p ms).documents, d.id = r.id ∧
      d.version = r.recordVersion ∧ d.ReadsAs kind r := by
  obtain ⟨d, hd, hreads⟩ := read_of_asked asked read
  obtain ⟨r₀, -, rfl⟩ := sound p ms ms (List.prefix_refl _) d hd
  obtain ⟨hcol, j, hj, hdec⟩ := hreads
  have hreads := Resource.readsAs_of_read (Kind.collection_inj hcol) hj hdec
  exact ⟨_, hd, hreads.id.symm, (Resource.version_stored _).trans hreads.recordVersion.symm,
    hcol, j, hj, hdec⟩

/-- Whether what is stored of a document in a run succeeds all that was stored before. -/
def KeptUntil (p : ControlPlane) (moves : List Move) (id : String) (detached : Prop) : Prop :=
  ∀ ms ms', ms <+: ms' → ms' <+: moves → ∀ d ∈ (after p ms).documents,
    ∀ d' ∈ (after p ms').documents, d.id = id → d'.id = id → d.Succeeds detached d'

/-- A detachment that overwrites nothing keeps what is asked for but for the cluster. -/
theorem NeverOverwritten.detaches (never : NeverOverwritten p moves id)
    (kept : KeptUntil p ms id (Detached p moves id))
    (hp : ms ++ [m] <+: moves) (h : Detaches p ms m i e r) (hid : r.id = id) :
    e.current.spec.value.unbound = r.spec.value.unbound := by
  by_cases hbad : e.current.recordVersion ≠ r.recordVersion ∨ Misread p ms i e.current
  · exact never ms m i e r hp h hid hbad
  obtain ⟨hversion, hread⟩ := not_or.1 hbad
  cases h with
  | intro makes change read fits mem mem' =>
    obtain ⟨kind, read⟩ := read
    obtain ⟨ms₀, m₀, hp₀, past₀, x, asked, read₀⟩ := asked_of_reads makes read
    obtain ⟨d₀, hd₀, hid₀, hv₀, -⟩ := stored_of_reading asked read₀
    -- What was read was stored at the same version, and since then it was kept.
    have hasks : d₀.Asks e.current.spec.value := by
      by_contra hne
      exact hread ⟨ms₀, m₀, _, past₀, x, kind, hp₀, asked, read₀, d₀, hd₀, hid₀, hne⟩
    have hle := (List.prefix_append ms₀ [m₀]).trans hp₀
    have hid₀ := hid₀.trans (fits.id.symm.trans hid)
    have succeeds := kept ms₀ ms hle (List.prefix_refl _) d₀ hd₀ _ mem hid₀ hid
    have hv : d₀.version = r.stored.version := by
      rw [hv₀, not_not.1 hversion, Resource.version_stored]
    rcases succeeds.asks hv hasks r.asks_stored with heq | ⟨-, heq⟩
    · rw [heq]
    · rw [heq, Json.unbound_unbound]

/-- In a move a document is succeeded by itself, unless it is overwritten. -/
theorem NeverOverwritten.succeeds (never : NeverOverwritten p moves id)
    (kept : KeptUntil p ms id (Detached p moves id))
    (hp : ms ++ [m] <+: moves) {d d' : StoredDocument} (hd : d ∈ (after p ms).documents)
    (hd' : d' ∈ (after p (ms ++ [m])).documents) (hid : d.id = id) (hid' : d'.id = id) :
    d.Succeeds (Detached p moves id) d' := by
  rcases (sound p ms).change m hd hd' (hid.trans hid'.symm) with rfl | hedit
  · exact .refl d'
  cases hedit with
  | @intro i operation past e r makes read allowed hsound fits kind =>
    by_cases hrevise : ∃ input user time cluster, e.change = .revise input user time cluster
    · obtain ⟨input, user, time, cluster, he⟩ := hrevise
      have hv : (e.apply r).recordVersion = r.recordVersion.next := by
        have hg : e.isGuarded = true := by rw [Edit.isGuarded, he]
        rw [Edit.apply, he, fits.version hg]
      have hlt : r.stored.version < (e.apply r).stored.version := by
        rw [Resource.version_stored, Resource.version_stored, hv]
        exact Int.lt_succ _
      exact ⟨Int.le_of_lt hlt, fun heq => absurd heq (Int.ne_of_lt hlt)⟩
    by_cases hdetach : ∃ time, e.change = .detach time
    · obtain ⟨time, he⟩ := hdetach
      have hread : ∃ kind, Reads past kind e.current := by
        rcases read with ⟨cluster, hattach⟩ | read
        · rw [he] at hattach
          cases hattach
        · exact read
      have detaches : Detaches p ms m i e r := .intro makes he hread fits hd hd'
      have hvalue := never.detaches kept hp detaches hid
      have happly : (e.apply r).spec = e.current.spec.clearBinding := by rw [Edit.apply, he]
      have hversion : (e.apply r).recordVersion = r.recordVersion := by rw [Edit.apply, he]
      have hle : r.stored.version = (e.apply r).stored.version := by
        rw [Resource.version_stored, Resource.version_stored, hversion]
      refine ⟨Int.le_of_eq hle, fun _ => .inr ?_⟩
      refine ⟨⟨ms, m, i, e, r, hp, detaches, hid⟩, fun j hj => ?_⟩
      have hasks := (e.apply r).asks_stored
      rwa [happly, Spec.value_clearBinding, hvalue, ← hj.unique r.asks_stored] at hasks
    · obtain ⟨hspec, hversion⟩ := Edit.spec_apply (e := e) (r := r)
        (fun input user time cluster he => hrevise ⟨input, user, time, cluster, he⟩)
        fun time he => hdetach ⟨time, he⟩
      have hle : r.stored.version = (e.apply r).stored.version := by
        rw [Resource.version_stored, Resource.version_stored, hversion]
      refine ⟨Int.le_of_eq hle, fun _ => .inl ?_⟩
      have hasks := (e.apply r).asks_stored
      rw [hspec] at hasks
      exact hasks.trans r.asks_stored.symm

/-- If no detachment overwrites a document, each version of it succeeds the ones before. -/
theorem NeverOverwritten.kept (never : NeverOverwritten p moves id) :
    KeptUntil p moves id (Detached p moves id) := by
  induction moves using List.reverseRecOn with
  | nil =>
    intro ms ms' _ hle d hd d' hd'
    obtain rfl := List.prefix_nil.1 hle
    cases hd'
  | append_singleton moves m ih =>
    have ih := ih (never.mono (List.prefix_append _ _))
    intro ms ms' hp hle d hd d' hd' hid hid'
    refine descent_of_id p .refl .trans hp (fun ms₁ m₁ _ hp₁ d₁ hd₁ d₂ hd₂ hid₁ hid₂ => ?_) hd hd'
      hid hid'
    have hp₁ := hp₁.trans hle
    have hle₁ : ms₁ <+: moves := by
      rcases List.prefix_concat_iff.1 hp₁ with heq | hp₁
      · exact (List.append_inj' heq rfl).1 ▸ List.prefix_refl _
      · exact (List.prefix_append ms₁ [m₁]).trans hp₁
    refine never.succeeds (fun ms₀ ms₂ hle₀ hp₂ d hd d' hd' hid hid' => ?_) hp₁ hd₁ hd₂ hid₁ hid₂
    exact (ih ms₀ ms₂ hle₀ (hp₂.trans hle₁) d hd d' hd' hid hid').mono fun h =>
      h.mono (List.prefix_append _ _)

/-! ### What is sent -/

/-- What a task has revised is stored then with the spec, under the version, that it wrote. -/
theorem stored_of_revised {input : ResourceInput} {user : User} {time : Instant}
    {cluster : Option String} (ht : (after p moves).tasks[i]? = some t)
    (change : e.change = .revise input user time cluster) (done : ⟨e.call, .ok true⟩ ∈ t.past) :
    ∃ ms, ms <+: moves ∧ ∃ r : Resource, r.stored ∈ (after p ms).documents ∧
      r.id = e.current.id ∧ r.recordVersion = (e.apply e.current).recordVersion ∧
      r.spec.value = (e.apply e.current).spec.value := by
  obtain ⟨past, later, hpast⟩ := List.append_of_mem done
  obtain ⟨ms, m, hp, makes⟩ := made p moves ht hpast
  have deed := (sound p ms).deed makes ((advance p ms m).of_makes makes).1
  have hwrite : Exchange.isWrite ⟨e.call, .ok true⟩ = true := by
    rcases e with ⟨current, _⟩
    obtain rfl := change
    rfl
  refine ⟨ms ++ [m], hp, ?_⟩
  revert deed
  generalize (after p ms).documents = docs
  generalize (after p (ms ++ [m])).documents = docs'
  generalize hx : (⟨e.call, .ok true⟩ : Exchange) = x
  rintro (⟨keep, -⟩ | _ | ⟨-, -, -, fits, -⟩)
  · rw [← hx, hwrite] at keep
    cases keep
  · cases hx
  · rename_i e' r' l l'
    have hcall : e.call = e'.call := (Exchange.mk.injEq ..).mp hx |>.1
    have hid : e'.current.id = e.current.id := by
      have hg : e.isGuarded = true := by rw [Edit.isGuarded, change]
      have hg : e.filter = .byIdAt e.current.id e.current.recordVersion := by
        rw [Edit.filter, if_pos hg]
      rw [Edit.call, hg] at hcall
      exact (Edit.guarded_of_call hcall).2.1
    have field : ∀ n ∈ e.written, (e'.apply r').field n = (e.apply e.current).field n :=
      fun n hn => Edit.field_of_call_eq hcall hn r'
    rw [Edit.written, change] at field
    refine ⟨e'.apply r', List.mem_append_right _ (List.mem_cons_self ..),
      (Edit.id_apply ..).trans (fits.id.trans hid), ?_, ?_⟩
    · have h : Json.ofInt _ = Json.ofInt _ := field "record_version" (by simp)
      exact Number.int.inj (Json.num.inj h)
    · have h : Spec.encode _ = Spec.encode _ := field "spec" (by simp)
      exact congrArg Json.canonical h

/-- What a task handles was stored under its version, unless it was misread. -/
theorem stored_of_handled (ht : (after p moves).tasks[i]? = some t) (h : Handled t.past r) :
    ∃ ms, ms <+: moves ∧ ∃ d ∈ (after p ms).documents, d.id = r.id ∧
      d.version = r.recordVersion ∧
      (d.Asks r.spec.value ∨ ∃ r₀, Misread p moves i r₀ ∧ r₀.Keeps r) := by
  obtain ⟨r₀, obtained, keeps⟩ := h
  rw [keeps.id, keeps.version, keeps.spec]
  cases obtained with
  | inserted done =>
    obtain ⟨ms, hp, hmem⟩ := stored_of_inserted ht done
    exact ⟨ms, hp, _, hmem, rfl, r₀.version_stored, .inl r₀.asks_stored⟩
  | read read =>
    obtain ⟨ms, m, hp, past, x, asked, read⟩ := asked_of_task ht read
    obtain ⟨d, hd, hid, hv, -⟩ := stored_of_reading asked read
    refine ⟨ms, (List.prefix_append _ _).trans hp, d, hd, hid, hv, ?_⟩
    by_cases hasks : d.Asks r₀.spec.value
    · exact .inl hasks
    · exact .inr ⟨r₀, ⟨ms, m, _, past, x, _, hp, asked, read, d, hd, hid, hasks⟩, keeps⟩
  | revised change read done =>
    obtain ⟨ms, hp, r', hmem, hid, hv, hvalue⟩ := stored_of_revised ht change done
    refine ⟨ms, hp, _, hmem, hid.trans (Edit.id_apply ..).symm,
      (Resource.version_stored _).trans hv, .inl ?_⟩
    exact hvalue ▸ r'.asks_stored

/-- What is shown was stored, if nothing is sent as it was misread. -/
theorem NeverMissent.stored (never : NeverMissent p moves id) {v : Version} {j : Json}
    (h : Shown p moves id v j) : ∃ ms, ms <+: moves ∧ ∃ d ∈ (after p ms).documents, d.id = id ∧
      d.version = v ∧ d.Asks j := by
  cases h with
  | stored before mem hid version asks => exact ⟨_, before, _, mem, hid, version, asks⟩
  | @sent t r e mem published hid version =>
    obtain ⟨i, ht⟩ := List.mem_iff_getElem?.1 mem
    have published' := published
    obtain ⟨past, _, _, _, hr, ⟨cluster, action, rfl⟩, -, hpast⟩ := published'
    have handled := hr.mono ((List.prefix_append _ _).trans hpast)
    obtain ⟨ms, hp, d, hd, hid', hv, hasks | ⟨r₀, misread, keeps⟩⟩ := stored_of_handled ht handled
    · exact ⟨ms, hp, d, hd, hid'.trans hid, hv.trans version, hasks⟩
    · exact absurd published (never i t r₀ r _ ht misread keeps hid)

/-! ### The two ways to break it -/

/-- What a detachment writes is what was stored, up to the cluster, if a version names one state. -/
theorem NamesOneState.never_overwritten (h : NamesOneState p moves id) :
    NeverOverwritten p moves id := by
  intro ms m i e r hp detaches hid _
  cases detaches with
  | intro makes change read fits mem mem' =>
    have happly : (e.apply r).spec = e.current.spec.clearBinding := by rw [Edit.apply, change]
    have hversion : (e.apply r).recordVersion = r.recordVersion := by rw [Edit.apply, change]
    have before : Shown p moves id r.recordVersion r.spec.value :=
      .stored ((List.prefix_append _ _).trans hp) mem hid r.version_stored r.asks_stored
    have now : Shown p moves id r.recordVersion e.current.spec.value.unbound := by
      refine .stored hp mem' ((Edit.id_apply ..).trans hid)
        ((Resource.version_stored _).trans hversion) ?_
      rw [← Spec.value_clearBinding, ← happly]
      exact (e.apply r).asks_stored
    rcases h _ _ _ before now with heq | ⟨-, heq | heq⟩
    · rw [heq, Json.unbound_unbound]
    · exact heq
    · rw [heq, Json.unbound_unbound, Json.unbound_unbound]

/-- What was misread is not sent, if a version names one state. -/
theorem NamesOneState.never_missent (h : NamesOneState p moves id) : NeverMissent p moves id := by
  rintro i t r r' e ht ⟨ms, m, operation, past, x, kind, hp, asked, read, d, hd, hid, hasks⟩ keeps
    hid' published
  obtain ⟨d', hd', hid₀, hv, hcol, j, hj, hdec⟩ := stored_of_reading asked read
  obtain rfl := eq_of_id_eq p ms hd hd' (hid.trans hid₀.symm)
  obtain ⟨r₀, -, rfl⟩ := sound p ms ms (List.prefix_refl _) d hd
  have hkind : r₀.kind = kind := Kind.collection_inj hcol
  have stored : Shown p moves id r.recordVersion r₀.spec.value :=
    .stored ((List.prefix_append _ _).trans hp) hd (hid.trans (keeps.id.symm.trans hid')) hv
      r₀.asks_stored
  have sent : Shown p moves id r.recordVersion r.spec.value := by
    have published' := published
    obtain ⟨-, -, -, -, -, ⟨cluster, action, rfl⟩, -⟩ := published'
    exact keeps.spec ▸ .sent (List.mem_of_getElem? ht) published hid' keeps.version
  have hne : r₀.spec.value ≠ r.spec.value := fun heq => hasks (heq ▸ r₀.asks_stored)
  -- The spec of a project reads back as it was, and other specs hold no cluster.
  by_cases hproject : kind = .project
  · subst hproject
    exact hne (congrArg Spec.value (Resource.spec_of_read hkind hj hdec).symm)
  have unbound : r₀.spec.value.unbound = r₀.spec.value :=
    Spec.unbound_value_of_kind_ne fun hk => hproject (hkind.symm.trans hk)
  have unbound' : r.spec.value.unbound = r.spec.value := by
    refine Spec.unbound_value_of_kind_ne fun hk => hproject ?_
    exact hkind.symm.trans ((Resource.readsAs_of_read hkind hj hdec).kind.symm.trans hk)
  rcases h _ _ _ stored sent with heq | ⟨-, heq | heq⟩
  · exact hne heq
  · exact hne (unbound.symm.trans heq.symm)
  · exact hne (heq.trans unbound')

/-- However operations interleave, every version of a document names one spec just if no detachment
writes the spec of another version, nor one that it misread, in the place of a different one, and no
operation sends what it misread. -/
theorem states_named_iff (p : ControlPlane) (moves : List Move) (id : String) :
    NamesOneState p moves id ↔ NeverOverwritten p moves id ∧ NeverMissent p moves id := by
  refine ⟨fun h => ⟨h.never_overwritten, h.never_missent⟩, ?_⟩
  rintro ⟨overwritten, missent⟩ v j j' hj hj'
  obtain ⟨ms, hp, d, hd, hid, hv, hj⟩ := missent.stored hj
  obtain ⟨ms', hp', d', hd', hid', hv', hj'⟩ := missent.stored hj'
  rcases List.prefix_or_prefix_of_prefix hp hp' with hle | hle
  · have succeeds := overwritten.kept ms ms' hle hp' d hd d' hd' hid hid'
    exact (succeeds.asks (hv.trans hv'.symm) hj hj').imp Eq.symm (.imp_right .inl)
  · have succeeds := overwritten.kept ms' ms hle hp d' hd' d hd hid' hid
    exact (succeeds.asks (hv'.trans hv.symm) hj' hj).imp_right (.imp_right .inr)

/-! ### A run -/

/-- The project under another display name. -/
def renamedInput : ResourceInput :=
  .new "shop" "default" (.project ⟨some "eu-1", none, some "Shop"⟩)

/-- The project is created, and the detachment of its scope reads it. -/
def untilReading : List Move :=
  .start (.create .system shopScope shopInput) :: turns 0 7 ++
    .start (.detachScope .system shopScope false) :: turns 1 3

/-- An update raises the version and writes another display name. -/
def untilRenaming : List Move :=
  untilReading ++ .start (.update .system shopScope renamedInput) :: turns 2 4

/-- After that the detachment writes what it read before. -/
def overwritingRun : List Move := untilRenaming ++ turns 1 2

/-- A project's spec without a cluster and a target namespace. -/
def displaySpec (displayName : Option String) : Spec := .project ⟨none, none, displayName⟩

theorem overwritingRun_documents :
    (∃ d ∈ (after .default untilRenaming).documents, d.id = "7d1c52a0" ∧ d.version = 2 ∧
      d.Asks renamedInput.spec.value) ∧
    ∃ d ∈ (after .default overwritingRun).documents, d.id = "7d1c52a0" ∧ d.version = 2 ∧
      d.Asks (displaySpec none).value := by
  decide +kernel

/-- Not every version names one state: in the run the detachment puts the display name of the first
version in the place of that of the second one. -/
theorem state_overwritten : ¬ NamesOneState .default overwritingRun "7d1c52a0" := by
  obtain ⟨⟨d, hd, hid, hv, hasks⟩, d', hd', hid', hv', hasks'⟩ := overwritingRun_documents
  intro named
  have before : Shown .default overwritingRun "7d1c52a0" 2 renamedInput.spec.value :=
    .stored (List.prefix_append _ _) hd hid hv hasks
  have now : Shown .default overwritingRun "7d1c52a0" 2 (displaySpec none).value :=
    .stored (List.prefix_refl _) hd' hid' hv' hasks'
  have differ : renamedInput.spec.value ≠ (displaySpec none).value ∧
      (displaySpec none).value ≠ renamedInput.spec.value.unbound ∧
      renamedInput.spec.value ≠ (displaySpec none).value.unbound := by
    decide +kernel
  rcases named 2 _ _ before now with h | ⟨-, h | h⟩
  · exact differ.1 h
  · exact differ.2.1 h
  · exact differ.2.2 h

end System

end FleetSync
