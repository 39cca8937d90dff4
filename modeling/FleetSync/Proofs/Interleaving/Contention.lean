import FleetSync.Proofs.Interleaving.Length
import FleetSync.Proofs.Interleaving.Overtaking
import FleetSync.Proofs.Sequence.Permanent
import Mathlib.Data.Int.Interval

/-!
# Conflicts

An update of a live document that stays ends in a conflict only where as many others as it has
attempts raised the version while it was under way. So as long as there are no more of them than
that, all come to a good end, and the version goes up by their number
(`System.conflicts_earned`).
-/

namespace FleetSync

/-- Whether a call did not fail, what it found can be read, and what it asked leave for is
allowed. -/
def Exchange.isGranted : Exchange → Bool
  | ⟨.authorize .., r⟩ => match r with
    | .ok allowed => allowed
    | .error _ => false
  | ⟨.insert _, r⟩ | ⟨.publish .., r⟩ => r.isOk
  | x => x.isServed

theorem Exchange.not_failed_of_isGranted {x : Exchange} (h : x.isGranted = true) : ¬ x.Failed := by
  obtain ⟨c, a⟩ := x
  rintro ⟨e, he⟩
  cases c <;> first | cases he; done | (obtain rfl := Option.some.inj he; cases h)

/-- Whether an update of a document has valid inputs, is granted all that it asks for, and sends no
frame that is too large. -/
structure Task.Unhindered (t : Task) (d : StoredDocument) : Prop where
  valid : ∀ user s input, t.operation = .update user s input →
    s.check = .ok () ∧ input.namespaceName = d.card.key.namespaceName
  granted : ∀ x ∈ t.past, x.isGranted = true
  framed : ∀ details, t.rest ≠ .done (.error (.frame details))

theorem Operation.update_of_updates {d : StoredDocument} {operation : Operation}
    (h : operation.updates d = true) :
    ∃ user s input, operation = .update user s input ∧ input.identity s = d.identity := by
  cases operation with
  | update user s input => exact ⟨user, s, input, rfl, of_decide_eq_true h⟩
  | _ => cases h

open ControlPlane (updateAttempts updateCalls)

namespace System

variable {p : ControlPlane} {ms moves : List Move} {i : Nat} {t : Task} {d d' : StoredDocument}
  {id : String} {v : Version} {user : User} {s : Scope} {input : ResourceInput} {e : OpError}

/-- What conflicts between the updates of a document tell. -/
structure ConflictsEarned (p : ControlPlane) (ms moves : List Move) (d : StoredDocument) :
    Prop where
  /-- An update that ends in a conflict without a failed call was overtaken by as many others as it
  has attempts, which raised the version while it was under way. -/
  contended : ∀ i ∈ updatesSince p ms moves d, ∀ t kind name, (after p moves).tasks[i]? = some t →
    (∀ x ∈ t.past, ¬ x.Failed) → t.rest = .done (.error (.conflict kind name)) →
    ∃ js ⊆ (updatesSince p ms moves d).erase i, updateAttempts ≤ js.card ∧
      ∀ j ∈ js, RaisedAmid p ms moves i j d.id
  /-- If there are no more updates than an update has attempts, then one that nothing else hinders
  returns a resource, after a bounded number of calls. -/
  settled : (updatesSince p ms moves d).card ≤ updateAttempts →
    ∀ i ∈ updatesSince p ms moves d, ∀ t, (after p moves).tasks[i]? = some t → t.Unhindered d →
      (∃ r, t.Returned r) ∨ t.Unfinished ∧ t.past.length < updateCalls
  /-- Then, once all of them are at their end, each has raised the version by one. -/
  counted : (updatesSince p ms moves d).card ≤ updateAttempts →
    (∀ i ∈ updatesSince p ms moves d, ∀ t, (after p moves).tasks[i]? = some t →
      t.Unhindered d ∧ ¬ t.Unfinished) →
    ∃ d' ∈ (after p moves).documents, d'.id = d.id ∧
      d'.version = d.version + (updatesSince p ms moves d).card

/-- An update that ends in an error is refused. -/
theorem refused_of_error (ht : (after p moves).tasks[i]? = some t)
    (hop : t.operation = .update user s input) (hrest : t.rest = .done (.error e)) :
    Refused s input t.past e := by
  have ends := follows_after p (Operation.update_attempts p user s input) moves t
    (List.mem_of_getElem? ht) hop
  rw [hrest] at ends
  exact ends

/-- An update at its end has returned a resource or an error. -/
theorem ends_of_update {o : Except OpError Outcome} (ht : (after p moves).tasks[i]? = some t)
    (hu : t.operation.isUpdate = true) (hrest : t.rest = .done o) :
    (∃ r, t.Returned r) ∨ ∃ e, o = .error e := by
  have ends := (lawful p moves t (List.mem_of_getElem? ht)).ahead
  rw [hrest] at ends
  obtain ⟨r, rfl, -⟩ := ends hu
  cases r with
  | ok r => exact .inl ⟨r, hu, hrest⟩
  | error e => exact .inr ⟨e, rfl⟩

/-- An update that ends in a conflict without a failed call raised nothing. -/
theorem not_raised_of_conflict {kind name : String} (ht : (after p moves).tasks[i]? = some t)
    (calls : ∀ x ∈ t.past, ¬ x.Failed) (hrest : t.rest = .done (.error (.conflict kind name))) :
    ¬ t.Raised id v := by
  intro hr
  rcases (lawful p moves t (List.mem_of_getElem? ht)).ends_of_raised hr with
    ⟨c, next, h⟩ | ⟨r, ⟨-, h⟩, -⟩ | ⟨x, hx, hf⟩ | ⟨details, h⟩
  · cases hrest.symm.trans h
  · cases hrest.symm.trans h
  · exact calls x hx hf
  · cases hrest.symm.trans h

namespace Endures

variable (h : Endures p ms moves d)
include h

/-- An update of the document finds it. -/
theorem findable (hi : (after p ms).tasks.length ≤ i)
    (ht : (after p moves).tasks[i]? = some t) (hident : input.identity s = d.identity) :
    ⟨input.lookup s, .ok none⟩ ∉ t.past := by
  intro hmem
  obtain ⟨ms₁, m₁, past, hge, hp₁, look⟩ := made_since hi h.before ht hmem
  obtain ⟨d₁, hd₁, hid₁⟩ := h.stays ms₁ hge ((List.prefix_append ms₁ [m₁]).trans hp₁)
  have hident₁ := identity_kept p hge h.mem hd₁ hid₁.symm
  exact identity_ne_of_unfound look hd₁ (hident₁.trans hident.symm)

/-- What an update of the document reads is live, in the namespace it always had. -/
theorem reads {r : Resource} (hi : (after p ms).tasks.length ≤ i)
    (ht : (after p moves).tasks[i]? = some t) (hident : input.identity s = d.identity)
    (found : Found s input t.past r) :
    r.markedForDeletion = false ∧ r.namespaceName = d.card.key.namespaceName := by
  obtain ⟨json, hmem, decoded⟩ := found
  obtain ⟨ms₁, m₁, past, hge, hp₁, look⟩ := made_since hi h.before ht hmem
  have hle := (List.prefix_append ms₁ [m₁]).trans hp₁
  obtain ⟨r₀, hr₀, hid₀, resembles⟩ := h.found hge hle look hident decoded
  have live := h.live_at hge hle hr₀ hid₀
  have hkey := key_kept p hge h.mem hr₀ hid₀.symm
  rw [Resource.isMarked_stored] at live
  rw [Resource.card_stored] at hkey
  exact ⟨resembles.markedForDeletion.trans live,
    resembles.namespaceName.trans (congrArg MappingKey.namespaceName hkey)⟩

/-- An update of the document that nothing else hinders ends in an error only if that is a
conflict. -/
theorem conflict_of_unhindered (hi : (after p ms).tasks.length ≤ i)
    (ht : (after p moves).tasks[i]? = some t) (hop : t.operation.updates d = true)
    (hun : t.Unhindered d) (hrest : t.rest = .done (.error e)) :
    ∃ kind name, e = .conflict kind name := by
  obtain ⟨user, s, input, hupdate, hident⟩ := Operation.update_of_updates hop
  obtain ⟨hvalid, hnamespace⟩ := hun.valid user s input hupdate
  cases refused_of_error ht hupdate hrest with
  | failed mem hf => exact absurd hf (Exchange.not_failed_of_isGranted (hun.granted _ mem))
  | unscoped hs => cases hs.symm.trans hvalid
  | denied mem => cases hun.granted _ mem
  | unfound mem => exact absurd mem (h.findable hi ht hident)
  | illegible mem herr =>
    obtain ⟨r, hr⟩ := Exchange.isOk_of_isLegible (hun.granted _ mem)
    cases herr.symm.trans hr
  | marked found hmarked => cases hmarked.symm.trans (h.reads hi ht hident found).1
  | moved found hmoved =>
    exact absurd ((h.reads hi ht hident found).2.trans hnamespace.symm) hmoved
  | tooLarge details => exact absurd hrest (hun.framed details)
  | contended => exact ⟨_, _, rfl⟩

/-- An update of the document that ends in a conflict was overtaken by as many others as it has
attempts. -/
theorem overtaken {kind name : String} (hi : (after p ms).tasks.length ≤ i)
    (ht : (after p moves).tasks[i]? = some t) (hop : t.operation.updates d = true)
    (calls : ∀ x ∈ t.past, ¬ x.Failed) (hrest : t.rest = .done (.error (.conflict kind name))) :
    ∃ js ⊆ (updatesSince p ms moves d).erase i, updateAttempts ≤ js.card ∧
      ∀ j ∈ js, RaisedAmid p ms moves i j d.id := by
  obtain ⟨user, s, input, hupdate, hident⟩ := Operation.update_of_updates hop
  cases refused_of_error ht hupdate hrest with
  | failed mem hf => exact absurd hf (calls _ mem)
  | unscoped hs =>
    obtain ⟨field, reason, he⟩ := Scope.check_error hs
    cases he
  | contended missed =>
    obtain ⟨js, hjs, hcard, raised⟩ := h.contenders (n := 4) hi hident ht missed
    refine ⟨js, fun j hj => Finset.mem_erase.2 ⟨?_, hjs hj⟩, hcard.ge, fun j hj => (raised j hj).1⟩
    rintro rfl
    obtain ⟨-, t', v, ht', hr⟩ := raised j hj
    obtain rfl := Option.some.inj (ht.symm.trans ht')
    exact not_raised_of_conflict ht calls hrest hr

/-- If there are no more updates of the document than an update has attempts, none that nothing else
hinders ends in an error. -/
theorem returned (few : (updatesSince p ms moves d).card ≤ updateAttempts)
    (hi : i ∈ updatesSince p ms moves d) (ht : (after p moves).tasks[i]? = some t)
    (hun : t.Unhindered d) : (∃ r, t.Returned r) ∨ t.Unfinished := by
  obtain ⟨hge, t', ht', hop⟩ := mem_updatesSince.1 hi
  obtain rfl := Option.some.inj (ht.symm.trans ht')
  obtain ⟨user, s, input, hupdate, hident⟩ := Operation.update_of_updates hop
  cases hrest : t.rest with
  | call c next => exact .inr ⟨c, next, hrest⟩
  | done o =>
    refine .inl ((ends_of_update ht (hupdate ▸ rfl) hrest).resolve_right ?_)
    rintro ⟨e, rfl⟩
    obtain ⟨kind, name, rfl⟩ := h.conflict_of_unhindered hge ht hop hun hrest
    have calls : ∀ x ∈ t.past, ¬ x.Failed :=
      fun x hx => Exchange.not_failed_of_isGranted (hun.granted x hx)
    obtain ⟨js, hjs, hcard, -⟩ := h.overtaken hge ht hop calls hrest
    have hle := (Finset.card_le_card hjs).trans (Finset.card_erase_of_mem hi).le
    have hpos := Finset.card_pos.2 ⟨i, hi⟩
    omega

/-- If all updates of the document raised it, its version went up by their number. -/
theorem version_eq (raised : ∀ i ∈ updatesSince p ms moves d, ∃ v t,
      (after p moves).tasks[i]? = some t ∧ t.Raised d.id v)
    (hd' : d' ∈ (after p moves).documents) (hid : d'.id = d.id) :
    d'.version = d.version + (updatesSince p ms moves d).card := by
  choose! f hf using raised
  have hcard : (updatesSince p ms moves d).card = (Finset.Ioc d.version d'.version).card := by
    refine Finset.card_nbij f (fun i hi => ?_) (fun i hi j hj heq => ?_) fun v hv => ?_
    · obtain ⟨t, ht, hr⟩ := hf i hi
      obtain ⟨hge, -⟩ := mem_updatesSince.1 hi
      exact Finset.mem_coe.2 (Finset.mem_Ioc.2
        ⟨h.version_lt hge ht hr, (le_of_raised ht hr).2 d' hd' hid⟩)
    · obtain ⟨t, ht, hr⟩ := hf i hi
      obtain ⟨t', ht', hr'⟩ := hf j hj
      exact raised_unique ht ht' hr (heq ▸ hr')
    · obtain ⟨hlt, hle⟩ := Finset.mem_Ioc.1 (Finset.mem_coe.1 hv)
      obtain ⟨ms', m', j, t, hge, hle', raises, ht, hr⟩ :=
        raised_between h.before h.mem hd' hid.symm hlt hle
      obtain ⟨hj, t', ht', hr'⟩ := h.mem_of_raises hge hle' raises ht hr
      obtain ⟨t₀, ht₀, hr₀⟩ := hf j hj
      obtain rfl := Option.some.inj (ht'.symm.trans ht₀)
      refine ⟨j, hj, ?_⟩
      exact ((lawful p moves t' (List.mem_of_getElem? ht')).raised_once hr₀ hr').2
  have hle := (sound p moves).version_le h.before h.mem hd' hid.symm
  rw [hcard, Int.card_Ioc, Int.toNat_of_nonneg (Int.sub_nonneg_of_le hle)]
  exact (add_sub_cancel d.version d'.version).symm

end Endures

/-- The update of the project. -/
def shopUpdate : Operation := .update .system shopScope shopInput

/-- After the project was created it is updated, and so many further updates are carried out, each
of them between a reading of the first one and what this does next. -/
def overtakingRun (others : Nat) : List Move :=
  createdRun ++ .start shopUpdate :: turns 1 1 ++
    (List.range others).flatMap (fun k =>
      turns 1 2 ++ .start shopUpdate :: turns (k + 2) 6 ++ turns 1 1) ++ turns 1 5

/-- A task that failed ended with its error. -/
theorem rest_of_failure (h : failure? t = some e) : t.rest = .done (.error e) := by
  rw [failure?] at h
  split at h
  · rename_i hrest
    rw [hrest, Option.some.inj h]
  · cases h

theorem overtakingRun_facts : (after .default createdRun).AtRest ∧
    (∀ n ∈ [4, 5], ((overtakingRun n).all fun m => match m with
      | .start operation => !operation.isDelete
      | .turn .. => true) = true) ∧
    ∃ d ∈ (after .default createdRun).documents,
      (d.isMarked = false ∧ d.version = 1 ∧ d.card.key.namespaceName = "default") ∧
      (∀ n ∈ [4, 5], ∃ d' ∈ (after .default (overtakingRun n)).documents, d'.id = d.id) ∧
      ((updatesSince .default createdRun (overtakingRun 4) d).card = 5 ∧
        ∀ i ∈ updatesSince .default createdRun (overtakingRun 4) d,
          ∀ t ∈ (after .default (overtakingRun 4)).tasks[i]?, t.operation = shopUpdate ∧
            (∀ x ∈ t.past, x.isGranted = true) ∧ t.rest.isDone = true ∧ failure? t = none) ∧
      1 ∈ updatesSince .default createdRun (overtakingRun 5) d ∧
        ∃ t ∈ (after .default (overtakingRun 5)).tasks[1]?,
          (∀ x ∈ t.past, x.isGranted = true) ∧ failure? t = some (.conflict "project" "shop") := by
  decide +kernel

end System

end FleetSync
