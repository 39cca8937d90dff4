import FleetSync.Proofs.Interleaving.Conduct

/-!
# Attempts at an update

Every attempt of an update looks its resource up under the name that the update asks for, and writes
only at the version of what it found (`Revises`). An attempt is in vain only if the guarded write
finds nothing (`Missed`), and an update that ends in an error was refused for one of the reasons of
`Refused`: it gives up just after as many attempts in vain as it has
(`ControlPlane.update_attempts`).
-/

namespace FleetSync

open Program (Follows)

/-- The call that looks up what an update asks for. -/
abbrev ResourceInput.lookup (input : ResourceInput) (s : Scope) : Call :=
  .findOne input.kind.collection (.named s input.name)

/-- Whether an update has found a resource under the name that it asks for. -/
def Found (s : Scope) (input : ResourceInput) (past : List Exchange) (r : Resource) : Prop :=
  ∃ j, ⟨input.lookup s, .ok (some j)⟩ ∈ past ∧
    Resource.ofDocument input.kind j = .ok r

/-- The law of an update: it writes at a version only what it has found at that. -/
def Revises (s : Scope) (input : ResourceInput) (past : List Exchange) (c : Call) : Prop :=
  ∀ collection id v patch, c = .patchOne collection (.byIdAt id v) patch →
    ∃ r, Found s input past r ∧ r.id = id ∧ r.recordVersion = v

/-- Whether so many attempts at an update were in vain: each has found the resource, and nothing
was there at its version when it was to be written. -/
inductive Missed (s : Scope) (input : ResourceInput) : Nat → List Exchange → Prop
  | none (past : List Exchange) : Missed s input 0 past
  | again {n : Nat} {past past' : List Exchange} {j : Json} {r : Resource} {patch : Patch}
    (before : Missed s input n past)
    (read : past ++ [⟨input.lookup s, .ok (some j)⟩] <+: past')
    (decoded : Resource.ofDocument input.kind j = .ok r) (writes : patch.isEmpty = false) :
    Missed s input (n + 1) (past' ++
      [⟨.patchOne r.kind.collection (.byIdAt r.id r.recordVersion) patch, .ok false⟩])

/-- Why an update ends in an error. -/
inductive Refused (s : Scope) (input : ResourceInput) (past : List Exchange) : OpError → Prop
  | failed {x : Exchange} {e : OpError} (mem : x ∈ past) (failed : x.Failed) :
    Refused s input past e
  | unscoped {e : OpError} (h : s.check = .error e) : Refused s input past e
  | denied {userId action resource : String} {ref : ResourceRef} {permission : Permission}
    (mem : ⟨.authorize userId ref permission, .ok false⟩ ∈ past) :
    Refused s input past (.permissionDenied userId action resource)
  | unfound {kind name : String}
    (mem : ⟨input.lookup s, .ok none⟩ ∈ past) :
    Refused s input past (.notFound kind name)
  | illegible {j : Json} {details : String}
    (mem : ⟨input.lookup s, .ok (some j)⟩ ∈ past)
    (h : Resource.ofDocument input.kind j = .error (.serialization details)) :
    Refused s input past (.serialization details)
  | marked {r : Resource} {kind name : String} (found : Found s input past r)
    (marked : r.markedForDeletion = true) : Refused s input past (.markedForDeletion kind name)
  | moved {r : Resource} {field reason : String} (found : Found s input past r)
    (moved : r.namespaceName ≠ input.namespaceName) : Refused s input past (.invalid field reason)
  | tooLarge (details : String) : Refused s input past (.frame details)
  /-- Every attempt was in vain. -/
  | contended (missed : Missed s input ControlPlane.updateAttempts past) :
    Refused s input past (.conflict input.kind.name input.name)

/-- Whether a part of an update came to its end, or the update is refused. -/
def Passed {α : Type} (s : Scope) (input : ResourceInput) (past : List Exchange) :
    Except OpError α → Prop
  | .ok _ => True
  | .error e => Refused s input past e

section

variable {α : Type} {past past' : List Exchange} {s : Scope} {input : ResourceInput} {r : Resource}

theorem Found.mono (h : Found s input past r) (hp : past <+: past') : Found s input past' r := by
  obtain ⟨j, hj, hdec⟩ := h
  exact ⟨j, hp.subset hj, hdec⟩

/-- What an update comes to grief with, later on as well. -/
theorem Excused.refused {e : OpError} (h : Excused past e) : Refused s input past e := by
  rcases h with ⟨x, hx, hf⟩ | ⟨details, rfl⟩
  · exact .failed hx hf
  · exact .tooLarge details

/-- What may be done at any time is not written at a version. -/
theorem Minor.revises {c : Call} (h : Minor past c) : Revises s input past c :=
  fun collection id v patch hc => absurd (.inr ⟨collection, id, v, patch, hc⟩) h.not_commits

theorem Program.Follows.revises {q : Program α} {post : List Exchange → Except OpError α → Prop}
    (h : Follows Minor post past q) : Follows (Revises s input) post past q :=
  (h.weaken (fun _ _ hc => hc.revises) fun _ _ _ => trivial).mono fun _ _ _ hr => hr.2

end

/-- A document that does not decode is a serialization error. -/
theorem Resource.ofDocument_error {kind : Kind} {j : Json} {e : OpError}
    (h : ofDocument kind j = .error e) : ∃ details, e = .serialization details := by
  rw [ofDocument] at h
  cases hd : (decode kind).ofJson j with
  | ok r => rw [hd] at h; cases h
  | error failure =>
    rw [hd] at h
    exact ⟨failure.message, (Except.error.inj h).symm⟩

/-- A resource is got with a single call. -/
theorem Resource.get_eq (kind : Kind) (s : Scope) (name : String) : get kind s name =
    .call (.findOne kind.collection (.named s name)) fun a => .done (do
      match ← a with
      | some j => ofDocument kind j
      | none => .error (.notFound kind.name name)) := by
  refine congrArg (Program.call (.findOne kind.collection (.named s name))) (funext fun a => ?_)
  rcases a with e | _ | j
  · rfl
  · rfl
  · show (Program.ofExcept (ofDocument kind j) >>= _) >>= _ = Program.done (ofDocument kind j)
    cases ofDocument kind j <;> rfl

namespace ControlPlane

variable (p : ControlPlane) (user : User) {past : List Exchange} {s : Scope}
  {input : ResourceInput} {n : Nat}

theorem authorize_attempts : Follows (Revises s input) (Passed s input) past
    (Program.authorize user.id (.of input.kind s input.name) .update) := by
  refine Follows.single (fun _ _ _ _ h => nomatch h) fun a => ?_
  rcases a with e | allowed
  · cases hv : Checker.verdict user.id (.of input.kind s input.name) .update (.error e) with
    | ok _ => trivial
    | error _ => exact .failed List.mem_concat_self ⟨e, rfl⟩
  · cases allowed with
    | true => trivial
    | false => exact .denied List.mem_concat_self

/-- What an update gets is what its lookup finds. -/
theorem get_attempts : Follows (Revises s input) (fun past' o => match o with
      | .ok r => ∃ j, past' = past ++ [⟨input.lookup s, .ok (some j)⟩] ∧
          Resource.ofDocument input.kind j = .ok r
      | .error e => Refused s input past' e) past (Resource.get input.kind s input.name) := by
  rw [Resource.get_eq]
  refine Follows.single (fun _ _ _ _ h => nomatch h) fun a => ?_
  rcases a with e | _ | j
  · exact .failed List.mem_concat_self ⟨e, rfl⟩
  · exact .unfound List.mem_concat_self
  · cases hdec : Resource.ofDocument input.kind j with
    | ok r => simp [bind, Except.bind, hdec]
    | error e =>
      obtain ⟨details, rfl⟩ := Resource.ofDocument_error hdec
      simpa [bind, Except.bind, hdec] using Refused.illegible List.mem_concat_self hdec

/-- An attempt succeeds, or is refused, or it is one more in vain. -/
theorem tryUpdate_attempts (missed : Missed s input n past) :
    Follows (Revises s input) (fun past' o => match o with
      | .ok none => Missed s input (n + 1) past'
      | .ok (some _) => True
      | .error e => Refused s input past' e) past (p.tryUpdate user s input) := by
  refine get_attempts.bind (fun past₁ current _ h => ?_) fun _ _ _ h => h
  obtain ⟨j, rfl, hdec⟩ := h
  have found : Found s input (past ++ [⟨input.lookup s, .ok (some j)⟩]) current :=
    ⟨j, List.mem_concat_self, hdec⟩
  split
  · exact .marked found ‹_›
  split
  · exact .moved found ‹_›
  have now : Follows (Revises s input) (fun _ o => ∃ time, o = .ok time)
      (past ++ [⟨input.lookup s, .ok (some j)⟩]) Program.now :=
    Follows.single (fun _ _ _ _ h => nomatch h) fun time => ⟨time, rfl⟩
  refine now.bind (fun past₁ time hp _ => ?_) fun _ _ _ ⟨_, h⟩ => nomatch h
  refine (Follows.revises (Resource.cluster_follows _)).bind (fun past₂ cluster hp' _ => ?_)
    fun _ _ _ h => h.refused
  have read := hp.trans hp'
  have patched : Follows (Revises s input) (fun past₃ o => match o with
      | .ok true => True
      | .ok false => Missed s input (n + 1) past₃
      | .error e => Refused s input past₃ e) past₂ (current.patchAtVersion
        ({ input.revise current user time with clusterName := cluster } : Resource).revision) := by
    refine Follows.single (fun collection id v patch h => ?_) fun a => ?_
    · let e : Edit := ⟨current, .revise input user time cluster⟩
      obtain ⟨-, hid, hv⟩ := Edit.guarded_of_call (e := e) h.symm
      exact ⟨current, found.mono read, hid, hv⟩
    · rcases a with e | hit
      · exact .failed List.mem_concat_self ⟨e, rfl⟩
      · cases hit with
        | true => trivial
        | false => exact .again missed read hdec rfl
  refine patched.bind (fun past₃ hit _ h => ?_) fun _ _ _ h => h
  cases hit with
  | false => exact h
  | true =>
    refine (Follows.revises (p.sendUpdated_follows current _)).mono fun past₄ o _ h => ?_
    cases o with
    | error e => exact h.refused
    | ok o =>
      obtain ⟨r, rfl, -⟩ := h
      trivial

theorem updateWithin_attempts {attempts : Nat} (missed : Missed s input n past)
    (h : n + attempts = updateAttempts) :
    Follows (Revises s input) (Passed s input) past (p.updateWithin user s input attempts) := by
  induction attempts generalizing past n with
  | zero =>
    obtain rfl : n = updateAttempts := h
    exact .contended missed
  | succ attempts ih =>
    refine (p.tryUpdate_attempts user missed).bind (fun past' o _ ho => ?_)
      fun _ _ _ h => h
    cases o with
    | none => exact ih ho (by omega)
    | some r => trivial

/-- An update writes at a version only what it has found, and if it ends in an error, it is
refused. -/
theorem update_attempts :
    Follows (Revises s input) (Passed s input) past (p.update user s input) := by
  have checked : Follows (Revises s input) (Passed s input) past (Program.ofExcept s.check) := by
    cases h : s.check with
    | ok _ => trivial
    | error e => exact .unscoped h
  refine checked.bind (fun _ _ _ _ => ?_) fun _ _ _ h => h
  refine (authorize_attempts user).bind (fun past' _ _ _ => ?_) fun _ _ _ h => h
  exact p.updateWithin_attempts user (.none past') rfl

end ControlPlane

theorem Operation.update_attempts (p : ControlPlane) (user : User) (s : Scope)
    (input : ResourceInput) : Follows (Revises s input) (Passed s input) []
      ((Operation.update user s input).program p) :=
  (p.update_attempts user).map (fun _ _ _ _ => trivial) fun _ _ _ h => h

end FleetSync
