import FleetSync.Proofs.Interleaving.Attempts
import FleetSync.Proofs.Interleaving.Versions

/-!
# How long an update takes

A program may be bound to a number of calls, whatever these are answered (`Program.AtMost`), and the
numbers add up where programs are put together. An attempt at an update makes at most four calls up
to the guarded write and seven after it, so an update makes at most `ControlPlane.updateCalls`, and
in a run one that is still under way has made fewer (`System.length_lt_of_unfinished`).
-/

namespace FleetSync

open Program (Follows)

namespace Program

variable {α β : Type} {n : Nat}

/-- Whether a program makes at most so many calls. -/
def AtMost : Nat → Program α → Prop
  | _, done _ => True
  | 0, call .. => False
  | n + 1, call _ next => ∀ a, AtMost n (next a)

theorem atMost_done (r : Except OpError α) : AtMost n (done r) := by
  cases n <;> trivial

theorem atMost_single {c : Call} {k : c.Answer → Except OpError α} :
    AtMost 1 (call c fun a => done (k a)) := fun _ => trivial

namespace AtMost

variable {m : Nat} {q : Program α} {f : α → Program β}

theorem mono (h : AtMost m q) (hle : m ≤ n) : AtMost n q := by
  induction q generalizing m n with
  | done r => exact atMost_done r
  | call c next ih =>
    cases m with
    | zero => exact h.elim
    | succ m =>
      cases n with
      | zero => exact absurd hle (Nat.not_succ_le_zero m)
      | succ n => exact fun a => ih a (h a) (Nat.le_of_succ_le_succ hle)

theorem bind (hq : AtMost m q) (hf : ∀ a, AtMost n (f a)) : AtMost (m + n) (q >>= f) := by
  induction q generalizing m with
  | done r =>
    cases r with
    | ok a => exact (hf a).mono (Nat.le_add_left n m)
    | error e => exact atMost_done _
  | call c next ih =>
    cases m with
    | zero => exact hq.elim
    | succ m =>
      rw [Nat.succ_add]
      exact fun a => ih a (hq a)

theorem map (h : AtMost m q) (f : α → β) : AtMost m (q >>= fun a => pure (f a)) :=
  h.bind (n := 0) fun _ => trivial

/-- A program that makes at most so many calls keeps within a number that leaves room for them. -/
theorem follows {past : List Exchange} {most : Nat} (h : AtMost n q)
    (room : past.length + n ≤ most) : Follows (fun past _ => past.length < most)
      (fun past' _ => past'.length ≤ past.length + n) past q := by
  induction q generalizing past n with
  | done r => exact Nat.le_add_right ..
  | call c next ih =>
    cases n with
    | zero => exact h.elim
    | succ n =>
      refine ⟨by omega, fun a => (ih a (h a) ?_).mono fun past' _ _ hle => ?_⟩
      · rw [List.length_append, List.length_singleton]
        omega
      · rw [List.length_append, List.length_singleton] at hle
        omega

end AtMost

end Program

open Program (AtMost atMost_single)

namespace Resource

theorem get_atMost (kind : Kind) (s : Scope) (name : String) : AtMost 1 (get kind s name) :=
  get_eq kind s name ▸ atMost_single

theorem cluster_atMost (r : Resource) : AtMost 1 r.cluster := by
  unfold cluster
  split
  · trivial
  · exact atMost_single

end Resource

namespace ControlPlane

variable (p : ControlPlane) (r : Resource) (user : User) (s : Scope) (input : ResourceInput)

theorem send_atMost (action : SyncAction) : AtMost 2 (p.send r action) := by
  refine AtMost.bind (m := 1) (n := 1) r.cluster_atMost fun cluster => ?_
  cases cluster with
  | none => trivial
  | some cluster =>
    exact AtMost.bind (m := 0) (n := 1) (Program.atMost_done _) fun _ => atMost_single.map _

theorem dispatch_atMost (action : SyncAction) : AtMost 4 (p.dispatch r action) := by
  refine AtMost.bind (m := 2) (n := 2) (p.send_atMost r action) fun outcome => ?_
  split
  · split
    · trivial
    · exact AtMost.bind (m := 1) (n := 1) atMost_single fun _ => atMost_single.map _
  · exact AtMost.bind (m := 1) (n := 1) atMost_single fun _ => atMost_single.map _
  · trivial

theorem recordMove_atMost : AtMost 2 (recordMove r) := by
  unfold recordMove
  split
  · refine AtMost.bind (m := 1) (n := 1) atMost_single fun _ => ?_
    split
    · exact atMost_single.map _
    · trivial
  · split
    · exact (atMost_single.map _).mono (m := 1) (by decide)
    · exact (atMost_single.map _).mono (m := 1) (by decide)

/-- What an update does once it raised the version. -/
theorem sendUpdated_atMost (current updated : Resource) : AtMost 7 (do
    if updated.clusterName ≠ current.clusterName then recordMove updated
    Program.emit .updated updated
    return some (← p.dispatch updated .apply).2) := by
  have sent : AtMost 5 (do
      Program.emit .updated updated
      return some (← p.dispatch updated .apply).2) :=
    AtMost.bind (m := 1) (n := 4) atMost_single fun _ => (p.dispatch_atMost updated .apply).map _
  split
  · exact AtMost.bind (m := 2) (n := 5) (recordMove_atMost updated) fun _ => sent
  · exact sent.mono (by decide)

theorem tryUpdate_atMost : AtMost 11 (p.tryUpdate user s input) := by
  refine AtMost.bind (m := 1) (n := 10) (Resource.get_atMost _ _ _) fun current => ?_
  split
  · trivial
  split
  · trivial
  refine AtMost.bind (m := 1) (n := 9) atMost_single fun time => ?_
  refine AtMost.bind (m := 1) (n := 8) (Resource.cluster_atMost _) fun cluster => ?_
  refine AtMost.bind (m := 1) (n := 7) atMost_single fun hit => ?_
  cases hit with
  | false => trivial
  | true => exact p.sendUpdated_atMost current _

theorem updateWithin_atMost (attempts : Nat) :
    AtMost (11 * attempts) (p.updateWithin user s input attempts) := by
  induction attempts with
  | zero => trivial
  | succ attempts ih =>
    rw [Nat.mul_succ, Nat.add_comm]
    refine (p.tryUpdate_atMost user s input).bind fun o => ?_
    cases o with
    | none => exact ih
    | some r => exact Program.atMost_done _

/-- How many calls an update makes at most. -/
def updateCalls : Nat := 1 + 11 * updateAttempts

theorem update_atMost : AtMost updateCalls (p.update user s input) :=
  AtMost.bind (m := 0) (Program.atMost_done _) fun _ =>
    AtMost.bind (m := 1) atMost_single fun _ => p.updateWithin_atMost user s input updateAttempts

end ControlPlane

/-- An update that is still under way made fewer calls than it may. -/
theorem System.length_lt_of_unfinished {p : ControlPlane} {moves : List Move} {i : Nat} {t : Task}
    (ht : (after p moves).tasks[i]? = some t) (hu : t.operation.isUpdate = true)
    (h : t.Unfinished) : t.past.length < ControlPlane.updateCalls := by
  cases hop : t.operation with
  | update user s input =>
    have within : AtMost ControlPlane.updateCalls ((Operation.update user s input).program p) :=
      (p.update_atMost user s input).map _
    have bounded := System.follows_after p (within.follows (Nat.le_of_eq (Nat.zero_add _))) moves t
      (List.mem_of_getElem? ht) hop
    obtain ⟨c, next, hrest⟩ := h
    rw [hrest] at bounded
    exact bounded.1
  | _ => rw [hop] at hu; cases hu

end FleetSync
