import FleetSync.Program.Fault
import FleetSync.Proofs.Sequence.Tidy

/-!
# Callers that are refused

Every operation of a user checks its arguments, then it asks whether the user may do that, and only
then it goes on (`Operation.program_eq`). So a user without the permission ends with what follows
from the arguments and the checker's answer alone (`Operation.admission`), before the store, the
index, the bus or the event channel is called (`System.refused_unchanged`).
-/

namespace FleetSync

/-- What is asked of a checker. -/
structure Question where
  userId : String
  resource : ResourceRef
  permission : Permission
deriving DecidableEq, Repr, Inhabited

namespace Question

/-- The answer of a checker. -/
def answer (q : Question) (checker : Checker) : Except OpError Bool :=
  checker q.userId q.resource q.permission

/-- What follows from the answer of a checker. -/
def verdict (q : Question) (checker : Checker) : Except OpError Unit :=
  Checker.verdict q.userId q.resource q.permission (q.answer checker)

/-- Without a permission there is an error. -/
theorem verdict_of_refused {q : Question} {checker : Checker} (h : q.answer checker ≠ .ok true) :
    ∃ e, q.verdict checker = .error e := by
  unfold verdict Checker.verdict
  split
  · contradiction
  · exact ⟨_, rfl⟩
  · exact ⟨_, rfl⟩
  · exact ⟨_, rfl⟩

end Question

namespace Operation

/-- The permission that the user of an operation needs; sweeps and reports have no user. -/
def question? : Operation → Option Question
  | create user s input => some ⟨user.id, .of input.kind s input.name, .create⟩
  | update user s input => some ⟨user.id, .of input.kind s input.name, .update⟩
  | delete user kind s name => some ⟨user.id, .of kind s name, .delete⟩
  | resync user kind s name => some ⟨user.id, .of kind s name, .resync⟩
  | resyncScope user s => some ⟨user.id, .scopeOwner s, .resync⟩
  | detachScope user s _ => some ⟨user.id, .scopeOwner s, .detach⟩
  | resyncStale _ | ingest _ | route _ => none

/-- What an operation checks of its arguments before it asks for the permission. -/
def check : Operation → Except OpError Unit
  | create _ s input => do
    input.checkNames
    input.checkPlace s
  | update _ s _ | delete _ _ s _ | resync _ _ s _ | resyncScope _ s | detachScope _ s _ => s.check
  | resyncStale _ | ingest _ | route _ => .ok ()

/-- Whether an operation that asks a question gets past the check of its arguments and the checker,
or what it ends with. -/
def admission (operation : Operation) (q : Question) (checker : Checker) : Except OpError Unit := do
  operation.check
  q.verdict checker

theorem admission_of_refused (operation : Operation) {q : Question} {checker : Checker}
    (h : q.answer checker ≠ .ok true) : ∃ e, operation.admission q checker = .error e := by
  unfold admission
  cases operation.check with
  | error e => exact ⟨e, rfl⟩
  | ok _ => exact Question.verdict_of_refused h

end Operation

namespace Program

variable {α : Type}

theorem ofExcept_bind_ofExcept {β γ : Type} (r : Except OpError β) (f : β → Except OpError γ)
    (g : γ → Program α) :
    (ofExcept r >>= fun b => ofExcept (f b) >>= g) = ofExcept (r >>= f) >>= g := by
  cases r <;> rfl

/-- Checks something, and then whether a user has a permission, before anything else. -/
def guarded (check : Except OpError Unit) (q : Question) (rest : Program α) : Program α := do
  ofExcept check
  authorize q.userId q.resource q.permission
  rest

theorem map_guarded {β : Type} (f : α → β) (check : Except OpError Unit) (q : Question)
    (rest : Program α) : f <$> guarded check q rest = guarded check q (f <$> rest) := by
  rw [guarded, guarded, map_bind]
  exact congrArg _ (funext fun _ => map_bind _ _ _)

/-- Who is refused comes to an end at once, in any world that asks the checker. -/
theorem run_guarded {σ : Type} {answer : (c : Call) → σ → c.Answer × σ} {checker : Checker}
    {check : Except OpError Unit} {q : Question} {rest : Program α} {e : OpError}
    (asks : ∀ w, answer (.authorize q.userId q.resource q.permission) w = (q.answer checker, w))
    (refused : (do check; q.verdict checker) = .error e) (w : σ) :
    (guarded check q rest).run answer w = (.error e, w) := by
  cases check with
  | error e' =>
    obtain rfl := Except.error.inj refused
    rfl
  | ok _ =>
    have hverdict : Checker.verdict q.userId q.resource q.permission (q.answer checker) =
      .error e := refused
    rw [guarded, ofExcept, done_ok_bind, authorize, call_bind, run_call, asks w, hverdict]
    rfl

end Program

namespace Operation

/-- An operation of a user is guarded by its question. -/
theorem program_eq (p : ControlPlane) {operation : Operation} {q : Question}
    (asks : operation.question? = some q) :
    ∃ rest, operation.program p = Program.guarded operation.check q rest := by
  have guarded : ∀ {α : Type} (f : α → Outcome) (rest : Program α),
      ∃ rest', f <$> Program.guarded operation.check q rest =
        Program.guarded operation.check q rest' := fun f rest => ⟨_, Program.map_guarded f _ q rest⟩
  cases operation with
  | create user s input =>
    obtain rfl := Option.some.inj asks
    rw [program, ControlPlane.create, Program.ofExcept_bind_ofExcept]
    exact guarded _ _
  | update user s input | delete user kind s name | resync user kind s name | resyncScope user s
  | detachScope user s purge =>
    obtain rfl := Option.some.inj asks
    exact guarded _ _
  | resyncStale _ | ingest _ | route _ => cases asks

end Operation

namespace System

/-- Who has not the permission that an operation needs ends with an error that tells nothing of the
state, which is the same for every state, and leaves the state as it is, also one in which calls are
to go wrong. -/
theorem refused_unchanged (p : ControlPlane) (checker : Checker) (operation : Operation)
    {q : Question} (asks : operation.question? = some q) (refused : q.answer checker ≠ .ok true) :
    ∃ e, operation.admission q checker = .error e ∧
      (∀ w : World, (operation.program p).run (World.answer checker) w = (.error e, w)) ∧
      ∀ x : FaultyWorld, (operation.program p).run (FaultyWorld.answer checker) x =
        (.error e, x) := by
  obtain ⟨e, he⟩ := operation.admission_of_refused refused
  obtain ⟨rest, hprogram⟩ := operation.program_eq p asks
  rw [hprogram]
  exact ⟨e, he, Program.run_guarded (fun _ => rfl) he, Program.run_guarded (fun _ => rfl) he⟩

/-- Allows everything to the control plane itself, and nothing to others. -/
def systemOnly : Checker := fun userId _ _ => .ok (userId == User.system.id)

/-- A deletion by someone else. -/
def strangeDeletion : Operation := .delete ⟨"u-7", "Eve", ""⟩ .project shopScope "shop"

/-- Someone else is told the same where there is such a project and where there is none. -/
theorem refused_unchanged_stranger :
    (∃ d ∈ (after .default confirmedRun).documents, d.text "name" = "shop") ∧
    strangeDeletion.question? = some ⟨"u-7", .of .project shopScope "shop", .delete⟩ ∧
    Question.answer ⟨"u-7", .of .project shopScope "shop", .delete⟩ systemOnly ≠ .ok true ∧
    (strangeDeletion.program .default).run (World.answer systemOnly)
        (after .default confirmedRun).world =
      (.error (.permissionDenied "u-7" "delete" "project:acme/shop/shop"),
        (after .default confirmedRun).world) ∧
    (strangeDeletion.program .default).run (World.answer systemOnly) (.empty default) =
      (.error (.permissionDenied "u-7" "delete" "project:acme/shop/shop"), .empty default) := by
  have stored : ∃ d ∈ (after .default confirmedRun).documents, d.text "name" = "shop" := by
    decide +kernel
  have refused : Question.answer ⟨"u-7", .of .project shopScope "shop", .delete⟩ systemOnly ≠
      .ok true := by decide
  obtain ⟨e, he, unchanged, -⟩ :=
    refused_unchanged .default systemOnly strangeDeletion rfl refused
  have hadmission : strangeDeletion.admission ⟨"u-7", .of .project shopScope "shop", .delete⟩
      systemOnly = .error (.permissionDenied "u-7" "delete" "project:acme/shop/shop") := by
    decide
  rw [hadmission] at he
  obtain rfl := Except.error.inj he
  exact ⟨stored, rfl, refused, unchanged _, unchanged _⟩

end System

end FleetSync
