import FleetSync.Proofs.Mapping.Attachment
import FleetSync.Proofs.Mapping.Interruptions
import FleetSync.Proofs.Sequence.Risks

/-!
# Sending a resource again after a call to the index failed

If a single call to the index fails, what the operation leaves is what such a call may leave
(`System.Carried.brokenOff`). Sending the resource once more settles it by its document
(`ControlPlane.resync_settles`), whatever the index has. So that brings the rows in line with the
document just if they were in line all along, or the document is removed
(`System.lost_call_heals_iff`); a row that was never filed is not filed then either
(`System.lost_call_not_healed`).
-/

namespace FleetSync

open Program (Ensures)

/-- A call to the index that was not served failed. -/
theorem Exchange.failed_of_index {f : Exchange} (index : f.call.isIndex = true)
    (failed : f.isServed = false) : f.Failed := by
  obtain ⟨c, a⟩ := f
  cases c <;> cases index <;> cases a <;> first | exact ⟨_, rfl⟩ | cases failed

/-- Whether the document of a resource was moved to where it belongs, or taken away, whatever was
put on the bus. -/
def Ledger.Settles (l : Ledger) (i : Identity) (l' : Ledger) : Prop :=
  ∃ c bus, l.card? i = some c ∧ l' = { l.settle c (l.target c) with bus }

/-- What sends a resource once more settles it, or does nothing to the ledger. -/
theorem ControlPlane.resync_settles (p : ControlPlane) {w : World} (user : User) (kind : Kind)
    (s : Scope) (name : String) :
    Ensures False (fun _ w' => w.ledger.Settles (s.identity kind name) w'.ledger)
      (fun _ w' => w'.ledger = w.ledger) (p.resync user kind s name) w := by
  refine Ensures.tidy fun ht => ?_
  have tidy := Ledger.tidy_of_documents ht
  unfold resync
  refine (Program.ofExcept_ensures s.check fun _ _ h => h).bind fun _ w₁ h₁ => ?_
  refine (Program.authorize_ensures user.id _ .resync fun _ _ h => h.trans h₁.1).bind
    fun _ w₂ h₂ => ?_
  have hw₂ := h₂.trans h₁.1
  refine (Resource.get_named kind s name fun _ _ h => h.trans hw₂).bind fun r w₃ h₃ => ?_
  obtain ⟨hw₃, hr, -, hi⟩ := h₃
  rw [hw₂] at hw₃ hr
  refine (p.requeue_ensures (hw₃ ▸ hr) fun _ _ h => h.trans hw₃).mono (fun _ w' h => ?_)
    fun _ _ h => h
  obtain ⟨-, l, sends, hw'⟩ := h
  rw [hw₃] at sends hw'
  refine ⟨r.card, l.bus, hi ▸ tidy.card? hr, ?_⟩
  rw [hw', sends.eq]
  unfold Ledger.settle
  split <;> rfl

/-- Whether a task goes on as a program that breaks off as long as its calls are served, and has
come to its end if it lost a call. -/
structure Task.BreaksOffAt (f : Exchange) (i : Identity) (good : Outcome → World → Prop) (t : Task)
    (w : World) : Prop where
  goes : (∀ x ∈ t.past, x.isServed = true) → t.rest.BreaksOff i good w
  ends : ∀ past later, t.past = past ++ f :: later → (∀ x ∈ past ++ later, x.isServed = true) →
    t.rest.isDone = true ∧ w.ledger.BrokenOff i f.call

/-- It goes on so with every call that it makes. -/
theorem Task.BreaksOffAt.step {f : Exchange} {i : Identity} {good : Outcome → World → Prop}
    {operation : Operation} {past : List Exchange} {c : Call} {next : c.Answer → Program Outcome}
    {w : World} (index : f.call.isIndex = true) (failed : f.isServed = false)
    (ht : w.documents.Tidy)
    (h : BreaksOffAt f i good ⟨operation, past, .call c next⟩ w) (x : Circumstances) :
    BreaksOffAt f i good ⟨operation, past ++ [⟨c, (w.reply x c).1⟩], next (w.reply x c).1⟩
      (w.reply x c).2 := by
  refine ⟨fun hserved => ?_, fun past' later hpast hserved => ?_⟩
  · rw [List.forall_mem_append] at hserved
    exact (h.goes hserved.1 ht).2 x (hserved.2 _ (List.mem_singleton_self _))
  rcases List.eq_nil_or_concat later with rfl | ⟨later, y, rfl⟩
  · obtain ⟨rfl, hf⟩ := List.append_inj' hpast rfl
    obtain rfl := List.singleton_inj.1 hf
    rw [List.append_nil] at hserved
    obtain ⟨broken, fails⟩ := (h.goes hserved ht).1 index
    obtain ⟨e, failed⟩ := Exchange.failed_of_index index failed
    obtain ⟨e', hnext⟩ := fails e _ failed
    refine ⟨?_, ?_⟩
    · rw [hnext]
      rfl
    · rw [w.ledger_of_failed x failed]
      exact broken
  · -- Nothing is called after the call that was lost.
    rw [List.concat_eq_append, ← List.cons_append, ← List.append_assoc] at hpast
    obtain ⟨rfl, -⟩ := List.append_inj' hpast rfl
    rw [List.concat_eq_append, ← List.append_assoc, List.forall_mem_append] at hserved
    cases (h.ends past' later rfl hserved.1).1

namespace System

variable {p : ControlPlane} {ms ms' ms'' : List Move} {operation : Operation} {i : Identity}
  {f : Exchange}

/-- Whether the last operation lost a call to the index: it failed, and the store and the index
served all others. -/
structure LastLoses (s : System) (f : Exchange) : Prop where
  index : f.call.isIndex = true
  failed : f.isServed = false
  served : ∃ t ∈ s.tasks.getLast?, ∃ past later, t.past = past ++ f :: later ∧
    ∀ x ∈ past ++ later, x.isServed = true

/-- The last call of the last operation, if it was lost. -/
def lost? (s : System) : Option Exchange :=
  s.tasks.getLast?.bind fun t => t.past.getLast?.filter fun f =>
    f.call.isIndex && !f.isServed && t.past.dropLast.all (·.isServed)

theorem LastLoses.of_lost? {s : System} (h : s.lost? = some f) : s.LastLoses f := by
  obtain ⟨t, ht, h⟩ := Option.bind_eq_some_iff.1 h
  obtain ⟨hf, h⟩ := Option.filter_eq_some_iff.1 h
  simp only [Bool.and_eq_true, Bool.not_eq_true', List.all_eq_true] at h
  obtain ⟨⟨index, failed⟩, served⟩ := h
  refine ⟨index, failed, t, ht, t.past.dropLast, [], ?_, ?_⟩
  · exact (List.dropLast_append_getLast? f hf).symm
  · rwa [List.append_nil]

/-- What an operation that breaks off leaves where it lost a call. -/
theorem Carried.brokenOff {good : Outcome → World → Prop} (h : Carried p ms operation ms')
    (lost : (after p ms').LastLoses f)
    (breaksOff : (operation.program p).BreaksOff i good (after p ms).world) :
    (after p ms').world.ledger.BrokenOff i f.call := by
  obtain ⟨index, failed, t', ht', past, later, hpast, served⟩ := lost
  obtain ⟨before, ⟨moves, rfl, nostart⟩, -⟩ := h
  have start : Task.BreaksOffAt f i good ⟨operation, [], operation.program p⟩ (after p ms).world :=
    ⟨fun _ => breaksOff, fun past later h => absurd h.symm (by simp)⟩
  obtain ⟨t, htasks, -, breaks⟩ := under_way (S := fun _ => True) before nostart
    (fun _ _ _ _ => trivial) start fun _ _ _ _ ht h x _ => h.step index failed ht x
  rw [htasks, List.getLast?_concat] at ht'
  obtain rfl := Option.some.inj ht'
  exact (breaks.ends past later hpast served).2

/-- If an operation on a resource whose rows agreed with its document lost a call to the index, then
to send the resource once more, with nothing failing in the store and the index, leaves it in that
agreement just if the call would not have changed the rows of the resource, or the document is
removed. -/
theorem lost_call_heals_iff {user : User} {kind : Kind} {scope : Scope} {name : String}
    (h : Carried p ms operation ms')
    (agrees : (after p ms).world.ledger.AgreesOn (scope.identity kind name))
    (concerns : operation.Concerns (after p ms) (scope.identity kind name))
    (lost : (after p ms').LastLoses f)
    (again : Carried p ms' (.resync user kind scope name) ms'')
    (served : (after p ms'').LastMeets (·.isServed = true)) :
    (after p ms'').world.ledger.AgreesOn (scope.identity kind name) ↔
      ¬ (after p ms').world.ledger.Needs (scope.identity kind name) f.call ∨
      ((after p ms').world.ledger.card? (scope.identity kind name)).isSome ∧
        (after p ms'').world.ledger.card? (scope.identity kind name) = none := by
  have broken := h.brokenOff lost (operation.breaksOff concerns agrees)
  have tidy := Ledger.tidy_of_documents (tidy p ms')
  have settles : ((Operation.resync user kind scope name).program p).Ensures False
      (fun _ w => (after p ms').world.ledger.Settles (scope.identity kind name) w.ledger)
      (fun _ w => w.ledger = (after p ms').world.ledger) (after p ms').world :=
    (p.resync_settles user kind scope name).map fun _ _ h => h
  obtain ⟨t, r, -, -, ends⟩ := again.upheld_last served settles.upholds
  cases r with
  | ok o =>
    obtain ⟨c, bus, hc, hledger⟩ := ends
    rw [hledger, hc]
    refine (broken.settle tidy hc).trans (or_congr_right ?_)
    exact (and_iff_right rfl).symm
  | error e =>
    rcases ends with ⟨⟨⟩⟩ | same
    rw [same, broken.agreesOn_iff]
    refine (or_iff_left ?_).symm
    rintro ⟨hsome, hnone⟩
    rw [hnone] at hsome
    cases hsome

/-! ### A run -/

/-- The project is created, but its row is not filed. -/
def lostRun : List Move :=
  breakOff 0 "7d1c52a0" (.create .system shopScope shopInput) 4 (.database "upsert" "timeout")

/-- Then it is sent once more. -/
def lostResyncedRun : List Move :=
  lostRun ++ carryOut 1 "5e9b4f36" (.resync .system .project shopScope "shop") 6

theorem lostResyncedRun_lost : (after .default lostRun).AtRest ∧
    (after .default lostRun).lost?.isSome ∧
    (after .default lostResyncedRun).AtRest ∧
    (after .default lostResyncedRun).LastMeets (fun x => x.error? = none) ∧
    ((after .default lostResyncedRun).world.ledger.card? (shopScope.identity .project "shop")).bind
      (·.cluster) = some "eu-1" ∧
    (after .default lostResyncedRun).world.ledger.rowsOf (shopScope.identity .project "shop") =
      [] := by
  decide +kernel

/-- A row that was not filed is not filed when the resource is sent once more: in the run no
document and no row are there at first, the call to file the row of a project fails, and once the
project was sent again, with no call failing, it is on its cluster and has no row. -/
theorem lost_call_not_healed :
    Carried .default [] (.create .system shopScope shopInput) lostRun ∧
    (after .default []).world.ledger.Agreed ∧
    Operation.Concerns (after .default []) (.create .system shopScope shopInput)
      (shopScope.identity .project "shop") ∧
    (∃ f, (after .default lostRun).LastLoses f) ∧
    Carried .default lostRun (.resync .system .project shopScope "shop") lostResyncedRun ∧
    (after .default lostResyncedRun).LastMeets (fun x => x.error? = none) ∧
    (∃ c, (after .default lostResyncedRun).world.ledger.card?
      (shopScope.identity .project "shop") = some c ∧ c.cluster = some "eu-1") ∧
    (after .default lostResyncedRun).world.ledger.rowsOf (shopScope.identity .project "shop") =
      [] := by
  obtain ⟨lost, loses, rest, met, cluster, rows⟩ := lostResyncedRun_lost
  obtain ⟨f, hf⟩ := Option.isSome_iff_exists.1 loses
  have created : Carried .default [] (.create .system shopScope shopInput) lostRun :=
    carried_breakOff (atRest_nil _) 0 "7d1c52a0" _ 4 _ lost
  exact ⟨created, fun i => rfl, .create _ _ _, ⟨f, .of_lost? hf⟩,
    carried_carryOut lost 1 "5e9b4f36" _ 6 rest, met, Option.bind_eq_some_iff.1 cluster, rows⟩

/-- The project is moved, but not its members. -/
def halfMovedRun : List Move :=
  createdRun ++
    breakOff 1 "5e9b4f36" (.update .system shopScope movedInput) 5 (.database "reassign" "timeout")

/-- Then it is sent once more. -/
def halfMovedResyncedRun : List Move :=
  halfMovedRun ++ carryOut 2 "8a410000" (.resync .system .project shopScope "shop") 6

theorem halfMovedResyncedRun_lost : (after .default createdRun).AtRest ∧
    (after .default createdRun).world.ledger.AgreesOn (shopScope.identity .project "shop") ∧
    (after .default halfMovedRun).AtRest ∧
    (∃ f ∈ (after .default halfMovedRun).lost?, ¬ (after .default halfMovedRun).world.ledger.Needs
      (shopScope.identity .project "shop") f.call) ∧
    (after .default halfMovedResyncedRun).AtRest ∧
    (after .default halfMovedResyncedRun).LastMeets (·.isServed = true) := by
  decide +kernel

/-- In the run the call fails that moves the rows of the members of a project, after the row of the
project itself was filed. -/
theorem lost_call_heals_iff_half_moved :
    Carried .default createdRun (.update .system shopScope movedInput) halfMovedRun ∧
    (after .default createdRun).world.ledger.AgreesOn (shopScope.identity .project "shop") ∧
    Operation.Concerns (after .default createdRun) (.update .system shopScope movedInput)
      (shopScope.identity .project "shop") ∧
    (∃ f, (after .default halfMovedRun).LastLoses f) ∧
    Carried .default halfMovedRun (.resync .system .project shopScope "shop") halfMovedResyncedRun ∧
    (after .default halfMovedResyncedRun).LastMeets (·.isServed = true) ∧
    (after .default halfMovedResyncedRun).world.ledger.AgreesOn
      (shopScope.identity .project "shop") := by
  obtain ⟨created, agrees, moved, ⟨f, hf, idle⟩, rest, served⟩ := halfMovedResyncedRun_lost
  have carried : Carried .default createdRun (.update .system shopScope movedInput) halfMovedRun :=
    carried_breakOff created 1 "5e9b4f36" _ 5 _ moved
  have concerns : Operation.Concerns (after .default createdRun)
      (.update .system shopScope movedInput) (shopScope.identity .project "shop") :=
    .update _ _ _
  have lost : (after .default halfMovedRun).LastLoses f := .of_lost? hf
  have again : Carried .default halfMovedRun (.resync .system .project shopScope "shop")
      halfMovedResyncedRun := carried_carryOut moved 2 "8a410000" _ 6 rest
  exact ⟨carried, agrees, concerns, ⟨f, lost⟩, again, served,
    (lost_call_heals_iff carried agrees concerns lost again served).2 (.inl idle)⟩

end System

end FleetSync
