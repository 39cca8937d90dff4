import FleetSync.Proofs.Sequence.HonestSweeps
import FleetSync.Proofs.Sequence.Replays

/-!
# The events mirror the store

In a sequential run in which no call of the store or the index fails, every event comes when it is
awaited, so the events of each identity are in order at every moment (`System.in_order`), and
whenever the system is at rest they say just which identities are stored (`System.mirrors`). Events
are told last: this is so although an operation may break off when the bus fails
(`System.events_mirror_store`).
-/

namespace FleetSync

/-- A call adds at most one event, the one that it tells. -/
theorem World.events_reply (x : Circumstances) (c : Call) (w : World) :
    (w.reply x c).2.events = w.events ∨
      ∃ e, c = .emit e ∧ (w.reply x c).2.events = w.events ++ [e] := by
  rcases w.reply_answered x c with hw | same
  · rw [hw]
    cases c with
    | emit e => exact .inr ⟨e, rfl, rfl⟩
    | insert | patchOne | deleteOne | deleteMany | upsert =>
      simp only [answer]
      split <;> exact .inl rfl
    | _ => exact .inl rfl
  · exact .inl same.events

theorem Exchange.not_failed_of_isServed {x : Exchange} (h : x.isServed = true)
    (due : x.call.isDue = true) : ¬ x.Failed := by
  rintro ⟨e, failed⟩
  have served : False ∨ x.isServed = true := .inr h
  exact Exchange.faults_of_failed served due failed

namespace System

variable {p : ControlPlane} {moves : List Move}

/-- Whether the store and the index did what they were asked so far; inserts may be refused. -/
def Heeded (s : System) : Prop := s.Meets fun x => x.call.isDue = true → ¬ x.Failed

theorem Heeded.meets {s : System} (h : s.Heeded) : s.Meets (Exchange.Done False) :=
  fun t ht x hx => .inr (h t ht x hx)

theorem Served.heeded {s : System} (h : s.Served) : s.Heeded :=
  fun t ht x hx => Exchange.not_failed_of_isServed (h t ht x hx)

/-- Whenever the system is at rest, the events say which resources are stored. -/
theorem mirrors (seq : Sequential p moves) (heeded : (after p moves).Heeded)
    (rest : (after p moves).AtRest) : (after p moves).world.Mirrors := by
  refine seq.induction (P := fun ms => (after p ms).world.Mirrors) (fun ms hno i => ?_)
    (fun ms operation ms' hp carried mirrors => ?_) rest
  · rw [after_of_noStart hno]
    exact ⟨false, rfl, iff_of_false Bool.false_ne_true fun ⟨_, hd, _⟩ => nomatch hd⟩
  · obtain ⟨_, _, -, -, -, inStep⟩ := carried.upheld (heeded.meets.of_prefix hp)
      (operation.honest (.inr mirrors))
    exact inStep.resolve_left not_false

/-- At every moment the events of each identity are in order. -/
theorem in_order (seq : Sequential p moves) (heeded : (after p moves).Heeded) (i : Identity) :
    ∃ b, EventKind.presence? ((after p moves).world.history i) = some b := by
  induction moves using List.reverseRecOn with
  | nil => exact ⟨false, rfl⟩
  | append_singleton moves m ih =>
    have hp : moves <+: moves ++ [m] := List.prefix_append _ _
    have ih := ih (seq.of_prefix hp) (Meets.of_prefix heeded hp)
    rcases seq.turns heeded.meets with hw | ⟨ms, operation, c, x, hle, rest, -, -, hw, lawful⟩
    · rwa [hw]
    have hms : ms <+: moves ++ [m] := ((List.prefix_append _ _).trans hle).trans hp
    have mirrors := mirrors (seq.of_prefix hms) (Meets.of_prefix heeded hms) rest
    have honest := lawful (operation.honest (.inr mirrors))
    rcases World.events_reply x c (after p moves).world with hevents | ⟨e, rfl, hevents⟩
    · rwa [hw, World.history, hevents]
    · rw [hw, World.history_concat hevents]
      split
      · rename_i hi
        rw [← hi]
        exact Option.isSome_iff_exists.1 (honest.resolve_left not_false)
      · exact ih

/-- The events of an identity are those of resources that are added and deleted in turn, with
updates in between, and whenever the system is at rest there are more additions than deletions if
and only if a resource with the identity is stored. -/
theorem events_mirror_store (seq : Sequential p moves) (heeded : (after p moves).Heeded)
    (i : Identity) :
    EventKind.Lifecycle ((after p moves).world.history i) ∧
      ((after p moves).AtRest →
        (((after p moves).world.history i).count .deleted <
          ((after p moves).world.history i).count .added ↔
          ∃ d ∈ (after p moves).documents, d.identity = i)) := by
  obtain ⟨b, hb⟩ := in_order seq heeded i
  obtain ⟨cycle, hcount⟩ := EventKind.lifecycle_of_presence? hb
  refine ⟨cycle, fun rest => ?_⟩
  obtain ⟨b', hb', hthere⟩ := mirrors seq heeded rest i
  obtain rfl : b = b' := Option.some.inj (hb.symm.trans hb')
  refine Iff.trans ?_ hthere
  cases b <;> simp at hcount ⊢ <;> omega

/-- In the run the project is created, deleted, created once more and taken away at once by the
confirmation of the first deletion. -/
theorem events_mirror_store_replayed : Sequential .default replayedRun ∧
    (after .default replayedRun).Heeded ∧
    (after .default replayedRun).world.history ⟨.project, "acme", "shop", none, "shop"⟩ =
      [.added, .updated, .deleted, .added, .deleted] ∧
    EventKind.Lifecycle [.added, .updated, .deleted, .added, .deleted] ∧
    ¬ ∃ d ∈ (after .default replayedRun).documents,
      d.identity = ⟨.project, "acme", "shop", none, "shop"⟩ := by
  obtain ⟨⟨-, -, -, -, rest, served⟩, -⟩ := replayedRun_documents
  have history : (after .default replayedRun).world.history
      ⟨.project, "acme", "shop", none, "shop"⟩ =
      [.added, .updated, .deleted, .added, .deleted] := by
    decide +kernel
  obtain ⟨cycle, there⟩ := events_mirror_store sequential_replayedRun (Served.heeded served)
    ⟨.project, "acme", "shop", none, "shop"⟩
  rw [history] at cycle there
  exact ⟨sequential_replayedRun, Served.heeded served, history, cycle,
    (there rest).not.1 (by decide)⟩

end System

end FleetSync
