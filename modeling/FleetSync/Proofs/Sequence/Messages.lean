import FleetSync.Proofs.Sequence.HonestSweeps

/-!
# What messages tell

A log grows only by what is published (`World.log_reply`), and in a sequential run whatever is
published tells the truth of a document that is stored at that moment (`System.sent_since`,
`System.messages_truthful`): whichever call fails, an agent is never sent anything but the desired
state on record.
-/

namespace FleetSync

/-- A call leaves a log as it is, or it publishes to it. -/
theorem World.log_reply (x : Circumstances) (c : Call) (w : World) (topic : String) :
    (w.reply x c).2.bus.log topic = w.bus.log topic ∨ ∃ key payload,
      c = .publish topic key payload ∧ (w.reply x c).2.bus.log topic =
        w.bus.log topic ++ [⟨(w.bus.log topic).length, topic, key, payload, 1⟩] := by
  rcases w.reply_answered x c with hw | same
  · rw [hw]
    cases c with
    | publish topic' key payload =>
      have hlog : (w.answer (fun _ _ _ => x.permission) (.publish topic' key payload)).2.bus =
        (w.bus.publish topic' key payload).2 := rfl
      by_cases ht : topic = topic'
      · subst ht
        refine .inr ⟨key, payload, rfl, ?_⟩
        exact (w.bus.log_publish topic key topic payload).trans (by rw [if_pos rfl])
      · exact .inl ((w.bus.log_publish topic' key topic payload).trans
          (by rw [if_neg ht, List.append_nil]))
    | insert | patchOne | deleteOne | deleteMany | upsert =>
      simp only [answer]
      split <;> exact .inl rfl
    | _ => exact .inl rfl
  · exact .inl (by rw [same.bus])

namespace System

variable {p : ControlPlane} {ms moves : List Move}

/-- Whether a move publishes a message to a topic. -/
structure Publishes (p : ControlPlane) (ms : List Move) (mv : Move) (topic : String)
    (m : Delivery) : Prop where
  log : (after p (ms ++ [mv])).world.bus.log topic = (after p ms).world.bus.log topic ++ [m]
  topic : m.topic = topic

/-- Since any moment logs have grown by messages only that told the truth when they were
published. -/
theorem sent_since (seq : Sequential p moves) (hp : ms <+: moves) (topic : String) :
    ∃ new, (after p moves).world.bus.log topic = (after p ms).world.bus.log topic ++ new ∧
      ∀ m ∈ new, ∃ ms₁ mv, ms <+: ms₁ ∧ ms₁ ++ [mv] <+: moves ∧ Publishes p ms₁ mv topic m ∧
        ∃ d ∈ (after p ms₁).documents, ∃ e, m.Tells p (after p ms₁).world d e := by
  obtain ⟨later, rfl⟩ := hp
  induction later using List.reverseRecOn with
  | nil => exact ⟨[], by rw [List.append_nil, List.append_nil], fun _ hm => nomatch hm⟩
  | append_singleton later mv ih =>
    rw [← List.append_assoc] at seq ⊢
    have hp : ms ++ later <+: ms ++ later ++ [mv] := List.prefix_append _ _
    obtain ⟨new, hlog, sent⟩ := ih (seq.of_prefix hp)
    have before : ∀ m ∈ new, ∃ ms₁ mv', ms <+: ms₁ ∧ ms₁ ++ [mv'] <+: ms ++ later ++ [mv] ∧
        Publishes p ms₁ mv' topic m ∧
        ∃ d ∈ (after p ms₁).documents, ∃ e, m.Tells p (after p ms₁).world d e := by
      intro m hm
      obtain ⟨ms₁, mv', hle, hle', h⟩ := sent m hm
      exact ⟨ms₁, mv', hle, hle'.trans hp, h⟩
    rcases seq.turns (S := Exchange.Done True) fun _ _ _ _ => .inl trivial with
      hw | ⟨ms₀, operation, c, x, -, -, -, -, hw, lawful⟩
    · exact ⟨new, by rw [hw, hlog], before⟩
    have honest := lawful (operation.honest (.inl trivial))
    rcases World.log_reply x c (after p (ms ++ later)).world topic with
      hreply | ⟨key, payload, rfl, hreply⟩
    · exact ⟨new, by rw [hw, hreply, hlog], before⟩
    rw [← hw] at hreply
    have hlog' := congrArg (· ++ [⟨((after p (ms ++ later)).world.bus.log topic).length, topic, key,
      payload, 1⟩]) hlog
    refine ⟨_, hreply.trans (hlog'.trans (List.append_assoc ..)), fun m hm => ?_⟩
    rcases List.mem_append.1 hm with hm | hm
    · exact before m hm
    · obtain rfl := List.mem_singleton.1 hm
      exact ⟨ms ++ later, mv, List.prefix_append _ _, List.prefix_refl _, ⟨hreply, rfl⟩, honest⟩

end System

end FleetSync
