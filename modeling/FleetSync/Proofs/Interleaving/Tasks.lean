import FleetSync.Proofs.Interleaving.Versions
import FleetSync.Proofs.Sequence.Run

/-!
# Tasks in a run

A task is started in some move (`System.task_started`), and from then on it is there. Once it came
to its end it stays as it is (`System.done_later`), so one that makes a call was under way ever
since it started (`System.unfinished_of_makes`), and all its calls were made since then
(`System.made_since`). After a moment at rest only operations make calls that start later on
(`System.since_of_makes`).
-/

namespace FleetSync

namespace System

variable {p : ControlPlane} {ms ms₁ moves : List Move} {m : Move} {i : Nat} {t : Task}
  {operation : Operation} {past : List Exchange} {x : Exchange}

/-- A task that came to its end stays as it is. -/
theorem done_later (hp : ms <+: moves) (ht : (after p ms).tasks[i]? = some t)
    (done : t.rest.isDone = true) : (after p moves).tasks[i]? = some t := by
  obtain ⟨later, rfl⟩ := hp
  induction later using List.reverseRecOn with
  | nil => rwa [List.append_nil]
  | append_singleton later m ih =>
    rw [← List.append_assoc, after_concat]
    cases m with
    | start o => rw [move, List.getElem?_append_left (List.getElem?_eq_some_iff.1 ih).1, ih]
    | turn k y =>
      rw [move]
      rcases (after p (ms ++ later)).turn_cases k y with hturn | ⟨o, past, c, next, hk, hturn⟩
      · rw [hturn, ih]
      rw [hturn]
      by_cases hik : k = i
      · subst hik
        obtain rfl := Option.some.inj (ih.symm.trans hk)
        cases done
      · rw [List.getElem?_set_ne hik, ih]

/-- A task started in some move, after those with lower numbers. -/
theorem task_started (p : ControlPlane) (moves : List Move)
    (ht : (after p moves).tasks[i]? = some t) :
    ∃ ms, ms ++ [.start t.operation] <+: moves ∧ (after p ms).tasks.length = i := by
  induction moves using List.reverseRecOn generalizing t with
  | nil => cases ht
  | append_singleton moves m ih =>
    have earlier : ∀ {t}, (after p moves).tasks[i]? = some t →
        ∃ ms, ms ++ [.start t.operation] <+: moves ++ [m] ∧ (after p ms).tasks.length = i :=
      fun ht => (ih ht).imp fun _ h => ⟨h.1.trans (List.prefix_append moves [m]), h.2⟩
    rw [after_concat] at ht
    cases m with
    | start o =>
      rw [move, List.getElem?_append] at ht
      split at ht
      · exact earlier ht
      · rename_i hlt
        rw [List.getElem?_singleton] at ht
        split at ht
        · obtain rfl := Option.some.inj ht
          exact ⟨moves, List.prefix_refl _, by omega⟩
        · cases ht
    | turn k y =>
      rw [move] at ht
      rcases (after p moves).turn_cases k y with hturn | ⟨o, past, c, next, hk, hturn⟩
      · exact earlier (hturn ▸ ht)
      rw [hturn] at ht
      by_cases hik : k = i
      · subst hik
        rw [List.getElem?_set_self (List.getElem?_eq_some_iff.1 hk).1] at ht
        obtain rfl := Option.some.inj ht
        exact earlier (t := ⟨o, past, .call c next⟩) hk
      · rw [List.getElem?_set_ne hik] at ht
        exact earlier ht

/-- There are never fewer tasks than before. -/
theorem length_tasks_le (p : ControlPlane) (hp : ms <+: moves) :
    (after p ms).tasks.length ≤ (after p moves).tasks.length := by
  refine Nat.not_lt.1 fun hlt => ?_
  obtain ⟨t, ht, -⟩ := task_later p hp (List.getElem?_eq_getElem hlt)
  exact Nat.lt_irrefl _ (List.getElem?_eq_some_iff.1 ht).1

/-- A task is there only after the moment at which there were as many. -/
theorem prefix_of_task (hi : (after p ms).tasks.length ≤ i) (hp : ms <+: moves)
    (hp₁ : ms₁ <+: moves) (ht : (after p ms₁).tasks[i]? = some t) : ms <+: ms₁ := by
  rcases List.prefix_or_prefix_of_prefix hp hp₁ with h | h
  · exact h
  · have hlt := (List.getElem?_eq_some_iff.1 ht).1
    exact absurd (Nat.lt_of_lt_of_le hlt (length_tasks_le p h)) (Nat.not_lt.2 hi)

/-- A task that was not there at some moment started later on. -/
theorem started_since (hi : (after p ms).tasks.length ≤ i) (hp : ms <+: moves)
    (ht : (after p moves).tasks[i]? = some t) :
    ∃ ms', ms <+: ms' ∧ ms' ++ [.start t.operation] <+: moves := by
  obtain ⟨ms', hp', hlen⟩ := task_started p moves ht
  have tasks : (after p (ms' ++ [.start t.operation])).tasks.length = i + 1 := by
    rw [after_concat, move, List.length_append, List.length_singleton, hlen]
  have hlt : i < (after p (ms' ++ [.start t.operation])).tasks.length := by omega
  refine ⟨ms', ?_, hp'⟩
  rcases List.prefix_concat_iff.1 (prefix_of_task hi hp hp' (List.getElem?_eq_getElem hlt)) with
    rfl | h
  · omega
  · exact h

/-- The calls of a task that was not there at some moment were made later on. -/
theorem made_since (hi : (after p ms).tasks.length ≤ i) (hp : ms <+: moves)
    (ht : (after p moves).tasks[i]? = some t) (hx : x ∈ t.past) :
    ∃ ms' m past, ms <+: ms' ∧ ms' ++ [m] <+: moves ∧
      (after p ms').Makes i t.operation past x (after p (ms' ++ [m])) := by
  obtain ⟨past, later, hpast⟩ := List.append_of_mem hx
  obtain ⟨ms', m, hle, makes⟩ := made p moves ht hpast
  obtain ⟨rest, ht'⟩ := makes.before
  have hp' := (List.prefix_append ms' [m]).trans hle
  exact ⟨ms', m, past, prefix_of_task hi hp hp' ht', hle, makes⟩

/-- A task that makes a call was under way ever since it started. -/
theorem unfinished_of_makes
    (makes : (after p moves).Makes i operation past x (after p (moves ++ [m]))) (hp : ms <+: moves)
    (ht : (after p ms).tasks[i]? = some t) : t.Unfinished := by
  obtain ⟨next, hi⟩ := rest_of_makes makes
  cases hrest : t.rest with
  | call c next => exact ⟨c, next, hrest⟩
  | done r =>
    have done : t.rest.isDone = true := by rw [hrest]; rfl
    rw [done_later hp ht done] at hi
    rw [Option.some.inj hi] at done
    cases done

/-- Once all came to their end, only operations make calls that start later on. -/
theorem since_of_makes (makes : (after p ms₁).Makes i operation past x (after p (ms₁ ++ [m])))
    (rest : (after p ms).AtRest) (hp : ms <+: ms₁) : (after p ms).tasks.length ≤ i := by
  refine Nat.not_lt.1 fun hlt => ?_
  obtain ⟨c, next, hrest⟩ := unfinished_of_makes makes hp (List.getElem?_eq_getElem hlt)
  have done := rest _ (List.getElem_mem hlt)
  rw [hrest] at done
  cases done

end System

end FleetSync
