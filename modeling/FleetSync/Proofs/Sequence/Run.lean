import FleetSync.Proofs.Sequence.Ensures

/-!
# Operations one after the other

A run is sequential if an operation starts only when all others have come to their end
(`System.Sequential`). What an operation ensures by itself it then ensures in the run
(`System.Carried.ensures`), and what every operation that is carried out keeps holds whenever the
system is at rest (`System.Sequential.induction`). Runs are put together from the turns of one
operation after the other (`System.Sequential.carry`).
-/

namespace FleetSync

/-- Whether a program has come to its end. -/
def Program.isDone {α : Type} : Program α → Bool
  | done _ => true
  | call .. => false

namespace System

/-- Whether no operation is under way. -/
def AtRest (s : System) : Prop := ∀ t ∈ s.tasks, t.rest.isDone = true

instance (s : System) : Decidable s.AtRest :=
  inferInstanceAs (Decidable (∀ t ∈ s.tasks, t.rest.isDone = true))

/-- Whether something holds of every call so far and its answer. -/
def Meets (S : Exchange → Prop) (s : System) : Prop := ∀ t ∈ s.tasks, ∀ x ∈ t.past, S x

/-- Whether the store and the index served every call so far. -/
def Served (s : System) : Prop := ∀ t ∈ s.tasks, ∀ x ∈ t.past, x.isServed = true

instance (s : System) : Decidable s.Served :=
  inferInstanceAs (Decidable (∀ t ∈ s.tasks, ∀ x ∈ t.past, x.isServed = true))

/-- Whether something holds of every operation that starts and of the moves before it. -/
def EachStart (P : List Move → Operation → Prop) (moves : List Move) : Prop :=
  ∀ ms operation, ms ++ [.start operation] <+: moves → P ms operation

/-- Whether operations start only when no other is under way. -/
def Sequential (p : ControlPlane) (moves : List Move) : Prop :=
  EachStart (fun ms _ => (after p ms).AtRest) moves

/-- Whether moves start no operation. -/
def NoStart (moves : List Move) : Prop := ∀ operation, .start operation ∉ moves

/-- Whether an envelope was put on a topic between two moments. -/
def Posted (s s' : System) (topic : String) (e : Wire.Envelope) : Prop :=
  ∃ m ∈ (s'.world.bus.log topic).drop (s.world.bus.log topic).length, m.Carries e

/-- From one moment at rest to another one operation was carried out. -/
structure Carried (p : ControlPlane) (ms : List Move) (operation : Operation) (ms' : List Move) :
    Prop where
  before : (after p ms).AtRest
  moves : ∃ later, ms' = ms ++ .start operation :: later ∧ NoStart later
  ended : (after p ms').AtRest

variable {p : ControlPlane} {ms ms' moves later : List Move} {operation : Operation}

/-- Nothing was put on a topic if none got longer. -/
theorem not_posted {s s' : System} {topic : String} {e : Wire.Envelope}
    (h : ∀ t ∈ s'.world.bus.topics, t.2.length ≤ (s.world.bus.log t.1).length) :
    ¬ s.Posted s' topic e := by
  rintro ⟨m, hm, -⟩
  cases hlog : Fields.get? topic s'.world.bus.topics with
  | none =>
    have hnil : s'.world.bus.log topic = [] := by rw [MemoryBus.log, hlog, Option.getD_none]
    rw [hnil, List.drop_nil] at hm
    cases hm
  | some log =>
    have hlog' : s'.world.bus.log topic = log := by rw [MemoryBus.log, hlog, Option.getD_some]
    rw [hlog', List.drop_eq_nil_of_le (h _ (Fields.mem_of_get? hlog))] at hm
    cases hm

theorem Meets.of_prefix {S : Exchange → Prop} (h : (after p moves).Meets S) (hp : ms <+: moves) :
    (after p ms).Meets S := by
  obtain ⟨later, rfl⟩ := hp
  induction later using List.reverseRecOn with
  | nil => rwa [List.append_nil] at h
  | append_singleton later m ih =>
    refine ih fun t ht x hx => ?_
    obtain ⟨i, hi⟩ := List.mem_iff_getElem?.1 ht
    obtain ⟨t', ht', -, hpast⟩ := (advance p (ms ++ later) m).task_after hi
    rw [List.append_assoc] at ht'
    exact h t' (List.mem_of_getElem? ht') x (hpast.subset hx)

theorem Served.of_prefix (h : (after p moves).Served) (hp : ms <+: moves) :
    (after p ms).Served := Meets.of_prefix h hp

/-- Before anything started nothing happened. -/
theorem after_of_noStart (h : NoStart moves) : after p moves = ⟨.empty default, []⟩ := by
  induction moves using List.reverseRecOn with
  | nil => rfl
  | append_singleton moves m ih =>
    have ih := ih fun o ho => h o (List.mem_append_left _ ho)
    rw [after_concat, ih]
    cases m with
    | start o => exact absurd (List.mem_append_right _ (List.mem_singleton_self _)) (h o)
    | turn i x => rfl

/-- Moves start nothing, or there is an operation that was started last. -/
theorem noStart_or_last (moves : List Move) : NoStart moves ∨
    ∃ ms operation later, moves = ms ++ .start operation :: later ∧ NoStart later := by
  induction moves with
  | nil => exact .inl fun _ h => nomatch h
  | cons m rest ih =>
    rcases ih with ih | ⟨ms, operation, later, rfl, hl⟩
    · cases m with
      | start operation => exact .inr ⟨[], operation, rest, rfl, ih⟩
      | turn i x =>
        refine .inl fun o ho => ?_
        rcases List.mem_cons.1 ho with ho | ho
        · cases ho
        · exact ih o ho
    · exact .inr ⟨m :: ms, operation, later, rfl, hl⟩

/-- Only the last task may make a call if all before it came to their end. -/
theorem last_of_call {tasks : List Task} {t : Task} {i : Nat} {past : List Exchange} {c : Call}
    {next : c.Answer → Program Outcome} (rest : ∀ t ∈ tasks, t.rest.isDone = true)
    (hi : (tasks ++ [t])[i]? = some ⟨operation, past, .call c next⟩) :
    i = tasks.length ∧ t = ⟨operation, past, .call c next⟩ := by
  rcases Nat.lt_or_ge i tasks.length with hlt | hge
  · rw [List.getElem?_append_left hlt] at hi
    have hdone := rest _ (List.mem_of_getElem? hi)
    cases hdone
  · rw [List.getElem?_append_right hge, List.getElem?_singleton] at hi
    split at hi
    · have ht := Option.some.inj hi
      exact ⟨by omega, ht⟩
    · cases hi

/-- Until another operation starts, the last one goes on by itself: what holds when it starts, and
goes on to hold with every call that it makes in such circumstances, holds of it at every moment. -/
theorem under_way_amid {C : World → Call → Circumstances → Prop} {Q : Task → World → Prop}
    (rest : (after p ms).AtRest) (nostart : NoStart later)
    (amid : ∀ later' i x, later' ++ [.turn i x] <+: later → ∀ o past c next,
      (after p (ms ++ .start operation :: later')).tasks[i]? = some ⟨o, past, .call c next⟩ →
      (after p (ms ++ .start operation :: (later' ++ [.turn i x]))).tasks =
        (after p (ms ++ .start operation :: later')).tasks.set i
          ⟨o, past ++ [⟨c, ((after p (ms ++ .start operation :: later')).world.reply x c).1⟩],
            next ((after p (ms ++ .start operation :: later')).world.reply x c).1⟩ →
      C (after p (ms ++ .start operation :: later')).world c x)
    (start : Q ⟨operation, [], operation.program p⟩ (after p ms).world)
    (step : ∀ past c next w, w.documents.Tidy → Q ⟨operation, past, .call c next⟩ w →
      ∀ x : Circumstances, C w c x →
      Q ⟨operation, past ++ [⟨c, (w.reply x c).1⟩], next (w.reply x c).1⟩ (w.reply x c).2) :
    ∃ t, (after p (ms ++ .start operation :: later)).tasks = (after p ms).tasks ++ [t] ∧
      t.operation = operation ∧ Q t (after p (ms ++ .start operation :: later)).world := by
  induction later using List.reverseRecOn with
  | nil => exact ⟨_, by rw [after_concat]; rfl, rfl, by rw [after_concat]; exact start⟩
  | append_singleton later m ih =>
    obtain ⟨t, htasks, hop, hq⟩ := ih
      (fun o ho => nostart o (List.mem_append_left _ ho))
      fun later' i x hp => amid later' i x (hp.trans (List.prefix_append _ _))
    have hlist : ms ++ .start operation :: (later ++ [m]) =
        (ms ++ .start operation :: later) ++ [m] := by simp
    have htidy := tidy p (ms ++ .start operation :: later)
    cases m with
    | start o => exact absurd (List.mem_append_right _ (List.mem_singleton_self _)) (nostart o)
    | turn i x =>
      have amid := amid later i x (List.prefix_refl _)
      revert amid
      rw [hlist, after_concat]
      generalize after p (ms ++ .start operation :: later) = s at htasks hq htidy
      intro amid
      change ∀ o past c next, s.tasks[i]? = some ⟨o, past, .call c next⟩ →
        (s.turn i x).tasks = _ → _ at amid
      change ∃ t, (s.turn i x).tasks = (after p ms).tasks ++ [t] ∧ t.operation = operation ∧
        Q t (s.turn i x).world
      rcases s.turn_cases i x with hturn | ⟨operation', past, c, next, hi, hturn⟩
      · rw [hturn]
        exact ⟨t, htasks, hop, hq⟩
      have hc := amid _ _ _ _ hi (by rw [hturn])
      rw [hturn]
      rw [htasks] at hi
      obtain ⟨rfl, rfl⟩ := last_of_call rest hi
      obtain rfl : operation' = operation := hop
      refine ⟨_, ?_, rfl, step past c next s.world htidy hq x hc⟩
      change s.tasks.set _ _ = _
      rw [htasks]
      simp

/-- Until another operation starts, the last one goes on by itself: what holds when it starts, and
goes on to hold with every call that it makes, holds of it at every moment. -/
theorem under_way {S : Exchange → Prop} {Q : Task → World → Prop} (rest : (after p ms).AtRest)
    (nostart : NoStart later)
    (met : (after p (ms ++ .start operation :: later)).Meets S)
    (start : Q ⟨operation, [], operation.program p⟩ (after p ms).world)
    (step : ∀ past c next w, w.documents.Tidy → Q ⟨operation, past, .call c next⟩ w →
      ∀ x : Circumstances, S ⟨c, (w.reply x c).1⟩ →
      Q ⟨operation, past ++ [⟨c, (w.reply x c).1⟩], next (w.reply x c).1⟩ (w.reply x c).2) :
    ∃ t, (after p (ms ++ .start operation :: later)).tasks = (after p ms).tasks ++ [t] ∧
      t.operation = operation ∧ Q t (after p (ms ++ .start operation :: later)).world := by
  refine under_way_amid (C := fun w c x => S ⟨c, (w.reply x c).1⟩) rest nostart
    (fun later' i x hp o past c next hi hturn => ?_) start step
  have hprefix : ms ++ .start operation :: (later' ++ [.turn i x]) <+:
      ms ++ .start operation :: later :=
    List.prefix_append_right_inj _ |>.2 (List.cons_prefix_cons.2 ⟨rfl, hp⟩)
  let w := (after p (ms ++ .start operation :: later')).world
  let t' : Task := ⟨o, past ++ [⟨c, (w.reply x c).1⟩], next (w.reply x c).1⟩
  have ht' : t' ∈ (after p (ms ++ .start operation :: (later' ++ [.turn i x]))).tasks := by
    rw [hturn]
    exact List.mem_of_getElem? (List.getElem?_set_self (List.getElem?_eq_some_iff.1 hi).1)
  exact met.of_prefix hprefix t' ht' _ List.mem_concat_self

/-- Who makes a call has not come to an end. -/
theorem rest_of_makes {i : Nat} {past : List Exchange} {x : Exchange} {m : Move}
    (makes : (after p moves).Makes i operation past x (after p (moves ++ [m]))) :
    ∃ next, (after p moves).tasks[i]? = some ⟨operation, past, .call x.call next⟩ := by
  obtain ⟨next, -, hi, -⟩ := reply_of_makes makes
  exact ⟨next, hi⟩

/-- In a sequential run a call is made by the operation that was started last. What holds of it
when it starts, and goes on to hold with every call that it makes, holds of it when it makes this
one. -/
theorem Sequential.by_itself (seq : Sequential p moves) {i : Nat} {past : List Exchange}
    {x : Exchange} {m : Move}
    (makes : (after p moves).Makes i operation past x (after p (moves ++ [m]))) :
    ∃ ms, ms ++ [.start operation] <+: moves ∧ ∀ Q : Task → World → Prop,
      Q ⟨operation, [], operation.program p⟩ (after p ms).world →
      (∀ past c next w, Q ⟨operation, past, .call c next⟩ w → ∀ x : Circumstances,
        Q ⟨operation, past ++ [⟨c, (w.reply x c).1⟩], next (w.reply x c).1⟩ (w.reply x c).2) →
      ∃ next, Q ⟨operation, past, .call x.call next⟩ (after p moves).world := by
  obtain ⟨next, hi⟩ := rest_of_makes makes
  rcases noStart_or_last moves with hno | ⟨ms, operation', later, rfl, hl⟩
  · rw [after_of_noStart hno] at hi
    cases hi
  have hp : ms ++ [.start operation'] <+: ms ++ .start operation' :: later := ⟨later, by simp⟩
  have rest := seq ms operation' hp
  obtain ⟨t, htasks, hop, -⟩ := under_way (S := fun _ => True) (Q := fun _ _ => True) rest hl
    (fun _ _ _ _ => trivial) trivial fun _ _ _ _ _ _ _ _ => trivial
  rw [htasks] at hi
  obtain ⟨-, rfl⟩ := last_of_call rest hi
  obtain rfl : operation = operation' := hop
  refine ⟨ms, hp, fun Q start step => ⟨next, ?_⟩⟩
  obtain ⟨t, htasks', -, hq⟩ := under_way (S := fun _ => True) (Q := Q) rest hl
    (fun _ _ _ _ => trivial) start fun past c next w _ hq x _ => step past c next w hq x
  rw [htasks', List.append_cancel_left_eq, List.singleton_inj] at htasks
  rwa [htasks] at hq

/-- What an operation ensures by itself it ensures where it is carried out. -/
theorem Carried.ensures (h : Carried p ms operation ms') {faults : Prop}
    {good : Outcome → World → Prop} {bad : OpError → World → Prop}
    (served : faults ∨ (after p ms').Served)
    (ensures : (operation.program p).Ensures faults good bad (after p ms).world) :
    ∃ t r, (after p ms').tasks = (after p ms).tasks ++ [t] ∧ t.operation = operation ∧
      t.rest = .done r ∧ Program.EndsIn faults good bad r (after p ms').world := by
  obtain ⟨before, ⟨later, rfl, nostart⟩, rest⟩ := h
  obtain ⟨t, htasks, hop, hends⟩ := under_way
    (Q := fun t w => t.rest.Ensures faults good bad w) before nostart
    (fun t ht x hx => served.imp_right fun hs => hs t ht x hx) ensures
    fun _ _ _ _ htidy hq x hx => hq htidy x hx
  have hdone : t.rest.isDone = true := rest t (by rw [htasks]; simp)
  have htidy := tidy p (ms ++ .start operation :: later)
  cases hr : t.rest with
  | call c next => rw [hr] at hdone; cases hdone
  | done r =>
    rw [hr] at hends
    exact ⟨t, r, htasks, hop, hr, hends htidy⟩

theorem Carried.prefix (h : Carried p ms operation ms') : ms <+: ms' := by
  obtain ⟨later, rfl, -⟩ := h.moves
  exact List.prefix_append _ _

/-- Once the system is at rest nothing happens until another operation starts. -/
theorem after_of_rest (rest : (after p ms).AtRest) (nostart : NoStart later) :
    after p (ms ++ later) = after p ms := by
  induction later using List.reverseRecOn with
  | nil => rw [List.append_nil]
  | append_singleton later m ih =>
    have ih := ih fun o ho => nostart o (List.mem_append_left _ ho)
    rw [← List.append_assoc, after_concat, ih]
    cases m with
    | start o => exact absurd (List.mem_append_right _ (List.mem_singleton_self _)) (nostart o)
    | turn i x =>
      rcases (after p ms).turn_cases i x with hturn | ⟨o, past, c, next, hi, -⟩
      · exact hturn
      · have hdone := rest _ (List.mem_of_getElem? hi)
        cases hdone

/-- While one operation is carried out, the system is at rest only before and after it. -/
theorem Carried.quiet (h : Carried p ms operation ms') {ms₁ : List Move} (hle : ms <+: ms₁)
    (hle' : ms₁ <+: ms') (rest : (after p ms₁).AtRest) :
    after p ms₁ = after p ms ∨ after p ms₁ = after p ms' := by
  obtain ⟨later, rfl, nostart⟩ := h.moves
  obtain ⟨middle, rfl⟩ := hle
  cases middle with
  | nil => exact .inl (by rw [List.append_nil])
  | cons m middle =>
    obtain ⟨tail, htail⟩ := hle'
    simp only [List.append_assoc, List.cons_append, List.append_cancel_left_eq,
      List.cons.injEq] at htail
    obtain ⟨rfl, rfl⟩ := htail
    have htail := after_of_rest rest fun o ho => nostart o (List.mem_append_right middle ho)
    rw [List.append_assoc, List.cons_append] at htail
    exact .inr htail.symm

/-- What holds before anything started and goes on to hold with every operation that is carried
out holds whenever the system is at rest. -/
theorem Sequential.induction {P : List Move → Prop} (seq : Sequential p moves)
    (idle : ∀ ms, NoStart ms → P ms)
    (step : ∀ ms operation ms', ms' <+: moves → Carried p ms operation ms' → P ms → P ms')
    (rest : (after p moves).AtRest) : P moves := by
  have until_now : ∀ n, ∀ ms, ms.length = n → ms <+: moves → (after p ms).AtRest → P ms := by
    intro n
    induction n using Nat.strongRecOn with
    | ind n ih =>
      intro ms hlen hp hrest
      rcases noStart_or_last ms with hno | ⟨ms₀, operation, later, rfl, hl⟩
      · exact idle ms hno
      · have hp₀ : ms₀ ++ [.start operation] <+: moves :=
          List.IsPrefix.trans ⟨later, by simp⟩ hp
        have hrest₀ := seq ms₀ operation hp₀
        have hlt : ms₀.length < n := by
          rw [← hlen, List.length_append, List.length_cons]
          omega
        refine step ms₀ operation _ hp ⟨hrest₀, ⟨later, rfl, hl⟩, hrest⟩ ?_
        exact ih _ hlt ms₀ rfl ((List.prefix_append _ _).trans hp) hrest₀
  exact until_now _ moves rfl (List.prefix_refl _) rest

theorem EachStart.of_prefix {P : List Move → Operation → Prop} (h : EachStart P moves)
    (hp : ms <+: moves) : EachStart P ms := fun ms' o h' => h ms' o (h'.trans hp)

theorem eachStart_nil (P : List Move → Operation → Prop) : EachStart P [] := by
  intro ms operation h
  have hlen := h.length_le
  simp at hlen

theorem atRest_nil (p : ControlPlane) : (after p []).AtRest := fun _ ht => nomatch ht

/-- A run goes on with one more operation. -/
theorem EachStart.carry {P : List Move → Operation → Prop} (h : EachStart P ms)
    (start : P ms operation) (nostart : NoStart later) :
    EachStart P (ms ++ .start operation :: later) := by
  intro ms' o hp
  rcases List.prefix_or_prefix_of_prefix hp (List.prefix_append ms _) with hle | hle
  · exact h ms' o hle
  rcases List.prefix_concat_iff.1 hle with heq | ⟨later', rfl⟩
  · exact h ms' o (heq ▸ List.prefix_refl _)
  obtain ⟨tail, htail⟩ := hp
  simp only [List.append_assoc, List.append_cancel_left_eq] at htail
  cases later' with
  | nil =>
    obtain ⟨heq, -⟩ := List.cons.inj htail
    obtain rfl := Move.start.inj heq
    rwa [List.append_nil]
  | cons m rest' =>
    obtain ⟨-, htail⟩ := List.cons.inj htail
    exact absurd (htail ▸ by simp) (nostart o)

/-- An operation that is carried out in some turns in which nothing fails. -/
def carryOut (task : Nat) (id : String) (operation : Operation) (count : Nat) : List Move :=
  .start operation :: List.replicate count (.turn task ⟨default, id, .ok true, none⟩)

/-- An operation whose last call fails. -/
def breakOff (task : Nat) (id : String) (operation : Operation) (count : Nat) (failure : OpError) :
    List Move :=
  carryOut task id operation count ++ [.turn task ⟨default, id, .ok true, some failure⟩]

theorem noStart_turns (task : Nat) (x : Circumstances) (count : Nat) :
    NoStart (List.replicate count (.turn task x)) :=
  fun _ ho => nomatch List.eq_of_mem_replicate ho

theorem noStart_failing (task : Nat) (x x' : Circumstances) (count : Nat) :
    NoStart (List.replicate count (.turn task x) ++ [.turn task x']) := by
  intro o ho
  rcases List.mem_append.1 ho with ho | ho
  · exact noStart_turns _ _ _ o ho
  · exact nomatch List.mem_singleton.1 ho

theorem EachStart.carryOut {P : List Move → Operation → Prop} (h : EachStart P ms)
    (start : P ms operation) (task : Nat) (id : String) (count : Nat) :
    EachStart P (ms ++ System.carryOut task id operation count) :=
  h.carry start (noStart_turns task _ count)

theorem EachStart.breakOff {P : List Move → Operation → Prop} (h : EachStart P ms)
    (start : P ms operation) (task : Nat) (id : String) (count : Nat) (failure : OpError) :
    EachStart P (ms ++ System.breakOff task id operation count failure) :=
  h.carry start (noStart_failing task _ _ count)

theorem Sequential.carryOut (h : Sequential p ms) (rest : (after p ms).AtRest) (task : Nat)
    (id : String) (operation : Operation) (count : Nat) :
    Sequential p (ms ++ System.carryOut task id operation count) :=
  EachStart.carryOut h rest task id count

/-- A single operation is sequential. -/
theorem sequential_carryOut (p : ControlPlane) (task : Nat) (id : String) (operation : Operation)
    (count : Nat) : Sequential p (System.carryOut task id operation count) :=
  (eachStart_nil _).carryOut (atRest_nil p) task id count

theorem carried_carryOut (before : (after p ms).AtRest) (task : Nat) (id : String)
    (operation : Operation) (count : Nat)
    (ended : (after p (ms ++ System.carryOut task id operation count)).AtRest) :
    Carried p ms operation (ms ++ System.carryOut task id operation count) :=
  ⟨before, ⟨_, rfl, noStart_turns task _ count⟩, ended⟩

theorem carried_breakOff (before : (after p ms).AtRest) (task : Nat) (id : String)
    (operation : Operation) (count : Nat) (failure : OpError)
    (ended : (after p (ms ++ System.breakOff task id operation count failure)).AtRest) :
    Carried p ms operation (ms ++ System.breakOff task id operation count failure) :=
  ⟨before, ⟨_, rfl, noStart_failing task _ _ count⟩, ended⟩

/-- The project is created. -/
def createdRun : List Move := carryOut 0 "7d1c52a0" (.create .system shopScope shopInput) 7

theorem sequential_createdRun : Sequential .default createdRun :=
  sequential_carryOut .default 0 "7d1c52a0" (.create .system shopScope shopInput) 7

end System

end FleetSync
