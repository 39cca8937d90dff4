import FleetSync.Proofs.Sequence.Run

/-!
# What programs uphold

A program upholds a law if every call that it makes is lawful in the world that it is made in, and
something holds at its end (`Program.Upholds`), so long as its calls meet only with answers that
count as served. Unlike what it ensures (`Program.Ensures`) this says something of every moment on
the way, so whoever upholds the law by itself keeps to it in a sequential run, at every call
(`System.Sequential.upheld`) and at its end (`System.Carried.upheld`).
-/

namespace FleetSync

namespace Program

variable {α β : Type}

/-- Whether a program that goes on in a world makes lawful calls only and has a property at its end,
whatever its calls meet with that counts as served. -/
def Upholds (served : Exchange → Prop) (law : World → Call → Prop)
    (post : Except OpError α → World → Prop) : Program α → World → Prop
  | done r, w => w.documents.Tidy → post r w
  | call c next, w => w.documents.Tidy → law w c ∧ ∀ x : Circumstances,
    served ⟨c, (w.reply x c).1⟩ →
      Upholds served law post (next (w.reply x c).1) (w.reply x c).2

namespace Upholds

variable {served : Exchange → Prop} {law : World → Call → Prop}
  {post post' : Except OpError α → World → Prop} {p : Program α} {w : World}

/-- The store is tidy at every moment. -/
theorem tidy (h : w.documents.Tidy → Upholds served law post p w) :
    Upholds served law post p w := by
  cases p with
  | done r => exact fun ht => h ht ht
  | call c next => exact fun ht => h ht ht

theorem done {a : α} (h : post (.ok a) w) : Upholds served law post (pure a) w := fun _ => h

theorem fail {e : OpError} (h : post (.error e) w) : Upholds served law post (fail e) w :=
  fun _ => h

/-- A result that is known before. -/
theorem known {r : Except OpError α} (h : post r w) : Upholds served law post (ofExcept r) w :=
  fun _ => h

theorem mono (h : Upholds served law post p w) (hpost : ∀ r w, post r w → post' r w) :
    Upholds served law post' p w := by
  induction p generalizing w with
  | done r => exact fun ht => hpost r w (h ht)
  | call c next ih => exact fun ht => ⟨(h ht).1, fun x hx => ih _ ((h ht).2 x hx)⟩

theorem bind {mid : Except OpError β → World → Prop} {q : Program β} {f : β → Program α}
    (hq : Upholds served law mid q w)
    (ok : ∀ b w', mid (.ok b) w' → Upholds served law post (f b) w')
    (error : ∀ e w', mid (.error e) w' → post (.error e) w') :
    Upholds served law post (q >>= f) w := by
  induction q generalizing w with
  | done r =>
    cases r with
    | ok b => exact tidy fun ht => ok b w (hq ht)
    | error e => exact fun ht => error e w (hq ht)
  | call c next ih => exact fun ht => ⟨(hq ht).1, fun x hx => ih _ ((hq ht).2 x hx)⟩

/-- A program whose result is handed on as another one. -/
theorem map {q : Program β} {f : β → α} {mid : World → Prop}
    (hq : Upholds served law (fun _ => mid) q w) : Upholds served law (fun _ => mid) (f <$> q) w :=
  hq.bind (fun _ _ h => done h) fun _ _ h => h

/-- An error is no end if it is handed on as a result. -/
theorem attempt {post : Except OpError (Except OpError α) → World → Prop}
    (h : Upholds served law (fun r => post (.ok r)) p w) :
    Upholds served law post p.attempt w := by
  induction p generalizing w with
  | done r => exact fun ht => h ht
  | call c next ih => exact fun ht => ⟨(h ht).1, fun x hx => ih _ ((h ht).2 x hx)⟩

/-- What is said of the items to come holds until there are none, or one of them failed. -/
theorem total (bad : World → Prop) (inv : List β → World → Prop) {count : β → Program Nat}
    {items : List β}
    (turn : ∀ b rest w, inv (b :: rest) w →
      Upholds served law (fun r w' => if r.isOk then inv rest w' else bad w') (count b) w)
    (h : inv items w) :
    Upholds served law (fun r w' => if r.isOk then inv [] w' else bad w')
      (Program.total count items) w := by
  induction items generalizing w with
  | nil => exact done h
  | cons b rest ih =>
    refine (turn b rest w h).bind (fun n w' h => ?_) fun _ _ h => h
    exact (ih h).bind (fun _ _ h => done h) fun _ _ h => h

theorem forEach (bad : World → Prop) (inv : List β → World → Prop) {act : β → Program Unit}
    {items : List β}
    (turn : ∀ b rest w, inv (b :: rest) w →
      Upholds served law (fun r w' => if r.isOk then inv rest w' else bad w') (act b) w)
    (h : inv items w) :
    Upholds served law (fun r w' => if r.isOk then inv [] w' else bad w')
      (Program.forEach act items) w := by
  induction items generalizing w with
  | nil => exact done h
  | cons b rest ih => exact (turn b rest w h).bind (fun _ w' h => ih h) fun _ _ h => h

/-- A single call, by what it is answered. -/
theorem single {c : Call} {k : c.Answer → Except OpError α} (lawful : law w c)
    (h : w.documents.Tidy → ∀ x : Circumstances, served ⟨c, (w.reply x c).1⟩ →
      post (k (w.reply x c).1) (w.reply x c).2) :
    Upholds served law post (call c fun a => Program.done (k a)) w :=
  fun ht => ⟨lawful, fun x hx _ => h ht x hx⟩

end Upholds

/-- What a program ensures if its calls are served it has at its end. -/
theorem Ensures.upholds {good : α → World → Prop} {bad : OpError → World → Prop} {p : Program α}
    {w : World} (h : Ensures False good bad p w) :
    Upholds (·.isServed = true) (fun _ _ => True) (EndsIn False good bad) p w := by
  induction p generalizing w with
  | done r => exact h
  | call c next ih => exact fun ht => ⟨trivial, fun x hx => ih _ (h ht x (.inr hx))⟩

end Program

namespace System

variable {p : ControlPlane} {ms ms' moves : List Move} {m : Move} {operation : Operation}
  {S : Exchange → Prop} {law : World → Call → Prop} {post : Except OpError Outcome → World → Prop}

/-- What an operation that upholds a law has at its end it has where it is carried out. -/
theorem Carried.upheld (h : Carried p ms operation ms') (met : (after p ms').Meets S)
    (upholds : (operation.program p).Upholds S law post (after p ms).world) :
    ∃ t r, (after p ms').tasks = (after p ms).tasks ++ [t] ∧ t.operation = operation ∧
      t.rest = .done r ∧ post r (after p ms').world := by
  obtain ⟨before, ⟨later, rfl, nostart⟩, rest⟩ := h
  obtain ⟨t, htasks, hop, hends⟩ := under_way (Q := fun t w => t.rest.Upholds S law post w)
    before nostart met upholds fun _ _ _ _ htidy hq x hx => (hq htidy).2 x hx
  have hdone : t.rest.isDone = true := rest t (by rw [htasks]; simp)
  have htidy := tidy p (ms ++ .start operation :: later)
  cases hr : t.rest with
  | call c next => rw [hr] at hdone; cases hdone
  | done r =>
    rw [hr] at hends
    exact ⟨t, r, htasks, hop, hr, hends htidy⟩

/-- In a sequential run a move leaves the world as it is, or it is a call of the operation that was
started when the system was last at rest. If that operation upholds a law, the call is lawful. -/
theorem Sequential.turns (seq : Sequential p (moves ++ [m]))
    (met : (after p (moves ++ [m])).Meets S) :
    (after p (moves ++ [m])).world = (after p moves).world ∨
      ∃ ms operation c x, ms ++ [.start operation] <+: moves ∧ (after p ms).AtRest ∧
        (∀ ms', ms' <+: moves → (after p ms').AtRest → ms' <+: ms) ∧
        S ⟨c, ((after p moves).world.reply x c).1⟩ ∧
        (after p (moves ++ [m])).world = ((after p moves).world.reply x c).2 ∧
        ∀ {law : World → Call → Prop} {post : Except OpError Outcome → World → Prop},
          (operation.program p).Upholds S law post (after p ms).world →
          law (after p moves).world c := by
  have hm := after_concat (p := p) moves m
  cases m with
  | start o =>
    left
    rw [hm]
    rfl
  | turn i x =>
    have hm : after p (moves ++ [.turn i x]) = (after p moves).turn i x := hm
    rcases (after p moves).turn_cases i x with hturn | ⟨operation, past, c, next, hi, hturn⟩
    · exact .inl (by rw [hm, hturn])
    right
    rcases noStart_or_last moves with hno | ⟨ms, operation', later, rfl, hl⟩
    · rw [after_of_noStart hno] at hi
      cases hi
    have hp : ms ++ [.start operation'] <+: ms ++ .start operation' :: later := ⟨later, by simp⟩
    have rest := seq ms operation' (hp.trans (List.prefix_append _ _))
    have met' : (after p (ms ++ .start operation' :: later)).Meets S :=
      met.of_prefix (List.prefix_append _ _)
    obtain ⟨t, htasks, hop, -⟩ := under_way (Q := fun _ _ => True) rest hl met' trivial
      fun _ _ _ _ _ _ _ _ => trivial
    have hlast := hi
    rw [htasks] at hlast
    obtain ⟨-, rfl⟩ := last_of_call rest hlast
    obtain rfl : operation = operation' := hop
    refine ⟨ms, operation, c, x, hp, rest, fun ms' hp' rest' => ?_, ?_, by rw [hm, hturn], ?_⟩
    · -- After a later moment at rest nothing would have been called.
      have pending : ∀ tail, ms' ++ tail = ms ++ .start operation :: later → ¬ NoStart tail := by
        intro tail htail hno
        rw [← htail, after_of_rest rest' hno] at hi
        have hdone := rest' _ (List.mem_of_getElem? hi)
        cases hdone
      obtain ⟨tail, htail⟩ := hp'
      rcases List.append_eq_append_iff.1 htail with ⟨later', rfl, -⟩ | ⟨later', rfl, hlater⟩
      · exact List.prefix_append _ _
      · cases later' with
        | nil => exact ⟨[], by simp⟩
        | cons m' later' =>
          obtain ⟨-, rfl⟩ := List.cons.inj hlater
          exact absurd (fun o ho => hl o (List.mem_append_right _ ho)) (pending tail htail)
    · have hx := met
      rw [hm, hturn] at hx
      have hlt := (List.getElem?_eq_some_iff.1 hi).1
      exact hx _ (List.mem_of_getElem? (List.getElem?_set_self hlt)) _ List.mem_concat_self
    · intro law post upholds
      obtain ⟨t, htasks', -, hq⟩ := under_way (Q := fun t w => t.rest.Upholds S law post w)
        rest hl met' upholds fun _ _ _ _ htidy hq x hx => (hq htidy).2 x hx
      rw [htasks, List.append_cancel_left_eq, List.singleton_inj] at htasks'
      rw [← htasks'] at hq
      exact (hq (tidy p _)).1

/-- What holds at a moment at rest, and goes on to hold with every lawful call of the operations
that start from then on, holds ever after if these uphold their law. -/
theorem Sequential.since {law : Operation → World → Call → Prop}
    {post : Operation → Except OpError Outcome → World → Prop} {I : World → Prop}
    (seq : Sequential p moves) (met : (after p moves).Meets S) (hp : ms <+: moves)
    (rest : (after p ms).AtRest) (start : I (after p ms).world)
    (upholds : ∀ ms' operation, ms <+: ms' → ms' ++ [.start operation] <+: moves →
      (operation.program p).Upholds S (law operation) (post operation) (after p ms').world)
    (step : ∀ ms' operation, ms <+: ms' → ms' ++ [.start operation] <+: moves → ∀ w c x,
      w.documents.Tidy → I w → law operation w c → S ⟨c, (w.reply x c).1⟩ → I (w.reply x c).2) :
    I (after p moves).world := by
  obtain ⟨later, rfl⟩ := hp
  induction later using List.reverseRecOn with
  | nil => rwa [List.append_nil]
  | append_singleton later m ih =>
    rw [← List.append_assoc] at seq met upholds step ⊢
    have hp : ms ++ later <+: ms ++ later ++ [m] := List.prefix_append _ _
    have ih := ih (seq.of_prefix hp) (met.of_prefix hp)
      (fun ms' o hle h => upholds ms' o hle (h.trans hp))
      fun ms' o hle h => step ms' o hle (h.trans hp)
    rcases seq.turns met with hw | ⟨ms', operation, c, x, hp', -, last, served, hw, lawful⟩
    · rwa [hw]
    · have hle := last ms (List.prefix_append _ _) rest
      rw [hw]
      exact step ms' operation hle (hp'.trans hp) _ c x (tidy p _) ih
        (lawful (upholds ms' operation hle (hp'.trans hp))) served

end System

end FleetSync
