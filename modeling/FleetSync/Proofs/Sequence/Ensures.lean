import FleetSync.Proofs.Sequence.Tidy

/-!
# What programs ensure

A program that runs without others between its calls ensures something if that holds at its end
whatever its calls meet with (`Program.Ensures`). The store is known to be tidy at every moment.
Calls to the store and to the index may be taken not to fail, that is to be served
(`Exchange.isServed`), and then something may be said of the ends in an error as well; or they may
fail, and then nothing is said of these. The rules follow the ways programs are put together. A loop
keeps what is said of the items that are still to come (`Program.Ensures.total`).
-/

namespace FleetSync

namespace Exchange

/-- Whether a value reads as a resource of its collection. -/
def isLegible (collection : String) (j : Json) : Bool :=
  Kind.all.all fun k => k.collection != collection || (Resource.ofDocument k j).isOk

/-- Whether the store and the index did what was asked of them: they did not fail, and what was
found can be read. That a resource exists already is no failure. -/
def isServed : Exchange → Bool
  | ⟨.authorize .., _⟩ | ⟨.publish .., _⟩ => true
  | ⟨.insert _, .error e⟩ => match e with
    | .alreadyExists .. => true
    | _ => false
  | ⟨.findOne collection _, r⟩ => match r with
    | .ok none => true
    | .ok (some j) => isLegible collection j
    | .error _ => false
  | ⟨.find collection _, r⟩ => match r with
    | .ok js => js.all (isLegible collection)
    | .error _ => false
  | ⟨.patchOne .., r⟩ | ⟨.deleteOne .., r⟩ => r.isOk
  | ⟨.deleteMany .., r⟩ | ⟨.removeMapping _, r⟩ | ⟨.removeScope _, r⟩ | ⟨.reassignScope .., r⟩ =>
    r.isOk
  | ⟨.upsert _, r⟩ => r.isOk
  | ⟨.resolve _, r⟩ => r.isOk
  | _ => true

theorem isOk_of_isLegible {kind : Kind} {j : Json} (h : isLegible kind.collection j = true) :
    ∃ r, Resource.ofDocument kind j = .ok r := by
  have hk := List.all_eq_true.1 h kind kind.mem_all
  cases hr : Resource.ofDocument kind j with
  | ok r => exact ⟨r, rfl⟩
  | error e => simp [hr, Except.isOk, Except.toBool] at hk

end Exchange

namespace Program

variable {α β : Type}

/-- Whether an end is good, or it is an error that is bad. Where the store and the index may fail,
an error may be anything. -/
def EndsIn (faults : Prop) (good : α → World → Prop) (bad : OpError → World → Prop)
    (r : Except OpError α) (w : World) : Prop :=
  match r with
  | .ok a => good a w
  | .error e => faults ∨ bad e w

/-- Whether a program that goes on in a world ends well, or ends badly in an error, whatever its
calls meet with. -/
def Ensures (faults : Prop) (good : α → World → Prop) (bad : OpError → World → Prop) :
    Program α → World → Prop
  | done r, w => w.documents.Tidy → EndsIn faults good bad r w
  | call c next, w => w.documents.Tidy → ∀ x : Circumstances,
    (faults ∨ Exchange.isServed ⟨c, (w.reply x c).1⟩ = true) →
    Ensures faults good bad (next (w.reply x c).1) (w.reply x c).2

namespace Ensures

variable {faults : Prop} {good good' : α → World → Prop} {bad bad' : OpError → World → Prop}
  {p : Program α} {w : World}

/-- The store is tidy at every moment. -/
theorem tidy (h : w.documents.Tidy → Ensures faults good bad p w) :
    Ensures faults good bad p w := by
  cases p with
  | done r => exact fun ht => h ht ht
  | call c next => exact fun ht => h ht ht

theorem done {a : α} (h : good a w) : Ensures faults good bad (pure a) w := fun _ => h

theorem fail {e : OpError} (h : faults ∨ bad e w) : Ensures faults good bad (fail e) w := fun _ => h

theorem mono (h : Ensures faults good bad p w) (hgood : ∀ a w, good a w → good' a w)
    (hbad : ∀ e w, bad e w → bad' e w) : Ensures faults good' bad' p w := by
  induction p generalizing w with
  | done r =>
    intro ht
    cases r with
    | ok a => exact hgood a w (h ht)
    | error e => exact (h ht).imp_right (hbad e w)
  | call c next ih => exact fun ht x hx => ih _ (h ht x hx)

theorem bind {mid : β → World → Prop} {q : Program β} {f : β → Program α}
    (hq : Ensures faults mid bad q w) (ok : ∀ b w', mid b w' → Ensures faults good bad (f b) w') :
    Ensures faults good bad (q >>= f) w := by
  induction q generalizing w with
  | done r =>
    cases r with
    | ok b => exact tidy fun ht => ok b w (hq ht)
    | error e => exact hq
  | call c next ih => exact fun ht x hx => ih _ (hq ht x hx)

theorem map {mid : β → World → Prop} {q : Program β} {f : β → α}
    (hq : Ensures faults mid bad q w) (ok : ∀ b w', mid b w' → good (f b) w') :
    Ensures faults good bad (f <$> q) w :=
  hq.bind fun b w' h => done (ok b w' h)

/-- A result that is known before. -/
theorem known {r : Except OpError α} (ok : ∀ a, r = .ok a → good a w)
    (error : ∀ e, r = .error e → faults ∨ bad e w) :
    Ensures faults good bad (ofExcept r) w := by
  intro _
  cases r with
  | ok a => exact ok a rfl
  | error e => exact error e rfl

/-- An error is no end if it is handed on as a result. -/
theorem attempt {good : Except OpError α → World → Prop} {bad : OpError → World → Prop}
    (faultless : ¬ faults)
    (h : Ensures faults (fun a => good (.ok a)) (fun e => good (.error e)) p w) :
    Ensures faults good bad p.attempt w := by
  induction p generalizing w with
  | done r =>
    intro ht
    cases r with
    | ok a => exact h ht
    | error e => exact (h ht).resolve_left faultless
  | call c next ih => exact fun ht x hx => ih _ (h ht x hx)

/-- What is said of the items to come holds until there are none. -/
theorem total (inv : List β → World → Prop) {count : β → Program Nat} {items : List β}
    (turn : ∀ b rest w, inv (b :: rest) w → Ensures faults (fun _ => inv rest) bad (count b) w)
    (h : inv items w) : Ensures faults (fun _ => inv []) bad (Program.total count items) w := by
  induction items generalizing w with
  | nil => exact done h
  | cons b rest ih =>
    refine (turn b rest w h).bind fun n w' h => ?_
    exact (ih h).bind fun _ _ h => done h

theorem forEach (inv : List β → World → Prop) {act : β → Program Unit} {items : List β}
    (turn : ∀ b rest w, inv (b :: rest) w → Ensures faults (fun _ => inv rest) bad (act b) w)
    (h : inv items w) : Ensures faults (fun _ => inv []) bad (Program.forEach act items) w := by
  induction items generalizing w with
  | nil => exact done h
  | cons b rest ih => exact (turn b rest w h).bind fun _ w' h => ih h

/-- A single call, by what it is answered. -/
theorem single {c : Call} {k : c.Answer → Except OpError α}
    (h : w.documents.Tidy → ∀ x : Circumstances,
      (faults ∨ Exchange.isServed ⟨c, (w.reply x c).1⟩ = true) →
      EndsIn faults good bad (k (w.reply x c).1) (w.reply x c).2) :
    Ensures faults good bad (call c fun a => Program.done (k a)) w :=
  fun ht x hx _ => h ht x hx

end Ensures

end Program

end FleetSync
