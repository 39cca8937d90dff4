import FleetSync.Proofs.Interleaving.System

/-!
# Laws for the calls of a program

A law says of every call whether it may be made after the calls before and their answers. A program
follows a law if it keeps to it whatever it is answered (`Program.Follows`); then it ends with what
the law and the answers left it. The rules below follow the ways programs are put together. What
holds of a call by itself and every answer to it need not be said of each place it is made in.
-/

namespace FleetSync.Program

variable {α β : Type}

/-- Whether a program that made some calls makes further ones as a law says, and ends in what
follows from all the answers. -/
def Follows (law : List Exchange → Call → Prop) (post : List Exchange → Except OpError α → Prop) :
    List Exchange → Program α → Prop
  | past, done r => post past r
  | past, call c next => law past c ∧ ∀ a, Follows law post (past ++ [⟨c, a⟩]) (next a)

namespace Follows

variable {law : List Exchange → Call → Prop} {past : List Exchange}
  {post post' : List Exchange → Except OpError α → Prop} {p : Program α}

theorem mono (h : Follows law post past p)
    (hpost : ∀ past' r, past <+: past' → post past' r → post' past' r) :
    Follows law post' past p := by
  induction p generalizing past with
  | done r => exact hpost past r (List.prefix_refl past) h
  | call c next ih =>
    exact ⟨h.1, fun a => ih a (h.2 a) fun past' r hp =>
      hpost past' r ((List.prefix_append past _).trans hp)⟩

/-- A program that follows a law follows a weaker one. What the law has calls be, all further calls
are. -/
theorem weaken {law' : List Exchange → Call → Prop} {Q : Call → Prop} (h : Follows law post past p)
    (hlaw : ∀ past c, law past c → law' past c) (hQ : ∀ past c, law past c → Q c) :
    Follows law' (fun past' r => (∀ x ∈ past', x ∈ past ∨ Q x.call) ∧ post past' r) past p := by
  induction p generalizing past with
  | done r => exact ⟨fun x hx => .inl hx, h⟩
  | call c next ih =>
    refine ⟨hlaw past c h.1, fun a => (ih a (h.2 a)).mono fun past' r _ hr => ?_⟩
    refine ⟨fun x hx => ?_, hr.2⟩
    rcases hr.1 x hx with hx | hx
    · rcases List.mem_append.1 hx with hx | hx
      · exact .inl hx
      · exact .inr (List.mem_singleton.1 hx ▸ hQ past c h.1)
    · exact .inr hx

/-- What was called before stays. -/
theorem grows (h : Follows law post past p) :
    Follows law (fun past' r => past <+: past' ∧ post past' r) past p :=
  h.mono fun _ _ hp hr => ⟨hp, hr⟩

theorem bind {post : List Exchange → Except OpError β → Prop} {q : Program β} {f : β → Program α}
    (hq : Follows law post past q)
    (ok : ∀ past' b, past <+: past' → post past' (.ok b) → Follows law post' past' (f b))
    (error : ∀ past' e, past <+: past' → post past' (.error e) → post' past' (.error e)) :
    Follows law post' past (q >>= f) := by
  induction q generalizing past with
  | done r =>
    cases r with
    | ok b => exact ok past b (List.prefix_refl past) hq
    | error e => exact error past e (List.prefix_refl past) hq
  | call c next ih =>
    refine ⟨hq.1, fun a => ih a (hq.2 a) (fun past' b hp => ?_) fun past' e hp => ?_⟩
    · exact ok past' b ((List.prefix_append past _).trans hp)
    · exact error past' e ((List.prefix_append past _).trans hp)

theorem map {post : List Exchange → Except OpError β → Prop} {q : Program β} {f : β → α}
    (hq : Follows law post past q)
    (ok : ∀ past' b, past <+: past' → post past' (.ok b) → post' past' (.ok (f b)))
    (error : ∀ past' e, past <+: past' → post past' (.error e) → post' past' (.error e)) :
    Follows law post' past (f <$> q) :=
  hq.bind ok error

theorem attempt (h : Follows law post past p) :
    Follows law (fun past' r => ∃ r', r = .ok r' ∧ post past' r') past p.attempt := by
  induction p generalizing past with
  | done r => exact ⟨r, rfl, h⟩
  | call c next ih => exact ⟨h.1, fun a => ih a (h.2 a)⟩

/-- A loop keeps what every turn of it keeps. -/
theorem total (keep : List Exchange → Prop) {count : β → Program Nat} {items : List β}
    (turn : ∀ b ∈ items, ∀ past, keep past → Follows law (fun past' _ => keep past') past (count b))
    (h : keep past) : Follows law (fun past' _ => keep past') past (Program.total count items) := by
  induction items generalizing past with
  | nil => exact h
  | cons b rest ih =>
    refine (turn b (List.mem_cons_self ..) past h).bind (fun past' n _ hk => ?_) fun _ _ _ hk => hk
    have hrest := ih (fun c hc => turn c (List.mem_cons_of_mem _ hc)) hk
    exact hrest.bind (fun _ _ _ hk => hk) fun _ _ _ hk => hk

theorem forEach (keep : List Exchange → Prop) {act : β → Program Unit} {items : List β}
    (turn : ∀ b ∈ items, ∀ past, keep past → Follows law (fun past' _ => keep past') past (act b))
    (h : keep past) :
    Follows law (fun past' _ => keep past') past (Program.forEach act items) := by
  induction items generalizing past with
  | nil => exact h
  | cons b rest ih =>
    refine (turn b (List.mem_cons_self ..) past h).bind (fun past' _ _ hk => ?_) fun _ _ _ hk => hk
    exact ih (fun c hc => turn c (List.mem_cons_of_mem _ hc)) hk

end Follows

end FleetSync.Program
