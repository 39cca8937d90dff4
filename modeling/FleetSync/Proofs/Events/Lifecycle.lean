import FleetSync.Proofs.Interleaving.Creation

/-!
# The order of events

The events of one identity are in order if they say again and again that a resource was added,
updated any number of times, and deleted (`EventKind.presence?`). Then additions and deletions
alternate, updates come between them, and a resource is there while there are more additions than
deletions (`EventKind.lifecycle_of_presence?`). A world announces some identities if the events of
each are in order and say that just these are there (`World.Announces`).
-/

namespace FleetSync

namespace EventKind

/-- Whether a resource is there after one more event, if that may come next. -/
def after? (there : Bool) : EventKind → Option Bool
  | added => if there then none else some true
  | updated => if there then some true else none
  | deleted => if there then some false else none

/-- Whether a resource is there by its events, if they are in order. -/
def presence? (kinds : List EventKind) : Option Bool := kinds.foldlM after? false

/-- Whether events are those of resources with the same identity, one after the other. -/
structure Lifecycle (kinds : List EventKind) : Prop where
  /-- Additions and deletions alternate, starting with an addition. -/
  alternates : ∀ n k, (kinds.filter (· ≠ updated))[n]? = some k →
    k = if n % 2 = 0 then added else deleted
  /-- Updates come only after an addition and before the deletion that belongs to it. -/
  updates : ∀ before, before ++ [updated] <+: kinds → before.count deleted < before.count added

/-- Whether an event may be of a resource that was there before or not, and is after it or not. -/
def Turns (was is : Prop) : EventKind → Prop
  | added => ¬ was ∧ is
  | updated => was ∧ is
  | deleted => was ∧ ¬ is

variable {kinds : List EventKind} {k : EventKind} {b : Bool}

theorem presence?_concat (kinds : List EventKind) (k : EventKind) :
    presence? (kinds ++ [k]) = (presence? kinds).bind fun b => after? b k := by
  rw [presence?, List.foldlM_append]
  simp [presence?]

theorem length_filter_ne_updated (kinds : List EventKind) :
    (kinds.filter (· ≠ updated)).length = kinds.count added + kinds.count deleted := by
  induction kinds with
  | nil => rfl
  | cons k rest ih => cases k <;> simp_all <;> omega

/-- An addition comes only while the resource is not there, and all else only while it is. -/
theorem eq_of_isSome_after? (h : (after? b k).isSome = true) : b = decide (k ≠ added) := by
  cases k <;> cases b <;> first | rfl | cases h

theorem eq_of_getElem?_singleton {α : Type} {a b : α} {n : Nat} (h : [a][n]? = some b) :
    n = 0 ∧ a = b := by
  rw [List.getElem?_singleton] at h
  split at h
  · exact ⟨‹_›, Option.some.inj h⟩
  · cases h

theorem Lifecycle.concat (h : Lifecycle kinds)
    (hcount : kinds.count added = kinds.count deleted + b.toNat) (hk : (after? b k).isSome = true) :
    Lifecycle (kinds ++ [k]) := by
  have hlength := length_filter_ne_updated kinds
  obtain rfl := eq_of_isSome_after? hk
  constructor
  · intro n k' hn
    rw [List.filter_append, List.getElem?_append] at hn
    split at hn
    · exact h.alternates n k' hn
    rename_i hge
    -- Past the events from before there is only the new one, if it is no update.
    cases k with
    | updated => cases hn
    | added =>
      obtain ⟨hn, rfl⟩ := eq_of_getElem?_singleton hn
      have hcount : kinds.count added = kinds.count deleted := hcount
      rw [if_pos (by omega)]
    | deleted =>
      obtain ⟨hn, rfl⟩ := eq_of_getElem?_singleton hn
      have hcount : kinds.count added = kinds.count deleted + 1 := hcount
      rw [if_neg (by omega)]
  · intro before hp
    rcases List.prefix_concat_iff.1 hp with heq | hp
    · obtain ⟨rfl, hlast⟩ := List.append_inj' heq rfl
      obtain rfl := List.singleton_inj.1 hlast
      have hcount : before.count added = before.count deleted + 1 := hcount
      omega
    · exact h.updates before hp

/-- Events that are in order. -/
theorem lifecycle_of_presence? (h : presence? kinds = some b) :
    Lifecycle kinds ∧ kinds.count added = kinds.count deleted + b.toNat := by
  induction kinds using List.reverseRecOn generalizing b with
  | nil =>
    obtain rfl := Option.some.inj h
    have none : Lifecycle [] := by
      constructor
      · exact fun n k hn => nomatch hn
      · exact fun before hp => absurd (List.prefix_nil.1 hp) (by simp)
    exact ⟨none, rfl⟩
  | append_singleton kinds k ih =>
    rw [presence?_concat, Option.bind_eq_some_iff] at h
    obtain ⟨b', hb', hk⟩ := h
    obtain ⟨cycle, hcount⟩ := ih hb'
    refine ⟨cycle.concat hcount (by rw [hk]; rfl), ?_⟩
    cases k <;> cases b' <;> simp_all [after?]

end EventKind

/-- The identity of the resource that an event is about. -/
def Event.identity (e : Event) : Identity :=
  ⟨e.resourceKind, e.accountName, e.projectName, e.environmentName, e.name⟩

@[simp] theorem Event.identity_of (kind : EventKind) (r : Resource) :
    (Event.of kind r).identity = r.card.key.identity := rfl

namespace World

/-- What happened to the resources of an identity, in order. -/
def history (w : World) (i : Identity) : List EventKind :=
  (w.events.filter (·.identity = i)).map (·.kind)

/-- Whether a resource with an identity is stored. -/
def Holds (w : World) (i : Identity) : Prop := i.Taken w.documents.documents

/-- Whether the events of all identities are in order, and say which are there. -/
def Announces (w : World) (there : Identity → Prop) : Prop :=
  ∀ i, ∃ b, EventKind.presence? (w.history i) = some b ∧ (b = true ↔ there i)

/-- Whether the events say which resources are stored. -/
def Mirrors (w : World) : Prop := w.Announces w.Holds

/-- Whether an event may come next. -/
def Awaits (w : World) (e : Event) : Prop :=
  (EventKind.presence? (w.history e.identity ++ [e.kind])).isSome = true

variable {w w' : World} {there there' : Identity → Prop}

theorem Announces.congr (h : w.Announces there) (hevents : w'.events = w.events)
    (hthere : ∀ i, there' i ↔ there i) : w'.Announces there' := by
  intro i
  obtain ⟨b, hb, hi⟩ := h i
  exact ⟨b, by rw [history, hevents]; exact hb, hi.trans (hthere i).symm⟩

theorem history_concat {e : Event} (hevents : w'.events = w.events ++ [e]) (i : Identity) :
    w'.history i = if e.identity = i then w.history i ++ [e.kind] else w.history i := by
  rw [history, hevents, List.filter_append, List.map_append]
  split
  · rename_i h
    rw [List.filter_cons_of_pos (by simpa using h)]
    rfl
  · rename_i h
    rw [List.filter_cons_of_neg (by simpa using h)]
    exact List.append_nil _

/-- An event of a resource whose being there turns with it comes when it is awaited, and then it is
announced. -/
theorem Announces.emit (h : w.Announces there) {e : Event}
    (turns : e.kind.Turns (there e.identity) (there' e.identity))
    (others : ∀ i, i ≠ e.identity → (there' i ↔ there i))
    (hevents : w'.events = w.events ++ [e]) : w.Awaits e ∧ w'.Announces there' := by
  have next : ∃ b, EventKind.presence? (w.history e.identity ++ [e.kind]) = some b ∧
      (b = true ↔ there' e.identity) := by
    obtain ⟨b, hb, hthere⟩ := h e.identity
    rw [EventKind.presence?_concat, hb, Option.bind_some]
    generalize e.kind = k at turns
    cases k <;> cases b <;> simp_all [EventKind.Turns, EventKind.after?]
  obtain ⟨b, hb, hthere⟩ := next
  refine ⟨by rw [Awaits, hb]; rfl, fun i => ?_⟩
  rw [history_concat hevents]
  split
  · rename_i hi
    exact ⟨b, hi ▸ hb, hi ▸ hthere⟩
  · rename_i hi
    obtain ⟨b, hb, hthere⟩ := h i
    exact ⟨b, hb, hthere.trans (others i (Ne.symm hi)).symm⟩

end World

end FleetSync
