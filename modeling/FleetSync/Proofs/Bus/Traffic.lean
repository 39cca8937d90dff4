import FleetSync.Proofs.Bus.Queue
import Mathlib.Data.List.Induction

/-!
# Traffic on the durable bus

Any number of subscriptions share the table of the durable bus: some publish, others are handed
messages, acknowledge them or give them back, and old messages are purged, in any order and by any
clock (`Traffic.step`). Whatever was done, the table holds what was published and never
acknowledged, and of each message it knows how often it was handed out and when it was acknowledged
last (`Traffic.Kept`). From this it follows that no message is lost, none overtakes another of its
topic, and none comes back (`Traffic.faithful`). What is purged is said in exact arithmetic, however
large the age, since no time is before 1970 (`DurableBus.isExpired_iff`).
-/

namespace FleetSync

/-- What is done with the durable bus. Subscriptions go by their number, and what is settled by its
place among all deliveries. -/
inductive BusCall where
  | publish (topic key : String) (payload : ByteArray)
  | subscribe (topic : String)
  | next (subscription : Nat)
  | ack (subscription delivery : Nat)
  | nack (subscription delivery : Nat)
  | drop (subscription : Nat)
  /-- Purges what was acknowledged more than some nanoseconds ago. -/
  | purge (age : Nat)
deriving DecidableEq, Inhabited

/-- The bus, and what was done with it so far. -/
structure Traffic where
  bus : DurableBus
  /-- The topics of all subscriptions, none for those that were dropped. -/
  subscriptions : List (Option String)
  published : List Publication
  handed : List Delivery
  /-- The offsets that were acknowledged, and when. -/
  acked : List (Nat × Int)

namespace DurableBus

/-- Whether a number is a time of the clock. -/
def IsTime (t : Int) : Prop := 0 ≤ t ∧ t ≤ maxWord

instance (t : Int) : Decidable (IsTime t) := inferInstanceAs (Decidable (_ ∧ _))

theorem saturate_of_isWord {i : Int} (h : -maxWord - 1 ≤ i) (h' : i ≤ maxWord) :
    saturate i = i := by
  rw [saturate, Int.min_eq_left h', Int.max_eq_right h]

/-- A message is expired if it was acknowledged more than some nanoseconds ago. That ages are capped
changes nothing: one that is no word is longer than all that has passed since 1970. -/
theorem isExpired_iff {m : StoredMessage} {now t : Int} (hnow : IsTime now) (ht : IsTime t)
    (acked : m.ackedAt = some t) (age : Nat) :
    isExpired now (age / 1000000) m = true ↔ (age : Int) < (now - t) * 1000000 := by
  obtain ⟨hnow, hnow'⟩ := hnow
  obtain ⟨ht, -⟩ := ht
  rw [isExpired, acked, Option.any_some, decide_eq_true_iff, cutoff]
  rcases Int.lt_or_le maxWord (age / 1000000 : Nat) with h | h
  · rw [Int.min_eq_right (Int.le_of_lt h), saturate_of_isWord (by omega) (by omega)]
    omega
  · rw [Int.min_eq_left h, saturate_of_isWord (by omega) (by omega)]
    omega

end DurableBus

namespace Traffic

/-- Before anything is done. -/
def start (backoff : Nat) : Traffic := ⟨.empty backoff, [], [], [], []⟩

/-- The topic of a subscription that is still there. -/
def topic? (x : Traffic) (subscription : Nat) : Option String := x.subscriptions[subscription]?.join

/-- What a subscription is handed at some time, if anything is due. -/
def next? (x : Traffic) (now : Int) (subscription : Nat) : Option (Delivery × DurableBus) :=
  (x.topic? subscription).bind (x.bus.next? now)

/-- The delivery that a subscription may settle. -/
def delivery? (x : Traffic) (subscription delivery : Nat) : Option Delivery :=
  (x.topic? subscription).bind fun _ => x.handed[delivery]?

/-- The bus after a call at some time. What cannot be called leaves all as it is. -/
def step (x : Traffic) : Int × BusCall → Traffic
  | (now, .publish topic key payload) =>
    let (offset, bus) := x.bus.publish now topic key payload
    { x with bus, published := x.published ++ [⟨offset, topic, key, payload⟩] }
  | (_, .subscribe topic) => { x with subscriptions := x.subscriptions ++ [some topic] }
  | (now, .next s) => match x.next? now s with
    | some (d, bus) => { x with bus, handed := x.handed ++ [d] }
    | none => x
  | (now, .ack s n) => match x.delivery? s n with
    | some d => { x with bus := x.bus.ack now d, acked := x.acked ++ [(d.offset, now)] }
    | none => x
  | (now, .nack s n) => match x.delivery? s n with
    | some d => { x with bus := x.bus.nack now d }
    | none => x
  | (_, .drop s) => { x with subscriptions := x.subscriptions.set s none }
  | (now, .purge age) => { x with bus := (x.bus.purgeNanos now age).2 }

/-- The bus after some calls, each at a time of its own. -/
def after (backoff : Nat) (calls : List (Int × BusCall)) : Traffic :=
  calls.foldl step (start backoff)

/-- How often the message of an offset was handed out. -/
def attempts (handed : List Delivery) (offset : Nat) : Nat := handed.countP (·.offset == offset)

/-- When the message of an offset was acknowledged last. -/
def ackedAt? (acked : List (Nat × Int)) (offset : Nat) : Option Int :=
  ((acked.filter (·.1 == offset)).getLast?).map (·.2)

/-- Whether the message of an offset was ever acknowledged. -/
def Acked (x : Traffic) (offset : Nat) : Prop := offset ∈ x.acked.map (·.1)

/-- Whether the message of an offset was acknowledged more than some nanoseconds before a time. -/
def Outlived (x : Traffic) (now : Int) (age offset : Nat) : Prop :=
  ∃ t, ackedAt? x.acked offset = some t ∧ (age : Int) < (now - t) * 1000000

/-- What holds of the bus whatever was done with it. -/
structure Faithful (x : Traffic) : Prop where
  /-- Offsets go up, so none is given twice. -/
  offsets : (x.published.map (·.offset)).Pairwise (· < ·)
  /-- What is handed out comes as it was published on the topic of the subscription. -/
  genuine : ∀ now s d bus, x.next? now s = some (d, bus) →
    x.topic? s = some d.topic ∧ d.publication ∈ x.published
  /-- It was not acknowledged, while all that was published on the topic before it was. -/
  first : ∀ now s d bus, x.next? now s = some (d, bus) → ¬ x.Acked d.offset ∧
    ∀ q ∈ x.published, q.topic = d.topic → q.offset < d.offset → x.Acked q.offset
  /-- It says how often it was handed out. -/
  attempt : ∀ now s d bus, x.next? now s = some (d, bus) →
    attempts x.handed d.offset + 1 < Nat.pow 2 32 → d.attempt = attempts x.handed d.offset + 1
  /-- What was not acknowledged is in the table. -/
  kept : ∀ q ∈ x.published, ¬ x.Acked q.offset → ∃ m ∈ x.bus.messages, m.publication = q
  /-- A purge deletes just what was acknowledged more than its age ago. -/
  purged : ∀ now age, DurableBus.IsTime now → ∀ m, m ∈ (x.bus.purgeNanos now age).2.messages ↔
    m ∈ x.bus.messages ∧ ¬ x.Outlived now age m.offset
  /-- It tells how many messages it deleted. -/
  counted : ∀ now age, (x.bus.purgeNanos now age).1 + (x.bus.purgeNanos now age).2.messages.length =
    x.bus.messages.length

variable {x : Traffic} {now : Int} {s offset : Nat} {d : Delivery} {bus : DurableBus}

/-- What is handed out is the first message that waits in the topic, and it counts one attempt
more. -/
theorem next?_eq_some (h : x.next? now s = some (d, bus)) : ∃ topic m, x.topic? s = some topic ∧
    x.bus.head? topic = some m ∧ d = m.delivery ∧
    bus = x.bus.modify m.offset fun m => { m with attempts := m.attempts + 1 } := by
  obtain ⟨topic, htopic, h⟩ := Option.bind_eq_some_iff.1 h
  rw [DurableBus.next?] at h
  split at h
  · rename_i m hm
    split at h
    · obtain ⟨rfl, rfl⟩ := Prod.mk.inj (Option.some.inj h)
      exact ⟨topic, m, htopic, hm, rfl, rfl⟩
    · cases h
  · cases h

theorem mem_handed_of_delivery? {n : Nat} (h : x.delivery? s n = some d) : d ∈ x.handed := by
  obtain ⟨-, -, h⟩ := Option.bind_eq_some_iff.1 h
  exact List.mem_of_getElem? h

theorem attempts_concat (handed : List Delivery) (d : Delivery) (offset : Nat) :
    attempts (handed ++ [d]) offset =
      if offset = d.offset then attempts handed offset + 1 else attempts handed offset := by
  rw [attempts, attempts, List.countP_append, List.countP_singleton]
  by_cases h : offset = d.offset
  · rw [if_pos h, if_pos (beq_iff_eq.2 h.symm)]
  · rw [if_neg h, if_neg fun he => h (beq_iff_eq.1 he).symm, Nat.add_zero]

theorem ackedAt?_concat (acked : List (Nat × Int)) (o : Nat) (t : Int) (offset : Nat) :
    ackedAt? (acked ++ [(o, t)]) offset =
      if offset = o then some t else ackedAt? acked offset := by
  rw [ackedAt?, ackedAt?, List.filter_append]
  by_cases h : offset = o
  · simp [h]
  · simp [h, Ne.symm h]

theorem ackedAt?_eq_none_iff : ackedAt? x.acked offset = none ↔ ¬ x.Acked offset := by
  rw [ackedAt?, Option.map_eq_none_iff, List.getLast?_eq_none_iff, List.filter_eq_nil_iff, Acked,
    List.mem_map]
  exact ⟨fun h ⟨a, ha, heq⟩ => h a ha (beq_iff_eq.2 heq),
    fun h a ha heq => h ⟨a, ha, beq_iff_eq.1 heq⟩⟩

/-! ## What the table knows -/

/-- What the table of messages says of what was done so far. -/
structure Kept (x : Traffic) : Prop where
  ordered : x.bus.Ordered
  increasing : (x.published.map (·.offset)).Pairwise (· < ·)
  given : ∀ q ∈ x.published, q.offset ≤ x.bus.lastOffset
  genuine : ∀ m ∈ x.bus.messages, m.publication ∈ x.published
  handed : ∀ d ∈ x.handed, d.publication ∈ x.published
  acked : ∀ a ∈ x.acked, a.1 ≤ x.bus.lastOffset
  tries : ∀ m ∈ x.bus.messages, m.attempts = attempts x.handed m.offset
  acks : ∀ m ∈ x.bus.messages, m.ackedAt = ackedAt? x.acked m.offset
  present : ∀ q ∈ x.published, ¬ x.Acked q.offset → ∃ m ∈ x.bus.messages, m.publication = q

theorem kept_start (backoff : Nat) : (start backoff).Kept where
  ordered := DurableBus.ordered_empty backoff
  increasing := List.Pairwise.nil
  given _ h := nomatch h
  genuine _ h := nomatch h
  handed _ h := nomatch h
  acked _ h := nomatch h
  tries _ h := nomatch h
  acks _ h := nomatch h
  present _ h := nomatch h

namespace Kept

/-- What was not published yet was not handed out. -/
theorem attempts_of_lt (h : x.Kept) (hlt : x.bus.lastOffset < offset) :
    attempts x.handed offset = 0 := by
  refine List.countP_eq_zero.2 fun d hd heq => ?_
  have hle : d.offset ≤ x.bus.lastOffset := h.given _ (h.handed d hd)
  exact absurd hlt (Nat.not_lt.2 (beq_iff_eq.1 heq ▸ hle))

/-- What was not published yet was not acknowledged. -/
theorem ackedAt?_of_lt (h : x.Kept) (hlt : x.bus.lastOffset < offset) :
    ackedAt? x.acked offset = none := by
  refine ackedAt?_eq_none_iff.2 fun hacked => ?_
  obtain ⟨a, ha, rfl⟩ := List.mem_map.1 hacked
  exact absurd hlt (Nat.not_lt.2 (h.acked a ha))

theorem publish (h : x.Kept) (now : Int) (topic key : String) (payload : ByteArray) :
    (x.step (now, .publish topic key payload)).Kept where
  ordered := h.ordered.publish now topic key payload
  increasing := by
    rw [step, List.map_append, List.map_singleton]
    refine List.pairwise_append.2 ⟨h.increasing, List.pairwise_singleton _ _, fun o ho o' ho' => ?_⟩
    obtain ⟨q, hq, rfl⟩ := List.mem_map.1 ho
    obtain rfl := List.mem_singleton.1 ho'
    exact Nat.lt_succ_of_le (h.given q hq)
  given q hq := by
    rcases List.mem_append.1 hq with hq | hq
    · exact Nat.le_succ_of_le (h.given q hq)
    · obtain rfl := List.mem_singleton.1 hq
      exact Nat.le_refl _
  genuine m hm := by
    rcases List.mem_append.1 hm with hm | hm
    · exact List.mem_append_left _ (h.genuine m hm)
    · obtain rfl := List.mem_singleton.1 hm
      exact List.mem_append_right _ (List.mem_singleton_self _)
  handed d hd := List.mem_append_left _ (h.handed d hd)
  acked a ha := Nat.le_succ_of_le (h.acked a ha)
  tries m hm := by
    rcases List.mem_append.1 hm with hm | hm
    · exact h.tries m hm
    · obtain rfl := List.mem_singleton.1 hm
      exact (h.attempts_of_lt (Nat.lt_succ_self _)).symm
  acks m hm := by
    rcases List.mem_append.1 hm with hm | hm
    · exact h.acks m hm
    · obtain rfl := List.mem_singleton.1 hm
      exact (h.ackedAt?_of_lt (Nat.lt_succ_self _)).symm
  present q hq hne := by
    rcases List.mem_append.1 hq with hq | hq
    · obtain ⟨m, hm, heq⟩ := h.present q hq hne
      exact ⟨m, List.mem_append_left _ hm, heq⟩
    · obtain rfl := List.mem_singleton.1 hq
      exact ⟨_, List.mem_append_right _ (List.mem_singleton_self _), rfl⟩

/-- What is done to the messages of one offset keeps what the table says, if the table notes what
else was done to them. -/
theorem modify (h : x.Kept) {f : StoredMessage → StoredMessage} {handed : List Delivery}
    {acked : List (Nat × Int)} (hf : ∀ m, (f m).publication = m.publication)
    (hhanded : ∀ d ∈ handed, d.publication ∈ x.published)
    (hacked : ∀ a ∈ acked, a.1 ≤ x.bus.lastOffset)
    (hattempts : ∀ m ∈ x.bus.messages, (if m.offset = offset then f m else m).attempts =
      attempts handed m.offset)
    (hackedAt : ∀ m ∈ x.bus.messages, (if m.offset = offset then f m else m).ackedAt =
      ackedAt? acked m.offset)
    (hmore : ∀ o, x.Acked o → o ∈ acked.map (·.1)) :
    Kept { x with bus := x.bus.modify offset f, handed, acked } := by
  have hkeep : ∀ m : StoredMessage,
      (if m.offset = offset then f m else m).publication = m.publication := by
    intro m
    split
    · exact hf m
    · rfl
  have hoffset : ∀ m : StoredMessage, (if m.offset = offset then f m else m).offset = m.offset :=
    fun m => congrArg Publication.offset (hkeep m)
  constructor
  case ordered => exact h.ordered.modify (fun m => congrArg Publication.offset (hf m)) offset
  case increasing => exact h.increasing
  case given => exact h.given
  case genuine =>
    intro m' hm'
    obtain ⟨m, hm, rfl⟩ := List.mem_map.1 hm'
    exact (hkeep m).symm ▸ h.genuine m hm
  case handed => exact hhanded
  case acked => exact hacked
  case tries =>
    intro m' hm'
    obtain ⟨m, hm, rfl⟩ := List.mem_map.1 hm'
    rw [hattempts m hm, hoffset]
  case acks =>
    intro m' hm'
    obtain ⟨m, hm, rfl⟩ := List.mem_map.1 hm'
    rw [hackedAt m hm, hoffset]
  case present =>
    intro q hq hne
    obtain ⟨m, hm, rfl⟩ := h.present q hq fun hq' => hne (hmore _ hq')
    exact ⟨_, List.mem_map_of_mem hm, hkeep m⟩

theorem next (h : x.Kept) (now : Int) (s : Nat) : (x.step (now, .next s)).Kept := by
  rw [step]
  split
  · rename_i d bus hn
    obtain ⟨topic, m, -, hm, rfl, rfl⟩ := next?_eq_some hn
    have hmem : m ∈ x.bus.messages := List.mem_of_find?_eq_some hm
    refine h.modify (fun _ => rfl) (fun d hd => ?_) h.acked (fun m' hm' => ?_) (fun m' hm' => ?_)
      fun _ ho => ho
    · rcases List.mem_append.1 hd with hd | hd
      · exact h.handed d hd
      · obtain rfl := List.mem_singleton.1 hd
        exact h.genuine m hmem
    · have hoffset : m.delivery.offset = m.offset := rfl
      rw [attempts_concat, hoffset, ← h.tries m' hm']
      split <;> rfl
    · rw [← h.acks m' hm']
      split <;> rfl
  · exact h

theorem ack (h : x.Kept) (now : Int) (s n : Nat) : (x.step (now, .ack s n)).Kept := by
  rw [step]
  split
  · rename_i d hd
    have hle : d.offset ≤ x.bus.lastOffset := h.given _ (h.handed d (mem_handed_of_delivery? hd))
    refine h.modify (fun _ => rfl) h.handed (fun a ha => ?_) (fun m hm => ?_) (fun m hm => ?_)
      fun o ho => ?_
    · rcases List.mem_append.1 ha with ha | ha
      · exact h.acked a ha
      · obtain rfl := List.mem_singleton.1 ha
        exact hle
    · rw [← h.tries m hm]
      split <;> rfl
    · rw [ackedAt?_concat, ← h.acks m hm]
      split <;> rfl
    · rw [List.map_append]
      exact List.mem_append_left _ ho
  · exact h

theorem nack (h : x.Kept) (now : Int) (s n : Nat) : (x.step (now, .nack s n)).Kept := by
  rw [step]
  split
  · refine h.modify (fun _ => rfl) h.handed h.acked (fun m hm => ?_) (fun m hm => ?_)
      fun _ ho => ho
    · rw [← h.tries m hm]
      split <;> rfl
    · rw [← h.acks m hm]
      split <;> rfl
  · exact h

theorem purge (h : x.Kept) (now : Int) (age : Nat) : (x.step (now, .purge age)).Kept where
  ordered := h.ordered.purge now _
  increasing := h.increasing
  given := h.given
  genuine m hm := h.genuine m (List.mem_filter.1 hm).1
  handed := h.handed
  acked := h.acked
  tries m hm := h.tries m (List.mem_filter.1 hm).1
  acks m hm := h.acks m (List.mem_filter.1 hm).1
  present q hq hne := by
    obtain ⟨m, hm, rfl⟩ := h.present q hq hne
    have hnone : m.ackedAt = none := (h.acks m hm).trans (ackedAt?_eq_none_iff.2 hne)
    refine ⟨m, List.mem_filter.2 ⟨hm, ?_⟩, rfl⟩
    rw [DurableBus.isExpired, hnone]
    rfl

/-- Every call keeps what the table says. -/
theorem step (h : x.Kept) (c : Int × BusCall) : (x.step c).Kept := by
  obtain ⟨now, c⟩ := c
  cases c with
  | publish topic key payload => exact h.publish now topic key payload
  | subscribe topic =>
    exact ⟨h.1, h.2, h.3, h.4, h.5, h.6, h.7, h.8, h.9⟩
  | next s => exact h.next now s
  | ack s n => exact h.ack now s n
  | nack s n => exact h.nack now s n
  | drop s => exact ⟨h.1, h.2, h.3, h.4, h.5, h.6, h.7, h.8, h.9⟩
  | purge age => exact h.purge now age

end Kept

/-- At every moment the table says what was done so far. -/
theorem kept (backoff : Nat) (calls : List (Int × BusCall)) : (after backoff calls).Kept := by
  induction calls using List.reverseRecOn with
  | nil => exact kept_start backoff
  | append_singleton calls c ih =>
    rw [after, List.foldl_append]
    exact ih.step c

/-- Nothing was acknowledged at a time that the clock did not show. -/
theorem isTime_of_acked (backoff : Nat) {calls : List (Int × BusCall)}
    (clock : ∀ c ∈ calls, DurableBus.IsTime c.1) :
    ∀ a ∈ (after backoff calls).acked, DurableBus.IsTime a.2 := by
  induction calls using List.reverseRecOn with
  | nil => exact fun _ h => nomatch h
  | append_singleton calls c ih =>
    have ih := ih fun c hc => clock c (List.mem_append_left _ hc)
    have hc := clock c (List.mem_append_right _ (List.mem_singleton_self _))
    obtain ⟨now, c⟩ := c
    rw [after, List.foldl_append]
    change ∀ a ∈ ((after backoff calls).step (now, c)).acked, _
    cases c with
    | ack s n =>
      rw [step]
      split
      · intro a ha
        rcases List.mem_append.1 ha with ha | ha
        · exact ih a ha
        · obtain rfl := List.mem_singleton.1 ha
          exact hc
      · exact ih
    | next s => rw [step]; split <;> exact ih
    | nack s n => rw [step]; split <;> exact ih
    | _ => exact ih

theorem mem_of_ackedAt? {acked : List (Nat × Int)} {t : Int} (h : ackedAt? acked offset = some t) :
    (offset, t) ∈ acked := by
  obtain ⟨a, ha, rfl⟩ := Option.map_eq_some_iff.1 h
  obtain ⟨hmem, heq⟩ := List.mem_filter.1 (List.mem_of_getLast? ha)
  exact beq_iff_eq.1 heq ▸ hmem

/-- What a purge deletes was acknowledged for so long. -/
theorem Kept.isExpired_iff (h : x.Kept) (times : ∀ a ∈ x.acked, DurableBus.IsTime a.2)
    (hnow : DurableBus.IsTime now) (age : Nat) {m : StoredMessage} (hm : m ∈ x.bus.messages) :
    DurableBus.isExpired now (age / 1000000) m = true ↔ x.Outlived now age m.offset := by
  rw [Outlived, ← h.acks m hm]
  cases hat : m.ackedAt with
  | none => simp [DurableBus.isExpired, hat]
  | some t =>
    have ht := times _ (mem_of_ackedAt? ((h.acks m hm).symm.trans hat))
    rw [DurableBus.isExpired_iff hnow ht hat]
    constructor
    · exact fun hlt => ⟨t, rfl, hlt⟩
    · rintro ⟨t', heq, hlt⟩
      rwa [Option.some.inj heq]

/-- Whatever was done with the bus, it neither lost a message nor gave one out of turn or once more
after it was acknowledged, and it purges just what is old enough. -/
theorem faithful (backoff : Nat) (calls : List (Int × BusCall))
    (clock : ∀ c ∈ calls, DurableBus.IsTime c.1) : (after backoff calls).Faithful := by
  have h := kept backoff calls
  have times := isTime_of_acked backoff clock
  revert h times
  generalize after backoff calls = x
  intro h times
  have unacked : ∀ topic m, x.bus.head? topic = some m → m.isPending topic = true ∧
      m ∈ x.bus.messages := fun topic m hm =>
    ⟨(List.find?_eq_some_iff_append.1 hm).1, List.mem_of_find?_eq_some hm⟩
  constructor
  case offsets => exact h.increasing
  case genuine =>
    intro now s d bus hn
    obtain ⟨topic, m, htopic, hm, rfl, -⟩ := next?_eq_some hn
    obtain ⟨hpending, hmem⟩ := unacked topic m hm
    obtain ⟨rfl, -⟩ := StoredMessage.isPending_iff.1 hpending
    exact ⟨htopic, h.genuine m hmem⟩
  case first =>
    intro now s d bus hn
    obtain ⟨topic, m, -, hm, rfl, -⟩ := next?_eq_some hn
    obtain ⟨hpending, hmem⟩ := unacked topic m hm
    obtain ⟨rfl, hnone⟩ := StoredMessage.isPending_iff.1 hpending
    refine ⟨ackedAt?_eq_none_iff.1 ((h.acks m hmem).symm.trans hnone), fun q hq htopic hlt => ?_⟩
    by_contra hne
    obtain ⟨m', hm', rfl⟩ := h.present q hq hne
    have hpending' : m'.isPending m.topic = true := StoredMessage.isPending_iff.2
      ⟨htopic, (h.acks m' hm').trans (ackedAt?_eq_none_iff.2 hne)⟩
    exact absurd hlt (Nat.not_lt.2 (h.ordered.offset_le hm hm' hpending'))
  case attempt =>
    intro now s d bus hn hword
    obtain ⟨topic, m, -, hm, rfl, -⟩ := next?_eq_some hn
    have htries := h.tries m (unacked topic m hm).2
    have hoffset : m.delivery.offset = m.offset := rfl
    rw [hoffset] at hword ⊢
    rw [StoredMessage.delivery, htries, Delivery.attemptWord, Nat.mod_eq_of_lt hword]
  case kept => exact h.present
  case purged =>
    intro now age hnow m
    rw [DurableBus.purgeNanos, DurableBus.purge, List.mem_filter]
    refine and_congr_right fun hm => ?_
    rw [← h.isExpired_iff times hnow age hm, Bool.not_eq_true', Bool.not_eq_true]
  case counted =>
    intro now age
    rw [DurableBus.purgeNanos, DurableBus.purge, ← List.countP_eq_length_filter,
      List.length_eq_countP_add_countP (DurableBus.isExpired now (age / 1000000))]
    congr 2
    funext m
    simp

/-- Two messages are published. The first is given back, handed out again, acknowledged and purged,
and then the second is handed out. -/
def redelivery : List (Int × BusCall) := [
  (0, .publish "reports" "default" ⟨#[1]⟩), (1, .publish "reports" "default" ⟨#[2]⟩),
  (2, .subscribe "reports"), (3, .next 0), (4, .nack 0 0), (5, .next 0), (30, .next 0),
  (31, .ack 0 1), (40, .purge 5000000), (41, .next 0)]

theorem faithful_redelivery : (∀ c ∈ redelivery, DurableBus.IsTime c.1) ∧
    (after 20 redelivery).handed.map (fun d => (d.offset, d.attempt)) = [(1, 1), (1, 2), (2, 1)] ∧
    (after 20 redelivery).bus.messages.map (·.offset) = [2] ∧ (after 20 redelivery).Faithful := by
  have clock : ∀ c ∈ redelivery, DurableBus.IsTime c.1 := by decide
  exact ⟨clock, by decide, by decide, faithful 20 redelivery clock⟩

end Traffic

end FleetSync
