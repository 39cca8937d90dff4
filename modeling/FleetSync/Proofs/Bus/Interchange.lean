import FleetSync.Control.Consumer
import FleetSync.Proofs.Bus.Consumption

/-!
# One bus for the other

A consumer with one subscription that settles what it was handed before it asks for more cannot tell
the bus in memory from the durable bus (`Backend.interchangeable`), although one goes through a log
with a cursor and keeps what was given back, and the other one goes through a table that counts
attempts. What the one still has to hand out is at every moment what waits in the other
(`Backend.Alike`), and each move of the consumer and of those who publish keeps it that way
(`Backend.Alike.step`).
-/

namespace FleetSync

/-- What a delivery says, wherever it is kept. -/
def Delivery.said (d : Delivery) : String × String × ByteArray × Nat :=
  (d.topic, d.key, d.payload, d.attempt)

/-- A bus with one subscription. -/
structure Backend (β : Type) where
  inbox : Inbox β
  publish : String → String → ByteArray → β → β
  /-- Lets the clock show a time. -/
  clock : Int → β → β
  /-- Purges what was acknowledged more than some nanoseconds ago. -/
  purge : Nat → β → β

/-- What is done with a bus and its subscription. -/
inductive BusMove where
  | publish (topic key : String) (payload : ByteArray)
  | clock (now : Int)
  | purge (age : Nat)
  | take
  | settle (s : Settlement)
deriving DecidableEq, Inhabited

/-- A consumer that settles what it was handed before it asks for more, and what it saw so far. -/
structure Dialogue (β : Type) where
  bus : β
  hand : Option Delivery
  seen : List (Except OpError (Option (String × String × ByteArray × Nat)))

namespace Backend

variable {β : Type}

/-- The bus in memory. It has no clock and keeps all that was published. -/
def memory : Backend (MemoryBus × MemorySubscription) where
  inbox := .memory
  publish topic key payload := fun (b, s) => ((b.publish topic key payload).2, s)
  clock _ x := x
  purge _ x := x

/-- The durable bus and a subscription of a topic. -/
def durable (topic : String) : Backend (DurableBus × Int) where
  inbox := .durable topic
  publish topic key payload := fun (b, now) => ((b.publish now topic key payload).2, now)
  clock now := fun (b, _) => (b, now)
  purge age := fun (b, now) => ((b.purgeNanos now age).2, now)

/-- Settles a delivery. -/
def settle (x : Backend β) (d : Delivery) (b : β) : Settlement → β
  | .ack => (x.inbox.ack d b).2
  | .nack => (x.inbox.nack d b).2

/-- A dialogue after a move. With something in the hand nothing more is taken. -/
def step (x : Backend β) (s : Dialogue β) : BusMove → Dialogue β
  | .publish topic key payload => { s with bus := x.publish topic key payload s.bus }
  | .clock now => { s with bus := x.clock now s.bus }
  | .purge age => { s with bus := x.purge age s.bus }
  | .take => match s.hand with
    | some _ => s
    | none =>
      let (r, bus) := x.inbox.next s.bus
      ⟨bus, r.toOption.join, s.seen ++ [r.map (·.map Delivery.said)]⟩
  | .settle decision => match s.hand with
    | some d => { s with bus := x.settle d s.bus decision, hand := none }
    | none => s

/-- With an empty hand the next message is taken, if there is one. -/
theorem step_take {x : Backend β} {b b' : β} {o : Option Delivery}
    {seen : List (Except OpError (Option (String × String × ByteArray × Nat)))}
    (h : x.inbox.next b = (.ok o, b')) :
    x.step ⟨b, none, seen⟩ .take = ⟨b', o, seen ++ [.ok (o.map Delivery.said)]⟩ := by
  simp only [step, h]
  rfl

/-- A dialogue that begins with a bus, after some moves. -/
def after (x : Backend β) (bus : β) (moves : List BusMove) : Dialogue β :=
  moves.foldl x.step ⟨bus, none, []⟩

/-- What a subscription in memory has to hand out again and after that. -/
def upcoming (s : Dialogue (MemoryBus × MemorySubscription)) : List Delivery :=
  s.hand.toList.map Delivery.again ++ s.bus.2.returned ++
    (s.bus.1.log s.bus.2.topic).drop s.bus.2.cursor

/-- What a publication says when it is handed out once more. -/
def next (e : Publication × Nat) : String × String × ByteArray × Nat :=
  (e.1.delivery (e.2 + 1)).said

/-- Whether two dialogues, one with each bus, saw the same and have the same ahead of them. -/
structure Alike (topic : String) (m : Dialogue (MemoryBus × MemorySubscription))
    (d : Dialogue (DurableBus × Int)) : Prop where
  seen : m.seen = d.seen
  ordered : d.bus.1.Ordered
  subscribed : m.bus.2.topic = topic
  cursor : m.bus.2.cursor ≤ (m.bus.1.log topic).length
  ahead : (upcoming m).map Delivery.said = (d.bus.1.queue topic).map next
  /-- Only the message in the hand was given back, or none. -/
  single : (m.hand.toList ++ m.bus.2.returned).length ≤ 1
  held : m.hand.isSome = d.hand.isSome
  /-- The message in the hand is the head of the queue. -/
  head : ∀ e, d.hand = some e → ∃ p n rest, d.bus.1.queue topic = (p, n) :: rest ∧ e = p.delivery n

variable {topic : String} {m : Dialogue (MemoryBus × MemorySubscription)}
  {d : Dialogue (DurableBus × Int)}

/-- What is given back is handed out with one attempt more. -/
theorem said_again {e : Delivery} {p : Publication} {n : Nat}
    (h : e.said = (p.delivery n).said) : e.again.said = next (p, n) := by
  obtain ⟨htopic, h⟩ := Prod.mk.inj h
  obtain ⟨hkey, h⟩ := Prod.mk.inj h
  obtain ⟨hpayload, hattempt⟩ := Prod.mk.inj h
  have hword : Delivery.attemptWord (Delivery.attemptWord n + 1) = Delivery.attemptWord (n + 1) :=
    Nat.mod_add_mod ..
  rw [Delivery.said, Delivery.again, htopic, hkey, hpayload, hattempt]
  exact congrArg (fun a => (p.topic, p.key, p.payload, a)) hword

/-- With no message in the hand, the next one is the first of what is ahead. -/
theorem next?_eq_none {b : MemoryBus} {s : MemorySubscription}
    (h : s.returned ++ (b.log s.topic).drop s.cursor = []) : s.next? b = none := by
  obtain ⟨hreturned, hlog⟩ := List.append_eq_nil_iff.1 h
  rw [MemorySubscription.next?, hreturned]
  simp only
  rw [List.getElem?_eq_none (List.drop_eq_nil_iff.1 hlog), Option.map_none]

theorem next?_eq_some {b : MemoryBus} {s : MemorySubscription} {e : Delivery} {l : List Delivery}
    (h : s.returned ++ (b.log s.topic).drop s.cursor = e :: l) (single : s.returned.length ≤ 1)
    (cursor : s.cursor ≤ (b.log s.topic).length) : ∃ s', s.next? b = some (e, s') ∧
      s'.topic = s.topic ∧ s'.returned = [] ∧ (b.log s.topic).drop s'.cursor = l ∧
      s'.cursor ≤ (b.log s.topic).length := by
  obtain ⟨t, c, returned⟩ := s
  cases returned with
  | cons r rest =>
    obtain ⟨rfl, rfl⟩ := List.cons.inj h
    obtain rfl : rest = [] :=
      List.length_eq_zero_iff.1 (Nat.le_zero.1 (Nat.le_of_succ_le_succ single))
    exact ⟨_, rfl, rfl, rfl, rfl, cursor⟩
  | nil =>
    have hlt : c < (b.log t).length := by
      by_contra hge
      rw [List.nil_append, List.drop_eq_nil_iff.2 (Nat.not_lt.1 hge)] at h
      cases h
    rw [List.nil_append, List.drop_eq_getElem_cons hlt] at h
    obtain ⟨rfl, rfl⟩ := List.cons.inj h
    refine ⟨⟨t, c + 1, []⟩, ?_, rfl, rfl, rfl, hlt⟩
    simp only [MemorySubscription.next?, List.getElem?_eq_getElem hlt, Option.map_some]

namespace Alike

/-- Of an empty hand anything holds. -/
theorem held_none {P : Delivery → Prop} : ∀ e, none = some e → P e :=
  fun e he => absurd he.symm (Option.some_ne_none e)

/-- Before anything is done, no bus has anything to hand out. -/
theorem start (topic : String) (backoff : Nat) (now : Int) :
    Alike topic ⟨(MemoryBus.empty.withTopic topic, .start topic), none, []⟩
      ⟨(.empty backoff, now), none, []⟩ where
  seen := rfl
  ordered := DurableBus.ordered_empty backoff
  subscribed := rfl
  cursor := Nat.zero_le _
  ahead := by
    have hlog : (MemoryBus.empty.withTopic topic).log topic = [] := by
      simp [MemoryBus.log, MemoryBus.withTopic, MemoryBus.empty, Fields.get?_alter, Fields.get?]
    simp only [upcoming, MemorySubscription.start, hlog]
    rfl
  single := Nat.zero_le _
  held := rfl
  head := held_none

theorem publish (h : Alike topic m d) (t key : String) (payload : ByteArray) :
    Alike topic (memory.step m (.publish t key payload))
      ((durable topic).step d (.publish t key payload)) where
  seen := h.seen
  ordered := h.ordered.publish d.bus.2 t key payload
  subscribed := h.subscribed
  cursor := by
    refine Nat.le_trans h.cursor ?_
    rw [step, memory, MemoryBus.log_publish, List.length_append]
    exact Nat.le_add_right ..
  ahead := by
    have hcursor := h.cursor
    have hahead := h.ahead
    rw [upcoming, h.subscribed] at hahead
    simp only [step, memory, durable, upcoming, h.subscribed, MemoryBus.log_publish,
      DurableBus.queue_publish]
    rw [List.drop_append_of_le_length hcursor, ← List.append_assoc, List.map_append, hahead,
      List.map_append]
    congr 1
    by_cases ht : topic = t
    · rw [if_pos ht, if_pos ht.symm]
      rfl
    · rw [if_neg ht, if_neg (Ne.symm ht)]
      rfl
  single := h.single
  held := h.held
  head e he := by
    obtain ⟨p, n, rest, hq, rfl⟩ := h.head e he
    refine ⟨p, n, _, (DurableBus.queue_publish ..).trans (congrArg (· ++ _) hq), rfl⟩

theorem clock (h : Alike topic m d) (now : Int) :
    Alike topic (memory.step m (.clock now)) ((durable topic).step d (.clock now)) :=
  ⟨h.seen, h.ordered, h.subscribed, h.cursor, h.ahead, h.single, h.held, h.head⟩

theorem purge (h : Alike topic m d) (age : Nat) :
    Alike topic (memory.step m (.purge age)) ((durable topic).step d (.purge age)) where
  seen := h.seen
  ordered := h.ordered.purge d.bus.2 _
  subscribed := h.subscribed
  cursor := h.cursor
  ahead := h.ahead.trans (congrArg (List.map next) (DurableBus.queue_purge ..).symm)
  single := h.single
  held := h.held
  head e he := by
    obtain ⟨p, n, rest, hq, rfl⟩ := h.head e he
    exact ⟨p, n, rest, (DurableBus.queue_purge ..).trans hq, rfl⟩

theorem take (h : Alike topic m d) :
    Alike topic (memory.step m .take) ((durable topic).step d .take) := by
  obtain ⟨⟨b, s⟩, hand, seen⟩ := m
  obtain ⟨⟨b', now⟩, hand', seen'⟩ := d
  obtain ⟨hseen, ordered, htopic, cursor, ahead, single, held, head⟩ := h
  obtain rfl : seen = seen' := hseen
  obtain rfl : s.topic = topic := htopic
  cases hand with
  | some e =>
    cases hand' with
    | some e' => exact ⟨rfl, ordered, rfl, cursor, ahead, single, held, head⟩
    | none => cases held
  | none =>
    cases hand' with
    | some e' => cases held
    | none =>
      have hupcoming : upcoming ⟨(b, s), none, seen⟩ =
          s.returned ++ (b.log s.topic).drop s.cursor := by
        rw [upcoming, Option.toList_none, List.map_nil, List.nil_append]
      rw [hupcoming] at ahead
      have single : s.returned.length ≤ 1 := single
      cases hq : b'.queue s.topic with
      | nil =>
        have hnil : s.returned ++ (b.log s.topic).drop s.cursor = [] := by
          rw [hq] at ahead
          exact List.map_eq_nil_iff.1 ahead
        have hm : memory.inbox.next (b, s) = (.ok none, (b, s)) := by
          simp only [memory, Inbox.memory, next?_eq_none hnil]
        have hd : (durable s.topic).inbox.next (b', now) = (.ok none, (b', now)) := by
          simp only [durable, Inbox.durable, DurableBus.next?_of_queue_nil hq]
        rw [step_take hm, step_take hd]
        exact ⟨rfl, ordered, rfl, cursor, hupcoming ▸ ahead, single, rfl, held_none⟩
      | cons x rest =>
        obtain ⟨p, n⟩ := x
        rw [hq, List.map_cons] at ahead
        obtain ⟨e, l, hahead, he, hl⟩ := List.map_eq_cons_iff.1 ahead
        obtain ⟨s', hnext, htopic', hreturned', hdrop', hcursor'⟩ :=
          next?_eq_some hahead single cursor
        obtain ⟨b'', hnext', ordered', hq'⟩ := ordered.next?_dueTime hq now
        have hm : memory.inbox.next (b, s) = (.ok (some e), (b, s')) := by
          simp only [memory, Inbox.memory, hnext]
        have hd : (durable s.topic).inbox.next (b', now) =
            (.ok (some (p.delivery (n + 1))), (b'', b'.dueTime now s.topic)) := by
          simp only [durable, Inbox.durable, hnext']
        rw [step_take hm, step_take hd]
        refine ⟨congrArg (fun v => seen ++ [.ok (some v)]) he, ordered', htopic', hcursor', ?_, ?_,
          rfl, fun _ he' => ?_⟩
        · rw [hq', List.map_cons, upcoming, hreturned', htopic', hdrop', Option.toList_some,
            List.map_singleton, List.append_nil, List.singleton_append, List.map_cons, hl,
            said_again he]
        · rw [hreturned']
          exact Nat.le_refl 1
        · obtain rfl := Option.some.inj he'
          exact ⟨p, n + 1, rest, hq', rfl⟩

theorem settle (h : Alike topic m d) (decision : Settlement) :
    Alike topic (memory.step m (.settle decision)) ((durable topic).step d (.settle decision)) := by
  obtain ⟨⟨b, s⟩, hand, seen⟩ := m
  obtain ⟨⟨b', now⟩, hand', seen'⟩ := d
  obtain ⟨hseen, ordered, htopic, cursor, ahead, single, held, head⟩ := h
  obtain rfl : seen = seen' := hseen
  obtain rfl : s.topic = topic := htopic
  cases hand with
  | none =>
    cases hand' with
    | none => exact ⟨rfl, ordered, rfl, cursor, ahead, single, held, head⟩
    | some e' => cases held
  | some e =>
    cases hand' with
    | none => cases held
    | some e' =>
      obtain ⟨p, n, rest, hq, rfl⟩ := head e' rfl
      have hreturned : s.returned = [] :=
        List.length_eq_zero_iff.1 (Nat.le_zero.1 (Nat.le_of_succ_le_succ single))
      have hupcoming : upcoming ⟨(b, s), some e, seen⟩ =
          e.again :: (b.log s.topic).drop s.cursor := by
        rw [upcoming, hreturned, Option.toList_some, List.map_singleton, List.append_nil,
          List.singleton_append]
      rw [hupcoming] at ahead
      cases decision with
      | ack =>
        refine ⟨rfl, ordered.ack now _, rfl, cursor, ?_, ?_, rfl, held_none⟩
        · have hq' := ordered.queue_ack_head hq now n
          rw [hq, List.map_cons, List.map_cons] at ahead
          simp only [step, Backend.settle, memory, durable, Inbox.memory, Inbox.durable, upcoming,
            hreturned, hq']
          exact (List.cons.inj ahead).2
        · simp only [step, Backend.settle, memory, Inbox.memory, hreturned]
          exact Nat.zero_le 1
      | nack =>
        refine ⟨rfl, ordered.nack now _, rfl, cursor, ?_, ?_, rfl, held_none⟩
        · simp only [step, Backend.settle, memory, durable, Inbox.memory, Inbox.durable, upcoming,
            MemorySubscription.nack, hreturned, DurableBus.queue_nack]
          exact ahead
        · simp only [step, Backend.settle, memory, Inbox.memory, MemorySubscription.nack, hreturned]
          exact Nat.le_refl 1

/-- No move sets two dialogues apart. -/
theorem step (h : Alike topic m d) (move : BusMove) :
    Alike topic (memory.step m move) ((durable topic).step d move) := by
  cases move with
  | publish t key payload => exact h.publish t key payload
  | clock now => exact h.clock now
  | purge age => exact h.purge age
  | take => exact h.take
  | settle decision => exact h.settle decision

end Alike

/-- Whatever is published and however it settles what it was handed, a consumer sees the same of
both buses. It does not matter when it subscribed, since either bus hands out what is older too. -/
theorem interchangeable (topic : String) (backoff : Nat) (now : Int) (moves : List BusMove) :
    (memory.after (MemoryBus.empty.withTopic topic, .start topic) moves).seen =
      ((durable topic).after (.empty backoff, now) moves).seen := by
  have halike : Alike topic (memory.after (MemoryBus.empty.withTopic topic, .start topic) moves)
      ((durable topic).after (.empty backoff, now) moves) := by
    induction moves using List.reverseRecOn with
    | nil => exact .start topic backoff now
    | append_singleton moves move ih =>
      rw [after, List.foldl_append, after, List.foldl_append]
      exact ih.step move
  exact halike.seen

/-- What is published to another topic is not handed out, and what was given back is before what is
new. -/
example : ((durable "reports").after (.empty 1000, 0) [.take, .publish "reports" "a" ⟨#[1]⟩,
    .publish "eu-1-incoming" "a" ⟨#[2]⟩, .take, .publish "reports" "b" ⟨#[3]⟩, .settle .nack, .take,
    .settle .ack, .purge 0, .take]).seen.map Except.toOption =
      [some none, some (some ("reports", "a", ⟨#[1]⟩, 1)), some (some ("reports", "a", ⟨#[1]⟩, 2)),
        some (some ("reports", "b", ⟨#[3]⟩, 1))] := by
  decide

end Backend

end FleetSync
