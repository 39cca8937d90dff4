import FleetSync.Bus.Inbox
import Mathlib.Data.List.Basic

/-!
# The queues of the durable bus

What waits in a topic of the durable bus is a queue of publications, each with the number of times
that it was handed out (`DurableBus.queue`). A publication joins the queue of its topic at the end
(`DurableBus.queue_publish`), what is handed out stays at the head of the queue with one attempt
more (`DurableBus.next?_dueTime`), and only an acknowledgement takes something out
(`DurableBus.queue_ack`). Offsets tell messages apart, since they increase (`DurableBus.Ordered`).
-/

namespace FleetSync

/-- What was published, and the offset that it was given. -/
structure Publication where
  offset : Nat
  topic : String
  key : String
  payload : ByteArray
deriving DecidableEq, Inhabited

/-- A publication as it is handed out for the n-th time. -/
def Publication.delivery (p : Publication) (n : Nat) : Delivery :=
  ⟨p.offset, p.topic, p.key, p.payload, Delivery.attemptWord n⟩

/-- What a delivery hands out. -/
def Delivery.publication (d : Delivery) : Publication := ⟨d.offset, d.topic, d.key, d.payload⟩

@[simp] theorem Publication.publication_delivery (p : Publication) (n : Nat) :
    (p.delivery n).publication = p := rfl

@[simp] theorem Publication.offset_delivery (p : Publication) (n : Nat) :
    (p.delivery n).offset = p.offset := rfl

namespace StoredMessage

/-- What a message in the table was published as. -/
def publication (m : StoredMessage) : Publication := ⟨m.offset, m.topic, m.key, m.payload⟩

theorem isPending_iff {m : StoredMessage} {topic : String} :
    m.isPending topic = true ↔ m.topic = topic ∧ m.ackedAt = none := by
  simp [isPending]

/-- Once it has waited for as long as it takes, a message is due. -/
theorem wait_add (m : StoredMessage) (now : Int) : m.wait (now + max 0 (m.wait now)) ≤ 0 := by
  rcases Int.le_total (m.wait now) 0 with h | h
  · rwa [Int.max_eq_left h, Int.add_zero]
  · have hdvd : (Nat.pow 2 64 : Int) ∣ m.dueAt - (now + m.wait now) := by
      rw [← Int.sub_sub]
      exact Int.dvd_self_sub_bmod
    rw [Int.max_eq_right h]
    exact Int.le_of_eq (Int.bmod_eq_zero_of_dvd hdvd)

end StoredMessage

namespace DurableBus

variable {b : DurableBus} {m : StoredMessage} {p : Publication} {n : Nat} {topic : String}
  {rest : List (Publication × Nat)}

/-- Whether the messages are in the order of their offsets, none of which is still to be given. -/
structure Ordered (b : DurableBus) : Prop where
  increasing : (b.messages.map (·.offset)).Pairwise (· < ·)
  given : ∀ m ∈ b.messages, m.offset ≤ b.lastOffset

/-- What waits in a topic, in order, and how often each was handed out. -/
def queue (b : DurableBus) (topic : String) : List (Publication × Nat) :=
  (b.messages.filter (·.isPending topic)).map fun m => (m.publication, m.attempts)

theorem pending_eq (b : DurableBus) (topic : String) :
    b.pending topic = (b.queue topic).length := by
  rw [pending, queue, List.length_map, List.countP_eq_length_filter]

/-! ## Order -/

theorem ordered_empty (backoff : Nat) : (empty backoff).Ordered :=
  ⟨List.Pairwise.nil, fun _ h => nomatch h⟩

theorem Ordered.publish (h : b.Ordered) (now : Int) (topic key : String) (payload : ByteArray) :
    (b.publish now topic key payload).2.Ordered := by
  constructor
  · simp only [DurableBus.publish, List.map_append, List.map_singleton]
    refine List.pairwise_append.2 ⟨h.increasing, List.pairwise_singleton _ _, fun o ho o' ho' => ?_⟩
    obtain ⟨m, hm, rfl⟩ := List.mem_map.1 ho
    obtain rfl := List.mem_singleton.1 ho'
    exact Nat.lt_succ_of_le (h.given m hm)
  · intro m hm
    rcases List.mem_append.1 hm with hm | hm
    · exact Nat.le_succ_of_le (h.given m hm)
    · obtain rfl := List.mem_singleton.1 hm
      exact Nat.le_refl _

/-- What keeps offsets keeps their order. -/
theorem Ordered.modify {f : StoredMessage → StoredMessage} (h : b.Ordered)
    (hf : ∀ m, (f m).offset = m.offset) (offset : Nat) : (b.modify offset f).Ordered := by
  have hkeep : ∀ m : StoredMessage, (if m.offset = offset then f m else m).offset = m.offset := by
    intro m
    split
    · exact hf m
    · rfl
  constructor
  · rw [DurableBus.modify, List.map_map]
    exact (List.map_congr_left fun m _ => hkeep m) ▸ h.increasing
  · intro m hm
    obtain ⟨m', hm', rfl⟩ := List.mem_map.1 hm
    exact Nat.le_trans (Nat.le_of_eq (hkeep m')) (h.given m' hm')

theorem Ordered.ack (h : b.Ordered) (now : Int) (d : Delivery) : (b.ack now d).Ordered :=
  h.modify (f := fun m => { m with ackedAt := some now }) (fun _ => rfl) d.offset

theorem Ordered.nack (h : b.Ordered) (now : Int) (d : Delivery) : (b.nack now d).Ordered :=
  h.modify (f := fun m => { m with dueAt := wrap (now + wrap (b.backoff * d.attempt)) })
    (fun _ => rfl) d.offset

theorem Ordered.purge (h : b.Ordered) (now : Int) (age : Nat) : (b.purge now age).2.Ordered where
  increasing := h.increasing.sublist (List.filter_sublist.map _)
  given m hm := h.given m (List.mem_filter.1 hm).1

theorem Ordered.next? (h : b.Ordered) {now : Int} {d : Delivery} {b' : DurableBus}
    (hn : b.next? now topic = some (d, b')) : b'.Ordered := by
  rw [DurableBus.next?] at hn
  split at hn
  · split at hn
    · obtain ⟨-, rfl⟩ := Prod.mk.inj (Option.some.inj hn)
      exact h.modify (f := fun m => { m with attempts := m.attempts + 1 }) (fun _ => rfl) _
    · cases hn
  · cases hn

/-! ## What operations do to the queues -/

theorem queue_publish (b : DurableBus) (now : Int) (topic key t : String) (payload : ByteArray) :
    (b.publish now topic key payload).2.queue t = b.queue t ++
      if topic = t then [(⟨b.lastOffset + 1, topic, key, payload⟩, 0)] else [] := by
  by_cases h : topic = t <;>
    simp [publish, queue, List.filter_append, StoredMessage.isPending, h,
      StoredMessage.publication]

/-- Messages that are purged were acknowledged. -/
theorem queue_purge (b : DurableBus) (now : Int) (age : Nat) (t : String) :
    (b.purge now age).2.queue t = b.queue t := by
  rw [queue, queue, purge, List.filter_filter]
  congr 1
  refine List.filter_congr fun m _ => ?_
  cases ha : m.ackedAt <;> simp [StoredMessage.isPending, isExpired, ha]

theorem queue_nack (b : DurableBus) (now : Int) (d : Delivery) (t : String) :
    (b.nack now d).queue t = b.queue t := by
  rw [queue, queue, nack, modify, List.filter_map, List.map_map]
  have hpending : ((·.isPending t) ∘ fun m : StoredMessage => if m.offset = d.offset then
      { m with dueAt := wrap (now + wrap (b.backoff * d.attempt)) } else m) = (·.isPending t) := by
    funext m
    simp only [Function.comp_apply]
    split <;> rfl
  rw [hpending]
  refine List.map_congr_left fun m _ => ?_
  simp only [Function.comp_apply]
  split <;> rfl

theorem queue_ack (b : DurableBus) (now : Int) (d : Delivery) (t : String) :
    (b.ack now d).queue t = (b.queue t).filter (·.1.offset != d.offset) := by
  let acked : StoredMessage → StoredMessage := fun m =>
    if m.offset = d.offset then { m with ackedAt := some now } else m
  have hpending : ((·.isPending t) ∘ acked) =
      fun m : StoredMessage => m.isPending t && m.offset != d.offset := by
    funext m
    by_cases hm : m.offset = d.offset <;> simp [acked, hm, StoredMessage.isPending]
  have hkeep : ∀ m ∈ b.messages.filter fun m => m.isPending t && m.offset != d.offset,
      acked m = m := by
    intro m hm
    have hne := (Bool.and_eq_true ..).mp (List.mem_filter.1 hm).2
    exact if_neg (bne_iff_ne.1 hne.2)
  calc (b.ack now d).queue t
      = ((b.messages.map acked).filter (·.isPending t)).map fun m => (m.publication, m.attempts) :=
        rfl
    _ = (b.messages.filter fun m => m.isPending t && m.offset != d.offset).map
          fun m => (m.publication, m.attempts) := by
        rw [List.filter_map, hpending, List.map_congr_left hkeep, List.map_id']
    _ = (b.queue t).filter (·.1.offset != d.offset) := by
        rw [queue, List.filter_map, List.filter_filter]
        congr 2
        funext m
        exact Bool.and_comm _ _

/-- The head of a queue is the first message that waits. -/
theorem head?_of_queue (h : b.queue topic = (p, n) :: rest) :
    ∃ m, b.head? topic = some m ∧ m.publication = p ∧ m.attempts = n := by
  obtain ⟨m, l, hl, hm, -⟩ := List.map_eq_cons_iff.1 h
  obtain ⟨hp, hn⟩ := Prod.mk.inj hm
  refine ⟨m, ?_, hp, hn⟩
  rw [head?, ← List.head?_filter, hl, List.head?_cons]

theorem head?_of_queue_nil (h : b.queue topic = []) : b.head? topic = none := by
  rw [head?, ← List.head?_filter, List.map_eq_nil_iff.1 h, List.head?_nil]

/-- The first message that waits in a topic has an offset of its own. -/
theorem Ordered.split_of_head? (h : b.Ordered) (hm : b.head? topic = some m) :
    ∃ l r, b.messages = l ++ m :: r ∧ l.filter (·.isPending topic) = [] ∧
      m.isPending topic = true ∧
      ∀ f, (b.modify m.offset f).messages = l ++ f m :: r := by
  obtain ⟨hpending, l, r, hmessages, hl⟩ := List.find?_eq_some_iff_append.1 hm
  have hnone : l.filter (·.isPending topic) = [] :=
    List.filter_eq_nil_iff.2 fun m' hm' => by simpa using hl m' hm'
  have hinc := h.increasing
  rw [hmessages, List.map_append, List.map_cons, List.pairwise_append, List.pairwise_cons] at hinc
  obtain ⟨-, ⟨hright, -⟩, hleft⟩ := hinc
  have others : ∀ m' ∈ l ++ r, m'.offset ≠ m.offset := by
    intro m' hm' heq
    rcases List.mem_append.1 hm' with hm' | hm'
    · exact Nat.ne_of_lt (hleft _ (List.mem_map_of_mem hm') _ (List.mem_cons_self ..)) heq
    · exact Nat.ne_of_lt (hright _ (List.mem_map_of_mem hm')) heq.symm
  refine ⟨l, r, hmessages, hnone, hpending, fun f => ?_⟩
  have keep : ∀ l' ⊆ l ++ r, (l'.map fun m' => if m'.offset = m.offset then f m' else m') = l' := by
    intro l' hl'
    rw [List.map_congr_left fun m' hm' => if_neg (others m' (hl' hm')), List.map_id']
  rw [DurableBus.modify, hmessages, List.map_append, List.map_cons, if_pos rfl,
    keep l (List.subset_append_left ..), keep r (List.subset_append_right ..)]

/-- What waits in a topic first has the least offset of all that waits there. -/
theorem Ordered.offset_le (h : b.Ordered) (hm : b.head? topic = some m) {m' : StoredMessage}
    (hm' : m' ∈ b.messages) (hpending : m'.isPending topic = true) : m.offset ≤ m'.offset := by
  obtain ⟨-, l, r, hmessages, hl⟩ := List.find?_eq_some_iff_append.1 hm
  have hinc := h.increasing
  rw [hmessages, List.map_append, List.map_cons, List.pairwise_append, List.pairwise_cons] at hinc
  rw [hmessages, List.mem_append, List.mem_cons] at hm'
  rcases hm' with hm' | rfl | hm'
  · have hnot := hl m' hm'
    rw [hpending] at hnot
    cases hnot
  · exact Nat.le_refl _
  · exact Nat.le_of_lt (hinc.2.1.1 _ (List.mem_map_of_mem hm'))

/-- Whoever claims the first message that waits in a topic counts one attempt more of it, and
leaves all others as they are. -/
theorem Ordered.queue_claim (h : b.Ordered) (hm : b.head? topic = some m) :
    (b.modify m.offset fun m => { m with attempts := m.attempts + 1 }).queue topic =
      (m.publication, m.attempts + 1) :: (b.queue topic).tail := by
  obtain ⟨l, r, hmessages, hl, hpending, hmodify⟩ := h.split_of_head? hm
  have claimed : ({ m with attempts := m.attempts + 1 } : StoredMessage).isPending topic = true :=
    hpending
  rw [queue, queue, hmodify, hmessages, List.filter_append, List.filter_append, hl,
    List.nil_append, List.nil_append, List.filter_cons, List.filter_cons, if_pos claimed,
    if_pos hpending]
  rfl

/-- Whoever waits until it is due is handed the head of a queue. -/
theorem Ordered.next?_dueTime (h : b.Ordered) (hq : b.queue topic = (p, n) :: rest) (now : Int) :
    ∃ b', b.next? (b.dueTime now topic) topic = some (p.delivery (n + 1), b') ∧ b'.Ordered ∧
      b'.queue topic = (p, n + 1) :: rest := by
  obtain ⟨m, hm, rfl, rfl⟩ := head?_of_queue hq
  have hdue : m.wait (b.dueTime now topic) ≤ 0 := by
    rw [dueTime, hm]
    exact m.wait_add now
  have hnext : b.next? (b.dueTime now topic) topic = some (m.delivery,
      b.modify m.offset fun m => { m with attempts := m.attempts + 1 }) := by
    rw [DurableBus.next?, hm]
    exact if_pos hdue
  refine ⟨_, hnext, h.next? hnext, ?_⟩
  rw [h.queue_claim hm, hq, List.tail_cons]

theorem next?_of_queue_nil (hq : b.queue topic = []) (now : Int) : b.next? now topic = none := by
  rw [next?, head?_of_queue_nil hq]

end DurableBus

end FleetSync
