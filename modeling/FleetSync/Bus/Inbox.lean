import FleetSync.Bus.Durable
import FleetSync.Bus.Memory

/-!
# Inboxes

A subscription as a consumer sees it, whichever bus is behind it: it hands out deliveries, and each
is acknowledged or given back. A consumer has nothing else to do than to wait for a delivery, so the
inbox of the durable bus lets time pass until one is due (`Inbox.durable`). An inbox may end once so
many deliveries were acknowledged (`Inbox.endingAfter`).
-/

namespace FleetSync

/-- What a consumer does with deliveries, on a state of its bus. -/
structure Inbox (β : Type) where
  next : β → Except OpError (Option Delivery) × β
  ack : Delivery → β → Except OpError Unit × β
  nack : Delivery → β → Except OpError Unit × β

namespace Inbox

/-- The inbox of a subscription in memory. -/
def memory : Inbox (MemoryBus × MemorySubscription) where
  next := fun (b, s) => match s.next? b with
    | some (d, s) => (.ok (some d), (b, s))
    | none => (.ok none, (b, s))
  ack := fun _ x => (.ok (), x)
  nack := fun d (b, s) => (.ok (), (b, s.nack d))

/-- The inbox of a topic of the durable bus, with the time. -/
def durable (topic : String) : Inbox (DurableBus × Int) where
  next := fun (b, now) =>
    let due := b.dueTime now topic
    match b.next? due topic with
    | some (d, b) => (.ok (some d), (b, due))
    | none => (.ok none, (b, now))
  ack := fun d (b, now) => (.ok (), (b.ack now d, now))
  nack := fun d (b, now) => (.ok (), (b.nack now d, now))

/-- An inbox that first fails some times to hand anything out. -/
def failingFirst {β : Type} (x : Inbox β) : Inbox (β × Nat) where
  next := fun (b, failures) => match failures with
    | 0 => let (r, b) := x.next b; (r, (b, 0))
    | n + 1 => (.error (.bus "next" "" "interrupted"), (b, n))
  ack := fun d (b, n) => let (r, b) := x.ack d b; (r, (b, n))
  nack := fun d (b, n) => let (r, b) := x.nack d b; (r, (b, n))

/-- An inbox that fails to acknowledge anything. -/
def failingAck {β : Type} (x : Inbox β) : Inbox β :=
  { x with ack := fun d b => (.error (.bus "ack" d.topic "interrupted"), b) }

/-- An inbox that ends once so many acknowledgements were tried. -/
def endingAfter {β : Type} (x : Inbox β) : Inbox (β × Nat) where
  next := fun (b, left) => match left with
    | 0 => (.ok none, (b, 0))
    | left => let (r, b) := x.next b; (r, (b, left))
  ack := fun d (b, left) => let (r, b) := x.ack d b; (r, (b, left - 1))
  nack := fun d (b, left) => let (r, b) := x.nack d b; (r, (b, left))

end Inbox

end FleetSync
