import FleetSync.Bus.Delivery
import FleetSync.Error

/-!
# The durable bus

A table of messages that stay until they are acknowledged and purged. Offsets count up over all
topics and are never used again. Every subscriber of a topic is handed the first message that is not
acknowledged, once it is due; giving one back puts it off by the backoff for each attempt made
(`DurableBus.nack`). Times are milliseconds since 1970 as 64-bit words with a sign, so a backoff
that is no such word counts as the one it wraps around to (`DurableBus.wrap`), and so does a wait.
An age that is no such word counts as the largest one, and what is before all times as the first of
them (`DurableBus.cutoff`).
-/

namespace FleetSync

namespace DurableBus

/-- A number as a 64-bit word with a sign. -/
def wrap (i : Int) : Int := i.bmod (Nat.pow 2 64)

/-- The largest 64-bit word with a sign. -/
def maxWord : Int := (Nat.pow 2 63 - 1 : Nat)

/-- The 64-bit word with a sign that is next to a number. -/
def saturate (i : Int) : Int := max (-maxWord - 1) (min i maxWord)

end DurableBus

/-- A message in the table. -/
structure StoredMessage where
  offset : Nat
  topic : String
  key : String
  payload : ByteArray
  attempts : Nat
  dueAt : Int
  ackedAt : Option Int
deriving DecidableEq, Inhabited

namespace StoredMessage

/-- Whether a message of a topic waits for its acknowledgement. -/
def isPending (m : StoredMessage) (topic : String) : Bool := m.topic == topic && m.ackedAt.isNone

/-- The message as handed out next. -/
def delivery (m : StoredMessage) : Delivery :=
  ⟨m.offset, m.topic, m.key, m.payload, Delivery.attemptWord (m.attempts + 1)⟩

/-- How long it takes until a message is due. -/
def wait (m : StoredMessage) (now : Int) : Int := DurableBus.wrap (m.dueAt - now)

end StoredMessage

/-- The table of messages, in the order of their offsets. -/
structure DurableBus where
  messages : List StoredMessage
  lastOffset : Nat
  backoff : Nat
deriving DecidableEq, Inhabited

namespace DurableBus

/-- The backoff of a bus that does not say. -/
def defaultBackoff : Nat := 1000

/-- The bus without messages. -/
def empty (backoff : Nat) : DurableBus := ⟨[], 0, backoff⟩

/-- The bus with the messages of an offset changed. -/
def modify (b : DurableBus) (offset : Nat) (f : StoredMessage → StoredMessage) : DurableBus :=
  { b with messages := b.messages.map fun m => if m.offset = offset then f m else m }

/-- Appends a message to a topic; gives its offset. -/
def publish (b : DurableBus) (now : Int) (topic key : String) (payload : ByteArray) :
    Nat × DurableBus :=
  let offset := b.lastOffset + 1
  (offset, { b with
    messages := b.messages ++ [⟨offset, topic, key, payload, 0, now, none⟩]
    lastOffset := offset })

/-- The first message of a topic that waits for its acknowledgement. -/
def head? (b : DurableBus) (topic : String) : Option StoredMessage :=
  b.messages.find? (·.isPending topic)

/-- When the first waiting message of a topic is due, from now on. -/
def dueTime (b : DurableBus) (now : Int) (topic : String) : Int :=
  (b.head? topic).elim now fun m => now + max 0 (m.wait now)

/-- Hands out the first waiting message of a topic if it is due. -/
def next? (b : DurableBus) (now : Int) (topic : String) : Option (Delivery × DurableBus) :=
  match b.head? topic with
  | some m =>
    if m.wait now ≤ 0 then
      some (m.delivery, b.modify m.offset fun m => { m with attempts := m.attempts + 1 })
    else none
  | none => none

/-- Acknowledges a delivery. -/
def ack (b : DurableBus) (now : Int) (d : Delivery) : DurableBus :=
  b.modify d.offset fun m => { m with ackedAt := some now }

/-- Gives a delivery back, to be handed out again later. -/
def nack (b : DurableBus) (now : Int) (d : Delivery) : DurableBus :=
  b.modify d.offset fun m => { m with dueAt := wrap (now + wrap (b.backoff * d.attempt)) }

/-- How many messages of a topic wait for their acknowledgement. -/
def pending (b : DurableBus) (topic : String) : Nat := b.messages.countP (·.isPending topic)

/-- The time that was some milliseconds ago. -/
def cutoff (now : Int) (age : Nat) : Int := saturate (now - min (age : Int) maxWord)

/-- Whether a message was acknowledged more than some milliseconds ago. -/
def isExpired (now : Int) (age : Nat) (m : StoredMessage) : Bool :=
  m.ackedAt.any fun at_ => decide (at_ < cutoff now age)

/-- Deletes the messages acknowledged more than some milliseconds ago; counts them. -/
def purge (b : DurableBus) (now : Int) (age : Nat) : Nat × DurableBus :=
  (b.messages.countP (isExpired now age),
    { b with messages := b.messages.filter (!isExpired now age ·) })

/-- Purges by an age in nanoseconds, of which the milliseconds count. -/
def purgeNanos (b : DurableBus) (now : Int) (age : Nat) : Nat × DurableBus :=
  b.purge now (age / 1000000)

/-- What an operation on a topic says once the table is gone. -/
def gone (operation topic : String) : OpError := .bus operation topic "the table is gone"

end DurableBus

end FleetSync
