import FleetSync.Event.Basic

/-!
# The channel of events

Events are sent to whoever subscribed before. The channel keeps as many of them as it has room for,
and a subscriber that falls behind learns how many it lost (`Received.lagged`) and goes on with the
oldest that is left.
-/

namespace FleetSync

/-- The events sent, of which only the last ones are kept. -/
structure EventChannel where
  capacity : Nat
  sent : Nat
  kept : List Event
  isOpen : Bool
deriving DecidableEq, Repr, Inhabited

/-- What a subscriber receives. -/
inductive Received where
  | event (e : Event)
  | lagged (lost : Nat)
  | closed
deriving DecidableEq, Repr, Inhabited

namespace EventChannel

/-- The room of a channel that does not say. -/
def defaultRoom : Nat := 1024

/-- A channel with room for at least so many events, and for at least one; the room is a power of
two. -/
def ofRoom (room : Nat) : EventChannel := ⟨(max room 1).nextPowerOfTwo, 0, [], true⟩

/-- Sends an event. -/
def send (c : EventChannel) (e : Event) : EventChannel :=
  let kept := c.kept ++ [e]
  { c with sent := c.sent + 1, kept := kept.drop (kept.length - c.capacity) }

theorem length_kept_send (c : EventChannel) (e : Event) :
    (c.send e).kept.length = min (c.kept.length + 1) c.capacity := by
  simp [send]
  omega

/-- Where a new subscriber starts. -/
def tail (c : EventChannel) : Nat := c.sent

/-- The place of the oldest event that is left. -/
def oldest (c : EventChannel) : Nat := c.sent - c.kept.length

/-- What a subscriber at a place receives next, and its place after that. -/
def receive (c : EventChannel) (place : Nat) : Option (Received × Nat) :=
  if place < c.oldest then some (.lagged (c.oldest - place), c.oldest)
  else match c.kept[place - c.oldest]? with
    | some e => some (.event e, place + 1)
    | none => none

/-- What a subscriber at a place receives, at most so many things, and its place after that. That
the channel is closed is the last thing it receives. -/
def drain (c : EventChannel) : Nat → Nat → List Received × Nat
  | 0, place => ([], place)
  | limit + 1, place => match c.receive place with
    | some (r, place) => let (rest, place) := c.drain limit place; (r :: rest, place)
    | none => (if c.isOpen then [] else [.closed], place)

/-- The most a subscriber receives at once. -/
def backlog (c : EventChannel) : Nat := c.kept.length + 2

end EventChannel

end FleetSync
