import FleetSync.Bus.Delivery
import FleetSync.Json.Basic

/-!
# The bus in memory

Each topic is a log that is only appended to, and the offset of a message is its place in the log. A
subscription reads the log from its start at a pace of its own. It forgets what it handed out unless
it is given back (`MemorySubscription.nack`): that comes before anything new.
-/

namespace FleetSync

/-- The logs of the topics that were published to, subscribed to or looked at. -/
structure MemoryBus where
  topics : List (String × List Delivery)
deriving DecidableEq, Inhabited

namespace MemoryBus

/-- The bus without topics. -/
def empty : MemoryBus := ⟨[]⟩

/-- What was published to a topic, in order. -/
def log (b : MemoryBus) (topic : String) : List Delivery := (Fields.get? topic b.topics).getD []

/-- The bus with a topic, empty if it is new. -/
def withTopic (b : MemoryBus) (topic : String) : MemoryBus :=
  ⟨Fields.alter topic (·.getD []) b.topics⟩

/-- Appends a message to a topic; gives its offset. -/
def publish (b : MemoryBus) (topic key : String) (payload : ByteArray) : Nat × MemoryBus :=
  let offset := (b.log topic).length
  (offset, ⟨Fields.alter topic (·.getD [] ++ [⟨offset, topic, key, payload, 1⟩]) b.topics⟩)

theorem log_publish (b : MemoryBus) (topic key t : String) (payload : ByteArray) :
    (b.publish topic key payload).2.log t =
      b.log t ++ if t = topic then [⟨(b.log topic).length, topic, key, payload, 1⟩] else [] := by
  by_cases h : t = topic <;> simp [publish, log, Fields.get?_alter, h]

/-- The names of the topics, in order. -/
def topicNames (b : MemoryBus) : List String :=
  (b.topics.map (·.1)).mergeSort fun s t => decide (s ≤ t)

/-- What was published since an earlier state, topic by topic. -/
def since (b earlier : MemoryBus) : List Delivery :=
  b.topicNames.flatMap fun t => (b.log t).drop (earlier.log t).length

end MemoryBus

/-- How far a subscriber of a topic is, and what it gave back. -/
structure MemorySubscription where
  topic : String
  cursor : Nat
  returned : List Delivery
deriving DecidableEq, Inhabited

namespace MemorySubscription

/-- A subscription at the start of a topic. -/
def start (topic : String) : MemorySubscription := ⟨topic, 0, []⟩

/-- The next delivery, if there is one. -/
def next? (s : MemorySubscription) (b : MemoryBus) : Option (Delivery × MemorySubscription) :=
  match s.returned with
  | d :: rest => some (d, { s with returned := rest })
  | [] => (b.log s.topic)[s.cursor]?.map fun d => (d, { s with cursor := s.cursor + 1 })

/-- Gives a delivery back, to be handed out once more. -/
def nack (s : MemorySubscription) (d : Delivery) : MemorySubscription :=
  { s with returned := s.returned ++ [d.again] }

end MemorySubscription

end FleetSync
