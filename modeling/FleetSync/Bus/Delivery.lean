import FleetSync.Wire.Bytes

/-!
# Deliveries

What a subscriber of a topic is handed: the message, its place in the bus and how often it was
handed out. That is a 32-bit word, and counting on from the largest one starts with nothing again.
-/

namespace FleetSync

/-- A message as handed to a subscriber. -/
structure Delivery where
  offset : Nat
  topic : String
  key : String
  payload : ByteArray
  attempt : Nat
deriving DecidableEq, Inhabited

namespace Delivery

/-- A count of attempts as a 32-bit word. -/
def attemptWord (n : Nat) : Nat := n % Nat.pow 2 32

/-- The delivery handed out once more. -/
def again (d : Delivery) : Delivery := { d with attempt := attemptWord (d.attempt + 1) }

end Delivery

end FleetSync
