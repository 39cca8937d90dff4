import FleetSync.Bus.Inbox

/-!
# The consumer of reports

It takes one delivery after the other and settles each of them: what was taken in, and what can
never be, is acknowledged; what may succeed later is given back until its attempts are used up
(`Consumer.settlement`). That the inbox fails keeps it from nothing.
-/

namespace FleetSync

/-- What becomes of a delivery. -/
inductive Settlement where
  | ack
  | nack
deriving DecidableEq, Repr, Inhabited

/-- The name of a settlement. -/
def Settlement.name : Settlement → String
  | ack => "ack"
  | nack => "nack"

namespace Consumer

/-- How often a report is delivered to a consumer that does not say. -/
def defaultAttempts : Nat := 10

/-- What becomes of a delivery, after what came of taking it in. -/
def settlement {α : Type} (maxAttempts attempt : Nat) : Except OpError α → Settlement
  | .ok _ => .ack
  | .error e => if e.isTransient ∧ attempt < max maxAttempts 1 then .nack else .ack

/-- The deliveries settled, with what became of each, and the states after that. -/
structure Outcome (β σ : Type) where
  settled : List (Settlement × Delivery)
  bus : β
  world : σ

variable {α β σ : Type}

/-- Takes in and settles deliveries until the inbox has none left, for so many turns at most. -/
def run (inbox : Inbox β) (ingest : ByteArray → σ → Except OpError α × σ) (maxAttempts : Nat) :
    Nat → β → σ → Outcome β σ
  | 0, bus, world => ⟨[], bus, world⟩
  | turns + 1, bus, world => match inbox.next bus with
    | (.error _, bus) => run inbox ingest maxAttempts turns bus world
    | (.ok none, bus) => ⟨[], bus, world⟩
    | (.ok (some d), bus) =>
      let (result, world) := ingest d.payload world
      let s := settlement maxAttempts d.attempt result
      let (_, bus) := match s with
        | .ack => inbox.ack d bus
        | .nack => inbox.nack d bus
      let rest := run inbox ingest maxAttempts turns bus world
      { rest with settled := (s, d) :: rest.settled }

/-- As many turns as it takes to settle some messages with an inbox that fails some times. -/
def turns (messages maxAttempts failures : Nat) : Nat :=
  messages * max maxAttempts 1 + failures + 1

end Consumer

end FleetSync
