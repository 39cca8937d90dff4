import FleetSync.Event.Basic
import FleetSync.Mapping.Index
import FleetSync.Store.Documents
import FleetSync.Wire.Bytes

/-!
# Calls

What an operation may ask of the world around it, one indivisible step at a time: the clock, a new
id, the permission service, the document store, the mapping index, the bus, the event channel. Each
call has its type of answers (`Call.Answer`); only the clock, ids and events never fail.
-/

namespace FleetSync

/-- A call of an operation. -/
inductive Call where
  | now
  | freshId
  | authorize (userId : String) (resource : ResourceRef) (permission : Permission)
  | insert (d : Document)
  | patchOne (collection : String) (filter : Filter) (patch : Patch)
  | findOne (collection : String) (filter : Filter)
  | find (collection : String) (filter : Filter)
  | deleteOne (collection : String) (filter : Filter)
  | deleteMany (collection : String) (filter : Filter)
  | upsert (m : Mapping)
  | resolve (s : Scope)
  | removeMapping (k : MappingKey)
  | removeScope (s : Scope)
  | reassignScope (s : Scope) (cluster : String)
  | publish (topic key : String) (payload : ByteArray)
  | emit (e : Event)
deriving DecidableEq, Inhabited

namespace Call

/-- The answers to a call. -/
abbrev Answer : Call → Type
  | now => Instant
  | freshId => String
  | authorize .. => Except OpError Bool
  | insert _ => Except OpError Unit
  | patchOne .. => Except OpError Bool
  | findOne .. => Except OpError (Option Json)
  | find .. => Except OpError (List Json)
  | deleteOne .. => Except OpError Bool
  | deleteMany .. => Except OpError Nat
  | upsert _ => Except OpError Unit
  | resolve _ => Except OpError (Option String)
  | removeMapping _ => Except OpError Nat
  | removeScope _ => Except OpError Nat
  | reassignScope .. => Except OpError Nat
  | publish .. => Except OpError Nat
  | emit _ => Unit

/-- The answer that a call failed; the clock, ids and events never do. -/
def failure? (e : OpError) : (c : Call) → Option c.Answer
  | now | freshId | emit _ => none
  | authorize .. | insert _ | patchOne .. | findOne .. | find .. | deleteOne .. | deleteMany ..
  | upsert _ | resolve _ | removeMapping _ | removeScope _ | reassignScope .. | publish .. =>
    some (.error e)

end Call

end FleetSync
