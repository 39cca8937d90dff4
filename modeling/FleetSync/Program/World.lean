import FleetSync.Bus.Memory
import FleetSync.Program.Basic

/-!
# The world of a control plane

The state that the calls of operations read and change, and how each call is answered there
(`World.answer`). A call that fails changes nothing.
-/

namespace FleetSync

/-- The documents, mappings, messages and events of a control plane, and its clock. -/
structure World where
  documents : DocumentStore
  mappings : MappingIndex
  bus : MemoryBus
  events : List Event
  clock : Instant
  idsGiven : Nat
deriving Inhabited

namespace World

/-- The world before anything happened. -/
def empty (clock : Instant) : World := ⟨.empty, .empty, .empty, [], clock, 0⟩

/-- The least digits of an id after its fixed part. -/
def idDigits : Nat := 12

/-- The id that is given after so many others. -/
def idText (given : Nat) : String :=
  let digits := Nat.toDigits 16 (given + 1)
  let zeros := List.replicate (idDigits - digits.length) '0'
  "7d1c52a0-5e9b-4f36-8a41-" ++ String.ofList (zeros ++ digits)

/-- Whether characters are groups of hexadecimal digits between dashes. -/
def isDashed (cs : List Char) : Bool :=
  cs.length == 36 && cs.zipIdx.all fun (c, i) =>
    if [8, 13, 18, 23].contains i then c == '-' else (Json.hexValue? c).isSome

/-- Whether a text has the form of an id: hexadecimal digits, with dashes between groups of them or
without, of which one says that the others are random. With dashes it may stand in braces or after a
word for what it is. -/
def isIdText (s : String) : Bool :=
  let cs := s.toList
  let word := "urn:uuid:".toList
  if cs.length = 32 then cs.all (fun c => (Json.hexValue? c).isSome) && cs[12]? == some '4'
  else
    let inner :=
      if cs.head? == some '{' && cs.getLast? == some '}' then cs.tail.dropLast
      else if word.isPrefixOf cs then cs.drop word.length
      else cs
    isDashed inner && inner[14]? == some '4'

/-- Answers a call, as far as permissions go by a checker. -/
def answer (checker : Checker) (c : Call) (w : World) : c.Answer × World :=
  match c with
  | .now => (w.clock, w)
  | .freshId => (idText w.idsGiven, { w with idsGiven := w.idsGiven + 1 })
  | .authorize userId resource permission => (checker userId resource permission, w)
  | .insert d => match w.documents.insert d with
    | .ok documents => (.ok (), { w with documents })
    | .error e => (.error e, w)
  | .patchOne collection filter patch => match w.documents.patchOne collection filter patch with
    | .ok (hit, documents) => (.ok hit, { w with documents })
    | .error e => (.error e, w)
  | .findOne collection filter => (w.documents.findOne collection filter, w)
  | .find collection filter => (w.documents.find collection filter, w)
  | .deleteOne collection filter => match w.documents.deleteOne collection filter with
    | .ok (hit, documents) => (.ok hit, { w with documents })
    | .error e => (.error e, w)
  | .deleteMany collection filter => match w.documents.deleteMany collection filter with
    | .ok (n, documents) => (.ok n, { w with documents })
    | .error e => (.error e, w)
  | .upsert m => match w.mappings.upsert m with
    | .ok mappings => (.ok (), { w with mappings })
    | .error e => (.error e, w)
  | .resolve s => (.ok (w.mappings.resolve s), w)
  | .removeMapping k =>
    let (n, mappings) := w.mappings.remove k
    (.ok n, { w with mappings })
  | .removeScope s =>
    let (n, mappings) := w.mappings.removeScope s
    (.ok n, { w with mappings })
  | .reassignScope s cluster =>
    let (n, mappings) := w.mappings.reassign s cluster
    (.ok n, { w with mappings })
  | .publish topic key payload =>
    let (offset, bus) := w.bus.publish topic key payload
    (.ok offset, { w with bus })
  | .emit e => ((), { w with events := w.events ++ [e] })

end World

end FleetSync
