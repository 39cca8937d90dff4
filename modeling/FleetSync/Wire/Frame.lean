import FleetSync.Error
import FleetSync.Json.Printer
import FleetSync.Wire.Bytes
import FleetSync.Wire.Message

/-!
# Frames

A message on the bus is one frame: four bytes of payload length and two of message type, both big
end first, and the payload, a JSON text of at most `maxPayload` bytes. `Frame.ofBytes` reads a frame
off the front of some bytes and ignores what follows it.
-/

namespace FleetSync.Wire

/-- What a frame carries. -/
inductive MessageType where
  | dispatch
  | report
deriving DecidableEq, Repr, Inhabited

namespace MessageType

/-- The number of a message type. -/
def code : MessageType → Nat
  | dispatch => 1
  | report => 2

/-- The name of a message type. -/
def name : MessageType → String
  | dispatch => "Dispatch"
  | report => "Report"

end MessageType

/-- The most bytes a payload has. -/
def maxPayload : Nat := 4 * 1024 * 1024

/-- The bytes before a payload. -/
def headerSize : Nat := 6

/-- What is wrong with a frame. -/
inductive FrameError where
  | tooLarge (size : Nat)
  | invalidType (code : Nat)
  | incompleteHeader
  | incompletePayload
  | unexpectedType (expected actual : MessageType)
  | json
deriving DecidableEq, Repr, Inhabited

namespace FrameError

/-- The name of the kind of error. -/
def name : FrameError → String
  | tooLarge _ => "FrameTooLarge"
  | invalidType _ => "InvalidMessageType"
  | incompleteHeader | incompletePayload => "Incomplete"
  | unexpectedType .. => "UnexpectedType"
  | json => "Json"

/-- The text of the error. -/
def message : FrameError → String
  | tooLarge size => s!"frame too large: {size} bytes (max: {maxPayload})"
  | invalidType code => s!"invalid message type: {code}"
  | incompleteHeader => "incomplete frame: frame header"
  | incompletePayload => "incomplete frame: frame payload"
  | unexpectedType expected actual =>
    s!"unexpected message type: expected {expected.name}, got {actual.name}"
  | json => "JSON error: malformed payload"

/-- The error as one of an operation. -/
def toOpError (e : FrameError) : OpError := .frame e.message

end FrameError

/-- The message type of a number. -/
def MessageType.ofCode : Nat → Except FrameError MessageType
  | 1 => .ok .dispatch
  | 2 => .ok .report
  | n => .error (.invalidType n)

/-- A message on the bus. -/
structure Frame where
  type : MessageType
  payload : ByteArray
deriving DecidableEq, Inhabited

namespace Frame

/-- The frame of a message; its payload may not be too large. -/
def ofMessage (type : MessageType) (message : Json) : Except FrameError Frame :=
  let payload := message.bytes
  if maxPayload < payload.size then .error (.tooLarge payload.size) else .ok ⟨type, payload⟩

/-- The frame of an envelope. -/
def ofEnvelope (e : Envelope) : Except FrameError Frame := ofMessage .dispatch e.encode

/-- The frame of a report. -/
def ofReport (r : Report) : Except FrameError Frame := ofMessage .report r.encode

/-- Reads the payload of a frame. -/
def decode {α : Type} (d : Decoder α) (f : Frame) : Except FrameError α :=
  (d.ofBytes? f.payload).elim (.error .json) .ok

/-- Checks what a frame carries. -/
def expect (expected : MessageType) (f : Frame) : Except FrameError Unit :=
  if f.type = expected then .ok () else .error (.unexpectedType expected f.type)

/-- The envelope in a frame. -/
def toEnvelope (f : Frame) : Except FrameError Envelope := do
  f.expect .dispatch
  f.decode Envelope.decode

/-- The report in a frame. -/
def toReport (f : Frame) : Except FrameError Report := do
  f.expect .report
  f.decode Report.decode

/-- The byte of weight `256 ^ place` of a number. -/
def byte (n place : Nat) : UInt8 := .ofNat (n / Nat.pow 256 place % 256)

/-- The bytes before a payload of a size and a type. -/
def headerOf (size type : Nat) : List UInt8 :=
  [byte size 3, byte size 2, byte size 1, byte size 0, byte type 1, byte type 0]

/-- The bytes before the payload. -/
def header (f : Frame) : List UInt8 := headerOf f.payload.size f.type.code

/-- A frame as bytes. -/
def toBytes (f : Frame) : ByteArray := ⟨(f.header ++ f.payload.data.toList).toArray⟩

/-- The number that bytes write, big end first. -/
def number (bytes : List UInt8) : Nat := bytes.foldl (fun n b => n * 256 + b.toNat) 0

/-- Reads a frame off the front of some bytes. -/
def ofBytes (bytes : ByteArray) : Except FrameError Frame :=
  match (bytes.extract 0 headerSize).data.toList with
  | [a, b, c, d, t, u] => do
    let length := number [a, b, c, d]
    let type ← MessageType.ofCode (number [t, u])
    if maxPayload < length then .error (.tooLarge length)
    else if bytes.size - headerSize < length then .error .incompletePayload
    else .ok ⟨type, bytes.extract headerSize (headerSize + length)⟩
  | _ => .error .incompleteHeader

end Frame

end FleetSync.Wire
