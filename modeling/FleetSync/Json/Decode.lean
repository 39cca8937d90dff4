import FleetSync.Json.Reader
import FleetSync.Time.Text

/-!
# Decoding typed values

A `Decoder` reads a node that may nest a number of levels. A record is an object, or an array of its
fields in order (`Decoder.record`); fields it does not know are skipped. Of several faults in a
record the one written first is reported, and a missing field only when nothing else is wrong
(`Checked.ap`). A tagged value carries the name of its variant in one of its fields
(`Decoder.tagged`).
-/

namespace FleetSync

/-- Why a node is not the value asked for. -/
inductive DecodeError where
  | unknownVariant (found : String) (expected : List String)
  | malformed
deriving DecidableEq, Repr, Inhabited

namespace DecodeError

/-- A name between backticks. -/
def quoted (s : String) : String := "`" ++ s ++ "`"

/-- The names a variant may have, in words. -/
def alternatives : List String → String
  | [a] => quoted a
  | [a, b] => quoted a ++ " or " ++ quoted b
  | names => "one of " ++ ", ".intercalate (names.map quoted)

/-- The text of the error. -/
def message : DecodeError → String
  | .unknownVariant found expected =>
    "unknown variant " ++ quoted found ++ ", expected " ++ alternatives expected
  | .malformed => "malformed value"

end DecodeError

/-- Reads a value from a node that may nest so many levels. -/
abbrev Decoder (α : Type) := Nat → Json.Node → Except DecodeError α

namespace Decoder

variable {α : Type}

/-- A string. -/
def text : Decoder String
  | _, .str (some s) => .ok s
  | _, _ => .error .malformed

/-- A truth value. -/
def bool : Decoder Bool
  | _, .bool b => .ok b
  | _, _ => .error .malformed

/-- An integer from `low` to `high`. -/
def int (low high : Int) : Decoder Int
  | _, .num (some (.int i)) => if low ≤ i ∧ i ≤ high then .ok i else .error .malformed
  | _, _ => .error .malformed

/-- A signed 64-bit integer. -/
def int64 : Decoder Int := int (-(Nat.pow 2 63 : Int)) (Nat.pow 2 63 - 1 : Nat)

/-- An unsigned 16-bit integer. -/
def uint16 : Decoder UInt16 := fun l n =>
  (int 0 (Nat.pow 2 16 - 1 : Nat) l n).map fun i => .ofNat i.toNat

/-- An unsigned 32-bit integer. -/
def uint32 : Decoder UInt32 := fun l n =>
  (int 0 (Nat.pow 2 32 - 1 : Nat) l n).map fun i => .ofNat i.toNat

/-- An instant, as text. -/
def instant : Decoder Instant
  | _, .str (some s) => (Instant.ofText? s).elim (.error .malformed) .ok
  | _, _ => .error .malformed

/-- Any value. -/
def json : Decoder Json := fun l n => (n.value? l).elim (.error .malformed) .ok

/-- A value or `null`. -/
def nullable (d : Decoder α) : Decoder (Option α)
  | _, .null => .ok none
  | l, n => (d l n).map some

/-- An array. -/
def list (d : Decoder α) : Decoder (List α)
  | l + 1, .arr items => items.mapM (d l)
  | _, _ => .error .malformed

/-- An object of strings; of equal keys the last one counts. -/
def strings : Decoder (SortedMap String)
  | l + 1, .obj fields => do
    let pairs ← fields.mapM fun (k, n) => do
      return ((← k.elim (.error .malformed) .ok), ← text l n)
    return .ofList pairs
  | _, _ => .error .malformed

/-- The variant of a name. -/
def variant (variants : List (String × α)) (name : String) : Except DecodeError α :=
  match Fields.get? name variants with
  | some a => .ok a
  | none => .error (.unknownVariant name (variants.map (·.1)))

/-- One of several names, as a string or as the key of an object that holds `null`. -/
def choice (variants : List (String × α)) : Decoder α
  | _, .str (some s) => variant variants s
  | _ + 1, .obj [(some s, n)] => do
    let a ← variant variants s
    match n with
    | .null => return a
    | _ => .error .malformed
  | _, _ => .error .malformed

end Decoder

/-! ## Records -/

/-- A fault of a record, with the place it was met at. -/
structure Flaw where
  place : Nat
  error : DecodeError
deriving DecidableEq, Repr

/-- A value, or the first of the faults met. -/
inductive Checked (α : Type) where
  | ok (a : α)
  | flaw (f : Flaw)
deriving DecidableEq, Repr

namespace Checked

variable {α β : Type}

/-- Applies a function to an argument; of two faults the one met first stays. -/
def ap : Checked (α → β) → Checked α → Checked β
  | .ok f, .ok a => .ok (f a)
  | .ok _, .flaw e => .flaw e
  | .flaw e, .ok _ => .flaw e
  | .flaw e, .flaw e' => .flaw (if e'.place < e.place then e' else e)

/-- Applies a function to the value. -/
def map (f : α → β) : Checked α → Checked β
  | .ok a => .ok (f a)
  | .flaw e => .flaw e

instance : Applicative Checked where
  pure := .ok
  map := map
  seq f a := ap f (a ())

/-- The value, or the error of the fault. -/
def toExcept : Checked α → Except DecodeError α
  | .ok a => .ok a
  | .flaw e => .error e.error

@[simp] theorem pure_eq (a : α) : (pure a : Checked α) = .ok a := rfl

@[simp] theorem map_ok (f : α → β) (a : α) : (f <$> (.ok a : Checked α)) = .ok (f a) := rfl

@[simp] theorem seq_ok (f : α → β) (a : α) :
    ((.ok f : Checked (α → β)) <*> (.ok a : Checked α)) = .ok (f a) := rfl

end Checked

/-- The fields of a record as they were given. -/
structure Record where
  named : Bool
  fields : List (String × (Nat × Json.Node))
  size : Nat
  levels : Nat
deriving Repr

namespace Record

variable {α β : Type}

/-- The fault of a field that is missing. -/
def missing (r : Record) : Flaw := ⟨r.size, .malformed⟩

/-- Decodes a field, or takes a result for a missing one. -/
def field (r : Record) (name : String) (d : Decoder α) (absent : Checked α) : Checked α :=
  match Fields.get? name r.fields with
  | none => absent
  | some (place, n) =>
    match d r.levels n with
    | .ok a => .ok a
    | .error error => .flaw ⟨place, error⟩

/-- A field that must be given. -/
def required (r : Record) (name : String) (d : Decoder α) : Checked α :=
  r.field name d (.flaw r.missing)

/-- A field with a value of its own where it is missing. -/
def defaulted (r : Record) (name : String) (value : α) (d : Decoder α) : Checked α :=
  r.field name d (.ok value)

/-- A field that may be `null`, and may be missing in an object but not in an array. -/
def optional (r : Record) (name : String) (d : Decoder α) : Checked (Option α) :=
  r.field name (Decoder.nullable d) (if r.named then .ok none else .flaw r.missing)

/-- A field that may be `null` or missing. -/
def nullable (r : Record) (name : String) (d : Decoder α) : Checked (Option α) :=
  r.defaulted name none (Decoder.nullable d)

/-- The known fields of an object with their places; a key without a value of its own or a known
key met twice is an error. -/
def ofFields? (names : List String) :
    List (Option String × Json.Node) → Nat → Option (List (String × (Nat × Json.Node)))
  | [], _ => some []
  | (none, _) :: _, _ => none
  | (some k, n) :: rest, place => do
    let known ← ofFields? names rest (place + 1)
    if names.contains k then
      if (Fields.get? k known).isSome then none else return (k, (place, n)) :: known
    else return known

/-- The fields of an array, named in order. -/
def ofItems (names : List String) (items : List Json.Node) : List (String × (Nat × Json.Node)) :=
  names.zip (items.zipIdx.map fun (n, i) => (i, n))

end Record

namespace Decoder

variable {α : Type}

/-- A record with the given field names, built from its fields. -/
def record (names : List String) (make : Record → Checked α) : Decoder α
  | l + 1, .obj fields =>
    match Record.ofFields? names fields 0 with
    | none => .error .malformed
    | some known => (make ⟨true, known, fields.length, l⟩).toExcept
  | l + 1, .arr items => do
    let a ← (make ⟨false, Record.ofItems names items, items.length, l⟩).toExcept
    if names.length < items.length then .error .malformed else return a
  | _, _ => .error .malformed

/-- Nothing: an object, whatever it holds, or an empty array. -/
def unit (a : α) : Decoder α
  | _ + 1, .obj _ => .ok a
  | _ + 1, .arr [] => .ok a
  | _, _ => .error .malformed

/-- A value whose variant is named by the field `tag`, or by the first item of an array. -/
def tagged (tag : String) (variants : List (String × Decoder α)) : Decoder α
  | l + 1, .obj fields =>
    match fields.partition (·.1 == some tag) with
    | ([(_, .str (some name))], rest) =>
      if Json.Node.fieldsReadable l rest then do (← variant variants name) (l + 1) (.obj rest)
      else .error .malformed
    | _ => .error .malformed
  | l + 1, .arr (.str (some name) :: rest) =>
    if Json.Node.areReadable l rest then do
      (← variant variants name) (l + 1) (.arr rest)
    else .error .malformed
  | _, _ => .error .malformed

/-- Decodes a value that is already read. -/
def ofJson (d : Decoder α) (j : Json) : Except DecodeError α := d Json.maxNesting j.toNode

/-- Decodes a text. -/
def ofText? (d : Decoder α) (s : String) : Option α := do
  (d Json.maxNesting (← Json.Node.ofText? s)).toOption

/-- Decodes a text in bytes. -/
def ofBytes? (d : Decoder α) (bytes : ByteArray) : Option α := do
  (d Json.maxNesting (← Json.Node.ofBytes? bytes)).toOption

end Decoder

end FleetSync
