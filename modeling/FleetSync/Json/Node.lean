import FleetSync.Json.Basic

/-!
# Nodes of JSON text

A `Node` is what well-formed JSON text says before it is given a meaning: repeated keys are kept, a
string with a lone surrogate or stray bytes is `str none`, and a number too large for binary64 is
`num none`. What is skipped need not have a value; what is used must, and may nest only so deep
(`Node.isReadable`, `Node.valueWith`).

An object may hold a value as a text of its own: its first key says so, and then it has no other
(`embedded?`). As a value it is whatever the text reads as.
-/

namespace FleetSync.Json

/-- A parsed JSON text. -/
inductive Node where
  | null
  | bool (b : Bool)
  | num (n : Option Number)
  | str (s : Option String)
  | arr (items : List Node)
  | obj (fields : List (Option String × Node))
deriving Repr, Inhabited

/-- How deep a text may nest where it is given a meaning. -/
def maxNesting : Nat := 127

/-- The key of an object that holds a value as a text. -/
def embeddingKey : String := "$serde_json::private::RawValue"

/-- The text that an object holds a value as; inside, `none` if it ought to hold one. -/
def embedded? : List (Option String × Node) → Option (Option String)
  | (some key, n) :: rest =>
    if key = embeddingKey then
      match n, rest with
      | .str s, [] => some s
      | _, _ => some none
    else none
  | _ => none

mutual

/-- Whether everything in a node that may nest `levels` deep can be read. -/
def Node.isReadable (levels : Nat) : Node → Bool
  | .null | .bool _ => true
  | .num n => n.isSome
  | .str s => s.isSome
  | .arr items => match levels with
    | 0 => false
    | l + 1 => Node.areReadable l items
  | .obj fields => match levels with
    | 0 => false
    | l + 1 => Node.fieldsReadable l fields

/-- `Node.isReadable` on the items of an array. -/
def Node.areReadable (levels : Nat) : List Node → Bool
  | [] => true
  | n :: rest => n.isReadable levels && Node.areReadable levels rest

/-- `Node.isReadable` on the fields of an object. -/
def Node.fieldsReadable (levels : Nat) : List (Option String × Node) → Bool
  | [] => true
  | (k, n) :: rest => k.isSome && n.isReadable levels && Node.fieldsReadable levels rest

end

mutual

/-- The value of a node that may nest `levels` deep: fields sorted, the last of equal keys kept,
texts that hold values read by `read`. -/
def Node.valueWith (read : String → Option Json) (levels : Nat) : Node → Option Json
  | .null => some .null
  | .bool b => some (.bool b)
  | .num n => n.map .num
  | .str s => s.map .str
  | .arr items => match levels with
    | 0 => none
    | l + 1 => (Node.valuesWith read l items).map .arr
  | .obj fields => match levels with
    | 0 => none
    | l + 1 => match embedded? fields with
      | some text => text.bind read
      | none => (Node.fieldsWith read l fields).map fun fs => .obj (Fields.ofList fs)

/-- `Node.valueWith` on the items of an array. -/
def Node.valuesWith (read : String → Option Json) (levels : Nat) : List Node → Option (List Json)
  | [] => some []
  | n :: rest => do return (← n.valueWith read levels) :: (← Node.valuesWith read levels rest)

/-- `Node.valueWith` on the fields of an object. -/
def Node.fieldsWith (read : String → Option Json) (levels : Nat) :
    List (Option String × Node) → Option (List (String × Json))
  | [] => some []
  | (k, n) :: rest => do
    return ((← k), ← n.valueWith read levels) :: (← Node.fieldsWith read levels rest)

end

mutual

/-- A value as a node. -/
def toNode : Json → Node
  | .null => .null
  | .bool b => .bool b
  | .num n => .num (some n)
  | .str s => .str (some s)
  | .arr items => .arr (itemNodes items)
  | .obj fields => .obj (fieldNodes fields)

/-- `toNode` on the items of an array. -/
def itemNodes : List Json → List Node
  | [] => []
  | j :: rest => j.toNode :: itemNodes rest

/-- `toNode` on the fields of an object. -/
def fieldNodes : List (String × Json) → List (Option String × Node)
  | [] => []
  | (k, j) :: rest => (some k, j.toNode) :: fieldNodes rest

end

end FleetSync.Json
