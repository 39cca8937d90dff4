import FleetSync.Store.Label

/-!
# Bodies of documents

A document is stored as text, and a `Body` is that text by its parts: a JSON value whose fields
carry their labels as they are written, in their order. The store can read a body whose labels are
sound and that does not nest too deep (`Body.isReadable`). Outside, a body is the value that its
text reads as (`Body.value?`): names may have to be told apart, every binary64 number is read from
its decimal text, and fewer levels are read.
-/

namespace FleetSync

/-- The body of a stored document. -/
inductive Body where
  | null
  | bool (b : Bool)
  | num (n : Number)
  | str (s : String)
  | arr (items : List Body)
  | obj (fields : List (Label × Body))
deriving Repr, Inhabited

/-- The number that the text of a number reads as. -/
def Number.reread? : Number → Option Number
  | .int i => some (.int i)
  | .float x => do
    let (literal, _) ← Json.lexLiteral (x.text.map some)
    literal.number?

namespace Body

/-- How deep a body may nest for the store to read it. -/
def maxDepth : Nat := 1000

mutual

/-- The body of a value. -/
def ofJson : Json → Body
  | .null => .null
  | .bool b => .bool b
  | .num n => .num n
  | .str s => .str s
  | .arr items => .arr (ofItems items)
  | .obj fields => .obj (ofFields fields)

/-- `ofJson` on the items of an array. -/
def ofItems : List Json → List Body
  | [] => []
  | j :: rest => ofJson j :: ofItems rest

/-- `ofJson` on the fields of an object. -/
def ofFields : List (String × Json) → List (Label × Body)
  | [] => []
  | (k, j) :: rest => (.ofName k, ofJson j) :: ofFields rest

end

/-- Writes a label between quotes before `rest`. -/
def writeLabel (l : Label) (rest : List Char) : List Char := '"' :: (l.written ++ '"' :: rest)

mutual

/-- Writes a body before `rest`. -/
def write : Body → List Char → List Char
  | .null, rest => Json.null.write rest
  | .bool b, rest => (Json.bool b).write rest
  | .num n, rest => (Json.num n).write rest
  | .str s, rest => (Json.str s).write rest
  | .arr [], rest => '[' :: ']' :: rest
  | .arr (b :: items), rest => '[' :: b.write (writeItems items rest)
  | .obj [], rest => '{' :: '}' :: rest
  | .obj ((l, b) :: fields), rest => '{' :: writeLabel l (':' :: b.write (writeFields fields rest))

/-- Writes the further items of an array, its end and `rest`. -/
def writeItems : List Body → List Char → List Char
  | [], rest => ']' :: rest
  | b :: items, rest => ',' :: b.write (writeItems items rest)

/-- Writes the further fields of an object, its end and `rest`. -/
def writeFields : List (Label × Body) → List Char → List Char
  | [], rest => '}' :: rest
  | (l, b) :: fields, rest => ',' :: writeLabel l (':' :: b.write (writeFields fields rest))

end

/-- The text of a body. -/
def text (b : Body) : String := String.ofList (b.write [])

mutual

/-- Whether a body that may nest `levels` deep can be read by the store. -/
def readableAt (levels : Nat) : Body → Bool
  | .null | .bool _ | .num _ | .str _ => true
  | .arr items => match levels with
    | 0 => false
    | l + 1 => itemsReadable l items
  | .obj fields => match levels with
    | 0 => false
    | l + 1 => fieldsReadable l fields

/-- `readableAt` on the items of an array. -/
def itemsReadable (levels : Nat) : List Body → Bool
  | [] => true
  | b :: rest => b.readableAt levels && itemsReadable levels rest

/-- `readableAt` on the fields of an object. -/
def fieldsReadable (levels : Nat) : List (Label × Body) → Bool
  | [] => true
  | (l, b) :: rest => l.isSound && b.readableAt levels && fieldsReadable levels rest

end

/-- Whether the store can read a body. -/
def isReadable (b : Body) : Bool := b.readableAt maxDepth

mutual

/-- The body with its labels as JSON writes them. -/
def rewritten? : Body → Option Body
  | .arr items => (rewrittenItems? items).map .arr
  | .obj fields => (rewrittenFields? fields).map .obj
  | b => some b

/-- `rewritten?` on the items of an array. -/
def rewrittenItems? : List Body → Option (List Body)
  | [] => some []
  | b :: rest => do return (← b.rewritten?) :: (← rewrittenItems? rest)

/-- `rewritten?` on the fields of an object. -/
def rewrittenFields? : List (Label × Body) → Option (List (Label × Body))
  | [] => some []
  | (l, b) :: rest => do return ((← l.rewritten?), ← b.rewritten?) :: (← rewrittenFields? rest)

end

mutual

/-- What the text of a body says. -/
def toNode : Body → Json.Node
  | .null => .null
  | .bool b => .bool b
  | .num n => .num n.reread?
  | .str s => .str (some s)
  | .arr items => .arr (itemNodes items)
  | .obj fields => .obj (fieldNodes fields)

/-- `toNode` on the items of an array. -/
def itemNodes : List Body → List Json.Node
  | [] => []
  | b :: rest => b.toNode :: itemNodes rest

/-- `toNode` on the fields of an object. -/
def fieldNodes : List (Label × Body) → List (Option String × Json.Node)
  | [] => []
  | (l, b) :: rest => (l.name?, b.toNode) :: fieldNodes rest

end

/-- The value that the text of a body reads as. -/
def value? (b : Body) : Option Json := b.toNode.value? Json.maxNesting

end Body

end FleetSync
