import FleetSync.Store.Path

/-!
# Filters

A filter is a conjunction of conditions on the fields of a document. Fields are compared as scalars
(`Scalar.ofBody`): truth values are the numbers 1 and 0, a missing field is `null`, an array or
object is its compact text, and numbers are equal if their values are.

Conditions are looked at in order until one does not hold. That fails on a body or value that
cannot be read and on a path that leads astray (`Filter.holds?`). As an expression a filter is so
high (`Filter.height`), and expressions have a limit.
-/

namespace FleetSync

/-- A value as conditions compare it. -/
inductive Scalar where
  | null
  | int (i : Int)
  | real (x : Binary64)
  | text (s : String)
deriving DecidableEq, Repr, Inhabited

namespace Scalar

/-- An integer as a scalar: beyond 64 signed bits it is the nearest real number. -/
def ofInt (i : Int) : Scalar :=
  if -(Nat.pow 2 63 : Int) ≤ i ∧ i < Nat.pow 2 63 then .int i
  else ((Binary64.ofNat? i.natAbs).map fun x => .real { x with negative := i < 0 }).getD (.int i)

/-- A value as a scalar. -/
def ofBody : Body → Scalar
  | .null => .null
  | .bool b => .int (if b then 1 else 0)
  | .num (.int i) => ofInt i
  | .num (.float x) => .real x
  | .str s => .text s
  | b => .text b.text

/-- Whether two scalars are equal. -/
def same : Scalar → Scalar → Bool
  | .null, .null => true
  | .int a, .int b => a == b
  | .int a, .real y => y.equalsInt a
  | .real x, .int b => x.equalsInt b
  | .real x, .real y => x.sameValue y
  | .text s, .text t => s == t
  | _, _ => false

end Scalar

/-- A condition on a document. -/
inductive Condition where
  | eq (path : Path) (value : Json)
  | ne (path : Path) (value : Json)
  | present (path : Path) (wanted : Bool)
  | oneOf (path : Path) (values : List Json)
deriving DecidableEq, Repr, Inhabited

namespace Condition

/-- The path of the field that a condition is about. -/
def path : Condition → Path
  | .eq path _ | .ne path _ | .present path _ | .oneOf path _ => path

/-- The body of what a condition compares with. -/
def operand : Condition → Body
  | .eq _ value | .ne _ value => .ofJson value.canonical
  | .present .. => .null
  | .oneOf _ values => .ofJson (Json.arr values).canonical

/-- Whether a condition is met by what is at its path. A field that is `null` is never one of some
values. -/
def holdsOf (c : Condition) (found : Option Body) : Bool :=
  let s := (found.map Scalar.ofBody).getD .null
  match c, c.operand with
  | .eq .., value => s.same (.ofBody value)
  | .ne .., value => !s.same (.ofBody value)
  | .present _ wanted, _ => (s != .null) == wanted
  | .oneOf .., .arr values => s != .null && values.any fun v => s.same (.ofBody v)
  | .oneOf .., _ => false

/-- Whether a document meets a condition, if that can be told. -/
def holds? (c : Condition) (b : Body) : Option Bool :=
  if b.isReadable && c.operand.isReadable then (b.at? c.path).found?.map c.holdsOf else none

/-- The height of the expression of a condition. -/
def height : Condition → Nat
  | .eq .. | .ne .. | .oneOf .. => 3
  | .present .. => 4

/-- Whether a condition asks a list. -/
def asksList : Condition → Bool
  | .oneOf .. => true
  | .eq .. | .ne .. | .present .. => false

end Condition

/-- A conjunction of conditions; the empty one holds of every document. -/
abbrev Filter := List Condition

namespace Filter

/-- Whether a document meets every condition, if that can be told. -/
def holds? : Filter → Body → Option Bool
  | [], _ => some true
  | c :: rest, b => do if ← c.holds? b then holds? rest b else return false

/-- The limit of the height of expressions. -/
def maxHeight : Nat := 1000

/-- The height of the expression of a filter on the documents of a collection. -/
def height (f : Filter) : Nat := f.foldl (fun h c => max h c.height + 1) 2

/-- The height of a filter where it is asked, a list counted as an expression in it. -/
def askedHeight (f : Filter) : Nat := f.height + if f.any (·.asksList) then 1 else 0

/-- Whether a filter can be asked for all the documents that meet it. -/
def isAskable (f : Filter) : Bool := decide (f.askedHeight ≤ maxHeight)

/-- Whether a filter can be asked for the document to be changed: the question stands within the
expression that says which one that is. -/
def isAskableWithin (f : Filter) : Bool := decide (f.height + 2 + f.askedHeight ≤ maxHeight)

end Filter

end FleetSync
