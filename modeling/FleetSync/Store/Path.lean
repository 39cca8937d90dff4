import FleetSync.Store.Body

/-!
# Paths into documents

A path names a place in a document by the steps on the way there. `Body.at?` looks it up,
`Body.put` puts a value there and makes what is missing on the way, `Body.cut` takes it away. Each
reaches the place, or there is none, or the path turns out to be malformed on the way (`Reached`).

A dotted text names a path (`Path.ofText`): each of its segments stands for a label. A quote in a
segment is written with a backslash before it but ends the label all the same, so the label ends in
that backslash. What follows are steps into arrays, and whatever else is malformed. A null ends the
whole text.
-/

namespace FleetSync

/-- A step of a path. -/
inductive Step where
  /-- To the field of a label. -/
  | field (label : Label)
  /-- To the item at an index. -/
  | item (index : Nat)
  /-- To the item so far before the end. -/
  | itemFromEnd (back : Nat)
  /-- Into an array, but malformed; not looked at if the array is not even that long. -/
  | badItem (back : Nat)
  /-- Malformed wherever it is taken. -/
  | malformed
deriving DecidableEq, Repr, Inhabited

namespace Step

instance : Coe String Step := ⟨fun s => .field ⟨s.toList⟩⟩

/-- Whether a step goes to a field. -/
def isField : Step → Bool
  | field _ => true
  | item _ | itemFromEnd _ | badItem _ | malformed => false

/-- The index that a step goes to in an array of a size. -/
def index? (size : Nat) : Step → Option Nat
  | item i => some i
  | itemFromEnd k => if k ≤ size then some (size - k) else none
  | field _ | badItem _ | malformed => none

end Step

/-- The steps on the way to a place. -/
abbrev Path := List Step

namespace Path

/-- Whether a path goes through fields alone. -/
def isPlain (p : Path) : Bool := p.all Step.isField

/-- The number that digits write in 32 bits. -/
def indexOf (digits : List Char) : Nat := Json.digitsValue digits % 4294967296

/-- The step into an array after its opening bracket, and what follows its closing one. -/
def readItem (s : List Char) : Step × List Char :=
  let digits := s.takeWhile Char.isDigit
  let fromEnd := (s.drop 2).takeWhile Char.isDigit
  if "#-".toList.isPrefixOf s && !fromEnd.isEmpty then
    match s.drop (2 + fromEnd.length) with
    | ']' :: rest => (.itemFromEnd (indexOf fromEnd), rest)
    | _ => (.badItem (indexOf fromEnd), [])
  else match s, s.drop digits.length with
    | '#' :: ']' :: rest, _ => (.itemFromEnd 0, rest)
    | _, ']' :: rest => if digits.isEmpty then (.badItem 0, []) else (.item (indexOf digits), rest)
    | _, _ => (.badItem 0, [])

/-- The steps after a label that a quote ended, in at most so many turns. -/
def ofTail : Nat → List Char → Path
  | turns + 1, '[' :: s => match readItem s with
    | (.badItem back, _) => [.badItem back]
    | (step, rest) => step :: ofTail turns rest
  | _, '\x00' :: _ => []
  | _, _ => [.malformed]

/-- Whether a character ends a label. -/
def endsLabel (c : Char) : Bool := c == '"' || c == '\x00'

/-- The path of some segments. -/
def ofSegments : List (List Char) → Path
  | [] => []
  | s :: rest =>
    let label := s.takeWhile (!endsLabel ·)
    match s.dropWhile (!endsLabel ·) with
    | [] => .field ⟨label⟩ :: ofSegments rest
    | c :: tail =>
      if c = '"' then .field ⟨label ++ ['\\']⟩ :: ofTail (tail.length + 1) tail else [.malformed]

/-- The path a dotted text names. -/
def ofText (s : String) : Path := ofSegments ((s.splitOn ".").map String.toList)

end Path

/-- Where a path leads. -/
inductive Reached (α : Type) where
  | place (a : α)
  | nowhere
  | astray
deriving DecidableEq, Repr, Inhabited

namespace Reached

variable {α β : Type}

/-- Changes what is reached. -/
def map (f : α → β) : Reached α → Reached β
  | place a => place (f a)
  | nowhere => nowhere
  | astray => astray

/-- What is reached, if anything is, unless the path is malformed. -/
def found? : Reached α → Option (Option α)
  | place a => some (some a)
  | nowhere => some none
  | astray => none

/-- What becomes of a value that a change reached or not. -/
def change? (old : α) (r : Reached α) : Option α := r.found?.map (·.getD old)

end Reached

namespace Fields

variable {α : Type}

/-- The value of the first field of some code points. -/
def find? (codes : List Nat) : List (Label × α) → Option α
  | [] => none
  | (l, a) :: rest => if l.codes = codes then some a else find? codes rest

/-- Replaces the value of the first field of some code points. -/
def replace (codes : List Nat) (value : α) : List (Label × α) → List (Label × α)
  | [] => []
  | (l, a) :: rest =>
    if l.codes = codes then (l, value) :: rest else (l, a) :: replace codes value rest

/-- Removes the first field of some code points. -/
def erase (codes : List Nat) : List (Label × α) → List (Label × α)
  | [] => []
  | (l, a) :: rest => if l.codes = codes then rest else (l, a) :: erase codes rest

end Fields

namespace Body

/-- What is at a path. -/
def at? : Body → Path → Reached Body
  | b, [] => .place b
  | _, .malformed :: _ => .astray
  | .obj fields, .field l :: rest => match Fields.find? l.codes fields with
    | some b => b.at? rest
    | none => .nowhere
  | .arr items, .badItem back :: _ => if back ≤ items.length then .astray else .nowhere
  | .arr items, step :: rest => match (step.index? items.length).bind (items[·]?) with
    | some b => b.at? rest
    | none => .nowhere
  | _, _ :: _ => .nowhere

/-- What a path goes through where there is nothing yet. -/
def blank : Path → Body
  | .field _ :: _ => .obj []
  | _ => .arr []

/-- The body with a value put at a path. -/
def put : Body → Path → Body → Reached Body
  | _, [], value => .place value
  | _, .malformed :: _, _ => .astray
  | .obj fields, .field l :: rest, value => match Fields.find? l.codes fields with
    | some b => (b.put rest value).map fun b => .obj (Fields.replace l.codes b fields)
    | none => ((blank rest).put rest value).map fun b => .obj (fields ++ [(l, b)])
  | .arr items, .badItem back :: _, _ => if back ≤ items.length then .astray else .nowhere
  | .arr items, step :: rest, value => match step.index? items.length with
    | none => .nowhere
    | some i => match items[i]? with
      | some b => (b.put rest value).map fun b => .arr (items.set i b)
      | none =>
        if i = items.length then ((blank rest).put rest value).map fun b => .arr (items ++ [b])
        else .nowhere
  | _, _ :: _, _ => .nowhere

/-- The body without what is at a path; `none` if that is all of it. -/
def cut : Body → Path → Reached (Option Body)
  | _, [] => .place none
  | _, .malformed :: _ => .astray
  | .obj fields, .field l :: rest => match Fields.find? l.codes fields with
    | some b => (b.cut rest).map fun
      | some b => some (.obj (Fields.replace l.codes b fields))
      | none => some (.obj (Fields.erase l.codes fields))
    | none => .nowhere
  | .arr items, .badItem back :: _ => if back ≤ items.length then .astray else .nowhere
  | .arr items, step :: rest => match step.index? items.length with
    | none => .nowhere
    | some i => match items[i]? with
      | some b => (b.cut rest).map fun
        | some b => some (.arr (items.set i b))
        | none => some (.arr (items.eraseIdx i))
      | none => .nowhere
  | _, _ :: _ => .nowhere

end Body

end FleetSync
