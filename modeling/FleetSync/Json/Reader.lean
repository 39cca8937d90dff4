import FleetSync.Json.Node

/-!
# Reading JSON text

Text is read in two passes. `lex` splits it into tokens by the grammar of RFC 8259, and `build`
assembles the tokens on a stack of open containers, so that nesting costs no recursion. Bytes that
are no UTF-8 are `none` among the characters: they are tolerated inside strings only, and such a
string has no value.

`read` reads characters, `Node.ofText?` and `Node.ofBytes?` the node of a text or of bytes, and
`ofText?` the value of a text.
-/

namespace FleetSync.Json

/-- A character of a text, or `none` for a byte that is no part of one. -/
abbrev Glyph := Option Char

/-- A token: a mark, or a scalar as its node. -/
inductive Token where
  | openArray
  | closeArray
  | openObject
  | closeObject
  | comma
  | colon
  | scalar (n : Node)
deriving Repr, Inhabited

/-! ## Tokens -/

/-- Whether a character separates tokens. -/
def isBlank (c : Char) : Bool := c == ' ' || c == '\n' || c == '\t' || c == '\r'

/-- The value of a hexadecimal digit. -/
def hexValue? (c : Char) : Option Nat :=
  if c.isDigit then some (c.toNat - '0'.toNat)
  else if 'a' ≤ c ∧ c ≤ 'f' then some (c.toNat - 'a'.toNat + 10)
  else if 'A' ≤ c ∧ c ≤ 'F' then some (c.toNat - 'A'.toNat + 10)
  else none

/-- The code unit of four hexadecimal digits. -/
def codeUnit? (a b c d : Char) : Option Nat := do
  return (((← hexValue? a) * 16 + (← hexValue? b)) * 16 + (← hexValue? c)) * 16 + (← hexValue? d)

/-- The character of a one-letter escape. -/
def simpleEscape? : Char → Option Char
  | '"' => some '"'
  | '\\' => some '\\'
  | '/' => some '/'
  | 'b' => some '\x08'
  | 'f' => some '\x0c'
  | 'n' => some '\n'
  | 'r' => some '\r'
  | 't' => some '\t'
  | _ => none

/-- A piece of a string's contents. -/
inductive Piece where
  | char (c : Char)
  | surrogate (unit : Nat)
  | stray
deriving Repr, DecidableEq

/-- The piece of a code unit: a character unless it is a surrogate. -/
def Piece.ofUnit (n : Nat) : Piece :=
  if 0xD800 ≤ n ∧ n ≤ 0xDFFF then .surrogate n else .char (Char.ofNat n)

/-- The pieces up to the closing quote, last first, and the text after it. -/
def lexPieces : List Glyph → List Piece → Option (List Piece × List Glyph)
  | [], _ => none
  | none :: rest, acc => lexPieces rest (.stray :: acc)
  | some '"' :: rest, acc => some (acc, rest)
  | some '\\' :: some 'u' :: some a :: some b :: some c :: some d :: rest, acc =>
    match codeUnit? a b c d with
    | some n => lexPieces rest (Piece.ofUnit n :: acc)
    | none => none
  | some '\\' :: some c :: rest, acc =>
    match simpleEscape? c with
    | some e => lexPieces rest (.char e :: acc)
    | none => none
  | some c :: rest, acc =>
    if c = '\\' ∨ c.toNat < 32 then none else lexPieces rest (.char c :: acc)

/-- The character of a surrogate pair. -/
def pairChar (high low : Nat) : Char :=
  Char.ofNat (0x10000 + (high - 0xD800) * 0x400 + (low - 0xDC00))

/-- The text of pieces given last first: surrogates must pair up, and no byte may be stray. -/
def piecesText? : List Piece → List Char → Option (List Char)
  | [], acc => some acc
  | .char c :: rest, acc => piecesText? rest (c :: acc)
  | .surrogate low :: .surrogate high :: rest, acc =>
    if high < 0xDC00 ∧ 0xDC00 ≤ low then piecesText? rest (pairChar high low :: acc) else none
  | .surrogate _ :: _, _ => none
  | .stray :: _, _ => none

/-- A decimal literal, by its parts. -/
structure Literal where
  negative : Bool
  whole : List Char
  fraction : List Char
  exponent : Option Int
deriving Repr, DecidableEq

/-- The bound of a significand. -/
def significandBound : Nat := Nat.pow 2 64

/-- Takes digits into a significand as long as it stays below the bound; the others are left. -/
def takeDigits : Nat → List Char → Nat × List Char
  | n, [] => (n, [])
  | n, c :: rest =>
    let m := n * 10 + (c.toNat - '0'.toNat)
    if m < significandBound then takeDigits m rest else (n, c :: rest)

/-- The number of a literal. Without fraction and exponent it is an integer if it fits 64 bits;
else the digits that fit a significand are scaled, and the others only move the point. -/
def Literal.number? (l : Literal) : Option Number :=
  let (n, left) := takeDigits 0 l.whole
  if l.fraction.isEmpty ∧ l.exponent.isNone ∧ left.isEmpty then
    if !l.negative then some (.int n)
    else if n = 0 ∨ Nat.pow 2 63 < n then (Binary64.ofDecimal? true n 0).map .float
    else some (.int (-n))
  else
    let (m, unused) := takeDigits n l.fraction
    let places : Int := (left.length : Int) - (l.fraction.length - unused.length : Nat)
    (Binary64.ofDecimal? l.negative m (places + l.exponent.getD 0)).map .float

/-- The leading digits and the text after them. -/
def lexDigits : List Glyph → List Char → List Char × List Glyph
  | some c :: rest, acc =>
    if c.isDigit then lexDigits rest (c :: acc) else (acc.reverse, some c :: rest)
  | rest, acc => (acc.reverse, rest)

/-- The digits that must follow here. -/
def lexSomeDigits (input : List Glyph) : Option (List Char × List Glyph) :=
  let (ds, rest) := lexDigits input []
  if ds.isEmpty then none else some (ds, rest)

/-- The natural that digits write. -/
def digitsValue (ds : List Char) : Nat := ds.foldl (fun n c => n * 10 + (c.toNat - '0'.toNat)) 0

/-- The fraction of a literal, empty without a point. -/
def lexFraction : List Glyph → Option (List Char × List Glyph)
  | some '.' :: rest => lexSomeDigits rest
  | rest => some ([], rest)

/-- The exponent after its letter. -/
def lexExponentValue : List Glyph → Option (Option Int × List Glyph)
  | some '-' :: rest => (lexSomeDigits rest).map fun (ds, r) => (some (-(digitsValue ds : Int)), r)
  | some '+' :: rest => (lexSomeDigits rest).map fun (ds, r) => (some (digitsValue ds : Int), r)
  | rest => (lexSomeDigits rest).map fun (ds, r) => (some (digitsValue ds : Int), r)

/-- The exponent of a literal, if it has one. -/
def lexExponent : List Glyph → Option (Option Int × List Glyph)
  | some 'e' :: rest => lexExponentValue rest
  | some 'E' :: rest => lexExponentValue rest
  | rest => some (none, rest)

/-- A literal without its sign; a leading zero stands alone. -/
def lexMagnitude (negative : Bool) (input : List Glyph) : Option (Literal × List Glyph) := do
  let (whole, rest) ← lexSomeDigits input
  if whole.head? == some '0' && whole.length != 1 then none
  else
    let (fraction, rest) ← lexFraction rest
    let (exponent, rest) ← lexExponent rest
    return (⟨negative, whole, fraction, exponent⟩, rest)

/-- A literal. -/
def lexLiteral : List Glyph → Option (Literal × List Glyph)
  | some '-' :: rest => lexMagnitude true rest
  | rest => lexMagnitude false rest

/-- A token that is not a mark, and the text after it. -/
def lexScalar : List Glyph → Option (Node × List Glyph)
  | some '"' :: rest => do
    let (pieces, rest) ← lexPieces rest []
    return (.str ((piecesText? pieces []).map String.ofList), rest)
  | some 'n' :: some 'u' :: some 'l' :: some 'l' :: rest => some (.null, rest)
  | some 't' :: some 'r' :: some 'u' :: some 'e' :: rest => some (.bool true, rest)
  | some 'f' :: some 'a' :: some 'l' :: some 's' :: some 'e' :: rest => some (.bool false, rest)
  | input => do
    let (literal, rest) ← lexLiteral input
    return (.num literal.number?, rest)

/-- The mark a character is. -/
def mark? : Char → Option Token
  | '[' => some .openArray
  | ']' => some .closeArray
  | '{' => some .openObject
  | '}' => some .closeObject
  | ',' => some .comma
  | ':' => some .colon
  | _ => none

/-- The tokens of a text, last first, before `acc`; every token takes one of the `fuel` steps. -/
def lexAll : Nat → List Glyph → List Token → Option (List Token)
  | _, [], acc => some acc
  | 0, _ :: _, _ => none
  | _ + 1, none :: _, _ => none
  | fuel + 1, some c :: rest, acc =>
    if isBlank c then lexAll fuel rest acc
    else match mark? c with
      | some t => lexAll fuel rest (t :: acc)
      | none => match lexScalar (some c :: rest) with
        | some (n, rest) => lexAll fuel rest (.scalar n :: acc)
        | none => none

/-- The tokens of a text. -/
def lex (input : List Glyph) : Option (List Token) :=
  (lexAll input.length input []).map List.reverse

/-! ## Assembly -/

/-- A container that is not closed yet, its contents last first. -/
inductive Open where
  | array (items : List Node)
  | object (fields : List (Option String × Node)) (key : Option String)
deriving Repr

/-- What may come next. -/
inductive Expect where
  | value
  | valueOrClose
  | key (fields : List (Option String × Node))
  | keyOrClose
  | colon (fields : List (Option String × Node)) (key : Option String)
  | commaOrClose
  | stop (n : Node)
deriving Repr

/-- The expectation after a complete value. -/
def complete (n : Node) : List Open → List Open × Expect
  | [] => ([], .stop n)
  | .array items :: stack => (.array (n :: items) :: stack, .commaOrClose)
  | .object fields key :: stack => (.object ((key, n) :: fields) none :: stack, .commaOrClose)

/-- What a token does where a value may start. -/
def startValue (stack : List Open) : Token → Option (List Open × Expect)
  | .scalar n => some (complete n stack)
  | .openArray => some (.array [] :: stack, .valueOrClose)
  | .openObject => some (stack, .keyOrClose)
  | _ => none

/-- What a token does where a key may start. -/
def startKey (stack : List Open) (fields : List (Option String × Node)) :
    Token → Option (List Open × Expect)
  | .scalar (.str k) => some (stack, .colon fields k)
  | _ => none

/-- One token's effect on the open containers. -/
def advance : List Open × Expect → Token → Option (List Open × Expect)
  | (stack, .value), t => startValue stack t
  | (.array _ :: stack, .valueOrClose), .closeArray => some (complete (.arr []) stack)
  | (stack, .valueOrClose), t => startValue stack t
  | (stack, .key fields), t => startKey stack fields t
  | (stack, .keyOrClose), .closeObject => some (complete (.obj []) stack)
  | (stack, .keyOrClose), t => startKey stack [] t
  | (stack, .colon fields key), .colon => some (.object fields key :: stack, .value)
  | (.array items :: stack, .commaOrClose), .comma => some (.array items :: stack, .value)
  | (.object fields _ :: stack, .commaOrClose), .comma => some (stack, .key fields)
  | (.array items :: stack, .commaOrClose), .closeArray =>
    some (complete (.arr items.reverse) stack)
  | (.object fields _ :: stack, .commaOrClose), .closeObject =>
    some (complete (.obj fields.reverse) stack)
  | _, _ => none

/-- Assembles the tokens of one value. -/
def build : List Token → List Open × Expect → Option Node
  | [], (_, .stop n) => some n
  | [], _ => none
  | t :: rest, state => match advance state t with
    | some state => build rest state
    | none => none

/-- The node of a text. -/
def read (input : List Glyph) : Option Node := do build (← lex input) ([], .value)

/-- The node of a text that is UTF-8. -/
def Node.ofText? (text : String) : Option Node := read (text.toList.map some)

/-- The glyphs of bytes from position `i` on, last first, in at most `fuel` steps. -/
def glyphsFrom (bytes : ByteArray) : Nat → Nat → List Glyph → List Glyph
  | 0, _, acc => acc
  | fuel + 1, i, acc =>
    if bytes.size ≤ i then acc
    else match bytes.utf8DecodeChar? i with
      | some c => glyphsFrom bytes fuel (i + c.utf8Size) (some c :: acc)
      | none => glyphsFrom bytes fuel (i + 1) (none :: acc)

/-- The node of a text in bytes. -/
def Node.ofBytes? (bytes : ByteArray) : Option Node :=
  match String.fromUTF8? bytes with
  | some text => Node.ofText? text
  | none => read (glyphsFrom bytes bytes.size 0 []).reverse

/-- The value of a text, with so many texts inside each other at most. -/
def ofTextWithin? : Nat → String → Option Json
  | 0, _ => none
  | n + 1, text => do (← Node.ofText? text).valueWith (ofTextWithin? n) maxNesting

/-- The value of a text. One inside another is shorter than it. -/
def ofText? (text : String) : Option Json := ofTextWithin? (text.length + 1) text

/-- The value of a node that may nest `levels` deep. -/
def Node.value? (levels : Nat) (n : Node) : Option Json := n.valueWith Json.ofText? levels

end FleetSync.Json
