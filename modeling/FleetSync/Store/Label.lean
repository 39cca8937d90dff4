import FleetSync.Json.Printer
import FleetSync.Json.Reader

/-!
# Labels of fields

The fields of a stored document are labelled by what is written between quotes, and so is a field
that a path names. Labels may be written in more ways than JSON knows, and they are told apart by
the code points they stand for, up to the first null (`Label.codes`).

A label comes into a document as it was written, and is rewritten for JSON when the document is
(`Label.rewritten?`). That may leave a label that cannot be read (`Label.isSound`), or one that is
no text since it has half a surrogate pair (`Label.name?`).
-/

namespace FleetSync

/-- A label, as it is written between quotes. -/
structure Label where
  written : List Char
deriving DecidableEq, Repr, Inhabited

namespace Label

/-- The label of a name. -/
def ofName (s : String) : Label := ⟨s.toList.flatMap Json.escapeChar⟩

/-! ## Code points -/

/-- The code point that an escape stands for if it is none. -/
def unknownCode : Nat := 0x99999

/-- The character of an escape of one letter. -/
def escaped? (c : Char) : Option Char :=
  match c with
  | '\'' => some '\''
  | 'v' => some '\x0b'
  | '0' => some '\x00'
  | c => Json.simpleEscape? c

/-- Whether a byte comes after the first one of a character. -/
def isContinuation (b : UInt8) : Bool := decide (128 ≤ b.toNat ∧ b.toNat < 192)

/-- The code point of the character that starts with a byte, and the bytes after it. A byte that
starts none stands for itself. -/
def charCode (b : UInt8) (rest : List UInt8) : Nat × List UInt8 :=
  let n := b.toNat
  let tail := if n < 192 then [] else rest.takeWhile isContinuation
  let high := if n < 192 then n else if n < 224 then n % 32 else if n < 240 then n % 16 else n % 8
  (tail.foldl (fun n c => n * 64 + c.toNat % 64) high, rest.drop tail.length)

/-- The four bits that a byte writes as a hexadecimal digit, whatever it is. -/
def hexBits (b : UInt8) : Nat := (b.toNat + 9 * (b.toNat / 64 % 2)) % 16

/-- The code unit that four bytes write. -/
def codeUnit (a b c d : UInt8) : Nat :=
  ((hexBits a * 16 + hexBits b) * 16 + hexBits c) * 16 + hexBits d

/-- The code point of an escape with a code unit, and the bytes after it. A pair of surrogates is
one code point. -/
def unitCode (unit : Nat) : List UInt8 → Nat × List UInt8
  | 92 :: 117 :: a :: b :: c :: d :: rest =>
    let low := codeUnit a b c d
    if unit / 0x400 = 0x36 ∧ low / 0x400 = 0x37 then
      (0x10000 + unit % 0x400 * 0x400 + low % 0x400, rest)
    else (unit, 92 :: 117 :: a :: b :: c :: d :: rest)
  | rest => (unit, rest)

/-- The code point of an escape by the bytes after its backslash, and the bytes after it. A line
break stands for nothing. -/
def escapeCode : List UInt8 → Option Nat × List UInt8
  | 117 :: a :: b :: c :: d :: rest =>
    let (code, rest) := unitCode (codeUnit a b c d) rest
    (some code, rest)
  | 117 :: _ => (some unknownCode, [])
  | 120 :: a :: b :: rest => (some (hexBits a * 16 + hexBits b), rest)
  | 120 :: _ => (some unknownCode, [])
  | 13 :: 10 :: rest => (none, rest)
  | 13 :: rest => (none, rest)
  | 10 :: rest => (none, rest)
  | 226 :: 128 :: 168 :: rest => (none, rest)
  | 226 :: 128 :: 169 :: rest => (none, rest)
  | 226 :: _ => (some unknownCode, [])
  | b :: rest => (some (((escaped? (Char.ofNat b.toNat)).map Char.toNat).getD unknownCode), rest)
  | [] => (some unknownCode, [])

/-- The code points that bytes stand for, up to the first null, in at most so many steps. -/
def codesFrom : Nat → List UInt8 → List Nat
  | 0, _ => []
  | _ + 1, [] => []
  | n + 1, b :: rest =>
    let (code, rest) :=
      if b = 92 then escapeCode rest else ((charCode b rest).map some id)
    match code with
    | none => codesFrom n rest
    | some 0 => []
    | some (code + 1) => (code + 1) :: codesFrom n rest

/-- The code points that a label stands for, up to the first null. -/
def codes (l : Label) : List Nat :=
  if l.written.contains '\\' then
    let bytes := l.written.flatMap String.utf8EncodeChar
    codesFrom bytes.length bytes
  else l.written.map Char.toNat

/-! ## In JSON -/

/-- Whether the inside of a string is one of JSON. -/
def isSoundText : List Char → Bool
  | [] => true
  | '\\' :: 'u' :: a :: b :: c :: d :: rest => (Json.codeUnit? a b c d).isSome && isSoundText rest
  | '\\' :: c :: rest => (Json.simpleEscape? c).isSome && isSoundText rest
  | c :: rest => c != '\\' && c != '"' && decide (32 ≤ c.toNat) && isSoundText rest

/-- Whether a label can be read. -/
def isSound (l : Label) : Bool := isSoundText l.written

/-- The name that a label reads as. -/
def name? (l : Label) : Option String := do
  let (pieces, _) ← Json.lexPieces (l.written.map some ++ [some '"']) []
  return String.ofList (← Json.piecesText? pieces [])

/-- Whether an escaped character is a line break, which is left out. -/
def isLineBreak (c : Char) : Bool := ['\n', '\r', '\u2028', '\u2029'].contains c

/-- Whether a character could be a line break by its first byte, but is none. -/
def isNearLineBreak (c : Char) : Bool :=
  decide (0x2000 ≤ c.toNat ∧ c.toNat < 0x3000) && !isLineBreak c

/-- The inside of a string as JSON writes it. An escape that JSON has not becomes one that it has,
or stays if it is none at all; one that is cut off cannot be written. -/
def rewrittenText? : List Char → Option (List Char)
  | [] => some []
  | '\\' :: '\'' :: rest => (rewrittenText? rest).map ('\'' :: ·)
  | '\\' :: 'v' :: rest => (rewrittenText? rest).map ("\\u0009".toList ++ ·)
  | '\\' :: '0' :: rest => (rewrittenText? rest).map ("\\u0000".toList ++ ·)
  | ['\\', 'x'] => none
  | '\\' :: 'x' :: a :: rest =>
    if 1 < a.utf8Size then (rewrittenText? rest).map ("\\u00".toList ++ a :: ·)
    else match rest with
      | [] => none
      | b :: rest => (rewrittenText? rest).map ("\\u00".toList ++ a :: b :: ·)
  | '\\' :: '\r' :: '\n' :: rest => rewrittenText? rest
  | '\\' :: c :: rest =>
    if isLineBreak c then rewrittenText? rest
    else if isNearLineBreak c then none
    else (rewrittenText? rest).map ('\\' :: c :: ·)
  | ['\\'] => none
  | c :: rest => (rewrittenText? rest).map ((if c.toNat < 32 then Json.escapeChar c else [c]) ++ ·)

/-- The label as JSON writes it. -/
def rewritten? (l : Label) : Option Label := (rewrittenText? l.written).map mk

end Label

end FleetSync
