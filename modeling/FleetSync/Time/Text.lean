import FleetSync.Time.Instant

/-!
# The text of instants

`Instant.text` writes RFC 3339 in UTC with a `Z` and 0, 3, 6 or 9 fraction digits, the fewest that
lose nothing; years outside four digits carry a sign. `Instant.ofText?` reads a relaxed form: any
offset, blanks around the parts, short fields, a signed year, `UTC` for the offset and a second
`60`.
-/

namespace FleetSync

/-- Whether a character has the Unicode property `White_Space`. -/
def isWhiteSpace (c : Char) : Bool :=
  let n := c.toNat
  (9 ≤ n && n ≤ 13) || n == 0x20 || n == 0x85 || n == 0xA0 || n == 0x1680 ||
    (0x2000 ≤ n && n ≤ 0x200A) || n == 0x2028 || n == 0x2029 || n == 0x202F || n == 0x205F ||
    n == 0x3000

namespace Instant

/-! ## Writing -/

/-- The decimal digits of a natural, padded with zeros. -/
def padded (width n : Nat) : List Char :=
  let ds := Nat.toDigits 10 n
  List.replicate (width - ds.length) '0' ++ ds

/-- A year: four digits, or a sign and at least four. -/
def yearText (year : Int) : List Char :=
  if 0 ≤ year ∧ year ≤ 9999 then padded 4 year.natAbs
  else (if year < 0 then '-' else '+') :: padded 4 year.natAbs

/-- The fraction of a second. -/
def fractionText (nanos : Nat) : List Char :=
  if nanos = 0 then []
  else if nanos % 1000000 = 0 then '.' :: padded 3 (nanos / 1000000)
  else if nanos % 1000 = 0 then '.' :: padded 6 (nanos / 1000)
  else '.' :: padded 9 nanos

/-- The text of an instant. -/
def text (t : Instant) : String :=
  let leap := t.time.nanos / nanosPerSecond
  String.ofList <|
    yearText t.date.year ++ '-' :: padded 2 t.date.month ++ '-' :: padded 2 t.date.day ++
    'T' :: padded 2 t.time.hour ++ ':' :: padded 2 t.time.minute ++
    ':' :: padded 2 (t.time.second + leap) ++
    fractionText (t.time.nanos % nanosPerSecond) ++ ['Z']

/-! ## Reading -/

/-- The text after leading blanks. -/
def skipBlanks (s : List Char) : List Char := s.dropWhile isWhiteSpace

/-- The natural that digits write. -/
def natOfDigits (ds : List Char) : Nat := ds.foldl (fun n c => n * 10 + (c.toNat - '0'.toNat)) 0

/-- The longest run of at most `width` digits, which may not be empty, and the text after it. -/
def digits? (width : Nat) (s : List Char) : Option (List Char × List Char) :=
  let ds := (s.take width).takeWhile Char.isDigit
  if ds.isEmpty then none else some (ds, s.drop ds.length)

/-- A number of at most `width` digits after blanks. -/
def number? (width : Nat) (s : List Char) : Option (Nat × List Char) := do
  let (ds, rest) ← digits? width (skipBlanks s)
  return (natOfDigits ds, rest)

/-- A year: four digits at most, any number after a sign. -/
def year? (s : List Char) : Option (Int × List Char) :=
  match skipBlanks s with
  | '-' :: rest => do
    let (ds, rest) ← digits? rest.length rest
    return (-(natOfDigits ds : Int), rest)
  | '+' :: rest => do
    let (ds, rest) ← digits? rest.length rest
    return ((natOfDigits ds : Int), rest)
  | s => do
    let (ds, rest) ← digits? 4 s
    return ((natOfDigits ds : Int), rest)

/-- The text after a mark that blanks may precede. -/
def mark? (c : Char) (s : List Char) : Option (List Char) :=
  match skipBlanks s with
  | d :: rest => if d = c then some rest else none
  | [] => none

/-- The letter or blank between date and time. -/
def separator? : List Char → Option (List Char)
  | 't' :: rest => some rest
  | 'T' :: rest => some rest
  | ' ' :: rest => some rest
  | _ => none

/-- The nanoseconds of a fraction, if there is one; digits beyond the ninth are cut. -/
def fraction? : List Char → Option (Nat × List Char)
  | '.' :: s => do
    let (ds, rest) ← digits? 9 s
    return (natOfDigits ds * Nat.pow 10 (9 - ds.length), rest.dropWhile Char.isDigit)
  | s => some (0, s)

/-- The sign of an offset; the minus may be the typographic one. -/
def sign? : List Char → Option (Int × List Char)
  | '+' :: rest => some (1, rest)
  | '-' :: rest => some (-1, rest)
  | '\u2212' :: rest => some (-1, rest)
  | _ => none

/-- Two digits, and the text after them. -/
def twoDigits? : List Char → Option (Nat × List Char)
  | a :: b :: rest => if a.isDigit && b.isDigit then some (natOfDigits [a, b], rest) else none
  | _ => none

/-- An offset from UTC in seconds: `Z`, `UTC` in any case, or a sign, hours and minutes. -/
def offset? (s : List Char) : Option (Int × List Char) :=
  match s with
  | 'Z' :: rest => some (0, rest)
  | 'z' :: rest => some (0, rest)
  | _ =>
    if (s.take 3).map Char.toUpper = ['U', 'T', 'C'] then some (0, s.drop 3)
    else do
      let (sign, rest) ← sign? s
      let (hours, rest) ← twoDigits? rest
      let (minutes, rest) ← twoDigits? (rest.dropWhile fun c => c == ':' || isWhiteSpace c)
      if minutes < 60 then return (sign * (hours * 3600 + minutes * 60 : Nat), rest) else none

/-- The instant a text in the relaxed form names. -/
def ofChars? (s : List Char) : Option Instant := do
  let (year, s) ← year? s
  let (month, s) ← number? 2 (← mark? '-' s)
  let (day, s) ← number? 2 (← mark? '-' s)
  let (hour, s) ← number? 2 (← separator? s)
  let (minute, s) ← number? 2 (← mark? ':' s)
  let (second, s) ← number? 2 (← mark? ':' s)
  let (nanos, s) ← fraction? s
  let (offset, s) ← offset? (skipBlanks s)
  if !(skipBlanks s).isEmpty || offset.natAbs ≥ secondsPerDay || second > 60 then none
  else
    let time : TimeOfDay :=
      if second = 60 then ⟨hour, minute, 59, nanosPerSecond + nanos⟩
      else ⟨hour, minute, second, nanos⟩
    ofLocal? ⟨year, month, day⟩ time offset

/-- The instant a text names. -/
def ofText? (s : String) : Option Instant := ofChars? s.toList

end Instant

end FleetSync
