import FleetSync.Json.Binary64

/-!
# Shortest decimal text of a binary64 number

`digits` finds the fewest significant digits that read back as the number, and of those the nearest
ones: for one digit, two digits and so on it tries the number's two neighbours on that decimal grid
in exact arithmetic. `text` lays the digits out, positional from `0.00001` to below `10 ^ 16` and
scientific with a signed exponent outside.
-/

namespace FleetSync.Binary64

/-- A positive decimal `coefficient · 10 ^ exponent`. -/
structure Decimal where
  coefficient : Nat
  exponent : Int
deriving DecidableEq, Repr

/-- The numbers that round to a magnitude, as fractions over one denominator. -/
structure Interval where
  low : Nat
  value : Nat
  high : Nat
  den : Nat
  closed : Bool

/-- The interval of a positive magnitude: half way to both neighbours, ends included for an even
mantissa. Below a power of two the lower neighbour is twice as near. -/
def interval (x : Binary64) : Interval :=
  let gap := if x.mantissa = Nat.pow 2 52 ∧ minExponent < x.exponent then 1 else 2
  let unit := Nat.pow 2 x.exponent.toNat
  { low := (4 * x.mantissa - gap) * unit
    value := 4 * x.mantissa * unit
    high := (4 * x.mantissa + 2) * unit
    den := 4 * x.den
    closed := x.mantissa % 2 == 0 }

/-- Whether `d` lies in the interval. -/
def Interval.contains (i : Interval) (d : Decimal) : Bool :=
  let p := d.coefficient * Nat.pow 10 d.exponent.toNat * i.den
  let q := Nat.pow 10 (-d.exponent).toNat
  if i.closed then i.low * q ≤ p && p ≤ i.high * q else i.low * q < p && p < i.high * q

/-- How many decimal digits a natural has. -/
def digitCount (n : Nat) : Nat := (Nat.toDigits 10 n).length

/-- The greatest `k` with `10 ^ k ≤ a / b`, for positive `a` and `b`. -/
def log10Ratio (a b : Nat) : Int :=
  if b ≤ a then digitCount (a / b) - 1 else -(digitCount ((b - 1) / a) : Int)

/-- The neighbour of the interval's value with decimal exponent `e` that reads back as it, the
nearer one if both do, the even one on a tie. -/
def Interval.neighbour? (i : Interval) (e : Int) : Option Decimal :=
  let a := i.value * Nat.pow 10 (-e).toNat
  let b := i.den * Nat.pow 10 e.toNat
  let below : Decimal := ⟨a / b, e⟩
  let above : Decimal := ⟨a / b + 1, e⟩
  match i.contains below, i.contains above with
  | true, true => some ⟨roundQuotient a b, e⟩
  | true, false => some below
  | false, true => some above
  | false, false => none

/-- Tries ever finer decimal grids, `tries` of them at most. -/
def Interval.shortest (i : Interval) (e : Int) : Nat → Decimal
  | 0 => ⟨roundQuotient (i.value * Nat.pow 10 (-e).toNat) (i.den * Nat.pow 10 e.toNat), e⟩
  | tries + 1 => (i.neighbour? e).getD (i.shortest (e - 1) tries)

/-- The shortest decimal that reads back as a positive magnitude. -/
def shortest (x : Binary64) : Decimal :=
  let i := x.interval
  i.shortest (log10Ratio i.value i.den) 17

/-- The significant digits, without trailing zeros, and the power of ten of the first one. -/
def digits (x : Binary64) : List Char × Int :=
  let d := x.shortest
  let ds := Nat.toDigits 10 d.coefficient
  ((ds.reverse.dropWhile (· == '0')).reverse, d.exponent + ds.length - 1)

/-- Digits with the point after the one of weight `10 ^ 0`. -/
def positional (ds : List Char) (e : Int) : List Char :=
  if e < 0 then ['0', '.'] ++ List.replicate (e.natAbs - 1) '0' ++ ds
  else
    let whole := ds.take (e.toNat + 1)
    let fraction := ds.drop (e.toNat + 1)
    whole ++ List.replicate (e.toNat + 1 - whole.length) '0' ++
      '.' :: (if fraction.isEmpty then ['0'] else fraction)

/-- One digit before the point and a signed exponent. -/
def scientific (ds : List Char) (e : Int) : List Char :=
  ds.take 1 ++ (if ds.length ≤ 1 then [] else '.' :: ds.drop 1) ++
    'e' :: (if e < 0 then '-' else '+') :: Nat.toDigits 10 e.natAbs

/-- The text of a number. -/
def text (x : Binary64) : List Char :=
  let magnitude :=
    if x.isZero then ['0', '.', '0']
    else
      let (ds, e) := x.digits
      if -5 ≤ e ∧ e < 16 then positional ds e else scientific ds e
  if x.negative then '-' :: magnitude else magnitude

end FleetSync.Binary64
