/-!
# Binary64 numbers

A finite binary64 number is a sign, a mantissa below `2 ^ 53` and an exponent of two, and every
operation is exact arithmetic on naturals followed by one rounding (`ofRatio?`): to the nearest
number, a tie to the even mantissa, with gradual underflow and `none` on overflow.

`ofDecimal?` reads a decimal literal by the rule the wire format fixes: the significand is rounded
first, then scaled by a power of ten with one more rounding per `308` decimal places.
-/

namespace FleetSync

/-- A finite binary64 number, `± mantissa · 2 ^ exponent`. -/
structure Binary64 where
  negative : Bool
  mantissa : Nat
  exponent : Int
deriving DecidableEq, Repr, Inhabited

namespace Binary64

/-- The least exponent of two, that of zero and of the subnormal numbers. -/
def minExponent : Int := -1074

/-- The greatest exponent of two. -/
def maxExponent : Int := 971

/-- Zero, with a sign. -/
def zero (negative : Bool) : Binary64 := ⟨negative, 0, minExponent⟩

/-- The number with the other sign. -/
def neg (x : Binary64) : Binary64 := { x with negative := !x.negative }

/-- Whether the number is a zero of either sign. -/
def isZero (x : Binary64) : Bool := x.mantissa == 0

/-- The numerator of the magnitude as a fraction over `den`. -/
def num (x : Binary64) : Nat := x.mantissa * Nat.pow 2 x.exponent.toNat

/-- The denominator of the magnitude, a power of two. -/
def den (x : Binary64) : Nat := Nat.pow 2 (-x.exponent).toNat

/-- `a / b` rounded to the nearest natural, a tie to the even one. -/
def roundQuotient (a b : Nat) : Nat :=
  let q := a / b
  let r := 2 * (a % b)
  if r < b then q
  else if b < r then q + 1
  else if q % 2 = 0 then q
  else q + 1

/-- The greatest `l` with `2 ^ l ≤ a / b`, for positive `a` and `b`. -/
def log2Ratio (a b : Nat) : Int :=
  let l : Int := (Nat.log2 a : Int) - Nat.log2 b
  if b * Nat.pow 2 l.toNat ≤ a * Nat.pow 2 (-l).toNat then l else l - 1

/-- The non-negative number nearest to `a / b`; `none` when it overflows. -/
def ofRatio? (a b : Nat) : Option Binary64 :=
  if a = 0 then some (zero false)
  else
    let e := max minExponent (log2Ratio a b - 52)
    let m := roundQuotient (a * Nat.pow 2 (-e).toNat) (b * Nat.pow 2 e.toNat)
    let (m, e) := if m = Nat.pow 2 53 then (Nat.pow 2 52, e + 1) else (m, e)
    if maxExponent < e then none else some ⟨false, m, e⟩

/-- The number nearest to a natural. -/
def ofNat? (n : Nat) : Option Binary64 := ofRatio? n 1

/-- The rounded product of two magnitudes. -/
def mul? (x y : Binary64) : Option Binary64 := ofRatio? (x.num * y.num) (x.den * y.den)

/-- The rounded quotient of two magnitudes. -/
def div? (x y : Binary64) : Option Binary64 := ofRatio? (x.num * y.den) (x.den * y.num)

/-- The most decimal places one scaling step moves. -/
def scaleStep : Nat := 308

/-- `x / 10 ^ places`, rounded once every `scaleStep` places. -/
def scaleDown? (x : Binary64) (places : Nat) : Option Binary64 :=
  if places ≤ scaleStep then do x.div? (← ofNat? (Nat.pow 10 places))
  else if x.isZero then some x
  else do scaleDown? (← x.div? (← ofNat? (Nat.pow 10 scaleStep))) (places - scaleStep)
termination_by places
decreasing_by simp only [scaleStep] at *; omega

/-- `x · 10 ^ places`, rounded once; only zero survives more than `scaleStep` places. -/
def scaleUp? (x : Binary64) (places : Nat) : Option Binary64 :=
  if places ≤ scaleStep then do x.mul? (← ofNat? (Nat.pow 10 places))
  else if x.isZero then some x
  else none

/-- The number read from `± significand · 10 ^ exponent`. -/
def ofDecimal? (negative : Bool) (significand : Nat) (exponent : Int) : Option Binary64 := do
  let x ← ofNat? significand
  let y ← if exponent < 0 then x.scaleDown? exponent.natAbs else x.scaleUp? exponent.natAbs
  return { y with negative }

/-- Whether the number equals an integer. -/
def equalsInt (x : Binary64) (i : Int) : Bool :=
  (if x.negative then -(x.num : Int) else x.num) == i * x.den

/-- Whether two numbers have the same value; zeros of both signs do. -/
def sameValue (x y : Binary64) : Bool :=
  x.mantissa == y.mantissa && (x.isZero || x.exponent == y.exponent && x.negative == y.negative)

end Binary64

end FleetSync
