import EdgeAttributes.Decimal.Binary
import EdgeAttributes.Decimal.Shortest

namespace EdgeAttributes.Decimal

-- Powers keep the meaning that they have without any further library.
attribute [local instance (high)] instPowNat

/-- A mantissa and a power of two as a natural multiple of a power of ten that is at most zero:
    `n * 2 ^ q` is `(scale q n) * 10 ^ (min q 0)`. -/
def scale (q : Int) (n : Nat) : Nat :=
  if 0 ≤ q then n * 2 ^ q.toNat else n * 5 ^ (-q).toNat

/-- The decimals that read back as `x`, in units of a quarter of its last binary place. Halfway
    points belong to the neighbour whose mantissa is even. -/
def Binary.interval (x : Binary) : Interval where
  low := scale (x.exponent - 2) (4 * x.mantissa - if x.narrowBelow then 1 else 2)
  value := scale (x.exponent - 2) (4 * x.mantissa)
  high := scale (x.exponent - 2) (4 * x.mantissa + 2)
  closed := x.mantissa % 2 == 0

/-- `digits * 10 ^ exponent` written positionally. -/
def positional (digits : Nat) (exponent : Int) : String :=
  let ds := Nat.toDigits 10 digits
  if 0 ≤ exponent then String.ofList (ds ++ List.replicate exponent.toNat '0')
  else
    let places := (-exponent).toNat
    let padded := List.replicate (places + 1 - ds.length) '0' ++ ds
    let whole := padded.length - places
    String.ofList (padded.take whole ++ '.' :: padded.drop whole)

/-- The size of a finite double, without its sign. -/
def Binary.magnitudeText (x : Binary) : String :=
  if x.mantissa = 0 then "0"
  else
    let (d, j) := x.interval.shortest
    positional d (j + min (x.exponent - 2) 0)

/-- The text of a double. -/
def text (x : Float) : String :=
  match classify x with
  | .finite b => (if b.negative then "-" else "") ++ b.magnitudeText
  | .infinite negative => if negative then "-inf" else "inf"
  | .notANumber => "NaN"

end EdgeAttributes.Decimal
