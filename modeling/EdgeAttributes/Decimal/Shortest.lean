namespace EdgeAttributes.Decimal

-- Powers keep the meaning that they have without any further library.
attribute [local instance (high)] instPowNat

/-- The numbers that read back as one value: those between `low` and `high`, the ends included if
    `closed`. -/
structure Interval where
  low : Nat
  value : Nat
  high : Nat
  closed : Bool

/-- A number that reads back as the value. -/
def Interval.contains (i : Interval) (n : Nat) : Bool :=
  if i.closed then i.low ≤ n && n ≤ i.high else i.low < n && n < i.high

/-- The multiplier `d` for which `d * 10 ^ j` lies in the interval and is nearest to the value. Only
    the two grid points around the value can be nearest. -/
def Interval.nearestOnGrid? (i : Interval) (j : Nat) : Option Nat :=
  let d := i.value / 10 ^ j
  let below := i.contains (d * 10 ^ j)
  let above := i.contains ((d + 1) * 10 ^ j)
  if below && (!above || 2 * i.value < (2 * d + 1) * 10 ^ j) then some d
  else if above then some (d + 1)
  else none

/-- Try the grids from `10 ^ j` down to the units; the answer `(d, j)` stands for `d * 10 ^ j`. -/
def Interval.shortestFrom (i : Interval) : Nat → Nat × Nat
  | 0 => (i.value, 0)
  | j + 1 =>
    match i.nearestOnGrid? (j + 1) with
    | some d => (d, j + 1)
    | none => i.shortestFrom j

/-- The shortest decimal in the interval. -/
def Interval.shortest (i : Interval) : Nat × Nat :=
  i.shortestFrom (Nat.toDigits 10 i.value).length

end EdgeAttributes.Decimal
