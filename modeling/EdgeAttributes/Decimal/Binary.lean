namespace EdgeAttributes.Decimal

-- Powers keep the meaning that they have without any further library.
attribute [local instance (high)] instPowNat

/-- The number `± mantissa * 2 ^ exponent`. `narrowBelow` says that the double below it is only half
    as far away as the one above, as it is at a power of two. -/
structure Binary where
  negative : Bool
  mantissa : Nat
  exponent : Int
  narrowBelow : Bool
deriving DecidableEq

/-- A double as a number, infinite or not a number at all. -/
inductive Class where
  | finite (x : Binary)
  | infinite (negative : Bool)
  | notANumber

/-- Bits of the fraction of a double. -/
def fractionBits : Nat := 52

/-- Bits of the exponent of a double. -/
def exponentBits : Nat := 11

/-- Read sign, exponent and fraction off the bits of a double. -/
def classify (x : Float) : Class :=
  let bits : Nat := x.toBits.toNat
  let negative := bits / 2 ^ (fractionBits + exponentBits) == 1
  let biased := bits / 2 ^ fractionBits % 2 ^ exponentBits
  let fraction := bits % 2 ^ fractionBits
  if biased = 2047 then
    if fraction = 0 then .infinite negative else .notANumber
  else if biased = 0 then .finite ⟨negative, fraction, -1074, false⟩
  else .finite ⟨negative, 2 ^ fractionBits + fraction, (biased : Int) - 1075,
    fraction == 0 && 1 < biased⟩

/-- `n / 2 ^ k` to the nearest integer, a half rounded up. -/
def roundHalfUp (n k : Nat) : Nat := (2 * n + 2 ^ k) / 2 ^ (k + 1)

theorem roundHalfUp_bounds (n k : Nat) :
    2 * (roundHalfUp n k * 2 ^ k) ≤ 2 * n + 2 ^ k ∧
      2 * n + 2 ^ k < 2 * (roundHalfUp n k * 2 ^ k) + 2 ^ (k + 1) := by
  have hpos : 0 < 2 ^ (k + 1) := Nat.two_pow_pos _
  have hdiv := Nat.div_add_mod (2 * n + 2 ^ k) (2 ^ (k + 1))
  have hlt := Nat.mod_lt (2 * n + 2 ^ k) hpos
  have hcomm : 2 * (roundHalfUp n k * 2 ^ k) =
      2 ^ (k + 1) * ((2 * n + 2 ^ k) / 2 ^ (k + 1)) := by
    rw [roundHalfUp, Nat.pow_succ]
    generalize (2 * n + 2 ^ k) / (2 ^ k * 2) = q
    rw [Nat.mul_comm (2 ^ k) 2, Nat.mul_assoc, Nat.mul_comm q]
  omega

/-- The nearest integer, a half rounded away from zero. -/
def Binary.round (x : Binary) : Int :=
  let size : Nat :=
    if 0 ≤ x.exponent then x.mantissa * 2 ^ x.exponent.toNat
    else roundHalfUp x.mantissa (-x.exponent).toNat
  if x.negative then -(size : Int) else size

/-- The integer nearest to a double, a half rounded away from zero; none if it is not finite. -/
def nearestInt? (x : Float) : Option Int :=
  match classify x with
  | .finite b => some b.round
  | _ => none

end EdgeAttributes.Decimal
