import EdgeAttributes.Text.AsciiCase

namespace EdgeAttributes.Decimal

/-- The number that a list of decimal digits stands for, after those already read. -/
def digitsValue (cs : List Char) : Nat :=
  cs.foldl (fun n c => n * 10 + (c.toNat - '0'.toNat)) 0

/-- The double nearest to `mantissa * 10 ^ exponent`. -/
def ofScale (mantissa : Nat) (exponent : Int) : Float :=
  if 0 ≤ exponent then Float.ofScientific mantissa false exponent.toNat
  else Float.ofScientific mantissa true (-exponent).toNat

/-- The digits before and after the point of a numeral, and what follows it. -/
structure Numeral where
  whole : List Char
  fraction : List Char
  rest : List Char

/-- Read a numeral from the front of `cs`; none if it has no digit. -/
def Numeral.read? (cs : List Char) : Option Numeral :=
  let whole := cs.takeWhile Char.isDigit
  let n : Numeral := match cs.dropWhile Char.isDigit with
    | '.' :: more => ⟨whole, more.takeWhile Char.isDigit, more.dropWhile Char.isDigit⟩
    | rest => ⟨whole, [], rest⟩
  if n.whole.isEmpty && n.fraction.isEmpty then none else some n

/-- The double nearest to a numeral times a power of ten. -/
def Numeral.value (n : Numeral) (exponent : Int) : Float :=
  ofScale (digitsValue (n.whole ++ n.fraction)) (exponent - n.fraction.length)

/-- A text that is a numeral and nothing more. -/
def readNumeral? (cs : List Char) : Option Float :=
  match Numeral.read? cs with
  | some n => if n.rest.isEmpty then some (n.value 0) else none
  | none => none

/-- A decimal integer with an optional sign and at least one digit. -/
def readExponent? (cs : List Char) : Option Int :=
  let (negative, ds) := match cs with
    | '-' :: ds => (true, ds)
    | '+' :: ds => (false, ds)
    | ds => (false, ds)
  if ds.isEmpty || !ds.all Char.isDigit then none
  else some (if negative then -(digitsValue ds : Int) else digitsValue ds)

/-- An unsigned double: a numeral with an optional exponent, or a word in any case. -/
def readUnsigned? (cs : List Char) : Option Float :=
  let word := String.ofList (cs.map Text.foldCase)
  if word == "inf" || word == "infinity" then some (1.0 / 0.0)
  else if word == "nan" then some (0.0 / 0.0)
  else match Numeral.read? cs with
    | none => none
    | some n =>
      match n.rest with
      | [] => some (n.value 0)
      | c :: more => if c = 'e' ∨ c = 'E' then (readExponent? more).map n.value else none

/-- A double in the full grammar. -/
def readFloat? (s : String) : Option Float :=
  match s.toList with
  | '-' :: cs => (readUnsigned? cs).map (- ·)
  | '+' :: cs => readUnsigned? cs
  | cs => readUnsigned? cs

end EdgeAttributes.Decimal
