import EdgeAttributes.Decimal.Reader
import EdgeAttributes.Text.Blank

namespace EdgeAttributes.Speed

/-- What `none`, no limit at all, is stored as, in km/h. -/
def unlimited : Float := 150

/-- What `walk`, walking pace, is stored as, in km/h. -/
def walking : Float := 6

/-- Units of posted speeds. -/
inductive SpeedUnit where
  | kmh
  | mph
  | knots
deriving DecidableEq

/-- The unit that follows a number; kilometres per hour if nothing does. -/
def SpeedUnit.ofText? : String → Option SpeedUnit
  | "" | "km/h" | "kmh" | "kph" => some kmh
  | "mph" => some mph
  | "knots" => some knots
  | _ => none

/-- A number of units in km/h. -/
def SpeedUnit.toKmh : SpeedUnit → Float → Float
  | kmh, x => x
  | mph, x => x * 1.609344
  | knots, x => x * 1.852

/-- Characters of the number that a speed starts with. -/
def isNumberChar (c : Char) : Bool := c.isDigit || c == '.'

/-- The speed in km/h that a number and what follows it stand for. -/
def ofNumber? (cs : List Char) : Option Float := do
  let number ← Decimal.readNumeral? (cs.takeWhile isNumberChar)
  let unit ← SpeedUnit.ofText? (String.ofList (Text.trimChars (cs.dropWhile isNumberChar)))
  let kmh := unit.toKmh number
  if kmh > 0 then some kmh else none

/-- The speed in km/h that a tag value stands for. -/
def parse? (value : String) : Option Float :=
  let t := Text.trim value
  if t = "none" then some unlimited
  else if t = "walk" then some walking
  else ofNumber? t.toList

end EdgeAttributes.Speed
