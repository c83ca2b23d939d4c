import EdgeAttributes.Decimal.Reader
import EdgeAttributes.Toml.Lexical

namespace EdgeAttributes.Toml

/-- Read a number of exactly `places` decimal digits that lies between two bounds. -/
def readNumber? (places low high : Nat) : Reader Nat := fun cs =>
  let digits := cs.take places
  let n := Decimal.digitsValue digits
  if digits.length = places && digits.all Char.isDigit && low ≤ n && n ≤ high then
    some (n, cs.drop places)
  else none

/-- A number in decimal, with zeros before it up to `places` digits. -/
def padded (places n : Nat) : List Char := (Nat.toDigits 10 n).leftpad places '0'

/-- A day of the Gregorian calendar. -/
structure Date where
  year : Nat
  month : Nat
  day : Nat

namespace Date

/-- Years with a twenty-ninth of February. -/
def isLeapYear (year : Nat) : Bool :=
  year % 4 == 0 && (year % 100 != 0 || year % 400 == 0)

/-- How many days a month has. -/
def daysOfMonth (year month : Nat) : Nat :=
  if month = 2 then (if isLeapYear year then 29 else 28)
  else if month = 4 ∨ month = 6 ∨ month = 9 ∨ month = 11 then 30
  else 31

/-- Read a date. -/
def read? : Reader Date := fun cs => do
  let (year, rest) ← readNumber? 4 0 9999 cs
  let (month, rest) ← readNumber? 2 1 12 (← expect? '-' rest)
  let (day, rest) ← readNumber? 2 1 (daysOfMonth year month) (← expect? '-' rest)
  some (⟨year, month, day⟩, rest)

/-- The text of a date. -/
def chars (d : Date) : List Char :=
  padded 4 d.year ++ '-' :: padded 2 d.month ++ '-' :: padded 2 d.day

end Date

/-- A time of day. -/
structure Time where
  hour : Nat
  minute : Nat
  second : Nat
  nanosecond : Nat

namespace Time

/-- Digits of a second's fraction that are kept. Further ones are cut off. -/
def fractionPlaces : Nat := 9

/-- Read the fraction of a second, in nanoseconds. A point without digits is none. -/
def readFraction (cs : List Char) : Nat × List Char :=
  match cs with
  | '.' :: rest =>
    let digits := rest.takeWhile Char.isDigit
    if digits.isEmpty then (0, cs)
    else
      let kept := (digits.take fractionPlaces).rightpad fractionPlaces '0'
      (Decimal.digitsValue kept, rest.dropWhile Char.isDigit)
  | _ => (0, cs)

/-- Read a time of day. -/
def read? : Reader Time := fun cs => do
  let (hour, rest) ← readNumber? 2 0 23 cs
  let (minute, rest) ← readNumber? 2 0 59 (← expect? ':' rest)
  let (second, rest) ← readNumber? 2 0 60 (← expect? ':' rest)
  let (nanosecond, rest) := readFraction rest
  some (⟨hour, minute, second, nanosecond⟩, rest)

/-- The text of a second's fraction, without zeros at its end. -/
def fractionChars (nanosecond : Nat) : List Char :=
  if nanosecond = 0 then []
  else '.' :: ((padded fractionPlaces nanosecond).reverse.dropWhile (· == '0')).reverse

/-- The text of a time of day. -/
def chars (t : Time) : List Char :=
  padded 2 t.hour ++ ':' :: padded 2 t.minute ++ ':' :: padded 2 t.second ++
    fractionChars t.nanosecond

end Time

/-- How far a time of day is ahead of universal time. -/
inductive Offset where
  | universal
  | ahead (minutes : Int)

namespace Offset

/-- Read the hours and minutes of an offset. -/
def readMinutes? : Reader Nat := fun cs => do
  let (hours, rest) ← readNumber? 2 0 23 cs
  let (minutes, rest) ← readNumber? 2 0 59 (← expect? ':' rest)
  some (hours * 60 + minutes, rest)

/-- Read an offset. -/
def read? : Reader Offset
  | 'Z' :: rest | 'z' :: rest => some (.universal, rest)
  | '+' :: rest => (readMinutes? rest).map fun (n, rest) => (.ahead n, rest)
  | '-' :: rest => (readMinutes? rest).map fun (n, rest) => (.ahead (-n), rest)
  | _ => none

/-- The text of an offset. One of no minutes has a plus sign, whatever was read. -/
def chars : Offset → List Char
  | .universal => ['Z']
  | .ahead minutes =>
    let n := minutes.natAbs
    (if minutes < 0 then '-' else '+') :: padded 2 (n / 60) ++ ':' :: padded 2 (n % 60)

end Offset

/-- A date, a time of day or both. Only a time of a certain date may have an offset. -/
inductive DateTime where
  | date (d : Date)
  | time (t : Time)
  | moment (d : Date) (t : Time) (offset : Option Offset)

namespace DateTime

/-- Read a time of day and an offset, if there is one, behind a date. A letter or a single space
    comes first. -/
def readClock? : Reader (Time × Option Offset)
  | 'T' :: rest | 't' :: rest | ' ' :: rest => do
    let (t, rest) ← Time.read? rest
    match Offset.read? rest with
    | some (offset, rest) => some ((t, some offset), rest)
    | none => some ((t, none), rest)
  | _ => none

/-- Read a date with a time of day if one follows, or a time of day. -/
def read? : Reader DateTime := fun cs =>
  match Date.read? cs with
  | some (d, rest) =>
    match readClock? rest with
    | some ((t, offset), rest) => some (.moment d t offset, rest)
    | none => some (.date d, rest)
  | none => (Time.read? cs).map fun (t, rest) => (.time t, rest)

/-- The text of a date or time. It is the same however the value was written. -/
def text (dt : DateTime) : String :=
  String.ofList <|
    match dt with
    | .date d => d.chars
    | .time t => t.chars
    | .moment d t offset => d.chars ++ 'T' :: t.chars ++ offset.elim [] Offset.chars

end DateTime

end EdgeAttributes.Toml
