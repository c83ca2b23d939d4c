import EdgeAttributes.Decimal.Reader
import EdgeAttributes.Text.Hex
import EdgeAttributes.Text.Split
import EdgeAttributes.Toml.Lexical

namespace EdgeAttributes.Toml

/-- Digits without the underscores between them. -/
def ungrouped? (cs : List Char) : Option (List Char) :=
  let groups := Text.splitChars '_' cs
  if groups.any List.isEmpty then none else some groups.flatten

/-- Grouped decimal digits. -/
def digits? (cs : List Char) : Option (List Char) :=
  (ungrouped? cs).filter fun ds => ds.all Char.isDigit

/-- Grouped decimal digits without leading zeros. -/
def whole? (cs : List Char) : Option (List Char) :=
  (digits? cs).filter fun ds => ds.head? != some '0' || ds.length == 1

/-- A sign, if one comes first, and what follows it. -/
def signed (cs : List Char) : Bool × List Char :=
  match cs with
  | '-' :: rest => (true, rest)
  | '+' :: rest => (false, rest)
  | rest => (false, rest)

/-- An integer without regard to its size. Other bases have a mark before their digits and no
    sign. -/
def unboundedInteger? (cs : List Char) : Option Int :=
  match cs with
  | '0' :: 'x' :: ds => do some (← Text.digitsValue? 16 (← ungrouped? ds))
  | '0' :: 'o' :: ds => do some (← Text.digitsValue? 8 (← ungrouped? ds))
  | '0' :: 'b' :: ds => do some (← Text.digitsValue? 2 (← ungrouped? ds))
  | cs =>
    let (negative, ds) := signed cs
    (whole? ds).map fun ds =>
      if negative then -(Decimal.digitsValue ds : Int) else Decimal.digitsValue ds

/-- An integer of 64 bits with sign. -/
def integer? (cs : List Char) : Option Int :=
  (unboundedInteger? cs).filter fun n => Int64.minValue.toInt ≤ n && n ≤ Int64.maxValue.toInt

/-- The digits of an exponent, with a sign if they have one. -/
def exponent? (cs : List Char) : Option Int :=
  let (negative, ds) := signed cs
  (digits? ds).map fun ds =>
    if negative then -(Decimal.digitsValue ds : Int) else Decimal.digitsValue ds

/-- A decimal without its sign: a whole number with a fraction, an exponent or both. -/
def magnitude? (cs : List Char) : Option Float := do
  let isMark (c : Char) : Bool := c == '.' || c == 'e' || c == 'E'
  let whole ← whole? (cs.takeWhile fun c => !isMark c)
  let (fraction, rest) ← match cs.dropWhile fun c => !isMark c with
    | '.' :: more =>
      (digits? (more.takeWhile fun c => !isMark c)).map (·, more.dropWhile fun c => !isMark c)
    | rest => some ([], rest)
  let exponent ← match rest with
    | [] => if fraction.isEmpty then none else some 0
    | c :: more => if c = '.' then none else exponent? more
  some ((Decimal.Numeral.mk whole fraction []).value exponent)

/-- A decimal. Only a word for it, and no digits, give a decimal that is plus infinity. -/
def decimal? (cs : List Char) : Option Float :=
  let (negative, size) := signed cs
  let x :=
    if size = ['i', 'n', 'f'] then some (1.0 / 0.0)
    else if size = ['n', 'a', 'n'] then some (0.0 / 0.0)
    else (magnitude? size).filter fun x => negative || !x.isInf
  x.map fun x => if negative then -x else x

/-- A flag. -/
def flag? (cs : List Char) : Option Bool :=
  if cs = ['t', 'r', 'u', 'e'] then some true
  else if cs = ['f', 'a', 'l', 's', 'e'] then some false
  else none

/-- Characters that unquoted values are made of. -/
def isLiteralChar (c : Char) : Bool := c.isAlphanum || c == '_' || c == '+' || c == '-' || c == '.'

end EdgeAttributes.Toml
