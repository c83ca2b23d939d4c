namespace EdgeAttributes.Import

/-- The code of the line feed. -/
def lineFeed : UInt8 := 10

/-- The code of the carriage return. -/
def carriageReturn : UInt8 := 13

/-- A line without the carriage return at its end; the line is given last byte first. -/
def closeLine (reversed : List UInt8) : List UInt8 :=
  match reversed with
  | b :: rest => if b = carriageReturn then rest.reverse else (b :: rest).reverse
  | [] => []

/-- The lines of some bytes, where `reversed` holds the line at hand, last byte first. -/
def linesFrom (reversed : List UInt8) : List UInt8 → List (List UInt8)
  | [] => if reversed.isEmpty then [] else [reversed.reverse]
  | b :: rest =>
    if b = lineFeed then closeLine reversed :: linesFrom [] rest
    else linesFrom (b :: reversed) rest

/-- The lines of some bytes. -/
def lines (bytes : List UInt8) : List (List UInt8) := linesFrom [] bytes

/-- The text of a line, if its bytes are UTF-8. -/
def lineText? (line : List UInt8) : Option String := String.fromUTF8? ⟨line.toArray⟩

end EdgeAttributes.Import
