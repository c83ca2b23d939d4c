namespace EdgeAttributes.Toml

/-- Reads something from the front of a text. -/
abbrev Reader (α : Type) := List Char → Option (α × List Char)

/-- Blanks within a line. -/
def isBlank (c : Char) : Bool := c == ' ' || c == '\t'

/-- Characters that may stand in comments and quotes: no control character but the tab. -/
def isPlain (c : Char) : Bool := (0x20 ≤ c.toNat && c.toNat != 0x7F) || c == '\t'

/-- Skip blanks within a line. -/
def skipBlanks (cs : List Char) : List Char := cs.dropWhile isBlank

/-- The rest behind a line end, which a carriage return may come before. -/
def lineEnd? : List Char → Option (List Char)
  | '\n' :: rest => some rest
  | '\r' :: '\n' :: rest => some rest
  | _ => none

/-- Skip blanks, line ends and comments. -/
def skipSpace? (inComment : Bool) : List Char → Option (List Char)
  | [] => some []
  | '\n' :: rest => skipSpace? false rest
  | '\r' :: '\n' :: rest => skipSpace? false rest
  | c :: rest =>
    if inComment then (if isPlain c then skipSpace? true rest else none)
    else if isBlank c then skipSpace? false rest
    else if c = '#' then skipSpace? true rest
    else some (c :: rest)

/-- Skip the blanks and the comment that may end a line, and require its end. -/
def endLine? (cs : List Char) : Option (List Char) :=
  match skipBlanks cs with
  | [] => some []
  | '#' :: rest =>
    match rest.dropWhile isPlain with
    | [] => some []
    | left => lineEnd? left
  | rest => lineEnd? rest

/-- Skip one character that must come next. -/
def expect? (c : Char) : List Char → Option (List Char)
  | d :: rest => if c = d then some rest else none
  | [] => none

/-- Read items with a separator between them until `close` comes. `skip` is what may stand around
    items, and `trailing` allows a separator behind the last. Every item uses up some characters. -/
def readItems? {α : Type} (skip : List Char → Option (List Char)) (item : Reader α)
    (trailing : Bool) (close : Char) (first : Bool) (cs : List Char) :
    Option (List α × List Char) :=
  match skip cs with
  | none => none
  | some start =>
    if start.head? = some close && (first || trailing) then some ([], start.tail)
    else
      match item start with
      | none => none
      | some (a, left) =>
        match skip left with
        | some (d :: rest) =>
          if d = close then some ([a], rest)
          else if d = ',' then
            if rest.length < cs.length then
              (readItems? skip item trailing close false rest).map fun (as, rest) => (a :: as, rest)
            else none
          else none
        | _ => none
termination_by cs.length

end EdgeAttributes.Toml
