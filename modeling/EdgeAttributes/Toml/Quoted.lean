import EdgeAttributes.Text.Hex
import EdgeAttributes.Toml.Lexical

namespace EdgeAttributes.Toml

/-- The character that a letter escapes. -/
def ofLetter? (c : Char) : Option Char :=
  if c = '"' then some '"'
  else if c = '\\' then some '\\'
  else if c = 'b' then some (Char.ofNat 8)
  else if c = 't' then some '\t'
  else if c = 'n' then some '\n'
  else if c = 'f' then some (Char.ofNat 12)
  else if c = 'r' then some '\r'
  else none

/-- The character of a number written in hexadecimal digits; no half of a surrogate pair. -/
def ofHex? (cs : List Char) : Option Char := do
  let n ← Text.digitsValue? 16 cs
  if n < 0xD800 ∨ (0xDFFF < n ∧ n < 0x110000) then some (Char.ofNat n) else none

/-- Read up to the closing double quote on the same line. -/
def readBasic? : Reader (List Char)
  | '"' :: rest => some ([], rest)
  | '\\' :: 'u' :: a :: b :: c :: d :: rest => do
    let x ← ofHex? [a, b, c, d]
    let (xs, rest) ← readBasic? rest
    some (x :: xs, rest)
  | '\\' :: 'U' :: a :: b :: c :: d :: e :: f :: g :: h :: rest => do
    let x ← ofHex? [a, b, c, d, e, f, g, h]
    let (xs, rest) ← readBasic? rest
    some (x :: xs, rest)
  | '\\' :: letter :: rest => do
    let x ← ofLetter? letter
    let (xs, rest) ← readBasic? rest
    some (x :: xs, rest)
  | c :: rest =>
    if isPlain c && c != '\\' then (readBasic? rest).map fun (xs, rest) => (c :: xs, rest) else none
  | [] => none

/-- Read up to the closing single quote on the same line. -/
def readLiteral? : Reader (List Char)
  | '\'' :: rest => some ([], rest)
  | c :: rest =>
    if isPlain c then (readLiteral? rest).map fun (xs, rest) => (c :: xs, rest) else none
  | [] => none

/-- Whether only blanks come before the end of the line. -/
def lineIsDone (cs : List Char) : Bool := (lineEnd? (skipBlanks cs)).isSome

/-- Read up to three closing double quotes; up to two more before them belong to the text. Behind a
    backslash that ends its line, blanks and line ends are skipped until something else comes. -/
def readBasicLines? (skipping : Bool) : Reader (List Char)
  | '"' :: '"' :: '"' :: '"' :: '"' :: rest => some (['"', '"'], rest)
  | '"' :: '"' :: '"' :: '"' :: rest => some (['"'], rest)
  | '"' :: '"' :: '"' :: rest => some ([], rest)
  | '\r' :: '\n' :: rest =>
    if skipping then readBasicLines? true rest
    else (readBasicLines? false rest).map fun (xs, rest) => ('\n' :: xs, rest)
  | '\n' :: rest =>
    if skipping then readBasicLines? true rest
    else (readBasicLines? false rest).map fun (xs, rest) => ('\n' :: xs, rest)
  | '\\' :: 'u' :: a :: b :: c :: d :: rest => do
    let x ← ofHex? [a, b, c, d]
    let (xs, rest) ← readBasicLines? false rest
    some (x :: xs, rest)
  | '\\' :: 'U' :: a :: b :: c :: d :: e :: f :: g :: h :: rest => do
    let x ← ofHex? [a, b, c, d, e, f, g, h]
    let (xs, rest) ← readBasicLines? false rest
    some (x :: xs, rest)
  | '\\' :: letter :: rest =>
    if lineIsDone (letter :: rest) then readBasicLines? true (letter :: rest)
    else do
      let x ← ofLetter? letter
      let (xs, rest) ← readBasicLines? false rest
      some (x :: xs, rest)
  | c :: rest =>
    if skipping && isBlank c then readBasicLines? true rest
    else if isPlain c && c != '\\' then
      (readBasicLines? false rest).map fun (xs, rest) => (c :: xs, rest)
    else none
  | [] => none

/-- Read up to three closing single quotes; up to two more before them belong to the text. -/
def readLiteralLines? : Reader (List Char)
  | '\'' :: '\'' :: '\'' :: '\'' :: '\'' :: rest => some (['\'', '\''], rest)
  | '\'' :: '\'' :: '\'' :: '\'' :: rest => some (['\''], rest)
  | '\'' :: '\'' :: '\'' :: rest => some ([], rest)
  | '\r' :: '\n' :: rest => (readLiteralLines? rest).map fun (xs, rest) => ('\n' :: xs, rest)
  | c :: rest =>
    if isPlain c || c == '\n' then (readLiteralLines? rest).map fun (xs, rest) => (c :: xs, rest)
    else none
  | [] => none

/-- Drop a line end that comes first. -/
def dropLineEnd (cs : List Char) : List Char := (lineEnd? cs).getD cs

/-- Read a quoted text of one line. -/
def readQuotedLine? : Reader String
  | '"' :: rest => (readBasic? rest).map fun (xs, rest) => (String.ofList xs, rest)
  | '\'' :: rest => (readLiteral? rest).map fun (xs, rest) => (String.ofList xs, rest)
  | _ => none

/-- Read a quoted text of any kind. -/
def readQuoted? : Reader String
  | '"' :: '"' :: '"' :: rest =>
    (readBasicLines? false (dropLineEnd rest)).map fun (xs, rest) => (String.ofList xs, rest)
  | '\'' :: '\'' :: '\'' :: rest =>
    (readLiteralLines? (dropLineEnd rest)).map fun (xs, rest) => (String.ofList xs, rest)
  | cs => readQuotedLine? cs

end EdgeAttributes.Toml
