import EdgeAttributes.Text.Hex

namespace EdgeAttributes.Json

open Text (hexDigit)

/-- A character, or half of a surrogate pair. -/
inductive Piece where
  | char (c : Char)
  | half (unit : Nat)
deriving DecidableEq

/-- The pieces of a text. -/
def pieces (s : String) : List Piece := s.toList.map .char

/-- The character that two halves of a surrogate pair make up. -/
def joinHalves (high low : Nat) : Char :=
  Char.ofNat (0x10000 + (high - 0xD800) * 0x400 + (low - 0xDC00))

/-- The characters of a row of pieces; none if a half is left over. -/
def joined? : List Piece → Option (List Char)
  | [] => some []
  | .char c :: rest => (joined? rest).map (c :: ·)
  | .half high :: .half low :: rest =>
    if high < 0xDC00 && 0xDC00 ≤ low then (joined? rest).map (joinHalves high low :: ·) else none
  | .half _ :: _ => none

/-- The text of a row of pieces; none if a half is left over. -/
def text? (ps : List Piece) : Option String := (joined? ps).map String.ofList

/-- The piece of a number below 2^16. -/
def Piece.ofUnit (n : Nat) : Piece :=
  if 0xD800 ≤ n ∧ n < 0xE000 then .half n else .char (Char.ofNat n)

/-- The escape that writes a number in four hexadecimal digits. -/
def escapeUnit (n : Nat) : List Char :=
  ['\\', 'u', hexDigit (n / 0x1000 % 16), hexDigit (n / 0x100 % 16), hexDigit (n / 0x10 % 16),
    hexDigit (n % 16)]

/-- The letter that escapes a character, for those that have one. -/
def letterOf? (c : Char) : Option Char :=
  if c = '"' then some '"'
  else if c = '\\' then some '\\'
  else if c = Char.ofNat 8 then some 'b'
  else if c = Char.ofNat 12 then some 'f'
  else if c = '\n' then some 'n'
  else if c = '\r' then some 'r'
  else if c = '\t' then some 't'
  else none

/-- The character that a letter escapes. A slash may be escaped, though it need not be. -/
def ofLetter? (c : Char) : Option Char :=
  if c = '"' then some '"'
  else if c = '\\' then some '\\'
  else if c = '/' then some '/'
  else if c = 'b' then some (Char.ofNat 8)
  else if c = 'f' then some (Char.ofNat 12)
  else if c = 'n' then some '\n'
  else if c = 'r' then some '\r'
  else if c = 't' then some '\t'
  else none

/-- Characters below the space may not stand in quotes unescaped. -/
def isControl (c : Char) : Bool := c.toNat < 0x20

/-- How a piece is written in quotes. Everything but the quote, the backslash and the control
    characters is written as it is. -/
def Piece.write : Piece → List Char
  | .half n => escapeUnit n
  | .char c =>
    match letterOf? c with
    | some letter => ['\\', letter]
    | none => if isControl c then escapeUnit c.toNat else [c]

/-- A row of pieces in quotes. -/
def quote (ps : List Piece) : List Char := '"' :: ps.flatMap Piece.write ++ ['"']

/-- Read pieces up to the closing quote, and return what follows it. -/
def readPieces? : List Char → Option (List Piece × List Char)
  | '"' :: rest => some ([], rest)
  | '\\' :: 'u' :: a :: b :: c :: d :: rest => do
    let n ← Text.digitsValue? 16 [a, b, c, d]
    let (ps, rest) ← readPieces? rest
    some (.ofUnit n :: ps, rest)
  | '\\' :: letter :: rest => do
    let c ← ofLetter? letter
    let (ps, rest) ← readPieces? rest
    some (.char c :: ps, rest)
  | c :: rest =>
    if isControl c || c == '\\' then none
    else (readPieces? rest).map fun (ps, rest) => (.char c :: ps, rest)
  | [] => none

theorem length_readPieces? {cs rest : List Char} {ps : List Piece}
    (h : readPieces? cs = some (ps, rest)) : rest.length < cs.length := by
  fun_induction readPieces? cs generalizing ps with
  | case1 rest' =>
    cases h
    simp
  | case2 a b c d more ih =>
    simp only [Option.bind_eq_bind, Option.bind_eq_some_iff] at h
    obtain ⟨n, _, ⟨qs, left⟩, hmore, heq⟩ := h
    cases heq
    have : left.length < more.length := ih hmore
    simp only [List.length_cons]
    omega
  | case3 letter more _ ih =>
    simp only [Option.bind_eq_bind, Option.bind_eq_some_iff] at h
    obtain ⟨c, _, ⟨qs, left⟩, hmore, heq⟩ := h
    cases heq
    have : left.length < more.length := ih hmore
    simp only [List.length_cons]
    omega
  | case4 => cases h
  | case5 c more _ _ _ hc ih =>
    obtain ⟨⟨qs, left⟩, hmore, heq⟩ := Option.map_eq_some_iff.1 h
    cases heq
    have : rest.length < more.length := ih hmore
    simp only [List.length_cons]
    omega
  | case6 => cases h

end EdgeAttributes.Json
